import CrickerOs.Loader.Layout
import CrickerOs.Paging.SharedHalf

namespace CrickerOs.Loader

open Library Library.Outcome Library.Bytes Paging Function List

structure AddressSpace where
  root : ℕ
  tables : Tables
  memory : ℕ → Bytes
  region : List ℕ

/-- What a new address space takes from the rest of the kernel: a region of so many frames, the entries of the
kernel's root, the contents of memory, and whether there is still room for a space and its tag. -/
structure Kernel where
  create : ℕ → Option (List ℕ)
  kernelRoot : ℕ → ℕ
  tables : Tables
  memory : ℕ → Bytes
  admits : Bool

def asOverhead : ℕ := 16

variable (F : PageFormat)

namespace AddressSpace

def mapper (s : AddressSpace) : Mapper := ⟨s.root, .low⟩

def new {ε : Type} (k : Kernel) (contentPages : ℕ) : Outcome ε (Option AddressSpace) := do
  let pages ← add 64 contentPages asOverhead
  pure <| match k.create pages with
    | some (root :: region) =>
      if k.admits then
        some { root := root, tables := shareKernelHalf F root k.kernelRoot (k.tables.zero root), memory :=
               k.memory, region := region }
      else none
    | _ => none

def mapNew (s : AddressSpace) (va : ℕ) (flags : Flags) : Except MapError (ℕ × AddressSpace) :=
  match s.region with
  | [] => .error .outOfFrames
  | frame :: region =>
    match s.mapper.map F va frame flags s.tables region with
    | (.error e, _, _) => .error e
    | (.ok _, tables, region) =>
      .ok (frame, { s with tables := tables, memory := Function.update s.memory frame zeroPage, region := region })

def write (s : AddressSpace) (frame : ℕ) (page : Bytes) : AddressSpace :=
  { s with memory := Function.update s.memory frame page }

def view (s : AddressSpace) : Layout :=
  fun p => (s.mapper.translate F (p * pageSize) s.tables).map fun (pa, flags) => (s.memory pa, flags)

def byteAt (s : AddressSpace) (va : ℕ) : Option UInt8 :=
  match s.mapper.translate F va s.tables with
  | some (pa, _) => (s.memory (pa / pageSize * pageSize))[pa % pageSize]?
  | none => none

end AddressSpace

variable {F} {s s' : AddressSpace} {va frame : ℕ} {flags : Flags}

lemma write_memory {page : Bytes} : (s.write frame page).memory = update s.memory frame page := rfl

structure Backed (F : PageFormat) (s : AddressSpace) (used : List ℕ) (mapped : ℕ → Option (ℕ × Flags)) : Prop where
  represents : Represents F s.mapper (bare F s.root s.tables) used mapped
  fresh : Fresh F used s.region
  frames : ∀ p x, mapped p = some x → x.1 ∈ used ∧ F.Fits x.1
  injective : ∀ p q x y, mapped p = some x → mapped q = some y → x.1 = y.1 → p = q

def Sound (F : PageFormat) (s : AddressSpace) : Prop := ∃ used mapped, Backed F s used mapped

variable {mapped : ℕ → Option (ℕ × Flags)}

variable {used : List ℕ}

lemma Backed.translate_eq (hF : Roomy F) (h : Backed F s used mapped)
    (va : ℕ) : s.mapper.translate F va s.tables = if F.inHalf .low va then report mapped va else none := by
  have hite : s.mapper.translate F va (bare F s.root s.tables) = if F.inHalf .low va then report mapped va
    else none :=
    h.represents.translate_eq_ite hF.toLawful va
  rw [← hite]
  exact translate_bare hF h.represents

lemma Backed.view_eq (hF : Roomy F) (h : Backed F s used mapped)
    {p : ℕ} (hp : F.inHalf .low (p * pageSize)) : s.view F p = (mapped p).map fun x => (s.memory x.1, x.2) := by
  have hdiv : p * pageSize / pageSize = p := Nat.mul_div_cancel _ (by decide)
  have hmod : p * pageSize % pageSize = 0 := Nat.mul_mod_left _ _
  rw [AddressSpace.view, h.translate_eq hF, if_pos hp, report, hdiv, hmod, Option.map_map]
  rfl

lemma view_of_high {p : ℕ} (hp : ¬ F.inHalf .low (p * pageSize)) : s.view F p = none := by
  have htranslate : s.mapper.translate F (p * pageSize) s.tables = none := by
    rw [Mapper.translate, if_pos]
    simpa [AddressSpace.mapper] using hp
  rw [AddressSpace.view, htranslate]
  rfl

lemma low_of_view {p : ℕ} {x : Bytes × Flags} (h : s.view F p = some x) : F.inHalf .low (p * pageSize) := by
  by_contra hp
  rw [view_of_high hp] at h
  exact nomatch h

lemma byteAt_eq (hF : Roomy F) (h : Sound F s) {va : ℕ} {page : Bytes}
    (hpage : s.view F (va / pageSize) = some (page, flags)) : s.byteAt F va = page[va % pageSize]? := by
  obtain ⟨used, mapped, h⟩ := h
  have hlow := low_of_view hpage
  have hva : F.inHalf .low va := (inHalf_low_page hF).mpr hlow
  rw [h.view_eq hF hlow] at hpage
  obtain ⟨x, hx, hsome⟩ := Option.map_eq_some_iff.mp hpage
  obtain ⟨hmemory, -⟩ := Prod.mk.inj hsome
  have halign := (h.frames _ _ hx).2.1
  have hframe : (x.1 + va % pageSize) / pageSize * pageSize = x.1 := by
    simp only [pageSize] at halign ⊢
    omega
  have hoffset : (x.1 + va % pageSize) % pageSize = va % pageSize := by
    simp only [pageSize] at halign ⊢
    omega
  simp only [AddressSpace.byteAt, h.translate_eq hF, if_pos hva, report, hx, Option.map_some, hframe, hoffset,
    hmemory]

lemma Backed.grow {used used' rest : List ℕ} {frame p : ℕ} {tables : Tables}
    {memory : ℕ → Bytes} (h : Backed F s used mapped) (hregion : s.region = frame :: rest) {rest' : List ℕ}
    (hrep : Represents F s.mapper (bare F s.root tables) used' (update mapped p (some (frame, flags))))
    (hfresh : Fresh F used' rest') (hrest : rest' ⊆ rest) :
    Backed F ⟨s.root, tables, memory, rest'⟩ (used' ++ frame :: used) (update mapped p (some (frame, flags))) := by
  have hall : Fresh F used (frame :: rest) := hregion ▸ h.fresh
  have hnew := hall.unused frame mem_cons_self
  have hold {q : ℕ} {x : ℕ × Flags} (hq : q ≠ p) (hx : update mapped p (some (frame, flags)) q = some x) :
      mapped q = some x := by rwa [update_of_ne hq] at hx
  have hself {x : ℕ × Flags} (hx : update mapped p (some (frame, flags)) p = some x) : x.1 = frame := by
    rw [update_self] at hx
    rw [← Option.some.inj hx]
  have hne {q : ℕ} {x : ℕ × Flags} (hx : mapped q = some x) : x.1 ≠ frame :=
    fun he => hnew (he ▸ (h.frames q x hx).1)
  refine ⟨hrep.used_mono (subset_append_left _ _), ⟨hfresh.nodup, fun f hf hmem => ?_, hfresh.fits⟩, ?_, ?_⟩
  · rcases mem_append.mp hmem with hmem | hmem
    · exact hfresh.unused f hf hmem
    · exact hall.tail.unused f (hrest hf) hmem
  · intro q x hx
    by_cases hq : q = p
    · subst hq
      rw [hself hx]
      exact ⟨mem_append_right _ mem_cons_self, hall.fits frame mem_cons_self⟩
    · obtain ⟨hused, hfits⟩ := h.frames q x (hold hq hx)
      exact ⟨mem_append_right _ (mem_cons_of_mem _ hused), hfits⟩
  · intro q r x y hx hy hxy
    by_cases hq : q = p <;> by_cases hr : r = p
    · rw [hq, hr]
    · subst hq
      exact absurd (hxy.symm.trans (hself hx)) (hne (hold hr hy))
    · subst hr
      exact absurd (hxy.trans (hself hy)) (hne (hold hq hx))
    · exact h.injective q r x y (hold hq hx) (hold hr hy) hxy

lemma Backed.mapNew (hF : Roomy F) (h : Backed F s used mapped)
    (hflags : flags ∈ Flags.portable) (hok : s.mapNew F va flags = .ok (frame, s')) :
    va % pageSize = 0 ∧ F.inHalf .low va ∧ mapped (va / pageSize) = none ∧ frame ∉ used ∧
      s'.memory = update s.memory frame zeroPage ∧
      ∀ page, ∃ used', Backed F (s'.write frame page) used'
        (update mapped (va / pageSize) (some (frame, flags))) := by
  unfold AddressSpace.mapNew at hok
  split at hok
  · exact nomatch hok
  next frame' region hregion =>
  split at hok
  · exact nomatch hok
  next tables region' heq =>
  obtain ⟨rfl, rfl⟩ := Prod.mk.inj (Except.ok.inj hok)
  have hfresh : Fresh F used (frame' :: region) := hregion ▸ h.fresh
  have hfits := hfresh.fits frame' mem_cons_self
  -- The page's frame counts as used from here on, so that no table is put in it.
  have hrep : Represents F s.mapper (bare F s.root s.tables) (frame' :: used) mapped :=
    h.represents.used_mono (subset_cons_self _ _)
  have hmap : s.mapper.map F va frame' flags (bare F s.root s.tables) region =
    (.ok (), bare F s.root tables, region') := by
    have htransfer : s.mapper.map F va frame' flags (bare F s.root s.tables) region = _ :=
      map_bare hF hrep hfresh.tail
    rw [htransfer, show (⟨s.root, .low⟩ : Mapper) = s.mapper from rfl, heq]
  have halign : va % pageSize = 0 := by
    by_contra hne
    unfold Mapper.map at hmap
    split_ifs at hmap with _ haligned
    · exact nomatch hmap
    · exact nomatch hmap
    · exact haligned (Or.inl hne)
  rcases hrep.map va hF.toLawful hfresh.tail hfits.2 hflags with
    ⟨e, t', rest, herror, -⟩ | ⟨t', rest, hmapped, hva, hnone, used', hrep', hfresh', -, hrest⟩
  · rw [hmap] at herror
    exact nomatch herror
  · rw [hmap] at hmapped
    obtain ⟨-, rfl, rfl⟩ := Prod.mk.injEq .. ▸ hmapped
    exact ⟨halign, hva, hnone, hfresh.unused frame' mem_cons_self, rfl,
      fun page => ⟨_, h.grow hregion hrep' hfresh' hrest⟩⟩

lemma mapNew_view (hF : Roomy F) (h : Sound F s) (hflags : flags ∈ Flags.portable)
    (hok : s.mapNew F va flags = .ok (frame, s')) :
    va % pageSize = 0 ∧ F.inHalf .low va ∧ s.view F (va / pageSize) = none ∧ s'.memory frame = zeroPage ∧
      ∀ page, Sound F (s'.write frame page) ∧
        (s'.write frame page).view F = update (s.view F) (va / pageSize) (some (page, flags)) := by
  obtain ⟨used, mapped, h⟩ := h
  obtain ⟨halign, hva, hnone, hnew, hmemory, hbacked⟩ := h.mapNew hF hflags hok
  have hlow : F.inHalf .low (va / pageSize * pageSize) := (inHalf_low_page hF).mp hva
  refine ⟨halign, hva, ?_, ?_, fun page => ?_⟩
  · rw [h.view_eq hF hlow, hnone]
    rfl
  · rw [hmemory, update_self]
  · obtain ⟨used', hbacked⟩ := hbacked page
    refine ⟨⟨_, _, hbacked⟩, funext fun p => ?_⟩
    by_cases hp : F.inHalf .low (p * pageSize)
    · rw [hbacked.view_eq hF hp]
      by_cases hself : p = va / pageSize
      · subst hself
        rw [update_self, update_self, Option.map_some, write_memory]
        rw [update_self]
      · rw [update_of_ne hself, update_of_ne hself, h.view_eq hF hp]
        cases hx : mapped p with
        | none => rfl
        | some x =>
          have hne : x.1 ≠ frame := fun he => hnew (he ▸ (h.frames p x hx).1)
          rw [Option.map_some, Option.map_some, write_memory, hmemory, update_of_ne hne,
            update_of_ne hne]
    · have hself : p ≠ va / pageSize := fun he => hp (he ▸ hlow)
      rw [view_of_high hp, update_of_ne hself, view_of_high hp]

lemma mapNew_wrongHalf (h : s.mapNew F va flags = .error .wrongHalf) : ¬ F.inHalf .low va := by
  intro hlow
  unfold AddressSpace.mapNew at h
  split at h
  · exact nomatch h
  · split at h
    next heq =>
      cases h
      unfold Mapper.map at heq
      rw [if_neg (by simpa [AddressSpace.mapper] using hlow)] at heq
      split_ifs at heq
      · exact nomatch heq
      · split at heq
        · exact nomatch heq
        · dsimp only at heq
          split_ifs at heq <;> exact nomatch heq
    · exact nomatch h

def Kernel.Provides (F : PageFormat) (k : Kernel) : Prop :=
  ∀ n frames, k.create n = some frames → frames.Nodup ∧ ∀ f ∈ frames, F.Fits f

lemma new_view {ε : Type} {k : Kernel} {n : ℕ} (hF : Roomy F) (hk : k.Provides F)
    (hok : (AddressSpace.new F k n : Outcome ε _) = ok (some s)) : Sound F s ∧ s.view F = fun _ => none := by
  obtain ⟨pages, -, hok⟩ := bind_eq_ok.mp hok
  have hok := Outcome.ok.inj hok
  split at hok
  · next root region hcreate =>
      split_ifs at hok
      cases hok
      obtain ⟨hnodup, hfits⟩ := hk _ _ hcreate
      obtain ⟨hroot, hnodup⟩ := nodup_cons.mp hnodup
      have hempty : Empty ⟨root, .low⟩ ⟨bare F root (k.tables.zero root), [root], fun _ => none⟩ := by
        refine ⟨fun i => ?_, rfl, rfl⟩
        simp [bare, Tables.zero]
      have hbacked : Backed F ⟨root, shareKernelHalf F root k.kernelRoot (k.tables.zero root), k.memory, region⟩
        [root]
          fun _ => none := by
        refine ⟨?_, ⟨hnodup, fun f hf hmem => ?_, fun f hf => hfits f (List.mem_cons_of_mem _ hf)⟩,
          fun _ _ h => (by cases h), fun _ _ _ _ h => (by cases h)⟩
        · dsimp only
          rw [bare_shareKernelHalf]
          exact represents_empty hF.toLawful hempty
        · rw [mem_singleton] at hmem
          exact hroot (hmem ▸ hf)
      refine ⟨⟨_, _, hbacked⟩, funext fun p => ?_⟩
      by_cases hp : F.inHalf .low (p * pageSize)
      · rw [hbacked.view_eq hF hp]
        rfl
      · exact view_of_high hp
  · cases hok

end CrickerOs.Loader

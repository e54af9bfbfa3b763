import CrickerOs.Frames.Allocator
import CrickerOs.Library.Runs

namespace CrickerOs.Frames

open Library FrameAllocator List

structure Pool where
  allocator : FrameAllocator
  held : List (List Frame)
  deriving DecidableEq, Repr

inductive PoolCall
  | markFree (start size : ℕ)
  | markUsed (start size : ℕ)
  | alloc
  | allocContiguous (count : ℕ)
  | free (frame : Frame)
  deriving DecidableEq, Repr

namespace Pool

def boot (base total : ℕ) (bitmap : List (BitVec 8)) : Option Pool :=
  (FrameAllocator.new base total bitmap).map fun allocator => { allocator, held := [] }

def Start (p : Pool) : Prop :=
  ∃ base total bitmap, base + total * frameSize ≤ 2 ^ 64 ∧ boot base total bitmap = some p

def step (p : Pool) : PoolCall → Option Pool
  | .markFree start size =>
    if start < 2 ^ 64 ∧ size < 2 ^ 64 then some { p with allocator := p.allocator.markFree start size } else none
  | .markUsed start size =>
    if start < 2 ^ 64 ∧ size < 2 ^ 64 then some { p with allocator := p.allocator.markUsed start size } else none
  | .alloc =>
    match p.allocator.alloc with
    | none => some p
    | some (frame, allocator) => some { allocator, held := [frame] :: p.held }
  | .allocContiguous count =>
    match p.allocator.allocContiguous count with
    | none => some p
    | some (frame, allocator) => some { allocator, held := (List.range count).map frame.advance :: p.held }
  | .free frame =>
    match p.allocator.free frame with
    | none => none
    | some allocator => some { allocator, held := p.held.map fun frames => frames.filter (· ≠ frame) }

def Spares (p : Pool) : PoolCall → Prop
  | .markFree start size => ∀ frames ∈ p.held, ∀ frame ∈ frames, ¬frame.Overlaps start size
  | _ => True

instance (p : Pool) : (c : PoolCall) → Decidable (p.Spares c)
  | .markFree start size =>
    inferInstanceAs (Decidable (∀ frames ∈ p.held, ∀ frame ∈ frames, ¬frame.Overlaps start size))
  | .markUsed _ _ | .alloc | .allocContiguous _ | .free _ => isTrue trivial

end Pool

structure FrameAllocator.FaithfulSet (a : FrameAllocator) : Prop where
  used : a.used = a.usedBits
  alloc_none : a.alloc = none ↔ ∀ i < a.total, a.get i
  alloc_some : ∀ frame a', a.alloc = some (frame, a') →
    ∃ i < a.total, frame = a.frameAt i ∧ a.get i = false ∧ a'.get = Function.update a.get i true
  contiguous : ∀ n, (a.allocContiguous n).isSome ↔ 0 < n ∧ n ≤ a.largestFreeRun
  contiguous_some : ∀ n frame a', a.allocContiguous n = some (frame, a') →
    ∃ k, frame = a.frameAt k ∧ a.FreeRun k n ∧ a'.get = fun i => if k ≤ i ∧ i < k + n then true else a.get i
  markUsed : ∀ start < 2 ^ 64, ∀ size, ∀ i < a.total,
    (a.markUsed start size).get i = if (a.frameAt i).Overlaps start size then true else a.get i

namespace Pool

variable {p p' : Pool} {c : PoolCall}

structure Sound (p : Pool) : Prop where
  counted : p.allocator.Counted
  span : p.allocator.base + p.allocator.total * frameSize ≤ 2 ^ 64

variable {a a' : FrameAllocator}

lemma new_get {base total : ℕ} {bitmap : List (BitVec 8)}
    (h : new base total bitmap = some a) :
    a.base = base ∧ a.total = total ∧ a.used = total ∧ a.hint = 0 ∧ ∀ i < total, a.get i := by
  unfold new at h
  split_ifs at h with hnew
  cases h
  refine ⟨rfl, rfl, rfl, rfl, fun i hi => ?_⟩
  have hbyte : i / 8 < bitmap.length := by
    have := hnew.2
    simp only [bitmapBytes] at this
    omega
  have hbit : i % 8 < 8 := Nat.mod_lt _ (by decide)
  rw [get_eq]
  simp only [getD_eq_getElem?_getD, getElem?_map, getElem?_eq_getElem hbyte, Option.map_some,
    Option.getD_some]
  interval_cases i % 8 <;> rfl

lemma Start.sound (h : p.Start) : p.Sound := by
  obtain ⟨base, total, bitmap, hspan, hboot⟩ := h
  obtain ⟨a, hnew, rfl⟩ := Option.map_eq_some_iff.mp hboot
  obtain ⟨hbase, htotal, hused, hhint, hget⟩ := new_get hnew
  refine ⟨⟨?_, hhint ▸ Nat.zero_le _⟩, by rwa [hbase, htotal]⟩
  rw [usedBits, Finset.filter_true_of_mem, Finset.card_range, hused, htotal]
  intro i hi
  exact hget i (htotal ▸ Finset.mem_range.mp hi)

lemma Sound.marks {held : List (List Frame)} {f : ℕ → Bool} (h : p.Sound)
    (hm : p.allocator.Marks a' f) : Sound ⟨a', held⟩ :=
  ⟨hm.counted h.counted, by rw [hm.base, hm.total]; exact h.span⟩

inductive Move (p : Pool) : PoolCall → Pool → Prop
  | refused {c : PoolCall} : Move p c p
  | markFree {start size : ℕ} (hstart : start < 2 ^ 64) {a' : FrameAllocator}
      (hm : p.allocator.Marks a' fun i => if i ∈ p.allocator.frameRange start size then false else p.allocator.get
      i) : Move p (.markFree start size) ⟨a', p.held⟩
  | markUsed {start size : ℕ} {a' : FrameAllocator}
      (hm : p.allocator.Marks a' fun i => if i ∈ p.allocator.frameRange start size then true else p.allocator.get
      i) : Move p (.markUsed start size) ⟨a', p.held⟩
  | take {c : PoolCall} {k n : ℕ} {a' : FrameAllocator} (hfree : p.allocator.FreeRun k n)
      (hm : p.allocator.Marks a' fun i => if k ≤ i ∧ i < k + n then true else p.allocator.get i) :
      Move p c ⟨a', (List.range n).map (fun j => p.allocator.frameAt (k + j)) :: p.held⟩
  | free {i : ℕ} {a' : FrameAllocator} (hused : p.allocator.get i)
      (hm : p.allocator.Marks a' (Function.update p.allocator.get i false)) :
      Move p (.free (p.allocator.frameAt i)) ⟨a', p.held.map fun frames => frames.filter
        (· ≠ p.allocator.frameAt i)⟩

lemma advance_frameAt (a : FrameAllocator) (k j : ℕ) : (a.frameAt k).advance j = a.frameAt (k + j) := by
  simp only [frameAt, Frame.advance, Frame.mk.injEq]
  ring

lemma Sound.move (h : p.Sound) (hs : p.step c = some p') : p.Move c p' := by
  cases c with
  | markFree start size =>
    rw [step, Option.ite_none_right_eq_some] at hs
    obtain ⟨⟨hstart, -⟩, heq⟩ := hs
    cases heq
    exact .markFree hstart (p.allocator.markFree_marks start size)
  | markUsed start size =>
    rw [step, Option.ite_none_right_eq_some] at hs
    cases hs.2
    exact .markUsed (p.allocator.markUsed_marks start size)
  | alloc =>
    rw [step] at hs
    split at hs
    · cases hs
      exact .refused
    · rename_i frame a' halloc
      cases hs
      obtain ⟨k, hk, rfl, hfree, hm⟩ := alloc_eq_some h.counted.hint halloc
      have hrun : p.allocator.FreeRun k 1 := by
        refine ⟨hk, fun j hj => ?_⟩
        obtain rfl : j = 0 := by omega
        exact hfree
      refine .take hrun ⟨hm.base, hm.total, ?_, hm.counted⟩
      rw [hm.get]
      funext i
      rw [Function.update_apply]
      exact if_congr (by omega) rfl rfl
  | allocContiguous count =>
    rw [step] at hs
    split at hs
    · cases hs
      exact .refused
    · rename_i frame a' halloc
      cases hs
      obtain ⟨k, rfl, hfree, hm⟩ := allocContiguous_eq_some halloc
      have hframes : (range count).map (p.allocator.frameAt k).advance =
          (range count).map fun j => p.allocator.frameAt (k + j) :=
        map_congr_left fun j _ => advance_frameAt p.allocator k j
      rw [hframes]
      exact .take hfree hm
  | free frame =>
    rw [step] at hs
    split at hs
    · simp at hs
    · rename_i a' hfree
      cases hs
      obtain ⟨i, -, rfl, hused, hm⟩ := free_eq_some hfree
      exact .free hused hm

lemma Sound.step (h : p.Sound) (hs : p.step c = some p') : p'.Sound := by
  cases h.move hs with
  | refused => exact h
  | markFree _ hm => exact h.marks hm
  | markUsed hm => exact h.marks hm
  | take _ hm => exact h.marks hm
  | free _ hm => exact h.marks hm

lemma Sound.faithfulSet (h : p.Sound) : p.allocator.FaithfulSet where
  used := h.counted.used
  alloc_none := alloc_eq_none_iff h.counted.hint
  alloc_some frame a' halloc := by
    obtain ⟨i, hi, hframe, hfree, hm⟩ := alloc_eq_some h.counted.hint halloc
    exact ⟨i, hi, hframe, hfree, hm.get⟩
  contiguous n := allocContiguous_isSome_iff
  contiguous_some n frame a' halloc := by
    obtain ⟨k, hframe, hfree, hm⟩ := allocContiguous_eq_some halloc
    exact ⟨k, hframe, hfree, hm.get⟩
  markUsed start hstart size i hi := by
    rw [(p.allocator.markUsed_marks start size).get]
    refine if_congr ?_ rfl rfl
    rw [mem_frameRange_iff h.span hstart]
    exact and_iff_right hi

structure Owned (p : Pool) : Prop where
  once : p.held.flatten.Nodup
  used : ∀ f ∈ p.held.flatten, ∃ i < p.allocator.total, f = p.allocator.frameAt i ∧ p.allocator.get i

lemma frameAt_injective (a : FrameAllocator) : Function.Injective a.frameAt := by
  intro i j hij
  simp only [frameAt, Frame.advance, Frame.mk.injEq, frameSize] at hij
  omega

lemma frameAt_congr (h : a'.base = a.base) (i : ℕ) : a'.frameAt i = a.frameAt i := by
  simp only [frameAt, Frame.advance, h]

lemma Owned.marks {f : ℕ → Bool} (ho : p.Owned) (hm : p.allocator.Marks a' f)
    (hkeep : ∀ i, p.allocator.frameAt i ∈ p.held.flatten → p.allocator.get i → f i) (frame : Frame)
    (hframe : frame ∈ p.held.flatten) : ∃ i < a'.total, frame = a'.frameAt i ∧ a'.get i := by
  obtain ⟨i, hi, rfl, hused⟩ := ho.used frame hframe
  exact ⟨i, hm.total ▸ hi, (frameAt_congr hm.base i).symm, by rw [hm.get]; exact hkeep i hframe hused⟩

lemma Owned.move (ho : p.Owned) (h : p.Sound) (hspare : p.Spares c) (hm : p.Move c p') : p'.Owned := by
  cases hm with
  | refused => exact ho
  | markFree hstart hm =>
    refine ⟨ho.once, ho.marks hm fun i hheld hused => ?_⟩
    obtain ⟨frames, hframes, hin⟩ := mem_flatten.mp hheld
    rw [if_neg]
    · exact hused
    · rw [mem_frameRange_iff h.span hstart]
      exact fun hcover => hspare frames hframes _ hin hcover.2
  | markUsed hm =>
    refine ⟨ho.once, ho.marks hm fun i _ hused => ?_⟩
    split
    · rfl
    · exact hused
  | @take _ k n a' hfree hm =>
    constructor
    · rw [flatten_cons, nodup_append']
      refine ⟨?_, ho.once, ?_⟩
      · refine nodup_range.map fun i j hij => ?_
        have := frameAt_injective _ hij
        omega
      · intro f hf hf'
        obtain ⟨j, hj, rfl⟩ := mem_map.mp hf
        obtain ⟨i, -, hi, hused⟩ := ho.used _ hf'
        rw [← frameAt_injective _ hi, hfree.2 j (mem_range.mp hj)] at hused
        simp at hused
    · intro f hf
      rw [flatten_cons, mem_append] at hf
      rcases hf with hf | hf
      · obtain ⟨j, hj, rfl⟩ := mem_map.mp hf
        have hlt := mem_range.mp hj
        have hend := hfree.1
        refine ⟨k + j, by rw [hm.total]; omega, (frameAt_congr hm.base _).symm, ?_⟩
        simp only [hm.get]
        rw [if_pos (by omega)]
      · refine ho.marks hm (fun i _ hused => ?_) f hf
        split
        · rfl
        · exact hused
  | @free i a' hused hm =>
    have hflat : (p.held.map fun frames => frames.filter (· ≠ p.allocator.frameAt i)).flatten =
        p.held.flatten.filter (· ≠ p.allocator.frameAt i) := filter_flatten.symm
    constructor
    · rw [hflat]
      exact ho.once.filter _
    · intro f hf
      rw [hflat, mem_filter] at hf
      obtain ⟨j, hj, rfl, hused'⟩ := ho.used f hf.1
      have hne : j ≠ i := by
        rintro rfl
        simp at hf
      exact ⟨j, hm.total ▸ hj, (frameAt_congr hm.base j).symm, by rwa [hm.get, Function.update_of_ne hne]⟩

theorem allocator_is_faithful_set (hrun : Reach step always Start p) :
    p.allocator.FaithfulSet ∧ (Reach step Spares Start p → p.held.flatten.Nodup) := by
  have hsound (ok : Pool → PoolCall → Prop) {p : Pool} (hrun : Reach Pool.step ok Start p) : p.Sound :=
    hrun.invariant Sound (fun _ h => h.sound) fun _ _ _ h _ hs => h.step hs
  refine ⟨(hsound _ hrun).faithfulSet, fun hspared => Owned.once ?_⟩
  refine hspared.invariant_of Owned (fun p h => ?_) fun p c p' hp ho hspare hs => ?_
  · obtain ⟨base, total, bitmap, -, hboot⟩ := h
    obtain ⟨a, -, rfl⟩ := Option.map_eq_some_iff.mp hboot
    constructor <;> simp
  · exact ho.move (hsound _ hp) hspare ((hsound _ hp).move hs)

theorem allocator_is_faithful_set_three :
    ∃ p₀ p, boot 8192 3 [0] = some p₀ ∧
      execute step Spares p₀ [.markFree 8192 12288, .alloc, .allocContiguous 2, .free ⟨8192, rfl⟩,
        .markUsed 0 8193] = some p ∧ p.held = [[⟨12288, rfl⟩, ⟨16384, rfl⟩], []] ∧ p.allocator.FaithfulSet ∧
        p.held.flatten.Nodup := by
  obtain ⟨p₀, hboot⟩ : ∃ p₀, boot 8192 3 [0] = some p₀ := ⟨_, rfl⟩
  have hstart : Start p₀ := ⟨8192, 3, [0], by decide, hboot⟩
  refine ⟨p₀, ?_⟩
  simp only [hboot, true_and]
  refine Reach.exists_execute hstart (fun p hreach _ => ?_) (by cases hboot; decide +kernel)
  obtain ⟨hset, honce⟩ := allocator_is_faithful_set (hreach.mono fun _ _ _ => trivial)
  exact ⟨hset, honce hreach⟩

theorem freed_again_held_twice :
    ∃ p₀ p, boot 0 1 [0] = some p₀ ∧
      execute step always p₀ [.markFree 0 4096, .alloc, .markFree 0 4096, .alloc] = some p ∧
      p.held = [[⟨0, rfl⟩], [⟨0, rfl⟩]] := by
  obtain ⟨p₀, hboot⟩ : ∃ p₀, boot 0 1 [0] = some p₀ := ⟨_, rfl⟩
  refine ⟨p₀, ?_⟩
  obtain rfl := Option.some.inj hboot
  simp only [hboot, true_and]
  apply exists_execute
  decide +kernel

end Pool

end CrickerOs.Frames

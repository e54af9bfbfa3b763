import CrickerOs.Caretaker.Caretakers

namespace CrickerOs.Caretaker

open Library FsProto World World Cells

section

def Sent.handle (e : Sent) : UInt64 := reqHandle e.w0

def Sent.minted (e : Sent) : Option UInt64 :=
  match Verb.of (op e.w0) with
  | some v => if v.mintsHandle ∧ 0 ≤ e.reply then some e.reply.toUInt64 else none
  | none => none

def live : List Sent → List UInt64
  | [] => []
  | e :: log =>
    if op e.w0 = Op.CLOSE.code then (live log).filter (· ≠ e.handle)
    else
      match e.minted with
      | some h => h :: live log
      | none => live log

variable (dir : UInt64)

def Allowed (log : List Sent) (h : UInt64) : Prop := h = dir ∨ h ∈ live log

def Confined : List Sent → Prop
  | [] => True
  | e :: log => (Allowed dir log e.handle ∧ (op e.w0 = Op.RENAME.code → Allowed dir log (dstHandle e.w1))) ∧
      Confined log

def Honest : List Sent → Prop
  | [] => True
  | e :: log => (∀ h ∈ e.minted, h ≤ MAX_HANDLE ∧ h ≠ dir ∧ h ∉ live log) ∧ Honest log

def Sent.Filtered (set : Bytes) (e : Sent) : Prop :=
  ∀ v, Verb.of (op e.w0) = some v →
    (v.takesName → e.handle = dir → Nameset.contains set (e.page.get 0 (reqLen e.w0)) = true) ∧
    (v.operand = .Rename → dstHandle e.w1 = dir →
      Nameset.contains set (e.page.get (reqLen e.w0) (dstLen e.w1)) = true)

instance (log : List Sent) (h : UInt64) : Decidable (Allowed dir log h) := inferInstanceAs (Decidable (_ ∨ _))

instance decidableConfined : (log : List Sent) → Decidable (Confined dir log)
  | [] => isTrue trivial
  | _ :: log =>
    have := decidableConfined log
    inferInstanceAs (Decidable (_ ∧ _))

def decidableMinted {P : UInt64 → Prop} [DecidablePred P] : (minted : Option UInt64) →
    Decidable (∀ h ∈ minted, P h)
  | none => isTrue nofun
  | some h => decidable_of_iff (P h) (by simp)

instance decidableHonest : (log : List Sent) → Decidable (Honest dir log)
  | [] => isTrue trivial
  | e :: log =>
    have := decidableHonest log
    have := @decidableMinted (fun h => h ≤ MAX_HANDLE ∧ h ≠ dir ∧ h ∉ live log) (fun _ => inferInstance) e.minted
    inferInstanceAs (Decidable (_ ∧ _))

variable {dir} {e : Sent} {log : List Sent}

lemma Confined.cons (e : Sent) (hlog : Confined dir log) (hhandle : Allowed dir log e.handle)
    (h : op e.w0 ≠ Op.RENAME.code) : Confined dir (e :: log) :=
  ⟨⟨hhandle, fun hop => absurd hop h⟩, hlog⟩

lemma live_of_none (e : Sent) (hclose : op e.w0 ≠ Op.CLOSE.code) (h : e.minted = none) :
    live (e :: log) = live log := by
  rw [live, if_neg hclose, h]

lemma live_of_some (e : Sent) {h : UInt64} (hclose : op e.w0 ≠ Op.CLOSE.code) (hm : e.minted = some h) :
    live (e :: log) = h :: live log := by
  rw [live, if_neg hclose, hm]

lemma live_of_close (e : Sent) (hclose : op e.w0 = Op.CLOSE.code) :
    live (e :: log) = (live log).filter (· ≠ e.handle) := by
  rw [live, if_pos hclose]

end

variable {σ : Type} {up : Upstream σ} {dir : UInt64} {w : World σ}

abbrev sentBy (up : Upstream σ) (w0 w1 : UInt64) (w : World σ) : Sent :=
  ⟨w0, w1, w.page, (World.forward up w0 w1 w).1⟩

lemma log_forward {w0 w1 : UInt64} : (forward up w0 w1 w).2.log = sentBy up w0 w1 w :: w.log := rfl

lemma table_forward {w0 w1 : UInt64} : (forward up w0 w1 w).2.table = w.table := rfl

structure Sound (dir : UInt64) (w : World σ) : Prop where
  root : Cells.lookup w.table 0 = some dir
  held : ∀ i h, Cells.lookup w.table i = some h → i ≠ 0 → h ∈ live w.log ∧ h ≤ MAX_HANDLE ∧ h ≠ dir
  apart : ∀ i j h, Cells.lookup w.table i = some h → Cells.lookup w.table j = some h → i = j
  confined : Confined dir w.log

namespace Sound

lemma withPage {page : Page} (h : Sound dir w) : Sound dir { w with page := page } :=
  ⟨h.root, h.held, h.apart, h.confined⟩

variable {client server : UInt64}

lemma allowed {i : ℕ} (h : Sound dir w) (hget : lookup w.table i = some server) : Allowed dir w.log server := by
  by_cases hi : i = 0
  · rw [hi, h.root] at hget
    exact Or.inl (Option.some.inj hget).symm
  · exact Or.inr (h.held i server hget hi).1

lemma le_max {i : ℕ} (hdir : dir ≤ MAX_HANDLE) (h : Sound dir w) (hget : lookup w.table i = some server) :
    server ≤ MAX_HANDLE := by
  by_cases hi : i = 0
  · rw [hi, h.root] at hget
    rwa [← Option.some.inj hget]
  · exact (h.held i server hget hi).2.1

lemma eq_zero {i : ℕ} (h : Sound dir w) (hget : lookup w.table i = some dir) : i = 0 := by
  by_contra hi
  exact (h.held i dir hget hi).2.2 rfl

lemma forward {w0 w1 : UInt64} (h : Sound dir w) (hclose : op w0 ≠ Op.CLOSE.code)
    (hhandle : Allowed dir w.log (reqHandle w0))
    (hdst : op w0 = Op.RENAME.code → Allowed dir w.log (dstHandle w1)) : Sound dir (forward up w0 w1 w).2 := by
  refine ⟨h.root, fun i s hget hi => ?_, h.apart, ?_⟩
  · obtain ⟨hlive, hrest⟩ := h.held i s hget hi
    refine ⟨?_, hrest⟩
    rw [log_forward]
    cases hm : (sentBy up w0 w1 w).minted with
    | none => rwa [live_of_none _ hclose hm]
    | some r =>
      rw [live_of_some _ hclose hm]
      exact List.mem_cons_of_mem _ hlive
  · rw [log_forward]
    exact ⟨⟨hhandle, hdst⟩, h.confined⟩

lemma forward_close {w1 : UInt64} (h : Sound dir w) (hle : server ≤ MAX_HANDLE)
    (hallowed : Allowed dir w.log server) (hfree : ∀ i, i ≠ 0 → lookup w.table i ≠ some server) :
    Sound dir (World.forward up (req Op.CLOSE.code server 0) w1 w).2 := by
  have hhandle : reqHandle (req Op.CLOSE.code server 0) = server := by
    rw [reqHandle_req, and_maxHandle hle]
  have hop : op (req Op.CLOSE.code server 0) = Op.CLOSE.code := op_req
  refine ⟨h.root, fun i s hget hi => ?_, h.apart, ?_⟩
  · obtain ⟨hlive, hrest⟩ := h.held i s hget hi
    refine ⟨?_, hrest⟩
    rw [log_forward, live_of_close _ hop, List.mem_filter]
    refine ⟨hlive, decide_eq_true ?_⟩
    rintro rfl
    rw [Sent.handle, hhandle] at hget
    exact hfree i hi hget
  · rw [log_forward]
    refine h.confined.cons _ ?_ ?_
    · rw [Sent.handle, hhandle]
      exact hallowed
    · rw [hop]
      decide

lemma close (hdir : dir ≤ MAX_HANDLE) (h : Sound dir w) (hget : w.get client = some server) :
    Sound dir (close up client server w).2 := by
  rw [World.close]
  split_ifs with hroot
  · exact h
  · have hclient : client.toNat ≠ 0 := fun hzero => hroot (UInt64.toNat_inj.mp hzero)
    have hcleared : Sound dir { w with table := clear w.table client.toNat } := by
      refine ⟨?_, fun i s hi => ?_, fun i j s hi hj => ?_, h.confined⟩
      · rw [lookup_clear_of_ne hclient]
        exact h.root
      · exact h.held i s (lookup_of_lookup_clear hi).2
      · exact h.apart i j s (lookup_of_lookup_clear hi).2 (lookup_of_lookup_clear hj).2
    refine hcleared.forward_close (h.le_max hdir hget) (h.allowed hget) fun i _ hi => ?_
    obtain ⟨hne, hi⟩ := lookup_of_lookup_clear hi
    exact hne (h.apart i client.toNat server hi hget)

lemma install (h : Sound dir w) (hle : server ≤ MAX_HANDLE) (hne : server ≠ dir) (hlive : server ∈ live w.log)
    (hfree : ∀ i, lookup w.table i ≠ some server) : Sound dir (install up server w).2 := by
  rw [World.install]
  cases hv : vacancy 1 w.table with
  | none => exact h.forward_close hle (Or.inr hlive) fun i _ => hfree i
  | some k =>
    obtain ⟨hpos, hlt, -, -⟩ := vacancy_eq_some hv
    -- the slot holds the new handle, every other what it held
    have hput : ∀ i s, lookup (put w.table k server) i = some s →
        (i = k ∧ s = server) ∨ (i ≠ k ∧ lookup w.table i = some s) := by
      intro i s hi
      by_cases hik : i = k
      · rw [hik, lookup_put_self hlt] at hi
        exact Or.inl ⟨hik, (Option.some.inj hi).symm⟩
      · rw [lookup_put_of_ne (Ne.symm hik)] at hi
        exact Or.inr ⟨hik, hi⟩
    refine ⟨?_, fun i s hi hi0 => ?_, fun i j s hi hj => ?_, h.confined⟩
    · change lookup (put w.table k server) 0 = some dir
      rw [lookup_put_of_ne (by omega)]
      exact h.root
    · rcases hput i s hi with ⟨-, rfl⟩ | ⟨-, hi⟩
      · exact ⟨hlive, hle, hne⟩
      · exact h.held i s hi hi0
    · rcases hput i s hi with ⟨hik, hs⟩ | ⟨-, hi⟩
      · rcases hput j s hj with ⟨hjk, -⟩ | ⟨-, hj⟩
        · exact hik.trans hjk.symm
        · exact absurd (hs ▸ hj) (hfree j)
      · rcases hput j s hj with ⟨-, hs⟩ | ⟨-, hj⟩
        · exact absurd (hs ▸ hi) (hfree i)
        · exact h.apart i j s hi hj

lemma honest_of_install (h : Honest dir (World.install up server w).2.log) : Honest dir w.log := by
  rw [World.install] at h
  cases hv : vacancy 1 w.table with
  | none =>
    rw [hv] at h
    exact h.2
  | some k =>
    rw [hv] at h
    exact h

lemma pass {code w1 : UInt64} {v : Verb} {len : ℕ} (hdir : dir ≤ MAX_HANDLE) (h : Sound dir w)
    (hv : Verb.of code = some v) (hclose : code ≠ Op.CLOSE.code) (hrename : v.operand ≠ .Rename)
    (hget : w.get client = some server) (hhonest : Honest dir (pass up code v server len w1 w).2.log) :
    Sound dir (pass up code v server len w1 w).2 := by
  obtain ⟨hrow, rfl⟩ := Verb.of_eq_some hv
  rw [World.pass] at hhonest ⊢
  dsimp only at hhonest ⊢
  set w0 := req v.op.code server (if v.carriesLen then UInt64.ofNat len else 0) with hw0
  set second := if v.carriesW1 then w1 else 0
  have hop : op w0 = v.op.code := op_req
  have hhandle : reqHandle w0 = server := by
    rw [hw0, reqHandle_req, and_maxHandle (h.le_max hdir hget)]
  have hforward : Sound dir (World.forward up w0 second w).2 := by
    apply h.forward
    · rwa [hop]
    · rw [hhandle]
      exact h.allowed hget
    · rw [hop]
      intro hren
      exact absurd (Verb.operand_of_rename hrow (Op.code_injective hren)) hrename
  split_ifs at hhonest ⊢ with hplain
  · exact hforward
  · rw [not_or, Bool.not_eq_true', Bool.not_eq_false, Int64.not_lt] at hplain
    have hminted : (sentBy up w0 second w).minted = some (World.forward up w0 second w).1.toUInt64 := by
      rw [Sent.minted, hop, hv]
      exact if_pos hplain
    obtain ⟨hnew, -⟩ := honest_of_install hhonest
    obtain ⟨hle, hne, hfresh⟩ := hnew _ hminted
    apply hforward.install hle hne
    · rw [log_forward, live_of_some _ (by rwa [hop]) hminted]
      exact List.mem_cons_self
    · intro i hi
      rw [table_forward] at hi
      rcases h.allowed hi with heq | hmem
      · exact hne heq
      · exact hfresh hmem

lemma rename {dst src newLen : UInt64} {code w1 : UInt64} {v : Verb} (hdir : dir ≤ MAX_HANDLE) (h : Sound dir w)
    (hv : Verb.of code = some v) (hclose : code ≠ Op.CLOSE.code) (hget : w.get client = some server)
    (hdst : w.get w1 = some dst) : Sound dir (World.forward up (req code server src) (renameDst dst newLen)
      w).2 := by
  obtain ⟨-, rfl⟩ := Verb.of_eq_some hv
  apply h.forward
  · rwa [op_req]
  · rw [reqHandle_req, and_maxHandle (h.le_max hdir hget)]
    exact h.allowed hget
  · intro _
    rw [dstHandle_renameDst, and_maxHandle (h.le_max hdir hdst)]
    exact h.allowed hdst

end Sound

def start (dir : UInt64) (above : σ) (page : Page) : World σ := ⟨above, page, tableOf dir, []⟩

lemma sound_start {above : σ} {page : Page} : Sound dir (start dir above page) := by
  have hfree : ∀ i h, lookup (tableOf dir) i = some h → i = 0 := by
    intro i h hi
    rw [lookup_eq_some, tableOf] at hi
    cases i with
    | zero => rfl
    | succ i =>
      rw [List.getElem?_cons_succ, List.getElem?_replicate] at hi
      split_ifs at hi
      exact nomatch hi
  refine ⟨rfl, fun i h hi hi0 => absurd (hfree i h hi) hi0, fun i j h hi hj => ?_, trivial⟩
  rw [hfree i h hi, hfree j h hj]

lemma Subtree.sound_serve {q : Asked} (hdir : dir ≤ MAX_HANDLE) (h : Sound dir w)
    (hhonest : Honest dir (Subtree.serve up w q).2.log) : Sound dir (Subtree.serve up w q).2 := by
  have h := @Sound.withPage _ _ _ q.page h
  rw [Subtree.serve] at hhonest ⊢
  cases hget : get { w with page := q.page } (reqHandle q.w0) with
  | none => exact h
  | some server =>
    rw [hget] at hhonest
    cases hv : Verb.of (op q.w0) with
    | none => exact h
    | some v =>
      rw [hv] at hhonest
      dsimp only at hhonest ⊢
      split_ifs at hhonest ⊢ with hclose hrename
      · exact h.close hdir hget
      · cases hdst : get { w with page := q.page } (dstHandle q.w1) with
        | none => exact h
        | some dst => exact h.rename hdir hv hclose hget hdst
      · exact h.pass hdir hv hclose hrename hget hhonest

namespace NameSet

variable {page : Page} {off len : ℕ} {set : Bytes}

lemma putAt_nameAt : putAt page off (nameAt page off len) = page := by
  rw [nameAt]
  split_ifs with h
  · rw [putAt, List.take_nil, Page.put_nil]
  · rw [putAt, List.take_of_length_le, Page.put_get]
    rw [Page.length_get]
    omega

lemma contains_get (h : Nameset.contains set (nameAt page off len) = true) :
    Nameset.contains set (page.get off len) = true := by
  rw [nameAt] at h
  split_ifs at h
  · rw [Nameset.contains_nil] at h
    exact nomatch h
  · exact h

lemma len_lt (n : ℕ) : min n PAGE < 2 ^ 40 := by
  unfold PAGE
  omega

lemma filtered_close {h w1 : UInt64} {r : Int64} : (⟨req Op.CLOSE.code h 0, w1, page, r⟩ : Sent).Filtered dir
    set := by
  intro v hv
  have hrow : v = Verb.row .CLOSE .None false false 0 := by
    rw [op_req] at hv
    exact (Option.some.inj hv).symm
  rw [hrow]
  exact ⟨nofun, nofun⟩

def AllFiltered (dir : UInt64) (set : Bytes) (w : World σ) : Prop := ∀ e ∈ w.log, e.Filtered dir set

lemma AllFiltered.forward {w0 w1 : UInt64} (h : AllFiltered dir set w)
    (hnew : (sentBy up w0 w1 w).Filtered dir set) : AllFiltered dir set (forward up w0 w1 w).2 := by
  intro e he
  rw [log_forward] at he
  rcases List.mem_cons.mp he with rfl | he
  · exact hnew
  · exact h e he

lemma AllFiltered.install {server : UInt64} (h : AllFiltered dir set w) :
    AllFiltered dir set (install up server w).2 := by
  rw [World.install]
  cases vacancy 1 w.table with
  | none => exact h.forward filtered_close
  | some i => exact h

lemma AllFiltered.close {client server : UInt64} (h : AllFiltered dir set w) :
    AllFiltered dir set (close up client server w).2 := by
  rw [World.close]
  split_ifs
  · exact h
  · exact AllFiltered.forward h filtered_close

lemma AllFiltered.pass {code server w1 : UInt64} {v : Verb} (h : AllFiltered dir set w)
    (hv : Verb.of code = some v) (hrename : v.operand ≠ .Rename) (hle : server ≤ MAX_HANDLE) (hlen : len < 2 ^ 40)
    (hname : v.operand = .Name → server = dir → Nameset.contains set (w.page.get 0 len) = true) :
    AllFiltered dir set (pass up code v server len w1 w).2 := by
  obtain ⟨-, rfl⟩ := Verb.of_eq_some hv
  have hsent : AllFiltered dir set (World.forward up (req v.op.code server
      (if v.carriesLen then UInt64.ofNat len else 0)) (if v.carriesW1 then w1 else 0) w).2 := by
    apply h.forward
    intro v' hv'
    rw [op_req, hv] at hv'
    cases hv'
    refine ⟨fun htakes hhandle => ?_, fun hren => absurd hren hrename⟩
    have hoperand : v.operand = .Name := by
      simpa [Verb.takesName, hrename] using htakes
    have hcarries : v.carriesLen = true := by
      rw [Verb.carriesLen, hoperand]
      rfl
    rw [Sent.handle, reqHandle_req, and_maxHandle hle] at hhandle
    rw [if_pos hcarries, reqLen_req_ofNat hlen]
    exact hname hoperand hhandle
  rw [World.pass]
  dsimp only
  set w0 := req v.op.code server (if v.carriesLen then UInt64.ofNat len else 0)
  set second := if v.carriesW1 then w1 else 0
  split_ifs
  · exact hsent
  · exact hsent.install

lemma serve_sound {q : Asked} (hdir : dir ≤ MAX_HANDLE) (h : Sound dir w) (hfiltered : AllFiltered dir set w)
    (hhonest : Honest dir (serve up dir set w q).2.log) :
    Sound dir (serve up dir set w q).2 ∧ AllFiltered dir set (serve up dir set w q).2 := by
  have h := @Sound.withPage _ _ _ q.page h
  rw [serve] at hhonest ⊢
  -- the names written back are the ones that were there
  simp only [putAt_nameAt, ite_self] at hhonest ⊢
  cases hget : get { w with page := q.page } (reqHandle q.w0) with
  | none => exact ⟨h, hfiltered⟩
  | some server =>
    rw [hget] at hhonest
    cases hv : Verb.of (op q.w0) with
    | none => exact ⟨h, hfiltered⟩
    | some v =>
      rw [hv] at hhonest
      have hroot : server = dir → reqHandle q.w0 = ROOT := by
        rintro rfl
        exact UInt64.toNat_inj.mp (h.eq_zero hget)
      dsimp only at hhonest ⊢
      split_ifs at hhonest ⊢ with hrefused hclose hlist hrename hnames
      · exact ⟨h, hfiltered⟩
      · exact ⟨h.close hdir hget, AllFiltered.close hfiltered⟩
      · exact ⟨h.withPage, hfiltered⟩
      · exact ⟨h, hfiltered⟩
      · cases hdst : get { w with page := q.page } (dstHandle q.w1) with
        | none => exact ⟨h, hfiltered⟩
        | some dst =>
          refine ⟨h.rename hdir hv hclose hget hdst, AllFiltered.forward hfiltered fun v' hv' => ?_⟩
          rw [not_or] at hnames
          obtain ⟨-, hcode⟩ := Verb.of_eq_some hv
          rw [hcode, op_req] at hv'
          rw [Sent.handle, hcode, reqHandle_req, dstHandle_renameDst, and_maxHandle (h.le_max hdir hget),
            and_maxHandle (h.le_max hdir hdst), reqLen_req_ofNat (len_lt _), dstLen_renameDst_ofNat (len_lt _)]
          refine ⟨fun _ hserver => contains_get ?_, fun _ hdst' => contains_get ?_⟩
          · by_contra hout
            exact hnames.1 ⟨hroot hserver, by simpa using hout⟩
          · by_contra hout
            exact hnames.2 ⟨by rw [hdst, hdst'], by simpa using hout⟩
      · refine ⟨h.pass hdir hv hclose hrename hget hhonest,
          AllFiltered.pass hfiltered hv hrename (h.le_max hdir hget) (len_lt _)
          fun hoperand hserver => contains_get ?_⟩
        by_contra hout
        exact hrefused ⟨hroot hserver, hoperand, by simpa using hout⟩

end NameSet

namespace File

def OnFile (handle : UInt64) (writable : Bool) (e : Sent) : Prop :=
  e.handle = handle ∧ ∀ v, Verb.of (op e.w0) = some v → v.mutates → writable

variable {handle : UInt64} {name : Bytes} {writable : Bool}

lemma forward_onFile {code n second : UInt64} {v : Verb} (hle : handle ≤ MAX_HANDLE)
    (h : ∀ e ∈ w.log, OnFile handle writable e) (hv : Verb.of code = some v) (hw : v.mutates → writable) :
    ∀ e ∈ (forward up (req code handle n) second w).2.log, OnFile handle writable e := by
  obtain ⟨-, rfl⟩ := Verb.of_eq_some hv
  intro e he
  rw [log_forward] at he
  rcases List.mem_cons.mp he with rfl | he
  · refine ⟨?_, fun v' hv' => ?_⟩
    · rw [Sent.handle, reqHandle_req, and_maxHandle hle]
    · rw [op_req, hv] at hv'
      cases hv'
      exact hw
  · exact h e he

lemma serve_onFile {q : Asked} (hle : handle ≤ MAX_HANDLE) (h : ∀ e ∈ w.log, OnFile handle writable e) :
    ∀ e ∈ (serve up handle name writable w q).2.log, OnFile handle writable e := by
  rw [serve]
  split
  · split_ifs <;> exact h
  · rename_i v hv hpolicy
    split
    · exact h
    · split
      · exact h
      · rename_i hmutates
        refine @forward_onFile _ _ { w with page := q.page } _ _ _ _ _ _ hle h hv fun hm => ?_
        by_contra hw
        exact hmutates ⟨hm, by simpa using hw⟩
  · exact h
  · exact h

end File

def Extends (w w' : World σ) : Prop := ∃ sent, w'.log = sent ++ w.log ∧ (sent = [] → w'.above = w.above)

namespace Extends

variable {page : Page}

lemma refl {table : List (Option UInt64)} : Extends w { w with page := page, table := table } :=
  ⟨[], rfl, fun _ => rfl⟩

lemma forward {w0 w1 : UInt64} {table : List (Option UInt64)} :
    Extends w (forward up w0 w1 { w with page := page, table := table }).2 :=
  ⟨[_], rfl, nofun⟩

lemma trans {w₁ w₂ w₃ : World σ} (h₁₂ : Extends w₁ w₂) (h₂₃ : Extends w₂ w₃) : Extends w₁ w₃ := by
  obtain ⟨sent, hlog, habove⟩ := h₁₂
  obtain ⟨sent', hlog', habove'⟩ := h₂₃
  refine ⟨sent' ++ sent, by rw [hlog', hlog, List.append_assoc], fun hnil => ?_⟩
  obtain ⟨hnil', hnil⟩ := List.append_eq_nil_iff.mp hnil
  rw [habove' hnil', habove hnil]

lemma install {server : UInt64} : Extends w (install up server w).2 := by
  rw [World.install]
  cases vacancy 1 w.table with
  | none => exact forward
  | some i => exact refl

lemma close {client server : UInt64} : Extends w (close up client server { w with page := page }).2 := by
  rw [World.close]
  split_ifs
  · exact refl
  · exact forward

lemma pass {code server w1 : UInt64} {v : Verb} {len : ℕ} :
    Extends w (pass up code v server len w1 { w with page := page }).2 := by
  rw [World.pass]
  dsimp only
  set w0 := req code server (if v.carriesLen then UInt64.ofNat len else 0)
  set second := if v.carriesW1 then w1 else 0
  split_ifs
  · exact forward
  · exact forward.trans install

lemma subtree {q : Asked} : Extends w (Subtree.serve up w q).2 := by
  rw [Subtree.serve]
  split
  · exact refl
  · split
    · exact refl
    · split_ifs
      · exact close
      · split
        · exact forward
        · exact refl
      · exact pass

lemma nameSet {q : Asked} {set : Bytes} : Extends w (NameSet.serve up dir set w q).2 := by
  rw [NameSet.serve]
  simp only [NameSet.putAt_nameAt, ite_self]
  split
  · exact refl
  · split
    · exact refl
    · split_ifs
      · exact refl
      · exact close
      · exact refl
      · exact refl
      · split
        · exact forward
        · exact refl
      · exact pass

lemma file {q : Asked} {handle : UInt64} {name : Bytes} {writable : Bool} :
    Extends w (File.serve up handle name writable w q).2 := by
  rw [File.serve]
  split
  · split_ifs <;> exact refl
  · split
    · exact refl
    · split
      · exact refl
      · exact forward
  · exact refl
  · exact refl

end Extends

lemma Honest.of_append {sent log : List Sent} (h : Honest dir (sent ++ log)) : Honest dir log := by
  induction sent with
  | nil => exact h
  | cons e sent ih => exact ih h.2

lemma after_of_honest {serve : World σ → Asked → Int64 × World σ} {P : World σ → Prop} {qs : List Asked}
    (hext : ∀ w q, Extends w (serve w q).2) (hstep : ∀ w q, P w → Honest dir (serve w q).2.log → P (serve w q).2)
    (h : P w) (hhonest : Honest dir (after serve w qs).log) : P (after serve w qs) := by
  have hsuffix : ∀ qs w, ∃ sent, (after serve w qs).log = sent ++ w.log := by
    intro qs
    induction qs with
    | nil => exact fun w => ⟨[], rfl⟩
    | cons q qs ih =>
      intro w
      obtain ⟨sent, hsent⟩ := ih (serve w q).2
      obtain ⟨sent', hsent', -⟩ := hext w q
      exact ⟨sent ++ sent', by rw [after, List.foldl_cons, ← after, hsent, hsent', List.append_assoc]⟩
  induction qs generalizing w with
  | nil => exact h
  | cons q qs ih =>
    refine ih (hstep w q h ?_) hhonest
    obtain ⟨sent, hsent⟩ := hsuffix qs (serve w q).2
    rw [after, List.foldl_cons, ← after, hsent] at hhonest
    exact hhonest.of_append

/-- Whatever the client asks, what a caretaker sends up is on the client's own handles, names and file. -/
theorem caretakers_confine (up : Upstream σ) (dir handle : UInt64) (hdir : dir ≤ MAX_HANDLE)
    (hhandle : handle ≤ MAX_HANDLE) (set name : Bytes) (writable : Bool) (above : σ) (page : Page)
    (qs : List Asked) : (Honest dir (after (Subtree.serve up) (start dir above page) qs).log →
      Confined dir (after (Subtree.serve up) (start dir above page) qs).log) ∧
    (Honest dir (after (NameSet.serve up dir set) (start dir above page) qs).log →
      Confined dir (after (NameSet.serve up dir set) (start dir above page) qs).log ∧
      ∀ e ∈ (after (NameSet.serve up dir set) (start dir above page) qs).log, e.Filtered dir set) ∧
    (∀ e ∈ (after (File.serve up handle name writable) (start handle above page) qs).log,
    File.OnFile handle writable e) ∧ (∀ w : World σ, ∀ q,
      ∀ serve ∈ [Subtree.serve up, NameSet.serve up dir set, File.serve up handle name writable],
      (serve w q).2.log = w.log → (serve w q).2.above = w.above) := by
  refine ⟨fun hhonest => ?_, fun hhonest => ?_, ?_, fun w q serve hserve hlog => ?_⟩
  · exact (after_of_honest (fun _ _ => .subtree) (fun _ _ => Subtree.sound_serve hdir)
      sound_start hhonest).confined
  · have h := @after_of_honest _ dir _ _ (fun w => Sound dir w ∧ NameSet.AllFiltered dir set w) qs
      (fun _ _ => .nameSet) (fun _ _ hw hh => NameSet.serve_sound hdir hw.1 hw.2 hh) ⟨sound_start, nofun⟩ hhonest
    exact ⟨h.1.confined, h.2⟩
  · have hrun : ∀ w : World σ, (∀ e ∈ w.log, File.OnFile handle writable e) →
        ∀ e ∈ (after (File.serve up handle name writable) w qs).log, File.OnFile handle writable e := by
      induction qs with
      | nil => exact fun w hw => hw
      | cons q qs ih => exact fun w hw => ih _ (File.serve_onFile hhandle hw)
    exact hrun _ nofun
  · have hext : Extends w (serve w q).2 := by
      simp only [List.mem_cons, List.not_mem_nil, or_false] at hserve
      rcases hserve with rfl | rfl | rfl
      · exact .subtree
      · exact .nameSet
      · exact .file
    obtain ⟨sent, hsent, habove⟩ := hext
    exact habove (List.append_left_eq_self.mp (hsent.symm.trans hlog))

def counting : Upstream ℕ := fun n _ _ page => (Int64.ofNat n, page, n + 1)

def noPage : Page := fun _ => 0

def openAndRead : List Asked :=
  [⟨req Op.OPEN.code 0 1, 0, noPage⟩, ⟨req Op.READ.code 1 8, 0, noPage⟩]

theorem caretakers_confine_sample :
    Confined 5 (after (Subtree.serve counting) (start 5 6 noPage) openAndRead).log ∧
    (after (Subtree.serve counting) (start 5 6 noPage) openAndRead).log.length = 2 := by
  refine ⟨(caretakers_confine counting 5 5 (by decide) (by decide) [] [] true 6 noPage openAndRead).1 ?_, by
    decide +kernel⟩
  decide +kernel

theorem minted_beyond_field_escapes :
    ¬ Confined 5 (after (Subtree.serve counting) (start 5 65536 noPage) openAndRead).log := by
  decide +kernel

end CrickerOs.Caretaker

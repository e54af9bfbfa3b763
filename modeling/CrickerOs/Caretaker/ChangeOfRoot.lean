import CrickerOs.Caretaker.Caretakers
import CrickerOs.FsServer.Serve

namespace CrickerOs.Caretaker

open Library Library.Act Library.Result FsProto FsServer World UInt64

variable {I : Type} (E : Engine I)

def through : World (Server I) → List Asked → List (Int64 × Page)
  | _, [] => []
  | w, q :: qs =>
    let (r, w) := Subtree.serve (Server.serve E) w q
    (r, w.page) :: through w qs

structure Session (I : Type) where
  server : Server I
  table : List (Option UInt64)

def Session.standsFor (s : Session I) (client : UInt64) : Option UInt64 := Cells.lookup s.table client.toNat

def Session.second (s : Session I) (code w1 : UInt64) : Option UInt64 :=
  if code = Op.RENAME.code then (s.standsFor (dstHandle w1)).map fun dst => renameDst dst
    (UInt64.ofNat (dstLen w1))
  else some w1

def mints (code : UInt64) : Bool :=
  code == Op.OPEN.code || code == Op.CREATE.code || code == Op.OPENDIR.code || code == Op.MKDIR.code

/-- The server's own answer to a request with the handles replaced. A handle that stands for nothing is a bad one,
the granted root is not closed, and an open beyond the last slot fails with nothing left open. -/
def Session.serve (s : Session I) (q : Asked) : Int64 × Page × Session I :=
  match s.standsFor (reqHandle q.w0), s.second (op q.w0) q.w1 with
  | some handle, some w1 =>
    if op q.w0 = Op.CLOSE.code ∧ reqHandle q.w0 = ROOT then (replyErr .EINVAL, q.page, s)
    else
      let (r, page, server) := s.server.serve E (req (op q.w0) handle (UInt64.ofNat (reqLen q.w0))) w1 q.page
      if op q.w0 = Op.CLOSE.code then (r, page, ⟨server, Cells.clear s.table (reqHandle q.w0).toNat⟩)
      else if mints (op q.w0) ∧ ¬ r < 0 then
        match Cells.vacancy 1 s.table with
        | some i => (Int64.ofNat i, page, ⟨server, Cells.put s.table i r.toUInt64⟩)
        | none =>
          let (_, page, server) := server.serve E (req Op.CLOSE.code r.toUInt64 0) 0 page
          (replyErr .EMFILE, page, ⟨server, s.table⟩)
      else (r, page, ⟨server, s.table⟩)
  | _, _ => (replyErr .EBADF, q.page, s)

def direct : Session I → List Asked → List (Int64 × Page)
  | _, [] => []
  | s, q :: qs =>
    let (r, page, s) := s.serve E q
    (r, page) :: direct s qs

section

variable {E} {n handle : ℕ} {w1 : UInt64} {page : Page}

lemma min_min_page : min (min n PAGE) PAGE = min n PAGE := by
  omega

lemma dispatch_pass {v : Verb} (hv : v ∈ Verb.TABLE) (hrename : v.op ≠ .RENAME)
    (hbulk : v.op = .READ ∨ v.op = .WRITE → n ≤ PAGE) :
    Server.dispatch E (some v.op) handle (if v.carriesLen then min n PAGE else 0) (if v.carriesW1 then w1 else 0)
      page = Server.dispatch E (some v.op) handle n w1 page := by
  by_cases hop : v.op = .READ ∨ v.op = .WRITE
  · -- the length travels as it is, and so does the offset
    obtain ⟨hcarriesLen, hcarriesW1⟩ := Verb.carries_of_bulk hv hop
    rw [if_pos hcarriesLen, if_pos hcarriesW1, Nat.min_eq_left (hbulk hop)]
  · clear hbulk
    simp only [Verb.TABLE, List.mem_cons, List.not_mem_nil, or_false] at hv
    rcases hv with rfl | rfl | rfl | rfl | rfl | rfl | rfl | rfl | rfl | rfl | rfl | rfl |
      rfl | rfl | rfl | rfl | rfl | rfl
    all_goals first
      | exact absurd rfl hrename
      | exact absurd (Or.inl rfl) hop
      | exact absurd (Or.inr rfl) hop
      | simp [Server.dispatch, Verb.row, Verb.carriesLen]

lemma rename_nil {s : Server I} {dst : Bytes} {handle' : ℕ} :
    Server.rename E handle [] handle' dst s = (.error .EINVAL, s) := by
  apply asks_bind_error
  rfl

lemma dispatch_rename {dst : UInt64} {m : ℕ} (hm : m < 2 ^ 40) (s : Server I) :
    Server.dispatch E (some .RENAME) handle (min n PAGE) (renameDst dst (ofNat (min m PAGE))) page s =
      Server.dispatch E (some .RENAME) handle n (renameDst dst (ofNat m)) page s := by
  have hcut : dstLen (renameDst dst (ofNat (min m PAGE))) = min m PAGE :=
    dstLen_renameDst_ofNat (by unfold PAGE; omega)
  have hfull : dstLen (renameDst dst (ofNat m)) = m := dstLen_renameDst_ofNat hm
  by_cases hle : m ≤ PAGE
  · rw [Nat.min_eq_left hle]
    simp only [Server.dispatch, min_min_page]
  · have hrefused : Server.dispatch E (some .RENAME) handle n (renameDst dst (ofNat m)) page s =
        (.error .EINVAL, s) := by
      apply asks_bind_error
      rw [hfull, ensure, if_neg (by omega)]
      rfl
    rw [hrefused]
    rw [Nat.min_eq_right (Nat.le_of_not_le hle)] at hcut ⊢
    by_cases hn : n = 0
    · -- the first name is empty, which no component may be
      subst hn
      by_cases hutf : isUtf8 (page.get 0 0) = true ∧ isUtf8 (page.get 0 PAGE) = true
      · refine (asks_bind_ok (a := ()) ?_).trans (bind_error rename_nil)
        simp [ensure, hcut, hutf]
      · apply asks_bind_error
        simp [ensure, hcut, hutf]
    · apply asks_bind_error
      rw [hcut, ensure, if_neg (by unfold PAGE; omega)]
      rfl

end

section

variable {E} {s : Server I} {w0 handle w1 : UInt64} {page : Page} {n m : ℕ}

lemma serve_congr {len len' : UInt64} {w1' : UInt64}
    (h : ∀ h : ℕ, Server.dispatch E (Op.ofCode (op w0)) h (reqLen (req (op w0) handle len)) w1 page s =
      Server.dispatch E (Op.ofCode (op w0)) h (reqLen (req (op w0) handle len')) w1' page s) :
    s.serve E (req (op w0) handle len) w1 page = s.serve E (req (op w0) handle len') w1' page := by
  simp only [Server.serve, op_req_of_lt (op_lt w0), reqHandle_req, h]

lemma serve_pass {v : Verb} (hv : Verb.of (op w0) = some v) (hrename : v.op ≠ .RENAME)
    (hbulk : v.op = .READ ∨ v.op = .WRITE → reqLen w0 ≤ PAGE) :
    s.serve E (req (op w0) handle (if v.carriesLen then ofNat (min (reqLen w0) PAGE) else 0))
        (if v.carriesW1 then w1 else 0) page =
      s.serve E (req (op w0) handle (ofNat (reqLen w0))) w1 page := by
  obtain ⟨hmem, hcode⟩ := Verb.of_eq_some hv
  apply serve_congr
  intro h
  have hlen : reqLen (req (op w0) handle (if v.carriesLen then ofNat (min (reqLen w0) PAGE) else 0)) =
      if v.carriesLen then min (reqLen w0) PAGE else 0 := by
    split_ifs
    · exact reqLen_req_ofNat (by unfold PAGE; omega)
    · exact reqLen_req_ofNat (n := 0) (by decide)
  rw [hlen, reqLen_req_ofNat (reqLen_lt w0), hcode, Op.ofCode_code, dispatch_pass hmem hrename hbulk]

lemma serve_rename {dst : UInt64} (hop : op w0 = Op.RENAME.code) :
    s.serve E (req (op w0) handle (ofNat (min (reqLen w0) PAGE)))
        (renameDst dst (ofNat (min (dstLen w1) PAGE))) page =
      s.serve E (req (op w0) handle (ofNat (reqLen w0))) (renameDst dst (ofNat (dstLen w1))) page := by
  apply serve_congr
  intro h
  rw [reqLen_req_ofNat (by unfold PAGE; omega), reqLen_req_ofNat (reqLen_lt w0), hop, Op.ofCode_code,
    dispatch_rename (dstLen_lt w1)]

lemma serve_unknown (h : Op.ofCode (op w0) = none) {len : UInt64} :
    s.serve E (req (op w0) handle len) w1 page = (replyErr .EINVAL, page, s) := by
  simp only [Server.serve, op_req_of_lt (op_lt w0), h, Server.dispatch, asks]

end

section

variable {E} {q : Asked} {w : World (Server I)}

def seen : Int64 × World (Server I) → Int64 × Page × Session I
  | (r, w) => (r, w.page, ⟨w.above, w.table⟩)

def Whole (q : Asked) : Prop :=
  op q.w0 ≠ Op.SYNC.code ∧
    (op q.w0 = Op.READ.code ∨ op q.w0 = Op.WRITE.code → reqLen q.w0 ≤ PAGE)

instance : DecidablePred Whole := fun _ => inferInstanceAs (Decidable (_ ∧ _))

lemma mintsHandle_eq_mints {code : UInt64} {v : Verb} (h : Verb.of code = some v) :
    v.mintsHandle = mints code := by
  obtain ⟨hmem, rfl⟩ := Verb.of_eq_some h
  clear h
  revert hmem
  revert v
  decide

lemma operand_eq_rename {code : UInt64} {v : Verb} (h : Verb.of code = some v) :
    v.operand = .Rename ↔ code = Op.RENAME.code := by
  obtain ⟨hmem, rfl⟩ := Verb.of_eq_some h
  clear h
  revert hmem
  revert v
  decide

lemma carries_of_close {v : Verb} (h : v ∈ Verb.TABLE) (hop : v.op = .CLOSE) :
    v.carriesLen = false ∧ v.carriesW1 = false := by
  revert h hop
  revert v
  decide

variable {server : UInt64} {v : Verb}

lemma second_of_ne {s : Session I} {code w1 : UInt64} (h : code ≠ Op.RENAME.code) : s.second code w1 = some w1 :=
  if_neg h

section

variable (hget : Cells.lookup w.table (reqHandle q.w0).toNat = some server)
include hget

variable (hv : Verb.of (op q.w0) = some v)
include hv

lemma seen_close (hop : v.op = .CLOSE) :
    seen (Subtree.serve (Server.serve E) w q) = Session.serve E ⟨w.above, w.table⟩ q := by
  obtain ⟨hmem, hcode⟩ := Verb.of_eq_some hv
  rw [hop] at hcode
  have hsecond : op q.w0 ≠ Op.RENAME.code := by
    rw [hcode]
    decide
  have hpass : w.above.serve E (req Op.CLOSE.code server 0) 0 q.page = w.above.serve E
      (req (op q.w0) server (ofNat (reqLen q.w0))) q.w1 q.page := by
    rw [← serve_pass hv (by rw [hop]; decide) (by rw [hop]; simp), if_neg (by simp [carries_of_close hmem hop]),
      if_neg (by simp [carries_of_close hmem hop]), hcode]
  simp only [Subtree.serve, Session.serve, World.get, Session.standsFor, second_of_ne hsecond, hget, hv,
    if_pos hcode, close]
  by_cases hroot : reqHandle q.w0 = ROOT
  · rw [if_pos hroot, if_pos ⟨hcode, hroot⟩]
    rfl
  · rw [if_neg hroot, if_neg (fun h => hroot h.2), forward, ← hpass]
    rfl

lemma seen_rename (hop : v.op = .RENAME) :
    seen (Subtree.serve (Server.serve E) w q) = Session.serve E ⟨w.above, w.table⟩ q := by
  obtain ⟨hmem, hcode⟩ := Verb.of_eq_some hv
  rw [hop] at hcode
  have hclose : op q.w0 ≠ Op.CLOSE.code := by
    rw [hcode]
    decide
  have hmints : mints (op q.w0) = false := by
    rw [hcode]
    decide
  simp only [Subtree.serve, Session.serve, World.get, Session.standsFor, Session.second, hget, hv, if_neg hclose,
    if_pos hcode, if_pos (Verb.operand_of_rename hmem hop)]
  cases hdst : Cells.lookup w.table (dstHandle q.w1).toNat with
  | none => rfl
  | some dst =>
    simp only [Option.map_some, forward, serve_rename hcode, hclose, false_and, if_false, hmints]
    rfl

lemma seen_pass (hclose : v.op ≠ .CLOSE) (hrename : v.op ≠ .RENAME)
    (hwhole : v.op = .READ ∨ v.op = .WRITE → reqLen q.w0 ≤ PAGE) :
    seen (Subtree.serve (Server.serve E) w q) = Session.serve E ⟨w.above, w.table⟩ q := by
  obtain ⟨hmem, hcode⟩ := Verb.of_eq_some hv
  have hne : ∀ o : Op, v.op ≠ o → op q.w0 ≠ o.code := fun o ho h => ho (Op.code_injective (hcode.symm.trans h))
  simp only [Subtree.serve, Session.serve, World.get, Session.standsFor, second_of_ne (hne _ hrename), hget, hv,
    if_neg (mt (operand_eq_rename hv).mp (hne _ hrename)), hne _ hclose, false_and, if_false, World.pass, forward,
    serve_pass hv hrename hwhole, mintsHandle_eq_mints hv]
  cases w.above.serve E (req (op q.w0) server (ofNat (reqLen q.w0))) q.w1 q.page with
  | mk r rest =>
    by_cases hmint : mints (op q.w0) = true ∧ ¬ r < 0
    · rw [if_pos hmint, if_neg (by simpa using hmint)]
      cases hvacancy : Cells.vacancy 1 w.table <;> simp only [install, hvacancy] <;> rfl
    · rw [if_neg hmint, if_pos (by simpa [imp_iff_not_or] using hmint)]
      rfl

end

lemma seen_serve (ht : Whole q) :
    seen (Subtree.serve (Server.serve E) w q) = Session.serve E ⟨w.above, w.table⟩ q := by
  obtain ⟨hsync, hbulk⟩ := ht
  cases hget : Cells.lookup w.table (reqHandle q.w0).toNat with
  | none => simp only [Subtree.serve, Session.serve, World.get, Session.standsFor, hget, seen]
  | some server =>
    cases hv : Verb.of (op q.w0) with
    | none =>
      have hunknown := Verb.ofCode_of_none hv hsync
      have hne : ∀ o : Op, op q.w0 ≠ o.code := by
        intro o ho
        rw [ho, Op.ofCode_code] at hunknown
        cases hunknown
      simp [Subtree.serve, Session.serve, World.get, Session.standsFor, Session.second, hget, hv, seen, hne, mints,
        serve_unknown hunknown]
    | some v =>
      by_cases hclose : v.op = .CLOSE
      · exact seen_close hget hv hclose
      by_cases hrename : v.op = .RENAME
      · exact seen_rename hget hv hrename
      · apply seen_pass hget hv hclose hrename
        intro hop
        apply hbulk
        rw [(Verb.of_eq_some hv).2]
        exact hop.imp (congrArg Op.code) (congrArg Op.code)

lemma through_eq_direct {qs : List Asked} (h : ∀ q ∈ qs, Whole q) :
    through E w qs = direct E ⟨w.above, w.table⟩ qs := by
  induction qs generalizing w with
  | nil => rfl
  | cons q qs ih =>
    have hstep := seen_serve (E := E) (w := w) (h q List.mem_cons_self)
    rw [through, direct, ← hstep]
    exact congrArg _ (ih fun q hq => h q (List.mem_cons_of_mem _ hq))

/-- Through a subtree caretaker a client sees what the server itself answers with the client's handles replaced,
whatever the engine under the server does. -/
theorem subtree_is_change_of_root (E : Engine I) (s : Server I) (page : Page) (dir : UInt64) (qs : List Asked)
    (h : ∀ q ∈ qs, Whole q) :
    through E ⟨s, page, tableOf dir, []⟩ qs = direct E ⟨s, tableOf dir⟩ qs :=
  through_eq_direct h

end

def longFile : Engine Unit := .full [(⟨[102], 2, by decide⟩, .file, List.replicate (PAGE + 1) 7)]

def ask (o : Op) (handle len w1 : UInt64) (name : Bytes) : Asked :=
  ⟨req o.code handle len, w1, Page.put (fun _ => 0) 0 name⟩

def replies (seen : List (Int64 × Page)) : List Int64 := seen.map (·.1)

theorem subtree_is_change_of_root_sample :
    through longFile ⟨.open (), fun _ => 0, tableOf 0, []⟩ [ask .OPEN 0 1 0 [102], ask .READ 1 4096 0 []] =
      direct longFile ⟨.open (), tableOf 0⟩ [ask .OPEN 0 1 0 [102], ask .READ 1 4096 0 []] ∧
    replies (direct longFile ⟨.open (), tableOf 0⟩ [ask .OPEN 0 1 0 [102], ask .READ 1 4096 0 []]) = [1, 4096] :=
  ⟨subtree_is_change_of_root longFile (.open ()) (fun _ => 0) 0 _ (by decide +kernel), by decide +kernel⟩

theorem sync_refused_and_transfer_cut :
    replies (direct longFile ⟨.open (), tableOf 0⟩ [ask .SYNC 0 0 0 []]) = [0] ∧
    replies (through longFile ⟨.open (), fun _ => 0, tableOf 0, []⟩ [ask .SYNC 0 0 0 []]) = [replyErr .EINVAL] ∧
    replies (direct longFile ⟨.open (), tableOf 0⟩ [ask .OPEN 0 1 0 [102], ask .READ 1 5000 0 []]) = [1, 4097] ∧
    replies (through longFile ⟨.open (), fun _ => 0, tableOf 0, []⟩
      [ask .OPEN 0 1 0 [102], ask .READ 1 5000 0 []]) = [1, 4096] := by
  decide +kernel

end CrickerOs.Caretaker

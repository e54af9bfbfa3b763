import CrickerOs.GrantPlan.Authority

namespace CrickerOs.GrantPlan

open Library Library.Outcome Option List Nat

inductive Item
  | mem (n : ℕ)
  | options (letters : Bytes)
  | word (w : Word)

namespace Item

def word? : Item → Option Word
  | word w => some w
  | _ => none

def letters : Item → Bytes
  | options letters => letters
  | _ => []

def mem? : Item → Option ℕ
  | mem n => some n
  | _ => none

end Item

def items : List Bytes → Option (List Item)
  | [] => some []
  | token :: rest =>
    match read token with
    | .error _ => none
    | .ok w =>
      if w.isMem then
        match rest with
        | [] => none
        | value :: rest => (memValue value).bind fun n => (items rest).map (.mem n :: ·)
      else if !w.quoted ∧ w.text.head? = some dash then (items rest).map (.options w.text.tail :: ·)
      else (items rest).map (.word w :: ·)

def memUses : List Bytes → List (Option ℕ)
  | [] => []
  | token :: rest =>
    match read token with
    | .error _ => memUses rest
    | .ok w =>
      if w.isMem then
        match rest with
        | [] => [none]
        | value :: rest => memValue value :: memUses rest
      else memUses rest

def MemOnce (toks : List Bytes) : Prop := memUses toks = [] ∨ ∃ n, memUses toks = [some n]

section

variable {toks rest : List Bytes} {run : RunSpec} {token value : Bytes} {w : Word}

section

variable (h : read token = .ok w)
include h

lemma items_mem (hmem : w.isMem = true) :
    items (token :: value :: rest) = (memValue value).bind fun n => (items rest).map (.mem n :: ·) := by
  rw [items.eq_def]
  simp only [h, hmem, if_true]

lemma items_place (hmem : w.isMem = false) : items (token :: rest) =
    if !w.quoted ∧ w.text.head? = some dash then (items rest).map (.options w.text.tail :: ·)
      else (items rest).map (.word w :: ·) := by
  rw [items.eq_def]
  simp only [h, hmem, Bool.false_eq_true, if_false]

lemma memUses_mem (hmem : w.isMem = true) :
    memUses (token :: value :: rest) = memValue value :: memUses rest := by
  rw [memUses.eq_def]
  simp only [h, hmem, if_true]

lemma memUses_mem_last (hmem : w.isMem = true) : memUses [token] = [none] := by
  rw [memUses.eq_def]
  simp only [h, hmem, if_true]

lemma memUses_place (hmem : w.isMem = false) : memUses (token :: rest) = memUses rest := by
  rw [memUses.eq_def]
  simp only [h, hmem, Bool.false_eq_true, if_false]

end

lemma memUses_of_items {its : List Item} (h : items toks = some its) :
    memUses toks = (its.filterMap Item.mem?).map some := by
  induction toks using memUses.induct generalizing its with
  | case1 =>
    cases h
    rfl
  | case2 token rest r hread ih =>
    rw [items.eq_def] at h
    simp [hread] at h
  | case3 token w hread hmem =>
    rw [items.eq_def] at h
    simp [hread, hmem] at h
  | case4 token w hread hmem value rest ih =>
    rw [items_mem hread hmem] at h
    obtain ⟨n, hn, h⟩ := bind_eq_some_iff.mp h
    obtain ⟨its', hits', rfl⟩ := map_eq_some_iff.mp h
    rw [memUses_mem hread hmem, ih hits', hn]
    rfl
  | case5 token rest w hread hmem ih =>
    rw [Bool.not_eq_true] at hmem
    rw [items_place hread hmem] at h
    rw [memUses_place hread hmem]
    split_ifs at h
    all_goals
      obtain ⟨its', hits', rfl⟩ := map_eq_some_iff.mp h
      rw [ih hits']
      rfl

lemma memOnce_iff {its : List Item} (h : items toks = some its) : MemOnce toks ↔
    (its.filterMap Item.mem?).length ≤ 1 := by
  rw [MemOnce, memUses_of_items h]
  rcases its.filterMap Item.mem? with - | ⟨n, - | ⟨n', rest⟩⟩ <;> simp

def RunSpec.Fine (run : RunSpec) : Prop := run.misquoted = none ∧ run.unexpected = none

lemma RunSpec.Fine.of_place (h : (run.place w).Fine) : run.Fine ∧
    if !w.quoted ∧ w.text.head? = some dash then run.place w = { run with opts := run.opts ++ w.text.tail }
    else if run.prog = none then run.place w = { run with prog := some w.text }
    else run.place w = { run with pos := run.pos ++ [w] } := by
  rw [RunSpec.place] at h ⊢
  split_ifs at h ⊢ with hdash hshort hprog hroom
  · exact ⟨h, rfl⟩
  · exact absurd (or_eq_none_iff.mp h.2).2 (some_ne_none _)
  · exact ⟨h, rfl⟩
  · exact ⟨h, rfl⟩
  · exact absurd (or_eq_none_iff.mp h.2).2 (some_ne_none _)

lemma RunSpec.Fine.of_parseTokens (h : (parseTokens toks run).Fine) : run.Fine := by
  induction toks, run using parseTokens.induct with
  | case1 run => exact h
  | case2 token rest run r hread ih =>
    rw [parseTokens_error hread] at h
    exact absurd (or_eq_none_iff.mp (ih h).1).2 (some_ne_none _)
  | case3 token run w hread hmem =>
    rw [parseTokens_mem_last hread hmem] at h
    exact h
  | case4 token run w hread hmem value rest ih =>
    rw [parseTokens_mem hread hmem] at h
    exact ih h
  | case5 token rest run w hread hmem ih =>
    rw [parseTokens_place hread (Bool.eq_false_of_not_eq_true hmem)] at h
    exact (ih h).of_place.1

structure Adds (its : List Item) (run result : RunSpec) : Prop where
  prog : result.prog = run.prog.or ((its.filterMap Item.word?).head?.map (·.text))
  pos : result.pos = run.pos ++ if run.prog = none then (its.filterMap Item.word?).tail
    else its.filterMap Item.word?
  opts : result.opts = run.opts ++ its.flatMap Item.letters
  mem : result.mem = (its.filterMap Item.mem?).getLast?.or run.mem

lemma adds_parseTokens (hfine : (parseTokens toks run).Fine) (hmem : ∀ v ∈ memUses toks, v ≠ none) :
    ∃ its, items toks = some its ∧ Adds its run (parseTokens toks run) := by
  induction toks, run using parseTokens.induct with
  | case1 run => exact ⟨[], rfl, by simp [parseTokens], by simp [parseTokens], by simp [parseTokens], by
      simp [parseTokens]⟩
  | case2 token rest run r hread ih =>
    rw [parseTokens_error hread] at hfine
    exact absurd (or_eq_none_iff.mp hfine.of_parseTokens.1).2 (some_ne_none _)
  | case3 token run w hread hisMem =>
    rw [memUses_mem_last hread hisMem] at hmem
    exact absurd rfl (hmem none (mem_singleton_self _))
  | case4 token run w hread hisMem value rest ih =>
    rw [parseTokens_mem hread hisMem] at hfine ⊢
    rw [memUses_mem hread hisMem] at hmem
    obtain ⟨hvalue, hrest⟩ := forall_mem_cons.mp hmem
    obtain ⟨n, hn⟩ := ne_none_iff_exists'.mp hvalue
    obtain ⟨its, hits, hadds⟩ := ih hfine hrest
    refine ⟨.mem n :: its, by rw [items_mem hread hisMem, hn, hits]; rfl, hadds.prog, hadds.pos, hadds.opts, ?_⟩
    change _ = (n :: its.filterMap Item.mem?).getLast?.or run.mem
    rw [hadds.mem, getLast?_cons, hn]
    cases (its.filterMap Item.mem?).getLast? <;> rfl
  | case5 token rest run w hread hisMem ih =>
    rw [Bool.not_eq_true] at hisMem
    rw [parseTokens_place hread hisMem] at hfine ⊢
    rw [memUses_place hread hisMem] at hmem
    rw [items_place hread hisMem]
    obtain ⟨its, hits, hadds⟩ := ih hfine hmem
    have hplace := hfine.of_parseTokens.of_place.2
    rw [hits]
    split_ifs at hplace ⊢ with hdash hprog
    · rw [hplace] at hadds ⊢
      refine ⟨.options w.text.tail :: its, rfl, hadds.prog, hadds.pos, ?_, hadds.mem⟩
      rw [hadds.opts, flatMap_cons, append_assoc]
      rfl
    · rw [hplace] at hadds ⊢
      refine ⟨.word w :: its, rfl, ?_, ?_, hadds.opts, hadds.mem⟩
      · rw [hadds.prog, hprog]
        rfl
      · rw [hadds.pos, hprog]
        rfl
    · rw [hplace] at hadds ⊢
      refine ⟨.word w :: its, rfl, ?_, ?_, hadds.opts, hadds.mem⟩
      · rw [hadds.prog]
        obtain ⟨name, hname⟩ := ne_none_iff_exists'.mp hprog
        rw [hname]
        rfl
      · rw [hadds.pos, if_neg hprog, if_neg hprog, append_assoc]
        rfl

end

section

variable (m : Manifest)

def argCount : ℕ := if m.arg = .required then 1 else 0

def fileCount : ℕ := if m.file = .forbidden then 0 else 1

def dirCount : ℕ := if m.dir = .forbidden then 0 else 1

inductive Fills (holds : Holdings) (expanded : Expansion) (streams : Streams) (e : Endowment) : ℕ → Word → Prop
  | arg {w : Word} (hspec : m.arg = .required) (h : parseU64 w.text = some e.arg) :
      Fills holds expanded streams e 0 w
  | file {w : Word} {writable : Bool} {g : FileGrant} (hspec : m.file = .required writable)
      (hgrant : e.file = some g) (h : designateFile w.text (argCount m) holds expanded .ambiguousFile writable =
      ok g) : Fills holds expanded streams e (argCount m) w
  | dir {w : Word} {flag : Option UInt8} {g : DirGrant} (hspec : m.dir = .required flag) (hgrant : e.dir = some g)
      (h : designate w.text (argCount m + fileCount m) holds.cwd expanded = ok (g.dir, g.names)) :
      Fills holds expanded streams e (argCount m + fileCount m) w
  | input {w : Word} {writes : Bool} {g : FileGrant} (hspec : m.input = .required writes)
      (hsource : e.source = .file g) (h : designateFile w.text (argCount m + fileCount m + dirCount m)
      holds expanded .ambiguousFile false = ok g) : Fills holds expanded streams e
      (argCount m + fileCount m + dirCount m) w

variable {m} {run : RunSpec} {holds : Holdings} {expanded : Expansion} {streams : Streams} {e : Endowment}
  {n n₁ n₂ n₃ n₄ : ℕ}

variable {v flags flags' : ℕ}

lemma argSlot_count (h : argSlot m run = ok (v, n)) :
    n = argCount m ∧ (0 < n → m.arg = .required ∧ ∃ w, run.pos[0]? = some w ∧ parseU64 w.text = some v) := by
  obtain ⟨hspec, -, rfl⟩ | ⟨hspec, w, hw, hv, rfl⟩ := argSlot_eq_ok.mp h
  · exact ⟨by simp [argCount, hspec], fun hpos => absurd hpos (lt_irrefl 0)⟩
  · exact ⟨by simp [argCount, hspec], fun _ => ⟨hspec, w, hw, hv⟩⟩

lemma fileSlot_count {file : Option FileGrant} (h : fileSlot m run holds expanded n₁ = ok (file, n₂)) :
    n₂ = n₁ + fileCount m ∧ (n₁ < n₂ → ∃ writable g w, m.file = .required writable ∧ file = some g ∧
      run.pos[n₁]? = some w ∧ designateFile w.text n₁ holds expanded .ambiguousFile writable = ok g) := by
  obtain ⟨hspec, -, rfl⟩ | ⟨writable, hspec, w, hw, g, hg, rfl, rfl⟩ := fileSlot_eq_ok.mp h
  · exact ⟨by simp [fileCount, hspec], fun hpos => absurd hpos (lt_irrefl _)⟩
  · exact ⟨by simp [fileCount, hspec], fun _ => ⟨writable, g, w, hspec, rfl, hw, hg⟩⟩

lemma dirSlot_count {dir : Option DirGrant} (h : dirSlot m run holds expanded flags n₂ = ok (dir, n₃)) :
    n₃ = n₂ + dirCount m ∧ (n₂ < n₃ → ∃ flag g w, m.dir = .required flag ∧ dir = some g ∧
      run.pos[n₂]? = some w ∧ designate w.text n₂ holds.cwd expanded = ok (g.dir, g.names)) := by
  obtain ⟨hspec, -, rfl⟩ | ⟨flag, hspec, w, hw, -, cwd, names, hdesignate, subtree, -, rfl, rfl⟩ :=
    dirSlot_eq_ok.mp h
  · exact ⟨by simp [dirCount, hspec], fun hpos => absurd hpos (lt_irrefl _)⟩
  · exact ⟨by simp [dirCount, hspec], fun _ => ⟨flag, _, w, hspec, rfl, hw, hdesignate⟩⟩

lemma inputSlot_count {source source' : Source} (h : inputSlot m run holds expanded source n₃ = ok (source', n₄)) :
    n₄ = n₃ ∨ n₄ = n₃ + 1 ∧ ∃ writes g w, m.input = .required writes ∧ source' = .file g ∧
      run.pos[n₃]? = some w ∧ designateFile w.text n₃ holds expanded .ambiguousFile false = ok g := by
  obtain ⟨writes, hspec, -, w, hw, g, hg, rfl, rfl⟩ | ⟨-, -, rfl⟩ := inputSlot_eq_ok.mp h
  · exact .inr ⟨rfl, writes, g, w, hspec, rfl, hw, hg⟩
  · exact .inl rfl

lemma Planned.fills (h : Planned run m holds expanded streams e n₁ n₂ n₃ n₄) {i : ℕ} {w : Word}
    (hw : run.pos[i]? = some w) : Fills m holds expanded streams e i w := by
  obtain ⟨rfl, harg⟩ := argSlot_count h.arg
  obtain ⟨rfl, hfile⟩ := fileSlot_count h.file
  obtain ⟨rfl, hdir⟩ := dirSlot_count h.dir
  have hinput := inputSlot_count h.source
  have hlt : i < n₄ := (List.getElem?_eq_some_iff.mp hw).1.trans_le h.rest
  have hone : argCount m ≤ 1 ∧ fileCount m ≤ 1 ∧ dirCount m ≤ 1 := by
    unfold argCount fileCount dirCount
    split_ifs <;> simp
  have heq {j : ℕ} {w' : Word} (hij : i = j) (hw' : run.pos[j]? = some w') : w' = w :=
    some.inj (hw'.symm.trans (hij ▸ hw))
  rcases lt_or_ge i (argCount m) with hi | hi
  · obtain ⟨hspec, w', hw', hv⟩ := harg (by omega)
    obtain rfl : i = 0 := by omega
    cases heq rfl hw'
    exact .arg hspec hv
  rcases lt_or_ge i (argCount m + fileCount m) with hi' | hi'
  · obtain ⟨writable, g, w', hspec, hgrant, hw', hdesignate⟩ := hfile (by omega)
    obtain rfl : i = argCount m := by omega
    cases heq rfl hw'
    exact .file hspec hgrant hdesignate
  rcases lt_or_ge i (argCount m + fileCount m + dirCount m) with hi'' | hi''
  · obtain ⟨flag, g, w', hspec, hgrant, hw', hdesignate⟩ := hdir (by omega)
    obtain rfl : i = argCount m + fileCount m := by omega
    cases heq rfl hw'
    exact .dir hspec hgrant hdesignate
  · rcases hinput with rfl | ⟨rfl, writes, g, w', hspec, hsource, hw', hdesignate⟩
    · omega
    · obtain rfl : i = argCount m + fileCount m + dirCount m := by omega
      cases heq rfl hw'
      exact .input hspec hsource hdesignate

lemma flagBits_le {letters : Bytes} (h : flagBits m letters flags = ok flags') {bit : ℕ}
    (hbit : flags.testBit bit = true) : flags'.testBit bit = true := by
  induction letters generalizing flags with
  | nil =>
    cases h
    exact hbit
  | cons letter letters ih =>
    obtain ⟨i, -, h⟩ := bind_eq_ok.mp h
    split_ifs at h
    exact ih h (by rw [testBit_or, hbit, Bool.true_or])

lemma flagBits_sets {letters : Bytes} (h : flagBits m letters flags = ok flags') :
    ∀ letter ∈ letters, ∃ bit, m.flags.findIdx? (· = letter) = some bit ∧ flags'.testBit bit = true := by
  induction letters generalizing flags with
  | nil => exact fun _ h => (nomatch h)
  | cons letter letters ih =>
    obtain ⟨i, hi, h⟩ := bind_eq_ok.mp h
    split_ifs at h
    refine forall_mem_cons.mpr ⟨⟨i, okOr_eq_ok.mp hi, flagBits_le h ?_⟩, ih h⟩
    rw [testBit_or, one_shiftLeft, testBit_two_pow_self, Bool.or_true]

lemma memSlot_of_some (h : memSlot m run = ok n) (hv : run.mem = some v) : n = v := by
  rw [memSlot.eq_def, hv] at h
  split at h
  · rename_i hnone
    cases hnone
  · cases h
  · cases h
  · rename_i hsome
    split_ifs at h
    exact (Outcome.ok.inj h).symm.trans (some.inj hsome).symm

end

/-- All tokens of the line were read, and each of them is the program's name, fills a slot, sets flags, or is the
memory grant. -/
structure Uses (line : Bytes) (m : Manifest) (holds : Holdings) (expanded : Expansion) (streams : Streams)
    (e : Endowment) (its : List Item) : Prop where
  all : tokenize line maxTokens = tokens line
  items : items (tokens line) = some its
  prog : (parseRun line).prog = (its.filterMap Item.word?).head?.map (·.text)
  words : ∀ i w, (its.filterMap Item.word?).tail[i]? = some w → Fills m holds expanded streams e i w
  options : ∀ letters, .options letters ∈ its → ∀ letter ∈ letters, ∃ bit,
    m.flags.findIdx? (· = letter) = some bit ∧ e.flags.testBit bit = true
  once : (its.filterMap Item.mem?).length ≤ 1
  mem : ∀ n, .mem n ∈ its → e.memPages = n

/-- A line that plans is used as a whole if and only if it has no more tokens than are read, and one `--mem` at
most, with its number. -/
theorem plan_uses_the_whole_line (line : Bytes) (prog : Prog) (m : Manifest) (holds : Holdings)
    (expanded : Expansion) (streams : Streams) (e : Endowment)
    (h : planAgainstWith (parseRun line) prog m holds expanded streams = ok e) :
      (∃ its, Uses line m holds expanded streams e its) ↔ (tokens line).length ≤ maxTokens ∧
      MemOnce (tokens line) := by
  constructor
  · rintro ⟨its, huses⟩
    refine ⟨?_, (memOnce_iff huses.items).mpr huses.once⟩
    have hall := huses.all
    rwa [tokenize_eq_take, take_eq_self_iff] at hall
  rintro ⟨hshort, honce⟩
  obtain ⟨n₁, n₂, n₃, n₄, hplanned⟩ := planned_of_eq_ok h
  have hall : tokenize line maxTokens = tokens line := by rw [tokenize_eq_take, take_of_length_le hshort]
  have htokens : parseRun line = parseTokens (tokens line) .empty := by rw [parseRun, hall]
  have hfine : (parseTokens (tokens line) .empty).Fine := htokens ▸ ⟨hplanned.misquoted, hplanned.unexpected⟩
  have hnumbers : ∀ v ∈ memUses (tokens line), v ≠ none := by
    rcases honce with hnone | ⟨n, hn⟩
    · rw [hnone]
      exact fun _ h => (nomatch h)
    · rw [hn]
      exact fun v hv => mem_singleton.mp hv ▸ Option.some_ne_none n
  obtain ⟨its, hits, hadds⟩ := adds_parseTokens hfine hnumbers
  rw [← htokens] at hadds
  have hlength : (its.filterMap Item.mem?).length ≤ 1 := (memOnce_iff hits).mp honce
  refine ⟨its, hall, hits, hadds.prog, fun i w hw => ?_, fun letters hmem letter hletter => ?_, hlength,
    fun n hmem => ?_⟩
  · refine hplanned.fills ?_
    rw [hadds.pos]
    exact hw
  · refine flagBits_sets hplanned.flags letter ?_
    rw [hadds.opts]
    exact mem_append_right _ (mem_flatMap.mpr ⟨_, hmem, hletter⟩)
  · refine memSlot_of_some hplanned.mem ?_
    have hmem' : n ∈ its.filterMap Item.mem? := mem_filterMap.mpr ⟨_, hmem, rfl⟩
    obtain ⟨k, hk⟩ := length_eq_one_iff.mp (le_antisymm hlength (length_pos_of_mem hmem'))
    rw [hk, mem_singleton] at hmem'
    rw [hadds.mem, hk, hmem']
    rfl

theorem plan_uses_the_whole_line_sample :
    ∃ e, planAgainstWith (parseRun (ascii "budgeter --mem 4"))
      .budgeter Prog.budgeter.manifest heldRoot .none .default = ok e ∧
        (tokens (ascii "budgeter --mem 4")).length = 3 ∧ ∃ its,
        items (tokens (ascii "budgeter --mem 4")) = some its ∧ .mem 4 ∈ its ∧ e.memPages = 4 := by
  have hplan : ∃ e, planAgainstWith (parseRun (ascii "budgeter --mem 4"))
    .budgeter Prog.budgeter.manifest heldRoot .none
      .default = ok e := ⟨_, rfl⟩
  obtain ⟨e, hplan⟩ := hplan
  obtain ⟨its, huses⟩ := (plan_uses_the_whole_line _ _ _ _ _ _ e hplan).mpr ⟨by decide, .inr ⟨4, rfl⟩⟩
  have hits := huses.items
  have hmem4 : .mem 4 ∈ its := by
    cases hits
    exact mem_cons_of_mem _ mem_cons_self
  exact ⟨e, hplan, rfl, its, hits, hmem4, huses.mem 4 hmem4⟩

def strayLine : Bytes := ascii "budgeter --mem 4 --mem 4 --mem 4 --mem 4 --mem 4 --mem 4 --mem 4 --mem 4 stray"

theorem plan_forgets_tokens :
    (∃ e, planAgainstWith (parseRun (ascii "budgeter --mem 4 --mem 8"))
      .budgeter Prog.budgeter.manifest heldRoot .none
      .default = ok e ∧ e.memPages = 8) ∧
    (∃ e, planAgainstWith (parseRun (ascii "worker 9 --mem"))
      .worker Prog.worker.manifest heldRoot .none .default = ok e ∧ e.memPages = 0) ∧
    ∃ e, planAgainstWith (parseRun strayLine) .budgeter Prog.budgeter.manifest heldRoot .none .default = ok e := by
  refine ⟨⟨_, rfl, rfl⟩, ⟨_, rfl, rfl⟩, ?_⟩
  have hstray : parseRun strayLine = parseRun (ascii "budgeter --mem 4") := by decide +kernel
  rw [hstray]
  exact ⟨_, rfl⟩

end CrickerOs.GrantPlan

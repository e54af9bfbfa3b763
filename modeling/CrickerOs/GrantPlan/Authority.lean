import CrickerOs.GrantPlan.Plan

namespace CrickerOs.GrantPlan

open Library Library.Outcome List

section

variable {m : Manifest} {run : RunSpec} {holds : Holdings} {expanded : Expansion} {streams : Streams} {prog : Prog}
  {e : Endowment} {n n' v flags : ℕ}

lemma okOr_eq_ok {α : Type} {r : Refusal} {o : Option α} {a : α} : (okOr r o : Outcome Refusal α) = ok a ↔
    o = some a := by
  cases o <;> simp [okOr]

lemma ofNav_eq_ok {α : Type} {x : Except Nav.Refused α} {a : α} : ofNav x = ok a ↔ x = .ok a := by
  cases x <;> simp [ofNav]

lemma argSlot_eq_ok : argSlot m run = ok (v, n) ↔ m.arg = .forbidden ∧ 0 = v ∧ 0 = n ∨
    m.arg = .required ∧ ∃ w, run.pos[0]? = some w ∧ parseU64 w.text = some v ∧ 1 = n := by
  rw [argSlot]
  cases m.arg <;> simp [bind_eq_ok, okOr_eq_ok, pure]

lemma fileSlot_eq_ok {file : Option FileGrant} : fileSlot m run holds expanded n = ok (file, n') ↔
    m.file = .forbidden ∧ none = file ∧ n = n' ∨ ∃ writable, m.file = .required writable ∧ ∃ w,
      run.pos[n]? = some w ∧ ∃ g, designateFile w.text n holds expanded .ambiguousFile writable = ok g ∧
      some g = file ∧ n + 1 = n' := by
  rw [fileSlot]
  cases m.file <;> simp [bind_eq_ok, okOr_eq_ok, pure]

lemma dirSlot_eq_ok {dir : Option DirGrant} : dirSlot m run holds expanded flags n = ok (dir, n') ↔
    m.dir = .forbidden ∧ none = dir ∧ n = n' ∨ ∃ flag, m.dir = .required flag ∧ ∃ w, run.pos[n]? = some w ∧
      holds.dir = true ∧ ∃ cwd names, designate w.text n holds.cwd expanded = ok (cwd, names) ∧
        ∃ subtree, subtreeRight m flags flag = ok subtree ∧ some ⟨cwd, names, subtree⟩ = dir ∧ n + 1 = n' := by
  rw [dirSlot]
  cases m.dir <;> simp [bind_eq_ok, okOr_eq_ok, ensure, pure]

lemma inputSlot_eq_ok {source source' : Source} : inputSlot m run holds expanded source n = ok (source', n') ↔
    (∃ writes, m.input = .required writes ∧ source = .none ∧ ∃ w, run.pos[n]? = some w ∧
      ∃ g, designateFile w.text n holds expanded .ambiguousFile false = ok g ∧ .file g = source' ∧ n + 1 = n') ∨
    (m.input = .forbidden ∨ source ≠ .none ∨ run.pos[n]? = none) ∧ source = source' ∧ n = n' := by
  rw [inputSlot.eq_def]
  cases m.input <;> cases source <;> cases run.pos[n]? <;> simp [bind_eq_ok, pure]

structure Planned (run : RunSpec) (m : Manifest) (holds : Holdings) (expanded : Expansion) (streams : Streams)
    (e : Endowment) (n₁ n₂ n₃ n₄ : ℕ) : Prop where
  misquoted : run.misquoted = none
  unexpected : run.unexpected = none
  flags : flagBits m run.opts 0 = ok e.flags
  arg : argSlot m run = ok (e.arg, n₁)
  file : fileSlot m run holds expanded n₁ = ok (e.file, n₂)
  dir : dirSlot m run holds expanded e.flags n₂ = ok (e.dir, n₃)
  source : inputSlot m run holds expanded streams.source n₃ = ok (e.source, n₄)
  rest : run.pos.length ≤ n₄
  mem : memSlot m run = ok e.memPages
  diagnostics : checkStreams m { streams with source := e.source } = ok e.diagnostics

lemma planned_of_eq_ok (h : planAgainstWith run prog m holds expanded streams = ok e) :
    ∃ n₁ n₂ n₃ n₄, Planned run m holds expanded streams e n₁ n₂ n₃ n₄ := by
  rw [planAgainstWith] at h
  cases hmis : run.misquoted with
  | some r =>
    rw [hmis] at h
    cases h
  | none =>
    rw [hmis] at h
    obtain ⟨hunexpected, h⟩ := ensure_bind_eq_ok.mp h
    obtain ⟨flags, hflags, h⟩ := bind_eq_ok.mp h
    obtain ⟨⟨arg, n₁⟩, harg, h⟩ := bind_eq_ok.mp h
    obtain ⟨⟨file, n₂⟩, hfile, h⟩ := bind_eq_ok.mp h
    obtain ⟨⟨dir, n₃⟩, hdir, h⟩ := bind_eq_ok.mp h
    obtain ⟨⟨source, n₄⟩, hsource, h⟩ := bind_eq_ok.mp h
    obtain ⟨_, hrest, h⟩ := bind_eq_ok.mp h
    obtain ⟨memPages, hmem, h⟩ := bind_eq_ok.mp h
    obtain ⟨diagnostics, hdiagnostics, h⟩ := bind_eq_ok.mp h
    cases h
    refine ⟨n₁, n₂, n₃, n₄, hmis, hunexpected, hflags, harg, hfile, hdir, hsource, ?_, hmem, hdiagnostics⟩
    cases hpos : run.pos[n₄]? with
    | none => exact getElem?_eq_none_iff.mp hpos
    | some extra => simp [checkRest, hpos] at hrest

/-- What the word at `i` designates: the directory its leading path leads to from where the shell stands, or from
its root, and either its last component or what a pattern without quotes was expanded to. -/
def Designates (holds : Holdings) (expanded : Expansion) (i : ℕ) (w : Word) (dir : Nav.Cwd) (names : List Bytes) :
    Prop :=
  ∃ p lead last, Nav.path w.text = .ok p ∧ p.splitLastComponent = some (lead, last) ∧
    Nav.lexical (if p.fromRoot then [] else holds.cwd.names) lead = some dir.names ∧
    (Glob.hasMagic last = false ∧ names = [last] ∨
      Glob.hasMagic last = true ∧ w.quoted = false ∧ expanded.index = some i ∧ names = expanded.names.names)

def Keyed (run : RunSpec) (expanded : Expansion) : Prop :=
  ∀ i, expanded.index = some i → ∃ w, run.pos[i]? = some w ∧ w.quoted = false ∧ magicComponent w.text = ok true

lemma keyed_none : Keyed run .none := fun i hindex => absurd hindex (Option.some_ne_none i).symm

lemma names_one {name : Bytes} {set : NameSet} (h : NameSet.one name false = some set) : set.names = [name] := by
  rw [NameSet.one, NameSet.push] at h
  split_ifs at h
  cases h
  rfl

lemma designates_of_eq_ok {i : ℕ} {w : Word} {dir : Nav.Cwd} {names : NameSet} (hkeyed : Keyed run expanded)
    (hw : run.pos[i]? = some w) (h : designate w.text i holds.cwd expanded = ok (dir, names)) :
    Designates holds expanded i w dir names.names := by
  obtain ⟨magic, hmagic, h⟩ := bind_eq_ok.mp h
  obtain ⟨p, hp, h⟩ := bind_eq_ok.mp h
  obtain ⟨⟨lead, last⟩, hsplit, h⟩ := bind_eq_ok.mp h
  obtain ⟨dir', hdir, h⟩ := bind_eq_ok.mp h
  obtain ⟨names', hnames, h⟩ := bind_eq_ok.mp h
  cases h
  rw [ofNav_eq_ok] at hp hdir
  rw [okOr_eq_ok] at hsplit
  have hlast : magic = Glob.hasMagic last := by
    obtain ⟨p', hp', hmagic⟩ := bind_eq_ok.mp hmagic
    rw [ofNav_eq_ok, hp] at hp'
    cases hp'
    rw [Nav.Path.splitLastComponent] at hsplit
    cases hget : p.steps.getLast? with
    | none =>
      rw [hget] at hsplit
      exact nomatch hsplit
    | some step =>
      rw [hget] at hsplit hmagic
      obtain ⟨-, hmagic⟩ := ensure_bind_eq_ok.mp hmagic
      cases step with
      | up => exact nomatch hsplit
      | down name =>
        rw [← (Prod.mk.inj (Option.some.inj hsplit)).2]
        exact (Outcome.ok.inj hmagic).symm
  refine ⟨p, lead, last, hp, hsplit, ?_, ?_⟩
  · have hlexical := Nav.lexical_of_apply hdir
    split_ifs at hlexical ⊢ <;> exact hlexical
  · rw [designated] at hnames
    cases hmag : Glob.hasMagic last with
    | false =>
      rw [hlast, hmag, if_neg Bool.false_ne_true, okOr_eq_ok] at hnames
      exact .inl ⟨rfl, names_one hnames⟩
    | true =>
      rw [hlast, hmag, if_pos rfl] at hnames
      obtain ⟨set, hset, hnames⟩ := bind_eq_ok.mp hnames
      obtain ⟨-, hnames⟩ := ensure_bind_eq_ok.mp hnames
      cases hnames
      rw [okOr_eq_ok, Expansion.forPositional] at hset
      split_ifs at hset with hindex
      obtain ⟨w', hw', hquoted, -⟩ := hkeyed i hindex
      cases Option.mem_unique hw hw'
      exact .inr ⟨rfl, hquoted, hindex, by rw [← Option.some.inj hset]⟩

lemma only_eq_some {set : NameSet} {name : Name} (h : set.only = some name) : set.names = [name.val] := by
  rw [NameSet.only] at h
  split at h
  · rename_i e he
    rw [NameSet.names, he, ← Option.some.inj h]
    rfl
  · cases h

lemma designateFile_eq_ok {i : ℕ} {w : Word} {many : Refusal} {writable : Bool} {g : FileGrant}
    (hkeyed : Keyed run expanded) (hw : run.pos[i]? = some w)
    (h : designateFile w.text i holds expanded many writable = ok g) :
    holds.dir = true ∧ Designates holds expanded i w g.dir [g.name.val] ∧ g.writable = writable := by
  obtain ⟨hdir, h⟩ := ensure_bind_eq_ok.mp h
  obtain ⟨⟨dir, names⟩, hdesignate, h⟩ := bind_eq_ok.mp h
  obtain ⟨name, honly, h⟩ := bind_eq_ok.mp h
  cases h
  have hdesignates := designates_of_eq_ok hkeyed hw hdesignate
  rw [only_eq_some (okOr_eq_ok.mp honly)] at hdesignates
  exact ⟨hdir, hdesignates, rfl⟩

end

section

structure Typed (all : List Bytes) (run : RunSpec) : Prop where
  pos : ∀ w ∈ run.pos, ∃ token ∈ all, read token = .ok w
  opts : ∀ letter ∈ run.opts, ∃ token ∈ all, ∃ letters, read token = .ok ⟨dash :: letters, false⟩ ∧
    letter ∈ letters
  mem : ∀ n, run.mem = some n → ∃ before token value after, all = before ++ token :: value :: after ∧
    read token = .ok ⟨ascii "--mem", false⟩ ∧ memValue value = some n

variable {all : List Bytes} {run : RunSpec}

lemma Typed.empty : Typed all .empty := ⟨fun _ h => (nomatch h), fun _ h => (nomatch h), fun _ h => (nomatch h)⟩

lemma Typed.place {token : Bytes} {w : Word} (h : Typed all run) (htoken : token ∈ all) (hw : read token = .ok w) :
    Typed all (run.place w) := by
  rw [RunSpec.place]
  split_ifs with hdash hshort hprog
  · refine ⟨h.pos, fun letter hletter => ?_, h.mem⟩
    rcases mem_append.mp hletter with hletter | hletter
    · exact h.opts letter hletter
    · obtain ⟨text, quoted⟩ := w
      obtain ⟨hquoted, hhead⟩ := hdash
      cases text with
      | nil => exact nomatch hhead
      | cons b letters =>
        cases hhead
        have hquoted : quoted = false := Bool.not_eq_true' _ ▸ hquoted
        exact ⟨token, htoken, letters, by rw [hw, hquoted], hletter⟩
  · exact ⟨h.pos, h.opts, h.mem⟩
  · exact ⟨h.pos, h.opts, h.mem⟩
  · refine ⟨fun w' hw' => ?_, h.opts, h.mem⟩
    rcases mem_append.mp hw' with hw' | hw'
    · exact h.pos w' hw'
    · rw [mem_singleton.mp hw']
      exact ⟨token, htoken, hw⟩
  · exact ⟨h.pos, h.opts, h.mem⟩

lemma Word.isMem_iff {w : Word} : w.isMem = true ↔ w = ⟨ascii "--mem", false⟩ := by
  obtain ⟨text, quoted⟩ := w
  cases quoted <;> simp [Word.isMem]

lemma Typed.parseTokens {toks : List Bytes} (seen : List Bytes) (h : Typed all run) (heq : seen ++ toks = all) :
    Typed all (parseTokens toks run) := by
  induction toks, run using parseTokens.induct generalizing seen with
  | case1 run => exact h
  | case2 token rest run r hread ih =>
    rw [parseTokens_error hread]
    exact ih (seen ++ [token]) ⟨h.pos, h.opts, h.mem⟩ (by rw [append_assoc]; exact heq)
  | case3 token run w hread hmem =>
    rw [parseTokens_mem_last hread hmem]
    exact h
  | case4 token run w hread hmem value rest ih =>
    rw [parseTokens_mem hread hmem]
    refine ih (seen ++ [token, value]) ⟨h.pos, h.opts, fun n hn => ?_⟩ (by rw [append_assoc]; exact heq)
    exact ⟨seen, token, value, rest, heq.symm, by rw [hread, Word.isMem_iff.mp hmem], hn⟩
  | case5 token rest run w hread hmem ih =>
    rw [parseTokens_place hread (Bool.eq_false_of_not_eq_true hmem)]
    have htoken : token ∈ all := heq ▸ mem_append_right _ mem_cons_self
    exact ih (seen ++ [token]) (h.place htoken hread) (by rw [append_assoc]; exact heq)

lemma typed_parseRun {line : Bytes} : Typed (tokens line) (parseRun line) := by
  have h : Typed (tokenize line maxTokens) (parseRun line) := Typed.empty.parseTokens [] rfl
  rw [tokenize_eq_take] at h
  refine ⟨fun w hw => ?_, fun letter hletter => ?_, fun n hn => ?_⟩
  · obtain ⟨token, htoken, hread⟩ := h.pos w hw
    exact ⟨token, mem_of_mem_take htoken, hread⟩
  · obtain ⟨token, htoken, hletters⟩ := h.opts letter hletter
    exact ⟨token, mem_of_mem_take htoken, hletters⟩
  · obtain ⟨before, token, value, after, heq, hmem⟩ := h.mem n hn
    refine ⟨before, token, value, after ++ (tokens line).drop maxTokens, ?_, hmem⟩
    conv_lhs => rw [← take_append_drop maxTokens (tokens line), heq]
    rw [append_assoc]
    rfl

end

section

variable {m : Manifest}

lemma testBit_flagBits {letters : Bytes} {flags flags' bit : ℕ} (h : flagBits m letters flags = ok flags')
    (hbit : flags'.testBit bit = true) :
    flags.testBit bit = true ∨ ∃ letter ∈ letters, m.flags.findIdx? (· = letter) = some bit := by
  induction letters generalizing flags with
  | nil =>
    cases h
    exact .inl hbit
  | cons letter letters ih =>
    obtain ⟨i, hi, h⟩ := bind_eq_ok.mp h
    rw [okOr_eq_ok] at hi
    split_ifs at h
    rcases ih h with hset | ⟨letter', hmem, hfind⟩
    · rw [Nat.testBit_or, Bool.or_eq_true, Nat.one_shiftLeft, Nat.testBit_two_pow] at hset
      refine hset.imp id fun heq => ⟨letter, mem_cons_self, ?_⟩
      rw [hi, of_decide_eq_true heq]
    · exact .inr ⟨letter', mem_cons_of_mem _ hmem, hfind⟩

lemma eq_of_findIdx? {l : Bytes} {a b : UInt8} {i : ℕ} (ha : l.findIdx? (· = a) = some i)
    (hb : l.findIdx? (· = b) = some i) : a = b := by
  obtain ⟨hlt, hla, -⟩ := findIdx?_eq_some_iff_getElem.mp ha
  obtain ⟨_, hlb, -⟩ := findIdx?_eq_some_iff_getElem.mp hb
  rw [decide_eq_true_iff] at hla hlb
  exact hla.symm.trans hlb

end

def Operand (line : Bytes) (i : ℕ) (w : Word) : Prop :=
  (parseRun line).pos[i]? = some w ∧ ∃ token ∈ tokens line, read token = .ok w

section

variable {line : Bytes} {m : Manifest} {holds : Holdings} {expanded : Expansion} {streams : Streams}
  {e : Endowment}
  {n n' : ℕ}

lemma operand_of_eq_some {i : ℕ} {w : Word} (h : (parseRun line).pos[i]? = some w) : Operand line i w :=
  ⟨h, typed_parseRun.pos w (mem_of_getElem? h)⟩

lemma fileSlot_eq_some {g : FileGrant} (hkeyed : Keyed (parseRun line) expanded)
    (h : fileSlot m (parseRun line) holds expanded n = ok (some g, n')) :
    holds.dir = true ∧ (∃ w, Operand line n w ∧ Designates holds expanded n w g.dir [g.name.val]) ∧
      (g.writable = true → m.file = .required true) := by
  obtain ⟨-, hnone, -⟩ | ⟨writable, hspec, w, hw, grant, hgrant, hsome, -⟩ := fileSlot_eq_ok.mp h
  · cases hnone
  · cases hsome
    obtain ⟨hdir, hdesignates, hwritable⟩ := designateFile_eq_ok hkeyed hw hgrant
    exact ⟨hdir, ⟨w, operand_of_eq_some hw, hdesignates⟩, fun htrue => by rw [hspec, ← hwritable, htrue]⟩

lemma subtreeRight_eq_true {flags : ℕ} {flag : Option UInt8}
    (hflags : flagBits m (parseRun line).opts 0 = ok flags) (h : subtreeRight m flags flag = ok true) : ∃ letter,
      flag = some letter ∧ ∃ token ∈ tokens line, ∃ letters, read token = .ok ⟨dash :: letters, false⟩ ∧
      letter ∈ letters := by
  cases flag with
  | none => cases h
  | some letter =>
    refine ⟨letter, rfl, ?_⟩
    rw [subtreeRight] at h
    cases hfind : m.flags.findIdx? (· = letter) with
    | none =>
      rw [hfind] at h
      cases h
    | some bit =>
      rw [hfind] at h
      dsimp only at h
      split_ifs at h
      rcases testBit_flagBits hflags (Outcome.ok.inj h) with hzero | ⟨letter', hmem, hfind'⟩
      · rw [Nat.zero_testBit] at hzero
        cases hzero
      · obtain rfl := eq_of_findIdx? hfind' hfind
        exact typed_parseRun.opts letter' hmem

lemma dirSlot_eq_some {flags : ℕ} {g : DirGrant} (hkeyed : Keyed (parseRun line) expanded)
    (hflags : flagBits m (parseRun line).opts 0 = ok flags)
    (h : dirSlot m (parseRun line) holds expanded flags n = ok (some g, n')) :
    holds.dir = true ∧ (∃ w, Operand line n w ∧ Designates holds expanded n w g.dir g.names.names) ∧
      (g.subtree = true → ∃ letter, m.dir = .required (some letter) ∧
        ∃ token ∈ tokens line, ∃ letters, read token = .ok ⟨dash :: letters, false⟩ ∧ letter ∈ letters) := by
  obtain ⟨-, hnone, -⟩ | ⟨flag, hspec, w, hw, hdir, cwd, names, hdesignate, subtree, hsubtree, hsome, -⟩ :=
    dirSlot_eq_ok.mp h
  · cases hnone
  · cases hsome
    refine ⟨hdir, ⟨w, operand_of_eq_some hw, designates_of_eq_ok hkeyed hw hdesignate⟩, fun htrue => ?_⟩
    obtain rfl : subtree = true := htrue
    obtain ⟨letter, rfl, htyped⟩ := subtreeRight_eq_true hflags hsubtree
    exact ⟨letter, hspec, htyped⟩

lemma inputSlot_eq_file {source : Source} {g : FileGrant} (hkeyed : Keyed (parseRun line) expanded)
    (h : inputSlot m (parseRun line) holds expanded source n = ok (.file g, n')) : source = .file g ∨
      holds.dir = true ∧ (∃ w, Operand line n w ∧ Designates holds expanded n w g.dir [g.name.val]) ∧
      g.writable = false := by
  obtain ⟨_, -, -, w, hw, grant, hgrant, hfile, -⟩ | ⟨-, hsame, -⟩ := inputSlot_eq_ok.mp h
  · cases hfile
    obtain ⟨hdir, hdesignates, hwritable⟩ := designateFile_eq_ok hkeyed hw hgrant
    exact .inr ⟨hdir, ⟨w, operand_of_eq_some hw, hdesignates⟩, hwritable⟩
  · exact .inl hsame

lemma memSlot_eq_ok (h : memSlot m (parseRun line) = ok n) (hne : n ≠ 0) :
    ∃ min max, m.mem = .required min max ∧ min ≤ n ∧ n ≤ max ∧ ∃ before token value after,
      tokens line = before ++ token :: value :: after ∧ read token = .ok ⟨ascii "--mem", false⟩ ∧
      memValue value = some n := by
  rw [memSlot] at h
  split at h
  · exact absurd (Outcome.ok.inj h).symm hne
  · exact nomatch h
  · exact nomatch h
  · rename_i min max v hspec hmem
    split_ifs at h with hrange
    obtain rfl := Outcome.ok.inj h
    exact ⟨min, max, hspec, by omega, by omega, typed_parseRun.mem v hmem⟩

end

theorem authority_is_typed_and_held (line : Bytes) (prog : Prog) (m : Manifest) (holds : Holdings)
    (expanded : Expansion) (streams : Streams) (e : Endowment) (hkeyed : Keyed (parseRun line) expanded)
    (h : planAgainstWith (parseRun line) prog m holds expanded streams = ok e) :
    (∀ g, e.file = some g → holds.dir = true ∧
      (∃ i w, Operand line i w ∧ Designates holds expanded i w g.dir [g.name.val]) ∧
      (g.writable = true → m.file = .required true)) ∧
    (∀ g, e.dir = some g → holds.dir = true ∧
      (∃ i w, Operand line i w ∧ Designates holds expanded i w g.dir g.names.names) ∧
      (g.subtree = true → ∃ letter, m.dir = .required (some letter) ∧
        ∃ token ∈ tokens line, ∃ letters, read token = .ok ⟨dash :: letters, false⟩ ∧ letter ∈ letters)) ∧
    (∀ g, e.source = .file g → streams.source = .file g ∨ holds.dir = true ∧
      (∃ i w, Operand line i w ∧ Designates holds expanded i w g.dir [g.name.val]) ∧ g.writable = false) ∧
    (e.memPages ≠ 0 → ∃ min max, m.mem = .required min max ∧ min ≤ e.memPages ∧ e.memPages ≤ max ∧
      ∃ before token value after, tokens line = before ++ token :: value :: after ∧
        read token = .ok ⟨ascii "--mem", false⟩ ∧ memValue value = some e.memPages) := by
  obtain ⟨n₁, n₂, n₃, n₄, hplanned⟩ := planned_of_eq_ok h
  refine ⟨fun g hg => ?_, fun g hg => ?_, fun g hg => ?_, memSlot_eq_ok hplanned.mem⟩
  · obtain ⟨hdir, hoperand, hwritable⟩ := fileSlot_eq_some hkeyed (hg ▸ hplanned.file)
    exact ⟨hdir, ⟨n₁, hoperand⟩, hwritable⟩
  · obtain ⟨hdir, hoperand, hsubtree⟩ := dirSlot_eq_some hkeyed hplanned.flags (hg ▸ hplanned.dir)
    exact ⟨hdir, ⟨n₂, hoperand⟩, hsubtree⟩
  · refine (inputSlot_eq_file hkeyed (hg ▸ hplanned.source)).imp id fun hinput => ?_
    exact ⟨hinput.1, ⟨n₃, hinput.2.1⟩, hinput.2.2⟩

def heldRoot : Holdings := ⟨true, .root⟩

theorem authority_is_typed_and_held_sample :
    ∃ e g, planAgainstWith (parseRun (ascii "rm -r logs")) .rm Prog.rm.manifest heldRoot .none .default = ok e ∧
      e.dir = some g ∧ g.names.names = [ascii "logs"] ∧ g.subtree = true ∧ heldRoot.dir = true ∧
        ∃ letter, Prog.rm.manifest.dir = .required (some letter) := by
  have hplan : ∃ e g, planAgainstWith (parseRun (ascii "rm -r logs"))
      .rm Prog.rm.manifest heldRoot .none .default = ok e ∧ e.dir = some g ∧ g.names.names = [ascii "logs"] ∧
        g.subtree = true := ⟨_, _, rfl, rfl, rfl, rfl⟩
  obtain ⟨e, g, h, hg, hnames, hsubtree⟩ := hplan
  obtain ⟨-, hdir, -⟩ := authority_is_typed_and_held _ _ _ _ _ _ e keyed_none h
  obtain ⟨hholds, -, hletter⟩ := hdir g hg
  obtain ⟨letter, hspec, -⟩ := hletter hsubtree
  exact ⟨e, g, h, hg, hnames, hsubtree, hholds, letter, hspec⟩

theorem wired_file_needs_no_directory : ∃ g e, e.source = .file g ∧
    planAgainstWith (parseRun (ascii "wc")) .wc Prog.wc.manifest ⟨false, .root⟩ .none ⟨.report, .file g, none⟩ =
    ok e :=
  ⟨⟨.root, ⟨ascii "notes", by decide⟩, false⟩, _, rfl, rfl⟩

end CrickerOs.GrantPlan

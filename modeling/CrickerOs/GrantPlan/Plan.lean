import CrickerOs.GrantPlan.Expand
import CrickerOs.GrantPlan.Nav
import CrickerOs.Glob.Magic
import CrickerOs.Library.Outcome

namespace CrickerOs.GrantPlan

open Library Library.Outcome

inductive ArgSpec
  | required
  | forbidden
  deriving DecidableEq

inductive MemSpec
  | forbidden
  | required (min max : ℕ)
  deriving DecidableEq

inductive FileSpec
  | forbidden
  | required (writable : Bool)
  deriving DecidableEq

inductive DirSpec
  | forbidden
  | required (subtreeFlag : Option UInt8)
  deriving DecidableEq

inductive OutputSpec
  | silent
  | words
  | bytes
  | bytesAndDiagnostics (slot : ℕ)
  deriving DecidableEq

namespace OutputSpec

def isByteStream : OutputSpec → Bool
  | bytes | bytesAndDiagnostics _ => true
  | _ => false

def diagnosticsSlot : OutputSpec → Option ℕ
  | bytesAndDiagnostics slot => some slot
  | _ => none

end OutputSpec

inductive InputSpec
  | forbidden
  | required (writesWhileReading : Bool)
  deriving DecidableEq

structure Manifest where
  arg : ArgSpec
  mem : MemSpec
  file : FileSpec
  dir : DirSpec
  flags : Bytes
  output : OutputSpec
  input : InputSpec
  reports : Bool
  interruptible : Bool
  clock : Bool
  domain : Bool
  deriving DecidableEq

inductive Prog
  | worker | budgeter | heeder | spinner | date | rm | wc | doc | ps | pgrep
  deriving DecidableEq

namespace Prog

def fromName (name : Bytes) : Option Prog :=
  if name = ascii "worker" then some worker
  else if name = ascii "budgeter" then some budgeter
  else if name = ascii "heeder" then some heeder
  else if name = ascii "spinner" then some spinner
  else if name = ascii "date" then some date
  else if name = ascii "rm" then some rm
  else if name = ascii "wc" then some wc
  else if name = ascii "doc" then some doc
  else if name = ascii "ps" then some ps
  else if name = ascii "pgrep" then some pgrep
  else none

def diagnosticsSlot : ℕ := 8

def plain : Manifest where
  arg := .forbidden
  mem := .forbidden
  file := .forbidden
  dir := .forbidden
  flags := []
  output := .bytes
  input := .forbidden
  reports := true
  interruptible := false
  clock := false
  domain := false

def manifest : Prog → Manifest
  | worker => { plain with arg := .required, output := .words }
  | budgeter => { plain with mem := .required 1 64, output := .words }
  | heeder => { plain with output := .silent, reports := false, interruptible := true }
  | spinner => { plain with output := .silent, reports := false, interruptible := true }
  | date => { plain with output := .bytesAndDiagnostics diagnosticsSlot, clock := true }
  | rm => { plain with dir := .required (some 0x72), flags := ascii "rfv" }
  | wc => { plain with input := .required false }
  | doc => { plain with input := .required true }
  | ps => { plain with output := .bytesAndDiagnostics diagnosticsSlot, domain := true }
  | pgrep => { plain with output := .bytesAndDiagnostics diagnosticsSlot, domain := true }

end Prog

structure FileGrant where
  dir : Nav.Cwd
  name : Name
  writable : Bool

structure DirGrant where
  dir : Nav.Cwd
  names : NameSet
  subtree : Bool

inductive Mode
  | truncate
  | append
  deriving DecidableEq

inductive Sink
  | report
  | pipe
  | file (grant : FileGrant) (mode : Mode)

inductive Source
  | none
  | pipe
  | file (grant : FileGrant)

inductive Diagnostics
  | none
  | printed
  | file (grant : FileGrant) (mode : Mode)

structure Streams where
  sink : Sink
  source : Source
  diagnostics : Option (FileGrant × Mode)

def Streams.default : Streams := ⟨.report, .none, none⟩

structure Holdings where
  dir : Bool
  cwd : Nav.Cwd

structure Endowment where
  prog : Prog
  arg : ℕ
  memPages : ℕ
  file : Option FileGrant
  dir : Option DirGrant
  flags : ℕ
  sink : Sink
  source : Source
  diagnostics : Diagnostics
  reports : Bool
  interruptible : Bool
  writesWhileReading : Bool

structure Expansion where
  index : Option ℕ
  names : NameSet

namespace Expansion

def none : Expansion := ⟨.none, .empty⟩

def forPositional (expanded : Expansion) (i : ℕ) : Option NameSet :=
  if expanded.index = some i then some expanded.names else .none

end Expansion

def maxPositionals : ℕ := 4
def maxFlags : ℕ := 8
def maxTokens : ℕ := 16

def dash : UInt8 := 0x2d

structure RunSpec where
  prog : Option Bytes
  mem : Option ℕ
  pos : List Word
  opts : Bytes
  unexpected : Option Bytes
  misquoted : Option Refusal
  deriving DecidableEq

def RunSpec.empty : RunSpec := ⟨none, none, [], [], none, none⟩

def RunSpec.quoted (run : RunSpec) (i : ℕ) : Bool := run.pos[i]?.any (·.quoted)

def isShort (letters : Bytes) : Bool := letters ≠ [] ∧ letters.all isAsciiAlphabetic

def RunSpec.place (run : RunSpec) (w : Word) : RunSpec :=
  if !w.quoted ∧ w.text.head? = some dash then
    if isShort w.text.tail ∧ run.opts.length + w.text.tail.length ≤
      maxFlags then { run with opts := run.opts ++ w.text.tail }
    else { run with unexpected := run.unexpected.or (some w.text) }
  else if run.prog = none then { run with prog := some w.text }
  else if run.pos.length < maxPositionals then { run with pos := run.pos ++ [w] }
  else { run with unexpected := run.unexpected.or (some w.text) }

def Word.isMem (w : Word) : Bool := !w.quoted ∧ w.text = ascii "--mem"

def memValue (token : Bytes) : Option ℕ := (read token).toOption.bind fun w => parseU64 w.text

def parseTokens : List Bytes → RunSpec → RunSpec
  | [], run => run
  | token :: rest, run =>
    match read token with
    | .error r => parseTokens rest { run with misquoted := run.misquoted.or (some r) }
    | .ok w =>
      if w.isMem then
        match rest with
        | [] => run
        | value :: rest => parseTokens rest { run with mem := memValue value }
      else parseTokens rest (run.place w)

def parseRun (line : Bytes) : RunSpec := parseTokens (tokenize line maxTokens) .empty

section

variable {token value : Bytes} {rest : List Bytes} {run : RunSpec} {w : Word}

lemma parseTokens_error {r : Refusal} (h : read token = .error r) :
    parseTokens (token :: rest) run = parseTokens rest { run with misquoted := run.misquoted.or (some r) } := by
  rw [parseTokens.eq_def]
  simp only [h]

lemma parseTokens_mem (h : read token = .ok w) (hmem : w.isMem = true) :
    parseTokens (token :: value :: rest) run = parseTokens rest { run with mem := memValue value } := by
  rw [parseTokens.eq_def]
  simp only [h, hmem, if_true]

lemma parseTokens_mem_last (h : read token = .ok w) (hmem : w.isMem = true) : parseTokens [token] run = run := by
  rw [parseTokens.eq_def]
  simp only [h, hmem, if_true]

lemma parseTokens_place (h : read token = .ok w) (hmem : w.isMem = false) :
    parseTokens (token :: rest) run = parseTokens rest (run.place w) := by
  rw [parseTokens.eq_def]
  simp only [h, hmem, Bool.false_eq_true, if_false]

end

def ofNav {α : Type} : Except Nav.Refused α → Outcome Refusal α
  | .ok a => .ok a
  | .error _ => .error .fileNotNameable

def isMagicStep : Nav.Step → Bool
  | .down name => Glob.hasMagic name
  | .up => false

def magicComponent (token : Bytes) : Outcome Refusal Bool := do
  let parsed ← ofNav (Nav.path token)
  match parsed.steps.getLast? with
  | none => pure false
  | some last => do
      ensure (parsed.steps.dropLast.any isMagicStep = false) .patternInPath
      pure (isMagicStep last)

def NameSet.one (name : Bytes) (isDir : Bool) : Option NameSet := NameSet.empty.push name isDir

def NameSet.only (set : NameSet) : Option Name :=
  match set.entries with
  | [e] => some e.1
  | _ => none

def designated (magic : Bool) (last : Bytes) (i : ℕ) (expanded : Expansion) : Outcome Refusal NameSet :=
  if magic then do
    let set ← okOr .unexpanded (expanded.forPositional i)
    ensure (set.entries ≠ []) .noMatch
    pure set
  else okOr .fileNotNameable (NameSet.one last false)

def designate (token : Bytes) (i : ℕ) (cwd : Nav.Cwd) (expanded : Expansion) :
    Outcome Refusal (Nav.Cwd × NameSet) := do
  let magic ← magicComponent token
  let parsed ← ofNav (Nav.path token)
  let (lead, last) ← okOr .fileNotNameable parsed.splitLastComponent
  let dir ← ofNav ((if parsed.fromRoot then .root else cwd).apply lead)
  let names ← designated magic last i expanded
  pure (dir, names)

def designateFile (token : Bytes) (i : ℕ) (holds : Holdings) (expanded : Expansion) (many : Refusal)
    (writable : Bool) : Outcome Refusal FileGrant := do
  ensure (holds.dir = true) (.noSuchCapability .file)
  let (dir, names) ← designate token i holds.cwd expanded
  let name ← okOr many names.only
  pure ⟨dir, name, writable⟩

def unplaceable (token : Bytes) (m : Manifest) : Refusal :=
  if (parseU64 token).isSome ∧ m.arg = .forbidden then .argForbidden
  else if (parseU64 token).isNone ∧ m.file = .forbidden ∧ m.dir = .forbidden then .fileForbidden
  else .unexpected

def checkStreams (m : Manifest) (streams : Streams) : Outcome Refusal Diagnostics := do
  match streams.sink with
  | .report => pure ()
  | _ => ensure (m.output.isByteStream = true) .notAByteStream
  let diagnostics ← match m.output.diagnosticsSlot, streams.diagnostics with
    | none, none => pure Diagnostics.none
    | none, some _ => Outcome.error .noDiagnosticStream
    | some _, none => pure .printed
    | some _, some (g, mode) => pure (.file g mode)
  match m.input, streams.source with
  | .required _, .none => .error .inputRequired
  | .forbidden, .none => pure diagnostics
  | .forbidden, _ => .error .inputForbidden
  | .required _, _ => pure diagnostics

section

variable (m : Manifest) (run : RunSpec) (holds : Holdings) (expanded : Expansion)

def flagBits : (letters : Bytes) → (flags : ℕ) → Outcome Refusal ℕ
  | [], flags => pure flags
  | letter :: letters, flags => do
      let bit ← okOr .noSuchOption (m.flags.findIdx? (· = letter))
      if bit < 64 then flagBits letters (flags ||| 1 <<< bit) else .panic

def argSlot : Outcome Refusal (ℕ × ℕ) :=
  match m.arg with
  | .required => do
      let first ← okOr .argRequired run.pos[0]?
      let v ← okOr .argRequired (parseU64 first.text)
      pure (v, 1)
  | .forbidden => pure (0, 0)

def fileSlot (next : ℕ) : Outcome Refusal (Option FileGrant × ℕ) :=
  match m.file with
  | .forbidden => pure (none, next)
  | .required writable => do
      let token ← okOr .fileRequired run.pos[next]?
      let grant ← designateFile token.text next holds expanded .ambiguousFile writable
      pure (some grant, next + 1)

def subtreeRight (flags : ℕ) : Option UInt8 → Outcome Refusal Bool
  | none => pure false
  | some letter =>
    match m.flags.findIdx? (· = letter) with
    | some bit => if bit < 64 then pure (flags.testBit bit) else .panic
    | none => pure false

def dirSlot (flags next : ℕ) : Outcome Refusal (Option DirGrant × ℕ) :=
  match m.dir with
  | .forbidden => pure (none, next)
  | .required subtreeFlag => do
      let token ← okOr .pathRequired run.pos[next]?
      ensure (holds.dir = true) (.noSuchCapability .file)
      let (dir, names) ← designate token.text next holds.cwd expanded
      let subtree ← subtreeRight m flags subtreeFlag
      pure (some ⟨dir, names, subtree⟩, next + 1)

def inputSlot (source : Source) (next : ℕ) : Outcome Refusal (Source × ℕ) :=
  match m.input, source, run.pos[next]? with
  | .required _, .none, some token => do
      let grant ← designateFile token.text next holds expanded .ambiguousFile false
      pure (.file grant, next + 1)
  | _, source, _ => pure (source, next)

def memSlot : Outcome Refusal ℕ :=
  match m.mem, run.mem with
  | .forbidden, none => pure 0
  | .forbidden, some _ => .error .memForbidden
  | .required _ _, none => .error .memRequired
  | .required min max, some n => if n < min ∨ max < n then .error (.memOutOfRange min max) else pure n

end

def checkRest (m : Manifest) (run : RunSpec) (next : ℕ) : Outcome Refusal Unit :=
  match run.pos[next]? with
  | some extra => .error (unplaceable extra.text m)
  | none => pure ()

def planAgainstWith (run : RunSpec) (prog : Prog) (m : Manifest) (holds : Holdings) (expanded : Expansion)
    (streams : Streams) : Outcome Refusal Endowment := do
  match run.misquoted with
  | some r => .error r
  | none => pure ()
  ensure (run.unexpected = none) .unexpected
  let flags ← flagBits m run.opts 0
  let (arg, next) ← argSlot m run
  let (file, next) ← fileSlot m run holds expanded next
  let (dir, next) ← dirSlot m run holds expanded flags next
  let (source, next) ← inputSlot m run holds expanded streams.source next
  checkRest m run next
  let memPages ← memSlot m run
  let diagnostics ← checkStreams m { streams with source := source }
  pure ⟨prog, arg, memPages, file, dir, flags, streams.sink, source, diagnostics, m.reports, m.interruptible,
    m.input = .required true⟩

def planAgainst (run : RunSpec) (prog : Prog) (m : Manifest) (holds : Holdings) (expanded : Expansion) :
    Outcome Refusal Endowment :=
  planAgainstWith run prog m holds expanded .default

def planStage (run : RunSpec) (holds : Holdings) (expanded : Expansion) (streams : Streams) :
    Outcome Refusal Endowment := do
  match run.misquoted with
  | some r => .error r
  | none => pure ()
  let prog ← okOr .noSuchProgram (Prog.fromName (run.prog.getD []))
  planAgainstWith run prog prog.manifest holds expanded streams

def plan (run : RunSpec) (holds : Holdings) (expanded : Expansion) : Outcome Refusal Endowment :=
  planStage run holds expanded .default

section

variable {m : Manifest} {run : RunSpec} {holds : Holdings} {expanded : Expansion} {token : Bytes} {n : ℕ}

lemma ofNav_ne_panic {α : Type} {x : Except Nav.Refused α} : ofNav x ≠ panic := by
  cases x <;> exact nofun

lemma magicComponent_ne_panic : magicComponent token ≠ panic := by
  refine bind_ne_panic ofNav_ne_panic fun parsed => ?_
  split
  · exact nofun
  · exact bind_ne_panic ensure_ne_panic fun _ => nofun

lemma designated_ne_panic {magic : Bool} : designated magic token n expanded ≠ panic := by
  rw [designated]
  split_ifs
  · exact bind_ne_panic okOr_ne_panic fun _ => bind_ne_panic ensure_ne_panic fun _ => nofun
  · exact okOr_ne_panic

lemma designate_ne_panic {cwd : Nav.Cwd} : designate token n cwd expanded ≠ panic := by
  refine bind_ne_panic magicComponent_ne_panic fun magic => ?_
  refine bind_ne_panic ofNav_ne_panic fun parsed => ?_
  refine bind_ne_panic okOr_ne_panic fun split => ?_
  refine bind_ne_panic ofNav_ne_panic fun dir => ?_
  exact bind_ne_panic designated_ne_panic fun _ => nofun

lemma designateFile_ne_panic {many : Refusal} {writable : Bool} :
    designateFile token n holds expanded many writable ≠ panic := by
  refine bind_ne_panic ensure_ne_panic fun _ => ?_
  refine bind_ne_panic designate_ne_panic fun grant => ?_
  exact bind_ne_panic okOr_ne_panic fun _ => nofun

lemma bit_lt (hflags : m.flags.length ≤ 64) {letter : UInt8} {bit : ℕ}
    (h : m.flags.findIdx? (· = letter) = some bit) : bit < 64 :=
  (List.findIdx?_eq_some_iff_getElem.mp h).1.trans_le hflags

lemma flagBits_ne_panic (hflags : m.flags.length ≤ 64) {letters : Bytes} {flags : ℕ} :
    flagBits m letters flags ≠ panic := by
  induction letters generalizing flags with
  | nil => exact nofun
  | cons letter letters ih =>
    rw [flagBits]
    cases hbit : m.flags.findIdx? (· = letter) with
    | none => exact nofun
    | some bit =>
      rw [okOr, ok_bind, if_pos (bit_lt hflags hbit)]
      exact ih

lemma subtreeRight_ne_panic (hflags : m.flags.length ≤ 64) {flags : ℕ} {letter : Option UInt8} :
    subtreeRight m flags letter ≠ panic := by
  cases letter with
  | none => exact nofun
  | some letter =>
    rw [subtreeRight]
    cases hbit : m.flags.findIdx? (· = letter) with
    | none => exact nofun
    | some bit =>
      dsimp only
      rw [if_pos (bit_lt hflags hbit)]
      exact nofun

lemma argSlot_ne_panic : argSlot m run ≠ panic := by
  rw [argSlot]
  split
  · exact bind_ne_panic okOr_ne_panic fun _ => bind_ne_panic okOr_ne_panic fun _ => nofun
  · exact nofun

lemma fileSlot_ne_panic : fileSlot m run holds expanded n ≠ panic := by
  rw [fileSlot]
  split
  · exact nofun
  · exact bind_ne_panic okOr_ne_panic fun _ => bind_ne_panic designateFile_ne_panic fun _ => nofun

lemma dirSlot_ne_panic (hflags : m.flags.length ≤ 64) {flags : ℕ} :
    dirSlot m run holds expanded flags n ≠ panic := by
  rw [dirSlot]
  split
  · exact nofun
  · refine bind_ne_panic okOr_ne_panic fun token => bind_ne_panic ensure_ne_panic fun _ => ?_
    refine bind_ne_panic designate_ne_panic fun grant => ?_
    exact bind_ne_panic (subtreeRight_ne_panic hflags) fun _ => nofun

lemma inputSlot_ne_panic {source : Source} : inputSlot m run holds expanded source n ≠ panic := by
  rw [inputSlot.eq_def]
  split
  · exact bind_ne_panic designateFile_ne_panic fun _ => nofun
  · exact nofun

lemma memSlot_ne_panic : memSlot m run ≠ panic := by
  rw [memSlot.eq_def]
  split
  · exact nofun
  · exact nofun
  · exact nofun
  · split_ifs <;> exact nofun

lemma checkRest_ne_panic : checkRest m run n ≠ panic := by
  rw [checkRest]
  split <;> exact nofun

lemma checkStreams_ne_panic {streams : Streams} : checkStreams m streams ≠ panic := by
  obtain ⟨sink, source, diagnostics⟩ := streams
  have hinput (d : Diagnostics) : (match m.input, source with
      | .required _, .none => Outcome.error Refusal.inputRequired
      | .forbidden, .none => pure d
      | .forbidden, _ => .error .inputForbidden
      | .required _, _ => pure d) ≠ panic := by
    split <;> exact nofun
  rw [checkStreams]
  dsimp only
  cases sink with
  | report =>
    dsimp only
    split <;> exact bind_ne_panic nofun hinput
  | _ =>
    refine bind_ne_panic ensure_ne_panic fun _ => ?_
    split <;> exact bind_ne_panic nofun hinput

lemma planAgainstWith_ne_panic (hflags : m.flags.length ≤ 64) {prog : Prog} {streams : Streams} :
    planAgainstWith run prog m holds expanded streams ≠ panic := by
  rw [planAgainstWith]
  split
  · exact nofun
  · refine bind_ne_panic ensure_ne_panic fun _ => ?_
    refine bind_ne_panic (flagBits_ne_panic hflags) fun flags => ?_
    refine bind_ne_panic argSlot_ne_panic fun arg => ?_
    refine bind_ne_panic fileSlot_ne_panic fun file => ?_
    refine bind_ne_panic (dirSlot_ne_panic hflags) fun dir => ?_
    refine bind_ne_panic inputSlot_ne_panic fun source => ?_
    refine bind_ne_panic checkRest_ne_panic fun _ => ?_
    refine bind_ne_panic memSlot_ne_panic fun mem => ?_
    exact bind_ne_panic checkStreams_ne_panic fun _ => nofun

lemma plan_ne_panic : plan run holds expanded ≠ panic := by
  rw [plan, planStage]
  split
  · exact nofun
  · refine bind_ne_panic okOr_ne_panic fun prog => planAgainstWith_ne_panic ?_
    cases prog <;> decide

end

end CrickerOs.GrantPlan

import CrickerOs.GrantPlan.Nav

namespace CrickerOs.GrantPlan.Nav

open Library Library.Bytes List

def RENDER_MAX : ℕ := 1 + maxDepth * (1 + maxFileName)

/-- The rows, how much of each is the name, and how many are in use. Only the rows in use hold names that fit. -/
structure Position where
  names : Fin maxDepth → Bytes
  lens : Fin maxDepth → ℕ
  depth : ℕ
  width : ∀ level, (names level).length = maxFileName
  lens_le : ∀ level, lens level ≤ maxFileName
  depth_le : depth ≤ maxDepth
  fits : ∀ level : Fin maxDepth, level < depth → ComponentFits ((names level).take (lens level))

namespace Position

variable (pos : Position)

def root : Position where
  names _ := List.replicate maxFileName 0
  lens _ := 0
  depth := 0
  width _ := List.length_replicate
  lens_le _ := Nat.zero_le _
  depth_le := Nat.zero_le _
  fits _ h := absurd h (Nat.not_lt_zero _)

def component (level : Fin maxDepth) : Bytes := (pos.names level).take (pos.lens level)

def components : List Bytes := List.ofFn fun level : Fin pos.depth => pos.component (level.castLE pos.depth_le)

lemma length_components : pos.components.length = pos.depth := length_ofFn

lemma components_fit {name : Bytes} (h : name ∈ pos.components) : ComponentFits name := by
  obtain ⟨level, rfl⟩ := mem_ofFn.mp h
  exact pos.fits _ level.isLt

def cwd : Cwd := ⟨pos.components, pos.length_components.le.trans pos.depth_le, fun _ => pos.components_fit⟩

lemma take_overwrite {row name : Bytes} (h : name.length ≤ row.length) :
    (overwrite row 0 name).take name.length = name := by
  have hwindow : window (overwrite row 0 name) 0 name.length = name := window_overwrite_self (by omega)
  rwa [window, drop_zero] at hwindow

def descend (name : Bytes) : Option Position :=
  if h : pos.depth < maxDepth ∧ ComponentFits name then
    some
      { names := Function.update pos.names ⟨pos.depth, h.1⟩ (overwrite (pos.names ⟨pos.depth, h.1⟩) 0 name)
        lens := Function.update pos.lens ⟨pos.depth, h.1⟩ name.length
        depth := pos.depth + 1
        width := fun level => by
          by_cases hlevel : level = ⟨pos.depth, h.1⟩
          · rw [hlevel, Function.update_self, length_overwrite, pos.width]
          · rw [Function.update_of_ne hlevel, pos.width]
        lens_le := fun level => by
          by_cases hlevel : level = ⟨pos.depth, h.1⟩
          · rw [hlevel, Function.update_self]
            exact h.2.1.2.1
          · rw [Function.update_of_ne hlevel]
            exact pos.lens_le level
        depth_le := h.1
        fits := fun level hlt => by
          by_cases hlevel : level = ⟨pos.depth, h.1⟩
          · rw [hlevel, Function.update_self, Function.update_self,
            take_overwrite (by rw [pos.width]; exact h.2.1.2.1)]
            exact h.2
          · rw [Function.update_of_ne hlevel, Function.update_of_ne hlevel]
            have hne : level.val ≠ pos.depth := fun heq => hlevel (Fin.ext heq)
            exact pos.fits level (by omega) }
  else none

def ascend : Option Position :=
  if pos.depth = 0 then none
  else some { pos with
    depth := pos.depth - 1
    depth_le := (Nat.sub_le _ _).trans pos.depth_le
    fits := fun level h => pos.fits level (by omega) }

def applySteps (pos : Position) : List Step → Except Refused Position
  | [] => .ok pos
  | .up :: steps =>
    match pos.ascend with
    | some next => next.applySteps steps
    | none => .error .atYourRoot
  | .down name :: steps =>
    if ComponentFits name then
      match pos.descend name with
      | some next => next.applySteps steps
      | none => .error .tooDeep
    else .error .notAName

def apply (steps : List Step) : Except Refused Unit × Position :=
  match pos.applySteps steps with
  | .ok next => (.ok (), next)
  | .error e => (.error e, pos)

def resolve (p : Path) : Except Refused Position :=
  match (if p.fromRoot then root else pos).apply p.steps with
  | (.ok (), next) => .ok next
  | (.error e, _) => .error e

def put (room : ℕ) (written : Bytes) (b : UInt8) : Bytes := if written.length < room then written ++ [b]
    else written

def render (room : ℕ) : Bytes :=
  if pos.depth = 0 then put room [] slash
  else pos.components.foldl (fun written name => name.foldl (put room) (put room written slash)) []

section

variable {pos} {next : Position} {name : Bytes}

lemma components_descend (h : pos.descend name = some next) : next.components = pos.components ++ [name] := by
  unfold descend at h
  split at h
  · rename_i hfits
    cases h
    simp only [components, component]
    rw [ofFn_succ', concat_eq_append]
    congr 1
    · refine congrArg ofFn (funext fun level => ?_)
      have hlevel : level.castSucc.castLE hfits.1 ≠ ⟨pos.depth, hfits.1⟩ :=
        fun heq => level.isLt.ne (congrArg Fin.val heq)
      rw [Function.update_of_ne hlevel, Function.update_of_ne hlevel]
      rfl
    · have hlevel : (Fin.last pos.depth).castLE hfits.1 = ⟨pos.depth, hfits.1⟩ := rfl
      rw [hlevel, Function.update_self, Function.update_self, take_overwrite]
      rw [pos.width]
      exact hfits.2.1.2.1
  · cases h

lemma components_ascend (h : pos.ascend = some next) : next.components = pos.components.dropLast := by
  unfold ascend at h
  split at h
  · cases h
  · cases h
    apply ext_getElem
    · simp [length_components]
    · intro i hi hi'
      rw [getElem_dropLast]
      simp only [components, component, List.getElem_ofFn]
      rfl

lemma components_eq_nil : pos.components = [] ↔ pos.depth = 0 := by
  rw [← length_eq_zero_iff, length_components]

lemma cwd_descend (name : Bytes) : (pos.descend name).map cwd = pos.cwd.descend name := by
  have hlength : pos.cwd.names.length = pos.depth := pos.length_components
  by_cases hfits : pos.depth < maxDepth ∧ ComponentFits name
  · obtain ⟨next, hnext⟩ : ∃ next, pos.descend name = some next := by
      rw [descend, dif_pos hfits]
      exact ⟨_, rfl⟩
    have hcomponents := components_descend hnext
    rw [hnext, Cwd.descend, dif_pos (by rwa [hlength]), Option.map_some]
    simp only [cwd, hcomponents]
  · rw [descend, dif_neg hfits, Cwd.descend, dif_neg (by rwa [hlength]), Option.map_none]

lemma cwd_ascend : pos.ascend.map cwd = pos.cwd.ascend := by
  by_cases hzero : pos.depth = 0
  · have hnil : pos.cwd.names = [] := components_eq_nil.mpr hzero
    rw [ascend, if_pos hzero, Cwd.ascend, if_pos hnil, Option.map_none]
  · have hne : pos.cwd.names ≠ [] := fun hnil => hzero (components_eq_nil.mp hnil)
    obtain ⟨next, hnext⟩ : ∃ next, pos.ascend = some next := by
      rw [ascend, if_neg hzero]
      exact ⟨_, rfl⟩
    have hcomponents := components_ascend hnext
    rw [hnext, Cwd.ascend, if_neg hne, Option.map_some]
    simp only [cwd, hcomponents]

lemma cwd_applySteps (steps : List Step) : (pos.applySteps steps).map cwd = pos.cwd.apply steps := by
  induction steps generalizing pos with
  | nil => rfl
  | cons step steps ih =>
    rw [Cwd.apply, foldlM_cons]
    cases step with
    | up =>
      rw [applySteps, Cwd.applyStep, ← cwd_ascend]
      cases pos.ascend with
      | none => rfl
      | some next => exact ih
    | down name =>
      rw [applySteps, Cwd.applyStep, ← cwd_descend]
      split
      · cases pos.descend name with
        | none => rfl
        | some next => exact ih
      · rfl

lemma lexical_of_applySteps {steps : List Step} (h : pos.applySteps steps = .ok next) :
    lexical pos.components steps = some next.components := by
  have happly : pos.cwd.apply steps = .ok next.cwd := by
    rw [← cwd_applySteps, h]
    rfl
  exact lexical_of_apply happly

lemma applySteps_take {steps : List Step} (h : pos.applySteps steps = .ok next) (k : ℕ) :
    ∃ mid, pos.applySteps (steps.take k) = .ok mid := by
  induction steps generalizing pos k with
  | nil => exact ⟨next, by rw [take_nil, h]⟩
  | cons step steps ih =>
    cases k with
    | zero => exact ⟨pos, rfl⟩
    | succ k =>
      rw [take_succ_cons]
      cases step with
      | up =>
        rw [applySteps] at h ⊢
        split at h
        · exact ih h k
        · cases h
      | down name =>
        rw [applySteps] at h ⊢
        split at h
        · rename_i hname
          rw [if_pos hname]
          split at h
          · exact ih h k
          · cases h
        · cases h

lemma applySteps_down {names : List Bytes} (hfits : ∀ name ∈ names, ComponentFits name)
    (hdepth : pos.depth + names.length ≤ maxDepth) :
    ∃ next, pos.applySteps (names.map .down) = .ok next ∧ next.components = pos.components ++ names := by
  induction names generalizing pos with
  | nil => exact ⟨pos, rfl, (append_nil _).symm⟩
  | cons name names ih =>
    rw [length_cons] at hdepth
    have hname := hfits name (mem_cons_self ..)
    obtain ⟨mid, hmid⟩ : ∃ mid, pos.descend name = some mid := by
      rw [descend, dif_pos ⟨by omega, hname⟩]
      exact ⟨_, rfl⟩
    have hcomponents := components_descend hmid
    have hlevel : mid.depth = pos.depth + 1 := by
      rw [← length_components, hcomponents, length_append, length_components, length_singleton]
    have hrest : mid.depth + names.length ≤ maxDepth := by omega
    obtain ⟨next, hnext, hend⟩ := ih (fun n hn => hfits n (mem_cons_of_mem _ hn)) hrest
    refine ⟨next, ?_, ?_⟩
    · rw [map_cons, applySteps, if_pos hname, hmid]
      exact hnext
    · rw [hend, hcomponents, append_assoc, singleton_append]

end

lemma resolve_eq_ok {next : Position} {p : Path} : pos.resolve p = .ok next ↔
    (if p.fromRoot then root else pos).applySteps p.steps = .ok next := by
  rw [resolve, apply]
  cases (if p.fromRoot then root else pos).applySteps p.steps <;> simp

lemma foldl_put {room : ℕ} {written bytes : Bytes} (h : written.length + bytes.length ≤ room) :
    bytes.foldl (put room) written = written ++ bytes := by
  induction bytes generalizing written with
  | nil => exact (append_nil _).symm
  | cons b bytes ih =>
    rw [length_cons] at h
    rw [foldl_cons, put, if_pos (by omega), ih (by simp; omega), append_assoc, singleton_append]

lemma foldl_names {room : ℕ} {names : List Bytes} {written : Bytes}
    (h : written.length + (names.flatMap (slash :: ·)).length ≤ room) :
    names.foldl (fun written name => name.foldl (put room) (put room written slash)) written =
      written ++ names.flatMap (slash :: ·) := by
  induction names generalizing written with
  | nil => exact (append_nil _).symm
  | cons name names ih =>
    rw [flatMap_cons, length_append, length_cons] at h
    have hname : name.foldl (put room) (put room written slash) = written ++ slash :: name := by
      rw [put, if_pos (by omega), foldl_put (by simp; omega), append_assoc, singleton_append]
    rw [foldl_cons, hname, ih, append_assoc, flatMap_cons]
    rw [length_append, length_cons]
    omega

lemma length_flatMap_names {names : List Bytes} (h : ∀ name ∈ names, ComponentFits name) :
    (names.flatMap (slash :: ·)).length ≤ names.length * (1 + maxFileName) := by
  induction names with
  | nil => simp
  | cons name names ih =>
    have hname := (h name (mem_cons_self ..)).1.2.1
    have hrest := ih fun n hn => h n (mem_cons_of_mem _ hn)
    rw [flatMap_cons, length_append, length_cons, length_cons, Nat.add_one_mul]
    omega

lemma render_eq : pos.render RENDER_MAX = if pos.depth = 0 then [slash]
    else pos.components.flatMap (slash :: ·) := by
  unfold render
  split
  · rfl
  · have hlength := length_flatMap_names fun _ => pos.components_fit
    have hdepth : pos.components.length * (1 + maxFileName) ≤ maxDepth * (1 + maxFileName) :=
      Nat.mul_le_mul_right _ (pos.length_components.le.trans pos.depth_le)
    rw [foldl_names, nil_append]
    rw [length_nil, RENDER_MAX]
    omega

end Position

def stepOf (part : Bytes) : Option Step :=
  if part = [] ∨ part = [dot] then none else some (if part = [dot, dot] then .up else .down part)

def stepsOf (token : Bytes) : List Step := (token.splitOn slash).filterMap stepOf

lemma pathFrom_eq_ok {parts : List Bytes} {steps steps' : List Step} (h : pathFrom parts steps = .ok steps') :
    steps' = steps ++ parts.filterMap stepOf := by
  induction parts generalizing steps with
  | nil =>
    cases h
    exact (append_nil _).symm
  | cons part parts ih =>
    rw [pathFrom] at h
    split_ifs at h with hskip hdeep hup hfits
    · rw [filterMap_cons, stepOf, if_pos hskip]
      exact ih h
    · rw [filterMap_cons, stepOf, if_neg hskip, if_pos hup, ih h, append_assoc, singleton_append]
    · rw [filterMap_cons, stepOf, if_neg hskip, if_neg hup, ih h, append_assoc, singleton_append]

lemma path_eq_ok {token : Bytes} {p : Path} (h : path token = .ok p) :
    p.steps = stepsOf token ∧ (p.fromRoot = true ↔ token.head? = some slash) := by
  unfold path at h
  split_ifs at h with hempty
  cases hfrom : pathFrom (token.splitOn slash) [] with
  | error e =>
    rw [hfrom] at h
    cases h
  | ok steps =>
    rw [hfrom] at h
    simp only [bind, Except.bind] at h
    split_ifs at h
    cases h
    refine ⟨?_, by simp⟩
    rw [pathFrom_eq_ok hfrom, nil_append, stepsOf]

lemma pathFrom_names {names : List Bytes} {steps : List Step} (hfits : ∀ name ∈ names, ComponentFits name)
    (hdepth : steps.length + names.length ≤ maxDepth) : pathFrom names steps = .ok (steps ++ names.map .down) := by
  induction names generalizing steps with
  | nil => exact congrArg Except.ok (append_nil _).symm
  | cons name names ih =>
    rw [length_cons] at hdepth
    have hname := hfits name (mem_cons_self ..)
    obtain ⟨⟨hne, -, hdot, hdots, -, -⟩, -⟩ := id hname
    rw [pathFrom, if_neg (not_or.mpr ⟨hne, hdot⟩), if_neg (by omega), if_neg hdots, if_pos hname,
      ih (fun n hn => hfits n (mem_cons_of_mem _ hn)) (by simp; omega), append_assoc, map_cons,
      singleton_append]

lemma intercalate_slash (part : Bytes) (parts : List Bytes) :
    [slash].intercalate (part :: parts) = part ++ parts.flatMap (slash :: ·) := by
  induction parts generalizing part with
  | nil => simp [intercalate]
  | cons next parts ih =>
    have hnext : [slash].intercalate (part :: next :: parts) = part ++ slash ::
      [slash].intercalate (next :: parts) := by
      simp [intercalate]
    rw [hnext, ih, flatMap_cons, cons_append]

lemma path_render (pos : Position) : path (pos.render RENDER_MAX) = .ok ⟨pos.components.map .down, true⟩ := by
  have hslash : ∀ name ∈ pos.components, slash ∉ name := fun name hname => (pos.components_fit hname).1.2.2.2.2.1
  have hfrom : pathFrom ((pos.render RENDER_MAX).splitOn slash) [] = .ok (pos.components.map .down) := by
    rw [pos.render_eq]
    split
    · rename_i hzero
      rw [Position.components_eq_nil.mpr hzero]
      rfl
    · rename_i hdeep
      have htext : pos.components.flatMap (slash :: ·) = [slash].intercalate ([] :: pos.components) := by
        rw [intercalate_slash, nil_append]
      rw [htext, splitOn_intercalate slash (by simpa using hslash) (cons_ne_nil _ _), pathFrom,
        if_pos (Or.inl rfl), pathFrom_names (fun _ => pos.components_fit) (by
          rw [length_nil, pos.length_components]
          have := pos.depth_le
          omega), nil_append]
  have hhead : (pos.render RENDER_MAX).head? = some slash := by
    rw [pos.render_eq]
    split
    · rfl
    · rename_i hdeep
      obtain ⟨name, names, hcons⟩ := exists_cons_of_ne_nil fun hnil => hdeep (Position.components_eq_nil.mp hnil)
      rw [hcons]
      rfl
  have hempty : pos.render RENDER_MAX ≠ [] := by
    intro hnil
    rw [hnil] at hhead
    cases hhead
  rw [path, if_neg hempty, hfrom, hhead]
  simp [bind, Except.bind]

/-- What is printed can be typed back from anywhere, and what resolves stays at or below the root. -/
theorem printed_position_resolves_back :
    (∀ pos other : Position, ∃ p next, path (pos.render RENDER_MAX) = .ok p ∧ other.resolve p = .ok next ∧
      next.components = pos.components) ∧
    (∀ (pos next : Position) (token : Bytes) (p : Path), path token = .ok p → pos.resolve p = .ok next →
      let start := if token.head? = some slash then [] else pos.components
      (∀ k ≤ (stepsOf token).length, ∃ names, lexical start ((stepsOf token).take k) = some names ∧
        names.length ≤ maxDepth) ∧
        lexical start (stepsOf token) = some next.components) ∧
    ∀ (pos : Position) (steps : List Step) (e : Refused), (pos.apply steps).1 = .error e →
    (pos.apply steps).2 = pos := by
  refine ⟨fun pos other => ?_, fun pos next token p hpath hresolve => ?_, fun pos steps e h => ?_⟩
  · have hdepth : Position.root.depth + pos.components.length ≤ maxDepth := by
      rw [pos.length_components]
      exact (Nat.zero_add _).le.trans pos.depth_le
    obtain ⟨next, hnext, hcomponents⟩ := Position.applySteps_down (fun _ => pos.components_fit) hdepth
    refine ⟨_, next, path_render pos, ?_, hcomponents⟩
    rw [Position.resolve_eq_ok, if_pos rfl]
    exact hnext
  · obtain ⟨hsteps, hroot⟩ := path_eq_ok hpath
    rw [Position.resolve_eq_ok, hsteps] at hresolve
    have hstart : (if p.fromRoot then Position.root else pos).components =
        if token.head? = some slash then [] else pos.components := by
      simp only [hroot]
      split
      · rfl
      · rfl
    intro start
    refine ⟨fun k _ => ?_, ?_⟩
    · obtain ⟨mid, hmid⟩ := Position.applySteps_take hresolve k
      refine ⟨mid.components, ?_, mid.length_components.le.trans mid.depth_le⟩
      rw [← Position.lexical_of_applySteps hmid, hstart]
    · rw [← Position.lexical_of_applySteps hresolve, hstart]
  · rw [Position.apply] at h ⊢
    split at h
    · cases h
    · rfl

end CrickerOs.GrantPlan.Nav

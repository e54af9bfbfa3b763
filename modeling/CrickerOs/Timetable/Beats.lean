import CrickerOs.Timetable.Registry

namespace CrickerOs.Timetable

open Library Library.Outcome GrantPlan List Nat

def Row.beats (a : ℕ) (r : Row) : Set ℕ :=
  match r.endowment, r.entry.schedule with
  | none, _ => ∅
  | some _, .atBoot => {a}
  | some _, .every p => {b | ∃ k, 1 ≤ k ∧ a + k * p = b}

structure Row.Waits (a : ℕ) (last : Option ℕ) (r : Row) : Prop where
  next_le : r.next ≤ never
  due_iff : ∀ y < never, r.next ≤ y ↔ ∃ b ∈ r.beats a, (∀ x ∈ last, x < b) ∧ b ≤ y
  period_pos : ∀ p, r.entry.schedule = .every p → 0 < p

section

variable {a now p prev y : ℕ} {last : Option ℕ} {r : Row}

lemma nextAfter_le (hp : 0 < p) (hprev : prev ≤ now) (hy : y < never) :
    nextAfter prev p now ≤ y ↔ ∃ j, 1 ≤ j ∧ now < prev + j * p ∧ prev + j * p ≤ y := by
  rw [nextAfter, if_neg hp.ne']
  dsimp only
  split_ifs with hfirst
  · rw [saturatingAdd_le hy]
    have hlt : now < prev + p := (lt_min_iff.mp hfirst).1
    refine ⟨fun h => ⟨1, le_rfl, by omega, by omega⟩, ?_⟩
    rintro ⟨j, hj, -, hle⟩
    have := Nat.le_mul_of_pos_left p hj
    omega
  · rw [saturatingAdd_le hy]
    -- the reading is `q` whole periods and a rest after the beat
    obtain ⟨q, rest, hq, hrest, hmod⟩ : ∃ q rest, now = prev + q * p + rest ∧ rest < p ∧
      (now - prev) % p = rest := by
      refine ⟨(now - prev) / p, (now - prev) % p, ?_, mod_lt _ hp, rfl⟩
      have := div_add_mod' (now - prev) p
      omega
    have hback : now - (now - prev) % p + p = prev + (q + 1) * p := by
      rw [hmod, add_mul]
      omega
    rw [hback]
    refine ⟨fun h => ⟨q + 1, by omega, by rw [Nat.add_mul]; omega, h⟩, ?_⟩
    rintro ⟨j, -, hlt, hle⟩
    have hqj : q < j := by
      by_contra hjq
      have := Nat.mul_le_mul_right p (Nat.le_of_not_lt hjq)
      omega
    have : (q + 1) * p ≤ j * p := mul_le_mul_right p hqj
    omega

lemma saturatingAdd_le_never {b : ℕ} : saturatingAdd a b ≤ never := min_le_right _ _

lemma nextAfter_le_never : nextAfter prev p now ≤ never := by
  rw [nextAfter]
  dsimp only
  split_ifs
  · exact le_rfl
  · exact saturatingAdd_le_never
  · exact saturatingAdd_le_never

namespace Row

lemma beats_arm : (r.arm now).beats a = r.beats a := by
  rw [arm]
  split <;> rfl

lemma beats_of_refused (h : r.endowment = none) : r.beats a = ∅ := by
  rw [beats, h]

lemma mem_beats_atBoot {e : Endowment} (he : r.endowment = some e) (hs : r.entry.schedule = .atBoot) {b : ℕ} :
    b ∈ r.beats a ↔ b = a := by
  rw [beats, he, hs]
  exact Iff.rfl

lemma mem_beats_every {e : Endowment} (he : r.endowment = some e) (hs : r.entry.schedule = .every p) {b : ℕ} :
    b ∈ r.beats a ↔ ∃ k, 1 ≤ k ∧ a + k * p = b := by
  rw [beats, he, hs]
  exact Iff.rfl

lemma waits_arm (ha : a ≤ never) (hnext : r.next = never) (hp : ∀ p, r.entry.schedule = .every p → 0 < p) :
    (r.arm a).Waits a none := by
  cases he : r.endowment with
  | none =>
    have harm : r.arm a = r := by rw [arm, he]
    rw [harm]
    refine ⟨hnext.le, fun y hy => iff_of_false (by omega) ?_, hp⟩
    rw [beats_of_refused he]
    exact fun ⟨b, hb, _⟩ => hb
  | some e =>
    cases hs : r.entry.schedule with
    | atBoot =>
      have harm : r.arm a = { r with next := a } := by rw [arm, he, hs]
      rw [harm]
      refine ⟨ha, fun y _ => ⟨fun h => ⟨a, (mem_beats_atBoot he hs).mpr rfl, nofun, h⟩, ?_⟩, hp⟩
      rintro ⟨b, hb, -, hle⟩
      cases (mem_beats_atBoot he hs).mp hb
      exact hle
    | every p =>
      have harm : r.arm a = { r with next := saturatingAdd a p } := by rw [arm, he, hs]
      rw [harm]
      refine ⟨saturatingAdd_le_never, fun y hy => (saturatingAdd_le hy).trans ⟨fun h => ?_, ?_⟩, hp⟩
      · exact ⟨a + p, (mem_beats_every he hs).mpr ⟨1, le_rfl, by rw [one_mul]⟩, nofun, h⟩
      · rintro ⟨b, hb, -, hle⟩
        obtain ⟨k, hk, rfl⟩ := (mem_beats_every he hs).mp hb
        have := Nat.le_mul_of_pos_left p hk
        omega

lemma Waits.next_mem (h : r.Waits a last) (hnext : r.next < never) : r.next ∈ r.beats a := by
  obtain ⟨b, hb, hlast, hle⟩ := (h.due_iff r.next hnext).mp le_rfl
  have hge : r.next ≤ b := (h.due_iff b (hle.trans_lt hnext)).mpr ⟨b, hb, hlast, le_rfl⟩
  exact le_antisymm hge hle ▸ hb

lemma Waits.advance (h : r.Waits a last) (hdue : r.next ≤ now) (hnow : now < never) :
    (r.advance now).Waits a (some now) := by
  have hmem := h.next_mem (hdue.trans_lt hnow)
  cases he : r.endowment with
  | none =>
    rw [beats_of_refused he] at hmem
    exact absurd hmem (Set.notMem_empty _)
  | some e =>
    cases hs : r.entry.schedule with
    | atBoot =>
      have hadvance : r.advance now = { r with next := never } := by rw [Row.advance, hs]
      have hnext := (mem_beats_atBoot he hs).mp hmem
      rw [hadvance]
      refine ⟨le_rfl, fun y hy => iff_of_false (by exact not_le.mpr hy) ?_, h.period_pos⟩
      rintro ⟨b, hb, hlt, -⟩
      have hba := (mem_beats_atBoot he hs).mp hb
      have := hlt now rfl
      omega
    | every p =>
      have hadvance : r.advance now = { r with next := nextAfter r.next p now } := by rw [Row.advance, hs]
      obtain ⟨k, hk, hnext⟩ := (mem_beats_every he hs).mp hmem
      rw [hadvance]
      refine ⟨nextAfter_le_never, fun y hy => ?_, h.period_pos⟩
      refine (nextAfter_le (h.period_pos p hs) hdue hy).trans ⟨?_, ?_⟩
      · rintro ⟨j, hj, hlt, hle⟩
        refine ⟨_, (mem_beats_every he hs).mpr ⟨k + j, by omega, rfl⟩, fun x hx => ?_, ?_⟩
        · cases hx
          rw [add_mul]
          omega
        · rw [add_mul]
          omega
      · rintro ⟨b, hb, hlt, hle⟩
        obtain ⟨l, -, rfl⟩ := (mem_beats_every he hs).mp hb
        have hlt := hlt now rfl
        -- a beat after the reading is a whole number of periods after the one that was due
        have hkl : k < l := by
          by_contra hlk
          have := Nat.mul_le_mul_right p (Nat.le_of_not_lt hlk)
          omega
        obtain ⟨j, rfl⟩ := Nat.exists_eq_add_of_lt hkl
        have hsplit : (k + j + 1) * p = k * p + (j + 1) * p := by ring
        exact ⟨j + 1, by omega, by omega, by omega⟩

lemma Waits.settle (h : r.Waits a last) (hlast : ∀ x ∈ last, x ≤ now) (hnow : now < never) :
    (r.settle now).Waits a (some now) := by
  rw [Row.settle]
  split_ifs with hdue
  · exact h.advance hdue hnow
  · refine ⟨h.next_le, fun y hy => (h.due_iff y hy).trans ⟨?_, ?_⟩, h.period_pos⟩
    · rintro ⟨b, hb, hlt, hle⟩
      refine ⟨b, hb, fun x hx => ?_, hle⟩
      cases hx
      by_contra hnot
      exact hdue ((h.due_iff now hnow).mpr ⟨b, hb, hlt, Nat.le_of_not_lt hnot⟩)
    · rintro ⟨b, hb, hlt, hle⟩
      exact ⟨b, hb, fun x hx => (hlast x hx).trans_lt (hlt now rfl), hle⟩

end Row

end

namespace Registry

def Keeps (a : ℕ) (last : Option ℕ) (reg reg' : Registry) : Prop :=
  List.Forall₂ (fun r r' => r'.Waits a last ∧ r'.beats a = r.beats a) reg reg'

def FiresAt (reg : Registry) (y : ℕ) : Prop := ∃ i fired reg',
    drain y (reg.length + 1) reg = some (i :: fired, reg')

variable {a now y d : ℕ} {last : Option ℕ} {reg reg' : Registry} {readings : List ℕ}

lemma dueCount_le : dueCount now reg < reg.length + 1 := lt_succ_of_le countP_le_length

lemma Keeps.settle (h : Keeps a last reg reg') (hlast : ∀ x ∈ last, x ≤ now) (hnow : now < never) :
    Keeps a (some now) reg (reg'.map (Row.settle now)) := by
  refine forall₂_map_right_iff.mpr (h.imp fun r r' hr => ⟨hr.1.settle hlast hnow, ?_⟩)
  rw [← hr.2, Row.settle]
  split_ifs <;> rfl

lemma Keeps.drains (h : Keeps a last reg reg') (hsorted : readings.Pairwise (· ≤ ·))
    (hlast : ∀ x ∈ last, ∀ y ∈ readings, x ≤ y) (hread : ∀ y ∈ readings, y < never) :
    ∃ reg'', drains readings reg' = some reg'' ∧ Keeps a (readings.getLast?.or last) reg reg'' := by
  induction readings generalizing last reg' with
  | nil => exact ⟨reg', rfl, h⟩
  | cons now readings ih =>
    obtain ⟨hnow, hread⟩ := forall_mem_cons.mp hread
    obtain ⟨hfirst, hsorted⟩ := pairwise_cons.mp hsorted
    obtain ⟨fired, hdrain, -, -⟩ := drain_eq hnow (@dueCount_le now reg')
    have hsettle := h.settle (fun x hx => hlast x hx now mem_cons_self) hnow
    obtain ⟨reg'', hdrains, hkeeps⟩ :=
      ih hsettle hsorted (fun x hx y hy => Option.some.inj hx ▸ hfirst y hy) hread
    refine ⟨reg'', by rw [Registry.drains, hdrain]; exact hdrains, ?_⟩
    rw [getLast?_cons]
    cases hlast : readings.getLast? with
    | none => rwa [hlast] at hkeeps
    | some x => rwa [hlast] at hkeeps

lemma Keeps.next_le (h : Keeps a last reg reg') : ∀ r ∈ reg', r.next ≤ never := by
  rw [Keeps] at h
  induction h with
  | nil => exact forall_mem_nil _
  | cons hr _ ih => exact forall_mem_cons.mpr ⟨hr.1.next_le, ih⟩

lemma forall_lt_iff_getLast? (h : readings.Pairwise (· ≤ ·)) :
    (∀ x ∈ readings, x < a) ↔ ∀ x ∈ readings.getLast?, x < a := by
  refine ⟨fun hlt x hx => hlt x (mem_of_getLast? hx), fun hlt x hx => ?_⟩
  rcases eq_nil_or_concat' readings with rfl | ⟨before, y, rfl⟩
  · exact nomatch hx
  · have hy : y < a := hlt y getLast?_concat
    rcases mem_append.mp hx with hx | hx
    · exact ((pairwise_append.mp h).2.2 x hx y (mem_singleton_self y)).trans_lt hy
    · exact mem_singleton.mp hx ▸ hy

lemma firesAt_iff (hy : y < never) : FiresAt reg y ↔ ∃ r ∈ reg, r.next ≤ y := by
  obtain ⟨fired, hdrain, -, hfired⟩ := drain_eq hy (@dueCount_le y reg)
  constructor
  · rintro ⟨i, fired', reg', h⟩
    cases Option.mem_unique hdrain h
    obtain ⟨r, hr, hle⟩ := (hfired i).mp mem_cons_self
    exact ⟨r, mem_of_getElem? hr, hle⟩
  · rintro ⟨r, hr, hle⟩
    obtain ⟨i, hi⟩ := mem_iff_getElem?.mp hr
    have hmem := (hfired i).mpr ⟨r, hi, hle⟩
    cases fired with
    | nil => exact nomatch hmem
    | cons j fired => exact ⟨j, fired, _, hdrain⟩

lemma mem_nextFire : d ∈ reg.filterMap Row.nextFire ↔ ∃ r ∈ reg, r.next = d ∧ d ≠ never := by
  rw [mem_filterMap]
  refine exists_congr fun r => and_congr_right fun _ => ?_
  rw [Row.nextFire]
  split_ifs with hne
  · rw [Option.some_inj]
    exact ⟨fun h => ⟨h, h ▸ hne⟩, And.left⟩
  · exact iff_of_false nofun fun ⟨h, hne'⟩ => hne (h ▸ hne')

lemma nextDeadline_eq_some (hle : ∀ r ∈ reg, r.next ≤ never) :
    nextDeadline reg = some d ↔ IsLeast {y | y < never ∧ FiresAt reg y} d := by
  have hmem {r : Row} (hr : r ∈ reg) (hne : r.next ≠ never) : r.next ∈ {y | y < never ∧ FiresAt reg y} :=
    have hlt := lt_of_le_of_ne (hle r hr) hne
    ⟨hlt, (firesAt_iff hlt).mpr ⟨r, hr, le_rfl⟩⟩
  rw [nextDeadline, min?_eq_some_iff, mem_nextFire]
  constructor
  · rintro ⟨⟨r, hr, rfl, hne⟩, hleast⟩
    refine ⟨hmem hr hne, fun y ⟨hy, hfires⟩ => ?_⟩
    obtain ⟨r', hr', hle'⟩ := (firesAt_iff hy).mp hfires
    exact (hleast _ (mem_nextFire.mpr ⟨r', hr', rfl, (hle'.trans_lt hy).ne⟩)).trans hle'
  · rintro ⟨⟨hd, hfires⟩, hleast⟩
    obtain ⟨r, hr, hle'⟩ := (firesAt_iff hd).mp hfires
    have hne := (hle'.trans_lt hd).ne
    refine ⟨⟨r, hr, le_antisymm hle' (hleast (hmem hr hne)), hd.ne⟩, fun b hb => ?_⟩
    obtain ⟨r', hr', rfl, hne'⟩ := mem_nextFire.mp hb
    exact hleast (hmem hr' hne')

lemma exists_admission (command : Bytes) (held : Held) : ∃ admission, admitEntry command held = ok admission := by
  rw [admitEntry]
  split
  · exact ⟨_, rfl⟩
  · split <;> exact ⟨_, rfl⟩
  · rename_i hpanic
    exact absurd hpanic plan_ne_panic

lemma registerFrom_eq (held : Held) (entries : List Entry) :
    ∃ reg, registerFrom held entries = ok reg ∧ reg.map Row.entry = entries ∧
      ∀ r ∈ reg, admitEntry r.entry.command held = ok r.admission ∧ r.next = never := by
  induction entries with
  | nil => exact ⟨[], rfl, rfl, forall_mem_nil _⟩
  | cons entry entries ih =>
    obtain ⟨reg, hreg, hentries, hrows⟩ := ih
    obtain ⟨admission, hadmitted⟩ := exists_admission entry.command held
    refine ⟨⟨entry, admission, never⟩ :: reg, ?_, ?_, forall_mem_cons.mpr ⟨⟨hadmitted, rfl⟩, hrows⟩⟩
    · rw [registerFrom, hadmitted, ok_bind, hreg]
      rfl
    · rw [map_cons, hentries]

lemma keeps_arm (ha : a ≤ never) (hnext : ∀ r ∈ reg, r.next = never)
    (hp : ∀ r ∈ reg, ∀ p, r.entry.schedule = .every p → 0 < p) : Keeps a none reg (arm a reg) := by
  refine forall₂_map_right_iff.mpr (forall₂_same.mpr fun r hr => ?_)
  exact ⟨Row.waits_arm ha (hnext r hr) (hp r hr), Row.beats_arm⟩

end Registry

open Registry

theorem fires_once_per_beat (doc : Document) (held : Held) (a : ℕ) (readings : List ℕ) (now : ℕ) (ha : a < 2 ^ 64)
    (hsorted : (readings ++ [now]).Pairwise (· ≤ ·)) (hnow : now < never) :
    ∃ reg reg' fired reg'', register doc held = ok reg ∧ reg.map Row.entry = doc.entries ∧
      (∀ r ∈ reg, admitEntry r.entry.command held = ok r.admission) ∧
      drains readings (arm a reg) = some reg' ∧ drain now (reg'.length + 1) reg' = some (fired, reg'') ∧
      fired.Nodup ∧ (∀ i ∈ fired, i < reg.length) ∧
      (∀ i r, reg[i]? = some r →
        ((∀ e, r.admission ≠ .fires e) → i ∉ fired) ∧
        (∀ e, r.admission = .fires e → r.entry.schedule = .atBoot →
        (i ∈ fired ↔ a ≤ now ∧ ∀ x ∈ readings, x < a)) ∧
          (∀ e p, r.admission = .fires e → r.entry.schedule = .every p →
            (i ∈ fired ↔ ∃ k, 1 ≤ k ∧ (∀ x ∈ readings.getLast?, x < a + k * p) ∧ a + k * p ≤ now))) ∧
      ∀ d, nextDeadline reg' = some d ↔ IsLeast {y | y < never ∧ FiresAt reg' y} d := by
  obtain ⟨hreadings, -, hle⟩ := pairwise_append.mp hsorted
  have hle : ∀ x ∈ readings, x ≤ now := fun x hx => hle x hx now (mem_singleton_self now)
  obtain ⟨reg, hreg, hentries, hrows⟩ := registerFrom_eq held doc.entries
  have hp : ∀ r ∈ reg, ∀ p, r.entry.schedule = .every p → 0 < p := fun r hr p hs =>
    doc.period_pos r.entry (hentries ▸ mem_map_of_mem hr) p hs
  have harm := keeps_arm (Nat.le_sub_one_of_lt ha) (fun r hr => (hrows r hr).2) hp
  obtain ⟨reg', hdrains, hkeeps⟩ := harm.drains hreadings nofun fun x hx => (hle x hx).trans_lt hnow
  rw [Option.or_none] at hkeeps
  obtain ⟨fired, hdrain, hnodup, hfired⟩ := drain_eq hnow (@dueCount_le now reg')
  have hlength := hkeeps.length_eq
  -- a row fires just if it has a beat since the last reading
  have hbeat {i : ℕ} {r : Row} (hr : reg[i]? = some r) :
      i ∈ fired ↔ ∃ b ∈ r.beats a, (∀ x ∈ readings.getLast?, x < b) ∧ b ≤ now := by
    obtain ⟨hi, rfl⟩ := List.getElem?_eq_some_iff.mp hr
    have hi' : i < reg'.length := hlength ▸ hi
    obtain ⟨hwaits, hbeats⟩ : reg'[i].Waits a readings.getLast? ∧ reg'[i].beats a = reg[i].beats a :=
      hkeeps.get hi hi'
    rw [hfired, ← hbeats, ← hwaits.due_iff now hnow]
    refine ⟨fun ⟨r', hr', hdue⟩ => ?_, fun hdue => ⟨reg'[i], getElem?_eq_getElem hi', hdue⟩⟩
    cases Option.some.inj ((getElem?_eq_getElem hi').symm.trans hr')
    exact hdue
  refine ⟨reg, reg', fired, _, hreg, hentries, fun r hr => (hrows r hr).1, hdrains, hdrain, hnodup, ?_, ?_,
    fun d => ?_⟩
  · intro i hi
    obtain ⟨r', hr', -⟩ := (hfired i).mp hi
    exact hlength ▸ (List.getElem?_eq_some_iff.mp hr').1
  · refine fun i r hr => ⟨fun hrefused hi => ?_, fun e he hs => ?_, fun e p he hs => ?_⟩
    · have hnone : r.endowment = none := by
        rw [Row.endowment]
        split
        · rename_i e he
          exact absurd he (hrefused e)
        · rfl
      obtain ⟨b, hb, -⟩ := (hbeat hr).mp hi
      rw [Row.beats_of_refused hnone] at hb
      exact hb
    · have hsome : r.endowment = some e := by rw [Row.endowment, he]
      rw [hbeat hr, forall_lt_iff_getLast? hreadings]
      constructor
      · rintro ⟨b, hb, hlt, hle⟩
        cases (Row.mem_beats_atBoot hsome hs).mp hb
        exact ⟨hle, hlt⟩
      · exact fun ⟨hle, hlt⟩ => ⟨a, (Row.mem_beats_atBoot hsome hs).mpr rfl, hlt, hle⟩
    · have hsome : r.endowment = some e := by rw [Row.endowment, he]
      rw [hbeat hr]
      constructor
      · rintro ⟨b, hb, hlt, hle⟩
        obtain ⟨k, hk, rfl⟩ := (Row.mem_beats_every hsome hs).mp hb
        exact ⟨k, hk, hlt, hle⟩
      · rintro ⟨k, hk, hlt, hle⟩
        exact ⟨_, (Row.mem_beats_every hsome hs).mpr ⟨k, hk, rfl⟩, hlt, hle⟩
  · exact nextDeadline_eq_some hkeeps.next_le

def sampleDocument : Document where
  entries := [⟨1, .every 5, ascii "worker 7"⟩]
  length_le := by decide
  period_pos := by
    intro entry hentry p hs
    cases List.mem_singleton.mp hentry
    cases hs
    decide
  period_lt := by
    intro entry hentry p hs
    cases List.mem_singleton.mp hentry
    cases hs
    decide

theorem fires_once_per_beat_sample : ∃ reg reg' fired reg'',
    register sampleDocument ⟨0, false, false, false, false⟩ = ok reg ∧ drains [3] (arm 0 reg) = some reg' ∧
      drain 12 (reg'.length + 1) reg' = some (fired, reg'') ∧ fired.Nodup ∧ 0 ∈ fired := by
  obtain ⟨reg, reg', fired, reg'', hreg, hentries, hadmitted, hdrains, hdrain, hnodup, -, hrows, -⟩ :=
    fires_once_per_beat sampleDocument ⟨0, false, false, false, false⟩ 0 [3] 12 (by decide) (by decide) (by decide)
  refine ⟨reg, reg', fired, reg'', hreg, hdrains, hdrain, hnodup, ?_⟩
  obtain ⟨r, rfl, hr⟩ := map_eq_singleton_iff.mp hentries
  have hfires : ∃ e, admitEntry (ascii "worker 7") ⟨0, false, false, false, false⟩ = ok (.fires e) := ⟨_, rfl⟩
  obtain ⟨e, he⟩ := hfires
  have hr' := hadmitted r (mem_singleton_self r)
  rw [hr] at hr'
  have hfire := Outcome.ok.inj (hr'.symm.trans he)
  obtain ⟨-, -, hevery⟩ := hrows 0 r rfl
  refine (hevery e 5 hfire (by rw [hr])).mpr ⟨1, le_rfl, fun x hx => ?_, by decide⟩
  cases hx
  decide

end CrickerOs.Timetable

import CrickerOs.DmaValidator.Validate

namespace CrickerOs.DmaValidator

open Library

namespace Rings

variable (q : Rings) (m₀ m : Memory)

def desc (i : ℕ) : Desc :=
  ⟨m.load 8 (q.shadowDesc + i * 16), m.load 8 (q.shadowDesc + i * 16 + 8)⟩

def head (k : ℕ) : ℕ :=
  m.load 2 (q.shadowAvail + 4 + k * 2)

def published : ℕ :=
  m.load 2 (q.shadowAvail + 2)

def Apart : Prop :=
  q.shadowDesc + q.qsize * 16 ≤ q.shadowAvail ∨ q.shadowAvail + 4 + q.qsize * 2 ≤ q.shadowDesc

def Within : Access → Prop
  | .read bytes addr =>
    Access.Inside q.driverDesc (q.driverDesc + q.qsize * 16) (.read bytes addr) ∨
      Access.Inside q.driverAvail (q.driverAvail + 4 + q.qsize * 2) (.read bytes addr)
  | .write bytes addr value =>
    Access.Inside q.shadowDesc (q.shadowDesc + q.qsize * 16) (.write bytes addr value) ∨
      Access.Inside q.shadowAvail (q.shadowAvail + 4 + q.qsize * 2) (.write bytes addr value)

def Confines (d : Desc) : Prop :=
  d.isIndirect = false ∧ q.dmaBase ≤ d.addr ∧ d.addr + d.bufLen ≤ q.dmaBase + q.dmaSize ∧
    (d.hasNext → d.next < q.qsize)

def TableConfined : Prop :=
  ∀ i < q.qsize, q.desc m i = ⟨0, 0⟩ ∨ q.Confines (q.desc m i)

/-- Each head of the shadow ring is below the queue size, unless it is the one `m₀` held and was never stored. -/
def HeadsBelow : Prop :=
  ∀ k < q.qsize, q.head m k = q.head m₀ k ∨ q.head m k < q.qsize

def Untorn (m : Memory) : Access → Prop
  | .read _ _ => True
  | .write bytes addr value =>
    bytes = 8 → ∀ i < q.qsize, addr = q.shadowDesc + i * 16 →
      inRegion q.dmaBase q.dmaSize value (q.desc m i).bufLen

instance (d : Desc) : Decidable (q.Confines d) :=
  inferInstanceAs (Decidable (_ ∧ _))

instance : Decidable (q.TableConfined m) :=
  inferInstanceAs (Decidable (∀ i < q.qsize, _))

instance (e : Access) : Decidable (q.Untorn m e) := by
  cases e
  · exact isTrue trivial
  · exact inferInstanceAs (Decidable (_ → ∀ i < q.qsize, _))

def contract : Contract (ℕ × ℕ) Memory Access ℕ where
  apply := Memory.perform
  accepts := always
  ok := q.Untorn
  safe := fun _ _ _ => True
  inv := fun m => q.TableConfined m ∧ q.HeadsBelow m₀ m

variable {q m₀ m} {i k v : ℕ} {d : Desc} {batch : ℕ × ℕ}

lemma desc_store_addr (j : ℕ) :
    q.desc (m.store 8 (q.shadowDesc + i * 16) v) j = if j = i then ⟨v % 256 ^ 8, (q.desc m i).word⟩
    else q.desc m j := by
  split
  · subst j
    simp only [desc, Memory.load_store_same]
    rw [Memory.load_store_of_disjoint (.inr (by omega))]
  · simp only [desc]
    rw [Memory.load_store_of_disjoint (by omega), Memory.load_store_of_disjoint (by omega)]

lemma desc_store_word (j : ℕ) :
    q.desc (m.store 8 (q.shadowDesc + i * 16 + 8) v) j =
      if j = i then ⟨(q.desc m i).addr, v % 256 ^ 8⟩ else q.desc m j := by
  split
  · subst j
    simp only [desc, Memory.load_store_same]
    rw [Memory.load_store_of_disjoint (.inl (by omega))]
  · simp only [desc]
    rw [Memory.load_store_of_disjoint (by omega), Memory.load_store_of_disjoint (by omega)]

lemma head_store (j : ℕ) :
    q.head (m.store 2 (q.shadowAvail + 4 + k * 2) v) j = if j = k then v % 256 ^ 2 else q.head m j := by
  split
  · subst j
    simp only [head, Memory.load_store_same]
  · simp only [head]
    rw [Memory.load_store_of_disjoint (by omega)]

lemma inside_addr (hi : i < q.qsize) :
    Access.Inside q.shadowDesc (q.shadowDesc + q.qsize * 16) (.write 8 (q.shadowDesc + i * 16) v) :=
  ⟨by omega, by omega⟩

lemma inside_word (hi : i < q.qsize) :
    Access.Inside q.shadowDesc (q.shadowDesc + q.qsize * 16) (.write 8 (q.shadowDesc + i * 16 + 8) v) :=
  ⟨by omega, by omega⟩

variable {addr bytes fuel index toIdx left idx : ℕ}

lemma ring_store_table (hq : q.Apart)
    (hin : Access.Inside q.shadowDesc (q.shadowDesc + q.qsize * 16) (.write bytes addr v)) :
    q.published (m.store bytes addr v) = q.published m ∧ ∀ k < q.qsize,
    q.head (m.store bytes addr v) k = q.head m k := by
  obtain ⟨hl, hr⟩ := hin
  rcases hq with hq | hq
  · exact ⟨Memory.load_store_of_disjoint (.inr (by omega)),
      fun k _ => Memory.load_store_of_disjoint (.inr (by omega))⟩
  · exact ⟨Memory.load_store_of_disjoint (.inl (by omega)),
      fun k _ => Memory.load_store_of_disjoint (.inl (by omega))⟩

lemma table_store_ring (hq : q.Apart)
    (hin : Access.Inside q.shadowAvail (q.shadowAvail + 4 + q.qsize * 2) (.write bytes addr v))
    (hi : i < q.qsize) : q.desc (m.store bytes addr v) i = q.desc m i := by
  obtain ⟨hl, hr⟩ := hin
  simp only [desc]
  rcases hq with hq | hq
  · rw [Memory.load_store_of_disjoint (.inl (by omega)), Memory.load_store_of_disjoint (.inl (by omega))]
  · rw [Memory.load_store_of_disjoint (.inr (by omega)), Memory.load_store_of_disjoint (.inr (by omega))]

lemma inRegion_iff {base size len : ℕ} : inRegion base size addr len ↔
    addr + len < 2 ^ 64 ∧ base + size < 2 ^ 64 ∧ base ≤ addr ∧ addr + len ≤ base + size := by
  rw [inRegion]
  split <;> simp <;> omega

lemma confines_of_check (h : checkDescriptor q.dmaBase q.dmaSize q.qsize d) : q.Confines d := by
  unfold checkDescriptor at h
  split_ifs at h with hdirect hregion hlink
  obtain ⟨-, -, hl, hr⟩ := inRegion_iff.mp (by simpa using hregion)
  exact ⟨by simpa using hdirect, hl, hr, by simpa using hlink⟩

lemma Confines.readdress (h : d = ⟨0, 0⟩ ∨ q.Confines d) (hlen : inRegion q.dmaBase q.dmaSize v d.bufLen) :
    q.Confines ⟨v, d.word⟩ := by
  obtain ⟨-, -, hl, hr⟩ := inRegion_iff.mp hlen
  rcases h with rfl | h
  · exact ⟨by simp [Desc.isIndirect, Desc.flags], hl, hr, by simp [Desc.hasNext, Desc.flags]⟩
  · exact ⟨h.1, hl, hr, h.2.2.2⟩

lemma inv_store_addr (hq : q.Apart) (h : (q.contract m₀).inv m) (hi : i < q.qsize) (hv : v < 256 ^ 8)
    (hlen : inRegion q.dmaBase q.dmaSize v (q.desc m i).bufLen) :
    (q.contract m₀).inv (m.store 8 (q.shadowDesc + i * 16) v) := by
  obtain ⟨-, hring⟩ := ring_store_table (m := m) (v := v) hq (inside_addr hi)
  refine ⟨fun j hj => ?_, fun k hk => by rw [hring k hk]; exact h.2 k hk⟩
  rw [desc_store_addr]
  split
  · rw [Nat.mod_eq_of_lt hv]
    exact .inr (.readdress (h.1 i hi) hlen)
  · exact h.1 j hj

lemma inv_store_word (hq : q.Apart) (h : (q.contract m₀).inv m) (hi : i < q.qsize) (hv : v < 256 ^ 8)
    (hcheck : q.Confines ⟨(q.desc m i).addr, v⟩) : (q.contract m₀).inv
      (m.store 8 (q.shadowDesc + i * 16 + 8) v) := by
  obtain ⟨-, hring⟩ := ring_store_table (m := m) (v := v) hq (inside_word hi)
  refine ⟨fun j hj => ?_, fun k hk => by rw [hring k hk]; exact h.2 k hk⟩
  rw [desc_store_word]
  split
  · rw [Nat.mod_eq_of_lt hv]
    exact .inr hcheck
  · exact h.1 j hj

lemma walk_performs (hindex : index < q.qsize) :
    (walk q fuel index).Performs q.Within fun _ => True := by
  induction fuel generalizing index with
  | zero => trivial
  | succ fuel ih =>
    simp only [walk, Prog.performs_bind, Bus.performs_read]
    refine ⟨.inl ⟨by omega, by omega⟩, fun a => ⟨.inl ⟨by omega, by omega⟩, fun w => ?_⟩⟩
    split
    · trivial
    · rename_i hcheck
      simp only [Prog.performs_bind, Bus.performs_write]
      refine ⟨.inl ⟨by omega, by omega⟩, fun _ => ⟨.inl ⟨by omega, by omega⟩, fun _ => ?_⟩⟩
      split
      · trivial
      · rename_i hnext
        exact ih ((confines_of_check (by simpa using hcheck)).2.2.2 (by simpa using hnext))

lemma shadowHeads_performs (hleft : left ≤ q.qsize) :
    (shadowHeads q toIdx left idx).Performs q.Within fun _ => True := by
  induction left generalizing idx with
  | zero =>
    simp only [shadowHeads, Prog.performs_bind, Bus.performs_write]
    exact ⟨.inr ⟨by omega, by omega⟩, fun _ => trivial⟩
  | succ left ih =>
    have hslot : idx % q.qsize < q.qsize := Nat.mod_lt _ (by omega)
    simp only [shadowHeads, Prog.performs_bind, Bus.performs_read]
    refine ⟨.inr ⟨by omega, by omega⟩, fun word => ?_⟩
    split
    · trivial
    · rename_i hhead
      simp only [Prog.performs_bind]
      refine (walk_performs (not_le.mp hhead)).mono fun copied _ => ?_
      split
      · trivial
      · simp only [Prog.performs_bind, Bus.performs_write]
        exact ⟨.inr ⟨by omega, by omega⟩, fun _ => ih (by omega)⟩

lemma validateAndShadow_performs (fromIdx toIdx : ℕ) :
    (validateAndShadow q fromIdx toIdx).Performs q.Within fun _ => True := by
  unfold validateAndShadow
  split
  · trivial
  · exact shadowHeads_performs (by omega)

lemma walk_meets (hq : q.Apart) (h : (q.contract m₀).inv m) (hindex : index < q.qsize) :
    (walk q fuel index).Meets (q.contract m₀) batch (fun _ m' => q.published m' = q.published m) m := by
  induction fuel generalizing index m with
  | zero => exact rfl
  | succ fuel ih =>
    simp only [walk, Prog.meets_bind, Bus.meets_read]
    refine ⟨trivial, fun _ a => ⟨h, trivial, fun _ w => ⟨h, ?_⟩⟩⟩
    have ha : a % 256 ^ 8 < 256 ^ 8 := Nat.mod_lt _ (by norm_num)
    have hw : w % 256 ^ 8 < 256 ^ 8 := Nat.mod_lt _ (by norm_num)
    generalize a % 256 ^ 8 = a at *
    generalize w % 256 ^ 8 = w at *
    split
    · exact rfl
    · rename_i hcheck
      have hconfines : q.Confines ⟨a, w⟩ := confines_of_check (by simpa using hcheck)
      simp only [Prog.meets_bind, Bus.meets_write]
      refine ⟨trivial, fun hok _ => ?_⟩
      have h₁ := inv_store_addr hq h hindex ha (hok rfl index hindex rfl)
      have h₂ := inv_store_word hq h₁ hindex hw (by rwa [desc_store_addr, if_pos rfl, Nat.mod_eq_of_lt ha])
      have hpublished := (ring_store_table (m := m) (v := a) hq (inside_addr hindex)).1
      have hpublished' := ((ring_store_table (v := w) hq (inside_word hindex)).1).trans hpublished
      refine ⟨h₁, trivial, fun _ _ => ⟨h₂, ?_⟩⟩
      split
      · exact hpublished'
      · rename_i hnext
        refine (ih h₂ (hconfines.2.2.2 (by simpa using hnext))).mono fun _ m' h' => ?_
        exact h'.trans hpublished'

lemma inv_store_ring (hq : q.Apart) (h : (q.contract m₀).inv m)
    (hin : Access.Inside q.shadowAvail (q.shadowAvail + 4 + q.qsize * 2) (.write 2 addr v))
    (hheads : ∀ k < q.qsize, q.head (m.store 2 addr v) k = q.head m k ∨ q.head (m.store 2 addr v) k < q.qsize) :
    (q.contract m₀).inv (m.store 2 addr v) := by
  refine ⟨fun i hi => ?_, fun k hk => ?_⟩
  · rw [table_store_ring hq hin hi]
    exact h.1 i hi
  · rcases hheads k hk with hsame | hbelow
    · rw [hsame]
      exact h.2 k hk
    · exact .inr hbelow

lemma shadowHeads_meets (hq : q.Apart) (h : (q.contract m₀).inv m) (hleft : left ≤ q.qsize) :
    (shadowHeads q toIdx left idx).Meets (q.contract m₀) batch
      (fun ok m' => ok = false → q.published m' = q.published m) m := by
  induction left generalizing idx m with
  | zero =>
    simp only [shadowHeads, Prog.meets_bind, Bus.meets_write]
    refine ⟨trivial, fun _ _ => ⟨?_, fun hfalse => by cases hfalse⟩⟩
    refine inv_store_ring hq h ⟨by omega, by omega⟩ fun k _ => .inl ?_
    exact Memory.load_store_of_disjoint (.inr (by omega))
  | succ left ih =>
    have hslot : idx % q.qsize < q.qsize := Nat.mod_lt _ (by omega)
    simp only [shadowHeads, Prog.meets_bind, Bus.meets_read]
    refine ⟨trivial, fun _ word => ⟨h, ?_⟩⟩
    have hword : word % 256 ^ 2 < 256 ^ 2 := Nat.mod_lt _ (by norm_num)
    generalize word % 256 ^ 2 = head at *
    split
    · exact fun _ => rfl
    · rename_i hhead
      simp only [Prog.meets_bind]
      refine ((walk_meets hq h (not_le.mp hhead)).keep h).mono fun copied m₁ hwalk => ?_
      obtain ⟨hpublished, h₁⟩ := hwalk
      split
      · exact fun _ => hpublished
      · simp only [Prog.meets_bind, Bus.meets_write]
        have h₂ : (q.contract m₀).inv (m₁.store 2 (q.shadowAvail + 4 + idx % q.qsize * 2) head) := by
          refine inv_store_ring hq h₁ ⟨by omega, by omega⟩ fun k _ => ?_
          rw [head_store, Nat.mod_eq_of_lt hword]
          split
          · exact .inr (not_le.mp hhead)
          · exact .inl rfl
        refine ⟨trivial, fun _ _ => ⟨h₂, (ih h₂ (by omega)).mono fun ok m' hrest hok => (hrest hok).trans ?_⟩⟩
        exact (Memory.load_store_of_disjoint (.inl (by omega))).trans hpublished

lemma validateAndShadow_meets {fromIdx : ℕ} (hq : q.Apart) (h : (q.contract m₀).inv m) :
    (validateAndShadow q fromIdx toIdx).Meets (q.contract m₀) batch
      (fun ok m' => ok = false → q.published m' = q.published m) m := by
  unfold validateAndShadow
  split
  · exact fun _ => rfl
  · exact shadowHeads_meets hq h (by omega)

def step (q : Rings) :
    Session (ℕ × ℕ) Memory Access ℕ Bool → Session.Event (ℕ × ℕ) ℕ →
    Option (Session (ℕ × ℕ) Memory Access ℕ Bool) :=
  Session.step Memory.perform (fun _ batch => validateAndShadow q batch.1 batch.2) fun _ m => m

def Zeroed (q : Rings) (m₀ : Memory) (s : Session (ℕ × ℕ) Memory Access ℕ Bool) : Prop :=
  s.running = none ∧ s.state = m₀ ∧ ∀ i < q.qsize, q.desc m₀ i = ⟨0, 0⟩

/-- The shadow ring at one moment of a run: the device can reach only the region, the validator is about to touch
only its areas, and a call that has refused left the published index alone. -/
structure Confined (q : Rings) (m₀ : Memory) (s : Session (ℕ × ℕ) Memory Access ℕ Bool) : Prop where
  table : q.TableConfined s.state
  heads : q.HeadsBelow m₀ s.state
  within : ∀ batch e, s.pending = some (batch, e) → q.Within e
  refused : ∀ batch, s.running = some (batch, .pure false) → q.published s.state = q.published s.entry

theorem validator_confines_device (hq : q.Apart) {s : Session (ℕ × ℕ) Memory Access ℕ Bool}
    (h : Reach q.step (Session.Follows always q.Untorn) (q.Zeroed m₀) s) : q.Confined m₀ s := by
  have howes : Session.Owes (q.contract m₀) (fun _ entry ok m' => ok = false → q.published m' = q.published entry)
    s := by
    refine Session.owes_of_reach (fun m batch hm _ => validateAndShadow_meets hq hm) (fun _ _ _ m hm _ => hm)
      (h.start_mono ?_)
    rintro s ⟨hidle, rfl, hzero⟩
    exact ⟨hidle, fun i hi => .inl (hzero i hi), fun k _ => .inl rfl⟩
  have hperforms : ∀ batch p, s.running = some (batch, p) → p.Performs q.Within fun _ => True :=
    Session.performs_of_reach (fun _ _ => validateAndShadow_performs _ _) (fun s hs => hs.1) h
  refine ⟨howes.1.1, howes.1.2, fun batch e he => ?_, fun _ hk => howes.2 _ _ hk rfl⟩
  obtain ⟨k, hk⟩ := Session.running_of_pending he
  exact (hperforms _ _ hk).1

def single : Rings :=
  { dmaBase := 4096, dmaSize := 256, driverDesc := 128, driverAvail := 144, shadowDesc := 64, shadowAvail := 96,
    qsize := 1 }

def copies (fromIdx addr word : ℕ) : List (Session.Event (ℕ × ℕ) ℕ) :=
  [.call (fromIdx, fromIdx + 1), .answer 0, .answer addr, .answer word, .answer 0]

def publishes : List (Session.Event (ℕ × ℕ) ℕ) :=
  [.answer 0, .answer 0, .answer 0, .ret]

theorem recopied_descriptor_torn : single.Apart ∧ ∃ s, Reach single.step always (single.Zeroed fun _ => 0) s ∧
    single.desc s.state 0 = ⟨4344, 256⟩ ∧ ¬ single.TableConfined s.state := by
  obtain ⟨s, hs, hdesc⟩ : ∃ s, execute single.step always ⟨fun _ => 0, fun _ => 0, none⟩
      (copies 0 4096 256 ++ publishes ++ copies 1 4344 8) = some s ∧
        (single.desc s.state 0 = ⟨4344, 256⟩ ∧ ¬ single.TableConfined s.state) := by
    apply exists_execute
    decide
  exact ⟨.inl (by decide), s, .execute (.init ⟨rfl, rfl, by decide⟩) hs, hdesc⟩

theorem validator_confines_device_recopied : ∃ s,
    execute single.step (Session.Follows always single.Untorn) ⟨fun _ => 0, fun _ => 0, none⟩
      (copies 0 4096 8 ++ publishes ++ copies 1 4344 8) = some s ∧
    single.desc s.state 0 = ⟨4344, 8⟩ ∧ single.Confined (fun _ => 0) s :=
  Reach.exists_execute ⟨rfl, rfl, by decide⟩ (fun _ h _ => validator_confines_device (.inl (by decide)) h)
    (by decide)

end Rings

end CrickerOs.DmaValidator

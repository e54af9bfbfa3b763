import CrickerOs.Library.Acting
import CrickerOs.Library.Bytes

namespace CrickerOs.FsServer

open Library List Nat

def BLOCK : ℕ := 4096

abbrev Block := { l : Bytes // l.length = BLOCK }

/-- A device that holds a flat array of bytes. Transfers past its end fail, and any other may; one that fails may
leave anything in its own block. -/
structure BlockIo (σ ε : Type) where
  readBlock : ℕ → Act σ ε Block
  writeBlock : ℕ → Block → Act σ ε Unit
  bytes : σ → Bytes
  size_lt : ∀ s, (bytes s).length < 2 ^ 64
  bytes_read : ∀ b s, bytes (readBlock b s).2 = bytes s
  read_ok : ∀ {b s data}, (readBlock b s).1 = .ok data →
    (b + 1) * BLOCK ≤ (bytes s).length ∧ data.val = window (bytes s) (b * BLOCK) BLOCK
  write_ok : ∀ {b data s}, (writeBlock b data s).1 = .ok () →
    (b + 1) * BLOCK ≤ (bytes s).length ∧ bytes (writeBlock b data s).2 = overwrite (bytes s) (b * BLOCK) data
  write_elsewhere : ∀ {b data s i}, i < b * BLOCK ∨ (b + 1) * BLOCK ≤ i →
    (bytes (writeBlock b data s).2)[i]? = (bytes s)[i]?

def memoryIo (n : ℕ) (hn : n < 2 ^ 64) : BlockIo { l : Bytes // l.length = n } Unit where
  readBlock b s :=
    if h : (b + 1) * BLOCK ≤ n then
      (.ok ⟨window s.val (b * BLOCK) BLOCK, length_window (by rwa [s.property, ← Nat.succ_mul])⟩, s)
    else (.error (), s)
  writeBlock b data s :=
    if (b + 1) * BLOCK ≤ n then (.ok (), ⟨overwrite s.val (b * BLOCK) data, length_overwrite.trans s.property⟩)
    else (.error (), s)
  bytes s := s.val
  size_lt s := by rwa [s.property]
  bytes_read b s := by split_ifs <;> rfl
  read_ok {b s data} h := by
    split_ifs at h with hfits
    rw [s.property]
    exact ⟨hfits, congrArg Subtype.val (Except.ok.inj h).symm⟩
  write_ok {b data s} h := by
    split_ifs at h ⊢ with hfits
    exact ⟨hfits.trans_eq s.property.symm, rfl⟩
  write_elsewhere {b data s i} hi := by
    split_ifs
    · refine getElem?_overwrite_of_disjoint ?_
      rwa [data.property, ← Nat.succ_mul]
    · rfl

structure Call (ε : Type) where
  block : ℕ
  error : Option ε

/-- The device, with the transfers that were asked of it. -/
structure BlockDisk (σ ε : Type) where
  device : σ
  calls : List (Call ε)

variable {σ ε α : Type}

def errorOf : Except ε α → Option ε
  | .ok _ => none
  | .error e => some e

def transfer (b : ℕ) (m : Act σ ε α) : Act (BlockDisk σ ε) ε α := fun s =>
  ((m s.device).1, ⟨(m s.device).2, s.calls ++ [⟨b, errorOf (m s.device).1⟩]⟩)

def readFrom (io : BlockIo σ ε) (b : ℕ) (buffer : Bytes) : Act (BlockDisk σ ε) ε Bytes :=
  if buffer = [] then pure [] else do
    let scratch ← transfer b (io.readBlock b)
    let rest ← readFrom io ((b + 1) % 2 ^ 64) (buffer.drop BLOCK)
    pure (scratch.val.take (buffer.take BLOCK).length ++ rest)
  termination_by buffer.length
  decreasing_by
    have := List.length_pos_of_ne_nil ‹¬ buffer = []›
    rw [List.length_drop, BLOCK]
    omega

def readAt (io : BlockIo σ ε) (block : ℕ) (buffer : Bytes) : Act (BlockDisk σ ε) ε (ℕ × Bytes) := do
  let filled ← readFrom io block buffer
  pure (buffer.length, filled)

def Block.front (scratch : Block) (chunk : Bytes) : Block :=
  ⟨overwrite scratch.val 0 chunk, length_overwrite.trans scratch.property⟩

lemma Block.val_front (scratch : Block) (chunk : Bytes) :
    (scratch.front chunk).val = overwrite scratch.val 0 chunk := rfl

def scratchFor (io : BlockIo σ ε) (b : ℕ) (scratch : Block) (chunk : Bytes) : Act (BlockDisk σ ε) ε Block :=
  if chunk.length < BLOCK then transfer b (io.readBlock b) else pure scratch

def writeFrom (io : BlockIo σ ε) (b : ℕ) (scratch : Block) (buffer : Bytes) : Act (BlockDisk σ ε) ε Unit :=
  if buffer = [] then pure () else do
    let scratch ← scratchFor io b scratch (buffer.take BLOCK)
    let scratch := Block.front scratch (buffer.take BLOCK)
    transfer b (io.writeBlock b scratch)
    writeFrom io ((b + 1) % 2 ^ 64) scratch (buffer.drop BLOCK)
  termination_by buffer.length
  decreasing_by
    have := List.length_pos_of_ne_nil ‹¬ buffer = []›
    rw [List.length_drop, BLOCK]
    omega

def Block.zero : Block := ⟨List.replicate BLOCK 0, List.length_replicate⟩

def writeAt (io : BlockIo σ ε) (block : ℕ) (buffer : Bytes) : Act (BlockDisk σ ε) ε ℕ := do
  writeFrom io block .zero buffer
  pure buffer.length

section

variable (io : BlockIo σ ε)

def BlockDisk.bytes (s : BlockDisk σ ε) : Bytes := io.bytes s.device

/-- The last of the transfers failed with `e`. It is the only one that failed, and none was made of a later
block. -/
def FailsAt (made : List (Call ε)) (e : ε) (b : ℕ) : Prop :=
  ∃ done, made = done ++ [⟨b, some e⟩] ∧ ∀ c ∈ done, c.error = none ∧ c.block ≤ b

def ReadsAs (b : ℕ) (buffer : Bytes) (s : BlockDisk σ ε) (out : Except ε Bytes × BlockDisk σ ε) : Prop :=
  out.2.bytes io = s.bytes io ∧ ∃ made, out.2.calls = s.calls ++ made ∧
    match out.1 with
    | .ok filled => filled = window (s.bytes io) (b * BLOCK) buffer.length ∧ filled.length = buffer.length ∧
        ∀ c ∈ made, c.error = none
    | .error e => ∃ at', b ≤ at' ∧ FailsAt made e at'

def WritesAs (b : ℕ) (buffer : Bytes) (s : BlockDisk σ ε) (out : Except ε Unit × BlockDisk σ ε) : Prop :=
  ∃ made, out.2.calls = s.calls ++ made ∧
    match out.1 with
    | .ok _ => out.2.bytes io = overwrite (s.bytes io) (b * BLOCK) buffer ∧
        (buffer = [] ∨ b * BLOCK + buffer.length ≤ (s.bytes io).length) ∧ ∀ c ∈ made, c.error = none
    | .error e => ∃ at', b ≤ at' ∧ FailsAt made e at' ∧
        (∀ i < at' * BLOCK, (out.2.bytes io)[i]? = (overwrite (s.bytes io) (b * BLOCK) buffer)[i]?) ∧
        ∀ i, (at' + 1) * BLOCK ≤ i → (out.2.bytes io)[i]? = (s.bytes io)[i]?

end

section

variable {io : BlockIo σ ε} {b : ℕ} {buffer : Bytes} {s : BlockDisk σ ε}

lemma overwrite_chunks {l : Bytes} :
    overwrite (overwrite l (b * BLOCK) (buffer.take BLOCK)) ((b + 1) * BLOCK) (buffer.drop BLOCK) =
      overwrite l (b * BLOCK) buffer := by
  rcases le_total buffer.length BLOCK with h | h
  · rw [take_of_length_le h, drop_eq_nil_of_le h, overwrite_nil]
  · have hsplit : overwrite l (b * BLOCK) (buffer.take BLOCK ++ buffer.drop BLOCK) = _ := overwrite_append
    rw [take_append_drop, length_take, min_eq_left h, ← succ_mul] at hsplit
    exact hsplit.symm

lemma FailsAt.single {e : ε} : FailsAt [⟨b, some e⟩] e b := ⟨[], rfl, fun _ h => nomatch h⟩

lemma FailsAt.cons {made : List (Call ε)} {e : ε} {at' : ℕ} (h : FailsAt made e at') (hb : b ≤ at') :
    FailsAt (⟨b, none⟩ :: made) e at' := by
  obtain ⟨done, rfl, hdone⟩ := h
  exact ⟨⟨b, none⟩ :: done, rfl, forall_mem_cons.mpr ⟨⟨rfl, hb⟩, hdone⟩⟩

lemma next_block (h : (b + 1) * BLOCK ≤ (s.bytes io).length) : (b + 1) % 2 ^ 64 = b + 1 := by
  have := io.size_lt s.device
  rw [BlockDisk.bytes, BLOCK] at h
  exact mod_eq_of_lt (by omega)

lemma transfer_ok {m : Act σ ε α} {a : α} (h : (m s.device).1 = .ok a) :
    transfer b m s = (.ok a, ⟨(m s.device).2, s.calls ++ [⟨b, none⟩]⟩) := by
  rw [transfer, h]
  rfl

lemma transfer_error {m : Act σ ε α} {e : ε} (h : (m s.device).1 = .error e) :
    transfer b m s = (.error e, ⟨(m s.device).2, s.calls ++ [⟨b, some e⟩]⟩) := by
  rw [transfer, h]
  rfl

lemma readFrom_spec (io : BlockIo σ ε) (b : ℕ) (buffer : Bytes) (s : BlockDisk σ ε) :
    ReadsAs io b buffer s (readFrom io b buffer s) := by
  induction hn : buffer.length using Nat.strong_induction_on generalizing b buffer s with
  | _ n ih =>
    by_cases hbuffer : buffer = []
    · subst hbuffer
      rw [readFrom, if_pos rfl]
      exact ⟨rfl, [], (append_nil _).symm, rfl, rfl, fun _ h => nomatch h⟩
    have hpos := length_pos_of_ne_nil hbuffer
    rw [readFrom, if_neg hbuffer]
    cases hr : (io.readBlock b s.device).1 with
    | error e =>
      rw [Act.bind_error (transfer_error hr)]
      exact ⟨io.bytes_read b s.device, _, rfl, b, le_rfl, .single⟩
    | ok scratch =>
      obtain ⟨hfits, hdata⟩ := io.read_ok hr
      rw [Act.bind_ok (transfer_ok hr), next_block (s := s) hfits]
      have hdrop : (buffer.drop BLOCK).length < n := by
        rw [length_drop, BLOCK]
        omega
      obtain ⟨hbytes, made, hcalls, hout⟩ :=
        ih _ hdrop (b + 1) (buffer.drop BLOCK) ⟨(io.readBlock b s.device).2, s.calls ++ [⟨b, none⟩]⟩ rfl
      have hsame : (⟨(io.readBlock b s.device).2, s.calls ++ [⟨b, none⟩]⟩ : BlockDisk σ ε).bytes io = s.bytes io :=
        io.bytes_read b s.device
      rw [append_assoc] at hcalls
      rw [hsame] at hbytes hout
      cases hrest : readFrom io (b + 1) (buffer.drop BLOCK)
        ⟨(io.readBlock b s.device).2, s.calls ++ [⟨b, none⟩]⟩ with
      | mk r s' =>
        rw [hrest] at hbytes hcalls hout
        cases r with
        | error e =>
          obtain ⟨at', hat, hfails⟩ := hout
          rw [Act.bind_error hrest]
          exact ⟨hbytes, _, hcalls, at', by omega, hfails.cons (by omega)⟩
        | ok rest =>
          obtain ⟨hrest', hlength, hok⟩ := hout
          rw [Act.bind_ok hrest]
          have hchunk : (scratch.val.take (buffer.take BLOCK).length).length = min buffer.length BLOCK := by
            rw [length_take, length_take, scratch.property]
            omega
          refine ⟨hbytes, _, hcalls, ?_, ?_, forall_mem_cons.mpr ⟨rfl, hok⟩⟩
          · rw [window_split _ _ _ BLOCK, hdata, hrest', length_take, length_drop, succ_mul, min_comm]
            rfl
          · rw [length_append, hchunk, hlength, length_drop]
            omega

lemma scratchFor_spec (io : BlockIo σ ε) (b : ℕ) (scratch : Block) {chunk : Bytes} (hchunk : chunk.length ≤ BLOCK)
    (s : BlockDisk σ ε) :
    (scratchFor io b scratch chunk s).2.bytes io = s.bytes io ∧
      ∃ made, (scratchFor io b scratch chunk s).2.calls = s.calls ++ made ∧
        match (scratchFor io b scratch chunk s).1 with
        | .ok scratch' => (∀ c ∈ made, c = ⟨b, none⟩) ∧
            overwrite (s.bytes io) (b * BLOCK) (scratch'.front chunk).val =
            overwrite (s.bytes io) (b * BLOCK) chunk
        | .error e => made = [⟨b, some e⟩] := by
  rw [scratchFor]
  split_ifs with hshort
  · cases hr : (io.readBlock b s.device).1 with
    | error e =>
      rw [transfer_error hr]
      exact ⟨io.bytes_read b s.device, _, rfl, rfl⟩
    | ok scratch' =>
      obtain ⟨hfits, hdata⟩ := io.read_ok hr
      rw [transfer_ok hr]
      refine ⟨io.bytes_read b s.device, _, rfl, by simp, ?_⟩
      rw [Block.val_front, hdata]
      rw [succ_mul] at hfits
      exact overwrite_window hfits hchunk
  · rw [Act.pure_run]
    refine ⟨rfl, [], (append_nil _).symm, nofun, ?_⟩
    rw [Block.val_front, overwrite_full]
    rw [scratch.property]
    omega

lemma FailsAt.append {done made : List (Call ε)} {e : ε} {at' : ℕ} (h : FailsAt made e at')
    (hdone : ∀ c ∈ done, c = ⟨b, none⟩) (hb : b ≤ at') : FailsAt (done ++ made) e at' := by
  obtain ⟨done', rfl, hdone'⟩ := h
  refine ⟨done ++ done', (append_assoc _ _ _).symm, fun c hc => ?_⟩
  rcases mem_append.mp hc with hc | hc
  · rw [hdone c hc]
    exact ⟨rfl, hb⟩
  · exact hdone' c hc

lemma writeFrom_spec (io : BlockIo σ ε) (b : ℕ) (scratch : Block) (buffer : Bytes) (s : BlockDisk σ ε) :
    WritesAs io b buffer s (writeFrom io b scratch buffer s) := by
  induction hn : buffer.length using Nat.strong_induction_on generalizing b scratch buffer s with
  | _ n ih =>
    by_cases hbuffer : buffer = []
    · subst hbuffer
      rw [writeFrom, if_pos rfl]
      exact ⟨[], (append_nil _).symm, overwrite_nil.symm, .inl rfl, nofun⟩
    have hpos := length_pos_of_ne_nil hbuffer
    rw [writeFrom, if_neg hbuffer]
    obtain ⟨hbytes₁, made₁, hcalls₁, hout₁⟩ := scratchFor_spec io b scratch (length_take_le BLOCK buffer) s
    cases hs : scratchFor io b scratch (buffer.take BLOCK) s with
    | mk r s₁ =>
    rw [hs] at hbytes₁ hcalls₁ hout₁
    cases r with
    | error e =>
      cases hout₁
      rw [Act.bind_error hs]
      refine ⟨_, hcalls₁, b, le_rfl, .single, fun i hi => ?_, fun i _ => ?_⟩
      · rw [hbytes₁, getElem?_overwrite_of_disjoint (.inl hi)]
      · rw [hbytes₁]
    | ok scratch₁ =>
    obtain ⟨hok₁, hfront⟩ := hout₁
    rw [Act.bind_ok hs]
    cases hw : (io.writeBlock b (scratch₁.front (buffer.take BLOCK)) s₁.device).1 with
    | error e =>
      rw [Act.bind_error (transfer_error hw)]
      refine ⟨made₁ ++ [⟨b, some e⟩], ?_, b, le_rfl, FailsAt.single.append hok₁ le_rfl, fun i hi => ?_,
        fun i hi => ?_⟩
      · rw [← append_assoc, ← hcalls₁]
      · rw [getElem?_overwrite_of_disjoint (.inl hi), ← hbytes₁]
        exact io.write_elsewhere (.inl hi)
      · rw [← hbytes₁]
        exact io.write_elsewhere (.inr hi)
    | ok u =>
    obtain ⟨hfits, hwritten⟩ := io.write_ok hw
    change (b + 1) * BLOCK ≤ (s₁.bytes io).length at hfits
    change _ = overwrite (s₁.bytes io) _ _ at hwritten
    rw [Act.bind_ok (transfer_ok hw), next_block hfits]
    rw [hbytes₁] at hfits hwritten
    rw [hfront] at hwritten
    have hdrop : (buffer.drop BLOCK).length < n := by
      rw [length_drop, BLOCK]
      omega
    set s₂ : BlockDisk σ ε := ⟨_, s₁.calls ++ [⟨b, none⟩]⟩
    obtain ⟨made, hcalls, hout⟩ := ih _ hdrop (b + 1) (scratch₁.front (buffer.take BLOCK)) (buffer.drop BLOCK)
      s₂ rfl
    have hbytes₂ : s₂.bytes io = overwrite (s.bytes io) (b * BLOCK) (buffer.take BLOCK) := hwritten
    have hcalls₂ : s₂.calls = s.calls ++ (made₁ ++ [⟨b, none⟩]) := by rw [← append_assoc, ← hcalls₁]
    have hdone : ∀ c ∈ made₁ ++ [⟨b, none⟩], c = ⟨b, none⟩ := by simpa [or_imp, forall_and] using hok₁
    rw [hcalls₂, append_assoc] at hcalls
    refine ⟨_, hcalls, ?_⟩
    rw [hbytes₂] at hout
    cases hrest : (writeFrom io (b + 1) (scratch₁.front (buffer.take BLOCK)) (buffer.drop BLOCK) s₂).1 with
    | error e =>
      rw [hrest] at hout
      obtain ⟨at', hat, hfails, hbefore, hafter⟩ := hout
      refine ⟨at', by omega, hfails.append hdone (by omega), fun i hi => ?_, fun i hi => ?_⟩
      · rw [hbefore i hi, overwrite_chunks]
      · rw [hafter i hi]
        refine getElem?_overwrite_of_disjoint (.inr ?_)
        have := length_take_le BLOCK buffer
        rw [succ_mul] at hi
        have := mul_le_mul_right BLOCK hat
        rw [succ_mul] at this
        omega
    | ok u =>
      rw [hrest] at hout
      obtain ⟨hbytes, hlength, hok⟩ := hout
      refine ⟨?_, .inr ?_, fun c hc => ?_⟩
      · rw [hbytes, overwrite_chunks]
      · rw [length_overwrite, length_drop] at hlength
        rw [succ_mul] at hfits hlength
        rcases hlength with hnil | hlength
        · have := drop_eq_nil_iff.mp hnil
          omega
        · omega
      · rcases mem_append.mp hc with hc | hc
        · rw [hdone c hc]
        · exact hok c hc

end

/-- Reads and writes of a disk of blocks are those of a flat array of bytes, up to the first transfer that
fails. -/
theorem block_disk_is_a_byte_array (io : BlockIo σ ε) (block : ℕ) (buffer : Bytes) (s : BlockDisk σ ε) :
    (∃ out, readAt io block buffer s = (out.1.map fun filled => (buffer.length, filled), out.2) ∧
      ReadsAs io block buffer s out) ∧
    ∃ out, writeAt io block buffer s = (out.1.map fun _ => buffer.length, out.2) ∧
    WritesAs io block buffer s out := by
  refine ⟨⟨_, ?_, readFrom_spec io block buffer s⟩, _, ?_, writeFrom_spec io block .zero buffer s⟩
  · rw [readAt]
    cases h : readFrom io block buffer s with
    | mk r s' =>
      cases r with
      | error e => exact Act.bind_error h
      | ok filled => exact Act.bind_ok h
  · rw [writeAt]
    cases h : writeFrom io block .zero buffer s with
    | mk r s' =>
      cases r with
      | error e => exact Act.bind_error h
      | ok u => exact Act.bind_ok h

/-- Three bytes are written into the second block of a device in memory; its other bytes stay. -/
theorem block_disk_writes_short_block : ∃ s',
    writeAt (memoryIo 8192 (by decide)) 1 [1, 2, 3] ⟨⟨replicate 8192 0, length_replicate⟩, []⟩ = (.ok 3, s') ∧
    s'.device.val = overwrite (replicate 8192 0) 4096 [1, 2, 3] := by
  obtain ⟨⟨r, s'⟩, heq, made, -, hout⟩ := (block_disk_is_a_byte_array (memoryIo 8192 (by decide)) 1 [1, 2, 3]
    ⟨⟨replicate 8192 0, length_replicate⟩, []⟩).2
  cases r with
  | ok u => exact ⟨s', heq, hout.1⟩
  | error e =>
    have hlast (b : ℕ) (scratch : Block) : writeFrom (memoryIo 8192 (by decide)) b scratch [] = pure () := by
      rw [writeFrom, if_pos rfl]
    rw [writeAt, writeFrom, show ([1, 2, 3] : Bytes).drop BLOCK = [] from rfl] at heq
    simp only [hlast] at heq
    have hok : Except.ok 3 = Except.error e := congrArg Prod.fst heq
    cases hok

end CrickerOs.FsServer

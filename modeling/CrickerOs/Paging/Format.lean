import Mathlib

namespace CrickerOs.Paging

open Nat

def pageSize : ℕ := 4096
def entries : ℕ := 512

def capWrite : ℕ := 1 <<< 0
def capUser : ℕ := 1 <<< 1
def capUserExec : ℕ := 1 <<< 2
def capKernelExec : ℕ := 1 <<< 3
def capGlobal : ℕ := 1 <<< 4
def capDevice : ℕ := 1 <<< 5

structure Flags where
  caps : ℕ
  deriving DecidableEq

namespace Flags

def kernelCode : Flags := ⟨capKernelExec ||| capGlobal⟩
def kernelRodata : Flags := ⟨capGlobal⟩
def kernelData : Flags := ⟨capWrite ||| capGlobal⟩
def device : Flags := ⟨capWrite ||| capGlobal ||| capDevice⟩
def userCode : Flags := ⟨capUser ||| capUserExec⟩
def userRodata : Flags := ⟨capUser⟩
def userData : Flags := ⟨capUser ||| capWrite⟩
def userDevice : Flags := ⟨capUser ||| capWrite ||| capDevice⟩

def portable : List Flags :=
  [kernelCode, kernelRodata, kernelData, device, userCode, userRodata, userData, userDevice]

variable (f : Flags)

def isWritable : Bool := f.caps &&& capWrite != 0
def isKernelExecutable : Bool := f.caps &&& capKernelExec != 0
def isUserExecutable : Bool := f.caps &&& capUserExec != 0
def isUserAccessible : Bool := f.caps &&& capUser != 0
def isDevice : Bool := f.caps &&& capDevice != 0
def isGlobal : Bool := f.caps &&& capGlobal != 0

end Flags

inductive Half
  | low
  | high
  deriving DecidableEq

structure PageFormat where
  levels : ℕ
  splitShift : ℕ
  physBits : ℕ
  isPresent : ℕ → Bool
  entryPa : ℕ → ℕ
  tableEntry : ℕ → ℕ
  leafEntry : ℕ → Flags → ℕ
  leafFlags : ℕ → Flags

namespace PageFormat

def index (F : PageFormat) (va level : ℕ) : ℕ :=
  (va >>> (9 * (F.levels - 1 - level) + 12)) &&& 0x1ff

def inHalf (F : PageFormat) (half : Half) (va : ℕ) : Bool :=
  let top := va >>> F.splitShift
  match half with
  | .low => top == 0
  | .high => top == (2 ^ 64 - 1) >>> F.splitShift

def Fits (F : PageFormat) (pa : ℕ) : Prop :=
  pa % pageSize = 0 ∧ pa < 2 ^ F.physBits

instance (F : PageFormat) (pa : ℕ) : Decidable (F.Fits pa) :=
  inferInstanceAs (Decidable (_ ∧ _))

/-- What the mapper relies on: entries decode to what was encoded, and the indices tell the pages of a half
apart. -/
structure Lawful (F : PageFormat) : Prop where
  levels_pos : 0 < F.levels
  split : F.splitShift ≤ 9 * F.levels + 12
  absent : F.isPresent 0 = false
  table_present : ∀ pa, F.isPresent (F.tableEntry pa)
  table_pa : ∀ pa, F.Fits pa → F.entryPa (F.tableEntry pa) = pa
  leaf_present : ∀ pa f, F.isPresent (F.leafEntry pa f)
  leaf_pa : ∀ pa f, F.Fits pa → f ∈ Flags.portable → F.entryPa (F.leafEntry pa f) = pa
  leaf_flags : ∀ pa f, F.Fits pa → f ∈ Flags.portable → F.leafFlags (F.leafEntry pa f) = f

end PageFormat

namespace Aarch64

def valid : ℕ := 1 <<< 0
def tableOrPage : ℕ := 1 <<< 1
def af : ℕ := 1 <<< 10
def shInner : ℕ := 0b11 <<< 8
def attrIndex (slot : ℕ) : ℕ := (slot &&& 0b111) <<< 2
def apRwEl1 : ℕ := 0b00 <<< 6
def apRwEl0 : ℕ := 0b01 <<< 6
def apRoEl1 : ℕ := 0b10 <<< 6
def apRoEl0 : ℕ := 0b11 <<< 6
def apRo : ℕ := 1 <<< 7
def apUser : ℕ := 1 <<< 6
def nG : ℕ := 1 <<< 11
def pxn : ℕ := 1 <<< 53
def uxn : ℕ := 1 <<< 54
def addrMask : ℕ := 0x0000fffffffff000
def mairDevice : ℕ := 0
def mairNormal : ℕ := 1

def attrs (flags : Flags) : ℕ :=
  let bits := af
  let bits := if !flags.isDevice then bits ||| shInner else bits
  let bits := bits ||| attrIndex (if flags.isDevice then mairDevice else mairNormal)
  let bits := bits ||| match flags.isUserAccessible, flags.isWritable with
    | true, true => apRwEl0
    | true, false => apRoEl0
    | false, true => apRwEl1
    | false, false => apRoEl1
  let bits := if !flags.isKernelExecutable then bits ||| pxn else bits
  let bits := if !flags.isUserExecutable then bits ||| uxn else bits
  if !flags.isGlobal then bits ||| nG else bits

def leafFlags (entry : ℕ) : Flags :=
  let caps := 0
  let caps := if entry &&& apRo == 0 then caps ||| capWrite else caps
  let caps := if entry &&& apUser != 0 then caps ||| capUser else caps
  let caps := if entry &&& uxn == 0 then caps ||| capUserExec else caps
  let caps := if entry &&& pxn == 0 then caps ||| capKernelExec else caps
  let caps := if entry &&& nG == 0 then caps ||| capGlobal else caps
  let caps := if (entry >>> 2) &&& 0b111 == mairDevice then caps ||| capDevice else caps
  ⟨caps⟩

end Aarch64

def aarch64 : PageFormat where
  levels := 4
  splitShift := 48
  physBits := 48
  isPresent entry := entry &&& Aarch64.valid != 0
  entryPa entry := entry &&& Aarch64.addrMask
  tableEntry pa := (pa &&& Aarch64.addrMask) ||| Aarch64.tableOrPage ||| Aarch64.valid
  leafEntry pa flags := (pa &&& Aarch64.addrMask) ||| Aarch64.attrs flags ||| Aarch64.tableOrPage ||| Aarch64.valid
  leafFlags := Aarch64.leafFlags

namespace Sv39

def v : ℕ := 1 <<< 0
def r : ℕ := 1 <<< 1
def w : ℕ := 1 <<< 2
def x : ℕ := 1 <<< 3
def u : ℕ := 1 <<< 4
def g : ℕ := 1 <<< 5
def a : ℕ := 1 <<< 6
def d : ℕ := 1 <<< 7
def swDevice : ℕ := 1 <<< 8
def ppnShift : ℕ := 10
def ppnMask : ℕ := (1 <<< 44) - 1

def attrs (flags : Flags) : ℕ :=
  let bits := r ||| a
  let bits := if flags.isWritable then bits ||| (w ||| d) else bits
  let bits := if flags.isUserExecutable || flags.isKernelExecutable then bits ||| x else bits
  let bits := if flags.isUserAccessible then bits ||| u else bits
  let bits := if flags.isGlobal then bits ||| g else bits
  if flags.isDevice then bits ||| swDevice else bits

def leafFlags (entry : ℕ) : Flags :=
  let caps := 0
  let caps := if entry &&& w != 0 then caps ||| capWrite else caps
  let caps := if entry &&& u != 0 then caps ||| capUser else caps
  let caps :=
    if entry &&& x != 0 then if entry &&& u != 0 then caps ||| capUserExec else caps ||| capKernelExec else caps
  let caps := if entry &&& g != 0 then caps ||| capGlobal else caps
  let caps := if entry &&& swDevice != 0 then caps ||| capDevice else caps
  ⟨caps⟩

end Sv39

def sv39 : PageFormat where
  levels := 3
  splitShift := 38
  physBits := 56
  isPresent entry := entry &&& Sv39.v != 0
  entryPa entry := ((entry >>> Sv39.ppnShift) &&& Sv39.ppnMask) <<< 12
  tableEntry pa := (((pa >>> 12) &&& Sv39.ppnMask) <<< Sv39.ppnShift) ||| Sv39.v
  leafEntry pa flags := (((pa >>> 12) &&& Sv39.ppnMask) <<< Sv39.ppnShift) ||| Sv39.v ||| Sv39.attrs flags
  leafFlags := Sv39.leafFlags

lemma and_two_pow_eq (n i : ℕ) : n &&& 2 ^ i = n / 2 ^ i % 2 * 2 ^ i := by
  rw [and_two_pow, testBit_eq_decide_div_mod_eq]
  rcases mod_two_eq_zero_or_one (n / 2 ^ i) with h | h <;> simp [h]

lemma shifted_or_eq {i lo : ℕ} (k : ℕ) (hlo : lo < 2 ^ i) : 2 ^ i * k ||| lo = 2 ^ i * k + lo :=
  (two_pow_add_eq_or_of_lt hlo k).symm

lemma and_two_pow_congr {m m' i : ℕ} (h : m / 2 ^ i % 2 = m' / 2 ^ i % 2) : m &&& 2 ^ i = m' &&& 2 ^ i := by
  rw [and_two_pow_eq, and_two_pow_eq, h]

lemma or_one_present (n : ℕ) : ((n ||| 1) &&& 1 != 0) = true := by
  rw [and_or_distrib_right]
  rcases mod_two_eq_zero_or_one n with h | h <;> simp [and_one_is_mod, h]

namespace Aarch64

lemma and_addrMask (n : ℕ) : n &&& addrMask = n / 2 ^ 12 % 2 ^ 36 * 2 ^ 12 := by
  have hmask : addrMask = (2 ^ 36 - 1) <<< 12 := by decide
  rw [hmask, ← and_two_pow_sub_one_eq_mod, ← shiftRight_eq_div_pow, ← shiftLeft_eq]
  refine eq_of_testBit_eq fun i => ?_
  simp only [testBit_and, testBit_shiftLeft, testBit_shiftRight]
  by_cases h : 12 ≤ i <;> simp [h]

lemma entry_eq {pa hi lo : ℕ} (hpa : pa % 2 ^ 12 = 0) (hlt : pa < 2 ^ 48) (hlo : lo < 2 ^ 12) :
    (pa &&& addrMask) ||| (2 ^ 48 * hi + lo) = 2 ^ 48 * hi + (pa + lo) := by
  obtain ⟨k, rfl⟩ := dvd_of_mod_eq_zero hpa
  have hk : 2 ^ 12 * k / 2 ^ 12 % 2 ^ 36 * 2 ^ 12 = 2 ^ 12 * k := by omega
  have hlow : lo < 2 ^ 48 := by omega
  have hsum : 2 ^ 12 * k + lo < 2 ^ 48 := by omega
  rw [and_addrMask, hk, ← shifted_or_eq hi hlow, ← shifted_or_eq hi hsum, ← shifted_or_eq k hlo, ← lor_assoc,
    ← lor_assoc, lor_comm (2 ^ 12 * k)]

def word (flags : Flags) : ℕ :=
  attrs flags ||| tableOrPage ||| valid

lemma word_eq : ∀ f ∈ Flags.portable, word f = 2 ^ 48 * (word f / 2 ^ 48) + word f % 2 ^ 12 := by
  decide

lemma leafFlags_word : ∀ f ∈ Flags.portable, leafFlags (word f) = f := by
  decide

lemma leafEntry_eq {pa : ℕ} {f : Flags} (hpa : aarch64.Fits pa) (hf : f ∈ Flags.portable) :
    aarch64.leafEntry pa f = 2 ^ 48 * (word f / 2 ^ 48) + (pa + word f % 2 ^ 12) := by
  have hlo : word f % 2 ^ 12 < 2 ^ 12 := mod_lt _ (by norm_num)
  rw [← entry_eq hpa.1 hpa.2 hlo, ← word_eq f hf]
  simp only [aarch64, word, lor_assoc]

lemma leafFlags_congr {m m' : ℕ} (hlow : m % 2 ^ 12 = m' % 2 ^ 12) (hhigh : m / 2 ^ 48 = m' / 2 ^ 48) :
    leafFlags m = leafFlags m' := by
  have hro : m &&& apRo = m' &&& apRo := and_two_pow_congr (i := 7) (by omega)
  have huser : m &&& apUser = m' &&& apUser := and_two_pow_congr (i := 6) (by omega)
  have hhigh' (i : ℕ) : m / 2 ^ (48 + i) = m' / 2 ^ (48 + i) := by
    rw [pow_add, ← Nat.div_div_eq_div_mul, ← Nat.div_div_eq_div_mul, hhigh]
  have huxn : m &&& uxn = m' &&& uxn := and_two_pow_congr (i := 54) (by rw [hhigh' 6])
  have hpxn : m &&& pxn = m' &&& pxn := and_two_pow_congr (i := 53) (by rw [hhigh' 5])
  have hng : m &&& nG = m' &&& nG := and_two_pow_congr (i := 11) (by omega)
  have hslot : (m >>> 2) &&& 0b111 = (m' >>> 2) &&& 0b111 := by
    rw [shiftRight_eq_div_pow, shiftRight_eq_div_pow, and_two_pow_sub_one_eq_mod _ 3,
      and_two_pow_sub_one_eq_mod _ 3]
    omega
  simp only [leafFlags, hro, huser, huxn, hpxn, hng, hslot]

end Aarch64

lemma aarch64_lawful : aarch64.Lawful where
  levels_pos := by decide
  split := by decide
  absent := by decide
  table_present pa := by
    exact or_one_present _
  table_pa pa hpa := by
    obtain ⟨halign, hlt⟩ := hpa
    simp only [aarch64, pageSize] at hlt halign ⊢
    rw [lor_assoc, show Aarch64.tableOrPage ||| Aarch64.valid = 2 ^ 48 * 0 + 3 by decide,
      Aarch64.entry_eq halign hlt (by norm_num), Aarch64.and_addrMask]
    omega
  leaf_present pa f := by
    exact or_one_present _
  leaf_pa pa f hpa hf := by
    rw [Aarch64.leafEntry_eq hpa hf]
    obtain ⟨halign, hlt⟩ := hpa
    simp only [aarch64, pageSize] at hlt halign ⊢
    rw [Aarch64.and_addrMask]
    omega
  leaf_flags pa f hpa hf := by
    rw [Aarch64.leafEntry_eq hpa hf]
    obtain ⟨halign, hlt⟩ := hpa
    simp only [aarch64, pageSize] at hlt halign ⊢
    exact (Aarch64.leafFlags_congr (by omega) (by omega)).trans (Aarch64.leafFlags_word f hf)

namespace Sv39

lemma entryPa_eq (n : ℕ) : sv39.entryPa n = n / 2 ^ 10 % 2 ^ 44 * 2 ^ 12 := by
  have hmask : ppnMask = 2 ^ 44 - 1 := by decide
  simp only [sv39, ppnShift]
  rw [hmask, and_two_pow_sub_one_eq_mod, shiftRight_eq_div_pow, shiftLeft_eq]

lemma entry_eq {pa lo : ℕ} (hlt : pa < 2 ^ 56) (hlo : lo < 2 ^ 10) :
    (((pa >>> 12) &&& ppnMask) <<< ppnShift) ||| lo = 2 ^ 10 * (pa / 2 ^ 12) + lo := by
  have hmask : ppnMask = 2 ^ 44 - 1 := by decide
  have hk : pa / 2 ^ 12 % 2 ^ 44 * 2 ^ 10 = 2 ^ 10 * (pa / 2 ^ 12) := by omega
  rw [hmask, and_two_pow_sub_one_eq_mod, shiftRight_eq_div_pow, shiftLeft_eq, ppnShift, hk,
    shifted_or_eq _ hlo]

def word (flags : Flags) : ℕ :=
  v ||| attrs flags

lemma word_lt : ∀ f ∈ Flags.portable, word f < 2 ^ 10 := by
  decide

lemma leafFlags_word : ∀ f ∈ Flags.portable, leafFlags (word f) = f := by
  decide

lemma leafEntry_eq {pa : ℕ} {f : Flags} (hpa : sv39.Fits pa) (hf : f ∈ Flags.portable) :
    sv39.leafEntry pa f = 2 ^ 10 * (pa / 2 ^ 12) + word f := by
  rw [← entry_eq hpa.2 (word_lt f hf)]
  simp only [sv39, word, lor_assoc]

lemma leafFlags_congr {m m' : ℕ} (hlow : m % 2 ^ 10 = m' % 2 ^ 10) : leafFlags m = leafFlags m' := by
  have hw : m &&& w = m' &&& w := and_two_pow_congr (i := 2) (by omega)
  have hx : m &&& x = m' &&& x := and_two_pow_congr (i := 3) (by omega)
  have hu : m &&& u = m' &&& u := and_two_pow_congr (i := 4) (by omega)
  have hg : m &&& g = m' &&& g := and_two_pow_congr (i := 5) (by omega)
  have hdevice : m &&& swDevice = m' &&& swDevice := and_two_pow_congr (i := 8) (by omega)
  simp only [leafFlags, hw, hx, hu, hg, hdevice]

end Sv39

lemma sv39_lawful : sv39.Lawful where
  levels_pos := by decide
  split := by decide
  absent := by decide
  table_present pa := by
    exact or_one_present _
  table_pa pa hpa := by
    obtain ⟨halign, hlt⟩ := hpa
    rw [Sv39.entryPa_eq]
    simp only [sv39, pageSize] at hlt halign ⊢
    rw [Sv39.entry_eq hlt (by decide), Sv39.v]
    omega
  leaf_present pa f := by
    simp only [sv39]
    rw [lor_assoc, lor_comm Sv39.v, ← lor_assoc]
    exact or_one_present _
  leaf_pa pa f hpa hf := by
    rw [Sv39.entryPa_eq, Sv39.leafEntry_eq hpa hf]
    obtain ⟨halign, hlt⟩ := hpa
    have hword := Sv39.word_lt f hf
    simp only [sv39, pageSize] at hlt halign
    omega
  leaf_flags pa f hpa hf := by
    rw [Sv39.leafEntry_eq hpa hf]
    exact (Sv39.leafFlags_congr (by omega)).trans (Sv39.leafFlags_word f hf)

end CrickerOs.Paging

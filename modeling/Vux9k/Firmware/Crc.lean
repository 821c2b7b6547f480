import Mathlib.Data.List.Basic
import Mathlib.Logic.Function.Basic
import Vux9k.Firmware.Bytes

/-!
# CRC-32

The firmware has two builds of `crc32_update` (`fw_common/src/lib.rs`): the first stage's goes bit
by bit, the second stage's a nibble at a time from a table of sixteen words.  Files one of them
writes are checked by the other, so `crc32Update_nibbles` shows that the two are one function; the
rest of the development uses the bitwise one, `crc32Update`.

Everything rests on two facts about the one-bit step `crcBit`: it is linear in exclusive or
(`crcBit_xor`) and loses nothing (`crcBit_injective`, because the reflected polynomial has its top
bit set).  From the first comes the table; from both comes **burst detection**
(`crc32Update_burst_ne`): two inputs of the same length that differ only inside four consecutive
bytes never have the same CRC.  Up to four bytes are one 32-bit word that the register absorbs
whole (`crc32Update_eq_crcBits`), and what follows can only carry the difference along.
-/

set_option autoImplicit false

namespace Vux9k

/-! ## The two implementations -/

/-- The reflected polynomial. -/
def crcPoly : Word := 0xEDB88320#32

/-- One bit of the register. -/
def crcBit (crc : Word) : Word :=
  if crc &&& 1#32 ≠ 0#32 then (crc >>> 1) ^^^ crcPoly else crc >>> 1

/-- `n` bits: the inner `for` loop. -/
def crcBits : ℕ → Word → Word
  | 0, crc => crc
  | n + 1, crc => crcBits n (crcBit crc)

/-- One byte, bit by bit. -/
def crcByte (crc : Word) (b : Byte) : Word := crcBits 8 (crc ^^^ b.setWidth 32)

/-- `crc32_update` of the first stage: continue `crc` over `data`. -/
def crc32Update (data : List Byte) (crc : Word) : Word := data.foldl crcByte crc

/-- `CRC_NIBBLES`, evaluated by the compiler from the same one-bit step. -/
def crcNibbles (i : Fin 16) : Word := crcBits 4 (BitVec.ofNat 32 i)

/-- Half a byte from the table. -/
def crcNibble (crc : Word) : Word :=
  (crc >>> 4) ^^^ crcNibbles (Fin.ofNat 16 (crc &&& 0xF#32).toNat)

/-- `crc32_update` of the second stage (feature `fat-full`): two nibbles a byte. -/
def crc32UpdateNibbles (data : List Byte) (crc : Word) : Word :=
  data.foldl (fun crc b ↦ crcNibble (crcNibble (crc ^^^ b.setWidth 32))) crc

/-! ## The one-bit step -/

theorem crcBit_eq (x : Word) :
    crcBit x = if x.getLsbD 0 then (x >>> 1) ^^^ crcPoly else x >>> 1 := by
  rw [crcBit, BitVec.and_one_eq_setWidth_ofBool_getLsbD]
  cases x.getLsbD 0 <;> simp

private theorem xor_swap (a b p : Word) : a ^^^ p ^^^ (b ^^^ p) = a ^^^ b := by
  rw [BitVec.xor_assoc, ← BitVec.xor_assoc p, BitVec.xor_comm p b, BitVec.xor_assoc b,
    BitVec.xor_self, BitVec.xor_zero]

theorem crcBit_xor (x y : Word) : crcBit (x ^^^ y) = crcBit x ^^^ crcBit y := by
  simp only [crcBit_eq, BitVec.getLsbD_xor, BitVec.ushiftRight_xor_distrib]
  cases x.getLsbD 0 <;> cases y.getLsbD 0 <;> simp [xor_swap] <;> ac_rfl

/-- The register runs to zero only from zero: a shifted-out one leaves the polynomial's top bit. -/
theorem crcBit_eq_zero {x : Word} (h : crcBit x = 0#32) : x = 0#32 := by
  rw [crcBit_eq] at h
  cases h0 : x.getLsbD 0 with
  | true =>
    rw [h0, if_pos rfl] at h
    have h31 := congrArg (fun y : Word ↦ y.getLsbD 31) h
    simp [crcPoly] at h31
  | false =>
    rw [h0, if_neg (by simp)] at h
    apply BitVec.eq_of_getLsbD_eq
    intro i _
    cases i with
    | zero => simpa using h0
    | succ i =>
      have hi := congrArg (fun y : Word ↦ y.getLsbD i) h
      simpa [BitVec.getLsbD_ushiftRight, Nat.add_comm] using hi

theorem crcBit_injective : Function.Injective crcBit := by
  intro x y h
  have hz : crcBit (x ^^^ y) = 0#32 := by rw [crcBit_xor, h, BitVec.xor_self]
  exact BitVec.xor_eq_zero_iff.mp (crcBit_eq_zero hz)

theorem crcBits_xor (n : ℕ) (x y : Word) :
    crcBits n (x ^^^ y) = crcBits n x ^^^ crcBits n y := by
  induction n generalizing x y with
  | zero => rfl
  | succ n ih => rw [crcBits, crcBit_xor, ih, crcBits, crcBits]

theorem crcBits_injective (n : ℕ) : Function.Injective (crcBits n) := by
  induction n with
  | zero => exact fun _ _ h ↦ h
  | succ n ih => exact fun _ _ h ↦ crcBit_injective (ih h)

theorem crcBits_add (m n : ℕ) (x : Word) : crcBits (m + n) x = crcBits m (crcBits n x) := by
  induction n generalizing x with
  | zero => rfl
  | succ n ih => rw [← Nat.add_assoc, crcBits, ih, crcBits]

/-- A register whose low `n` bits are clear only moves down through `n` steps. -/
theorem crcBits_of_low_clear {n : ℕ} {x : Word} (hx : ∀ i < n, x.getLsbD i = false) :
    crcBits n x = x >>> n := by
  induction n generalizing x with
  | zero => simp [crcBits]
  | succ n ih =>
    have h0 : crcBit x = x >>> 1 := by
      rw [crcBit_eq, hx 0 (by omega), if_neg (by simp)]
    rw [crcBits, h0, ih, ← BitVec.shiftRight_add, Nat.add_comm]
    intro i hi
    simpa [BitVec.getLsbD_ushiftRight] using hx (1 + i) (by omega)

/-! ## The table -/

private theorem nibble_split (x : Word) : x = (x &&& 0xF#32) ^^^ (x &&& ~~~0xF#32) := by
  ext i
  simp only [BitVec.getElem_xor, BitVec.getElem_and, BitVec.getElem_not]
  cases x[i] <;> cases (0xF#32)[i] <;> rfl

private theorem getLsbD_fifteen (i : ℕ) : (0xF#32).getLsbD i = decide (i < 4) := by
  have h : (0xF : ℕ).testBit i = decide (i < 4) := by
    rw [show (0xF : ℕ) = 2 ^ 4 - 1 by rfl, Nat.testBit_two_pow_sub_one]
  rw [BitVec.getLsbD_ofNat, h]
  by_cases hi : i < 4
  · simp [hi]; omega
  · simp [hi]

private theorem high_shift (x : Word) : (x &&& ~~~0xF#32) >>> 4 = x >>> 4 := by
  apply BitVec.eq_of_getLsbD_eq
  intro i _
  simp only [BitVec.getLsbD_ushiftRight, BitVec.getLsbD_and, BitVec.getLsbD_not, getLsbD_fifteen]
  by_cases h : 4 + i < 32
  · simp [h]
  · simp [BitVec.getLsbD_of_ge x (4 + i) (by omega)]

theorem crcNibble_eq_crcBits (x : Word) : crcNibble x = crcBits 4 x := by
  have hlow : crcBits 4 (x &&& ~~~0xF#32) = x >>> 4 := by
    rw [crcBits_of_low_clear, high_shift]
    intro i hi
    rw [BitVec.getLsbD_and, BitVec.getLsbD_not, getLsbD_fifteen]
    simp [hi]
  have hidx : crcNibbles (Fin.ofNat 16 (x &&& 0xF#32).toNat) = crcBits 4 (x &&& 0xF#32) := by
    have hlt : (x &&& 0xF#32).toNat < 16 := by
      rw [BitVec.toNat_and]
      exact Nat.lt_of_le_of_lt Nat.and_le_right (by decide)
    rw [crcNibbles, Fin.val_ofNat, Nat.mod_eq_of_lt hlt]
    simp
  conv_rhs => rw [nibble_split x]
  rw [crcBits_xor, hlow, crcNibble, hidx, BitVec.xor_comm]

/-- **The two builds agree**: the second stage's table gives the first stage's CRC, from every
register value and over every input. -/
theorem crc32Update_nibbles (data : List Byte) (crc : Word) :
    crc32UpdateNibbles data crc = crc32Update data crc := by
  have hstep : (fun (crc : Word) (b : Byte) ↦ crcNibble (crcNibble (crc ^^^ b.setWidth 32)))
      = crcByte := by
    funext crc b
    rw [crcNibble_eq_crcBits, crcNibble_eq_crcBits, ← crcBits_add, crcByte]
  rw [crc32UpdateNibbles, crc32Update, hstep]

/-! ## Pieces and bursts -/

@[simp]
theorem crc32Update_nil (crc : Word) : crc32Update [] crc = crc := rfl

@[simp]
theorem crc32Update_cons (b : Byte) (data : List Byte) (crc : Word) :
    crc32Update (b :: data) crc = crc32Update data (crcByte crc b) := rfl

/-- A file may be fed in pieces. -/
theorem crc32Update_append (a b : List Byte) (crc : Word) :
    crc32Update (a ++ b) crc = crc32Update b (crc32Update a crc) :=
  List.foldl_append

theorem crc32Update_injective (data : List Byte) : Function.Injective (crc32Update data) := by
  induction data with
  | nil => exact fun _ _ h ↦ h
  | cons b data ih =>
    intro x y h
    have h' := crcBits_injective 8 (ih h)
    simpa using congrArg (· ^^^ b.setWidth 32) h'

/-- Up to four bytes as one little-endian word. -/
def packLe : List Byte → Word
  | [] => 0#32
  | b :: w => b.setWidth 32 ^^^ (packLe w <<< 8)

theorem packLe_getLsbD_of_le {w : List Byte} {i : ℕ} (h : 8 * w.length ≤ i) :
    (packLe w).getLsbD i = false := by
  induction w generalizing i with
  | nil => simp [packLe]
  | cons b w ih =>
    rw [List.length_cons] at h
    have hb : b.getLsbD i = false := BitVec.getLsbD_of_ge b i (by omega)
    have hw : (packLe w).getLsbD (i - 8) = false := ih (by omega)
    simp [packLe, hb, hw]

/-- Undoing the shift by a byte, when nothing fell off the top. -/
theorem shl_shr_packLe {w : List Byte} (h : w.length ≤ 3) : (packLe w <<< 8) >>> 8 = packLe w := by
  apply BitVec.eq_of_getLsbD_eq
  intro i hi
  simp only [BitVec.getLsbD_ushiftRight, BitVec.getLsbD_shiftLeft]
  by_cases h8 : 8 + i < 32
  · simp [h8]
  · simp [h8, packLe_getLsbD_of_le (w := w) (i := i) (by omega)]

/-- **The register absorbs up to four bytes as one word.** -/
theorem crc32Update_eq_crcBits {w : List Byte} (h : w.length ≤ 4) (crc : Word) :
    crc32Update w crc = crcBits (8 * w.length) (crc ^^^ packLe w) := by
  induction w generalizing crc with
  | nil => simp [crcBits, packLe]
  | cons b w ih =>
    rw [List.length_cons] at h
    have hshift : crcBits 8 (packLe w <<< 8) = packLe w := by
      rw [crcBits_of_low_clear, shl_shr_packLe (by omega)]
      intro i hi
      simp [hi]
    rw [crc32Update_cons, ih (by omega), crcByte, List.length_cons, Nat.mul_succ, crcBits_add,
      packLe, ← BitVec.xor_assoc, crcBits_xor 8 (crc ^^^ b.setWidth 32), hshift]

theorem packLe_injective {w w' : List Byte} (hlen : w.length = w'.length) (h4 : w.length ≤ 4)
    (h : packLe w = packLe w') : w = w' := by
  induction w generalizing w' with
  | nil => exact (List.eq_nil_of_length_eq_zero hlen.symm).symm
  | cons b w ih =>
    cases w' with
    | nil => simp at hlen
    | cons b' w' =>
      rw [List.length_cons] at h4
      rw [List.length_cons, List.length_cons, Nat.add_right_cancel_iff] at hlen
      have hb : b = b' := by
        apply BitVec.eq_of_getLsbD_eq
        intro i hi
        have hbit := congrArg (fun x : Word ↦ x.getLsbD i) h
        simpa [packLe, hi, show i < 32 by omega] using hbit
      subst hb
      have hsh : packLe w <<< 8 = packLe w' <<< 8 := by
        simpa [packLe] using h
      have hw : packLe w = packLe w' := by
        rw [← shl_shr_packLe (w := w) (by omega), hsh, shl_shr_packLe (by omega)]
      rw [ih hlen (by omega) hw]

/-- **Burst detection.**  Two inputs that share everything but at most four consecutive bytes, and
differ there, have different CRCs, whatever came before and whatever follows. -/
theorem crc32Update_burst_ne {pre w w' post : List Byte} (hlen : w.length = w'.length)
    (h4 : w.length ≤ 4) (hne : w ≠ w') (crc : Word) :
    crc32Update (pre ++ w ++ post) crc ≠ crc32Update (pre ++ w' ++ post) crc := by
  intro h
  rw [crc32Update_append, crc32Update_append, crc32Update_append, crc32Update_append] at h
  have hw := crc32Update_injective post h
  rw [crc32Update_eq_crcBits (w := w) h4, crc32Update_eq_crcBits (w := w') (by omega), hlen] at hw
  have hpack : packLe w = packLe w' := by
    simpa using crcBits_injective _ hw
  exact hne (packLe_injective hlen h4 hpack)

/-- The CRC of a whole file: from all ones, inverted at the end (`zlib`'s and `binascii`'s
`crc32`). -/
def crc32 (data : List Byte) : Word := crc32Update data 0xFFFFFFFF#32 ^^^ 0xFFFFFFFF#32

theorem crc32_burst_ne {pre w w' post : List Byte} (hlen : w.length = w'.length)
    (h4 : w.length ≤ 4) (hne : w ≠ w') : crc32 (pre ++ w ++ post) ≠ crc32 (pre ++ w' ++ post) := by
  intro h
  have hupdate : crc32Update (pre ++ w ++ post) 0xFFFFFFFF#32 =
      crc32Update (pre ++ w' ++ post) 0xFFFFFFFF#32 := by
    simpa [crc32] using h
  exact crc32Update_burst_ne hlen h4 hne 0xFFFFFFFF#32 hupdate

/-- The check value of the CRC-32 catalogues: the CRC of the nine digits. -/
example : crc32 [0x31, 0x32, 0x33, 0x34, 0x35, 0x36, 0x37, 0x38, 0x39] = 0xCBF43926#32 := by
  decide +kernel

end Vux9k

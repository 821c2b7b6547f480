import Vux9k.Firmware.Crc
import Vux9k.Lib.ShiftRegister

/-!
# What the CRC is

The CRC-32 of a file is the remainder of its bits, each byte's lowest first, by the polynomial
`0x04C11DB7`, with the first 32 bits and the remainder inverted.  `reflectedCrc32` says it so; the
two builds of `crc32_update` are a shift register that computes it.
-/

set_option autoImplicit false

open Polynomial

namespace Vux9k

/-- The polynomial `0x04C11DB7`, bit `i` the coefficient of `X ^ i`, and `X ^ 32`. -/
noncomputable def crcGenerator : (ZMod 2)[X] :=
  X ^ 32 + ∑ i ∈ Finset.range 32, ShiftRegister.coeffOf ((0x04C11DB7#32).getLsbD i) * X ^ i

/-- The remainder of a file, behind 32 ones. -/
noncomputable def crcRemainder (data : List Byte) : (ZMod 2)[X] :=
  (X ^ (8 * data.length) * ∑ i ∈ Finset.range 32, X ^ i + X ^ 32 * ShiftRegister.message data) %ₘ
    crcGenerator

/-- The reflected CRC-32: the remainder with the highest power in bit 0, inverted. -/
noncomputable def reflectedCrc32 (data : List Byte) : Word :=
  ~~~ShiftRegister.register 32 (crcRemainder data)

/-- The reflected polynomial's bits are the polynomial's, the other way round. -/
theorem generator_crcPoly : ShiftRegister.generator crcPoly = crcGenerator := by
  have hbits : ∀ i < 32, crcPoly.getLsbD i = (0x04C11DB7#32).getLsbD (32 - 1 - i) := by decide
  rw [ShiftRegister.generator, crcGenerator, ShiftRegister.poly, ← Finset.sum_range_reflect]
  refine congrArg (X ^ 32 + ·) (Finset.sum_congr rfl fun i hi ↦ ?_)
  rw [Finset.mem_range] at hi
  rw [hbits _ (by omega), show 32 - 1 - (32 - 1 - i) = i by omega]

theorem poly_ones : ShiftRegister.poly 0xFFFFFFFF#32 = ∑ i ∈ Finset.range 32, X ^ i := by
  have hbits : ∀ i < 32, (0xFFFFFFFF#32).getLsbD i = true := by decide
  rw [ShiftRegister.poly, ← Finset.sum_range_reflect]
  refine Finset.sum_congr rfl fun i hi ↦ ?_
  rw [Finset.mem_range] at hi
  rw [hbits _ (by omega), ShiftRegister.coeffOf, if_pos rfl, one_mul,
    show 32 - 1 - (32 - 1 - i) = i by omega]

theorem crcBits_eq_steps (n : ℕ) (x : Word) : crcBits n x = ShiftRegister.steps crcPoly n x := by
  induction n generalizing x with
  | zero => rfl
  | succ n ih => rw [crcBits, ih, crcBit_eq, ShiftRegister.steps, ShiftRegister.step]

theorem crc32Update_eq_register (data : List Byte) (crc : Word) :
    crc32Update data crc = data.foldl (ShiftRegister.absorb crcPoly) crc := by
  have hbyte : crcByte = ShiftRegister.absorb crcPoly := by
    funext crc b
    exact crcBits_eq_steps 8 _
  rw [crc32Update, hbyte]

theorem crc32_eq_reflected (data : List Byte) : crc32 data = reflectedCrc32 data := by
  have hones (x : Word) : x ^^^ 0xFFFFFFFF#32 = ~~~x := BitVec.xor_allOnes
  rw [crc32, crc32Update_eq_register, ShiftRegister.foldl_absorb_eq _ _ _ (by decide),
    generator_crcPoly, poly_ones, hones]
  rfl

/-- **The two CRC-32 implementations are one function**, which takes its input in any pieces, and it
is the reflected CRC-32 of the polynomial `0x04C11DB7`. -/
theorem crc32_one_function :
    (∀ (data : List Byte) (crc : Word), crc32UpdateNibbles data crc = crc32Update data crc) ∧
      (∀ (a b : List Byte) (crc : Word),
        crc32Update (a ++ b) crc = crc32Update b (crc32Update a crc) ∧
        crc32UpdateNibbles (a ++ b) crc = crc32UpdateNibbles b (crc32UpdateNibbles a crc)) ∧
      ∀ data : List Byte, ~~~crc32Update data 0xFFFFFFFF#32 = reflectedCrc32 data ∧
        ~~~crc32UpdateNibbles data 0xFFFFFFFF#32 = reflectedCrc32 data := by
  have hinverted (data : List Byte) : ~~~crc32Update data 0xFFFFFFFF#32 = reflectedCrc32 data := by
    rw [← crc32_eq_reflected, crc32]
    exact BitVec.xor_allOnes.symm
  refine ⟨crc32Update_nibbles, fun a b crc ↦ ⟨crc32Update_append a b crc, ?_⟩,
    fun data ↦ ⟨hinverted data, ?_⟩⟩
  · rw [crc32Update_nibbles, crc32Update_nibbles, crc32Update_nibbles, crc32Update_append]
  · rw [crc32Update_nibbles, hinverted]

end Vux9k

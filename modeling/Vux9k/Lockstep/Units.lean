import Vux9k.Lockstep.Decode

/-!
# The same operations

What the RTL's units compute with adders, masks and byte lanes is what the emulator computes with
the host's operators.
-/

set_option autoImplicit false

namespace Vux9k

/-! ## `rv32i_alu` -/

theorem getLsbD_eq_decide {w : ℕ} (a : BitVec w) (k : ℕ) :
    a.getLsbD k = decide (a.toNat / 2 ^ k % 2 = 1) := by
  rw [← BitVec.testBit_toNat, Nat.testBit_eq_decide_div_mod_eq]

theorem bit_eq (c : Bool) : Rtl.bit c = Emu.toU32 c := by
  cases c <;> rfl

/-- The adder with carry in and one operand inverted subtracts. -/
theorem sum33_sub (a b : Word) : (a.setWidth 33 + (~~~b).setWidth 33 + 1#33 : BitVec 33).toNat =
    a.toNat + (2 ^ 32 - b.toNat) := by
  have ha := a.isLt
  have hb := b.isLt
  simp only [BitVec.toNat_add, BitVec.toNat_setWidth, BitVec.toNat_ofNat, BitVec.toNat_not]
  omega

theorem alu_add (a b : Word) : Rtl.alu a b .add = a + b := by
  apply BitVec.eq_of_toNat_eq
  simp [Rtl.alu, BitVec.extractLsb'_toNat]

theorem alu_sub (a b : Word) : Rtl.alu a b .sub = a - b := by
  apply BitVec.eq_of_toNat_eq
  change ((a.setWidth 33 + (~~~b).setWidth 33 + 1#33 : BitVec 33).extractLsb' 0 32).toNat = _
  rw [BitVec.extractLsb'_toNat, sum33_sub, BitVec.toNat_sub, Nat.shiftRight_zero]
  have hb := b.isLt
  omega

theorem alu_sltu (a b : Word) : Rtl.alu a b .sltu = Emu.toU32 (a.ult b) := by
  have ha := a.isLt
  have hb := b.isLt
  -- the carry out says that nothing had to be borrowed
  have hbit : (a.setWidth 33 + (~~~b).setWidth 33 + 1#33 : BitVec 33).getLsbD 32 = !a.ult b := by
    rw [getLsbD_eq_decide, sum33_sub, BitVec.ult, Bool.eq_iff_iff]
    simp only [decide_eq_true_eq, Bool.not_eq_true', decide_eq_false_iff_not]
    omega
  change Rtl.bit (!(a.setWidth 33 + (~~~b).setWidth 33 + 1#33 : BitVec 33).getLsbD 32) = _
  rw [hbit, Bool.not_not, bit_eq]

/-- The signed comparison by sign bits, where they differ, and else unsigned. -/
theorem signed_lt (a b : Word) :
    (if a.getLsbD 31 ≠ b.getLsbD 31 then a.getLsbD 31 else a.ult b) = a.slt b := by
  have ha : a.msb = a.getLsbD 31 := BitVec.msb_eq_getLsbD_last a
  have hb : b.msb = b.getLsbD 31 := BitVec.msb_eq_getLsbD_last b
  rw [← ha, ← hb]
  split
  next h =>
    rw [BitVec.slt_eq_not_ult_of_msb_neq h, BitVec.ult_eq_msb_of_msb_neq h]
    cases ham : a.msb <;> cases hbm : b.msb <;> simp_all
  next h => rw [BitVec.slt_eq_ult_of_msb_eq (not_not.mp h)]

theorem alu_slt (a b : Word) : Rtl.alu a b .slt = Emu.toU32 (a.slt b) := by
  have ha := a.isLt
  have hb := b.isLt
  rw [← signed_lt]
  change Rtl.bit (if a.getLsbD 31 ≠ b.getLsbD 31 then a.getLsbD 31
    else (a.setWidth 33 + (~~~b).setWidth 33 + 1#33 : BitVec 33).getLsbD 31) = _
  rw [bit_eq]
  congr 1
  split
  · rfl
  next h =>
    -- with equal signs the difference is in range, and its sign is the comparison
    rw [not_not] at h
    simp only [getLsbD_eq_decide] at h ⊢
    rw [sum33_sub, BitVec.ult, Bool.eq_iff_iff]
    simp only [decide_eq_true_eq, decide_eq_decide] at h ⊢
    omega

theorem alu_sra (a b : Word) : Rtl.alu a b .sra = a.sshiftRight (b.extractLsb' 0 5).toNat := by
  change (if a.getLsbD 31 then a >>> (b.extractLsb' 0 5).toNat |||
    ~~~(0xFFFFFFFF#32 >>> (b.extractLsb' 0 5).toNat) else a >>> (b.extractLsb' 0 5).toNat) = _
  generalize (b.extractLsb' 0 5).toNat = n
  apply BitVec.eq_of_getLsbD_eq
  intro j hj
  rw [BitVec.getLsbD_sshiftRight, BitVec.msb_eq_getLsbD_last]
  have hones : (0xFFFFFFFF#32).getLsbD (n + j) = decide (n + j < 32) := by
    rw [show 0xFFFFFFFF#32 = BitVec.allOnes 32 from rfl, BitVec.getLsbD_allOnes]
  by_cases hneg : a.getLsbD 31 = true
  · rw [if_pos hneg]
    simp only [BitVec.getLsbD_or, BitVec.getLsbD_ushiftRight, BitVec.getLsbD_not, hones, hneg]
    by_cases hlt : n + j < 32 <;> simp [hlt, hj]
  · rw [if_neg hneg]
    rw [Bool.not_eq_true] at hneg
    simp only [BitVec.getLsbD_ushiftRight, hneg]
    by_cases hlt : n + j < 32
    · simp [hlt, hj]
    · simp [hlt, BitVec.getLsbD_of_ge a (n + j) (by omega)]

theorem shiftAmount (b : Word) : (b &&& 31#32).toNat = (b.extractLsb' 0 5).toNat := by
  rw [BitVec.toNat_and, BitVec.extractLsb'_toNat, Nat.shiftRight_zero]
  exact Nat.and_two_pow_sub_one_eq_mod _ 5

theorem bitVec3_cases (f : BitVec 3) : f = 0#3 ∨ f = 1#3 ∨ f = 2#3 ∨ f = 3#3 ∨ f = 4#3 ∨ f = 5#3 ∨
    f = 6#3 ∨ f = 7#3 := by
  revert f
  decide

theorem emu_funct3_toNat (i : Word) : (Emu.funct3 i).toNat = (Rtl.funct3 i).toNat := by
  rw [emu_funct3, BitVec.toNat_setWidth]
  have := (Rtl.funct3 i).isLt
  omega

/-- **OP and OP-IMM.**  `SUB` is told from `ADD` by the whole `funct7` in one and by a bit of it in
the other. -/
theorem aluValue_eq {i : Word} (hop : Rtl.opcode i = .rType ∨ Rtl.opcode i = .iType)
    (h7 : Rtl.opcode i = .rType → Rtl.funct7 i = 0x20#7 ∨ (Rtl.funct7 i).getLsbD 5 = false)
    (x1 b : Word) : Emu.aluValue i x1 b =
      Rtl.alu x1 b (Rtl.rvAluOp (Rtl.opcode i) (Rtl.funct3 i) (Rtl.funct7 i)) := by
  have hsub : (decide (Emu.op i = .reg) && decide (Emu.funct7 i = 0x20#32)) =
      (decide (Rtl.opcode i = .rType) && (Rtl.funct7 i).getLsbD 5) := by
    rw [emu_op, emu_funct7]
    rcases hop with hop | hop
    · have h := h7 hop
      rw [hop]
      generalize Rtl.funct7 i = f7 at h ⊢
      revert f7
      decide
    · rw [hop]
      rfl
  have hsra : (decide (Emu.funct7 i &&& 0x20#32 ≠ 0#32)) = (Rtl.funct7 i).getLsbD 5 := by
    rw [emu_funct7]
    generalize Rtl.funct7 i = f7
    revert f7
    decide
  unfold Emu.aluValue Rtl.rvAluOp
  simp only [hsub, emu_funct3_toNat, shiftAmount]
  rcases bitVec3_cases (Rtl.funct3 i) with h | h | h | h | h | h | h | h <;> rw [h]
  · change (if _ then x1 - b else x1 + b) = Rtl.alu x1 b (if _ then .sub else .add)
    split
    · rw [alu_sub]
    · rw [alu_add]
  · rfl
  · exact (alu_slt x1 b).symm
  · exact (alu_sltu x1 b).symm
  · rfl
  · change (if Emu.funct7 i &&& 0x20#32 ≠ 0#32 then _ else _) =
      Rtl.alu x1 b (if _ then .sra else .srl)
    rw [← hsra]
    by_cases hbit : Emu.funct7 i &&& 0x20#32 = 0#32
    · rw [if_neg (not_not.mpr hbit), if_neg (by simpa using hbit)]
      rfl
    · rw [if_pos hbit, if_pos (by simpa using hbit), alu_sra]
  · rfl
  · rfl

/-! ## `next_pc_unit` -/

theorem branchTake_eq {i : Word} (hf : Rtl.funct3 i ≠ 2#3 ∧ Rtl.funct3 i ≠ 3#3) (x1 x2 : Word) :
    Emu.branchTake i x1 x2 = Rtl.branchTake (Rtl.funct3 i) x1 x2 := by
  unfold Emu.branchTake Rtl.branchTake
  simp only [signed_lt, emu_funct3_toNat]
  rcases bitVec3_cases (Rtl.funct3 i) with h | h | h | h | h | h | h | h
  · rw [h]
    rfl
  · rw [h]
    exact decide_not
  · exact absurd h hf.1
  · exact absurd h hf.2
  all_goals
    rw [h]
    rfl

/-! ## Addresses -/

theorem and_low (a : Word) (n : ℕ) (hn : n ≤ 32) :
    a &&& BitVec.ofNat 32 (2 ^ n - 1) = (a.extractLsb' 0 n).setWidth 32 := by
  apply BitVec.eq_of_toNat_eq
  have hle : 2 ^ n ≤ 2 ^ 32 := Nat.pow_le_pow_right (by decide) hn
  have hpos := Nat.two_pow_pos n
  rw [BitVec.toNat_and, BitVec.toNat_ofNat, Nat.mod_eq_of_lt (by omega),
    Nat.and_two_pow_sub_one_eq_mod, BitVec.toNat_setWidth, BitVec.extractLsb'_toNat,
    Nat.shiftRight_zero, Nat.mod_eq_of_lt ((Nat.mod_lt _ hpos).trans_le hle)]

theorem misaligned_eq (a : Word) (f3 : BitVec 3) : Emu.misaligned a (f3.setWidth 32) =
    match (f3.extractLsb' 0 2).toNat with
    | 0b01 => (a.extractLsb' 0 2).getLsbD 0
    | 0b10 => a.extractLsb' 0 2 ≠ 0b00#2
    | _ => false := by
  have h1 : a &&& 1#32 = ((a.extractLsb' 0 2).setWidth 32) &&& 1#32 := by
    rw [← and_low a 2 (by decide), BitVec.and_assoc]
    rfl
  have h3 : a &&& 3#32 = (a.extractLsb' 0 2).setWidth 32 := and_low a 2 (by decide)
  unfold Emu.misaligned
  rw [h1, h3]
  generalize a.extractLsb' 0 2 = low
  revert f3 low
  decide

theorem target_and_two (a : Word) :
    (a &&& 2#32 ≠ 0#32) = ((a.extractLsb' 0 2).getLsbD 1 = true) := by
  have h : a &&& 2#32 = ((a.extractLsb' 0 2).setWidth 32) &&& 2#32 := by
    rw [← and_low a 2 (by decide), BitVec.and_assoc]
    rfl
  rw [h]
  generalize a.extractLsb' 0 2 = low
  revert low
  decide

/-! ## `rv32i_lsu` -/

theorem storeLanes_eq (f3 : BitVec 3) (addr x2 : Word) :
    Emu.storeLanes (f3.setWidth 32) addr x2 =
      (Rtl.storeData f3 x2, Rtl.storeWe f3 (addr.extractLsb' 0 2)) := by
  have h3 : addr &&& 3#32 = (addr.extractLsb' 0 2).setWidth 32 := and_low addr 2 (by decide)
  have hbyte : (x2 &&& 0xFF#32) * 0x01010101#32 = x2.extractLsb' 0 8 ++ x2.extractLsb' 0 8 ++
      x2.extractLsb' 0 8 ++ x2.extractLsb' 0 8 := by
    rw [show x2 &&& 0xFF#32 = (x2.extractLsb' 0 8).setWidth 32 from and_low x2 8 (by decide)]
    generalize x2.extractLsb' 0 8 = b
    revert b
    decide
  have hhalf : (x2 &&& 0xFFFF#32) * 0x00010001#32 = x2.extractLsb' 0 16 ++ x2.extractLsb' 0 16 := by
    rw [show x2 &&& 0xFFFF#32 = (x2.extractLsb' 0 16).setWidth 32 from and_low x2 16 (by decide)]
    apply BitVec.eq_of_toNat_eq
    have hlt := (x2.extractLsb' 0 16).isLt
    rw [BitVec.toNat_append, ← Nat.shiftLeft_add_eq_or_of_lt hlt, Nat.shiftLeft_eq,
      BitVec.toNat_mul, BitVec.toNat_setWidth, BitVec.toNat_ofNat]
    omega
  unfold Emu.storeLanes Rtl.storeData Rtl.storeWe
  simp only [hbyte, hhalf, h3]
  generalize addr.extractLsb' 0 2 = low
  have hwe : ∀ low : BitVec 2, 1#4 <<< (low.setWidth 32).toNat = Rtl.storeWe 0#3 low := by decide
  have hwe16 : ∀ low : BitVec 2, (if low.setWidth 32 &&& 2#32 = 0#32 then 0b0011#4 else 0b1100#4) =
      Rtl.storeWe 1#3 low := by decide
  rcases bitVec3_cases f3 with h | h | h | h | h | h | h | h <;> rw [h]
  · exact Prod.ext rfl (hwe low)
  · exact Prod.ext rfl (hwe16 low)
  all_goals rfl

theorem loadValue_eq (f3 : BitVec 3) (addr w : Word) :
    Emu.loadValue (f3.setWidth 32) addr w = Rtl.loadVal f3 (addr.extractLsb' 0 2) w := by
  have h3 : addr &&& 3#32 = (addr.extractLsb' 0 2).setWidth 32 := and_low addr 2 (by decide)
  have hbyte : ∀ n, w >>> n &&& 0xFF#32 = (w.extractLsb' n 8).setWidth 32 := by
    intro n
    exact and_low (w >>> n) 8 (by decide)
  have hhalf : ∀ n, w >>> n &&& 0xFFFF#32 = (w.extractLsb' n 16).setWidth 32 := by
    intro n
    exact and_low (w >>> n) 16 (by decide)
  have hlow : ∀ low : BitVec 2, low = 0#2 ∨ low = 1#2 ∨ low = 2#2 ∨ low = 3#2 := by decide
  unfold Emu.loadValue
  simp only [h3, hbyte, hhalf]
  rcases hlow (addr.extractLsb' 0 2) with hl | hl | hl | hl <;>
    rcases bitVec3_cases f3 with h | h | h | h | h | h | h | h <;> rw [hl, h] <;> rfl

/-! ## `rv32a_unit` -/

/-- The `funct5` of an operation. -/
def Emu.AmoOp.code : Emu.AmoOp → BitVec 5
  | .add => 0x00#5
  | .swap => 0x01#5
  | .lr => 0x02#5
  | .sc => 0x03#5
  | .xor => 0x04#5
  | .or => 0x08#5
  | .and => 0x0C#5
  | .min => 0x10#5
  | .max => 0x14#5
  | .minu => 0x18#5
  | .maxu => 0x1C#5

theorem code_of_amoOp {f5 : BitVec 5} {a : Emu.AmoOp}
    (ha : Emu.AmoOp.of (f5.setWidth 32) = some a) : f5 = a.code := by
  revert f5
  cases a <;> decide

/-- The smaller of two, by whichever side is asked first; the greater likewise. -/
theorem ite_lt_comm {β : Type} [LinearOrder β] {f : Word → β} (hf : Function.Injective f)
    (a b : Word) : (if f a < f b then a else b) = (if f b < f a then b else a) ∧
      (if f a < f b then b else a) = (if f b < f a then a else b) := by
  rcases lt_trichotomy (f a) (f b) with h | h | h
  · simp [h, h.le.not_gt]
  · simp [hf h]
  · simp [h, h.le.not_gt]

theorem slt_comm (a b : Word) : (if a.slt b then a else b) = (if b.slt a then b else a) ∧
    (if a.slt b then b else a) = (if b.slt a then a else b) := by
  simp only [BitVec.slt_iff_toInt_lt]
  exact ite_lt_comm (f := BitVec.toInt) (fun _ _ ↦ BitVec.eq_of_toInt_eq) a b

theorem ult_comm (a b : Word) : (if a.ult b then a else b) = (if b.ult a then b else a) ∧
    (if a.ult b then b else a) = (if b.ult a then a else b) := by
  simp only [BitVec.ult_iff_toNat_lt]
  exact ite_lt_comm (f := BitVec.toNat) (fun _ _ ↦ BitVec.eq_of_toNat_eq) a b

/-- **An AMO's new value.** -/
theorem amoValue_eq {a : Emu.AmoOp} (hlr : a ≠ .lr) (hsc : a ≠ .sc) (old src : Word) :
    Emu.amoValue a old src =
      Rtl.amoNew a.code old src (Rtl.alu old src (Rtl.amoAluOp a.code)) := by
  have hbit : ∀ c : Bool, (Emu.toU32 c).getLsbD 0 = c := by decide
  cases a with
  | lr => exact absurd rfl hlr
  | sc => exact absurd rfl hsc
  | add => exact (alu_add old src).symm
  | swap => rfl
  | xor => rfl
  | or => rfl
  | and => rfl
  | min =>
    change _ = if (Rtl.alu old src .slt).getLsbD 0 ≠ false then old else src
    rw [alu_slt, hbit]
    simpa [Emu.amoValue] using (slt_comm old src).1.symm
  | max =>
    change _ = if (Rtl.alu old src .slt).getLsbD 0 ≠ true then old else src
    rw [alu_slt, hbit, ite_not]
    exact (slt_comm old src).2.symm
  | minu =>
    change _ = if (Rtl.alu old src .sltu).getLsbD 0 ≠ false then old else src
    rw [alu_sltu, hbit]
    simpa [Emu.amoValue] using (ult_comm old src).1.symm
  | maxu =>
    change _ = if (Rtl.alu old src .sltu).getLsbD 0 ≠ true then old else src
    rw [alu_sltu, hbit, ite_not]
    exact (ult_comm old src).2.symm

end Vux9k

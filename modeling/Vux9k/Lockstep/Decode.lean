import Mathlib.Tactic.IntervalCases
import Vux9k.Emu.Soc
import Vux9k.Rtl.Cpu

/-!
# One decoder

The RTL slices the instruction word, the emulator shifts and masks it.  Field by field, immediate by
immediate and in what is illegal, they read the same instruction.
-/

set_option autoImplicit false

namespace Vux9k

variable (i : Word)

/-! ## Fields -/

theorem emu_rd : Emu.rd i = Rtl.rd i := by
  apply BitVec.eq_of_getLsbD_eq
  intro j hj
  unfold Emu.rd Rtl.rd
  interval_cases j <;> simp

theorem emu_rs1 : Emu.rs1 i = Rtl.rs1 i := by
  apply BitVec.eq_of_getLsbD_eq
  intro j hj
  unfold Emu.rs1 Rtl.rs1
  interval_cases j <;> simp

theorem emu_rs2 : Emu.rs2 i = Rtl.rs2 i := by
  apply BitVec.eq_of_getLsbD_eq
  intro j hj
  unfold Emu.rs2 Rtl.rs2
  interval_cases j <;> simp

theorem emu_funct3 : Emu.funct3 i = (Rtl.funct3 i).setWidth 32 := by
  apply BitVec.eq_of_getLsbD_eq
  intro j hj
  unfold Emu.funct3 Rtl.funct3
  interval_cases j <;> simp

theorem emu_funct7 : Emu.funct7 i = (Rtl.funct7 i).setWidth 32 := by
  apply BitVec.eq_of_getLsbD_eq
  intro j hj
  unfold Emu.funct7 Rtl.funct7
  interval_cases j <;> simp

theorem emu_funct5 : i >>> 27 = (Rtl.funct5 i).setWidth 32 := by
  apply BitVec.eq_of_getLsbD_eq
  intro j hj
  unfold Rtl.funct5
  interval_cases j <;> simp

theorem emu_csrAddr : Emu.csrAddr i = (Rtl.csrAddr i).setWidth 16 := by
  apply BitVec.eq_of_getLsbD_eq
  intro j hj
  unfold Emu.csrAddr Rtl.csrAddr
  interval_cases j <;> simp

theorem emu_uimm : (Emu.rs1 i).setWidth 32 = Rtl.uimm i := by
  rw [emu_rs1]
  rfl

/-- The emulator's name of an opcode. -/
def Rtl.Opcode.toEmu : Rtl.Opcode → Emu.Op
  | .rType => .reg
  | .iType => .imm
  | .load => .load
  | .store => .store
  | .branch => .branch
  | .jal => .jal
  | .jalr => .jalr
  | .lui => .lui
  | .auipc => .auipc
  | .system => .system
  | .fence => .fence
  | .amo => .amo
  | .other => .other

theorem emu_op : Emu.op i = (Rtl.opcode i).toEmu := by
  have hmask : i &&& 0x7F#32 = (i.extractLsb' 0 7).setWidth 32 := by
    apply BitVec.eq_of_getLsbD_eq
    intro j hj
    interval_cases j <;> simp
  unfold Emu.op Rtl.opcode
  rw [hmask]
  generalize i.extractLsb' 0 7 = b
  revert b
  decide

/-! ## Immediates -/

theorem emu_immI : (i.extractLsb' 20 12).signExtend 32 = Emu.immI i := by
  apply BitVec.eq_of_getLsbD_eq
  intro j hj
  unfold Emu.immI
  interval_cases j <;>
    simp [BitVec.getElem_signExtend, BitVec.getElem_sshiftRight, BitVec.msb_eq_getLsbD_last]

theorem imm_store (h : Rtl.opcode i = .store) : Rtl.imm i = Emu.immS i := by
  rw [Rtl.imm, h]
  apply BitVec.eq_of_getLsbD_eq
  intro j hj
  unfold Emu.immS
  simp only [-Nat.reduceAdd, BitVec.getLsbD_signExtend, BitVec.getLsbD_append, BitVec.msb_append]
  interval_cases j <;> simp [BitVec.getElem_sshiftRight, BitVec.msb_eq_getLsbD_last]

theorem imm_branch (h : Rtl.opcode i = .branch) : Rtl.imm i = Emu.immB i := by
  rw [Rtl.imm, h]
  apply BitVec.eq_of_getLsbD_eq
  intro j hj
  unfold Emu.immB
  simp only [-Nat.reduceAdd, BitVec.getLsbD_signExtend, BitVec.getLsbD_append, BitVec.msb_append]
  interval_cases j <;> simp [BitVec.getElem_sshiftRight, BitVec.msb_eq_getLsbD_last]

theorem imm_jal (h : Rtl.opcode i = .jal) : Rtl.imm i = Emu.immJ i := by
  rw [Rtl.imm, h]
  apply BitVec.eq_of_getLsbD_eq
  intro j hj
  unfold Emu.immJ
  simp only [-Nat.reduceAdd, BitVec.getLsbD_signExtend, BitVec.getLsbD_append, BitVec.msb_append]
  interval_cases j <;> simp [BitVec.getElem_sshiftRight, BitVec.msb_eq_getLsbD_last]

theorem immU_eq : i.extractLsb' 12 20 ++ 0#12 = Emu.immU i := by
  apply BitVec.eq_of_getLsbD_eq
  intro j hj
  unfold Emu.immU
  simp only [-Nat.reduceAdd, BitVec.getLsbD_append]
  interval_cases j <;> simp

/-! ## Legality -/

section

variable (a : BitVec 12)

theorem csr_low : (a.setWidth 16 &&& 0x1F#16).toNat = a.toNat % 32 := by
  rw [BitVec.toNat_and, BitVec.toNat_setWidth_of_le (by decide)]
  exact Nat.and_two_pow_sub_one_eq_mod a.toNat 5

theorem csr_block : (a.setWidth 16 >>> 5).toNat = a.toNat / 32 := by
  rw [BitVec.toNat_ushiftRight, BitVec.toNat_setWidth_of_le (by decide), Nat.shiftRight_eq_div_pow]

theorem csr_bits (lo n : ℕ) (x : BitVec n) :
    a.extractLsb' lo n = x ↔ a.toNat / 2 ^ lo % 2 ^ n = x.toNat := by
  rw [← BitVec.toNat_inj, BitVec.extractLsb'_toNat, Nat.shiftRight_eq_div_pow]

/-- The same counters. -/
theorem csr_counters : (decide (3 ≤ a.toNat % 32) && decide (a.toNat % 32 ≤ 0x1F)) =
    (decide (a.extractLsb' 2 3 ≠ 0#3) || decide (a.extractLsb' 0 2 = 3#2)) := by
  rw [← Bool.decide_and, ← Bool.decide_or, decide_eq_decide, ne_eq, csr_bits, csr_bits]
  simp only [BitVec.toNat_ofNat]
  omega

end

theorem csrExists_eq (a : BitVec 12) : Emu.csrExists (a.setWidth 16) = Rtl.csrExists a := by
  have hblock (b : BitVec 7) : (a.toNat / 32 = b.toNat) = (a.extractLsb' 5 7 = b) := by
    have hlt := a.isLt
    rw [csr_bits, Nat.mod_eq_of_lt (by omega)]
    rfl
  have h19 : (a.toNat / 32 = 0x19) = (a.extractLsb' 5 7 = 0x19#7) := hblock 0x19#7
  have h58 : (a.toNat / 32 = 0x58) = (a.extractLsb' 5 7 = 0x58#7) := hblock 0x58#7
  have h5C : (a.toNat / 32 = 0x5C) = (a.extractLsb' 5 7 = 0x5C#7) := hblock 0x5C#7
  simp only [Emu.csrExists, Rtl.csrExists, csr_low, csr_block,
    BitVec.toNat_setWidth_of_le (show 12 ≤ 16 by decide), csr_counters, h19, h58, h5C]
  split
  case h_34 =>
    rw [Bool.or_false]
    split
    case h_34 => rfl
    all_goals contradiction
  all_goals
    rename_i heq
    rw [Bool.or_true, heq]
    rfl

/-- Every CSR there is, U-mode may not access. -/
theorem csrDenied_of_exists (a : BitVec 12) (h : Rtl.csrExists a = true) :
    (decide (a.setWidth 16 >>> 8 &&& 3#16 = 3#16) ||
      (decide (0xC00 ≤ (a.setWidth 16 &&& 0xF7F#16).toNat) &&
        decide ((a.setWidth 16 &&& 0xF7F#16).toNat ≤ 0xC02))) = true := by
  have hlevel : (a.setWidth 16 >>> 8 &&& 3#16 = 3#16) = (a.toNat / 256 % 4 = 3) := by
    rw [← BitVec.toNat_inj, BitVec.toNat_and, BitVec.toNat_ushiftRight,
      BitVec.toNat_setWidth_of_le (by decide), Nat.shiftRight_eq_div_pow]
    exact congrArg (· = 3) (Nat.and_two_pow_sub_one_eq_mod (a.toNat / 2 ^ 8) 2)
  rw [BitVec.toNat_and, BitVec.toNat_setWidth_of_le (by decide)]
  simp only [hlevel]
  rw [Rtl.csrExists] at h
  split at h
  case h_34 =>
    have hblock : a.toNat / 32 = 0x19 ∨ a.toNat / 32 = 0x58 ∨ a.toNat / 32 = 0x5C := by
      have hlt := a.isLt
      simp only [Bool.and_eq_true, Bool.or_eq_true, decide_eq_true_eq, csr_bits,
        BitVec.toNat_ofNat] at h
      omega
    rw [decide_eq_true (by omega), Bool.true_or]
  all_goals
    rename_i heq
    rw [heq]
    rfl

theorem csrReadOnly_eq (a : BitVec 12) :
    Emu.csrReadOnly (a.setWidth 16) = decide (a.extractLsb' 10 2 = 0b11#2) := by
  have hand := Nat.and_two_pow_sub_one_eq_mod (a.toNat / 2 ^ 10) 2
  rw [Emu.csrReadOnly, decide_eq_decide, csr_bits, ← BitVec.toNat_inj, BitVec.toNat_and,
    BitVec.toNat_ushiftRight, BitVec.toNat_setWidth_of_le (by decide), Nat.shiftRight_eq_div_pow]
  exact Eq.congr_left hand

theorem csrWrites_eq : Emu.csrWrites i = Rtl.csrWrites i := by
  unfold Emu.csrWrites Rtl.csrWrites
  rw [emu_funct3, emu_rs1]
  generalize Rtl.funct3 i = f3
  have h : ∀ f3 : BitVec 3, (f3.setWidth 32 &&& 3#32 = 1#32) = (f3.extractLsb' 0 2 = 1#2) := by
    decide
  simp only [h]

theorem amoOp_isNone (f5 : BitVec 5) : (Emu.AmoOp.of (f5.setWidth 32)).isNone =
    !(decide (f5.extractLsb' 2 3 = 0b000#3) || decide (f5.extractLsb' 0 2 = 0b00#2)) := by
  revert f5
  decide

theorem amoOp_lr (f5 : BitVec 5) :
    decide (Emu.AmoOp.of (f5.setWidth 32) = some .lr) = Rtl.isLr f5 := by
  revert f5
  decide

theorem amoOp_sc (f5 : BitVec 5) :
    decide (Emu.AmoOp.of (f5.setWidth 32) = some .sc) = Rtl.isSc f5 := by
  revert f5
  decide

/-- **The same instructions are illegal.** -/
theorem rvIllegal_eq (user tw : Bool) :
    Emu.rvIllegal i ⟨true, user, tw⟩ = Rtl.isIllegal i user tw := by
  unfold Emu.rvIllegal Rtl.isIllegal
  rw [emu_op, emu_funct3, emu_funct7, Emu.amoOp, emu_funct5, emu_csrAddr, emu_rs2]
  cases Rtl.opcode i with
  | lui => rfl
  | auipc => rfl
  | jal => rfl
  | other => rfl
  | jalr =>
    dsimp only [Rtl.Opcode.toEmu]
    generalize Rtl.funct3 i = f3
    revert f3
    decide
  | branch =>
    dsimp only [Rtl.Opcode.toEmu]
    generalize Rtl.funct3 i = f3
    revert f3
    decide
  | load =>
    dsimp only [Rtl.Opcode.toEmu]
    generalize Rtl.funct3 i = f3
    revert f3
    decide
  | store =>
    dsimp only [Rtl.Opcode.toEmu]
    generalize Rtl.funct3 i = f3
    revert f3
    decide
  | fence =>
    dsimp only [Rtl.Opcode.toEmu]
    generalize Rtl.funct3 i = f3
    revert f3
    decide
  | iType =>
    dsimp only [Rtl.Opcode.toEmu]
    generalize Rtl.funct3 i = f3, Rtl.funct7 i = f7
    revert f3 f7
    decide
  | rType =>
    dsimp only [Rtl.Opcode.toEmu]
    generalize Rtl.funct3 i = f3, Rtl.funct7 i = f7
    revert f3 f7
    decide
  | amo =>
    have h3 : ∀ f3 : BitVec 3, (f3.setWidth 32 ≠ 2#32) = (f3 ≠ 0b010#3) := by decide
    dsimp only [Rtl.Opcode.toEmu]
    rw [amoOp_isNone, amoOp_lr]
    simp only [h3]
    ac_rfl
  | system =>
    have h0 : ∀ f3 : BitVec 3, (f3.setWidth 32 = 0#32) = (f3 = 0b000#3) := by decide
    have h4 : ∀ f3 : BitVec 3, (f3.setWidth 32 = 4#32) = (f3 = 0b100#3) := by decide
    dsimp only [Rtl.Opcode.toEmu]
    simp only [h0, h4, csrReadOnly_eq, csrExists_eq, csrWrites_eq]
    split
    · unfold Rtl.isEcall Rtl.isEbreak Rtl.isMret Rtl.isWfi
      cases user <;> cases tw <;> simp [Bool.or_assoc]
    · cases hex : Rtl.csrExists (Rtl.csrAddr i) with
      | false => simp
      | true => rw [csrDenied_of_exists _ hex, Bool.and_true]

end Vux9k

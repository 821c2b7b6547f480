import Vux9k.Rtl.ReadAhead

/-!
# The program counter keeps to words

The trap unit takes one bit of a jump's immediate, or of its address, for the alignment of the whole
target.  It may: the PC that the immediate is added to is a multiple of four in every RV32 state,
since `mtvec`, `mepc`, the reset vector and every target that the unit lets through are.
-/

set_option autoImplicit false

namespace Vux9k.Rtl

theorem aligned_iff_dvd {a : Word} : Aligned a ↔ 4 ∣ a.toNat := by
  have hlow : (a.extractLsb' 0 2).toNat = a.toNat % 4 := by
    simp [BitVec.extractLsb'_toNat]
  rw [Aligned, ← BitVec.toNat_inj, hlow, Nat.dvd_iff_mod_eq_zero]
  rfl

theorem aligned_iff_bits {a : Word} : Aligned a ↔ a.getLsbD 0 = false ∧ a.getLsbD 1 = false := by
  constructor
  · intro h
    have hbit : ∀ j, j < 2 → a.getLsbD j = false := by
      intro j hj
      have hj' : (a.extractLsb' 0 2).getLsbD j = a.getLsbD j := by
        simp [hj]
      rw [← hj', show a.extractLsb' 0 2 = 0#2 from h, BitVec.getLsbD_zero]
    exact ⟨hbit 0 (by decide), hbit 1 (by decide)⟩
  · rintro ⟨h0, h1⟩
    exact Cpu.aligned_of_bits h0 h1

theorem Aligned.add_iff {a b : Word} (ha : Aligned a) : Aligned (a + b) ↔ Aligned b := by
  have hsum : (a + b).extractLsb' 0 2 = b.extractLsb' 0 2 := by
    rw [Cpu.extract_add, show a.extractLsb' 0 2 = 0#2 from ha, BitVec.zero_add]
  rw [Aligned, Aligned, hsum]

namespace Cpu

variable {s : Cpu}

/-- Where the instruction in `ir_reg` jumps to, if it does: JAL, JALR and a taken branch. -/
def jumpTarget (s : Cpu) : Option Word :=
  match opcode s.irReg with
  | .jal => some (s.pcReg + imm s.irReg)
  | .jalr => some (jalrTarget s.rvMemAddr)
  | .branch =>
    if branchTake (funct3 s.irReg) s.rs1Data s.rs2Data then some (s.pcReg + imm s.irReg) else none
  | _ => none

/-- `fetch_misalign` as the CPU wires it. -/
def jumpMisaligned (s : Cpu) : Bool :=
  fetchMisalign s.irReg (branchTake (funct3 s.irReg) s.rs1Data s.rs2Data) s.memAddrLow

theorem aligned_pcImm (hpc : Aligned s.pcReg)
    (hop : opcode s.irReg = .jal ∨ opcode s.irReg = .branch) :
    Aligned (s.pcReg + imm s.irReg) ↔ (imm s.irReg).getLsbD 1 = false := by
  rw [hpc.add_iff, aligned_iff_bits]
  exact and_iff_right (imm_jump_even hop)

theorem aligned_jalrTarget (s : Cpu) :
    Aligned (jalrTarget s.rvMemAddr) ↔ s.memAddrLow.getLsbD 1 = false := by
  have hlow : s.memAddrLow.getLsbD 1 = s.rvMemAddr.getLsbD 1 := by
    rw [memAddrLow_eq]
    simp
  rw [hlow, aligned_iff_bits]
  simp [jalrTarget]

/-- **One bit is enough.**  From an aligned PC, `fetch_misalign` is the alignment of the target. -/
theorem jumpMisaligned_iff (hpc : Aligned s.pcReg) :
    s.jumpMisaligned = true ↔ ∃ t, s.jumpTarget = some t ∧ ¬Aligned t := by
  cases hop : opcode s.irReg with
  | jal =>
    simp only [jumpMisaligned, fetchMisalign, jumpTarget, hop, Option.some.injEq]
    simp [aligned_pcImm hpc (.inl hop)]
  | jalr =>
    simp only [jumpMisaligned, fetchMisalign, jumpTarget, hop, Option.some.injEq]
    simp [aligned_jalrTarget s]
  | branch =>
    simp only [jumpMisaligned, fetchMisalign, jumpTarget, hop]
    cases branchTake (funct3 s.irReg) s.rs1Data s.rs2Data with
    | true => simp [aligned_pcImm hpc (.inr hop)]
    | false => simp
  | _ => simp [jumpMisaligned, fetchMisalign, jumpTarget, hop]

/-- The value of a fetch-misaligned trap is the target. -/
theorem trapVal_eq {t : Word} (ht : s.jumpTarget = some t) :
    (if opcode s.irReg = .jalr then jalrTarget s.rvMemAddr else s.pcReg + imm s.irReg) = t := by
  unfold jumpTarget at ht
  split at ht
  · rename_i hop
    rw [if_neg (by rw [hop]; decide)]
    exact Option.some.inj ht
  · rename_i hop
    rw [if_pos hop]
    exact Option.some.inj ht
  · rename_i hop
    rw [if_neg (by rw [hop]; decide)]
    split at ht
    · exact Option.some.inj ht
    · cases ht
  · cases ht

/-- A legal jump of an instruction that no interrupt takes traps for its target exactly if that is
not aligned. -/
theorem trap_jump_iff (hr : s.isRiscvMode = true) (hs : s.state = .execute)
    (hpc : Aligned s.pcReg) {t : Word} (ht : s.jumpTarget = some t) (hirq : s.rIrq = false)
    (hlegal : isIllegal s.irReg s.csrs.privU s.csrs.tw = false) :
    s.trap = .entry 0#32 t ↔ ¬Aligned t := by
  have hexec : s.execRv = true := by simp [execRv, hr, hs]
  have hiff := jumpMisaligned_iff hpc
  simp only [ht, Option.some.injEq, exists_eq_left'] at hiff
  rw [← hiff, trap, if_pos hexec, trapUnit, hirq, hlegal, if_neg (by simp), if_neg (by simp)]
  change (if s.jumpMisaligned = true then _ else _) = _ ↔ _
  cases s.jumpMisaligned with
  | true => simp [trapVal_eq ht]
  | false =>
    simp only [Bool.false_eq_true, if_false, iff_false]
    split_ifs <;> simp

/-- The address that `pc_out` shows is that of a word. -/
theorem Wf.pcOut (h : s.Wf) (hst : s.Stages) (hr : s.isRiscvMode = true) : Aligned s.pcOut := by
  have hnext : ∀ op, opcode s.irReg = op → op ≠ .branch → op ≠ .jal → op ≠ .jalr →
      s.state ≠ .execute → s.state ≠ .memWait → s.nextPc = s.pcPlus4Reg := by
    intro op hop hb hj hjr hx hw
    rw [nextPc, if_pos hr, if_neg (by simpa using hw), trap_of_state hx]
    simp only [hop]
  cases hs : s.state with
  | fetch =>
    rw [Cpu.pcOut, hs]
    exact h.pc hr
  | execute =>
    rw [Cpu.pcOut, hs]
    exact aligned_nextPc h hr hs
  | memWait =>
    rw [Cpu.pcOut, hs, if_neg (by decide), nextPc, if_pos hr, if_pos hs]
    exact h.pcPlus4 hr
  | hackWb => exact absurd hs (h.state hr).1
  | hackWrD => exact absurd hs (h.state hr).2
  | muldivWait =>
    rw [Cpu.pcOut, hs, if_neg (by decide), hnext .rType (hst.muldiv hs) (by decide) (by decide)
      (by decide) (by simp [hs]) (by simp [hs])]
    exact h.pcPlus4 hr
  | amoCalc =>
    rw [Cpu.pcOut, hs, if_neg (by decide), hnext .amo (hst.amo hs) (by decide) (by decide)
      (by decide) (by simp [hs]) (by simp [hs])]
    exact h.pcPlus4 hr

/-- **The PC keeps to words.**  In every RV32 state that a run from a hard reset reaches, whatever
the instructions, the interrupts and the soft resets: `pc_reg`, `pc_plus_4_reg`, `mepc` and `mtvec`
are multiples of four; `fetch_misalign` holds of just the jumps to an address that is not, which
trap with that address; and every address that an instruction is fetched from is one. -/
theorem pc_word_aligned (h : Reachable s) (hr : s.isRiscvMode = true) :
    (4 ∣ s.pcReg.toNat ∧ (s.state = .execute → 4 ∣ s.pcPlus4Reg.toNat) ∧
      4 ∣ s.csrs.mepc.toNat ∧ 4 ∣ s.csrs.mtvec.toNat) ∧
    (s.state = .execute →
      (s.jumpMisaligned = true ↔ ∃ t, s.jumpTarget = some t ∧ ¬4 ∣ t.toNat) ∧
      ∀ t, s.jumpTarget = some t → s.rIrq = false →
        isIllegal s.irReg s.csrs.privU s.csrs.tw = false →
        (s.trap = .entry 0#32 t ↔ ¬4 ∣ t.toNat)) ∧
    4 ∣ s.pcOut.toNat := by
  have hwf := h.wf
  have hpc := hwf.pc hr
  simp only [← aligned_iff_dvd]
  refine ⟨⟨hpc, fun _ ↦ hwf.pcPlus4 hr, hwf.csrs.mepc, hwf.csrs.mtvec⟩, ?_, hwf.pcOut h.stages hr⟩
  intro hs
  exact ⟨jumpMisaligned_iff hpc, fun t ht hirq hlegal ↦ trap_jump_iff hr hs hpc ht hirq hlegal⟩

/-- `jal x0, 2` in the first word, and no interrupt. -/
def halfwordJump : CpuIn where
  softRst := false
  bootModeValid := false
  bootMode := false
  instrIn := 0x0020006F#32
  instrReady := true
  dataIn := 0#32
  dataReady := false
  lines := ⟨false, false, false⟩
  mtime := 0#64

/-- The first instruction jumps to its own second half, and traps. -/
theorem pc_word_aligned_jal :
    let s := (powerOn fun _ ↦ 0#32).tick halfwordJump
    s.jumpTarget = some 2#32 ∧ s.jumpMisaligned = true ∧ s.trap = .entry 0#32 2#32 ∧
      4 ∣ s.pcOut.toNat := by
  intro s
  have ht : s.jumpTarget = some 2#32 := by decide
  have h := pc_word_aligned (s := s) (.tick _ (.powerOn _)) rfl
  exact ⟨ht, (h.2.1 rfl).1.mpr ⟨2#32, ht, by decide⟩,
    ((h.2.1 rfl).2 2#32 ht rfl (by decide)).mpr (by decide), h.2.2⟩

end Cpu

end Vux9k.Rtl

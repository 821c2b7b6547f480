import Vux9k.Lockstep.Cpu

/-!
# A Hack instruction on the RTL and in the emulator

A Hack instruction ends in EXECUTE, or in HACK_WB when its comp reads M; it stays there while M is
being written, and a D written beside A follows a cycle later (`finish`).
-/

set_option autoImplicit false

namespace Vux9k

open Rtl (Cpu CpuIn)
open Rtl.Cpu (run stores waits writeReg Waits)
open Emu (Soc Bus Retire)

/-! ## The same instruction -/

section

variable (ins : BitVec 16)

theorem emu_hackIns (pc word : Word) : Soc.hackIns pc word =
    if pc.getLsbD 1 then word.extractLsb' 16 16 else word.extractLsb' 0 16 := by
  have hpc : (pc &&& 2#32 ≠ 0#32) = (pc.getLsbD 1 = true) := by
    rw [target_and_two]
    simp
  unfold Soc.hackIns
  simp only [hpc]
  split
  · apply BitVec.eq_of_toNat_eq
    simp
  · apply BitVec.eq_of_toNat_eq
    simp

theorem emu_comp : (ins >>> 6 &&& 0x3F#16).toNat = (ins.extractLsb' 6 6).toNat := by
  rw [show (0x3F#16) = BitVec.ofNat 16 (2 ^ 6 - 1) from rfl, BitVec.toNat_and, BitVec.toNat_ofNat,
    BitVec.extractLsb'_toNat, BitVec.toNat_ushiftRight, Nat.mod_eq_of_lt (by decide),
    Nat.and_two_pow_sub_one_eq_mod]

theorem emu_jump : (ins &&& 7#16).toNat = (ins.extractLsb' 0 3).toNat := by
  rw [show (7#16) = BitVec.ofNat 16 (2 ^ 3 - 1) from rfl, BitVec.toNat_and, BitVec.toNat_ofNat,
    BitVec.extractLsb'_toNat, Nat.shiftRight_zero, Nat.mod_eq_of_lt (by decide),
    Nat.and_two_pow_sub_one_eq_mod]

theorem emu_bit (n : ℕ) (hn : n < 16) : (ins &&& 1#16 <<< n ≠ 0#16) = (ins.getLsbD n = true) := by
  rw [← BitVec.twoPow_eq, BitVec.and_twoPow]
  by_cases h : ins.getLsbD n = true
  · simp only [h, if_true, eq_iff_iff, iff_true]
    intro h0
    have := congrArg BitVec.toNat h0
    rw [BitVec.toNat_twoPow_of_lt hn] at this
    exact absurd this (Nat.two_pow_pos n).ne'
  · simp [h]

theorem emu_dest (n : ℕ) (hn : n < 3) :
    (ins >>> 3 &&& 7#16 &&& 1#16 <<< n ≠ 0#16) = (ins.getLsbD (3 + n) = true) := by
  rw [emu_bit _ n (by omega)]
  have h7 : (7#16).getLsbD n = true := by
    interval_cases n <;> rfl
  simp [h7]

/-- The ALU on the operands of a Hack operation. -/
def hackAlu (op : Rtl.HackOp) (d y : Word) : Word :=
  Rtl.alu
    (match op.opA with
      | .d => d
      | .y => y
      | .zero => 0#32)
    (match op.opB with
      | .y => y
      | .d => d
      | .imm => op.imm) op.aluOp

theorem hackTranslator_a (h : ins.getLsbD 15 = false) (d y : Word) :
    hackAlu (Rtl.hackTranslator ins) d y = (ins &&& 0x7FFF#16).setWidth 32 := by
  have hlow : (ins &&& 0x7FFF#16).setWidth 32 = (ins.extractLsb' 0 15).setWidth 32 := by
    apply BitVec.eq_of_toNat_eq
    rw [show (0x7FFF#16) = BitVec.ofNat 16 (2 ^ 15 - 1) from rfl, BitVec.toNat_setWidth,
      BitVec.toNat_setWidth, BitVec.toNat_and, BitVec.toNat_ofNat, BitVec.extractLsb'_toNat,
      Nat.shiftRight_zero, Nat.mod_eq_of_lt (by decide : 2 ^ 15 - 1 < 2 ^ 16),
      Nat.and_two_pow_sub_one_eq_mod]
  rw [Rtl.hackTranslator, if_pos h, hlow]
  unfold hackAlu
  dsimp only
  rw [alu_add, BitVec.zero_add]

/-- Every comp, those that are not in the book included. -/
theorem hackTranslator_c (h : ins.getLsbD 15 = true) (d y : Word) :
    hackAlu (Rtl.hackTranslator ins) d y = Soc.hackOut (ins >>> 6 &&& 0x3F#16) d y := by
  have hne : ¬ins.getLsbD 15 = false := by simp [h]
  have hones : ∀ a : Word, a ^^^ 0xFFFFFFFF#32 = ~~~a := fun a ↦ BitVec.xor_allOnes
  have hpred : ∀ a : Word, a + 0xFFFFFFFF#32 = a - 1#32 := fun a ↦
    (BitVec.sub_eq_add_neg a 1#32).symm
  rw [Rtl.hackTranslator, if_neg hne]
  generalize hcomp : Rtl.hackComp (ins.extractLsb' 6 6) = comp
  rw [Rtl.hackComp] at hcomp
  unfold Soc.hackOut
  rw [emu_comp]
  split
  case h_20 =>
    split at hcomp
    case h_20 =>
      subst hcomp
      exact alu_add d y
    all_goals exact absurd ‹(ins.extractLsb' 6 6).toNat = _› ‹_›
  all_goals
    rename_i heq
    rw [heq] at hcomp
    subst hcomp
  case h_6 => exact hones d
  case h_7 => exact hones y
  case h_8 => exact alu_sub 0#32 d
  case h_9 => exact alu_sub 0#32 y
  case h_10 => exact alu_add d 1#32
  case h_11 => exact alu_add y 1#32
  case h_12 => exact (alu_add d _).trans (hpred d)
  case h_13 => exact (alu_add y _).trans (hpred y)
  case h_14 => exact alu_add d y
  case h_15 => exact alu_sub d y
  case h_16 => exact alu_sub y d
  all_goals rfl

theorem hackTranslator_useMem (h : ins.getLsbD 15 = true) :
    (Rtl.hackTranslator ins).useMem = Soc.hackUseMem ins := by
  have hne : ¬ins.getLsbD 15 = false := by simp [h]
  have h12 : decide (ins &&& 0x1000#16 ≠ 0#16) = ins.getLsbD 12 := by
    have := emu_bit ins 12 (by decide)
    simp only [show (0x1000#16) = 1#16 <<< 12 from rfl, this, Bool.decide_eq_true]
  rw [Rtl.hackTranslator, if_neg hne]
  unfold Soc.hackUseMem Rtl.hackComp
  dsimp only
  rw [emu_comp, h12]
  congr 1
  generalize (ins.extractLsb' 6 6) = c
  revert c
  decide

theorem hackJump (out : Word) :
    (decide (ins &&& 7#16 ≠ 0#16) && Soc.hackTake (ins &&& 7#16) out) =
      Rtl.hackJumpTake (ins.extractLsb' 0 3) out := by
  have hzero : (out &&& 0xFFFF#32 = 0#32) = (out.extractLsb' 0 16 = 0#16) := by
    have h := and_low out 16 (by decide)
    rw [show (0xFFFF#32) = BitVec.ofNat 32 (2 ^ 16 - 1) from rfl, h]
    generalize out.extractLsb' 0 16 = low
    rw [eq_iff_iff]
    constructor
    · intro h0
      apply BitVec.eq_of_toNat_eq
      have := congrArg BitVec.toNat h0
      have hlt := low.isLt
      rw [BitVec.toNat_setWidth, Nat.mod_eq_of_lt (by omega)] at this
      exact this
    · rintro rfl
      rfl
  have hneg : decide (out &&& 0xFFFF#32 &&& 0x8000#32 ≠ 0#32) = out.getLsbD 15 := by
    rw [BitVec.and_assoc, show (0xFFFF#32 &&& 0x8000#32 : Word) = BitVec.twoPow 32 15 from rfl,
      BitVec.and_twoPow]
    cases out.getLsbD 15 <;> decide
  have hj : decide (ins &&& 7#16 ≠ 0#16) = decide ((ins.extractLsb' 0 3).toNat ≠ 0) := by
    rw [← emu_jump]
    congr 1
    rw [ne_eq, ne_eq, ← BitVec.toNat_inj]
    rfl
  unfold Soc.hackTake Rtl.hackJumpTake
  rw [hj, emu_jump]
  simp only [hzero, hneg]
  rcases bitVec3_cases (ins.extractLsb' 0 3) with h3 | h3 | h3 | h3 | h3 | h3 | h3 | h3 <;>
    rw [h3] <;> simp

theorem emu_dual : (ins >>> 3 &&& 7#16 &&& 6#16 = 6#16) =
    ((ins.getLsbD 5 && ins.getLsbD 4) = true) := by
  have hz : ins >>> 3 &&& 7#16 = (ins.extractLsb' 3 3).setWidth 16 := by
    apply BitVec.eq_of_toNat_eq
    have hlt := (ins.extractLsb' 3 3).isLt
    rw [BitVec.toNat_setWidth, Nat.mod_eq_of_lt (by omega),
      show (7#16) = BitVec.ofNat 16 (2 ^ 3 - 1) from rfl, BitVec.toNat_and, BitVec.toNat_ofNat,
      BitVec.extractLsb'_toNat, BitVec.toNat_ushiftRight, Nat.mod_eq_of_lt (by decide),
      Nat.and_two_pow_sub_one_eq_mod]
  have h5 : ins.getLsbD 5 = (ins.extractLsb' 3 3).getLsbD 2 := by simp
  have h4 : ins.getLsbD 4 = (ins.extractLsb' 3 3).getLsbD 1 := by simp
  rw [hz, h5, h4]
  generalize ins.extractLsb' 3 3 = f
  revert f
  decide

end

/-! ## The RTL's cycles -/

namespace Rtl.Cpu

section

variable {x : Cpu} {i : CpuIn}

theorem hack_aluResult (hr : x.isRiscvMode = false) : x.aluResult =
    hackAlu x.hackOp x.rs1Data (if x.hackOp.useMem then x.rMemData else x.rs2Data) := by
  rw [aluResult, aluIn, if_neg (by simp [hr])]
  rfl

/-- The units in a Hack cycle: the register file, and the counters. -/
theorem hack_tickUnits (hr : x.isRiscvMode = false) (hsoft : i.softRst = false)
    (hs : x.state ≠ .muldivWait) :
    x.tickUnits i = { x.idles 1 with registers := writeReg x.registers (x.hackRegWrite i) } := by
  have hexec : x.execRv = false := by
    rw [execRv, hr, Bool.false_and]
  have htrap : x.trap = .none := by
    rw [trap, hexec, if_neg Bool.false_ne_true]
  have hentry : x.trapEntry = false := by
    rw [trapEntry, htrap]
  have hreg : x.regWrite i = x.hackRegWrite i := by
    rw [regWrite, hr, if_neg Bool.false_ne_true]
  have hwr : x.csrWr i = none := by
    simp [csrWr, csrAccess, hexec]
  have hret : x.rvRetire i = false := by
    simp [rvRetire, hexec, hr, hs]
  unfold tickUnits
  simp only [hexec, hentry, hsoft, htrap, hret, hreg, hwr, Csrs.tick, Bool.false_and, Bool.or_false,
    if_false, Bool.false_eq_true, Option.map_none, Csrs.count_idle]
  rfl

theorem hack_fetch_wait (hr : x.isRiscvMode = false) (hs : x.state = .fetch)
    (hsoft : i.softRst = false) (hready : i.instrReady = false) : x.tick i = x.idles 1 := by
  have hwb : x.hackRegWrite i = none := by
    simp [hackRegWrite, hackWriteback, hs]
  rw [tick, if_neg (by simp [hsoft]), hack_tickUnits hr hsoft (by simp [hs]), hwb, tickState, hs]
  simp only [hready, Bool.false_eq_true, if_false]
  rfl

/-- A Hack instruction is in the state it ends in: EXECUTE, or HACK_WB when its comp reads M. -/
structure Ending (x : Cpu) : Prop where
  hack : x.isRiscvMode = false
  state : if x.hackOp.useMem then x.state = .hackWb ∧ x.rHackMemWe = x.hackOp.weMem
    else x.state = .execute

theorem Ending.cases (hx : x.Ending) : (x.hackOp.useMem = true ∧ x.state = .hackWb ∧
    x.rHackMemWe = x.hackOp.weMem) ∨ (x.hackOp.useMem = false ∧ x.state = .execute) := by
  have h := hx.state
  cases hu : x.hackOp.useMem with
  | true =>
    rw [hu, if_pos rfl] at h
    exact .inl ⟨rfl, h⟩
  | false =>
    rw [hu, if_neg Bool.false_ne_true] at h
    exact .inr ⟨rfl, h⟩

theorem Ending.memWrite (hx : x.Ending) : x.memWrite = x.hackOp.weMem := by
  rcases hx.cases with ⟨hu, hs, hwe⟩ | ⟨hu, hs⟩
  · simp [Cpu.memWrite, hx.hack, hs, hwe]
  · simp [Cpu.memWrite, hx.hack, hs, hu]

theorem Ending.storeReq (hx : x.Ending) : x.storeReq =
    if x.hackOp.weMem then some (x.rs2Data, x.aluResult, 0b1111#4) else none := by
  have hreq : x.dataReq = x.hackOp.weMem := by
    rcases hx.cases with ⟨-, hs, -⟩ | ⟨-, hs⟩ <;> simp [dataReq, hs, hx.hack, hx.memWrite]
  rw [Cpu.storeReq, hreq, hx.memWrite, Bool.and_self]
  simp [dataWaddr, dataOut, memByteWe, rDataOut, rMemByteWe, hx.hack]

theorem Ending.waiting (hx : x.Ending) : Cpu.waiting i x = (x.hackOp.weMem && !i.dataReady) := by
  rcases hx.cases with ⟨-, hs, -⟩ | ⟨-, hs⟩ <;>
    simp [Cpu.waiting, dataReq, hs, hx.hack, hx.memWrite]

theorem Ending.writeback (hx : x.Ending) : x.hackWriteback = true := by
  rcases hx.cases with ⟨hu, hs, -⟩ | ⟨hu, hs⟩ <;> simp [hackWriteback, hu, hs]

theorem Ending.nextPc (hx : x.Ending) : x.nextPc =
    if hackJumpTake x.hackOp.jumpCond x.aluResult then x.rs2Data <<< 1 else x.pcReg + 2#32 := by
  rcases hx.cases with ⟨-, hs, -⟩ | ⟨-, hs⟩ <;> simp [Cpu.nextPc, hx.hack, hs]

/-- While M is being written nothing else happens. -/
theorem Ending.tick_stall (hx : x.Ending) (hsoft : i.softRst = false)
    (hm : x.hackOp.weMem = true) (hready : i.dataReady = false) : x.tick i = x.idles 1 := by
  have hstall : x.hackMemStall i = true := by
    rw [hackMemStall, hx.hack, hx.memWrite, hm, hready]
    rfl
  have htrap : x.trap = .none := by
    rw [trap, execRv, hx.hack]
    rfl
  rcases hx.cases with ⟨hu, hs, -⟩ | ⟨hu, hs⟩
  · have hwb : x.hackRegWrite i = none := by
      simp [hackRegWrite, hstall, hs]
    rw [tick, if_neg (by simp [hsoft]), hack_tickUnits hx.hack hsoft (by simp [hs]), hwb, tickState,
      hs]
    simp only [hstall, if_true]
    rfl
  · have hwb : x.hackRegWrite i = none := by
      simp [hackRegWrite, hstall, hs]
    rw [tick, if_neg (by simp [hsoft]), hack_tickUnits hx.hack hsoft (by simp [hs]), hwb, tickState,
      hs]
    simp only [hstall, htrap, hx.hack, hu, ne_eq, not_true_eq_false, Bool.false_and, Bool.and_false,
      Bool.false_eq_true, if_true, if_false]
    rfl

/-- The last cycle of EXECUTE or HACK_WB. -/
theorem Ending.tick_end (hx : x.Ending) (hsoft : i.softRst = false)
    (hm : x.hackOp.weMem = true → i.dataReady = true) : x.tick i =
    x.endInstr { x.idles 1 with
      registers := writeReg x.registers
        (if x.hackOp.weRegA then some (1#5, x.aluResult)
          else if x.hackOp.weRegD then some (2#5, x.aluResult) else none) } := by
  have hstall : x.hackMemStall i = false := by
    rw [hackMemStall, hx.hack, hx.memWrite]
    cases hwe : x.hackOp.weMem with
    | false => rfl
    | true => rw [hm hwe]; rfl
  have htrap : x.trap = .none := by
    rw [trap, execRv, hx.hack]
    rfl
  have hwrd : x.state ≠ .hackWrD := by
    rcases hx.cases with ⟨-, hs, -⟩ | ⟨-, hs⟩ <;> simp [hs]
  have hwb : x.hackRegWrite i = if x.hackOp.weRegA then some (1#5, x.aluResult)
      else if x.hackOp.weRegD then some (2#5, x.aluResult) else none := by
    rw [hackRegWrite, hx.writeback, hstall]
    cases x.hackOp.weRegA <;> simp [hwrd]
  rcases hx.cases with ⟨hu, hs, -⟩ | ⟨hu, hs⟩
  · rw [tick, if_neg (by simp [hsoft]), hack_tickUnits hx.hack hsoft (by simp [hs]), hwb, tickState,
      hs]
    simp only [hstall, Bool.false_eq_true, if_false]
  · rw [tick, if_neg (by simp [hsoft]), hack_tickUnits hx.hack hsoft (by simp [hs]), hwb, tickState,
      hs]
    simp only [hstall, htrap, hx.hack, hu, ne_eq, not_true_eq_false, Bool.false_and, Bool.and_false,
      Bool.false_eq_true, if_false]

/-- D after A. -/
theorem tick_hackWrD (hr : x.isRiscvMode = false) (hs : x.state = .hackWrD)
    (hsoft : i.softRst = false) : x.tick i =
    { x.idles 1 with
      registers := writeReg x.registers (some (2#5, x.rHackD))
      state := .fetch } := by
  have hwb : x.hackRegWrite i = some (2#5, x.rHackD) := by
    simp [hackRegWrite, hackWriteback, hs]
  rw [tick, if_neg (by simp [hsoft]), hack_tickUnits hr hsoft (by simp [hs]), hwb, tickState, hs]

/-- The registers after a Hack instruction. -/
def hackRegs (x : Cpu) (f : BitVec 5 → Word) : BitVec 5 → Word :=
  let f := if x.hackOp.weRegA then Function.update f 1#5 x.aluResult else f
  if x.hackOp.weRegD then Function.update f 2#5 x.aluResult else f

/-- From the state a Hack instruction ends in, the next FETCH comes after `n` cycles, `w` of which
wait. -/
structure HackEnds (inp : ℕ → CpuIn) (x : Cpu) (n w : ℕ) : Prop where
  busy : ∀ k < n, (run inp x k).state ≠ .fetch
  state : (run inp x n).state = .fetch
  hack : (run inp x n).isRiscvMode = false
  pc : (run inp x n).pcReg = x.nextPc
  registers : (run inp x n).registers = x.hackRegs x.registers
  csrs : (run inp x n).csrs = x.csrs.elapse n
  reservation : (run inp x n).reservation = x.reservation
  stores : stores inp x n = x.storeReq.toList
  waits : waits inp x n = w

/-- The cycles in which M is being written. -/
theorem Ending.run_stall (hx : x.Ending) {inp : ℕ → CpuIn} {v : ℕ}
    (hv : if x.hackOp.weMem then Waits inp v else v = 0)
    (hsoft : ∀ k < v, (inp k).softRst = false) :
    ∀ k ≤ v, run inp x k = x.idles k := by
  cases hm : x.hackOp.weMem with
  | false =>
    rw [hm, if_neg Bool.false_ne_true] at hv
    intro k hk
    rw [show k = 0 by omega, idles_zero]
    rfl
  | true =>
    rw [hm, if_pos rfl] at hv
    exact run_idles fun k hk ↦
      Ending.tick_stall (x := x.idles k) ⟨hx.hack, hx.state⟩ (hsoft k hk) hm (hv.wait k hk)

/-- What is seen of the instruction's end up to its last EXECUTE or HACK_WB cycle. -/
theorem Ending.observe (hx : x.Ending) {inp : ℕ → CpuIn} {v : ℕ}
    (hv : if x.hackOp.weMem then Waits inp v else v = 0)
    (hsoft : ∀ k < v, (inp k).softRst = false) :
    stores inp x (v + 1) = x.storeReq.toList ∧ waits inp x (v + 1) = v := by
  have hrun := hx.run_stall hv hsoft
  have hwait : ∀ k, Cpu.waiting (inp k) (x.idles k) = (x.hackOp.weMem && !(inp k).dataReady) :=
    fun k ↦ Ending.waiting (x := x.idles k) ⟨hx.hack, hx.state⟩
  cases hm : x.hackOp.weMem with
  | false =>
    rw [hm, if_neg Bool.false_ne_true] at hv
    subst hv
    rw [stores, waits, hrun 0 le_rfl, hwait, hm, idles_zero, hx.storeReq, hm]
    simp [stores, waits]
  | true =>
    rw [hm, if_pos rfl] at hv
    have hobs : ∀ k ≤ v, stores inp x k = [] ∧ waits inp x k = k := by
      intro k hk
      induction k with
      | zero => exact ⟨rfl, rfl⟩
      | succ k ih =>
        obtain ⟨ih₁, ih₂⟩ := ih (by omega)
        rw [stores, waits, ih₁, ih₂, hrun k (by omega), hwait, hm, hv.wait k (by omega)]
        simp
    obtain ⟨h₁, h₂⟩ := hobs v le_rfl
    rw [stores, waits, h₁, h₂, hrun v le_rfl, hwait, hm, hv.ready]
    exact ⟨rfl, rfl⟩

theorem Ending.ends (hx : x.Ending) {inp : ℕ → CpuIn} {v : ℕ}
    (hv : if x.hackOp.weMem then Waits inp v else v = 0)
    (hsoft : ∀ k < v + 1 + (if x.hackOp.weRegA && x.hackOp.weRegD then 1 else 0),
      (inp k).softRst = false) :
    HackEnds inp x (v + 1 + if x.hackOp.weRegA && x.hackOp.weRegD then 1 else 0) v := by
  have hsoft' : ∀ k < v, (inp k).softRst = false := fun k hk ↦ hsoft k (by omega)
  have hrun := hx.run_stall hv hsoft'
  obtain ⟨hst, hwt⟩ := hx.observe hv hsoft'
  have hstate : x.state ≠ .fetch := by
    rcases hx.cases with ⟨-, hs, -⟩ | ⟨-, hs⟩ <;> simp [hs]
  have hbusy : ∀ k < v + 1, (run inp x k).state ≠ .fetch := by
    intro k hk
    rw [hrun k (by omega)]
    exact hstate
  have hend := Ending.tick_end (x := x.idles v) (i := inp v) ⟨hx.hack, hx.state⟩
    (hsoft v (by omega)) (by
      intro hm
      change x.hackOp.weMem = true at hm
      rw [hm, if_pos rfl] at hv
      exact hv.ready)
  rw [← hrun v le_rfl] at hend
  have hdual : x.hackDualDest = (x.hackOp.weRegA && x.hackOp.weRegD) := by
    rw [hackDualDest, hx.hack]
    rfl
  cases hd : (x.hackOp.weRegA && x.hackOp.weRegD) with
  | false =>
    rw [hd] at hdual
    rw [if_neg Bool.false_ne_true, Nat.add_zero]
    constructor
    case busy => exact hbusy
    case stores => exact hst
    case waits => exact hwt
    all_goals rw [run, hend, hrun v le_rfl]
    case state =>
      change (if x.hackDualDest then CpuState.hackWrD else .fetch) = .fetch
      rw [hdual, if_neg Bool.false_ne_true]
    case hack => exact hx.hack
    case pc => rfl
    case registers =>
      change writeReg x.registers (if x.hackOp.weRegA then some (1#5, x.aluResult)
        else if x.hackOp.weRegD then some (2#5, x.aluResult) else none) = x.hackRegs x.registers
      unfold hackRegs
      cases ha : x.hackOp.weRegA <;> cases hdd : x.hackOp.weRegD
      · rfl
      · rfl
      · rfl
      · rw [ha, hdd] at hd
        exact absurd hd (by decide)
    case csrs => exact Csrs.elapse_elapse x.csrs v 1
    case reservation => rfl
  | true =>
    rw [hd] at hdual
    rw [hd, if_pos rfl] at hsoft
    rw [if_pos rfl]
    obtain ⟨ha, hdd⟩ := Bool.and_eq_true_iff.mp hd
    have hone : run inp x (v + 1) = (x.idles v).endInstr { (x.idles v).idles 1 with
        registers := writeReg x.registers (some (1#5, x.aluResult)) } := by
      rw [run, hend, hrun v le_rfl]
      change (x.idles v).endInstr { (x.idles v).idles 1 with
        registers := writeReg x.registers (if x.hackOp.weRegA then some (1#5, x.aluResult)
          else if x.hackOp.weRegD then some (2#5, x.aluResult) else none) } = _
      rw [ha, if_pos rfl]
    have hwrD : (run inp x (v + 1)).state = .hackWrD := by
      rw [hone]
      change (if x.hackDualDest then CpuState.hackWrD else .fetch) = .hackWrD
      rw [hdual, if_pos rfl]
    have hhack : (run inp x (v + 1)).isRiscvMode = false := by
      rw [hone]
      exact hx.hack
    have hlast := tick_hackWrD hhack hwrD (hsoft (v + 1) (by omega))
    constructor
    case busy =>
      intro k hk
      rcases Nat.lt_or_ge k (v + 1) with hlt | hge
      · exact hbusy k hlt
      · rw [show k = v + 1 by omega, hwrD]
        rintro ⟨⟩
    case stores =>
      have hnone : (run inp x (v + 1)).storeReq = none := by
        simp [Cpu.storeReq, dataReq, Cpu.memWrite, hwrD, hhack]
      rw [stores, hst, hnone]
      simp
    case waits =>
      have hnone : Cpu.waiting (inp (v + 1)) (run inp x (v + 1)) = false := by
        simp [Cpu.waiting, dataReq, Cpu.memWrite, hwrD, hhack]
      rw [waits, hwt, hnone]
      rfl
    all_goals rw [run, hlast, hone]
    case hack => exact hx.hack
    case pc => rfl
    case registers =>
      change writeReg (writeReg x.registers (some (1#5, x.aluResult))) (some (2#5, x.aluResult)) = _
      rw [hackRegs, ha, hdd]
      rfl
    case csrs =>
      change ((x.csrs.elapse v).elapse 1).elapse 1 = _
      rw [Csrs.elapse_elapse, Csrs.elapse_elapse]
    case reservation => rfl

/-! ### Reading M -/

/-- The first MEM_WAIT of a comp that reads M. -/
def hackReading (x : Cpu) : Cpu :=
  { (x.idles 1).quiet with rHackMemWe := x.hackOp.weMem, state := .memWait }

/-- HACK_WB, after `w` waits for the word `d`. -/
def hackLoaded (x : Cpu) (w : ℕ) (d : Word) : Cpu :=
  { x.hackReading.idles (w + 1) with
    rStoreWe := false, rLoadWe := false, rMemData := d, state := .hackWb }

theorem hack_tick_execute (hr : x.isRiscvMode = false) (hs : x.state = .execute)
    (hu : x.hackOp.useMem = true) (hsoft : i.softRst = false) : x.tick i = x.hackReading := by
  have hwb : x.hackRegWrite i = none := by
    simp [hackRegWrite, hackWriteback, hu, hs]
  have htrap : x.trap = .none := by
    rw [trap, execRv, hr]
    rfl
  rw [tick, if_neg (by simp [hsoft]), hack_tickUnits hr hsoft (by simp [hs]), hwb, tickState, hs]
  simp only [htrap, hr, hu, ne_eq, not_true_eq_false, Bool.false_and, Bool.not_false, Bool.and_self,
    Bool.false_eq_true, if_true, if_false]
  rfl

theorem hack_mem_wait (hr : x.isRiscvMode = false) (hs : x.state = .memWait)
    (hsoft : i.softRst = false) (hready : i.dataReady = false) : x.tick i = x.idles 1 := by
  have hwb : x.hackRegWrite i = none := by
    simp [hackRegWrite, hackWriteback, hs]
  rw [tick, if_neg (by simp [hsoft]), hack_tickUnits hr hsoft (by simp [hs]), hwb, tickState, hs]
  simp only [hready, Bool.false_eq_true, if_false]
  rfl

theorem hack_mem_ready (hr : x.isRiscvMode = false) (hs : x.state = .memWait)
    (hsoft : i.softRst = false) (hready : i.dataReady = true) : x.tick i =
    { x.idles 1 with
      rStoreWe := false
      rLoadWe := false
      rMemData := i.dataIn
      state := .hackWb } := by
  have hwb : x.hackRegWrite i = none := by
    simp [hackRegWrite, hackWriteback, hs]
  rw [tick, if_neg (by simp [hsoft]), hack_tickUnits hr hsoft (by simp [hs]), hwb, tickState, hs]
  simp only [hready, hr, Bool.false_and, Bool.false_eq_true, if_true, if_false]
  rfl

/-- From EXECUTE to HACK_WB. -/
theorem hack_read {inp : ℕ → CpuIn} {w : ℕ} (hr : x.isRiscvMode = false) (hs : x.state = .execute)
    (hu : x.hackOp.useMem = true) (hw : Waits (fun k ↦ inp (1 + k)) w)
    (hsoft : ∀ k < w + 2, (inp k).softRst = false) :
    (∀ k < w + 2, (run inp x k).state ≠ .fetch) ∧
      run inp x (w + 2) = x.hackLoaded w (inp (1 + w)).dataIn ∧
      stores inp x (w + 2) = [] ∧ waits inp x (w + 2) = w := by
  have hone : run inp x 1 = x.hackReading := hack_tick_execute hr hs hu (hsoft 0 (by omega))
  have hrun : ∀ k ≤ w, run inp x (1 + k) = x.hackReading.idles k := by
    intro k hk
    rw [run_add, hone]
    exact run_idles (fun k hk ↦ hack_mem_wait (x := x.hackReading.idles k) hr rfl
      (hsoft _ (by omega)) (hw.wait k hk)) k hk
  have hend : run inp x (w + 2) = x.hackLoaded w (inp (1 + w)).dataIn := by
    rw [show w + 2 = 1 + w + 1 by omega, run, hrun w le_rfl,
      hack_mem_ready (x := x.hackReading.idles w) hr rfl (hsoft _ (by omega)) hw.ready, idles_idles]
    rfl
  have hfirst : stores inp x 1 = [] ∧ waits inp x 1 = 0 := by
    simp [stores, waits, run, Cpu.storeReq, Cpu.waiting, dataReq, memWrite, hs, hr, hu]
  have hreq : ∀ k, (x.hackReading.idles k).storeReq = none := by
    intro k
    simp [Cpu.storeReq, memWrite, idles, hackReading, quiet, hr]
  have hwaiting : ∀ k (i : CpuIn), Cpu.waiting i (x.hackReading.idles k) = !i.dataReady := by
    intro k i
    simp [Cpu.waiting, dataReq, idles, hackReading]
  have hobs : ∀ k ≤ w, stores inp x (1 + k) = [] ∧ waits inp x (1 + k) = k := by
    intro k hk
    induction k with
    | zero => exact hfirst
    | succ k ih =>
      obtain ⟨ih₁, ih₂⟩ := ih (by omega)
      have hwait : (inp (1 + k)).dataReady = false := hw.wait k (by omega)
      rw [← Nat.add_assoc, stores, waits, ih₁, ih₂, hrun k (by omega), hreq, hwaiting, hwait]
      simp
  obtain ⟨h₁, h₂⟩ := hobs w le_rfl
  have hready : (inp (1 + w)).dataReady = true := hw.ready
  refine ⟨?_, hend, ?_, ?_⟩
  · intro k hk
    cases k with
    | zero =>
      rw [run, hs]
      rintro ⟨⟩
    | succ k =>
      rw [Nat.add_comm k 1, hrun k (by omega)]
      rintro ⟨⟩
  · rw [show w + 2 = 1 + w + 1 by omega, stores, h₁, hrun w le_rfl, hreq]
    simp
  · rw [show w + 2 = 1 + w + 1 by omega, waits, h₂, hrun w le_rfl, hwaiting, hready]
    rfl

end

end Rtl.Cpu

/-! ## The emulator's instruction -/

section

variable {σ : Type} (bus : Bus σ)

/-- `step_hack` in the terms of `hack_translator`. -/
theorem stepHack_eq (e : Soc σ) (word : Word) {op : Rtl.HackOp}
    (hop : op = Rtl.hackTranslator (Soc.hackIns e.pc word)) {y : Word} {w : ℕ} {mem : σ}
    (hread : (if op.useMem then bus.hackRead (e.regs 1#5) e.cycle e.mem
      else ((e.regs 1#5, 0), e.mem)) =
      ((y, w), mem)) {out : Word} (hout : out = hackAlu op (e.regs 2#5) y) {v : ℕ} {mem' : σ}
    (hwrite : (if op.weMem then bus.hackWrite (e.regs 1#5) out
      (if op.useMem then e.cycle + 3 + w else e.cycle + 1) mem else (0, mem)) = (v, mem')) :
    (e.stepHack bus word .default).1 =
      { e with
        regs :=
          let regs := if op.weRegA then Function.update e.regs 1#5 out else e.regs
          if op.weRegD then Function.update regs 2#5 out else regs
        mem := mem'
        pc := if Rtl.hackJumpTake op.jumpCond out then e.regs 1#5 <<< 1 else e.pc + 2#32 } ∧
    (e.stepHack bus word .default).2.store =
      (if op.weMem then some (e.regs 1#5, out, 0b1111#4) else none) ∧
    (e.stepHack bus word .default).2.cycles =
      2 + (if op.useMem then 2 + w else 0) + v + if op.weRegA && op.weRegD then 1 else 0 := by
  set ins := Soc.hackIns e.pc word with hins
  have h15 : (ins &&& 0x8000#16 = 0#16) = (ins.getLsbD 15 = false) := by
    have h := emu_bit ins 15 (by decide)
    have h' := congrArg Not h
    rw [ne_eq, not_not, Bool.not_eq_true] at h'
    exact h'
  unfold Soc.stepHack
  rw [← hins]
  by_cases hA : ins.getLsbD 15 = false
  · have htr : op.useMem = false ∧ op.weRegA = true ∧ op.weRegD = false ∧ op.weMem = false ∧
        op.jumpCond = 0#3 := by
      rw [hop, Rtl.hackTranslator, if_pos hA]
      exact ⟨rfl, rfl, rfl, rfl, rfl⟩
    obtain ⟨hu, ha, hd, hm, hj⟩ := htr
    rw [hu, if_neg Bool.false_ne_true] at hread
    rw [hm, if_neg Bool.false_ne_true] at hwrite
    obtain ⟨⟨-, rfl⟩, rfl⟩ : ((e.regs 1#5) = y ∧ 0 = w) ∧ e.mem = mem := by
      simpa [Prod.ext_iff] using hread
    obtain ⟨rfl, rfl⟩ : 0 = v ∧ e.mem = mem' := by
      simpa [Prod.ext_iff] using hwrite
    rw [hop, hackTranslator_a _ hA] at hout
    rw [if_pos (h15 ▸ hA), hu, ha, hd, hm, hj, hout]
    exact ⟨rfl, rfl, rfl⟩
  · have hC : ins.getLsbD 15 = true := by simpa using hA
    have hbits : op.weRegA = ins.getLsbD 5 ∧ op.weRegD = ins.getLsbD 4 ∧ op.weMem = ins.getLsbD 3 ∧
        op.jumpCond = ins.extractLsb' 0 3 := by
      rw [hop, Rtl.hackTranslator, if_neg hA]
      exact ⟨rfl, rfl, rfl, rfl⟩
    obtain ⟨ha, hd, hm, hj⟩ := hbits
    have hu : op.useMem = Soc.hackUseMem ins := by
      rw [hop, hackTranslator_useMem _ hC]
    have hM : (ins >>> 3 &&& 7#16 &&& 1#16 ≠ 0#16) = (op.weMem = true) := by
      rw [hm]
      exact emu_dest ins 0 (by decide)
    have hD : (ins >>> 3 &&& 7#16 &&& 2#16 ≠ 0#16) = (op.weRegD = true) := by
      rw [hd]
      exact emu_dest ins 1 (by decide)
    have hAd : (ins >>> 3 &&& 7#16 &&& 4#16 ≠ 0#16) = (op.weRegA = true) := by
      rw [ha]
      exact emu_dest ins 2 (by decide)
    have hAD : (ins >>> 3 &&& 7#16 &&& 6#16 = 6#16) = ((op.weRegA && op.weRegD) = true) := by
      rw [ha, hd]
      exact emu_dual ins
    have hjump := hackJump ins out
    rw [← hj] at hjump
    rw [if_neg (h15 ▸ hA)]
    dsimp only
    rw [← hu, hread]
    dsimp only
    rw [hop, hackTranslator_c _ hC] at hout
    rw [← hout]
    simp only [hM, hD, hAd, hAD, hwrite, hjump]
    exact ⟨trivial, rfl, trivial⟩

/-! ## From FETCH to FETCH -/

/-- The CPU in a FETCH of a Hack instruction, and the emulator's before its step. -/
structure HackCorresponds (s : Cpu) (e : Soc σ) : Prop where
  hack : s.isRiscvMode = false
  mode : e.riscvMode = false
  regs : ∀ q, e.regs q = s.reg q
  pc : e.pc = s.pcReg
  csr : e.csr = s.csrs.toEmu
  reservation : e.reservation = s.reservation
  written : e.mcycleWritten = none

/-- From the EXECUTE `x` on, the inputs are what the bus answers to the instruction of `cycle`. -/
structure HackAnswers (bus : Bus σ) (cycle : ℕ) (mem : σ) (inp : ℕ → CpuIn) (x : Cpu) : Prop where
  /-- M is read: it waits as long as the bus says, and gets the bus's word. -/
  read : (run inp x 1).state = .memWait →
    Waits (fun k ↦ inp (1 + k)) (bus.hackRead (run inp x 1).dataAddr cycle mem).1.2 ∧
      (inp (1 + (bus.hackRead (run inp x 1).dataAddr cycle mem).1.2)).dataIn =
        (bus.hackRead (run inp x 1).dataAddr cycle mem).1.1
  /-- M is written without being read. -/
  write : ∀ a d be, x.storeReq = some (a, d, be) →
    Waits inp (bus.hackWrite a d (cycle + 1) mem).1
  /-- M is written after it has been read. -/
  readWrite : (run inp x 1).state = .memWait → ∀ y w mem₁ a d be,
    bus.hackRead (run inp x 1).dataAddr cycle mem = ((y, w), mem₁) →
    (run inp x (w + 2)).storeReq = some (a, d, be) →
    Waits (fun k ↦ inp (w + 2 + k)) (bus.hackWrite a d (cycle + 3 + w) mem₁).1

section

variable {s : Cpu} {e : Soc σ} {inp : ℕ → CpuIn} {wf : ℕ}

/-- The EXECUTE of the Hack instruction that a FETCH gets after `wf` waits. -/
def hackExecuting (s : Cpu) (i : CpuIn) (wf : ℕ) : Cpu :=
  { (s.idles (wf + 1)).quiet with
    irReg := i.instrIn
    pcPlus4Reg := s.pcReg + 4#32
    rIrq := false
    rIrqCause := s.csrs.irqCause i.lines
    state := .execute }

theorem hack_fetched {i : CpuIn} (hr : s.isRiscvMode = false) (hf : s.state = .fetch)
    (hsoft : i.softRst = false) (hready : i.instrReady = true) :
    (s.idles wf).tick i = hackExecuting s i wf := by
  have hwb : (s.idles wf).hackRegWrite i = none := by
    simp [Rtl.Cpu.hackRegWrite, Rtl.Cpu.hackWriteback, Rtl.Cpu.idles, hf]
  rw [Rtl.Cpu.tick, if_neg (by simp [hsoft]), Rtl.Cpu.hack_tickUnits (x := s.idles wf) hr hsoft
    (by change s.state ≠ _; simp [hf]), hwb, Rtl.Cpu.tickState,
    show (s.idles wf).state = .fetch from hf, Rtl.Cpu.idles_idles]
  dsimp only
  rw [if_pos hready, hackExecuting, show (s.idles wf).isRiscvMode = false from hr]
  simp only [Bool.and_false]
  rfl

theorem hack_run_fetch (hr : s.isRiscvMode = false) (hf : s.state = .fetch)
    (hwait : ∀ k < wf, (inp k).instrReady = false) (hsoft : ∀ k < wf, (inp k).softRst = false) :
    ∀ k ≤ wf, run inp s k = s.idles k :=
  Rtl.Cpu.run_idles fun k hk ↦
    Rtl.Cpu.hack_fetch_wait (x := s.idles k) hr hf (hsoft k hk) (hwait k hk)

theorem hack_observe_fetch (hr : s.isRiscvMode = false) (hf : s.state = .fetch)
    (hwait : ∀ k < wf, (inp k).instrReady = false) (hready : (inp wf).instrReady = true)
    (hsoft : ∀ k < wf, (inp k).softRst = false) :
    stores inp s (wf + 1) = [] ∧ waits inp s (wf + 1) = wf := by
  have hrun := hack_run_fetch hr hf hwait hsoft
  have hst : ∀ k, (s.idles k).storeReq = none := by
    intro k
    simp [Rtl.Cpu.storeReq, Rtl.Cpu.memWrite, Rtl.Cpu.idles, hf, hr]
  have hw : ∀ k (i : CpuIn), Rtl.Cpu.waiting i (s.idles k) = !i.instrReady := by
    intro k i
    simp [Rtl.Cpu.waiting, Rtl.Cpu.dataReq, Rtl.Cpu.memWrite, Rtl.Cpu.idles, hf, hr]
  have hobs : ∀ k ≤ wf, stores inp s k = [] ∧ waits inp s k = k := by
    intro k hk
    induction k with
    | zero => exact ⟨rfl, rfl⟩
    | succ k ih =>
      obtain ⟨ih₁, ih₂⟩ := ih (by omega)
      rw [stores, waits, ih₁, ih₂, hrun k (by omega), hst, hw, hwait k (by omega)]
      simp
  obtain ⟨h₁, h₂⟩ := hobs wf le_rfl
  rw [stores, waits, h₁, h₂, hrun wf le_rfl, hst, hw, hready]
  simp

theorem hack_regs {f : BitVec 5 → Word} (hf : ∀ q, f q = s.reg q) {t x' : Cpu}
    (ht : t.registers = x'.hackRegs s.registers) {weA weD : Bool} (ha : x'.hackOp.weRegA = weA)
    (hd : x'.hackOp.weRegD = weD) {out : Word} (hout : x'.aluResult = out) (q : BitVec 5) :
    (let g := if weA then Function.update f 1#5 out else f
      if weD then Function.update g 2#5 out else g) q = t.reg q := by
  have hstep : ∀ (f g : BitVec 5 → Word) (r : BitVec 5), r ≠ 0#5 →
      (∀ q, f q = if q = 0#5 then 0#32 else g q) → ∀ q, Function.update f r out q =
        if q = 0#5 then 0#32 else Function.update g r out q := by
    intro f g r hr hfg q
    by_cases hq : q = r
    · rw [hq, Function.update_self, Function.update_self, if_neg hr]
    · rw [Function.update_of_ne hq, Function.update_of_ne hq, hfg]
  unfold Rtl.Cpu.reg at *
  rw [ht, Rtl.Cpu.hackRegs, ha, hd, hout]
  cases weA <;> cases weD
  · exact hf q
  · exact hstep _ _ 2#5 (by decide) hf q
  · exact hstep _ _ 1#5 (by decide) hf q
  · exact hstep _ _ 2#5 (by decide) (hstep _ _ 1#5 (by decide) hf) q

/-- From the EXECUTE `x`, the next FETCH comes after `n` cycles, and the instruction ended in
`x'`. -/
structure HackRuns (inp : ℕ → CpuIn) (x : Cpu) (n w : ℕ) (x' : Cpu) : Prop where
  busy : ∀ k < n, (run inp x k).state ≠ .fetch
  state : (run inp x n).state = .fetch
  hack : (run inp x n).isRiscvMode = false
  pc : (run inp x n).pcReg = x'.nextPc
  registers : (run inp x n).registers = x'.hackRegs x.registers
  csrs : (run inp x n).csrs = x.csrs.elapse n
  reservation : (run inp x n).reservation = x.reservation
  stores : stores inp x n = x'.storeReq.toList
  waits : waits inp x n = w

/-- A comp that does not read M. -/
theorem hackRuns_direct {x : Cpu} (hr : x.isRiscvMode = false) (hs : x.state = .execute)
    (hu : x.hackOp.useMem = false) {v : ℕ} (hv : if x.hackOp.weMem then Waits inp v else v = 0)
    (hsoft : ∀ k < v + 1 + (if x.hackOp.weRegA && x.hackOp.weRegD then 1 else 0),
      (inp k).softRst = false) :
    HackRuns inp x (v + 1 + if x.hackOp.weRegA && x.hackOp.weRegD then 1 else 0) v x := by
  have h :=
    Rtl.Cpu.Ending.ends (x := x) ⟨hr, by rw [hu, if_neg Bool.false_ne_true]; exact hs⟩ hv hsoft
  exact ⟨h.busy, h.state, h.hack, h.pc, h.registers, h.csrs, h.reservation, h.stores, h.waits⟩

/-- A comp that reads M. -/
theorem hackRuns_read {x : Cpu} (hr : x.isRiscvMode = false) (hs : x.state = .execute)
    (hu : x.hackOp.useMem = true) {w v : ℕ} {d : Word} (hw : Waits (fun k ↦ inp (1 + k)) w)
    (hd : (inp (1 + w)).dataIn = d)
    (hv : if x.hackOp.weMem then Waits (fun k ↦ inp (w + 2 + k)) v else v = 0)
    (hsoft : ∀ k < w + 2 + (v + 1 + (if x.hackOp.weRegA && x.hackOp.weRegD then 1 else 0)),
      (inp k).softRst = false) :
    HackRuns inp x (w + 2 + (v + 1 + if x.hackOp.weRegA && x.hackOp.weRegD then 1 else 0)) (w + v)
      (x.hackLoaded w d) := by
  obtain ⟨hbusy, hend, hst, hwt⟩ := Rtl.Cpu.hack_read hr hs hu hw fun k hk ↦ hsoft k (by omega)
  rw [hd] at hend
  have hending : (x.hackLoaded w d).Ending := by
    refine ⟨hr, ?_⟩
    rw [show (x.hackLoaded w d).hackOp.useMem = true from hu, if_pos rfl]
    exact ⟨rfl, rfl⟩
  have h := hending.ends hv fun k hk ↦ hsoft _ (by
    change k < v + 1 + (if x.hackOp.weRegA && x.hackOp.weRegD then 1 else 0) at hk
    omega)
  have hrun : ∀ k, run inp x (w + 2 + k) = run (fun k ↦ inp (w + 2 + k)) (x.hackLoaded w d) k := by
    intro k
    rw [Rtl.Cpu.run_add, hend]
  constructor
  case busy =>
    intro k hk
    rcases Nat.lt_or_ge k (w + 2) with hlt | hge
    · exact hbusy k hlt
    · obtain ⟨j, rfl⟩ := Nat.exists_eq_add_of_le hge
      rw [hrun]
      exact h.busy j (by
        change j < v + 1 + (if x.hackOp.weRegA && x.hackOp.weRegD then 1 else 0)
        omega)
  case stores => rw [Rtl.Cpu.stores_add, hst, hend, List.nil_append]; exact h.stores
  case waits => rw [Rtl.Cpu.waits_add, hwt, hend]; exact congrArg (w + ·) h.waits
  all_goals rw [hrun]
  case state => exact h.state
  case hack => exact h.hack
  case pc => exact h.pc
  case registers => exact h.registers
  case csrs =>
    refine h.csrs.trans ?_
    change ((x.csrs.elapse 1).elapse (w + 1)).elapse
      (v + 1 + if x.hackOp.weRegA && x.hackOp.weRegD then 1 else 0) = _
    rw [Rtl.Csrs.elapse_elapse, Rtl.Csrs.elapse_elapse]
    congr 1
    omega
  case reservation => exact h.reservation

/-- **The RTL CPU executes Hack as the emulator's `step_hack`.**  From any FETCH of a Hack
instruction, over any waits of the fetch, of the read of M and of the write of M. -/
theorem rtl_executes_as_step_hack (hf : s.state = .fetch) (hc : HackCorresponds s e)
    (hwait : ∀ k < wf, (inp k).instrReady = false) (hready : (inp wf).instrReady = true)
    (ha : HackAnswers bus (e.cycle + wf) e.mem (fun k ↦ inp (wf + 1 + k)) (run inp s (wf + 1)))
    {p : Soc σ × Retire} (hp : (e.afterWait wf).stepHack bus (inp wf).instrIn .default = p)
    (hsoft : ∀ k < wf + p.2.cycles, (inp k).softRst = false) {op : Rtl.HackOp}
    (hop : op = (run inp s (wf + 1)).hackOp) :
    (∀ k ≤ wf, (run inp s k).state = .fetch) ∧
      (∀ k, wf < k → k < wf + p.2.cycles → (run inp s k).state ≠ .fetch) ∧
      (run inp s (wf + p.2.cycles)).state = .fetch ∧
      HackCorresponds (run inp s (wf + p.2.cycles)) (p.1.endStep p.2.cycles) ∧
      stores inp s (wf + p.2.cycles) = p.2.store.toList ∧
      (∀ a d be, p.2.store = some (a, d, be) → a = s.reg 1#5) ∧
      wf + p.2.cycles = waits inp s (wf + p.2.cycles) + 2 + (if op.useMem then 2 else 0) +
        if op.weRegA && op.weRegD then 1 else 0 := by
  set e₀ := e.afterWait wf with he₀
  have htwo : 2 ≤ p.2.cycles := by
    rw [← hp, (stepHack_eq bus e₀ (inp wf).instrIn rfl rfl rfl rfl).2.2]
    omega
  have hrun := hack_run_fetch hc.hack hf hwait fun k hk ↦ hsoft k (by omega)
  have hx : run inp s (wf + 1) = hackExecuting s (inp wf) wf := by
    rw [run, hrun wf le_rfl, hack_fetched hc.hack hf (hsoft wf (by omega)) hready]
  set x := hackExecuting s (inp wf) wf with hxdef
  rw [hx] at ha hop
  have htrans : op = Rtl.hackTranslator (Soc.hackIns e₀.pc (inp wf).instrIn) := by
    rw [emu_hackIns, show e₀.pc = s.pcReg from hc.pc, hop]
    rfl
  -- what the emulator reads and writes
  set A := e.regs 1#5 with hA
  have hxhack : x.isRiscvMode = false := hc.hack
  have hxA : x.rs2Data = A := by
    rw [Rtl.Cpu.rs2Data, if_neg (by simp [hxhack])]
    exact (hc.regs 1#5).symm
  have hxD : x.rs1Data = e.regs 2#5 := by
    rw [Rtl.Cpu.rs1Data, if_neg (by simp [hxhack])]
    exact (hc.regs 2#5).symm
  obtain ⟨y, w, mem, hread⟩ : ∃ y w mem, (if op.useMem then bus.hackRead A e₀.cycle e.mem
      else ((A, 0), e.mem)) = ((y, w), mem) := ⟨_, _, _, rfl⟩
  obtain ⟨out, hout⟩ : ∃ out, out = hackAlu op (e.regs 2#5) y := ⟨_, rfl⟩
  obtain ⟨v, mem', hwrite⟩ : ∃ v mem', (if op.weMem then bus.hackWrite A out
      (if op.useMem then e₀.cycle + 3 + w else e₀.cycle + 1) mem else (0, mem)) = (v, mem') :=
    ⟨_, _, rfl⟩
  obtain ⟨hstate, hstore, hcycles⟩ := stepHack_eq bus e₀ (inp wf).instrIn htrans hread hout hwrite
  rw [hp] at hstate hstore hcycles
  set n := (if op.useMem then w + 2 else 0) + (v + 1 + if op.weRegA && op.weRegD then 1 else 0)
    with hn
  have hlen : p.2.cycles = n + 1 := by
    rw [hcycles, hn]
    split <;> omega
  have hsoft' : ∀ k < n, (inp (wf + 1 + k)).softRst = false := fun k hk ↦ hsoft _ (by omega)
  -- the run on the RTL, with the state that the instruction ends in
  obtain ⟨x', hruns, hending, hx'op, hx'A, hx'pc, hx'alu⟩ : ∃ x' : Cpu,
      HackRuns (fun k ↦ inp (wf + 1 + k)) x n ((if op.useMem then w else 0) + v) x' ∧
      x'.Ending ∧ x'.hackOp = op ∧ x'.rs2Data = A ∧ x'.pcReg = s.pcReg ∧ x'.aluResult = out := by
    cases hu : op.useMem with
    | false =>
      rw [hu, if_neg Bool.false_ne_true] at hread
      simp only [Prod.mk.injEq] at hread
      obtain ⟨⟨rfl, rfl⟩, rfl⟩ := hread
      have hxu : x.hackOp.useMem = false := hop ▸ hu
      have hend : x.Ending := ⟨hxhack, by rw [hxu, if_neg Bool.false_ne_true]; rfl⟩
      have halu : x.aluResult = out := by
        rw [Rtl.Cpu.hack_aluResult hxhack, hxu, if_neg Bool.false_ne_true, hxD, hxA, hout, hop]
      have hv : if x.hackOp.weMem then Waits (fun k ↦ inp (wf + 1 + k)) v else v = 0 := by
        rw [hu, if_neg Bool.false_ne_true] at hwrite
        rw [← hop]
        cases hm : op.weMem with
        | false =>
          rw [hm, if_neg Bool.false_ne_true] at hwrite
          simp only [Prod.mk.injEq] at hwrite
          rw [if_neg Bool.false_ne_true]
          exact hwrite.1.symm
        | true =>
          rw [hm, if_pos rfl] at hwrite
          have h := ha.write A out 0b1111#4 (by
            rw [hend.storeReq, ← hop, hm, if_pos rfl, hxA, halu])
          rw [show e.cycle + wf = e₀.cycle from rfl, hwrite] at h
          rw [if_pos rfl]
          exact h
      have hruns := hackRuns_direct hxhack rfl hxu hv (by
        intro k hk
        rw [← hop] at hk
        refine hsoft' k ?_
        rw [hn, hu, if_neg Bool.false_ne_true]
        omega)
      rw [← hop] at hruns
      refine ⟨x, ?_, hend, hop.symm, hxA, rfl, halu⟩
      rw [hn, hu, if_neg Bool.false_ne_true, if_neg Bool.false_ne_true, Nat.zero_add, Nat.zero_add]
      exact hruns
    | true =>
      rw [hu, if_pos rfl] at hread
      have hxu : x.hackOp.useMem = true := hop ▸ hu
      have hone : run (fun k ↦ inp (wf + 1 + k)) x 1 = x.hackReading :=
        Rtl.Cpu.hack_tick_execute hxhack rfl hxu (hsoft' 0 (by
          rw [hn, hu, if_pos rfl]
          omega))
      have haddr : (run (fun k ↦ inp (wf + 1 + k)) x 1).dataAddr = A := by
        rw [hone, ← hxA, Rtl.Cpu.dataAddr,
          if_neg (by simp [show x.hackReading.isRiscvMode = false from
          hxhack])]
        rfl
      have hload := ha.read (by rw [hone]; rfl)
      rw [haddr, show e.cycle + wf = e₀.cycle from rfl, hread] at hload
      obtain ⟨hw, hd⟩ : Waits (fun k ↦ inp (wf + 1 + (1 + k))) w ∧
        (inp (wf + 1 + (1 + w))).dataIn = y := hload
      have hend : (x.hackLoaded w y).Ending := by
        refine ⟨hxhack, ?_⟩
        rw [show (x.hackLoaded w y).hackOp.useMem = true from hxu, if_pos rfl]
        exact ⟨rfl, rfl⟩
      have hx'A : (x.hackLoaded w y).rs2Data = A := hxA
      have hx'D : (x.hackLoaded w y).rs1Data = e.regs 2#5 := hxD
      have hx'op : (x.hackLoaded w y).hackOp = op := hop.symm
      have halu : (x.hackLoaded w y).aluResult = out := by
        rw [Rtl.Cpu.hack_aluResult (x := x.hackLoaded w y) hxhack, hx'op, hu, if_pos rfl, hx'D,
          hout]
        rfl
      have hv : if x.hackOp.weMem then Waits (fun k ↦ inp (wf + 1 + (w + 2 + k))) v else v = 0 := by
        rw [hu, if_pos rfl] at hwrite
        rw [← hop]
        cases hm : op.weMem with
        | false =>
          rw [hm, if_neg Bool.false_ne_true] at hwrite
          simp only [Prod.mk.injEq] at hwrite
          rw [if_neg Bool.false_ne_true]
          exact hwrite.1.symm
        | true =>
          rw [hm, if_pos rfl] at hwrite
          obtain ⟨-, hloaded, -, -⟩ := Rtl.Cpu.hack_read hxhack rfl hxu hw fun k hk ↦ hsoft' k (by
            rw [hn, hu, if_pos rfl]
            omega)
          rw [hd] at hloaded
          have h := ha.readWrite (by rw [hone]; rfl) y w mem A out 0b1111#4
            (by rw [haddr]; exact hread)
            (by rw [hloaded, hend.storeReq, hx'op, hm, if_pos rfl, hx'A, halu])
          rw [show e.cycle + wf = e₀.cycle from rfl, hwrite] at h
          rw [if_pos rfl]
          exact h
      have hruns := hackRuns_read hxhack rfl hxu hw hd hv (by
        intro k hk
        rw [← hop] at hk
        refine hsoft' k ?_
        rw [hn, hu, if_pos rfl]
        exact hk)
      rw [← hop] at hruns
      refine ⟨x.hackLoaded w y, ?_, hend, hx'op, hx'A, rfl, halu⟩
      rw [hn, hu, if_pos rfl, if_pos rfl]
      exact hruns
  obtain ⟨hst, hwt⟩ := hack_observe_fetch hc.hack hf hwait hready fun k hk ↦ hsoft k (by omega)
  have hend : run inp s (wf + p.2.cycles) = run (fun k ↦ inp (wf + 1 + k)) x n := by
    rw [hlen, show wf + (n + 1) = wf + 1 + n by omega, Rtl.Cpu.run_add, hx]
  have hreq : x'.storeReq.toList = p.2.store.toList := by
    rw [hending.storeReq, hstore, hx'op, hx'A, hx'alu]
    rfl
  refine ⟨?_, ?_, ?_, ?_, ?_, ?_, ?_⟩
  · intro k hk
    rw [hrun k hk]
    exact hf
  · intro k hlo hhi
    obtain ⟨j, rfl⟩ := Nat.exists_eq_add_of_le (show wf + 1 ≤ k from hlo)
    rw [Rtl.Cpu.run_add, hx]
    exact hruns.busy j (by omega)
  · rw [hend]
    exact hruns.state
  · rw [hend]
    constructor
    case hack => exact hruns.hack
    case mode =>
      rw [hstate]
      exact hc.mode
    case regs =>
      rw [hstate]
      refine hack_regs hc.regs hruns.registers ?_ ?_ hx'alu
      · rw [hx'op]
      · rw [hx'op]
    case pc =>
      rw [hstate, hruns.pc, hending.nextPc, hx'op, hx'alu, hx'A, hx'pc]
      change (if Rtl.hackJumpTake op.jumpCond out = true then A <<< 1 else e.pc + 2#32) = _
      rw [hc.pc]
    case csr =>
      rw [hstate, hruns.csrs, show x.csrs = s.csrs.elapse (wf + 1) from rfl,
        Rtl.Csrs.elapse_elapse, hlen]
      unfold Soc.endStep
      rw [show e₀.mcycleWritten = none from hc.written, show e₀.csr =
        (s.csrs.elapse wf).toEmu by rw [he₀, Soc.afterWait, hc.csr]; rfl]
      change Rtl.Csrs.toEmu ((s.csrs.elapse wf).elapse (n + 1)) = _
      rw [Rtl.Csrs.elapse_elapse]
      congr 2
      omega
    case reservation =>
      rw [hstate, hruns.reservation]
      exact hc.reservation
    case written => rfl
  · rw [hlen, show wf + (n + 1) = wf + 1 + n by omega, Rtl.Cpu.stores_add, hst, hx, List.nil_append,
      hruns.stores, hreq]
  · intro a d be h
    rw [hstore] at h
    split at h
    · simp only [Option.some.injEq, Prod.mk.injEq] at h
      rw [← h.1]
      exact hc.regs 1#5
    · exact absurd h (by simp)
  · rw [hlen, show wf + (n + 1) = wf + 1 + n by omega, Rtl.Cpu.waits_add, hwt, hx, hruns.waits, hn]
    split <;> omega

/-- A bus on which M is 5, and every access of M waits a cycle. -/
def hackBus : Bus Unit where
  fetch := fun _ _ m ↦ ((0#32, 0), m)
  loadWait := fun _ m ↦ (0, m)
  readWord := fun _ _ m ↦ (0#32, m)
  write := fun _ _ _ _ m ↦ (0, m)
  hackRead := fun _ _ m ↦ ((5#32, 1), m)
  hackWrite := fun _ _ _ m ↦ (1, m)
  mipAt := fun _ m ↦ (0#32, m)
  mtime := fun _ _ ↦ 0#64

/-- `AMD=M+1` on such a data side. -/
def amdInputs (k : ℕ) : CpuIn where
  softRst := false
  bootModeValid := false
  bootMode := false
  instrIn := 0x0000FDF8#32
  instrReady := true
  dataIn := 5#32
  dataReady := k = 3 ∨ k = 5
  lines := ⟨false, false, false⟩
  mtime := 0#64

/-- The CPU after a soft reset into Hack mode. -/
def hackStart : Cpu :=
  (Rtl.Cpu.powerOn fun _ ↦ 0#32).resetState false

theorem rtl_executes_amd :
    (run amdInputs hackStart 7).state = .fetch ∧
      stores amdInputs hackStart 7 = [(0#32, 6#32, 0b1111#4)] := by
  have h :=
    @rtl_executes_as_step_hack _ hackBus hackStart
      { resetSoc with riscvMode := false } amdInputs _ rfl
    ⟨rfl, rfl, fun q ↦ by unfold Rtl.Cpu.reg; split <;> rfl, rfl, rfl, rfl, rfl⟩
    (fun k hk ↦ absurd hk (Nat.not_lt_zero k)) rfl
    ⟨fun _ ↦ ⟨⟨fun k hk ↦ by
        rw [Nat.lt_one_iff.mp hk]
        rfl, rfl⟩, rfl⟩, fun _ _ _ h ↦ absurd h nofun, fun _ y w m a d be hread _ ↦ by
      obtain rfl : 1 = w := congrArg (fun p ↦ p.1.2) hread
      exact ⟨fun k hk ↦ by
        rw [Nat.lt_one_iff.mp hk]
        rfl, rfl⟩⟩ _ rfl (fun _ _ ↦ rfl) _ rfl
  exact ⟨h.2.2.1, h.2.2.2.2.1⟩

end

end

end Vux9k

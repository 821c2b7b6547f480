import Vux9k.Rtl.Cpu

/-!
# Runs of the CPU

A run of `unified_cpu` on a stream of inputs, with the store requests that complete in it and the
cycles in which it waits for the fetch or for the data side; and what holds in every reachable
state: `mstatus` keeps to its implemented bits, and every address that an RV32 instruction is
fetched from is a multiple of four.
-/

set_option autoImplicit false

namespace Vux9k.Rtl

/-- The address of a word. -/
def Aligned (a : Word) : Prop := a.extractLsb' 0 2 = 0#2

instance : DecidablePred Aligned := fun a ↦ inferInstanceAs (Decidable (a.extractLsb' 0 2 = 0#2))

theorem Aligned.add {a b : Word} (ha : Aligned a) (hb : Aligned b) : Aligned (a + b) := by
  unfold Aligned at *
  apply BitVec.eq_of_toNat_eq
  have ha' := congrArg BitVec.toNat ha
  have hb' := congrArg BitVec.toNat hb
  simp only [BitVec.extractLsb'_toNat, BitVec.toNat_add, BitVec.toNat_ofNat] at *
  omega

theorem aligned_zero : Aligned 0#32 := rfl

theorem aligned_four : Aligned 4#32 := rfl

theorem aligned_and (v : Word) : Aligned (v &&& 0xFFFFFFFC#32) := by
  apply BitVec.eq_of_getLsbD_eq
  intro j hj
  interval_cases j <;> simp

namespace Csrs

/-- The bits of `mstatus` that a write can set. -/
def mstatusMask : Word := 0x00220088#32

/-- What the CSRs keep to. -/
structure Wf (c : Csrs) : Prop where
  mstatus : c.mstatus &&& mstatusMask = c.mstatus
  mtvec : Aligned c.mtvec
  mepc : Aligned c.mepc

theorem Wf.reset : Wf .reset := ⟨rfl, rfl, rfl⟩

theorem setBit_mask {m : Word} (h : m &&& mstatusMask = m) {n : ℕ} (hn : n = 3 ∨ n = 7 ∨ n = 17)
    (b : Bool) : setBit m n b &&& mstatusMask = setBit m n b := by
  have hb : (BitVec.ofBool b).setWidth 32 <<< n &&& mstatusMask =
      (BitVec.ofBool b).setWidth 32 <<< n := by
    rcases hn with rfl | rfl | rfl <;> cases b <;> rfl
  unfold setBit
  rw [BitVec.and_comm, BitVec.and_or_distrib_left,
    BitVec.and_comm _ (BitVec.setWidth 32 _ <<< n), hb,
    ← BitVec.and_assoc, BitVec.and_comm _ m, h]

theorem Wf.count {c : Csrs} (h : c.Wf) (wr : Option (BitVec 12)) (retire : Bool) :
    (c.count wr retire).Wf := ⟨h.mstatus, h.mtvec, h.mepc⟩

theorem Wf.trapEntry {c : Csrs} (h : c.Wf) {pc : Word} (hpc : Aligned pc) (cause val : Word) :
    (c.trapEntry pc cause val).Wf where
  mstatus := setBit_mask (setBit_mask h.mstatus (by decide) _) (by decide) _
  mtvec := h.mtvec
  mepc := hpc

theorem Wf.trapReturn {c : Csrs} (h : c.Wf) : c.trapReturn.Wf where
  mstatus := by
    have h1 := setBit_mask (setBit_mask h.mstatus (n := 3) (by decide) (c.mstatus.getLsbD 7))
      (n := 7) (by decide) true
    unfold Csrs.trapReturn
    dsimp only
    split
    · exact setBit_mask h1 (by decide) false
    · exact h1
  mtvec := h.mtvec
  mepc := h.mepc

theorem Wf.write {c : Csrs} (h : c.Wf) (addr : BitVec 12) (v : Word) : (c.write addr v).Wf := by
  have hmask : v &&& 0x00220088#32 &&& mstatusMask = v &&& 0x00220088#32 := by
    rw [BitVec.and_assoc]
    rfl
  unfold Csrs.write
  split
  · exact ⟨hmask, h.mtvec, h.mepc⟩
  · exact ⟨h.mstatus, h.mtvec, h.mepc⟩
  · exact ⟨h.mstatus, aligned_and v, h.mepc⟩
  · exact ⟨h.mstatus, h.mtvec, h.mepc⟩
  · exact ⟨h.mstatus, h.mtvec, aligned_and v⟩
  all_goals exact ⟨h.mstatus, h.mtvec, h.mepc⟩

theorem Wf.tick {c : Csrs} (h : c.Wf) {trap : Trap} {pc : Word}
    (hpc : trap ≠ .none → Aligned pc) (wr : Option (BitVec 12 × Word)) (retire : Bool) :
    (c.tick trap pc wr retire).Wf := by
  have hcount := h.count (wr.map Prod.fst) retire
  cases trap with
  | entry cause val => exact hcount.trapEntry (hpc (by simp)) cause val
  | «return» => exact hcount.trapReturn
  | none =>
    cases wr with
    | none => exact hcount
    | some w => exact hcount.write w.1 w.2

end Csrs

namespace Cpu

/-! ## The invariant -/

/-- What holds between two clock edges. -/
structure Wf (s : Cpu) : Prop where
  csrs : s.csrs.Wf
  pc : s.isRiscvMode = true → Aligned s.pcReg
  pcPlus4 : s.isRiscvMode = true → Aligned s.pcPlus4Reg
  state : s.isRiscvMode = true → s.state ≠ .hackWb ∧ s.state ≠ .hackWrD

theorem riscv_of_trap {s : Cpu} (h : s.trap ≠ .none) :
    s.isRiscvMode = true ∧ s.state = .execute := by
  unfold trap execRv at h
  split at h
  · simp_all
  · exact absurd rfl h

theorem trap_of_state {s : Cpu} (h : s.state ≠ .execute) : s.trap = .none := by
  by_contra hne
  exact h (riscv_of_trap hne).2

theorem aligned_of_bits {a : Word} (h0 : a.getLsbD 0 = false) (h1 : a.getLsbD 1 = false) :
    Aligned a := by
  apply BitVec.eq_of_getLsbD_eq
  intro j hj
  rw [BitVec.getLsbD_extractLsb', zero_add]
  interval_cases j
  · rw [h0]
    rfl
  · rw [h1]
    rfl

theorem imm_jump_even {i : Word} (h : opcode i = .jal ∨ opcode i = .branch) :
    (imm i).getLsbD 0 = false := by
  unfold imm
  rcases h with h | h <;> rw [h] <;> dsimp only <;>
    simp only [-Nat.reduceAdd, BitVec.getLsbD_signExtend, BitVec.getLsbD_append] <;> simp

theorem extract_add (a b : Word) :
    (a + b).extractLsb' 0 2 = a.extractLsb' 0 2 + b.extractLsb' 0 2 := by
  apply BitVec.eq_of_toNat_eq
  simp only [BitVec.extractLsb'_toNat, BitVec.toNat_add]
  omega

theorem memAddrLow_eq (s : Cpu) : s.memAddrLow = s.rvMemAddr.extractLsb' 0 2 :=
  (extract_add _ _).symm

theorem fetchMisalign_of_trap {s : Cpu} (hr : s.isRiscvMode = true) (hs : s.state = .execute)
    (h : s.trap = .none) : fetchMisalign s.irReg (branchTake (funct3 s.irReg) s.rs1Data s.rs2Data)
      s.memAddrLow = false := by
  have hexec : s.execRv = true := by
    rw [execRv, hr, hs]
    rfl
  rw [trap, if_pos hexec, trapUnit] at h
  by_contra hne
  rw [Bool.not_eq_false] at hne
  rw [if_pos hne] at h
  split_ifs at h

/-- The target of a jump that does not trap is aligned. -/
theorem aligned_nextPc {s : Cpu} (h : s.Wf) (hr : s.isRiscvMode = true) (hs : s.state = .execute) :
    Aligned s.nextPc := by
  unfold nextPc
  rw [if_pos hr, if_neg (by rw [hs]; decide)]
  cases ht : s.trap with
  | entry cause val => exact h.csrs.mtvec
  | «return» => exact h.csrs.mepc
  | none =>
    have hm := fetchMisalign_of_trap hr hs ht
    unfold fetchMisalign at hm
    have himm : ∀ hj : opcode s.irReg = .jal ∨ opcode s.irReg = .branch,
        (imm s.irReg).getLsbD 1 = false → Aligned (s.pcReg + imm s.irReg) := by
      intro hj h1
      exact (h.pc hr).add (aligned_of_bits (imm_jump_even hj) h1)
    dsimp only
    split
    · rename_i hop
      rw [hop] at hm
      split
      · rename_i htake
        rw [htake, Bool.and_true] at hm
        exact himm (.inr hop) hm
      · exact h.pcPlus4 hr
    · rename_i hop
      rw [hop] at hm
      exact himm (.inl hop) hm
    · rename_i hop
      rw [hop] at hm
      have h1 : s.rvMemAddr.getLsbD 1 = false := by
        rw [← hm, memAddrLow_eq]
        simp
      exact aligned_of_bits (by simp [jalrTarget])
        (by rw [jalrTarget, BitVec.getLsbD_and, h1, Bool.false_and])
    · exact h.pcPlus4 hr

theorem tickState_csrs (s u : Cpu) (i : CpuIn) : (s.tickState i u).csrs = u.csrs := by
  unfold tickState
  split <;> (try split_ifs) <;> rfl

theorem tick_csrs (s : Cpu) (i : CpuIn) : (s.tick i).csrs = (s.tickUnits i).csrs := by
  unfold tick
  split
  · rfl
  · exact tickState_csrs s _ i

theorem tickState_isRiscvMode (s u : Cpu) (i : CpuIn) :
    (s.tickState i u).isRiscvMode = u.isRiscvMode := by
  unfold tickState
  split <;> (try split_ifs) <;> rfl

theorem Wf.tickUnits_csrs {s : Cpu} (h : s.Wf) (i : CpuIn) : (s.tickUnits i).csrs.Wf := by
  unfold tickUnits
  dsimp only
  split
  · exact .reset
  · exact h.csrs.tick (fun ht ↦ h.pc (riscv_of_trap ht).1) _ _

/-- The program counters and the state that an edge without a reset leaves. -/
theorem Wf.tickState_pc {s : Cpu} (h : s.Wf) (i : CpuIn) (hr : s.isRiscvMode = true) {u : Cpu}
    (hpc : u.pcReg = s.pcReg) (h4 : u.pcPlus4Reg = s.pcPlus4Reg) (hst : u.state = s.state) :
    Aligned (s.tickState i u).pcReg ∧ Aligned (s.tickState i u).pcPlus4Reg ∧
      (s.tickState i u).state ≠ .hackWb ∧ (s.tickState i u).state ≠ .hackWrD := by
  have hu : Aligned u.pcReg := hpc ▸ h.pc hr
  have hu4 : Aligned u.pcPlus4Reg := h4 ▸ h.pcPlus4 hr
  have hdual : s.hackDualDest = false := by
    rw [hackDualDest, hr]
    rfl
  unfold tickState
  cases hs : s.state with
  | fetch =>
    dsimp only
    split
    · exact ⟨hu, (h.pc hr).add aligned_four, by simp⟩
    · exact ⟨hu, hu4, by rw [hst, hs]; simp⟩
  | execute =>
    have hnext := aligned_nextPc h hr hs
    dsimp only
    split_ifs
    · exact ⟨hnext, hu4, by simp⟩
    · exact ⟨hu, hu4, by simp⟩
    · exact ⟨hnext, hu4, by simp⟩
    · exact ⟨hu, hu4, by simp⟩
    · exact ⟨hu, hu4, by simp⟩
    · exact ⟨hu, hu4, by simp⟩
    · exact ⟨hu, hu4, by simp⟩
    · exact ⟨hu, hu4, by rw [hst, hs]; simp⟩
    · exact ⟨hnext, hu4, by simp [endInstr, hdual]⟩
  | memWait =>
    dsimp only
    split_ifs
    · exact ⟨hu, hu4, by simp⟩
    · exact ⟨h.pcPlus4 hr, hu4, by simp⟩
    · exact ⟨hu, hu4, by rw [hst, hs]; simp⟩
  | hackWb => exact absurd hs (h.state hr).1
  | hackWrD => exact absurd hs (h.state hr).2
  | muldivWait =>
    dsimp only
    split
    · exact ⟨h.pcPlus4 hr, hu4, by simp⟩
    · exact ⟨hu, hu4, by rw [hst, hs]; simp⟩
  | amoCalc => exact ⟨hu, hu4, by simp⟩

theorem Wf.tick {s : Cpu} (h : s.Wf) (i : CpuIn) : (s.tick i).Wf := by
  have hcsrs : (s.tick i).csrs.Wf := by
    rw [tick_csrs]
    exact h.tickUnits_csrs i
  unfold Cpu.tick at *
  by_cases hsoft : i.softRst = true
  · rw [if_pos hsoft] at *
    exact ⟨hcsrs, fun _ ↦ aligned_zero, fun _ ↦ aligned_four, fun _ ↦ ⟨nofun, nofun⟩⟩
  · rw [if_neg hsoft] at *
    have hpc := fun hr ↦ h.tickState_pc i (u := s.tickUnits i) hr rfl rfl rfl
    have hmode := tickState_isRiscvMode s (s.tickUnits i) i
    exact ⟨hcsrs, fun hr ↦ (hpc (hmode ▸ hr)).1, fun hr ↦ (hpc (hmode ▸ hr)).2.1,
      fun hr ↦ (hpc (hmode ▸ hr)).2.2⟩

theorem Reachable.wf {s : Cpu} (h : Reachable s) : s.Wf := by
  induction h with
  | powerOn registers =>
    exact ⟨.reset, fun _ ↦ aligned_zero, fun _ ↦ aligned_four, fun _ ↦ ⟨nofun, nofun⟩⟩
  | tick i _ ih => exact ih.tick i

/-! ## Runs -/

/-- The state after `n` cycles on the inputs `inp`. -/
def run (inp : ℕ → CpuIn) (s : Cpu) : ℕ → Cpu
  | 0 => s
  | n + 1 => (run inp s n).tick (inp n)

theorem run_add (inp : ℕ → CpuIn) (s : Cpu) (m n : ℕ) :
    run inp s (m + n) = run (fun k ↦ inp (m + k)) (run inp s m) n := by
  induction n with
  | zero => rfl
  | succ n ih =>
    change (run inp s (m + n)).tick (inp (m + n)) = _
    rw [ih]
    rfl

theorem Reachable.run {s : Cpu} (h : Reachable s) (inp : ℕ → CpuIn) (n : ℕ) :
    Reachable (run inp s n) := by
  induction n with
  | zero => exact h
  | succ n ih => exact ih.tick (inp n)

/-- The store on the data bus in a cycle: `data_waddr`, `data_out` and `mem_byte_we`. -/
def storeReq (s : Cpu) : Option (Word × Word × BitVec 4) :=
  if s.dataReq && s.memWrite then some (s.dataWaddr, s.dataOut, s.memByteWe) else none

/-- The cycle is one that waits: for the instruction or for the data. -/
def waiting (i : CpuIn) (s : Cpu) : Bool :=
  (s.state = .fetch && !i.instrReady) || (s.dataReq && !i.dataReady)

/-- The stores that complete in the first `n` cycles. -/
def stores (inp : ℕ → CpuIn) (s : Cpu) : ℕ → List (Word × Word × BitVec 4)
  | 0 => []
  | n + 1 => stores inp s n ++
      if (inp n).dataReady then (run inp s n).storeReq.toList else []

/-- How many of the first `n` cycles wait. -/
def waits (inp : ℕ → CpuIn) (s : Cpu) : ℕ → ℕ
  | 0 => 0
  | n + 1 => waits inp s n + if waiting (inp n) (run inp s n) then 1 else 0

theorem stores_add (inp : ℕ → CpuIn) (s : Cpu) (m n : ℕ) :
    stores inp s (m + n) = stores inp s m ++ stores (fun k ↦ inp (m + k)) (run inp s m) n := by
  induction n with
  | zero => exact (List.append_nil _).symm
  | succ n ih =>
    rw [← Nat.add_assoc, stores, stores, ih, run_add, List.append_assoc]

theorem waits_add (inp : ℕ → CpuIn) (s : Cpu) (m n : ℕ) :
    waits inp s (m + n) = waits inp s m + waits (fun k ↦ inp (m + k)) (run inp s m) n := by
  induction n with
  | zero => rfl
  | succ n ih =>
    rw [← Nat.add_assoc, waits, waits, ih, run_add, Nat.add_assoc]

end Cpu

end Vux9k.Rtl

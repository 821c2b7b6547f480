import Vux9k.Lockstep.MmioTiming

/-!
# The MMIO accesses of both machines

The accesses that the RTL makes and those that the emulator makes, instruction by instruction: the
cycles are the same but for the store of an AMO, to which `rv_write` adds the two cycles of a plain
store after `exec_amo` has counted them already.
-/

set_option autoImplicit false

namespace Vux9k

open Emu (Peripheral Peripherals Outside Logged MmioAccess Soc Bus Retire)
open Rtl (SocTop SocIn Cpu CpuIn Device)
open Rtl.SocTop (run Reachable Instruction)

/-! ## The instruction in EXECUTE -/

section

variable {inp : ℕ → SocIn} {s : SocTop} {m n : ℕ}

/-- No soft reset begins in a FETCH. -/
theorem softRst_of_fetch (hs : Reachable s) (hrst : s.gpio.cpuSoftRst = false)
    (hfetch : ∀ k ≤ m, (run inp s k).cpu.state = .fetch) :
    ∀ k ≤ m, (cpuInputs inp s k).softRst = false := by
  intro k hk
  induction k with
  | zero => exact hrst
  | succ k ih =>
    have hnow : (run inp s k).gpio.cpuSoftRst = false := ih (by omega)
    have hwe := ((hs.run inp k).inv.quiet_fetch (i := inp k) (hfetch k (by omega))).2
    have hcnt : (run inp s k).gpio.rstPulseCnt = 0 := by simpa [Rtl.Gpio.cpuSoftRst] using hnow
    change Rtl.Gpio.cpuSoftRst (Rtl.Gpio.tick _ _ _ _) = false
    rw [hwe, Bool.false_and, Rtl.Gpio.tick, if_neg Bool.false_ne_true, if_neg (not_not.mpr hcnt)]
    exact hnow

/-- An instruction comes with the last of its FETCH cycles. -/
theorem answered_of_fetch (h : Instruction inp s m n) (hs : Reachable s)
    (hrst : s.gpio.cpuSoftRst = false) (hfetch : ∀ k ≤ m, (run inp s k).cpu.state = .fetch) :
    (∀ k < m, (cpuInputs inp s k).instrReady = false) ∧ (cpuInputs inp s m).instrReady = true := by
  have hsoft := softRst_of_fetch hs hrst hfetch
  have hnext : ∀ k ≤ m, (run inp s (k + 1)).cpu.state =
      if (cpuInputs inp s k).instrReady then .execute else .fetch := by
    intro k hk
    have htick := Cpu.tick_of_running (s := (run inp s k).cpu) (hsoft k hk)
    rw [Cpu.tickState, hfetch k hk] at htick
    rw [run, SocTop.tick_cpu]
    refine (congrArg Cpu.state htick).trans ?_
    dsimp only
    split
    · rfl
    · exact hfetch k hk
  constructor
  · intro k hk
    by_contra hready
    rw [Bool.not_eq_false] at hready
    have hst := hnext k hk.le
    rw [hready, if_pos rfl, hfetch (k + 1) hk] at hst
    cases hst
  · by_contra hready
    rw [Bool.not_eq_true] at hready
    have hst := hnext m le_rfl
    rw [hready, if_neg Bool.false_ne_true, h.execute] at hst
    cases hst

theorem executing_of_instruction (h : Instruction inp s m n) (hs : Reachable s)
    (hrst : s.gpio.cpuSoftRst = false) (hfetch : ∀ k ≤ m, (run inp s k).cpu.state = .fetch)
    (hr : s.cpu.isRiscvMode = true) :
    (run inp s (m + 1)).cpu = executing s.cpu (cpuInputs inp s m) m := by
  obtain ⟨hwait, hready⟩ := answered_of_fetch h hs hrst hfetch
  have hsoft := softRst_of_fetch hs hrst hfetch
  have hcpu := cpu_run inp s 0 m
  simp only [Nat.zero_add] at hcpu
  have hf : s.cpu.state = .fetch := hfetch 0 (Nat.zero_le m)
  rw [run, SocTop.tick_cpu, hcpu]
  change (Cpu.run (cpuInputs inp s) s.cpu m).tick (cpuInputs inp s m) = _
  rw [run_fetch hr hf hwait (fun k hk ↦ hsoft k hk.le) m le_rfl]
  exact tick_fetched hr hf (hsoft m le_rfl) hready

theorem hackExecuting_of_instruction (h : Instruction inp s m n) (hs : Reachable s)
    (hrst : s.gpio.cpuSoftRst = false) (hfetch : ∀ k ≤ m, (run inp s k).cpu.state = .fetch)
    (hr : s.cpu.isRiscvMode = false) :
    (run inp s (m + 1)).cpu = hackExecuting s.cpu (cpuInputs inp s m) m := by
  obtain ⟨hwait, hready⟩ := answered_of_fetch h hs hrst hfetch
  have hsoft := softRst_of_fetch hs hrst hfetch
  have hcpu := cpu_run inp s 0 m
  simp only [Nat.zero_add] at hcpu
  have hf : s.cpu.state = .fetch := hfetch 0 (Nat.zero_le m)
  rw [run, SocTop.tick_cpu, hcpu]
  change (Cpu.run (cpuInputs inp s) s.cpu m).tick (cpuInputs inp s m) = _
  rw [hack_run_fetch hr hf hwait (fun k hk ↦ hsoft k hk.le) m le_rfl]
  exact hack_fetched hr hf (hsoft m le_rfl) hready

end

/-! ## Whether it reads and whether it stores -/

section

variable {σ : Type} {c : Rtl.Csrs} {x : Cpu} {e : Soc σ} {irq : Option Word}

theorem AtExecute.rvExecutes (hx : AtExecute c x e)
    (hirq : irq = if x.rIrq then some x.rIrqCause else none) :
    rvExecutes e x.irReg irq = true ↔ Legal x := by
  rw [Vux9k.rvExecutes, hx.rvIllegal, hirq]
  constructor
  · intro h
    rw [Bool.and_eq_true, Bool.not_eq_true'] at h
    refine ⟨?_, h.2⟩
    by_contra hr
    simp [hr] at h
  · rintro ⟨hr, hl⟩
    simp [hr, hl]

/-- What traps in EXECUTE before its kind matters neither reads nor stores. -/
theorem not_accesses (hx : x.Executing) (h : ¬Legal x) :
    x.dataRead = false ∧ x.dataStore = false := by
  have htrap : x.trap ≠ .none := by
    cases hr : x.rIrq with
    | true =>
      rw [trap_irq hx hr]
      rintro ⟨⟩
    | false =>
      rw [trap_illegal hx hr (by by_contra hl; exact h ⟨hr, by simpa using hl⟩)]
      rintro ⟨⟩
  simp [Cpu.dataRead, Cpu.dataStore, htrap]

theorem AtExecute.rvAddr (hx : AtExecute c x e) (hop : Rtl.opcode x.irReg = .load ∨
    Rtl.opcode x.irReg = .store ∨ Rtl.opcode x.irReg = .amo) :
    Vux9k.rvAddr e x.irReg = x.rvMemAddr := by
  rw [Vux9k.rvAddr, emu_op]
  rcases hop with hop | hop | hop
  · rw [hop, hx.rvMemAddr_imm (.inr hop)]
    rfl
  · rw [hop, Rtl.Cpu.rvMemAddr, imm_store _ hop, ← hx.reg1]
    rfl
  · rw [hop, Rtl.Cpu.rvMemAddr, Rtl.imm, hop, ← hx.reg1]
    exact (BitVec.add_zero _).symm

/-- An instruction accesses data on both sides or on none. -/
theorem AtExecute.accesses (hx : AtExecute c x e)
    (hirq : irq = if x.rIrq then some x.rIrqCause else none) :
    x.dataRead = rvReads e x.irReg irq ∧ x.dataStore = rvStores e x.irReg irq := by
  by_cases h : Legal x
  swap
  · have hno : Vux9k.rvExecutes e x.irReg irq = false :=
      Bool.eq_false_of_not_eq_true fun hyes ↦ h ((hx.rvExecutes hirq).mp hyes)
    obtain ⟨hread, hstore⟩ := not_accesses hx.executing h
    rw [hread, hstore, rvReads, rvStores, hno]
    exact ⟨rfl, rfl⟩
  have hexec := (hx.rvExecutes hirq).mpr h
  have hr := hx.executing.riscv
  -- the trap of a load or a store is the misaligned address
  have hmem : Rtl.opcode x.irReg = .load ∨ Rtl.opcode x.irReg = .store →
      decide (x.trap = .none) = !Emu.misaligned (Vux9k.rvAddr e x.irReg) (Emu.funct3 x.irReg) := by
    intro hop
    have ht := trap_legal hx.executing h (by rcases hop with hop | hop <;> simp [hop])
    have haddr := hx.rvAddr (hop.imp id .inl)
    have hmis : Emu.misaligned (Vux9k.rvAddr e x.irReg) (Emu.funct3 x.irReg) =
        Rtl.memMisalign x.irReg x.memAddrLow := by
      rw [haddr, emu_funct3, Rtl.memMisalign, Rtl.Cpu.memAddrLow_eq]
      rcases hop with hop | hop <;> rw [hop] <;> exact misaligned_eq _ _
    have hfetch : Rtl.fetchMisalign x.irReg
        (Rtl.branchTake (Rtl.funct3 x.irReg) x.rs1Data x.rs2Data) x.memAddrLow = false := by
      rw [Rtl.fetchMisalign]
      rcases hop with hop | hop <;> rw [hop]
    rw [ht, hfetch, if_neg Bool.false_ne_true, hmis]
    cases Rtl.memMisalign x.irReg x.memAddrLow <;> simp
  rw [rvReads, rvStores, hexec, emu_op, Cpu.dataRead, Cpu.dataStore, hr, Cpu.rvAmo]
  cases hop : Rtl.opcode x.irReg with
  | load =>
    rw [hmem (.inl hop)]
    simp [Rtl.Opcode.toEmu]
  | store =>
    rw [hmem (.inr hop)]
    simp [Rtl.Opcode.toEmu]
  | amo =>
    obtain ⟨a, hamo⟩ := h.amo hop
    have haddr := (hx.rvAddr (.inr (.inr hop))).trans hamo.addr
    rw [hamo.trap hx.executing h, hamo.isLr, hamo.isSc, haddr]
    by_cases hal : Rtl.Aligned x.rs1Data
    · have hok : x.amoScOk = decide (e.reservation = some x.rs1Data) := by
        rw [Bool.eq_iff_iff, decide_eq_true_iff, hx.reserved hal]
      rw [hok, if_pos hal]
      simp [Rtl.Opcode.toEmu, (aligned_iff _).mp hal, hamo.op]
    · rw [if_neg hal]
      simp [Rtl.Opcode.toEmu, mt (aligned_iff _).mpr hal]
  | _ => simp [Rtl.Opcode.toEmu]

end

/-! ## Every access -/

/-- The access, on a clock that is `c` cycles ahead. -/
def Emu.MmioAccess.after (c : ℕ) : MmioAccess → MmioAccess
  | .read d k => .read d (c + k)
  | .write d k => .write d (c + k)

theorem map_accessesAt (d : Option Peripheral) (reads stores : Bool) (t edge c : ℕ) :
    (accessesAt d reads stores t edge).map (.after c) =
      accessesAt d reads stores (c + t) (c + edge) := by
  rcases d with _ | d
  · rfl
  · cases d <;> cases reads <;> cases stores <;> rfl

/-- The lists differ if there is a store to time. -/
theorem accessesAt_inj {d : Option Peripheral} {reads stores : Bool} {t edge edge' : ℕ} :
    accessesAt d reads stores t edge = accessesAt d reads stores t edge' ↔
      (d.isSome = true → stores = true → edge = edge') := by
  rcases d with _ | d
  · simp [accessesAt]
  · cases reads <;> cases stores <;> simp [accessesAt]

/-- The instruction of `step`, in its last FETCH cycle. -/
def stepOn {σ : Type} (bus : Bus σ) (e : Soc σ) (i : Word) (irq : Option Word) : Soc σ × Retire :=
  if e.riscvMode then e.stepRv bus i irq .default else e.stepHack bus i .default

/-- An AMO of a peripheral is executed, and not an LR or an SC. -/
def rmwsPeripheral {σ : Type} (e : Soc σ) (i : Word) (irq : Option Word) : Bool :=
  e.riscvMode && (rvExecutes e i irq && Emu.op i = .amo && rvAddr e i &&& 3#32 = 0#32 &&
    Emu.amoOp i ≠ some .lr && Emu.amoOp i ≠ some .sc) && (Emu.rvPeripheral (rvAddr e i)).isSome

section

variable {π : Type} (p : Peripherals π) {e : Soc (Outside (Logged π))} {inp : ℕ → SocIn}
  {s : SocTop}
  {m n : ℕ} {i : Word} {irq : Option Word}

theorem reads_and_stores {σ : Type} (e : Soc σ) (i : Word) (irq : Option Word) :
    (rvReads e i irq && rvStores e i irq) = (rvExecutes e i irq && Emu.op i = .amo &&
      rvAddr e i &&& 3#32 = 0#32 && Emu.amoOp i ≠ some .lr && Emu.amoOp i ≠ some .sc) := by
  rw [rvReads, rvStores]
  cases rvExecutes e i irq with
  | false => rfl
  | true =>
    cases hop : Emu.op i with
    | amo =>
      by_cases hal : rvAddr e i &&& 3#32 = 0#32
      · by_cases hlr : Emu.amoOp i = some .lr
        · simp [hlr]
        · by_cases hsc : Emu.amoOp i = some .sc <;> simp [hal, hlr, hsc]
      · simp [hal]
    | _ => simp

/-- The RTL's accesses for an RV32 instruction, in the terms of the emulator's state. -/
theorem mmioIn_of_corresponds (hs : Reachable s) (hrst : s.gpio.cpuSoftRst = false)
    (hc : Corresponds s.cpu e) (h : Instruction inp s m n)
    (hfetch : ∀ k ≤ m, (run inp s k).cpu.state = .fetch) (hi : i = (inp m).instrIn)
    (hirq : irq = e.csr.pendingInterrupt (cpuInputs inp s m).lines.mip) :
    mmioIn inp s n = accessesAt (Emu.rvPeripheral (rvAddr e i)) (rvReads e i irq) (rvStores e i irq)
        m (if rvReads e i irq then m + 4 else m + 2) ∧
      ((Emu.rvPeripheral (rvAddr e i)).isSome = true →
        rvReads e i irq = true ∨ rvStores e i irq = true →
          n = m + if rvReads e i irq && rvStores e i irq then 5 else 3) := by
  have hxe := executing_of_instruction h hs hrst hfetch hc.riscv
  obtain ⟨x, hx⟩ : ∃ x, x = executing s.cpu (cpuInputs inp s m) m := ⟨_, rfl⟩
  rw [← hx] at hxe
  have hat : AtExecute (s.cpu.csrs.elapse m) x (e.afterWait m) := by
    rw [hx]
    refine hc.atExecute ?_
    rw [← hx, ← hxe]
    exact (hs.run inp (m + 1)).cpu.wf
  have hir : x.irReg = i := by
    rw [hx, hi]
    rfl
  have hpending : irq = if x.rIrq then some x.rIrqCause else none := by
    rw [hirq, hc.csr, Rtl.Csrs.toEmu_pendingInterrupt, hx]
    rfl
  obtain ⟨hread, hstore⟩ := hat.accesses hpending
  rw [hir] at hread hstore
  replace hread : x.dataRead = rvReads e i irq := hread
  replace hstore : x.dataStore = rvStores e i irq := hstore
  have hr : x.isRiscvMode = true := hat.executing.riscv
  -- where there is an access, its address is the same on both sides
  have hsel : rvReads e i irq = true ∨ rvStores e i irq = true →
      selects x = Emu.rvPeripheral (rvAddr e i) := by
    intro hacc
    have hop : Rtl.opcode x.irReg = .load ∨ Rtl.opcode x.irReg = .store ∨
        Rtl.opcode x.irReg = .amo := by
      rcases hacc with hacc | hacc
      · rcases (kind_of_dataRead hr (hread.trans hacc)).2 with hop | ⟨hop, -⟩
        · exact .inl hop
        · exact .inr (.inr hop)
      · rcases (kind_of_dataStore hr (hstore.trans hacc)).2 with hop | ⟨hop, -⟩
        · exact .inr (.inl hop)
        · exact .inr (.inr hop)
    have haddr := hat.rvAddr hop
    rw [hir] at haddr
    rw [selects, hr, Cpu.dataAddr, if_pos hr, ← haddr]
    exact decode_rv _
  have hquiet : selects x = none ∨ (x.dataRead = false ∧ x.dataStore = false) →
      mmioIn inp s n = [] := by
    intro hno
    refine mmioIn_of_quiet (Nat.zero_le n) fun k _ hkn ↦ ?_
    rcases Nat.lt_or_ge m k with hmk | hkm
    · rw [mmioReads_eq h hs hmk hkn, mmioWrites_eq h hs hmk hkn, hxe]
      rcases hno with hsel | ⟨hread, hstore⟩
      · simp [hsel]
      · rw [(h.reads hs).1 (hxe ▸ hread) k hmk hkn, (h.stores hs).1 (hxe ▸ hstore) k hmk hkn]
        rfl
    · exact quiet_fetch_cycle hs (hfetch k hkm)
  by_cases hacc : rvReads e i irq = true ∨ rvStores e i irq = true
  · rw [← hsel hacc]
    rcases hd : selects x with _ | d
    · rw [hquiet (.inl hd)]
      exact ⟨rfl, fun hsome ↦ absurd hsome (by simp)⟩
    · obtain ⟨hlist, hlen⟩ := mmioIn_rv h hs hfetch (hxe ▸ hd) hxe hat.executing
      rw [hread, hstore] at hlist hlen
      exact ⟨hlist, fun _ ↦ hlen⟩
  · rw [not_or, Bool.not_eq_true, Bool.not_eq_true] at hacc
    rw [hquiet (.inr ⟨hread.trans hacc.1, hstore.trans hacc.2⟩), hacc.1, hacc.2, accessesAt_none]
    exact ⟨rfl, fun _ hyes ↦ absurd hyes (by simp)⟩

/-- The same for a Hack instruction. -/
theorem mmioIn_of_hackCorresponds (hs : Reachable s) (hrst : s.gpio.cpuSoftRst = false)
    (hc : HackCorresponds s.cpu e) (h : Instruction inp s m n)
    (hfetch : ∀ k ≤ m, (run inp s k).cpu.state = .fetch) (hi : i = (inp m).instrIn)
    {op : Rtl.HackOp}
    (hop : op = Rtl.hackTranslator (Soc.hackIns e.pc i)) :
    mmioIn inp s n = accessesAt (Emu.hackPeripheral (e.regs 1#5)) op.useMem op.weMem m
        (if op.useMem then m + 3 else m + 1) ∧
      ((Emu.hackPeripheral (e.regs 1#5)).isSome = true →
        n = m + (2 + (if op.useMem then 2 else 0) + if op.weRegA && op.weRegD then 1 else 0)) := by
  have hxe := hackExecuting_of_instruction h hs hrst hfetch hc.hack
  obtain ⟨x, hx⟩ : ∃ x, x = hackExecuting s.cpu (cpuInputs inp s m) m := ⟨_, rfl⟩
  rw [← hx] at hxe
  have hr : x.isRiscvMode = false := by
    rw [hx]
    exact hc.hack
  have hxop : x.hackOp = op := by
    rw [hop, emu_hackIns, show e.pc = s.cpu.pcReg from hc.pc, hi, hx]
    rfl
  have hA : x.dataAddr = e.regs 1#5 := by
    rw [Cpu.dataAddr, hr, if_neg Bool.false_ne_true, Cpu.rs2Data, hr, if_neg Bool.false_ne_true,
      hc.regs, hx]
    rfl
  have hsel : selects x = Emu.hackPeripheral (e.regs 1#5) := by
    rw [selects, hr, hA]
    exact decode_hack _
  rw [← hsel]
  rcases hd : selects x with _ | d
  · refine ⟨?_, fun hsome ↦ absurd hsome (by simp)⟩
    refine mmioIn_of_quiet (Nat.zero_le n) fun k _ hkn ↦ ?_
    rcases Nat.lt_or_ge m k with hmk | hkm
    · rw [mmioReads_eq h hs hmk hkn, mmioWrites_eq h hs hmk hkn, hxe]
      simp [hd]
    · exact quiet_fetch_cycle hs (hfetch k hkm)
  · obtain ⟨hlist, hlen⟩ := mmioIn_hack h hs hfetch (hxe ▸ hd) hxe hr
    rw [hxop] at hlist hlen
    exact ⟨hlist, fun _ ↦ hlen⟩

/-- **MMIO accesses happen in the same cycles on both**, and the instruction ends in the same cycle,
but for an AMO of a peripheral, whose store the emulator makes a cycle late: in every reachable
state of `soc_top`, for every instruction, RV32 or Hack, with any waits of its fetch. -/
theorem mmio_cycles_agree_iff (hs : Reachable s) (hrst : s.gpio.cpuSoftRst = false)
    (hc : Corresponds s.cpu e ∨ HackCorresponds s.cpu e) (h : Instruction inp s m n)
    (hfetch : ∀ k ≤ m, (run inp s k).cpu.state = .fetch) (hi : i = (inp m).instrIn)
    (hirq : irq = e.csr.pendingInterrupt (cpuInputs inp s m).lines.mip)
    {q : Soc (Outside (Logged π)) × Retire}
    (hq : stepOn p.logged.bus (e.afterWait m) i irq = q) :
    (q.1.mem.periph.log = e.mem.periph.log ++ (mmioIn inp s n).map (.after e.cycle) ↔
      rmwsPeripheral e i irq = false) ∧ (mmioIn inp s n ≠ [] → n = m + q.2.cycles) := by
  rcases hc with hc | hc
  · have hmode : (e.afterWait m).riscvMode = true := hc.mode
    rw [stepOn, hmode, if_pos rfl] at hq
    obtain ⟨hlist, hlen⟩ := mmioIn_of_corresponds hs hrst hc h hfetch hi hirq
    have hlog := log_stepRv p (e.afterWait m) i irq
    rw [hq] at hlog
    constructor
    · rw [hlog, hlist, map_accessesAt]
      refine (List.append_right_inj e.mem.periph.log).trans (accessesAt_inj.trans ?_)
      rw [rmwsPeripheral, ← reads_and_stores, show e.riscvMode = true from hc.mode, Bool.true_and]
      change ((Emu.rvPeripheral (rvAddr e i)).isSome = true → rvStores e i irq = true →
        (if rvReads e i irq then e.cycle + m + 5 else e.cycle + m + 2) =
          e.cycle + if rvReads e i irq then m + 4 else m + 2) ↔ _
      cases rvReads e i irq <;> cases rvStores e i irq <;>
        cases (Emu.rvPeripheral (rvAddr e i)).isSome <;> simp <;> omega
    · intro hne
      have hsome : (Emu.rvPeripheral (rvAddr e i)).isSome = true := by
        by_contra hnone
        rw [Option.not_isSome_iff_eq_none] at hnone
        rw [hlist, hnone] at hne
        exact hne rfl
      have hacc : rvReads e i irq = true ∨ rvStores e i irq = true := by
        by_contra hno
        rw [not_or, Bool.not_eq_true, Bool.not_eq_true] at hno
        rw [hlist, hno.1, hno.2, accessesAt_none] at hne
        exact hne rfl
      obtain ⟨d, hd⟩ := Option.isSome_iff_exists.mp hsome
      have hcycles := cycles_stepRv p (e.afterWait m) i irq (d := d) hd hacc
      rw [hq] at hcycles
      rw [hcycles]
      exact hlen hsome hacc
  · have hmode : (e.afterWait m).riscvMode = false := hc.mode
    rw [stepOn, hmode, if_neg Bool.false_ne_true] at hq
    obtain ⟨op, hop⟩ : ∃ op, op = Rtl.hackTranslator (Soc.hackIns e.pc i) := ⟨_, rfl⟩
    obtain ⟨hlist, hlen⟩ := mmioIn_of_hackCorresponds hs hrst hc h hfetch hi hop
    obtain ⟨hlog, hcycles⟩ := log_stepHack p (e.afterWait m) i hop
    rw [hq] at hlog hcycles
    constructor
    · rw [hlog, hlist, map_accessesAt]
      refine (List.append_right_inj e.mem.periph.log).trans (accessesAt_inj.trans ?_)
      rw [rmwsPeripheral, show e.riscvMode = false from hc.mode, Bool.false_and, Bool.false_and]
      change (_ → _ → (if op.useMem then e.cycle + m + 3 else e.cycle + m + 1) =
        e.cycle + if op.useMem then m + 3 else m + 1) ↔ _
      cases op.useMem <;> simp <;> omega
    · intro hne
      have hsome : (Emu.hackPeripheral (e.regs 1#5)).isSome = true := by
        by_contra hnone
        rw [Option.not_isSome_iff_eq_none] at hnone
        rw [hlist, hnone] at hne
        exact hne rfl
      rw [hcycles hsome]
      exact hlen hsome

end

/-- Peripherals that read as 0. -/
def zeroPeripherals : Peripherals Unit where
  read := fun _ _ _ m ↦ (0#32, m)
  write := fun _ _ _ _ m ↦ m
  mipAt := fun _ m ↦ (0#32, m)
  mtime := fun _ _ ↦ 0#64

/-- The emulator's CPU with the registers of the RTL's after a reset. -/
def emuStart (s : SocTop) : Soc (Outside (Logged Unit)) where
  cycle := 0
  regs := s.cpu.reg
  pc := 0#32
  csr := .default
  riscvMode := true
  mExt := true
  reservation := none
  mcycleWritten := none
  mem := ⟨⟨⟨fun _ ↦ 0#32, 0#32, fun _ ↦ 0#32, false⟩, .default⟩, ⟨(), []⟩⟩

/-- `sb x1, 0(x2)` to the UART. -/
theorem mmio_cycles_agree_iff_sb :
    (stepOn zeroPeripherals.logged.bus ((emuStart SocTop.sbStart).afterWait 0) 0x00110023#32
      none).1.mem.periph.log = (mmioIn SocTop.sbInputs SocTop.sbStart 3).map (.after 0) := by
  have hinstr : Instruction SocTop.sbInputs SocTop.sbStart 0 3 := by
    refine ⟨rfl, by decide, fun k h0 h3 ↦ ?_, by decide⟩
    interval_cases k <;> decide
  have h := mmio_cycles_agree_iff zeroPeripherals (e := emuStart SocTop.sbStart) (.reset _ _ _) rfl
    (.inl ⟨rfl, rfl, rfl, fun _ ↦ rfl, rfl, rfl, rfl, rfl⟩) hinstr
    (fun k hk ↦ by rw [Nat.le_zero.mp hk]; rfl) rfl (rfl : none = _) rfl
  exact h.1.mpr (by decide)

/-- `amoadd.w x0, x2, (x1)`, again and again. -/
def amoInputs (_ : ℕ) : SocIn where
  instrIn := 0x0020A02F#32
  instrReady := true
  hit := false
  dataOut _ := 0#32
  timerIrq := false
  msip := false
  mtime := 0#64
  uartRx := true

/-- After a power-on reset with the address of `msip` in `x1` and 1 elsewhere. -/
def amoStart : SocTop :=
  .reset (fun r ↦ if r = 1#5 then 0x20000000#32 else 1#32) (fun _ ↦ 0#8) fun _ ↦ 0#8

/-- The store that raises `msip` is in cycle 4 on the RTL, and in cycle 5, the FETCH of the next
instruction, on the emulator. -/
theorem amo_stores_late : Reachable amoStart ∧ Corresponds amoStart.cpu (emuStart amoStart) ∧
    Instruction amoInputs amoStart 0 5 ∧
    mmioIn amoInputs amoStart 5 = [.read .clint 1, .write .clint 4] ∧
    (stepOn zeroPeripherals.logged.bus ((emuStart amoStart).afterWait 0) 0x0020A02F#32
      none).1.mem.periph.log = [.read .clint 1, .write .clint 5] := by
  refine ⟨.reset _ _ _, ⟨rfl, rfl, rfl, fun _ ↦ rfl, rfl, rfl, rfl, rfl⟩,
    ⟨rfl, by decide, fun k h0 h5 ↦ ?_, by decide⟩, by decide, by decide⟩
  interval_cases k <;> decide

end Vux9k

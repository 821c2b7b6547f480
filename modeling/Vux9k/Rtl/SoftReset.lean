import Vux9k.Rtl.ReadAhead

/-!
# The soft reset

`gpio_controller` holds `cpu_soft_rst` for 15 cycles from the write of a key on.  The CPU is in
FETCH at address 0 from the second of these on, so nothing is written in them and its read-ahead is
right when it is let go.
-/

set_option autoImplicit false

namespace Vux9k.Rtl.SocTop

variable {s : SocTop} {i : SocIn} {inp : ℕ → SocIn}

/-- `gpio_we`. -/
def gpioWe (s : SocTop) : Bool := s.cpu.memWrite && s.wsel = some .gpio

/-- A key is written to register 0xC: the soft reset begins with the next cycle. -/
def keyWritten (s : SocTop) : Bool :=
  s.gpioWe && s.cpu.dataWaddr.extractLsb' 0 4 = 0xC#4 &&
    (s.cpu.dataOut = 0x5A5AA55A#32 || s.cpu.dataOut = 0x0000A55A#32)

/-- Register 0x8 is written. -/
def modeWritten (s : SocTop) : Bool := s.gpioWe && s.cpu.dataWaddr.extractLsb' 0 4 = 0x8#4

/-! ## One clock edge -/

theorem tick_gpio : (s.tick i).gpio = s.gpio.tick
    (if s.cpu.memWrite then s.cpu.dataWaddr.extractLsb' 0 4 else s.cpu.dataAddr.extractLsb' 0 4)
    s.cpu.dataOut s.gpioWe := rfl

/-- Nothing is written during a soft reset. -/
theorem Inv.gpioWe_of_softRst (h : s.Inv) (hsoft : s.gpio.cpuSoftRst = true) :
    s.gpioWe = false := by
  have hstate := h.softRst hsoft
  have hwrite : s.cpu.memWrite = false := by
    rcases hstate with hst | hst <;>
      simp [Cpu.memWrite, hst, (h.requests.idle (by simp [hst])).2]
  rw [gpioWe, hwrite, Bool.false_and]

theorem tick_gpio_quiet (hwe : s.gpioWe = false) : (s.tick i).gpio =
    if s.gpio.rstPulseCnt ≠ 0 then
      { s.gpio with
        rstPulseCnt := s.gpio.rstPulseCnt - 1
        modeValid := if s.gpio.rstPulseCnt = 1 then false else s.gpio.modeValid }
    else s.gpio := by
  rw [tick_gpio, hwe, Gpio.tick, if_neg Bool.false_ne_true]

theorem memWrite_of_gpioWe (h : s.gpioWe = true) : s.cpu.memWrite = true := by
  rw [gpioWe, Bool.and_eq_true] at h
  exact h.1

/-- The write of a key. -/
theorem tick_gpio_key (h : s.keyWritten = true) :
    (s.tick i).gpio = { s.gpio with rstPulseCnt := 15 } := by
  simp only [keyWritten, Bool.and_eq_true, Bool.or_eq_true, decide_eq_true_eq] at h
  obtain ⟨⟨hwe, haddr⟩, hkey⟩ := h
  rw [tick_gpio, if_pos (memWrite_of_gpioWe hwe), hwe, Gpio.tick, if_pos rfl, haddr,
    if_neg (by decide), if_pos ⟨rfl, hkey⟩]

/-- A write that is not of a key leaves the pulse alone. -/
theorem rstPulseCnt_of_write (hwe : s.gpioWe = true) (h : s.keyWritten = false) :
    (s.tick i).gpio.rstPulseCnt = s.gpio.rstPulseCnt := by
  rw [tick_gpio, if_pos (memWrite_of_gpioWe hwe), hwe, Gpio.tick, if_pos rfl]
  split
  · rfl
  · split
    · rename_i hkey
      simp [keyWritten, hwe, hkey.1] at h
      exact absurd hkey.2 (not_or.mpr h)
    · rfl

/-- Only a write of register 0x8 makes the ISA valid. -/
theorem modeValid_of_tick (h : (s.tick i).gpio.modeValid = true) (hno : s.modeWritten = false) :
    s.gpio.modeValid = true := by
  cases hwe : s.gpioWe with
  | false =>
    rw [tick_gpio_quiet hwe] at h
    split at h
    · split at h
      · cases h
      · exact h
    · exact h
  | true =>
    rw [tick_gpio, if_pos (memWrite_of_gpioWe hwe), hwe, Gpio.tick, if_pos rfl] at h
    split at h
    · rename_i haddr
      simp [modeWritten, hwe, haddr] at hno
    · split at h <;> exact h

/-! ## The pulse -/

/-- What holds between two clock edges. -/
structure Pulse (s : SocTop) : Prop where
  le : s.gpio.rstPulseCnt ≤ 15
  held : 0 < s.gpio.rstPulseCnt → s.gpio.rstPulseCnt < 15 →
    s.cpu.state = .fetch ∧ s.cpu.pcReg = 0#32

theorem cpuSoftRst_iff : s.gpio.cpuSoftRst = true ↔ 0 < s.gpio.rstPulseCnt := by
  rw [Gpio.cpuSoftRst, decide_eq_true_iff, Nat.pos_iff_ne_zero]

/-- The soft reset of the CPU. -/
theorem tick_cpu_softRst (hsoft : s.gpio.cpuSoftRst = true) : (s.tick i).cpu.state = .fetch ∧
    (s.tick i).cpu.pcReg = 0#32 ∧
    (s.tick i).cpu.isRiscvMode = if s.gpio.modeValid then s.gpio.modeRv32 else true := by
  have htick : (s.tick i).cpu = (s.cpu.tickUnits (s.cpuIn i)).resetState
      (if s.gpio.modeValid then s.gpio.modeRv32 else true) := if_pos hsoft
  rw [htick]
  exact ⟨rfl, rfl, rfl⟩

theorem Pulse.tick (h : s.Pulse) (hinv : s.Inv) (i : SocIn) : (s.tick i).Pulse := by
  by_cases hsoft : s.gpio.cpuSoftRst = true
  · obtain ⟨hstate, hpc, -⟩ := tick_cpu_softRst (i := i) hsoft
    refine ⟨?_, fun _ _ ↦ ⟨hstate, hpc⟩⟩
    rw [tick_gpio_quiet (hinv.gpioWe_of_softRst hsoft), if_pos (by
      have := cpuSoftRst_iff.mp hsoft
      omega)]
    exact (Nat.sub_le _ 1).trans h.le
  · have hzero : s.gpio.rstPulseCnt = 0 := by
      by_contra hne
      exact hsoft (cpuSoftRst_iff.mpr (Nat.pos_of_ne_zero hne))
    have hnext : (s.tick i).gpio.rstPulseCnt = 0 ∨ (s.tick i).gpio.rstPulseCnt = 15 := by
      cases hkey : s.keyWritten with
      | true =>
        rw [tick_gpio_key hkey]
        exact .inr rfl
      | false =>
        left
        cases hwe : s.gpioWe with
        | true => rw [rstPulseCnt_of_write hwe hkey, hzero]
        | false => rw [tick_gpio_quiet hwe, if_neg (by simp [hzero]), hzero]
    constructor
    · rcases hnext with h0 | h15
      · rw [h0]
        exact Nat.zero_le _
      · exact h15.le
    · intro hpos hlt
      omega

theorem Reachable.pulse (h : Reachable s) : s.Pulse := by
  induction h with
  | reset registers txMem rxMem => exact ⟨Nat.zero_le _, by rintro ⟨⟩⟩
  | tick i hs ih => exact ih.tick hs.inv i

/-! ## Read-ahead -/

theorem Reachable.cpu (h : Reachable s) : s.cpu.Reachable := by
  induction h with
  | reset registers txMem rxMem => exact .powerOn registers
  | tick i hs ih => exact ih.tick _

/-- The FETCH at the end of a soft reset is read ahead too. -/
theorem Reachable.pcOut (h : Reachable s) (hf : (s.tick i).cpu.state = .fetch)
    (hsoft : (s.tick i).gpio.cpuSoftRst = false) : s.cpu.pcOut = (s.tick i).cpu.pcReg := by
  by_cases hnow : s.gpio.cpuSoftRst = true
  · -- the last cycle of the pulse: the CPU has been reset before
    have hpos := cpuSoftRst_iff.mp hnow
    have hquiet := tick_gpio_quiet (i := i) (h.inv.gpioWe_of_softRst hnow)
    rw [if_pos (by omega)] at hquiet
    have hlast : s.gpio.rstPulseCnt = 1 := by
      rw [← Bool.not_eq_true, cpuSoftRst_iff, hquiet] at hsoft
      dsimp only at hsoft
      omega
    obtain ⟨hstate, hpc⟩ := h.pulse.held hpos (by omega)
    rw [(tick_cpu_softRst hnow).2.1, Cpu.pcOut, hstate, hpc]
    rfl
  · exact Cpu.pcOut_of_fetch h.cpu.stages h.cpu.requests (Bool.eq_false_of_not_eq_true hnow) hf

/-- **Read-ahead is always at the right address.**  Of `unified_cpu`, whatever its inputs: after an
edge outside a soft reset `pc_reg` of a FETCH is what `pc_out` was before, and whenever an access is
on the bus `data_addr` was its address in the cycle before.  In `soc_top` the FETCH that a soft
reset ends with is no exception. -/
theorem read_ahead :
    (∀ c : Cpu, c.Reachable → ∀ i : CpuIn,
      (i.softRst = false → (c.tick i).state = .fetch → c.pcOut = (c.tick i).pcReg) ∧
        ((c.tick i).dataReq = true → c.dataAddr = (c.tick i).dataWaddr)) ∧
    ∀ s : SocTop, Reachable s → ∀ (inp : ℕ → SocIn) (n : ℕ),
      ((run inp s (n + 1)).cpu.state = .fetch → (run inp s (n + 1)).gpio.cpuSoftRst = false →
        (run inp s n).cpu.pcOut = (run inp s (n + 1)).cpu.pcReg) ∧
      ((run inp s (n + 1)).cpu.dataReq = true →
        (run inp s n).cpu.dataAddr = (run inp s (n + 1)).cpu.dataWaddr) := by
  refine ⟨fun c hc i ↦ ⟨Cpu.pcOut_of_fetch hc.stages hc.requests,
    Cpu.dataAddr_of_req hc.stages hc.requests⟩, fun s hs inp n ↦ ⟨(hs.run inp n).pcOut, ?_⟩⟩
  have hc := (hs.run inp n).cpu
  exact Cpu.dataAddr_of_req hc.stages hc.requests

theorem read_ahead_sb : (run sbInputs sbStart 1).cpu.dataAddr = 0x40000000#32 ∧
    (run sbInputs sbStart 2).cpu.dataWaddr = 0x40000000#32 ∧
    (run sbInputs sbStart 2).cpu.pcOut = (run sbInputs sbStart 3).cpu.pcReg := by
  obtain ⟨hpc, -⟩ := read_ahead.2 sbStart (.reset _ _ _) sbInputs 2
  obtain ⟨-, haddr⟩ := read_ahead.2 sbStart (.reset _ _ _) sbInputs 1
  have hexec : (run sbInputs sbStart 1).cpu.dataAddr = 0x40000000#32 := by decide
  exact ⟨hexec, (haddr (by decide)).symm.trans hexec, hpc (by decide) (by decide)⟩

/-! ## From the key to the release -/

section

variable {n : ℕ}

/-- A key is not written during a soft reset. -/
theorem cpuSoftRst_of_keyWritten (h : s.Inv) (hkey : s.keyWritten = true) :
    s.gpio.cpuSoftRst = false := by
  by_contra hsoft
  have hwe := h.gpioWe_of_softRst (by simpa using hsoft)
  rw [keyWritten, hwe] at hkey
  cases hkey

/-- The pulse counts down, and the ISA stays until it ends. -/
theorem pulse_of_key (hs : Reachable s) (hkey : (run inp s n).keyWritten = true) :
    ∀ j ≤ 15, (run inp s (n + 1 + j)).gpio.rstPulseCnt = 15 - j ∧
      (run inp s (n + 1 + j)).gpio.modeRv32 = (run inp s n).gpio.modeRv32 ∧
      (run inp s (n + 1 + j)).gpio.modeValid =
        if j = 15 then false else (run inp s n).gpio.modeValid := by
  intro j hj
  induction j with
  | zero =>
    have htick := tick_gpio_key (i := inp n) hkey
    change (run inp s (n + 1)).gpio = _ at htick
    rw [Nat.add_zero, htick]
    exact ⟨rfl, rfl, rfl⟩
  | succ j ih =>
    obtain ⟨hcnt, hrv32, hvalid⟩ := ih (by omega)
    have hsoft : (run inp s (n + 1 + j)).gpio.cpuSoftRst = true :=
      cpuSoftRst_iff.mpr (by omega)
    have htick := tick_gpio_quiet (i := inp (n + 1 + j))
      (((hs.run inp (n + 1 + j)).inv).gpioWe_of_softRst hsoft)
    rw [if_pos (by omega)] at htick
    change (run inp s (n + 1 + (j + 1))).gpio = _ at htick
    rw [htick]
    dsimp only
    rw [hcnt, hrv32, hvalid, if_neg (show ¬j = 15 by omega)]
    refine ⟨by omega, rfl, ?_⟩
    by_cases hlast : j = 14
    · rw [if_pos (by omega), if_pos (by omega)]
    · rw [if_neg (by omega), if_neg (by omega)]

/-- **The soft reset that a key asks for**: 15 cycles, in which nothing is written to the GPIO, and
then FETCH at address 0 in the ISA that register 0x8 held. -/
theorem softReset_of_key (hs : Reachable s) (hkey : (run inp s n).keyWritten = true) :
    (run inp s n).gpio.cpuSoftRst = false ∧
      (∀ k, n < k → k < n + 16 → (run inp s k).gpio.cpuSoftRst = true ∧
        (run inp s k).gpioWe = false) ∧
      (run inp s (n + 16)).gpio.cpuSoftRst = false ∧
      (run inp s (n + 16)).cpu.state = .fetch ∧ (run inp s (n + 16)).cpu.pcReg = 0#32 ∧
      (run inp s (n + 16)).cpu.isRiscvMode =
        (if (run inp s n).gpio.modeValid then (run inp s n).gpio.modeRv32 else true) ∧
      (run inp s (n + 16)).gpio.modeValid = false := by
  have hpulse := pulse_of_key hs hkey
  have hhigh : ∀ j < 15, (run inp s (n + 1 + j)).gpio.cpuSoftRst = true := by
    intro j hj
    exact cpuSoftRst_iff.mpr (by rw [(hpulse j (by omega)).1]; omega)
  obtain ⟨hcnt, -, hvalid⟩ := hpulse 15 le_rfl
  obtain ⟨hstate, hpc, hmode⟩ := tick_cpu_softRst (i := inp (n + 1 + 14)) (hhigh 14 (by omega))
  obtain ⟨-, hrv32', hvalid'⟩ := hpulse 14 (by omega)
  rw [if_neg (by decide)] at hvalid'
  rw [hrv32', hvalid'] at hmode
  refine ⟨cpuSoftRst_of_keyWritten (hs.run inp n).inv hkey, fun k hnk hk ↦ ?_, ?_, hstate, hpc,
    hmode, hvalid⟩
  · obtain ⟨j, rfl⟩ := Nat.exists_eq_add_of_le (show n + 1 ≤ k from hnk)
    have hsoft := hhigh j (by omega)
    exact ⟨hsoft, (hs.run inp _).inv.gpioWe_of_softRst hsoft⟩
  · rw [← Bool.not_eq_true, cpuSoftRst_iff]
    rw [show n + 16 = n + 1 + 15 from rfl, hcnt]
    omega

/-- Every soft reset is one that a key asked for. -/
theorem key_of_softReset (registers : BitVec 5 → Word) (txMem rxMem : BitVec 5 → Byte)
    (hs : s = reset registers txMem rxMem) (hsoft : (run inp s n).gpio.cpuSoftRst = true) :
    ∃ k, k < n ∧ n < k + 16 ∧ (run inp s k).keyWritten = true := by
  have hr : Reachable s := hs ▸ .reset registers txMem rxMem
  induction n with
  | zero =>
    rw [hs] at hsoft
    cases hsoft
  | succ n ih =>
    by_cases hnow : (run inp s n).gpio.cpuSoftRst = true
    · obtain ⟨k, hkn, hnk, hkey⟩ := ih hnow
      refine ⟨k, by omega, ?_, hkey⟩
      by_contra hend
      obtain ⟨-, -, hlow, -⟩ := softReset_of_key hr hkey
      rw [show k + 16 = n + 1 by omega, hsoft] at hlow
      cases hlow
    · refine ⟨n, by omega, by omega, ?_⟩
      by_contra hkey
      have hzero : ¬0 < (run inp s n).gpio.rstPulseCnt := mt cpuSoftRst_iff.mpr hnow
      have hpos := cpuSoftRst_iff.mp hsoft
      change 0 < ((run inp s n).tick (inp n)).gpio.rstPulseCnt at hpos
      cases hwe : (run inp s n).gpioWe with
      | true =>
        rw [rstPulseCnt_of_write hwe (Bool.eq_false_of_not_eq_true hkey)] at hpos
        exact hzero hpos
      | false =>
        rw [tick_gpio_quiet hwe, if_neg (by omega)] at hpos
        exact hzero hpos

/-- The ISA is not valid any more until register 0x8 is written again. -/
theorem modeValid_of_no_write {a b : ℕ} (hab : a ≤ b) (ha : (run inp s a).gpio.modeValid = false)
    (hno : ∀ k, a ≤ k → k < b → (run inp s k).modeWritten = false) :
    (run inp s b).gpio.modeValid = false := by
  induction b, hab using Nat.le_induction with
  | base => exact ha
  | succ b hab ih =>
    have hb := ih fun k hak hkb ↦ hno k hak (by omega)
    by_contra hvalid
    rw [Bool.not_eq_false] at hvalid
    have hb' := modeValid_of_tick (i := inp b) hvalid (hno b hab (by omega))
    rw [hb] at hb'
    cases hb'

/-- The ISA changes in a soft reset only. -/
theorem isRiscvMode_of_running (h : (run inp s n).gpio.cpuSoftRst = false) :
    (run inp s (n + 1)).cpu.isRiscvMode = (run inp s n).cpu.isRiscvMode :=
  Cpu.tick_isRiscvMode_of_running (i := (run inp s n).cpuIn (inp n)) h

end

end Vux9k.Rtl.SocTop

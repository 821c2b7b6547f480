import Vux9k.Rtl.Handshake

/-!
# The CPU and its window

`soc_top` with the window's caches and bridge: the CPU's signals drive the window, and the window's
words and stalls come back to the CPU.  Every run of the two keeps to the handshake (`Driven`), and
no data access starts in the cycle after a store (`Spaced`), so that what is proved of the window
under these holds of `soc_top`.
-/

set_option autoImplicit false

namespace Vux9k.Rtl

/-- `soc_top` with its window. -/
structure Machine : Type where
  top : SocTop
  win : Win

/-- What the rest does in a cycle: the boot ROM's instruction word, what the other blocks read out,
the timer, the UART's pin and the memory controller. -/
structure MachineIn : Type where
  instrData : Word
  dataOut : Device → Word
  timerIrq : Bool
  msip : Bool
  mtime : BitVec 64
  uartRx : Bool
  ctl : PsramIn

namespace Machine

section

variable (m : Machine) (i : MachineIn)

/-- The window's inputs. -/
def winIn : WinIn where
  softRst := m.top.gpio.cpuSoftRst
  clear := false
  activeMode := m.top.cpu.isRiscvMode
  instrAddr := m.top.cpu.pcOut
  fetchReq := m.top.cpu.state = .fetch
  fetchAddr := m.top.cpu.pcReg
  dataReq := m.top.cpu.dataReq
  dataAddr := m.top.cpu.dataAddr
  dataWaddr := m.top.cpu.dataWaddr
  memWrite := m.top.cpu.memWrite
  dataOut := m.top.cpu.dataOut
  byteWe := m.top.cpu.memByteWe
  ctl := i.ctl

/-- What the CPU sees of the window and the rest. -/
def socIn : SocIn where
  instrIn := if (m.winIn i).xmemFetchSel then m.win.ic.wordQ else i.instrData
  instrReady := m.win.instrReady (m.winIn i)
  hit := m.win.dc.hit (m.win.dcIn (m.winIn i))
  dataOut := fun d ↦ if d = .xmem then m.win.dc.wordQ.data else i.dataOut d
  timerIrq := i.timerIrq
  msip := i.msip
  mtime := i.mtime
  uartRx := i.uartRx

/-- A clock edge. -/
def tick : Machine where
  top := m.top.tick (m.socIn i)
  win := m.win.tick (m.winIn i)

/-- The state after `n` cycles. -/
def run (inp : ℕ → MachineIn) (m : Machine) : ℕ → Machine
  | 0 => m
  | n + 1 => (run inp m n).tick (inp n)

/-- The window's inputs in a run. -/
def winInputs (inp : ℕ → MachineIn) (m : Machine) (n : ℕ) : WinIn := (run inp m n).winIn (inp n)

/-- The CPU's first cycle: it comes out of the power-on reset, in which both caches were swept. -/
structure Booted : Prop where
  top : ∃ registers txMem rxMem, m.top = .reset registers txMem rxMem
  win : ∃ s por n, s.IsReset ∧ 512 ≤ n ∧ (∀ k < n, Win.Por (por k)) ∧ m.win = Win.run por s n

end

variable {m : Machine} {i j : MachineIn} {held : Option Access}

theorem win_run (inp : ℕ → MachineIn) (m : Machine) (n : ℕ) :
    Win.run (winInputs inp m) m.win n = (run inp m n).win := by
  induction n with
  | zero => rfl
  | succ n ih =>
    rw [Win.run, ih]
    rfl

/-! ## The bus -/

/-- What holds of the CPU and its window between two clock edges, with `held` the access that
waits. -/
structure Bus (m : Machine) (held : Option Access) : Prop where
  reach : SocTop.Reachable m.top
  steady : m.top.cpu.Steady
  pulse : m.top.gpio.rstPulseCnt ≠ 0 → m.top.gpio.rstPulseCnt ≠ 15 →
    m.top.cpu.state = .fetch ∧ m.top.cpu.pcReg = 0#32
  fetchIdx : m.top.cpu.state = .fetch → m.top.gpio.cpuSoftRst = false →
    ∀ i, (m.winIn i).xmemFetchSel = true → m.win.ic.rdIdxQ = m.top.cpu.pcReg.extractLsb' 2 12
  dataIdx : m.top.cpu.dataReq = true → ∀ i, m.win.dc.rdIdxQ = Dcache.idx (m.winIn i).dataWord
  held : ∀ x ∈ held, ∀ i, (m.winIn i).access = some x

theorem Bus.softRst (h : m.Bus held) (hs : m.top.gpio.cpuSoftRst = true) :
    m.top.cpu.dataReq = false ∧ m.top.cpu.memWrite = false :=
  Cpu.dataReq_of_fetch h.steady.requests (h.reach.inv.softRst hs)

theorem getLsbD_append_low {p q k : ℕ} (x : BitVec p) (y : BitVec q) (hk : k < q) :
    (x ++ y).getLsbD k = y.getLsbD k := by
  rw [BitVec.getLsbD_append, if_pos hk]

/-- The index bits of a fetch's word. -/
theorem idx_fetchWord (w : WinIn) : Icache.idx w.fetchWord = w.fetchAddr.extractLsb' 2 12 := by
  rw [Icache.idx, WinIn.fetchWord, WinIn.winFetchAddr]
  refine BitVec.eq_of_getLsbD_eq fun j hj ↦ ?_
  have h1 : j < 21 := by omega
  have h2 : 2 + j < 16 := by omega
  split
  · simp [hj, h1]
  · rw [BitVec.getLsbD_extractLsb', decide_eq_true hj, Bool.true_and, Nat.zero_add,
      BitVec.getLsbD_extractLsb', decide_eq_true h1, Bool.true_and]
    refine (getLsbD_append_low _ _ h2).trans ?_
    simp [hj, h2]

/-- The index bits of a data access's word. -/
theorem idx_dataWord (w : WinIn) : Dcache.idx w.dataWord =
    if w.activeMode then w.dataWaddr.extractLsb' 2 9 else w.dataWaddr.extractLsb' 0 9 := by
  rw [Dcache.idx, WinIn.dataWord, WinIn.winDataWaddr]
  refine BitVec.eq_of_getLsbD_eq fun j hj ↦ ?_
  have h1 : j < 21 := by omega
  have h2 : j < 15 := by omega
  split
  · simp [hj, h1]
  · rw [BitVec.getLsbD_extractLsb', decide_eq_true hj, Bool.true_and, Nat.zero_add,
      BitVec.getLsbD_extractLsb', decide_eq_true h1, Bool.true_and]
    refine (BitVec.getLsbD_append.trans (if_neg (by omega))).trans ?_
    refine (getLsbD_append_low _ _ (show 2 + j - 2 < 15 by omega)).trans ?_
    simp [hj, h2]

/-- **The CPU keeps to the handshake.** -/
theorem Bus.follows (h : m.Bus held) (i : MachineIn) : m.win.Follows held (m.winIn i) where
  one hf := by
    have hs : m.top.cpu.state = .fetch := by simpa [winIn] using hf
    exact (Cpu.dataReq_of_fetch h.steady.requests (.inl hs)).1
  soft hs := (h.softRst hs).1
  held x hx := h.held x hx i
  fetchIdx a ha := by
    obtain ⟨hreq, hsoft, hsel, rfl⟩ := Win.access_fetch ha
    have hs : m.top.cpu.state = .fetch := by simpa [winIn] using hreq
    rw [idx_fetchWord]
    exact h.fetchIdx hs hsoft i hsel
  dataIdx x a hx ha := by
    obtain ⟨-, hreq, -, rfl, -⟩ := Win.access_data hx ha
    exact h.dataIdx hreq i

/-! ## One cycle -/

theorem tick_gpio_of_quiet (hw : (m.top.cpu.memWrite && m.top.wsel = some .gpio) = false) :
    (m.tick i).top.gpio = if m.top.gpio.rstPulseCnt ≠ 0 then
        { m.top.gpio with
          rstPulseCnt := m.top.gpio.rstPulseCnt - 1
          modeValid := if m.top.gpio.rstPulseCnt = 1 then false else m.top.gpio.modeValid }
      else m.top.gpio := by
  change m.top.gpio.tick _ _ (m.top.cpu.memWrite && m.top.wsel = some .gpio) = _
  rw [hw, Gpio.tick, if_neg Bool.false_ne_true]

/-- While an access waits, it stays on the bus. -/
theorem Bus.held_tick (h : m.Bus held) (i : MachineIn) (x : Access)
    (hx : m.win.waiting (m.winIn i) = some x) (j : MachineIn) :
    ((m.tick i).winIn j).access = some x := by
  have hf := h.follows i
  have hready := Rel.ready_of_waiting hx
  have hacc : (m.winIn i).access = some x := by
    rwa [Win.waiting, hready, if_neg Bool.false_ne_true] at hx
  -- The CPU sees the stall, and no soft reset starts.
  have hstall : m.top.gpio.cpuSoftRst = false ∧
      (m.top.cpu.memWrite && m.top.wsel = some .gpio) = false ∧
      ((m.top.cpu.state = .fetch ∧ m.win.instrReady (m.winIn i) = false) ∨
        (m.top.cpu.dataReq = true ∧ m.top.dataReady (m.socIn i) = false)) := by
    cases hw : x.dataWord with
    | none =>
      obtain ⟨a, rfl⟩ := x.eq_fetch hw
      obtain ⟨hreq, hsoft, -, -⟩ := Win.access_fetch hacc
      obtain ⟨-, hdwin, -⟩ := hf.fetch hacc
      have hs : m.top.cpu.state = .fetch := by simpa [winIn] using hreq
      have hmw := (Cpu.dataReq_of_fetch h.steady.requests (.inl hs)).2
      refine ⟨hsoft, by rw [hmw, Bool.false_and], .inl ⟨hs, ?_⟩⟩
      have hdr : m.win.dataReady (m.winIn i) = true := by
        rw [Win.dataReady_eq, show ((m.winIn i).dataReq && (m.winIn i).xmemWsel) = false from hdwin]
        rfl
      rwa [Win.ready, hdr, Bool.and_true] at hready
    | some a =>
      obtain ⟨-, hreq, hsel, -⟩ := Win.access_data hacc hw
      obtain ⟨hfwin, -, -, hsoft⟩ := hf.data hacc hw
      have hxm : m.top.wsel = some .xmem := decide_eq_true_iff.mp hsel
      refine ⟨hsoft, by simp [hxm], .inr ⟨hreq, ?_⟩⟩
      have hir : m.win.instrReady (m.winIn i) = true := by
        rw [Win.instrReady, Icache.instrReady, hfwin]
        rfl
      rw [Win.ready, hir, Bool.true_and] at hready
      have hxs : (m.winIn i).xmemWsel = decide (m.top.wsel = some .xmem) := rfl
      rw [Win.dataReady_eq, hxs] at hready
      exact hready
  obtain ⟨hsoft, hgpio, hst⟩ := hstall
  obtain ⟨c, v, a, d, hcpu⟩ := Cpu.tick_of_stall (s := m.top.cpu)
    (i := m.top.cpuIn (m.socIn i)) hsoft hst
  have hcpu' : (m.tick i).top.cpu =
      { m.top.cpu with csrs := c, resvValid := v, resvAddr := a, muldiv := d } := hcpu
  have hg : (m.tick i).top.gpio = m.top.gpio := by
    rw [tick_gpio_of_quiet hgpio, if_neg]
    simpa [Gpio.cpuSoftRst] using hsoft
  rw [← hacc]
  simp only [winIn, hcpu', hg]
  rfl

theorem tick_cpu : (m.tick i).top.cpu = m.top.cpu.tick (m.top.cpuIn (m.socIn i)) := rfl

/-- During a soft reset the pulse counts down. -/
theorem Bus.pulse_softRst (h : m.Bus held) (hs : m.top.gpio.cpuSoftRst = true) :
    (m.tick i).top.gpio.rstPulseCnt = m.top.gpio.rstPulseCnt - 1 := by
  have hne : m.top.gpio.rstPulseCnt ≠ 0 := by simpa [Gpio.cpuSoftRst] using hs
  rw [tick_gpio_of_quiet (by rw [(h.softRst hs).2, Bool.false_and]), if_pos hne]

/-- Outside of one it starts at 15. -/
theorem pulse_running (hs : m.top.gpio.cpuSoftRst = false) :
    (m.tick i).top.gpio.rstPulseCnt = 0 ∨ (m.tick i).top.gpio.rstPulseCnt = 15 := by
  have h0 : m.top.gpio.rstPulseCnt = 0 := by simpa [Gpio.cpuSoftRst] using hs
  have hg : ∀ a d we, (m.top.gpio.tick a d we).rstPulseCnt = 0 ∨
      (m.top.gpio.tick a d we).rstPulseCnt = 15 := by
    intro a d we
    rw [Gpio.tick, if_neg (show ¬ m.top.gpio.rstPulseCnt ≠ 0 by simpa using h0)]
    split_ifs
    · exact .inl h0
    · exact .inr rfl
    · exact .inl h0
    · exact .inl h0
  exact hg _ _ _

/-- The state machine in a soft reset. -/
theorem cpu_softRst (hs : m.top.gpio.cpuSoftRst = true) :
    (m.tick i).top.cpu.state = .fetch ∧ (m.tick i).top.cpu.pcReg = 0#32 := by
  rw [tick_cpu, Cpu.tick, if_pos (show (m.top.cpuIn (m.socIn i)).softRst = true from hs)]
  exact ⟨rfl, rfl⟩

theorem Bus.tick (h : m.Bus held) (i : MachineIn) :
    (m.tick i).Bus (m.win.waiting (m.winIn i)) where
  reach := h.reach.tick _
  steady := h.steady.tick _
  pulse h0 h15 := by
    cases hs : m.top.gpio.cpuSoftRst with
    | true => exact cpu_softRst hs
    | false => rcases pulse_running (i := i) hs with hc | hc <;> contradiction
  fetchIdx hst hsoft _ _ := by
    change (m.winIn i).instrAddr.extractLsb' 2 12 = _
    cases hs : m.top.gpio.cpuSoftRst with
    | true =>
      -- The pulse ends: the CPU has been in FETCH at 0 for a while.
      have hcnt := h.pulse_softRst (i := i) hs
      have hne : m.top.gpio.rstPulseCnt ≠ 0 := by simpa [Gpio.cpuSoftRst] using hs
      have hend : (m.tick i).top.gpio.rstPulseCnt = 0 := by simpa [Gpio.cpuSoftRst] using hsoft
      obtain ⟨hf, hpc⟩ := h.pulse hne (by omega)
      have hout : (m.winIn i).instrAddr = 0#32 := by
        change m.top.cpu.pcOut = 0#32
        simp [Cpu.pcOut, hf, hpc]
      rw [(cpu_softRst hs).2, hout]
    | false =>
      rw [tick_cpu, Cpu.pcReg_of_fetch h.steady hs hst]
      rfl
  dataIdx hreq j := by
    cases hs : m.top.gpio.cpuSoftRst with
    | true =>
      have hf := (cpu_softRst (i := i) hs).1
      have hno := (Cpu.dataReq_of_fetch (h.steady.tick _).requests (.inl hf)).1
      exact absurd (hreq.symm.trans hno) (by simp)
    | false =>
      have hmode : (m.tick i).top.cpu.isRiscvMode = m.top.cpu.isRiscvMode :=
        Cpu.tick_isRiscvMode_of_running hs
      have haddr : (m.tick i).top.cpu.dataWaddr = m.top.cpu.dataAddr :=
        Cpu.dataWaddr_ahead h.steady hs hreq
      have hidx := idx_dataWord ((m.tick i).winIn j)
      change _ = if (m.tick i).top.cpu.isRiscvMode then
        (m.tick i).top.cpu.dataWaddr.extractLsb' 2 9
        else (m.tick i).top.cpu.dataWaddr.extractLsb' 0 9 at hidx
      rw [hidx, hmode, haddr]
      rfl
  held x hx j := h.held_tick i x hx j

theorem Booted.bus (h : m.Booted) : m.Bus none := by
  obtain ⟨registers, txMem, rxMem, htop⟩ := h.top
  have hcpu : m.top.cpu = .powerOn registers := by rw [htop]; rfl
  have hgpio : m.top.gpio = .reset := by rw [htop]; rfl
  refine ⟨by rw [htop]; exact .reset registers txMem rxMem, by rw [hcpu]; exact .powerOn registers,
    fun h0 ↦ absurd (by rw [hgpio]; rfl) h0, fun _ _ i hsel ↦ ?_, fun hreq ↦ ?_, nofun⟩
  · have hno : (m.winIn i).xmemFetchSel = false := by
      simp only [WinIn.xmemFetchSel, winIn, hcpu]
      change (!true || decide ((0#32 : Word).extractLsb' 28 4 = 8#4)) = false
      decide
    exact absurd (hsel.symm.trans hno) nofun
  · rw [hcpu, (Cpu.dataReq_of_fetch (.powerOn registers) (.inl rfl)).1] at hreq
    exact absurd hreq nofun

/-! ## Runs -/

variable {inp : ℕ → MachineIn}

theorem Booted.bus_run (h : m.Booted) (n : ℕ) :
    (run inp m n).Bus (Win.held (winInputs inp m) m.win n) := by
  induction n with
  | zero => exact h.bus
  | succ n ih =>
    rw [Win.held, win_run]
    exact ih.tick (inp n)

/-- **Every run of `soc_top` keeps to the window's handshake.** -/
theorem Booted.driven (h : m.Booted) : Win.Driven (winInputs inp m) m.win := by
  intro n
  rw [win_run]
  exact (h.bus_run n).follows (inp n)

theorem Booted.cleared (h : m.Booted) : m.win.Cleared ∧ m.win.ic.replayQ = false := by
  obtain ⟨s, por, n, hs, hn, hp, hw⟩ := h.win
  obtain ⟨k, rfl⟩ : ∃ k, n = k + 1 := ⟨n - 1, by omega⟩
  rw [hw]
  exact ⟨(hs.cleared hn hp).1,
    Win.replayQ_of_calm (hs.sweeping_run fun j hj ↦ hp j (by omega)).1.ic⟩

/-- A store that completes is one for the CPU. -/
theorem Bus.no_store (h : m.Bus held) (hreq : (m.tick i).top.cpu.dataReq = true) :
    (m.win.dc.hit (m.win.dcIn (m.winIn i)) && (m.win.dcIn (m.winIn i)).dataWe) = false := by
  refine Bool.eq_false_of_not_eq_true fun hc ↦ ?_
  rw [Bool.and_eq_true] at hc
  have hready : m.top.dataReady (m.socIn i) = true := by
    have hh : (m.socIn i).hit = true := hc.1
    rw [SocTop.dataReady, hh, Bool.or_true]
  have hno : (m.tick i).top.cpu.dataReq = false :=
    Cpu.dataReq_after_store h.steady.requests hc.2 hready
  exact absurd (hreq.symm.trans hno) (by simp)

/-- **No data access starts in the cycle after a store.** -/
theorem Booted.spaced (h : m.Booted) : Win.Spaced (winInputs inp m) m.win := by
  have hd : Win.Driven (winInputs inp m) m.win := h.driven
  intro n hheld x a hx ha
  have hreq := (Win.access_data hx ha).2.1
  cases n with
  | zero =>
    have hno : m.top.cpu.dataReq = false := by
      obtain ⟨registers, txMem, rxMem, htop⟩ := h.top
      rw [htop]
      exact (Cpu.dataReq_of_fetch (.powerOn registers) (.inl rfl)).1
    exact absurd (hreq.symm.trans hno) nofun
  | succ n =>
    obtain ⟨p, c, hr⟩ := h.cleared.1.runs_run hd n
    have hready : (Win.run (winInputs inp m) m.win n).ready (winInputs inp m n) = true := by
      rw [Win.held, Win.waiting] at hheld
      by_contra hno
      rw [if_neg hno] at hheld
      exact hno (Win.ready_of_none hheld)
    obtain rfl := hr.idle_of_ready (hd n) hready
    have hbus : (run inp m n).Bus (Win.held (winInputs inp m) m.win n) := h.bus_run n
    have hst := hbus.no_store (i := inp n) hreq
    rw [← win_run] at hst
    cases hr.inv.at' with
    | idle hi hdc hb => exact Win.staleQ_of_calm hdc hr.inv.dcSwept hst

end Machine

end Vux9k.Rtl

import Vux9k.Emu.Gpio
import Vux9k.Emu.Mmio
import Vux9k.Emu.Spi
import Vux9k.Emu.Timer
import Vux9k.Emu.Uart

/-!
# The whole machine of the emulator

`Periph` of `emu/crates/vux9k_emu/src/periph/mod.rs`, what `soc.rs` has behind the CPU in each of
its profiles, and `step`.
-/

set_option autoImplicit false

namespace Vux9k.Emu

/-! ## Peripherals -/

/-- `btn` of `Gpio`: from which cycle the pin is at a level, and whether S2 is pressed. -/
structure Button : Type where
  before : ℕ × Bool
  current : ℕ × Bool

namespace Button

variable (b : Button)

/-- `Gpio::default`. -/
def default : Button := ⟨(0, false), (0, false)⟩

/-- `pin_pressed`. -/
def pinPressed (c : ℕ) : Bool := if b.current.1 ≤ c then b.current.2 else b.before.2

/-- `pressed`. -/
def pressed (c : ℕ) : Bool := 2 ≤ c && b.pinPressed (c - 2)

end Button

/-- A level as a word. -/
def level (b : Bool) : Word := if b then 1#32 else 0#32

/-- `soft_reset_active`. -/
def Gpio.softResetActive (g : Gpio) (c : ℕ) : Bool :=
  match g.pulseFrom with
  | none => false
  | some f => f ≤ c && c < f + softResetPulse

/-- `read` of `gpio.rs`. -/
def Gpio.read (g : Gpio) (b : Button) (addr : Word) (c : ℕ) : Word :=
  match (addr &&& 0xF#32).toNat with
  | 0x0 => g.led.setWidth 32
  | 0x4 => level (b.pressed c)
  | 0x8 => level g.modeValid <<< 8 ||| level g.modeRv32
  | 0xC => level (g.softResetActive c)
  | _ => 0#32

/-- `Periph`. -/
structure Periph : Type where
  clint : Clint
  gpio : Gpio
  btn : Button
  uart : Uart
  sd : SdSpi

namespace Periph

/-- `Periph::default`, with a card in the socket or none and with the SPI log on or off. -/
def default (card : Option Sd.Card) (logEnabled : Bool) : Periph :=
  ⟨.default, .default, .default, .default, .default card logEnabled⟩

/-- `meip`; `v03` is `v03_mmio`. -/
def meip (v03 : Bool) (c : ℕ) (p : Periph) : Bool × Periph :=
  let (line, uart) := if v03 then p.uart.rxPending c else p.uart.irq c
  (line, { p with uart })

/-- A pending line. -/
def line (b : Bool) (bit : Word) : Word := if b then bit else 0#32

/-- `mip_at`. -/
def mipAt (v03 : Bool) (c : ℕ) (p : Periph) : Word × Periph :=
  let (meip, p) := p.meip v03 c
  (line (p.clint.timer.irq c) mipMtip ||| line meip mipMeip |||
    line (p.clint.msip.atCycle c) mipMsip, p)

/-- The peripherals as the bus calls them. -/
def calls (v03 : Bool) : Peripherals Periph where
  read := fun d addr c p ↦
    match d with
    | .uart =>
      let (word, uart) := if v03 then p.uart.legacyRead addr c else p.uart.read addr c
      (word, { p with uart })
    | .clint => (if v03 then 0#32 else p.clint.read addr c, p)
    | .sd => (p.sd.read addr c, p)
    | .gpio => (p.gpio.read p.btn addr c, p)
  write := fun d addr data c p ↦
    match d with
    | .uart =>
      { p with uart := if v03 then p.uart.legacyWrite addr data c else p.uart.write addr data c }
    | .clint => if v03 then p else { p with clint := p.clint.write addr data c }
    | .sd => { p with sd := p.sd.write addr data c }
    | .gpio => { p with gpio := p.gpio.write addr data c }
  mipAt := mipAt v03
  mtime := fun c p ↦ p.clint.timer.mtime c

end Periph

/-! ## The profiles -/

/-- `TOHOST`. -/
def tohostAddr : Word := 0xF0000000#32

/-- `timer_page_reg`. -/
def timerPageReg (addr : Word) : Option TimerReg :=
  match (addr &&& 0xF#32).toNat with
  | 0x0 => some .mtimeLo
  | 0x4 => some .mtimeHi
  | 0x8 => some .mtimecmpLo
  | 0xC => some .mtimecmpHi
  | _ => none

/-- What is behind the CPU, with the switches of `Soc`. -/
structure Machine : Type where
  v03Mmio : Bool
  isaTest : Bool
  tohost : Option Word
  outside : Outside Periph

namespace Machine

variable (m : Machine)

/-- The peripherals. -/
def periph : Periph := m.outside.periph

/-- The peripherals, replaced. -/
def withPeriph (p : Periph) : Machine := { m with outside := { m.outside with periph := p } }

/-- What is behind the CPU in the `Real` profile. -/
def realBus : Bus (Outside Periph) := (Periph.calls m.v03Mmio).bus

/-- An answer of the `Real` profile. -/
def lift {α : Type} (r : α × Outside Periph) : α × Machine := (r.1, { m with outside := r.2 })

/-- The address is in the TIMER page of `v03_mmio`. -/
def inTimerPage (addr : Word) : Bool :=
  m.v03Mmio && addr >>> 28 = 4#32 && addr >>> 12 &&& 0xF#32 = 1#32

/-- The TIMER page's register, written. -/
def writeTimerPage (addr data : Word) (c : ℕ) : Machine :=
  match timerPageReg addr with
  | some reg =>
    m.withPeriph
      { m.periph with
        clint := { m.periph.clint with timer := m.periph.clint.timer.write reg data c } }
  | none => m

/-- A store of the `IsaTest` profile. -/
def isaTestWrite (addr data : Word) (be : BitVec 4) : Machine :=
  let mem := m.outside.window.mem
  let idx := (addr >>> 2 &&& mem.romMask).toNat
  { m with
    tohost := if addr = tohostAddr ∧ m.tohost = none then some data else m.tohost
    outside := { m.outside with
      window := { m.outside.window with
        mem := { mem with
          rom := if addr >>> 18 = 0#32 then
            Function.update mem.rom idx (mergeBytes (mem.rom idx) data be) else mem.rom } } } }

/-- `rv_read_word`. -/
def rvReadWord (addr : Word) (t : ℕ) : Word × Machine :=
  if m.isaTest then
    (m.outside.window.mem.rom (addr >>> 2 &&& m.outside.window.mem.romMask).toNat, m)
  else if m.inTimerPage addr then
    (((timerPageReg addr).map (m.periph.clint.timer.read · (t + 1))).getD 0#32, m)
  else m.lift (m.realBus.readWord addr t m.outside)

/-- `rv_write`. -/
def rvWrite (addr data : Word) (be : BitVec 4) (t : ℕ) : ℕ × Machine :=
  if m.isaTest then (0, m.isaTestWrite addr data be)
  else if m.inTimerPage addr then (0, m.writeTimerPage addr data (t + 2))
  else m.lift (m.realBus.write addr data be t m.outside)

/-- The bus of `Soc`. -/
def bus : Bus Machine where
  fetch := fun riscvMode pc m ↦ m.lift (m.realBus.fetch riscvMode pc m.outside)
  loadWait := fun addr m ↦ m.lift (m.realBus.loadWait addr m.outside)
  readWord := fun addr t m ↦ m.rvReadWord addr t
  write := fun addr data be t m ↦ m.rvWrite addr data be t
  hackRead := fun a t m ↦ m.lift (m.realBus.hackRead a t m.outside)
  hackWrite := fun a v edge m ↦ m.lift (m.realBus.hackWrite a v edge m.outside)
  mipAt := fun c m ↦ m.lift (m.realBus.mipAt c m.outside)
  mtime := fun c m ↦ m.realBus.mtime c m.outside

end Machine

/-! ## `step` -/

namespace Soc

/-- What `sample_interrupt` sees of the lines: only the enabled ones are looked at. -/
def sampleLines (v03 : Bool) (enabled : Word) (c : ℕ) (p : Periph) : Word × Periph :=
  let (meip, p) := if enabled &&& mipMeip ≠ 0#32 then p.meip v03 c else (false, p)
  (Periph.line meip mipMeip |||
    Periph.line (enabled &&& mipMsip ≠ 0#32 && p.clint.msip.atCycle c) mipMsip |||
    Periph.line (enabled &&& mipMtip ≠ 0#32 && p.clint.timer.irq c) mipMtip, p)

/-- `sample_interrupt`. -/
def sampleInterrupt (s : Soc Machine) : Option Word × Soc Machine :=
  if !s.csr.interruptsOn || s.csr.mie = 0#32 then (none, s)
  else
    let (mip, p) := sampleLines s.mem.v03Mmio s.csr.mie s.cycle s.mem.periph
    (s.csr.pendingInterrupt mip, { s with mem := s.mem.withPeriph p })

/-- The instruction of `step`, in its last FETCH cycle. -/
def execute (s : Soc Machine) (word : Word) (r : Retire) : Soc Machine × Retire :=
  if s.riscvMode then
    let (irq, s) := s.sampleInterrupt
    s.stepRv Machine.bus word irq r
  else s.stepHack Machine.bus word r

/-- The soft reset that the GPIO has asked for. -/
def takeSoftReset (s : Soc Machine) : Soc Machine :=
  let (sr, gpio) := s.mem.periph.gpio.takeSoftReset
  let s := { s with mem := s.mem.withPeriph { s.mem.periph with gpio } }
  match sr with
  | some sr =>
    s.softReset (fun c m ↦ m.withPeriph { m.periph with uart := m.periph.uart.softReset c }) sr
  | none => s

/-- `step`. -/
def step (s : Soc Machine) : Soc Machine × Retire :=
  let ((word, wait), mem) := Machine.bus.fetch s.riscvMode s.pc s.mem
  let s := afterWait { s with mem } wait
  let (s, r) := s.execute word .default
  ((s.endStep r.cycles).takeSoftReset, { r with cycles := r.cycles + wait })

end Soc

end Vux9k.Emu

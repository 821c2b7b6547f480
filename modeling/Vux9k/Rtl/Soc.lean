import Vux9k.Rtl.Run
import Vux9k.Rtl.Uart

/-!
# The data side of the SoC

`soc_top` around the CPU: the address decoders, the UART and its registers, the registered selects
of the read path, and the soft reset of `gpio_controller`.  What the other blocks do in a cycle (the
instruction, whether a window access hits, the words they read out, the timer) is an input, so that
every run of `soc_top` is a run of this model.
-/

set_option autoImplicit false

namespace Vux9k.Rtl

/-! ## `soc_addr_decoder` -/

/-- What an address selects. -/
inductive Device : Type
  | rom
  | uart
  | timer
  | sd
  | gpio
  | xmem
  deriving DecidableEq

/-- `soc_addr_decoder`, with `soc_pkg`'s map: at most one of its outputs is high. -/
def decode (hackMode : Bool) (addr : Word) : Option Device :=
  if hackMode then
    if addr.extractLsb' 4 12 = 0x600#12 then
      if addr.extractLsb' 2 2 = 0b00#2 then some .uart else some .gpio
    else if addr.extractLsb' 0 16 < 0x6000#16 then some .xmem
    else none
  else
    if addr.extractLsb' 28 4 = 0x0#4 then some .rom
    else if addr.extractLsb' 28 4 = 0x2#4 then some .timer
    else if addr.extractLsb' 28 4 = 0x4#4 then
      if addr.extractLsb' 12 4 = 0x0#4 then some .uart
      else if addr.extractLsb' 12 4 = 0x2#4 then some .sd
      else if addr.extractLsb' 12 4 = 0x3#4 then some .gpio
      else none
    else if addr.extractLsb' 28 4 = 0x8#4 then some .xmem
    else none

/-! ## `gpio_controller` -/

/-- `gpio_controller`, as far as the soft reset goes. -/
structure Gpio : Type where
  rstPulseCnt : ℕ
  modeValid : Bool
  modeRv32 : Bool

namespace Gpio

/-- After a reset. -/
def reset : Gpio := ⟨0, false, false⟩

variable (g : Gpio)

/-- `cpu_soft_rst`. -/
def cpuSoftRst : Bool := g.rstPulseCnt ≠ 0

/-- A clock edge. -/
def tick (addr : BitVec 4) (dataIn : Word) (we : Bool) : Gpio :=
  if we then
    if addr = 0x8#4 then
      { g with modeValid := dataIn.getLsbD 8, modeRv32 := dataIn.getLsbD 0 }
    else if addr = 0xC#4 ∧ (dataIn = 0x5A5AA55A#32 ∨ dataIn = 0x0000A55A#32) then
      { g with rstPulseCnt := 15 }
    else g
  else if g.rstPulseCnt ≠ 0 then
    { g with
      rstPulseCnt := g.rstPulseCnt - 1
      modeValid := if g.rstPulseCnt = 1 then false else g.modeValid }
  else g

end Gpio

/-! ## `soc_top` -/

/-- `soc_pkg::UART_CNT`. -/
def uartCnt : ℕ := 156

/-- The CPU and what is modelled around it; `last` is the block that the read address of the cycle
before selected (`last_rom_sel` and its like). -/
structure SocTop : Type where
  cpu : Cpu
  uart : Uart
  regs : UartRegs
  gpio : Gpio
  last : Option Device

/-- What the other blocks do in a cycle. -/
structure SocIn : Type where
  instrIn : Word
  instrReady : Bool
  /-- `hit` of `soc_dcache`, for a window access -/
  hit : Bool
  /-- `rom_data_out`, `timer_data_out` and so on -/
  dataOut : Device → Word
  timerIrq : Bool
  msip : Bool
  mtime : BitVec 64
  uartRx : Bool

namespace SocTop

/-- After the power-on reset. -/
def reset (registers : BitVec 5 → Word) (txMem rxMem : BitVec 5 → Byte) : SocTop where
  cpu := .powerOn registers
  uart := .reset uartCnt txMem rxMem
  regs := .reset
  gpio := .reset
  last := none

variable (s : SocTop) (i : SocIn)

/-- What the read address selects. -/
def sel : Option Device := decode (!s.cpu.isRiscvMode) s.cpu.dataAddr

/-- What the write address selects. -/
def wsel : Option Device := decode (!s.cpu.isRiscvMode) s.cpu.dataWaddr

/-- `data_ready`, of `soc_dcache`. -/
def dataReady : Bool := !(s.cpu.dataReq && s.wsel = some .xmem) || i.hit

/-- `cpu_data_in`. -/
def cpuDataIn : Word :=
  (match s.last with
    | none | some .uart => 0#32
    | some d => i.dataOut d) ||| s.regs.rdata s.uart

/-- The CPU's inputs. -/
def cpuIn : CpuIn where
  softRst := s.gpio.cpuSoftRst
  bootModeValid := s.gpio.modeValid
  bootMode := s.gpio.modeRv32
  instrIn := i.instrIn
  instrReady := i.instrReady
  dataIn := s.cpuDataIn i
  dataReady := s.dataReady i
  lines := ⟨i.timerIrq, s.regs.irq s.uart, i.msip⟩
  mtime := i.mtime

/-- `mem_read_req`. -/
def memReadReq : Bool := s.cpu.memReadReq (s.cpuIn i)

/-- The inputs of `uart_regs`. -/
def uartBus : UartBus where
  softRst := s.gpio.cpuSoftRst
  hackMode := !s.cpu.isRiscvMode
  rdSel := s.sel = some .uart
  rdAddr := s.cpu.dataAddr.extractLsb' 0 8
  read := s.memReadReq i
  we := s.cpu.memWrite && s.wsel = some .uart
  wrAddr := s.cpu.dataWaddr.extractLsb' 0 8
  wdata := s.cpu.dataOut.extractLsb' 0 2

/-- The inputs of `uart_controller`. -/
def uartIn : UartIn where
  wdata := s.cpu.dataOut.extractLsb' 0 8
  we := UartRegs.txPush (s.uartBus i)
  re := s.regs.rxPop (s.uartBus i)
  rxd := i.uartRx

/-- A clock edge. -/
def tick : SocTop where
  cpu := s.cpu.tick (s.cpuIn i)
  uart := s.uart.tick uartCnt (s.uartIn i)
  regs := s.regs.tick (s.uartBus i)
  gpio := s.gpio.tick
    (if s.cpu.memWrite then s.cpu.dataWaddr.extractLsb' 0 4 else s.cpu.dataAddr.extractLsb' 0 4)
    s.cpu.dataOut (s.cpu.memWrite && s.wsel = some .gpio)
  last := s.sel

/-- The state after `n` cycles. -/
def run (inp : ℕ → SocIn) (s : SocTop) : ℕ → SocTop
  | 0 => s
  | n + 1 => (run inp s n).tick (inp n)

/-- The states of a run from the power-on reset. -/
inductive Reachable : SocTop → Prop
  | reset (registers : BitVec 5 → Word) (txMem rxMem : BitVec 5 → Byte) :
      Reachable (reset registers txMem rxMem)
  | tick {s : SocTop} (i : SocIn) : Reachable s → Reachable (s.tick i)

theorem Reachable.run {s : SocTop} (h : Reachable s) (inp : ℕ → SocIn) (n : ℕ) :
    Reachable (run inp s n) := by
  induction n with
  | zero => exact h
  | succ n ih => exact ih.tick (inp n)

end SocTop

end Vux9k.Rtl

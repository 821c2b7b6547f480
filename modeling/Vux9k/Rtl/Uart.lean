import Vux9k.Firmware.Bytes
import Vux9k.Lib.Ring

/-!
# The UART, cycle by cycle

`soc/uart`: the FIFOs (`fifo_sync`), the transmitter (`uart_tx`) and the receiver (`uart_rx`) with
their bit timers (`clk_timer`) and shift registers (`shift_registers`), wired up in
`uart_controller`, and the registers in front of it (`uart_regs`).  `cnt` is the parameter `CNT`,
the clocks of a bit.
-/

set_option autoImplicit false

namespace Vux9k.Rtl

/-! ## `fifo_sync` -/

/-- `fifo_sync` of `2 ^ w` entries. -/
structure Fifo (α : Type) (w : ℕ) : Type where
  mem : BitVec w → α
  waddr : BitVec w
  raddr : BitVec w
  count : ℕ

namespace Fifo

variable {α : Type} {w : ℕ}

/-- After a reset; the memory keeps what it holds. -/
def reset (mem : BitVec w → α) : Fifo α w := ⟨mem, 0#w, 0#w, 0⟩

variable (f : Fifo α w)

/-- `full`. -/
def full : Bool := f.count = 2 ^ w

/-- `empty`. -/
def empty : Bool := f.count = 0

/-- `rdata`. -/
def rdata : α := f.mem f.raddr

/-- `do_read`. -/
def doRead (re : Bool) : Bool := re && f.count ≠ 0

/-- `do_write`. -/
def doWrite (we re : Bool) : Bool := we && (f.count ≠ 2 ^ w || f.doRead re)

/-- A clock edge. -/
def tick (wdata : α) (we re : Bool) : Fifo α w where
  mem := if f.doWrite we re then Function.update f.mem f.waddr wdata else f.mem
  waddr := if f.doWrite we re then f.waddr + 1#w else f.waddr
  raddr := if f.doRead re then f.raddr + 1#w else f.raddr
  count := if f.doWrite we re && !f.doRead re then f.count + 1
    else if f.doRead re && !f.doWrite we re then f.count - 1
    else f.count

/-- The queue in it. -/
def contents : List α := ringList f.mem f.raddr f.count

/-- What holds between two clock edges. -/
structure Wf : Prop where
  le : f.count ≤ 2 ^ w
  waddr : f.waddr = f.raddr + BitVec.ofNat w f.count

variable {f}

theorem Wf.reset (mem : BitVec w → α) : (Fifo.reset mem).Wf :=
  ⟨Nat.zero_le _, (BitVec.add_zero 0#w).symm⟩

theorem empty_iff : f.empty = true ↔ f.contents = [] := by
  rw [empty, decide_eq_true_iff, ← List.length_eq_zero_iff, contents, length_ringList]

theorem full_iff : f.full = true ↔ f.contents.length = 2 ^ w := by
  rw [full, decide_eq_true_iff, contents, length_ringList]

/-- The head shows in `rdata`. -/
theorem contents_eq_cons (h : f.empty = false) :
    f.contents = f.rdata :: ringList f.mem (f.raddr + 1#w) (f.count - 1) := by
  have hpos : f.count = f.count - 1 + 1 := by
    simp only [empty, decide_eq_false_iff_not] at h
    omega
  rw [contents, hpos, ringList_succ]
  rfl

theorem doRead_eq (re : Bool) : f.doRead re = (re && !f.empty) := by
  simp [doRead, empty]

theorem Wf.tick (h : f.Wf) (wdata : α) (we re : Bool) : (f.tick wdata we re).Wf := by
  obtain ⟨hle, hw⟩ := h
  have hread : f.doRead re = true → f.count ≠ 0 := by
    intro hr
    rw [doRead, Bool.and_eq_true, decide_eq_true_iff] at hr
    exact hr.2
  have hwrite : f.doWrite we re = true → f.doRead re = false → f.count ≠ 2 ^ w := by
    intro hd hr
    rw [doWrite, hr, Bool.or_false, Bool.and_eq_true, decide_eq_true_iff] at hd
    exact hd.2
  unfold Fifo.tick
  cases hr : f.doRead re with
  | false =>
    cases hd : f.doWrite we re with
    | false => exact ⟨by simpa using hle, by simpa using hw⟩
    | true =>
      have hne := hwrite hd hr
      refine ⟨by simp; omega, ?_⟩
      simp only [hw, BitVec.ofNat_add, if_true, Bool.not_false, Bool.and_true, Bool.false_eq_true,
        if_false, BitVec.add_assoc]
  | true =>
    have hne := hread hr
    obtain ⟨k, hk⟩ : ∃ k, f.count = k + 1 := ⟨f.count - 1, by omega⟩
    cases hd : f.doWrite we re with
    | false =>
      refine ⟨by simp; omega, ?_⟩
      simp only [hw, hk, BitVec.ofNat_add, BitVec.add_assoc, BitVec.add_comm (BitVec.ofNat w k),
        Nat.add_sub_cancel, Bool.false_and, Bool.not_false, Bool.and_true, Bool.false_eq_true,
        if_true, if_false]
    | true =>
      refine ⟨by simpa using hle, ?_⟩
      simp [hw, BitVec.add_assoc, BitVec.add_comm (1#w)]

/-- **A clock edge takes the head off the queue and puts `wdata` at its end.** -/
theorem contents_tick (h : f.Wf) (wdata : α) (we re : Bool) :
    (f.tick wdata we re).contents = (if f.doRead re then f.contents.tail else f.contents) ++
      if f.doWrite we re then [wdata] else [] := by
  obtain ⟨hle, hw⟩ := h
  unfold contents Fifo.tick
  cases hr : f.doRead re with
  | false =>
    cases hd : f.doWrite we re with
    | false => simp
    | true =>
      have hlt : f.count < 2 ^ w := by
        rw [doWrite, hr, Bool.or_false, Bool.and_eq_true, decide_eq_true_iff] at hd
        omega
      simp only [hw, if_true, Bool.not_false, Bool.and_true, Bool.false_eq_true, if_false]
      exact ringList_push f.mem f.raddr hlt wdata
  | true =>
    have hne : f.count ≠ 0 := by
      rw [doRead, Bool.and_eq_true, decide_eq_true_iff] at hr
      exact hr.2
    obtain ⟨k, hk⟩ : ∃ k, f.count = k + 1 := ⟨f.count - 1, by omega⟩
    have hlast : f.raddr + BitVec.ofNat w (k + 1) = f.raddr + 1#w + BitVec.ofNat w k := by
      rw [BitVec.ofNat_add, BitVec.add_comm (BitVec.ofNat w k), BitVec.add_assoc]
    cases hd : f.doWrite we re with
    | false =>
      simp [hk, ringList_succ]
    | true =>
      simp only [hw, hk, hlast, if_true, Bool.not_true, Bool.and_false, Bool.false_eq_true,
        if_false]
      rw [ringList_push f.mem (f.raddr + 1#w) (by omega) wdata, ringList_succ f.mem, List.tail_cons]

end Fifo

/-! ## `uart_tx` -/

/-- `State` of `uart_tx`. -/
inductive TxState : Type
  | rst
  | idle
  | set
  | sending
  deriving DecidableEq

/-- `uart_tx`, with the counter of its `clk_timer` and its shift register. -/
structure UartTx : Type where
  state : TxState
  regUartframe : BitVec 10
  regSentcnt : ℕ
  regCounter : ℕ
  sregs : BitVec 10

namespace UartTx

/-- After a reset. -/
def reset (cnt : ℕ) : UartTx where
  state := .rst
  regUartframe := 0x3FF#10
  regSentcnt := 0
  regCounter := cnt - 1
  sregs := 0x3FF#10

variable (s : UartTx)

/-- `sreg_ce`, the timer's alarm. -/
def sregCe : Bool := s.regCounter = 0

/-- `busy`. -/
def busy : Bool := s.state ≠ .idle

/-- `txd`. -/
def txd : Bool := s.sregs.getLsbD 0

/-- `sreg_set`. -/
def sregSet : Bool := (s.state = .rst || s.state = .set) && s.sregCe

/-- `next_state`. -/
def nextState (we : Bool) : TxState :=
  match s.state with
  | .rst => if s.sregCe then .idle else .rst
  | .idle => if we then .set else .idle
  | .set => if s.sregCe then .sending else .set
  | .sending => if s.regSentcnt = 9 then .idle else .sending

/-- `next_sentcnt`. -/
def nextSentcnt : ℕ :=
  match s.state with
  | .sending => if s.regSentcnt = 9 then 0 else if s.sregCe then s.regSentcnt + 1 else s.regSentcnt
  | _ => s.regSentcnt

/-- A clock edge. -/
def tick (cnt : ℕ) (data : Byte) (we : Bool) : UartTx where
  state := s.nextState we
  regUartframe := if we then (1#1 ++ data) ++ 0#1 else s.regUartframe
  regSentcnt := s.nextSentcnt
  regCounter := if s.sregCe then cnt - 1 else s.regCounter - 1
  sregs := if s.sregCe then if s.sregSet then s.regUartframe else 1#1 ++ s.sregs.extractLsb' 1 9
    else s.sregs

end UartTx

/-! ## `uart_rx` -/

/-- `State` of `uart_rx`. -/
inductive RxState : Type
  | idle
  | waitForMidBit
  | receiving
  deriving DecidableEq

/-- `uart_rx`, with the counter of its `clk_timer` and its shift register; `rxdSync1` is the older
of the two flops. -/
structure UartRx : Type where
  rxdSync0 : Bool
  rxdSync1 : Bool
  state : RxState
  regClkcnt : ℕ
  regBitcnt : ℕ
  regCounter : ℕ
  sregs : BitVec 8

namespace UartRx

/-- After a reset. -/
def reset (cnt : ℕ) : UartRx where
  rxdSync0 := true
  rxdSync1 := true
  state := .idle
  regClkcnt := 0
  regBitcnt := 0
  regCounter := cnt - 1
  sregs := 0xFF#8

variable (s : UartRx)

/-- `sreg_ce`, the timer's alarm. -/
def sregCe : Bool := s.regCounter = 0

/-- `timer_clr`. -/
def timerClr : Bool := s.state = .waitForMidBit && s.regClkcnt = 0 && !s.rxdSync1

/-- `rdy`. -/
def rdy : Bool := s.state = .receiving && s.sregCe && s.regBitcnt = 8

/-- `frame_err`. -/
def frameErr : Bool := s.rdy && !s.rxdSync1

/-- `data`. -/
def data : Byte := s.sregs

/-- `next_state`. -/
def nextState : RxState :=
  match s.state with
  | .idle => if s.rxdSync1 then .idle else .waitForMidBit
  | .waitForMidBit =>
    if s.regClkcnt = 0 then if s.rxdSync1 then .idle else .receiving else .waitForMidBit
  | .receiving => if s.sregCe && s.regBitcnt = 8 then .idle else .receiving

/-- `next_clkcnt`. -/
def nextClkcnt (cnt : ℕ) : ℕ :=
  match s.state with
  | .idle => if s.rxdSync1 then s.regClkcnt else cnt / 2
  | .waitForMidBit => if s.regClkcnt = 0 then s.regClkcnt else s.regClkcnt - 1
  | .receiving => s.regClkcnt

/-- `next_bitcnt`. -/
def nextBitcnt : ℕ :=
  match s.state with
  | .idle => s.regBitcnt
  | .waitForMidBit => if s.timerClr then 0 else s.regBitcnt
  | .receiving => if s.sregCe && s.regBitcnt ≠ 8 then s.regBitcnt + 1 else s.regBitcnt

/-- A clock edge. -/
def tick (cnt : ℕ) (rxd : Bool) : UartRx where
  rxdSync0 := rxd
  rxdSync1 := s.rxdSync0
  state := s.nextState
  regClkcnt := s.nextClkcnt cnt
  regBitcnt := s.nextBitcnt
  regCounter := if s.timerClr || s.sregCe then cnt - 1 else s.regCounter - 1
  sregs := if s.sregCe then BitVec.ofBool s.rxdSync1 ++ s.sregs.extractLsb' 1 7 else s.sregs

end UartRx

/-! ## `uart_controller` -/

/-- `uart_controller`. -/
structure Uart : Type where
  txFifo : Fifo Byte 5
  tx : UartTx
  rx : UartRx
  rxFifo : Fifo Byte 5

/-- The inputs of `uart_controller` in a cycle. -/
structure UartIn : Type where
  wdata : Byte
  we : Bool
  re : Bool
  rxd : Bool

namespace Uart

/-- After a reset; the FIFOs' memories keep what they hold. -/
def reset (cnt : ℕ) (txMem rxMem : BitVec 5 → Byte) : Uart :=
  ⟨.reset txMem, .reset cnt, .reset cnt, .reset rxMem⟩

variable (u : Uart)

/-- `tx_we`. -/
def txWe (we : Bool) : Bool := we && !u.txFifo.full

/-- `tx_re`, and `uart_we`. -/
def txRe : Bool := !u.txFifo.empty && !u.tx.busy

/-- `rx_we`: a byte that arrives while the FIFO is full is dropped. -/
def rxWe : Bool := u.rx.rdy && !u.rxFifo.full

/-- `rx_re`. -/
def rxRe (re : Bool) : Bool := re && !u.rxFifo.empty

/-- A clock edge. -/
def tick (cnt : ℕ) (i : UartIn) : Uart where
  txFifo := u.txFifo.tick i.wdata (u.txWe i.we) u.txRe
  tx := u.tx.tick cnt u.txFifo.rdata u.txRe
  rx := u.rx.tick cnt i.rxd
  rxFifo := u.rxFifo.tick u.rx.data u.rxWe (u.rxRe i.re)

end Uart

/-! ## `uart_regs` -/

/-- `uart_regs`. -/
structure UartRegs : Type where
  lastSel : Bool
  lastIdx : BitVec 6
  evEn : BitVec 2

/-- The inputs of `uart_regs` from the bus in a cycle. -/
structure UartBus : Type where
  softRst : Bool
  hackMode : Bool
  rdSel : Bool
  rdAddr : BitVec 8
  read : Bool
  we : Bool
  wrAddr : BitVec 8
  wdata : BitVec 2

/-- `rd_idx` and `wr_idx`. -/
def uartIdx (hackMode : Bool) (addr : BitVec 8) : BitVec 6 :=
  if hackMode then 0#4 ++ addr.extractLsb' 0 2 else addr.extractLsb' 2 6

/-- `RXTX`. -/
def rxtx : BitVec 6 := 0x00#6

/-- `EV_ENABLE`. -/
def evEnable : BitVec 6 := 0x05#6

namespace UartRegs

/-- After a reset. -/
def reset : UartRegs := ⟨false, 0#6, 0b00#2⟩

variable (r : UartRegs) (u : Uart)

/-- `events`. -/
def events : BitVec 2 := BitVec.ofBool (!u.rxFifo.empty) ++ BitVec.ofBool (!u.txFifo.full)

/-- `enabled`. -/
def enabled : BitVec 2 := r.evEn &&& events u

/-- `pending`. -/
def pending : BitVec 2 := if r.evEn = 0b00#2 then events u else r.enabled u

/-- `irq`. -/
def irq : Bool := r.enabled u ≠ 0b00#2

/-- `tx_push`. -/
def txPush (i : UartBus) : Bool := i.we && uartIdx i.hackMode i.wrAddr = rxtx

/-- `rx_pop`. -/
def rxPop (i : UartBus) : Bool := i.read && r.lastSel && r.lastIdx = rxtx

/-- `word`. -/
def word : Word :=
  match r.lastIdx.toNat with
  | 0x00 => if u.rxFifo.empty then 0#32 else u.rxFifo.rdata.setWidth 32
  | 0x01 => (BitVec.ofBool u.txFifo.full).setWidth 32
  | 0x02 => (BitVec.ofBool u.rxFifo.empty).setWidth 32
  | 0x03 => (events u).setWidth 32
  | 0x04 => (r.pending u).setWidth 32
  | 0x05 => r.evEn.setWidth 32
  | 0x06 => (BitVec.ofBool u.txFifo.empty).setWidth 32
  | 0x07 => (BitVec.ofBool u.rxFifo.full).setWidth 32
  | _ => 0#32

/-- `rdata`. -/
def rdata : Word := if r.lastSel then r.word u else 0#32

/-- A clock edge. -/
def tick (i : UartBus) : UartRegs where
  lastSel := i.rdSel
  lastIdx := uartIdx i.hackMode i.rdAddr
  evEn := if i.softRst then 0b00#2
    else if i.we && uartIdx i.hackMode i.wrAddr = evEnable then i.wdata
    else r.evEn

end UartRegs

end Vux9k.Rtl

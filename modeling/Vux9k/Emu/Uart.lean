import Vux9k.Firmware.Bytes

/-!
# The emulator's UART

`emu/crates/vux9k_emu/src/periph/uart.rs`.  The UART is advanced lazily: `now` is the cycle whose
state it holds, and an access of cycle `c` first applies every edge before `c` at which something
happens.
-/

set_option autoImplicit false

namespace Vux9k.Emu

/-- `CpuOp`. -/
inductive CpuOp : Type
  | txPush (b : Byte)
  | rxPop
  | setEvEnable (v : BitVec 2)
  deriving DecidableEq

/-- `RxFrame`. -/
structure RxFrame : Type where
  byte : Byte
  start : ℕ

/-- `Uart`. -/
structure Uart : Type where
  now : ℕ
  txFifo : List Byte
  txIdleFrom : ℕ
  txOut : List (Byte × ℕ)
  txBytes : List Byte
  rxFifo : List Byte
  rxLine : List RxFrame
  rxLineFree : ℕ
  rxDropped : ℕ
  cpuOps : List (ℕ × CpuOp)
  quietUntil : ℕ
  evEnable : BitVec 2

namespace Uart

/-- `BIT`. -/
def bit : ℕ := 156

/-- `FRAME`. -/
def frame : ℕ := 10 * bit

/-- `FIFO_DEPTH`. -/
def fifoDepth : ℕ := 32

/-- `FIRST_ALARM`. -/
def firstAlarm : ℕ := bit - 1

/-- `RX_PUSH_DELAY`. -/
def rxPushDelay : ℕ := 3 + bit / 2 + 9 * bit

/-- `u64::MAX`. -/
def never : ℕ := 2 ^ 64 - 1

/-- `Uart::default`. -/
def default : Uart where
  now := 0
  txFifo := []
  txIdleFrom := firstAlarm + 1
  txOut := []
  txBytes := []
  rxFifo := []
  rxLine := []
  rxLineFree := 0
  rxDropped := 0
  cpuOps := []
  quietUntil := 0
  evEnable := 0#2

/-- `next_alarm`. -/
def nextAlarm (c : ℕ) : ℕ :=
  if c ≤ firstAlarm then firstAlarm else firstAlarm + (c - firstAlarm + (bit - 1)) / bit * bit

/-- A queued effect of the CPU. -/
def applyOp (u : Uart) : CpuOp → Uart
  | .txPush b => { u with txFifo := u.txFifo ++ [b] }
  | .rxPop => { u with rxFifo := u.rxFifo.tail }
  | .setEvEnable v => { u with evEnable := v }

/-- The effects of the CPU at `edge`. -/
def applyOps (edge : ℕ) (u : Uart) : Uart :=
  ((u.cpuOps.takeWhile fun op ↦ op.1 = edge).map Prod.snd).foldl applyOp
    { u with cpuOps := u.cpuOps.dropWhile fun op ↦ op.1 = edge }

/-- The transmitter takes a byte. -/
def popTx (u : Uart) (edge : ℕ) : Uart :=
  match u.txFifo with
  | [] => u
  | byte :: rest =>
    let load := nextAlarm (edge + 1)
    { u with
      txFifo := rest
      txOut := u.txOut ++ [(byte, load + 1)]
      txBytes := u.txBytes ++ [byte]
      txIdleFrom := load + 9 * bit + 2 }

/-- The byte that has arrived, and the line without it. -/
def popLine (u : Uart) : Option Byte × Uart :=
  match u.rxLine with
  | [] => (none, u)
  | f :: rest => (some f.byte, { u with rxLine := rest })

/-- `apply_edge`. -/
def applyEdge (u : Uart) (edge : ℕ) (txPop rxPush : Bool) : Uart :=
  let rxFull : Bool := u.rxFifo.length = fifoDepth
  let u := if txPop then u.popTx edge else u
  let (arrived, u) := if rxPush then u.popLine else (none, u)
  let u := if arrived.isSome && rxFull then { u with rxDropped := u.rxDropped + 1 } else u
  let pushed := if rxFull then none else arrived
  let u := u.applyOps edge
  { u with rxFifo := u.rxFifo ++ pushed.toList }

/-- The edge at which the transmitter takes its next byte. -/
def txPopEdge (u : Uart) : Option ℕ :=
  if u.txFifo.isEmpty then none else some (max u.now u.txIdleFrom)

/-- The edge at which the next byte arrives. -/
def rxPushEdge (u : Uart) : Option ℕ := u.rxLine.head?.map fun f ↦ f.start + rxPushDelay

/-- The edge of the CPU's next effect. -/
def cpuEdge (u : Uart) : Option ℕ := u.cpuOps.head?.map Prod.fst

/-- The next edge at which something happens. -/
def nextEdge (u : Uart) : Option ℕ := ([u.txPopEdge, u.rxPushEdge, u.cpuEdge].filterMap id).min?

/-- The loop of `advance_edges`. -/
def advanceLoop (till : ℕ) : ℕ → Uart → Uart
  | 0, u => u
  | fuel + 1, u =>
    if u.now < till then
      match u.nextEdge with
      | none => { u with now := till, quietUntil := never }
      | some edge =>
        if till ≤ edge then { u with now := till, quietUntil := edge }
        else
          advanceLoop till fuel
            { u.applyEdge edge (u.txPopEdge = some edge) (u.rxPushEdge = some edge) with
              now := edge + 1 }
    else u

/-- What is left to happen: each round of the loop makes it less. -/
def pending (u : Uart) : ℕ := u.txFifo.length + u.rxLine.length + 2 * u.cpuOps.length

/-- `advance_edges`. -/
def advanceEdges (u : Uart) (till : ℕ) : Uart :=
  advanceLoop till (u.pending + 1) { u with quietUntil := 0 }

/-- `advance`. -/
def advance (u : Uart) (till : ℕ) : Uart :=
  if till ≤ u.quietUntil then { u with now := max u.now till } else u.advanceEdges till

/-- `queue`. -/
def queue (u : Uart) (edge : ℕ) (op : CpuOp) : Uart :=
  { u with cpuOps := u.cpuOps ++ [(edge, op)], quietUntil := min u.quietUntil edge }

/-- `events`: bit 0 TX, bit 1 RX. -/
def events (u : Uart) : BitVec 2 :=
  BitVec.ofBool (!u.rxFifo.isEmpty) ++ BitVec.ofBool (u.txFifo.length < fifoDepth)

/-- `enabled`. -/
def enabled (u : Uart) : BitVec 2 := u.evEnable &&& u.events

/-- `pending`. -/
def evPending (u : Uart) : BitVec 2 := if u.evEnable = 0#2 then u.events else u.enabled

/-- `pop_head`. -/
def popHead (u : Uart) (c : ℕ) : Word × Uart :=
  match u.rxFifo with
  | [] => (0#32, u)
  | head :: _ => (head.setWidth 32, u.queue c .rxPop)

/-- `push_tx`. -/
def pushTx (u : Uart) (v : Word) (c : ℕ) : Uart :=
  let u := u.advance c
  if u.txFifo.length < fifoDepth then u.queue c (.txPush (v.setWidth 8)) else u

/-- A level as a word. -/
def flag (b : Bool) : Word := (BitVec.ofBool b).setWidth 32

/-- `read`. -/
def read (u : Uart) (addr : Word) (c : ℕ) : Word × Uart :=
  let u := u.advance c
  match (addr &&& 0xFC#32).toNat with
  | 0x00 => u.popHead c
  | 0x04 => (flag (u.txFifo.length = fifoDepth), u)
  | 0x08 => (flag u.rxFifo.isEmpty, u)
  | 0x0C => (u.events.setWidth 32, u)
  | 0x10 => (u.evPending.setWidth 32, u)
  | 0x14 => (u.evEnable.setWidth 32, u)
  | 0x18 => (flag u.txFifo.isEmpty, u)
  | 0x1C => (flag (u.rxFifo.length = fifoDepth), u)
  | _ => (0#32, u)

/-- `write`. -/
def write (u : Uart) (addr v : Word) (c : ℕ) : Uart :=
  match (addr &&& 0xFC#32).toNat with
  | 0x00 => u.pushTx v c
  | 0x14 => (u.advance c).queue c (.setEvEnable (v.setWidth 2))
  | _ => u

/-- `soft_reset`. -/
def softReset (u : Uart) (c : ℕ) : Uart := (u.advance c).queue c (.setEvEnable 0#2)

/-- `irq`. -/
def irq (u : Uart) (c : ℕ) : Bool × Uart :=
  let u := u.advance c
  (u.enabled ≠ 0#2, u)

/-- `legacy_read`, of the register view before liteuart's. -/
def legacyRead (u : Uart) (addr : Word) (c : ℕ) : Word × Uart :=
  let u := u.advance c
  if addr &&& 0xF#32 = 0#32 then u.popHead c
  else (flag (u.txFifo.length = fifoDepth) <<< 1 ||| flag u.rxFifo.isEmpty, u)

/-- `legacy_write`. -/
def legacyWrite (u : Uart) (addr v : Word) (c : ℕ) : Uart :=
  if addr &&& 0xF#32 = 0#32 then u.pushTx v c else u

/-- `rx_pending`. -/
def rxPending (u : Uart) (c : ℕ) : Bool × Uart :=
  let u := u.advance c
  (!u.rxFifo.isEmpty, u)

/-- A byte of `host_send`. -/
def sendByte (c : ℕ) (u : Uart) (byte : Byte) : Uart :=
  let start := max u.rxLineFree c
  { u with
    rxLine := u.rxLine ++ [⟨byte, start⟩]
    rxLineFree := start + frame
    quietUntil := min u.quietUntil (start + rxPushDelay) }

/-- `host_send`, of bytes for which what it asserts holds (`SendOk`). -/
def hostSend (u : Uart) (bytes : List Byte) (c : ℕ) : Uart := bytes.foldl (sendByte c) u

/-- `tx_complete_by`. -/
def txCompleteBy (u : Uart) (c : ℕ) : ℕ := (u.txOut.takeWhile fun b ↦ b.2 + frame ≤ c).length

/-- `next_tx_complete`. -/
def nextTxComplete (u : Uart) (n c : ℕ) : ℕ :=
  let unpopped := c + 2 + frame
  match u.txOut[n]? with
  | none => unpopped
  | some b => min (b.2 + frame) unpopped

end Uart

end Vux9k.Emu

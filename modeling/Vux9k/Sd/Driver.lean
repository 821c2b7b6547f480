import Vux9k.Lib.Prog
import Vux9k.Sd.Card

/-!
# The SD card driver

`fw_drivers/src/sdcard.rs`, and the SPI master of `periph/sdspi.rs` between it and the card.  The
driver waits while the master is busy, so to it a byte is one exchange.  Its two statics are what
`Statics` holds.
-/

set_option autoImplicit false

namespace Vux9k.Sd

/-! ## The master -/

/-- What the driver does with the master's registers. -/
inductive SpiOp : Type
  | transfer (byte : Byte)
  | setCs (active : Bool)
  | setClkdiv (div : ℕ)

/-- The byte received. -/
@[reducible]
def SpiOp.Ans : SpiOp → Type
  | .transfer _ => Byte
  | .setCs _ => Unit
  | .setClkdiv _ => Unit

/-- Programs that use the master. -/
abbrev SpiProg := Prog SpiOp SpiOp.Ans

/-- `CLK_HZ`. -/
def clkHz : ℕ := 18000000

/-- `MIN_HALF_PERIOD`. -/
def minHalfPeriod : ℕ := 3

/-- `SdSpi`, with a card in the socket. -/
structure Bus : Type where
  csN : Bool
  div : ℕ
  card : Card

namespace Bus

/-- The card, told the clock of the bytes to come. -/
def tuned (b : Bus) : Card := { b.card with sclkHz := clkHz / (2 * b.div) }

/-- One operation of the driver. -/
def step (b : Bus) : (o : SpiOp) → SpiOp.Ans o × Bus
  | .transfer byte =>
    ((b.tuned.exchange byte !b.csN).1, { b with card := (b.tuned.exchange byte !b.csN).2 })
  | .setCs active =>
    -- the card is told only when the level changes
    ((), { b with csN := !active, card := if !active = b.csN then b.card else b.card.setCs active })
  | .setClkdiv div => ((), { b with div := max (div % 256) minHalfPeriod })

/-- A program of the driver. -/
def run {α : Type} : SpiProg α → Bus → α × Bus
  | .ret a, b => (a, b)
  | .ask o k, b => run (k (b.step o).1) (b.step o).2

end Bus

/-! ## The driver -/

/-- `IS_SDHC` and `IS_INITIALIZED`. -/
structure Statics : Type where
  isSdhc : Bool
  isInitialized : Bool
  deriving DecidableEq

/-- `transfer`. -/
def transfer (byte : Byte) : SpiProg Byte := .ask (.transfer byte) .ret

/-- `set_cs`. -/
def setCs (active : Bool) : SpiProg Unit := .ask (.setCs active) .ret

/-- `set_clkdiv`. -/
def setClkdiv (div : ℕ) : SpiProg Unit := .ask (.setClkdiv div) .ret

/-- `map::SD_DIV_INIT`. -/
def divInit : ℕ := 23

/-- `map::SD_DIV_FAST`. -/
def divFast : ℕ := 3

/-- `deselect`. -/
def deselect : SpiProg Unit := do
  setCs false
  let _ ← transfer 0xFF#8

/-- The loop of `send_cmd`: the first answer that is not `0xFF`. -/
def awaitR1 : ℕ → SpiProg Byte
  | 0 => pure 0xFF#8
  | n + 1 => do
    let res ← transfer 0xFF#8
    if res ≠ 0xFF#8 then pure res else awaitR1 n

/-- `send_cmd`. -/
def sendCmd (cmd : Byte) (arg : Word) (crc : Byte) : SpiProg Byte := do
  setCs true
  let _ ← transfer (0x40#8 ||| cmd)
  let _ ← transfer ((arg >>> 24).setWidth 8)
  let _ ← transfer ((arg >>> 16).setWidth 8)
  let _ ← transfer ((arg >>> 8).setWidth 8)
  let _ ← transfer (arg.setWidth 8)
  let _ ← transfer crc
  awaitR1 200

/-- `n` bytes of an answer. -/
def readBytes : ℕ → SpiProg (List Byte)
  | 0 => pure []
  | n + 1 => do
    let b ← transfer 0xFF#8
    let rest ← readBytes n
    pure (b :: rest)

/-- A command and the end of it. -/
def command (cmd : Byte) (arg : Word) (crc : Byte) : SpiProg Byte := do
  let r ← sendCmd cmd arg crc
  deselect
  pure r

/-- The `CMD0` loop of `init`. -/
def goIdle : ℕ → Byte → SpiProg Byte
  | 0, r1 => pure r1
  | n + 1, _ => do
    let r1 ← command 0#8 0#32 0x95#8
    if r1 = 0x01#8 then pure r1 else goIdle n r1

/-- `CMD8` of `init`: whether the card is of version 2. -/
def sendIfCond : SpiProg Bool := do
  let r8 ← sendCmd 8#8 0x000001AA#32 0x87#8
  if r8 = 0x01#8 then
    let ocr ← readBytes 4
    deselect
    pure (ocr.getD 2 0#8 = 0x01#8 && ocr.getD 3 0#8 = 0xAA#8)
  else
    deselect
    pure false

/-- The `ACMD41` loop of `init`. -/
def sendOpCond (arg : Word) : ℕ → SpiProg Bool
  | 0 => pure false
  | n + 1 => do
    let r55 ← command 55#8 0#32 0x65#8
    let res ← if r55 ≤ 0x01#8 then command 41#8 arg 0x77#8 else command 1#8 arg 0xFF#8
    if res = 0x00#8 then pure true else sendOpCond arg n

/-- `CMD58` of `init`: whether the card says that it takes block addresses. -/
def readOcr : SpiProg Bool := do
  let r58 ← sendCmd 58#8 0#32 0xFD#8
  if r58 = 0x00#8 then
    let ocr ← readBytes 4
    deselect
    pure (ocr.getD 0 0#8 &&& 0x40#8 ≠ 0#8)
  else
    deselect
    pure false

/-- Some bytes for a card that is not selected. -/
def idleBytes : ℕ → SpiProg Unit
  | 0 => pure ()
  | n + 1 => do
    let _ ← transfer 0xFF#8
    idleBytes n

/-- `init`, and the statics after it. -/
def init (st : Statics) : SpiProg (Bool × Statics) := do
  setClkdiv divInit
  deselect
  idleBytes 16
  let r1 ← goIdle 20 0xFF#8
  if r1 ≠ 0x01#8 then pure (false, st)
  else
    let isV2 ← sendIfCond
    let ready ← sendOpCond (if isV2 then 0x40000000#32 else 0#32) 1000
    if ¬ready then pure (false, st)
    else
      let sdhc ← if isV2 then readOcr else pure false
      let _ ← command 16#8 512#32 0xFF#8
      setClkdiv divFast
      pure (true, { isSdhc := sdhc, isInitialized := true })

/-- `address`. -/
def Statics.address (st : Statics) (sector : Word) : Word :=
  if st.isSdhc then sector else sector <<< 9

/-- The loop that waits for the data token. -/
def awaitToken : ℕ → SpiProg Bool
  | 0 => pure false
  | n + 1 => do
    let token ← transfer 0xFF#8
    if token = 0xFE#8 then pure true else awaitToken n

/-- A sector read by `CMD17`, as far as its two CRC bytes. -/
def fetchBlock (addr : Word) : SpiProg (Option (List Byte)) := do
  let r1 ← sendCmd 17#8 addr 0xFF#8
  if r1 ≠ 0x00#8 then
    deselect
    pure none
  else if ¬(← awaitToken 50000) then
    deselect
    pure none
  else
    let data ← readBytes blockLen
    let _ ← readBytes 2
    deselect
    pure (some data)

/-- `read_block`: what is in `buf` if it returns true; if not, `buf` is as it was. -/
def readBlock (st : Statics) (sector : Word) : SpiProg (Option (List Byte)) :=
  fetchBlock (st.address sector)

/-- A sector's bytes. -/
abbrev Block := { l : List Byte // l.length = blockLen }

/-- Bytes for the card. -/
def sendBytes : List Byte → SpiProg Unit
  | [] => pure ()
  | b :: bs => do
    let _ ← transfer b
    sendBytes bs

/-- The loop that waits until the card has programmed a sector. -/
def awaitProgrammed : ℕ → SpiProg Bool
  | 0 => pure false
  | n + 1 => do
    if (← transfer 0xFF#8) = 0xFF#8 then pure true else awaitProgrammed n

/-- `write_block`. -/
def writeBlock (st : Statics) (sector : Word) (buf : Block) : SpiProg Bool := do
  let addr := st.address sector
  let r1 ← sendCmd 24#8 addr 0xFF#8
  if r1 ≠ 0x00#8 then
    deselect
    pure false
  else
    sendBytes [0xFF#8, 0xFE#8]
    sendBytes buf.1
    sendBytes [0xFF#8, 0xFF#8]
    let resp ← transfer 0xFF#8
    if resp &&& 0x1F#8 ≠ 0x05#8 then
      deselect
      pure false
    else
      let programmed ← awaitProgrammed 250000
      deselect
      if ¬programmed then pure false
      else
        -- the sector is read back and compared as it comes
        match ← fetchBlock addr with
        | none => pure false
        | some data => pure (data = buf.1)

end Vux9k.Sd

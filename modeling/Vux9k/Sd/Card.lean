import Mathlib.Logic.Function.Basic
import Vux9k.Firmware.Bytes

/-!
# The SD card in SPI mode

`emu/crates/vux9k_emu/src/sdcard.rs`: for every byte the SPI master exchanges, the card is given the
byte and whether it is selected, and gives a byte back.  Answers wait in a queue, and are sent
whatever the chip select does.  The image is bytes without end: what lies past the end of the file
reads as zero, and writing there makes it longer.
-/

set_option autoImplicit false

namespace Vux9k.Sd

/-- `POWER_UP_CLOCKS`. -/
def powerUpClocks : ℕ := 74

/-- `INIT_SCLK_HZ`. -/
def initSclkHz : ℕ := 400000

/-- `SECTOR`. -/
def blockLen : ℕ := 512

/-- `Faults`. -/
structure Faults : Type where
  muteCmds : List Byte
  neverReady : Bool
  readError : Bool
  badSectors : List Word
  failAfter : List (Word × ℕ)
  writeReject : Bool

/-- `State`; `buf` is as long as the bytes it has. -/
inductive State : Type
  | idle
  | cmd (buf : List Byte)
  | waitToken (lba : Word)
  | data (lba : Word) (buf : List Byte)
  | resync
  deriving DecidableEq

/-- What strict mode complains of. -/
inductive Violation : Type
  /-- `SCLK {hz} Hz before the card is ready, SD spec allows <= 400000 Hz`. -/
  | fastClock (hz : ℕ)
  /-- `CMD{cmd}: SDSC byte address {arg} is not sector-aligned (block address sent?)`. -/
  | unaligned (cmd : Byte) (arg : Word)
  /-- `power-up: only {clocks} SCLK cycles with CS high before the first command (CMD{cmd}), …`. -/
  | powerUp (clocks : ℕ) (cmd : Byte)
  deriving DecidableEq

/-- `SdCard`. -/
structure Card : Type where
  sdhc : Bool
  strict : Bool
  faults : Faults
  image : ℕ → Byte
  state : State
  resp : List Byte
  ready : Bool
  firstCmdSeen : Bool
  idleClocks : ℕ
  sclkHz : ℕ
  fastReported : Bool
  commands : List (Byte × Word)
  reads : Word → ℕ
  violations : List Violation

namespace Card

/-- `SdCard::new`, with the type, the mode and the faults set. -/
def new (sdhc strict : Bool) (faults : Faults) (image : ℕ → Byte) : Card where
  sdhc := sdhc
  strict := strict
  faults := faults
  image := image
  state := .idle
  resp := []
  ready := false
  firstCmdSeen := false
  idleClocks := 0
  sclkHz := initSclkHz
  fastReported := false
  commands := []
  reads := fun _ ↦ 0
  violations := []

/-- `sector`. -/
def sector (c : Card) (lba : Word) : List Byte :=
  (List.range blockLen).map fun j ↦ c.image (lba.toNat * blockLen + j)

/-- `set_sector`, of at most a sector's data. -/
def setSector (c : Card) (lba : Word) (data : List Byte) : Card :=
  { c with image := fun i ↦
      if lba.toNat * blockLen ≤ i ∧ i < lba.toNat * blockLen + blockLen then
        data.getD (i - lba.toNat * blockLen) 0#8
      else c.image i }

/-- `set_cs`. -/
def setCs (c : Card) (selected : Bool) : Card := if selected then c else { c with state := .idle }

/-- `lba`. -/
def lba (c : Card) (cmd : Byte) (arg : Word) : Word × Card :=
  if ¬c.strict then (if arg < 0x10000#32 then arg else arg >>> 9, c)
  else if c.sdhc then (arg, c)
  else
    (arg >>> 9, if arg.toNat % blockLen = 0 then c
      else { c with violations := c.violations ++ [.unaligned cmd arg] })

/-- `CMD17`, a read of sector `lba`. -/
def answerRead (c : Card) (lba : Word) : Card :=
  let worn := c.faults.failAfter.any fun f ↦ f.1 = lba && f.2 ≤ c.reads lba
  if c.faults.readError || c.faults.badSectors.contains lba || worn then
    { c with resp := c.resp ++ [0xFF#8, 0x00#8, 0xFF#8, 0x08#8] }
  else
    { c with
      reads := Function.update c.reads lba (c.reads lba + 1)
      resp := c.resp ++ [0xFF#8, 0x00#8, 0xFF#8, 0xFE#8] ++ c.sector lba ++ [0x12#8, 0x34#8] }

/-- The answer of a command that is not muted. -/
def answer (c : Card) (cmd : Byte) (arg : Word) : Card :=
  match cmd.toNat with
  | 0 => { c with ready := false, resp := c.resp ++ [0xFF#8, 0x01#8] }
  | 8 => { c with resp := c.resp ++ [0xFF#8, 0x01#8, 0x00#8, 0x00#8, 0x01#8, 0xAA#8] }
  | 55 => { c with resp := c.resp ++ [0xFF#8, if c.ready then 0x00#8 else 0x01#8] }
  | 1 | 41 =>
    let ready := !c.faults.neverReady
    { c with
      ready := ready
      fastReported := c.fastReported && !ready
      resp := c.resp ++ [0xFF#8, if ready then 0x00#8 else 0x01#8] }
  | 58 =>
    { c with resp := c.resp ++
        [0xFF#8, 0x00#8, if c.sdhc then 0xC0#8 else 0x80#8, 0xFF#8, 0x80#8, 0x00#8] }
  | 16 => { c with resp := c.resp ++ [0xFF#8, 0x00#8] }
  | 17 => (c.lba cmd arg).2.answerRead (c.lba cmd arg).1
  | 24 =>
    { (c.lba cmd arg).2 with
      resp := c.resp ++ [0xFF#8, 0x00#8]
      state := .waitToken (c.lba cmd arg).1 }
  | _ => c

/-- `command`. -/
def command (c : Card) (cmd : Byte) (arg : Word) : Card :=
  let c := { c with commands := c.commands ++ [(cmd, arg)] }
  let c :=
    if c.firstCmdSeen then c
    else if c.strict && c.idleClocks < powerUpClocks then
      { c with firstCmdSeen := true, violations := c.violations ++ [.powerUp c.idleClocks cmd] }
    else { c with firstCmdSeen := true }
  if c.faults.muteCmds.contains cmd then c else c.answer cmd arg

/-- `u32::from_be_bytes`. -/
def beWord (b₀ b₁ b₂ b₃ : Byte) : Word := leWord b₃ b₂ b₁ b₀

/-- A byte for the selected card, when it has nothing to send. -/
def take (c : Card) (mosi : Byte) : Card :=
  match c.state with
  | .idle => if mosi &&& 0xC0#8 = 0x40#8 then { c with state := .cmd [mosi] } else c
  | .cmd buf =>
    let buf := buf ++ [mosi]
    if buf.length = 6 then
      { c with state := .idle }.command (buf.getD 0 0#8 &&& 0x3F#8)
        (beWord (buf.getD 1 0#8) (buf.getD 2 0#8) (buf.getD 3 0#8) (buf.getD 4 0#8))
    else { c with state := .cmd buf }
  | .waitToken lba => if mosi = 0xFE#8 then { c with state := .data lba [] } else c
  | .data lba buf =>
    let buf := buf ++ [mosi]
    if buf.length = blockLen + 2 then
      if c.faults.writeReject then { c with state := .resync, resp := c.resp ++ [0x0B#8] }
      else
        { c.setSector lba (buf.take blockLen) with
          state := .resync
          resp := c.resp ++ [0x05#8, 0x3F#8] }
    else { c with state := .data lba buf }
  | .resync => c

/-- The clock of a byte: what strict mode says to it, and the cycles before the first command. -/
def clocked (c : Card) (selected : Bool) : Card :=
  let c :=
    if ¬selected ∧ ¬c.firstCmdSeen then { c with idleClocks := c.idleClocks + 8 } else c
  if c.strict ∧ ¬c.ready ∧ initSclkHz < c.sclkHz ∧ ¬c.fastReported then
    { c with fastReported := true, violations := c.violations ++ [.fastClock c.sclkHz] }
  else c

/-- `exchange`. -/
def exchange (c : Card) (mosi : Byte) (selected : Bool) : Byte × Card :=
  let c := c.clocked selected
  match c.resp with
  | b :: rest => (b, { c with resp := rest })
  | [] => (0xFF#8, if selected then c.take mosi else c)

end Card

end Vux9k.Sd

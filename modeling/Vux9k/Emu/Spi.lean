import Vux9k.Sd.Card

/-!
# The emulator's SPI master

`emu/crates/vux9k_emu/src/periph/sdspi.rs`, with the card behind it: the byte is exchanged when it
is written, and what the registers show until then is computed from the cycle of the write.
-/

set_option autoImplicit false

namespace Vux9k.Emu

/-- The last transfer: the write edge, the half period, the shift register before it and the MISO
byte. -/
structure Xfer : Type where
  edge : ℕ
  half : ℕ
  prev : Byte
  miso : Byte

/-- The rising edges of a transfer before the cycle. -/
def Xfer.edges (x : Xfer) (c : ℕ) : ℕ :=
  let elapsed := c - (x.edge + 1)
  if elapsed < x.half then 0 else min ((elapsed - x.half) / (2 * x.half) + 1) 8

/-- `SdSpi`. -/
structure SdSpi : Type where
  csN : Bool
  div : ℕ
  xfer : Option Xfer
  card : Option Sd.Card
  log : List (ℕ × Byte × Byte × Bool)
  logEnabled : Bool

namespace SdSpi

/-- `HALF_PERIOD`. -/
def halfPeriod : ℕ := 23

/-- `MIN_HALF_PERIOD`. -/
def minHalfPeriod : ℕ := 3

/-- `CLK_HZ`. -/
def clkHz : ℕ := 18000000

/-- `transfer`. -/
def transfer (d : ℕ) : ℕ := 16 * d

/-- `SdSpi::default`, with a card in the socket or none and with the log on or off. -/
def default (card : Option Sd.Card) (logEnabled : Bool) : SdSpi where
  csN := true
  div := halfPeriod
  xfer := none
  card := card
  log := []
  logEnabled := logEnabled

variable (s : SdSpi)

/-- `busy`. -/
def busy (c : ℕ) : Bool :=
  match s.xfer with
  | none => false
  | some x => x.edge < c && c ≤ x.edge + transfer x.half

/-- `shift_rx`. -/
def shiftRx (c : ℕ) : Byte :=
  match s.xfer with
  | none => 0xFF#8
  | some x =>
    let n := x.edges c
    ((x.prev.setWidth 32 <<< n ||| x.miso.setWidth 32 >>> (8 - n) : Word) &&& 0xFF#32).setWidth 8

/-- `read`. -/
def read (addr : Word) (c : ℕ) : Word :=
  match (addr &&& 0xF#32).toNat with
  | 0x0 => (s.shiftRx c).setWidth 32
  | 0x4 => (BitVec.ofBool s.csN).setWidth 32
  | 0x8 => (BitVec.ofBool (s.busy c)).setWidth 32
  | 0xC => BitVec.ofNat 32 s.div
  | _ => 0#32

/-- The card's answer to a byte, at the clock that is set: all ones if there is no card. -/
def answer (mosi : Byte) : Byte × Option Sd.Card :=
  match s.card with
  | none => (0xFF#8, none)
  | some card =>
    let (miso, card') := { card with sclkHz := clkHz / (2 * s.div) }.exchange mosi (!s.csN)
    (miso, some card')

/-- `write`, at the end of cycle `c`. -/
def write (addr v : Word) (c : ℕ) : SdSpi :=
  if s.busy c then s
  else
    match (addr &&& 0xF#32).toNat with
    | 0x0 =>
      let mosi := v.setWidth 8
      let (miso, card) := s.answer mosi
      { s with
        card := card
        log := if s.logEnabled then s.log ++ [(c, mosi, miso, !s.csN)] else s.log
        xfer := some ⟨c, s.div, s.shiftRx c, miso⟩ }
    | 0x4 =>
      let csN : Bool := v &&& 1#32 ≠ 0#32
      { s with
        card := if csN ≠ s.csN then s.card.map fun card ↦ card.setCs (!csN) else s.card
        csN := csN }
    | 0xC => { s with div := max (v &&& 0xFF#32).toNat minHalfPeriod }
    | _ => s

end SdSpi

end Vux9k.Emu

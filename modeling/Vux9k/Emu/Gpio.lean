import Vux9k.Emu.Soc

/-!
# The emulator's GPIO and its soft reset

`emu/crates/vux9k_emu/src/periph/gpio.rs`, but for what a read gives (the LEDs and the button), and
`soft_reset` of `soc.rs`.
-/

set_option autoImplicit false

namespace Vux9k.Emu

/-- `SOFT_RESET_PULSE`. -/
def softResetPulse : ℕ := 15

/-- `SoftReset`. -/
structure SoftReset : Type where
  release : ℕ
  mode : Option Bool
  deriving DecidableEq

/-- `Gpio`. -/
structure Gpio : Type where
  led : Byte
  modeValid : Bool
  modeRv32 : Bool
  pulseFrom : Option ℕ
  pending : Option SoftReset

namespace Gpio

/-- `Gpio::default`. -/
def default : Gpio := ⟨0#8, false, false, none, none⟩

variable (g : Gpio)

/-- `write`, at the end of cycle `c`. -/
def write (addr v : Word) (c : ℕ) : Gpio :=
  match (addr &&& 0xF#32).toNat with
  | 0x0 => { g with led := (v &&& 0x3F#32).setWidth 8 }
  | 0x8 => { g with modeValid := v &&& 0x100#32 ≠ 0#32, modeRv32 := v &&& 1#32 ≠ 0#32 }
  | 0xC =>
    if v = 0x5A5AA55A#32 ∨ v = 0x0000A55A#32 then
      { g with
        pulseFrom := some (c + 1)
        pending := some
          { release := c + 1 + softResetPulse
            mode := if g.modeValid then some g.modeRv32 else none }
        modeValid := false }
    else g
  | _ => g

/-- `take_soft_reset`. -/
def takeSoftReset : Option SoftReset × Gpio := (g.pending, { g with pending := none })

end Gpio

/-- `soft_reset`; `uart` is what `Uart::soft_reset` does to what is behind the bus. -/
def Soc.softReset {σ : Type} (uart : ℕ → σ → σ) (s : Soc σ) (sr : SoftReset) : Soc σ :=
  { s with
    mem := uart (sr.release - 1) s.mem
    pc := 0#32
    csr := .default
    mcycleWritten := none
    reservation := none
    cycle := sr.release
    riscvMode := sr.mode.getD true }

end Vux9k.Emu

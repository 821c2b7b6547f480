import Vux9k.Emu.Caches

/-!
# The emulator's data bus

`rv_read_word`, `rv_write`, `mmio_read`, `mmio_write`, `hack_read` and `hack_write` of
`emu/crates/vux9k_emu/src/soc.rs`, as the `Real` profile has them (`isa_test` and `v03_mmio` off):
which peripheral an address is at, and the cycle that each access of it is made with.  A peripheral
itself is a parameter; `Peripherals.logged` notes every call of one.
-/

set_option autoImplicit false

namespace Vux9k.Emu

/-- The peripherals that an instruction can access. -/
inductive Peripheral : Type
  | uart
  | clint
  | sd
  | gpio
  deriving DecidableEq

/-- The methods of `Periph`'s fields. -/
structure Peripherals (π : Type) : Type where
  /-- `read`, with the cycle whose state it returns -/
  read : Peripheral → Word → ℕ → π → Word × π
  /-- `write`, with the cycle at whose end it takes effect -/
  write : Peripheral → Word → Word → ℕ → π → π
  /-- `mip_at` -/
  mipAt : ℕ → π → Word × π
  /-- `Timer::mtime` -/
  mtime : ℕ → π → BitVec 64

/-- What is behind the bus: the memories with their caches, and the peripherals. -/
structure Outside (π : Type) : Type where
  window : Window
  periph : π

/-- `hack_mmio`. -/
def hackMmio (a16 : Word) : Word :=
  if a16 &&& 0xC#32 = 0#32 then 0x40000000#32 ||| (a16 &&& 3#32) <<< 2
  else 0x40003000#32 ||| (a16 &&& 0xF#32)

/-- The test for a Hack MMIO address. -/
def hackInMmio (a16 : Word) : Bool := 0x6000 ≤ a16.toNat && a16.toNat < 0x6010

namespace Peripherals

variable {π : Type} (p : Peripherals π)

/-- A call of `read`. -/
def readAt (d : Peripheral) (addr : Word) (c : ℕ) (s : Outside π) : Word × Outside π :=
  let (word, periph) := p.read d addr c s.periph
  (word, { s with periph })

/-- A call of `write`. -/
def writeAt (d : Peripheral) (addr data : Word) (c : ℕ) (s : Outside π) : Outside π :=
  { s with periph := p.write d addr data c s.periph }

/-- `mmio_read`. -/
def mmioRead (addr : Word) (t : ℕ) (s : Outside π) : Word × Outside π :=
  match (addr >>> 12 &&& 0xF#32).toNat with
  | 0x0 => p.readAt .uart addr (t + 2) s
  | 0x2 => p.readAt .sd addr (t + 1) s
  | 0x3 => p.readAt .gpio addr (t + 1) s
  | _ => (0#32, s)

/-- `mmio_write`. -/
def mmioWrite (addr data : Word) (edge : ℕ) (s : Outside π) : Outside π :=
  match (addr >>> 12 &&& 0xF#32).toNat with
  | 0x0 => p.writeAt .uart addr data edge s
  | 0x2 => p.writeAt .sd addr data edge s
  | 0x3 => p.writeAt .gpio addr data edge s
  | _ => s

/-- `rv_load_wait`. -/
def rvLoadWait (addr : Word) (s : Outside π) : ℕ × Outside π :=
  let (wait, window) := s.window.rvLoadWait addr
  (wait, { s with window })

/-- `rv_read_word`. -/
def rvReadWord (addr : Word) (t : ℕ) (s : Outside π) : Word × Outside π :=
  match (addr >>> 28).toNat with
  | 0 => (s.window.mem.rom (addr >>> 2 &&& s.window.mem.romMask).toNat, s)
  | 2 => p.readAt .clint addr (t + 1) s
  | 4 => p.mmioRead addr t s
  | _ => (if s.window.mem.inXmem addr then s.window.mem.xmem (xmemIndex addr) else 0#32, s)

/-- `rv_write`. -/
def rvWrite (addr data : Word) (be : BitVec 4) (t : ℕ) (s : Outside π) : ℕ × Outside π :=
  match (addr >>> 28).toNat with
  | 2 => (0, p.writeAt .clint addr data (t + 2) s)
  | 4 => (0, p.mmioWrite addr data (t + 2) s)
  | _ =>
    let (wait, window) := s.window.rvWrite addr data be
    (wait, { s with window })

/-- `hack_read`. -/
def hackRead (a : Word) (t : ℕ) (s : Outside π) : (Word × ℕ) × Outside π :=
  let a16 := a &&& 0xFFFF#32
  if hackInMmio a16 then
    let (word, s) := p.mmioRead (hackMmio a16) t s
    ((word, 0), s)
  else
    let (answer, window) := s.window.hackRead a
    (answer, { s with window })

/-- `hack_write`. -/
def hackWrite (a v : Word) (edge : ℕ) (s : Outside π) : ℕ × Outside π :=
  let a16 := a &&& 0xFFFF#32
  if hackInMmio a16 then (0, p.mmioWrite (hackMmio a16) v edge s)
  else
    let (wait, window) := s.window.hackWrite a v
    (wait, { s with window })

/-- The bus of `Soc`. -/
def bus : Bus (Outside π) where
  fetch := fun riscvMode pc s ↦
    let (answer, window) := s.window.fetch riscvMode pc
    (answer, { s with window })
  loadWait := rvLoadWait
  readWord := p.rvReadWord
  write := p.rvWrite
  hackRead := p.hackRead
  hackWrite := p.hackWrite
  mipAt := fun c s ↦
    let (mip, periph) := p.mipAt c s.periph
    (mip, { s with periph })
  mtime := fun c s ↦ p.mtime c s.periph

end Peripherals

/-! ## The log -/

/-- An access of a peripheral: a read of its state in the cycle, or a write at the cycle's end. -/
inductive MmioAccess : Type
  | read (device : Peripheral) (cycle : ℕ)
  | write (device : Peripheral) (cycle : ℕ)
  deriving DecidableEq

/-- The peripherals, with the accesses made so far. -/
structure Logged (π : Type) : Type where
  periph : π
  log : List MmioAccess

/-- The same peripherals, with a note of every read and write. -/
def Peripherals.logged {π : Type} (p : Peripherals π) : Peripherals (Logged π) where
  read := fun d addr c s ↦
    let (word, periph) := p.read d addr c s.periph
    (word, ⟨periph, s.log ++ [.read d c]⟩)
  write := fun d addr data c s ↦ ⟨p.write d addr data c s.periph, s.log ++ [.write d c]⟩
  mipAt := fun c s ↦
    let (mip, periph) := p.mipAt c s.periph
    (mip, { s with periph })
  mtime := fun c s ↦ p.mtime c s.periph

/-! ## What an access is to -/

/-- The peripheral of an MMIO page. -/
def pageOf (addr : Word) : Option Peripheral :=
  match (addr >>> 12 &&& 0xF#32).toNat with
  | 0x0 => some .uart
  | 0x2 => some .sd
  | 0x3 => some .gpio
  | _ => none

/-- The peripheral of an RV32 address. -/
def rvPeripheral (addr : Word) : Option Peripheral :=
  match (addr >>> 28).toNat with
  | 2 => some .clint
  | 4 => pageOf addr
  | _ => none

/-- The peripheral of a Hack address. -/
def hackPeripheral (a : Word) : Option Peripheral :=
  let a16 := a &&& 0xFFFF#32
  if hackInMmio a16 then pageOf (hackMmio a16) else none

end Vux9k.Emu

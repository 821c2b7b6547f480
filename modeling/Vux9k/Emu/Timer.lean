import Vux9k.Firmware.Bytes

/-!
# The emulator's timer and CLINT

`emu/crates/vux9k_emu/src/periph/timer.rs` and `clint.rs`: nothing runs, the values are computed for
the cycle they are asked for.
-/

set_option autoImplicit false

namespace Vux9k.Emu

/-- `Stepped`: a value that changed at most once recently. -/
structure Stepped (α : Type) : Type where
  old : α
  new : α
  start : ℕ

namespace Stepped

variable {α : Type}

/-- `Stepped::new`. -/
def const (v : α) : Stepped α := ⟨v, v, 0⟩

/-- `at`. -/
def atCycle (s : Stepped α) (cycle : ℕ) : α := if s.start ≤ cycle then s.new else s.old

/-- `set`. -/
def set (s : Stepped α) (cycle : ℕ) (v : α) : Stepped α := ⟨s.atCycle (cycle - 1), v, cycle⟩

end Stepped

/-- `Reg`. -/
inductive TimerReg : Type
  | mtimeLo
  | mtimeHi
  | mtimecmpLo
  | mtimecmpHi
  deriving DecidableEq

/-- `Timer`. -/
structure Timer : Type where
  offset : Stepped (BitVec 64)
  mtimecmp : Stepped (BitVec 64)

namespace Timer

/-- `Timer::default`. -/
def default : Timer := ⟨.const 0#64, .const 0xFFFFFFFFFFFFFFFF#64⟩

variable (t : Timer)

/-- `mtime`. -/
def mtime (c : ℕ) : BitVec 64 := BitVec.ofNat 64 c + t.offset.atCycle c

/-- `irq`. -/
def irq (c : ℕ) : Bool := 0 < c && t.mtimecmp.atCycle (c - 1) ≤ t.mtime (c - 1)

/-- `read`. -/
def read (reg : TimerReg) (c : ℕ) : Word :=
  match reg with
  | .mtimeLo => (t.mtime c).setWidth 32
  | .mtimeHi => (t.mtime c >>> 32).setWidth 32
  | .mtimecmpLo => (t.mtimecmp.atCycle c).setWidth 32
  | .mtimecmpHi => (t.mtimecmp.atCycle c >>> 32).setWidth 32

/-- `set_mtime`. -/
def setMtime (start : ℕ) (value : BitVec 64) : Timer :=
  { t with offset := t.offset.set start (value - BitVec.ofNat 64 start) }

/-- `write`, at the end of cycle `c`. -/
def write (reg : TimerReg) (v : Word) (c : ℕ) : Timer :=
  let lo := 0xFFFFFFFF#64
  let now := t.mtime c
  let cmp := t.mtimecmp.atCycle c
  match reg with
  | .mtimeLo => t.setMtime (c + 1) (now &&& ~~~lo ||| v.setWidth 64)
  | .mtimeHi => t.setMtime (c + 1) (v.setWidth 64 <<< 32 ||| now + 1#64 &&& lo)
  | .mtimecmpLo => { t with mtimecmp := t.mtimecmp.set (c + 1) (cmp &&& ~~~lo ||| v.setWidth 64) }
  | .mtimecmpHi =>
    { t with mtimecmp := t.mtimecmp.set (c + 1) (cmp &&& lo ||| v.setWidth 64 <<< 32) }

end Timer

/-- `timer_reg` of `clint.rs`. -/
def clintReg (off : Word) : Option TimerReg :=
  match off.toNat with
  | 0xBFF8 => some .mtimeLo
  | 0xBFFC => some .mtimeHi
  | 0x4000 => some .mtimecmpLo
  | 0x4004 => some .mtimecmpHi
  | _ => none

/-- `Clint` and the `Timer` beside it. -/
structure Clint : Type where
  msip : Stepped Bool
  timer : Timer

namespace Clint

/-- `Clint::default` and `Timer::default`. -/
def default : Clint := ⟨.const false, .default⟩

variable (s : Clint)

/-- `read`, in cycle `c`. -/
def read (addr : Word) (c : ℕ) : Word :=
  let off := addr &&& 0xFFFC#32
  if off = 0x0000#32 then if s.msip.atCycle c then 1#32 else 0#32
  else ((clintReg off).map (s.timer.read · c)).getD 0#32

/-- `write`, at the end of cycle `c`. -/
def write (addr v : Word) (c : ℕ) : Clint :=
  let off := addr &&& 0xFFFC#32
  if off = 0x0000#32 then { s with msip := s.msip.set (c + 1) (v &&& 1#32 ≠ 0#32) }
  else
    match clintReg off with
    | some reg => { s with timer := s.timer.write reg v c }
    | none => s

end Clint

end Vux9k.Emu

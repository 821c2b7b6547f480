import Vux9k.Firmware.Bytes

/-!
# The machine timer, cycle by cycle

`soc/timer_core.veryl`: the CLINT of RV32 region 2.
-/

set_option autoImplicit false

namespace Vux9k.Rtl

/-- `timer_core`. -/
structure TimerCore : Type where
  mtime : BitVec 64
  mtimecmp : BitVec 64
  msip : Bool
  dataOut : Word
  timerIrq : Bool

/-- What is put to it in a cycle. -/
structure TimerIn : Type where
  addr : BitVec 16
  dataIn : Word
  we : Bool

/-- The register that the address selects: `sel_msip`, `sel_timer` with `sel_cmp` and `sel_hi`. -/
inductive TimerReg : Type
  | msip
  | mtimeLo
  | mtimeHi
  | mtimecmpLo
  | mtimecmpHi
  deriving DecidableEq

/-- The decoder of `timer_core`, with `soc_pkg`'s offsets. -/
def timerReg (addr : BitVec 16) : Option TimerReg :=
  let selHi := addr.getLsbD 2
  let selMsip := addr.extractLsb' 2 14 = (0x0000#16).extractLsb' 2 14
  let selCmp := addr.extractLsb' 3 13 = (0x4000#16).extractLsb' 3 13
  let selTimer := selCmp ∨ addr.extractLsb' 3 13 = (0xBFF8#16).extractLsb' 3 13
  if selMsip then some .msip
  else if selTimer then
    if ¬selCmp then if selHi then some .mtimeHi else some .mtimeLo
    else if selHi then some .mtimecmpHi
    else some .mtimecmpLo
  else none

namespace TimerCore

/-- After a reset. -/
def reset : TimerCore where
  mtime := 0#64
  mtimecmp := 0xFFFFFFFFFFFFFFFF#64
  msip := false
  dataOut := 0#32
  timerIrq := false

/-- What the next `data_out` is. -/
def read (t : TimerCore) : Option TimerReg → Word
  | some .msip => (BitVec.ofBool t.msip).setWidth 32
  | some .mtimeLo => t.mtime.extractLsb' 0 32
  | some .mtimeHi => t.mtime.extractLsb' 32 32
  | some .mtimecmpLo => t.mtimecmp.extractLsb' 0 32
  | some .mtimecmpHi => t.mtimecmp.extractLsb' 32 32
  | none => 0#32

/-- A clock edge. -/
def tick (t : TimerCore) (i : TimerIn) : TimerCore :=
  let reg := timerReg i.addr
  let next := t.mtime + 1#64
  { mtime :=
      if i.we ∧ reg = some .mtimeLo then t.mtime.extractLsb' 32 32 ++ i.dataIn
      else if i.we ∧ reg = some .mtimeHi then i.dataIn ++ next.extractLsb' 0 32
      else next
    mtimecmp :=
      if i.we ∧ reg = some .mtimecmpLo then t.mtimecmp.extractLsb' 32 32 ++ i.dataIn
      else if i.we ∧ reg = some .mtimecmpHi then i.dataIn ++ t.mtimecmp.extractLsb' 0 32
      else t.mtimecmp
    msip := if i.we ∧ reg = some .msip then i.dataIn.getLsbD 0 else t.msip
    dataOut := t.read reg
    timerIrq := t.mtimecmp ≤ t.mtime }

/-- The state after `n` cycles. -/
def run (inp : ℕ → TimerIn) (t : TimerCore) : ℕ → TimerCore
  | 0 => t
  | n + 1 => (run inp t n).tick (inp n)

end TimerCore

end Vux9k.Rtl

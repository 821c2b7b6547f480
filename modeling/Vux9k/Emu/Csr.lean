import Mathlib.Data.BitVec
import Vux9k.Firmware.Bytes

/-!
# The emulator's CSRs

`emu/crates/vux9k_emu/src/csr.rs`.
-/

set_option autoImplicit false

namespace Vux9k.Emu

/-- `MSTATUS_MIE`. -/
def mstatusMie : Word := 1#32 <<< 3

/-- `MSTATUS_MPIE`. -/
def mstatusMpie : Word := 1#32 <<< 7

/-- `MSTATUS_MPRV`. -/
def mstatusMprv : Word := 1#32 <<< 17

/-- `MSTATUS_TW`. -/
def mstatusTw : Word := 1#32 <<< 21

/-- `MSTATUS_MPP_M`. -/
def mstatusMppM : Word := 0x1800#32

/-- `MIP_MSIP`. -/
def mipMsip : Word := 1#32 <<< 3

/-- `MIP_MTIP`. -/
def mipMtip : Word := 1#32 <<< 7

/-- `MIP_MEIP`. -/
def mipMeip : Word := 1#32 <<< 11

/-- `MISA_M`. -/
def misaM : Word := 1#32 <<< 12

/-- `csr::exists`. -/
def csrExists (addr : BitVec 16) : Bool :=
  let low := (addr &&& 0x1F#16).toNat
  let block := (addr >>> 5).toNat
  (3 ≤ low && low ≤ 0x1F && (block = 0x19 || block = 0x58 || block = 0x5C)) ||
    match addr.toNat with
    | 0x306 | 0x30A | 0x31A => true
    | 0x300 | 0x301 | 0x304 | 0x305 | 0x340 | 0x341 | 0x342 | 0x343 | 0x344 => true
    | 0xB00 | 0xB02 | 0xB80 | 0xB82 | 0xC00 | 0xC01 | 0xC02 | 0xC80 | 0xC81 | 0xC82 => true
    | 0x310 | 0xF11 | 0xF12 | 0xF13 | 0xF14 | 0xF15 | 0x7A0 | 0x7A1 | 0x7A2 | 0x7A3 => true
    | 0x320 => true
    | _ => false

/-- `csr::read_only`. -/
def csrReadOnly (addr : BitVec 16) : Bool := addr >>> 10 &&& 3#16 = 3#16

/-- `Csrs`. -/
structure Csrs : Type where
  mstatus : Word
  mie : Word
  mtvec : Word
  mscratch : Word
  mepc : Word
  mcause : Word
  mtval : Word
  mcycle : BitVec 64
  minstret : BitVec 64
  user : Bool
  mppU : Bool

namespace Csrs

/-- `Csrs::default`. -/
def default : Csrs where
  mstatus := 0#32
  mie := 0#32
  mtvec := 0#32
  mscratch := 0#32
  mepc := 0#32
  mcause := 0#32
  mtval := 0#32
  mcycle := 0#64
  minstret := 0#64
  user := false
  mppU := false

/-- `read`. -/
def read (c : Csrs) (addr : BitVec 16) (mip : Word) (mtime : BitVec 64) : Word :=
  match addr.toNat with
  | 0x300 => c.mstatus ||| if c.mppU then 0#32 else mstatusMppM
  | 0x301 => 0x40101101#32
  | 0x304 => c.mie
  | 0x305 => c.mtvec
  | 0x340 => c.mscratch
  | 0x341 => c.mepc
  | 0x342 => c.mcause
  | 0x343 => c.mtval
  | 0x344 => mip
  | 0xB00 | 0xC00 => c.mcycle.setWidth 32
  | 0xB80 | 0xC80 => (c.mcycle >>> 32).setWidth 32
  | 0xB02 | 0xC02 => c.minstret.setWidth 32
  | 0xB82 | 0xC82 => (c.minstret >>> 32).setWidth 32
  | 0xC01 => mtime.setWidth 32
  | 0xC81 => (mtime >>> 32).setWidth 32
  | _ => 0#32

/-- `write`. -/
def write (c : Csrs) (addr : BitVec 16) (v : Word) : Csrs :=
  match addr.toNat with
  | 0x300 => { c with mstatus := v &&& (mstatusMie ||| mstatusMpie) }
  | 0x304 => { c with mie := v &&& (mipMsip ||| mipMtip ||| mipMeip) }
  | 0x305 => { c with mtvec := v &&& ~~~3#32 }
  | 0x340 => { c with mscratch := v }
  | 0x341 => { c with mepc := v &&& ~~~3#32 }
  | 0x342 => { c with mcause := v }
  | 0x343 => { c with mtval := v }
  | 0xB00 => { c with mcycle := c.mcycle &&& ~~~0xFFFFFFFF#64 ||| v.setWidth 64 }
  | 0xB80 => { c with mcycle := c.mcycle &&& 0xFFFFFFFF#64 ||| v.setWidth 64 <<< 32 }
  | 0xB02 => { c with minstret := c.minstret &&& ~~~0xFFFFFFFF#64 ||| v.setWidth 64 }
  | 0xB82 => { c with minstret := c.minstret &&& 0xFFFFFFFF#64 ||| v.setWidth 64 <<< 32 }
  | _ => c

/-- `write_mpp`. -/
def writeMpp (c : Csrs) (v : Word) : Csrs :=
  { c with
    mppU := v >>> 11 &&& 3#32 ≠ 3#32
    mstatus := c.mstatus ||| v &&& (mstatusMprv ||| mstatusTw) }

/-- `enter_trap`. -/
def enterTrap (c : Csrs) (pc cause tval : Word) : Csrs :=
  { c with
    mepc := pc
    mcause := cause
    mtval := tval
    mstatus := c.mstatus &&& (mstatusMprv ||| mstatusTw) |||
      if c.mstatus &&& mstatusMie ≠ 0#32 then mstatusMpie else 0#32
    mppU := c.user
    user := false }

/-- `mret`. -/
def mret (c : Csrs) : Csrs :=
  let mstatus := c.mstatus &&& (mstatusMprv ||| mstatusTw) |||
    (mstatusMpie ||| if c.mstatus &&& mstatusMpie ≠ 0#32 then mstatusMie else 0#32)
  { c with
    mstatus := if c.mppU then mstatus &&& ~~~mstatusMprv else mstatus
    user := c.mppU
    mppU := true }

/-- `interrupts_on`. -/
def interruptsOn (c : Csrs) : Bool := c.user || c.mstatus &&& mstatusMie ≠ 0#32

/-- `pending_interrupt`. -/
def pendingInterrupt (c : Csrs) (mip : Word) : Option Word :=
  if !c.interruptsOn then none
  else
    let pending := c.mie &&& mip
    if pending &&& mipMeip ≠ 0#32 then some 0x8000000B#32
    else if pending &&& mipMsip ≠ 0#32 then some 0x80000003#32
    else if pending &&& mipMtip ≠ 0#32 then some 0x80000007#32
    else none

end Csrs

end Vux9k.Emu

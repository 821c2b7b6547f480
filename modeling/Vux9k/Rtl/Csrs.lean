import Vux9k.Rtl.Units

/-!
# The machine-mode CSRs

`soc/cpu/rv32i_csrs.veryl`: the registers, what a CSR instruction reads in its EXECUTE cycle, which
interrupt is pending, and what a clock edge does.
-/

set_option autoImplicit false

namespace Vux9k.Rtl

/-- The assignment `x[n] = b`. -/
def setBit {w : ℕ} (x : BitVec w) (n : ℕ) (b : Bool) : BitVec w :=
  x &&& ~~~(1#w <<< n) ||| (BitVec.ofBool b).setWidth w <<< n

/-- The assignment `x[31:0] = v`. -/
def setLow (x : BitVec 64) (v : Word) : BitVec 64 := x.extractLsb' 32 32 ++ v

/-- The assignment `x[63:32] = v`. -/
def setHigh (x : BitVec 64) (v : Word) : BitVec 64 := v ++ x.extractLsb' 0 32

/-- The registers of `rv32i_csrs`. -/
structure Csrs : Type where
  mstatus : Word
  mppU : Bool
  privU : Bool
  mie : Word
  mtvec : Word
  mscratch : Word
  mepc : Word
  mcause : Word
  mtval : Word
  mcycle : BitVec 64
  minstret : BitVec 64

/-- The interrupt lines. -/
structure Lines : Type where
  timer : Bool
  ext : Bool
  sw : Bool
  deriving DecidableEq

/-- `mip`. -/
def Lines.mip (l : Lines) : Word := setBit (setBit (setBit 0#32 7 l.timer) 11 l.ext) 3 l.sw

namespace Csrs

/-- What a reset leaves. -/
def reset : Csrs where
  mstatus := 0#32
  mppU := false
  privU := false
  mie := 0#32
  mtvec := 0#32
  mscratch := 0#32
  mepc := 0#32
  mcause := 0#32
  mtval := 0#32
  mcycle := 0#64
  minstret := 0#64

/-- `tw`. -/
def tw (c : Csrs) : Bool := c.mstatus.getLsbD 21

/-- `pending`. -/
def pending (c : Csrs) (l : Lines) : Word := c.mie &&& l.mip

/-- `irq_pending`. -/
def irqPending (c : Csrs) (l : Lines) : Bool :=
  (c.privU || c.mstatus.getLsbD 3) &&
    ((c.pending l).getLsbD 7 || (c.pending l).getLsbD 11 || (c.pending l).getLsbD 3)

/-- `irq_cause`. -/
def irqCause (c : Csrs) (l : Lines) : Word :=
  if (c.pending l).getLsbD 11 then 0x8000000B#32
  else if (c.pending l).getLsbD 3 then 0x80000003#32
  else 0x80000007#32

/-- `read_val`. -/
def read (c : Csrs) (addr : BitVec 12) (l : Lines) (mtime : BitVec 64) : Word :=
  match addr.toNat with
  | 0x300 => c.mstatus ||| if c.mppU then 0#32 else 0x00001800#32
  | 0x301 => 0x40101101#32
  | 0x304 => c.mie
  | 0x305 => c.mtvec
  | 0x340 => c.mscratch
  | 0x341 => c.mepc
  | 0x342 => c.mcause
  | 0x343 => c.mtval
  | 0x344 => l.mip
  | 0xB00 | 0xC00 => c.mcycle.extractLsb' 0 32
  | 0xB80 | 0xC80 => c.mcycle.extractLsb' 32 32
  | 0xB02 | 0xC02 => c.minstret.extractLsb' 0 32
  | 0xB82 | 0xC82 => c.minstret.extractLsb' 32 32
  | 0xC01 => mtime.extractLsb' 0 32
  | 0xC81 => mtime.extractLsb' 32 32
  | _ => 0#32

/-- `write_val`. -/
def writeVal (op : BitVec 3) (readVal wdata : Word) : Word :=
  match op.toNat with
  | 0b001 | 0b101 => wdata
  | 0b010 | 0b110 => readVal ||| wdata
  | 0b011 | 0b111 => readVal &&& ~~~wdata
  | _ => readVal

/-- Trap entry. -/
def trapEntry (c : Csrs) (pc cause val : Word) : Csrs :=
  { c with
    mepc := pc
    mcause := cause
    mtval := val
    mstatus := setBit (setBit c.mstatus 7 (c.mstatus.getLsbD 3)) 3 false
    mppU := c.privU
    privU := false }

/-- MRET. -/
def trapReturn (c : Csrs) : Csrs :=
  let mstatus := setBit (setBit c.mstatus 3 (c.mstatus.getLsbD 7)) 7 true
  { c with
    mstatus := if c.mppU then setBit mstatus 17 false else mstatus
    privU := c.mppU
    mppU := true }

/-- The write of a CSR instruction. -/
def write (c : Csrs) (addr : BitVec 12) (v : Word) : Csrs :=
  match addr.toNat with
  | 0x300 => { c with mstatus := v &&& 0x00220088#32, mppU := v.extractLsb' 11 2 ≠ 0b11#2 }
  | 0x304 => { c with mie := v &&& 0x00000888#32 }
  | 0x305 => { c with mtvec := v &&& 0xFFFFFFFC#32 }
  | 0x340 => { c with mscratch := v }
  | 0x341 => { c with mepc := v &&& 0xFFFFFFFC#32 }
  | 0x342 => { c with mcause := v }
  | 0x343 => { c with mtval := v }
  | 0xB00 => { c with mcycle := setLow c.mcycle v }
  | 0xB80 => { c with mcycle := setHigh c.mcycle v }
  | 0xB02 => { c with minstret := setLow c.minstret v }
  | 0xB82 => { c with minstret := setHigh c.minstret v }
  | _ => c

/-- The counters' own step; `wr` is the address of the CSR that is written, if one is. -/
def count (c : Csrs) (wr : Option (BitVec 12)) (retire : Bool) : Csrs :=
  { c with
    mcycle := if wr = some 0xB00#12 ∨ wr = some 0xB80#12 then c.mcycle else c.mcycle + 1#64
    minstret := if wr = some 0xB02#12 ∨ wr = some 0xB82#12 then c.minstret
      else c.minstret + (BitVec.ofBool retire).setWidth 64 }

/-- A clock edge: the counters, and a trap, a return or a write (`wr`: address and value). -/
def tick (c : Csrs) (trap : Trap) (pc : Word) (wr : Option (BitVec 12 × Word)) (retire : Bool) :
    Csrs :=
  let c' := c.count (wr.map Prod.fst) retire
  match trap with
  | .entry cause val => c'.trapEntry pc cause val
  | .return => c'.trapReturn
  | .none =>
    match wr with
    | none => c'
    | some (addr, v) => c'.write addr v

end Csrs

end Vux9k.Rtl

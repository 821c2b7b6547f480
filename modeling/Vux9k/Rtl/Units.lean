import Mathlib.Data.BitVec
import Vux9k.Firmware.Bytes

/-!
# The CPU's combinational units

`rv32i_pkg`, `rv32i_decode`, `rv32i_alu`, `rv32i_lsu`, `next_pc_unit`, `rv32i_trap_unit` and
`hack_translator` of `soc/cpu`: functions of the signals they are wired to, without a clock.
A one-bit signal is a `Bool`; the slice `x[hi:lo]` is `x.extractLsb' lo (hi - lo + 1)`.
-/

set_option autoImplicit false

namespace Vux9k.Rtl

/-! ## `rv32i_pkg` -/

/-- `Opcode`, and what a word that has none of them is. -/
inductive Opcode : Type
  | rType
  | iType
  | load
  | store
  | branch
  | jal
  | jalr
  | lui
  | auipc
  | system
  | fence
  | amo
  | other
  deriving DecidableEq

/-- The cast of seven bits to `Opcode`. -/
def Opcode.ofBits (b : BitVec 7) : Opcode :=
  match b.toNat with
  | 0b0110011 => .rType
  | 0b0010011 => .iType
  | 0b0000011 => .load
  | 0b0100011 => .store
  | 0b1100011 => .branch
  | 0b1101111 => .jal
  | 0b1100111 => .jalr
  | 0b0110111 => .lui
  | 0b0010111 => .auipc
  | 0b1110011 => .system
  | 0b0001111 => .fence
  | 0b0101111 => .amo
  | _ => .other

/-- `AluOp`. -/
inductive AluOp : Type
  | add
  | sub
  | sll
  | slt
  | sltu
  | xor
  | srl
  | sra
  | or
  | and
  | copyB
  | copyA
  deriving DecidableEq

/-- A one-bit signal as the low bit of a word. -/
def bit (b : Bool) : Word := (BitVec.ofBool b).setWidth 32

/-! ## `rv32i_decode` -/

section

variable (i : Word)

/-- `opcode`. -/
def opcode : Opcode := .ofBits (i.extractLsb' 0 7)

/-- `rd`. -/
def rd : BitVec 5 := i.extractLsb' 7 5

/-- `funct3`. -/
def funct3 : BitVec 3 := i.extractLsb' 12 3

/-- `rs1`. -/
def rs1 : BitVec 5 := i.extractLsb' 15 5

/-- `rs2`. -/
def rs2 : BitVec 5 := i.extractLsb' 20 5

/-- `funct7`. -/
def funct7 : BitVec 7 := i.extractLsb' 25 7

/-- `funct5` of an A-extension instruction. -/
def funct5 : BitVec 5 := i.extractLsb' 27 5

/-- `csr_addr`. -/
def csrAddr : BitVec 12 := i.extractLsb' 20 12

/-- `uimm`. -/
def uimm : Word := (i.extractLsb' 15 5).setWidth 32

/-- `imm`. -/
def imm : Word :=
  match opcode i with
  | .iType | .load | .jalr => (i.extractLsb' 20 12).signExtend 32
  | .store => (i.extractLsb' 25 7 ++ i.extractLsb' 7 5).signExtend 32
  | .branch => (i.extractLsb' 31 1 ++ i.extractLsb' 7 1 ++ i.extractLsb' 25 6 ++
      i.extractLsb' 8 4 ++ 0#1).signExtend 32
  | .lui | .auipc => i.extractLsb' 12 20 ++ 0#12
  | .jal => (i.extractLsb' 31 1 ++ i.extractLsb' 12 8 ++ i.extractLsb' 20 1 ++
      i.extractLsb' 21 10 ++ 0#1).signExtend 32
  | .system => (i.extractLsb' 15 5).setWidth 32
  | _ => 0#32

end

/-! ## `rv32i_alu` -/

/-- `rv32i_alu`. -/
def alu (a b : Word) (op : AluOp) : Word :=
  let shiftAmt := (b.extractLsb' 0 5).toNat
  let isSub := op = .sub || op = .slt || op = .sltu
  let bInv := if isSub then ~~~b else b
  let sum33 : BitVec 33 := a.setWidth 33 + bInv.setWidth 33 + if isSub then 1#33 else 0#33
  let sltRes := if a.getLsbD 31 ≠ b.getLsbD 31 then a.getLsbD 31 else sum33.getLsbD 31
  let sltuRes := !sum33.getLsbD 32
  let sraMask := ~~~(0xFFFFFFFF#32 >>> shiftAmt)
  let sraRes := if a.getLsbD 31 then a >>> shiftAmt ||| sraMask else a >>> shiftAmt
  match op with
  | .add => sum33.extractLsb' 0 32
  | .sub => sum33.extractLsb' 0 32
  | .slt => bit sltRes
  | .sltu => bit sltuRes
  | .sll => a <<< shiftAmt
  | .xor => a ^^^ b
  | .srl => a >>> shiftAmt
  | .sra => sraRes
  | .or => a ||| b
  | .and => a &&& b
  | .copyB => b
  | .copyA => a

/-- `rv_alu_op` of `unified_cpu`: the operation of OP and OP-IMM. -/
def rvAluOp (op : Opcode) (f3 : BitVec 3) (f7 : BitVec 7) : AluOp :=
  match f3.toNat with
  | 0 => if op = .rType && f7.getLsbD 5 then .sub else .add
  | 1 => .sll
  | 2 => .slt
  | 3 => .sltu
  | 4 => .xor
  | 5 => if f7.getLsbD 5 then .sra else .srl
  | 6 => .or
  | 7 => .and
  | _ => .add

/-! ## `rv32i_lsu` -/

/-- `store_data`. -/
def storeData (f3 : BitVec 3) (src : Word) : Word :=
  match f3.toNat with
  | 0 => src.extractLsb' 0 8 ++ src.extractLsb' 0 8 ++ src.extractLsb' 0 8 ++ src.extractLsb' 0 8
  | 1 => src.extractLsb' 0 16 ++ src.extractLsb' 0 16
  | _ => src

/-- `store_we`. -/
def storeWe (f3 : BitVec 3) (addrLow : BitVec 2) : BitVec 4 :=
  match f3.toNat with
  | 0 =>
    match addrLow.toNat with
    | 0 => 0b0001#4
    | 1 => 0b0010#4
    | 2 => 0b0100#4
    | _ => 0b1000#4
  | 1 => if addrLow.getLsbD 1 = false then 0b0011#4 else 0b1100#4
  | _ => 0b1111#4

/-- `load_val`. -/
def loadVal (f3 : BitVec 3) (sel : BitVec 2) (w : Word) : Word :=
  let byte := match sel.toNat with
    | 0 => w.extractLsb' 0 8
    | 1 => w.extractLsb' 8 8
    | 2 => w.extractLsb' 16 8
    | _ => w.extractLsb' 24 8
  let half := if sel.getLsbD 1 = false then w.extractLsb' 0 16 else w.extractLsb' 16 16
  match f3.toNat with
  | 0 => byte.signExtend 32
  | 4 => byte.setWidth 32
  | 1 => half.signExtend 32
  | 5 => half.setWidth 32
  | _ => w

/-! ## `rv32a_unit`, without its reservation -/

/-- `is_lr`. -/
def isLr (f5 : BitVec 5) : Bool := f5 = 0b00010#5

/-- `is_sc`. -/
def isSc (f5 : BitVec 5) : Bool := f5 = 0b00011#5

/-- `alu_op`. -/
def amoAluOp (f5 : BitVec 5) : AluOp :=
  match (f5.extractLsb' 2 3).toNat with
  | 0b001 => .xor
  | 0b010 => .or
  | 0b011 => .and
  | 0b100 | 0b101 => .slt
  | 0b110 | 0b111 => .sltu
  | _ => if f5.getLsbD 0 then .copyB else .add

/-- `new_value`. -/
def amoNew (f5 : BitVec 5) (oldValue src aluOut : Word) : Word :=
  if f5.getLsbD 4 then if aluOut.getLsbD 0 ≠ f5.getLsbD 2 then oldValue else src else aluOut

/-! ## `next_pc_unit` -/

/-- `branch_take`. -/
def branchTake (f3 : BitVec 3) (x1 x2 : Word) : Bool :=
  let rsEq := x1 = x2
  let rsLt := if x1.getLsbD 31 ≠ x2.getLsbD 31 then x1.getLsbD 31 else x1.ult x2
  let rsLtu := x1.ult x2
  match f3.toNat with
  | 0 => rsEq
  | 1 => !rsEq
  | 4 => rsLt
  | 5 => !rsLt
  | 6 => rsLtu
  | 7 => !rsLtu
  | _ => false

/-- `hack_jump_take`. -/
def hackJumpTake (jump : BitVec 3) (comp : Word) : Bool :=
  let zero := comp.extractLsb' 0 16 = 0#16
  let neg := comp.getLsbD 15
  match jump.toNat with
  | 0b001 => !zero && !neg
  | 0b010 => zero
  | 0b011 => !neg
  | 0b100 => neg
  | 0b101 => !zero
  | 0b110 => neg || zero
  | 0b111 => true
  | _ => false

/-- `jalr_target`. -/
def jalrTarget (memAddr : Word) : Word := memAddr &&& 0xFFFFFFFE#32

/-! ## `rv32i_trap_unit` -/

/-- `csr_exists`. -/
def csrExists (addr : BitVec 12) : Bool :=
  match addr.toNat with
  | 0x300 | 0x301 | 0x304 | 0x305 | 0x306 | 0x340 | 0x341 | 0x342 | 0x343 | 0x344 => true
  | 0xB00 | 0xB02 | 0xB80 | 0xB82 | 0xC00 | 0xC01 | 0xC02 | 0xC80 | 0xC81 | 0xC82 => true
  | 0x310 | 0xF11 | 0xF12 | 0xF13 | 0xF14 | 0xF15 | 0x7A0 | 0x7A1 | 0x7A2 | 0x7A3 => true
  | 0x30A | 0x31A => true
  | 0x320 => true
  | _ => (addr.extractLsb' 2 3 ≠ 0#3 || addr.extractLsb' 0 2 = 3#2) &&
    (addr.extractLsb' 5 7 = 0x19#7 || addr.extractLsb' 5 7 = 0x58#7 ||
      addr.extractLsb' 5 7 = 0x5C#7)

/-- `csr_writes`: CSRRW[I], or a non-zero `rs1`/`uimm`. -/
def csrWrites (i : Word) : Bool := (funct3 i).extractLsb' 0 2 = 0b01#2 || rs1 i ≠ 0#5

/-- `is_ecall`. -/
def isEcall (i : Word) : Bool := i = 0x00000073#32

/-- `is_ebreak`. -/
def isEbreak (i : Word) : Bool := i = 0x00100073#32

/-- `is_mret`. -/
def isMret (i : Word) : Bool := i = 0x30200073#32

/-- `is_wfi`. -/
def isWfi (i : Word) : Bool := i = 0x10500073#32

/-- `is_illegal`. -/
def isIllegal (i : Word) (privU tw : Bool) : Bool :=
  match opcode i with
  | .lui | .auipc | .jal => false
  | .jalr => funct3 i ≠ 0b000#3
  | .branch => (funct3 i).extractLsb' 1 2 = 0b01#2
  | .load => funct3 i = 0b011#3 || (funct3 i).extractLsb' 1 2 = 0b11#2
  | .store => (funct3 i).getLsbD 2 || (funct3 i).extractLsb' 0 2 = 0b11#2
  | .iType =>
    match (funct3 i).toNat with
    | 0b001 => funct7 i ≠ 0b0000000#7
    | 0b101 => funct7 i ≠ 0b0000000#7 && funct7 i ≠ 0b0100000#7
    | _ => false
  | .rType => !(funct7 i = 0b0000000#7 || funct7 i = 0b0000001#7 ||
      (funct7 i = 0b0100000#7 && (funct3 i = 0b000#3 || funct3 i = 0b101#3)))
  | .fence => (funct3 i).extractLsb' 1 2 ≠ 0b00#2
  | .amo => funct3 i ≠ 0b010#3 || (isLr (funct5 i) && rs2 i ≠ 0#5) ||
      !((funct5 i).extractLsb' 2 3 = 0b000#3 || (funct5 i).extractLsb' 0 2 = 0b00#2)
  | .system =>
    if funct3 i = 0b000#3 then
      !(isEcall i || isEbreak i || isMret i || isWfi i) ||
        (privU && (isMret i || (tw && isWfi i)))
    else
      funct3 i = 0b100#3 || ((csrAddr i).extractLsb' 10 2 = 0b11#2 && csrWrites i) ||
        !csrExists (csrAddr i) || privU
  | .other => true

/-- `fetch_misalign`. -/
def fetchMisalign (i : Word) (taken : Bool) (addrLow : BitVec 2) : Bool :=
  match opcode i with
  | .jal => (imm i).getLsbD 1
  | .branch => (imm i).getLsbD 1 && taken
  | .jalr => addrLow.getLsbD 1
  | _ => false

/-- `mem_misalign`. -/
def memMisalign (i : Word) (addrLow : BitVec 2) : Bool :=
  match opcode i with
  | .amo => addrLow ≠ 0b00#2
  | .load | .store =>
    match ((funct3 i).extractLsb' 0 2).toNat with
    | 0b01 => addrLow.getLsbD 0
    | 0b10 => addrLow ≠ 0b00#2
    | _ => false
  | _ => false

/-- What `rv32i_trap_unit` decides. -/
inductive Trap : Type
  /-- Neither `trap_entry` nor `trap_return`. -/
  | none
  /-- `trap_entry`, with `trap_cause` and `trap_val`. -/
  | entry (cause val : Word)
  /-- `trap_return`. -/
  | return
  deriving DecidableEq

/-- `rv32i_trap_unit`, in an EXECUTE of RV32. -/
def trapUnit (privU tw irq : Bool) (irqCause i pc : Word) (taken : Bool) (addrLow : BitVec 2)
    (memAddr : Word) : Trap :=
  if irq then .entry irqCause 0#32
  else if isIllegal i privU tw then .entry 2#32 i
  else if fetchMisalign i taken addrLow then
    .entry 0#32 (if opcode i = .jalr then jalrTarget memAddr else pc + imm i)
  else if isEcall i then .entry (if privU then 8#32 else 11#32) 0#32
  else if isEbreak i then .entry 3#32 pc
  else if memMisalign i addrLow then
    .entry (if opcode i = .load || (opcode i = .amo && isLr (funct5 i)) then 4#32 else 6#32) memAddr
  else if isMret i then .return
  else .none

/-! ## `hack_translator` -/

/-- The first operand of a Hack operation: `op_a_sel`. -/
inductive HackA : Type
  | d
  | y
  | zero
  deriving DecidableEq

/-- The second operand: `op_b_sel`. -/
inductive HackB : Type
  | y
  | d
  | imm
  deriving DecidableEq

/-- The outputs of `hack_translator`. -/
structure HackOp : Type where
  imm : Word
  aluOp : AluOp
  useMem : Bool
  weRegA : Bool
  weRegD : Bool
  weMem : Bool
  jumpCond : BitVec 3
  opA : HackA
  opB : HackB

/-- A comp: operation, immediate, operands, and whether it may read M. -/
structure HackComp : Type where
  aluOp : AluOp
  imm : Word
  opA : HackA
  opB : HackB
  mayUseMem : Bool

/-- The `case c_code`. -/
def hackComp (c : BitVec 6) : HackComp :=
  match c.toNat with
  | 0b101010 => ⟨.add, 0#32, .zero, .imm, true⟩
  | 0b111111 => ⟨.add, 1#32, .zero, .imm, true⟩
  | 0b111010 => ⟨.copyB, 0xFFFFFFFF#32, .d, .imm, true⟩
  | 0b001100 => ⟨.copyA, 0#32, .d, .y, true⟩
  | 0b110000 => ⟨.copyB, 0#32, .d, .y, true⟩
  | 0b001101 => ⟨.xor, 0xFFFFFFFF#32, .d, .imm, false⟩
  | 0b110001 => ⟨.xor, 0xFFFFFFFF#32, .y, .imm, true⟩
  | 0b001111 => ⟨.sub, 0#32, .zero, .d, false⟩
  | 0b110011 => ⟨.sub, 0#32, .zero, .y, true⟩
  | 0b000111 => ⟨.sub, 0#32, .y, .d, true⟩
  | 0b011111 => ⟨.add, 1#32, .d, .imm, false⟩
  | 0b110111 => ⟨.add, 1#32, .y, .imm, true⟩
  | 0b001110 => ⟨.add, 0xFFFFFFFF#32, .d, .imm, false⟩
  | 0b110010 => ⟨.add, 0xFFFFFFFF#32, .y, .imm, true⟩
  | 0b000010 => ⟨.add, 0#32, .d, .y, true⟩
  | 0b010011 => ⟨.sub, 0#32, .d, .y, true⟩
  | 0b000000 => ⟨.and, 0#32, .d, .y, true⟩
  | 0b010101 => ⟨.or, 0#32, .d, .y, true⟩
  | 0b000101 => ⟨.xor, 0#32, .d, .y, true⟩
  | _ => ⟨.add, 0#32, .d, .y, true⟩

/-- `hack_translator`. -/
def hackTranslator (i : BitVec 16) : HackOp :=
  if i.getLsbD 15 = false then
    { imm := (i.extractLsb' 0 15).setWidth 32
      aluOp := .add
      useMem := false
      weRegA := true
      weRegD := false
      weMem := false
      jumpCond := 0b000#3
      opA := .zero
      opB := .imm }
  else
    let comp := hackComp (i.extractLsb' 6 6)
    { imm := comp.imm
      aluOp := comp.aluOp
      useMem := i.getLsbD 12 && comp.mayUseMem
      weRegA := i.getLsbD 5
      weRegD := i.getLsbD 4
      weMem := i.getLsbD 3
      jumpCond := i.extractLsb' 0 3
      opA := comp.opA
      opB := comp.opB }

end Vux9k.Rtl

import Vux9k.Rtl.Csrs
import Vux9k.Rtl.MulDiv

/-!
# The CPU, cycle by cycle

`soc/cpu/unified_cpu.veryl`: the registers, the signals between them (functions of the registers and
of the inputs of a cycle), and `tick`, a clock edge.
-/

set_option autoImplicit false

namespace Vux9k.Rtl

/-- `CpuState`. -/
inductive CpuState : Type
  | fetch
  | execute
  | memWait
  | hackWb
  | hackWrD
  | muldivWait
  | amoCalc
  deriving DecidableEq

/-- The registers, those of the units included. -/
structure Cpu : Type where
  state : CpuState
  rLoadWe : Bool
  rMemData : Word
  rHackD : Word
  isRiscvMode : Bool
  pcReg : Word
  pcPlus4Reg : Word
  irReg : Word
  rIrq : Bool
  rIrqCause : Word
  rLoadByteSel : BitVec 2
  rLoadF3 : BitVec 3
  rLoadRd : BitVec 5
  rStoreAddr : Word
  rStoreData : Word
  rStoreByteWe : BitVec 4
  rStoreWe : Bool
  rHackMemWe : Bool
  /-- `rv32i_regfile` -/
  registers : BitVec 5 → Word
  /-- `rv32i_csrs` -/
  csrs : Csrs
  /-- `rv32a_unit` -/
  resvValid : Bool
  resvAddr : BitVec 30
  /-- `rv32m_muldiv` -/
  muldiv : MulDiv

/-- The inputs in a cycle. -/
structure CpuIn : Type where
  softRst : Bool
  bootModeValid : Bool
  bootMode : Bool
  instrIn : Word
  instrReady : Bool
  dataIn : Word
  dataReady : Bool
  lines : Lines
  mtime : BitVec 64

namespace Cpu

/-! ## Signals -/

section

variable (s : Cpu)

/-- The Hack instruction. -/
def hackOp : HackOp :=
  hackTranslator (if s.pcReg.getLsbD 1 then s.irReg.extractLsb' 16 16 else s.irReg.extractLsb' 0 16)

/-- A register as the register file reads it. -/
def reg (r : BitVec 5) : Word := if r = 0#5 then 0#32 else s.registers r

/-- `rf_rs1_data`. -/
def rs1Data : Word := s.reg (if s.isRiscvMode then rs1 s.irReg else 2#5)

/-- `rf_rs2_data`. -/
def rs2Data : Word := s.reg (if s.isRiscvMode then rs2 s.irReg else 1#5)

/-- `rv_mem_addr`. -/
def rvMemAddr : Word := s.rs1Data + imm s.irReg

/-- `mem_addr_low`. -/
def memAddrLow : BitVec 2 := s.rs1Data.extractLsb' 0 2 + (imm s.irReg).extractLsb' 0 2

/-- `rv_amo`. -/
def rvAmo : Bool := opcode s.irReg = .amo

/-- `amo_is_sc`. -/
def amoIsSc : Bool := isSc (funct5 s.irReg)

/-- `amo_is_lr`. -/
def amoIsLr : Bool := isLr (funct5 s.irReg)

/-- `rv_amo_rmw`. -/
def rvAmoRmw : Bool := s.rvAmo && !s.amoIsLr && !s.amoIsSc

/-- `amo_sc_ok`. -/
def amoScOk : Bool := s.resvValid && s.resvAddr = s.rs1Data.extractLsb' 2 30

/-- `rv_sc_failed`. -/
def rvScFailed : Bool := s.rvAmo && s.amoIsSc && !s.amoScOk

/-- `rv_muldiv`. -/
def rvMuldiv : Bool := opcode s.irReg = .rType && funct7 s.irReg = 0b0000001#7

/-- `alu_operand_a`, `alu_operand_b` and `alu_ctrl`. -/
def aluIn : Word × Word × AluOp :=
  if s.isRiscvMode then
    match opcode s.irReg with
    | .auipc => (s.pcReg, imm s.irReg, .add)
    | .lui => (0#32, imm s.irReg, .copyB)
    | .iType => (s.rs1Data, imm s.irReg, rvAluOp .iType (funct3 s.irReg) (funct7 s.irReg))
    | .rType => (s.rs1Data, s.rs2Data, rvAluOp .rType (funct3 s.irReg) (funct7 s.irReg))
    | .amo => (s.rMemData, s.rs2Data, amoAluOp (funct5 s.irReg))
    | .branch => (s.rs1Data, s.rs2Data, .sub)
    | _ => (0#32, 0#32, .add)
  else
    let y := if s.hackOp.useMem then s.rMemData else s.rs2Data
    (match s.hackOp.opA with
      | .d => s.rs1Data
      | .y => y
      | .zero => 0#32,
    match s.hackOp.opB with
      | .y => y
      | .d => s.rs1Data
      | .imm => s.hackOp.imm,
    s.hackOp.aluOp)

/-- `alu_result`. -/
def aluResult : Word := alu s.aluIn.1 s.aluIn.2.1 s.aluIn.2.2

/-- `mem_write`. -/
def memWrite : Bool :=
  if s.isRiscvMode then s.rStoreWe
  else
    match s.state with
    | .hackWb => s.rHackMemWe
    | .execute => s.hackOp.weMem && !s.hackOp.useMem
    | _ => false

/-- `r_data_out`. -/
def rDataOut : Word :=
  if s.isRiscvMode then
    if opcode s.irReg = .store then storeData (funct3 s.irReg) s.rs2Data else s.rs2Data
  else s.aluResult

/-- `r_mem_byte_we`. -/
def rMemByteWe : BitVec 4 :=
  if s.isRiscvMode && opcode s.irReg = .store then storeWe (funct3 s.irReg) s.memAddrLow
  else 0b1111#4

/-- `data_addr`. -/
def dataAddr : Word := if s.isRiscvMode then s.rvMemAddr else s.rs2Data

/-- `data_waddr`. -/
def dataWaddr : Word := if s.isRiscvMode then s.rStoreAddr else s.rs2Data

/-- `data_out`. -/
def dataOut : Word := if s.isRiscvMode then s.rStoreData else s.rDataOut

/-- `mem_byte_we`. -/
def memByteWe : BitVec 4 := if s.isRiscvMode then s.rStoreByteWe else s.rMemByteWe

/-- `data_req`. -/
def dataReq : Bool := s.state = .memWait || (!s.isRiscvMode && s.memWrite)

/-- `exec_rv`. -/
def execRv : Bool := s.isRiscvMode && s.state = .execute

/-- The `trap_entry`, `trap_return` and the rest of `rv32i_trap_unit`. -/
def trap : Trap :=
  if s.execRv then
    trapUnit s.csrs.privU s.csrs.tw s.rIrq s.rIrqCause s.irReg s.pcReg
      (branchTake (funct3 s.irReg) s.rs1Data s.rs2Data) s.memAddrLow s.rvMemAddr
  else .none

/-- `trap_entry`. -/
def trapEntry : Bool :=
  match s.trap with
  | .entry _ _ => true
  | _ => false

/-- `next_pc`. -/
def nextPc : Word :=
  if s.isRiscvMode then
    if s.state = .memWait then s.pcPlus4Reg
    else
      match s.trap with
      | .entry _ _ => s.csrs.mtvec
      | .return => s.csrs.mepc
      | .none =>
        match opcode s.irReg with
        | .branch => if branchTake (funct3 s.irReg) s.rs1Data s.rs2Data then s.pcReg + imm s.irReg
            else s.pcPlus4Reg
        | .jal => s.pcReg + imm s.irReg
        | .jalr => jalrTarget s.rvMemAddr
        | _ => s.pcPlus4Reg
  else
    if s.state = .memWait then s.pcReg + 2#32
    else if hackJumpTake s.hackOp.jumpCond s.aluResult then s.rs2Data <<< 1
    else s.pcReg + 2#32

/-- `pc_out`. -/
def pcOut : Word := if s.state = .fetch || s.state = .hackWrD then s.pcReg else s.nextPc

/-- `csr_access`. -/
def csrAccess : Bool := s.execRv && opcode s.irReg = .system && !s.trapEntry

/-- `hack_writeback`. -/
def hackWriteback : Bool :=
  if s.hackOp.useMem then s.state = .hackWb else s.state = .execute

/-- `hack_dual_dest`. -/
def hackDualDest : Bool := !s.isRiscvMode && s.hackOp.weRegA && s.hackOp.weRegD

/-- `rv_mem_op`. -/
def rvMemOp : Bool :=
  opcode s.irReg = .load || opcode s.irReg = .store || (s.rvAmo && !s.rvScFailed)

end

section

variable (i : CpuIn) (s : Cpu)

/-- `mem_read_req`. -/
def memReadReq : Bool :=
  s.state = .memWait && i.dataReady && if s.isRiscvMode then s.rLoadWe else true

/-- `hack_mem_stall`. -/
def hackMemStall : Bool := !s.isRiscvMode && s.memWrite && !i.dataReady

/-- `csr_rdata`. -/
def csrRdata : Word := s.csrs.read (csrAddr s.irReg) i.lines i.mtime

/-- `csr_wr`, with the address and `write_val`. -/
def csrWr : Option (BitVec 12 × Word) :=
  if s.csrAccess && csrWrites s.irReg then
    some (csrAddr s.irReg, Csrs.writeVal (funct3 s.irReg) (s.csrRdata i)
      (if (funct3 s.irReg).getLsbD 2 then uimm s.irReg else s.rs1Data))
  else none

/-- `rv_retire`. -/
def rvRetire : Bool :=
  (s.execRv && !s.trapEntry && !s.rvMemOp && !s.rvMuldiv) ||
    (s.isRiscvMode && s.state = .memWait && i.dataReady && !(s.rvAmoRmw && s.rLoadWe)) ||
    (s.state = .muldivWait && s.muldiv.fin)

/-- The RV32 writeback: `rf_rd_addr` and `rf_wr_data`, if `rf_we`. -/
def rvWriteback : Option (BitVec 5 × Word) :=
  match s.state with
  | .muldivWait => if s.muldiv.fin then some (rd s.irReg, s.muldiv.result) else none
  | .memWait =>
    if s.rLoadWe && i.dataReady && !s.rvAmoRmw then
      some (s.rLoadRd, loadVal s.rLoadF3 s.rLoadByteSel i.dataIn)
    else if s.rStoreWe && i.dataReady && s.rvAmo then
      some (rd s.irReg, if s.amoIsSc then 0#32 else s.rMemData)
    else none
  | .execute =>
    match opcode s.irReg with
    | .rType | .iType | .lui | .auipc =>
      if s.rvMuldiv then none else some (rd s.irReg, s.aluResult)
    | .jal | .jalr => some (rd s.irReg, s.pcPlus4Reg)
    | .amo => if s.rvScFailed then some (rd s.irReg, 1#32) else none
    | .system =>
      if funct3 s.irReg ≠ 0b000#3 then some (rd s.irReg, s.csrRdata i) else none
    | _ => none
  | _ => none

/-- The Hack writeback: the first port writes A, the second D. -/
def hackRegWrite : Option (BitVec 5 × Word) :=
  if s.hackWriteback && s.hackOp.weRegA && !s.hackMemStall i then some (1#5, s.aluResult)
  else if s.state = .hackWrD then some (2#5, s.rHackD)
  else if s.hackWriteback && s.hackOp.weRegD && !s.hackOp.weRegA && !s.hackMemStall i then
    some (2#5, s.aluResult)
  else none

/-- What is written to the register file; nothing is if the instruction traps. -/
def regWrite : Option (BitVec 5 × Word) :=
  if s.isRiscvMode then if s.trapEntry then none else s.rvWriteback i else s.hackRegWrite i

/-! ## The clock edge -/

/-- `rv32i_regfile`. -/
def writeReg (f : BitVec 5 → Word) : Option (BitVec 5 × Word) → BitVec 5 → Word
  | none => f
  | some (r, v) => if r = 0#5 then f else Function.update f r v

/-- The units' edges: register file, CSRs, reservation, multiply/divide. -/
def tickUnits : Cpu :=
  let lrExec := s.execRv && s.rvAmo && s.amoIsLr && !s.trapEntry
  let scExec := s.execRv && s.rvAmo && s.amoIsSc && !s.trapEntry
  { s with
    registers := writeReg s.registers (s.regWrite i)
    csrs := if i.softRst then .reset else s.csrs.tick s.trap s.pcReg (s.csrWr i) (s.rvRetire i)
    resvValid := if i.softRst || s.trapEntry || scExec then false
      else if lrExec then true
      else s.resvValid
    resvAddr := if i.softRst then 0#30
      else if s.trapEntry || scExec then s.resvAddr
      else if lrExec then s.rs1Data.extractLsb' 2 30
      else s.resvAddr
    muldiv := if s.execRv && s.rvMuldiv && !s.trapEntry then
        .start (funct3 s.irReg) s.rs1Data s.rs2Data
      else s.muldiv.tick }

/-- No access is on the bus any more. -/
def quiet (u : Cpu) : Cpu := { u with rStoreWe := false, rLoadWe := false, rHackMemWe := false }

/-- The end of an instruction in EXECUTE or HACK_WB, but for a Hack D after A. -/
def endInstr (u : Cpu) : Cpu :=
  { u.quiet with
    pcReg := s.nextPc
    rHackD := s.aluResult
    state := if s.hackDualDest then .hackWrD else .fetch }

/-- The state machine, on the units after the edge. -/
def tickState (u : Cpu) : Cpu :=
  match s.state with
  | .fetch =>
    if i.instrReady then
      { u.quiet with
        irReg := i.instrIn
        pcPlus4Reg := s.pcReg + 4#32
        rIrq := s.csrs.irqPending i.lines && s.isRiscvMode
        rIrqCause := s.csrs.irqCause i.lines
        state := .execute }
    else u
  | .execute =>
    if s.trap ≠ .none then { u.quiet with pcReg := s.nextPc, state := .fetch }
    else if s.isRiscvMode && s.rvMuldiv then { u.quiet with state := .muldivWait }
    else if s.isRiscvMode && s.rvScFailed then { u with pcReg := s.nextPc, state := .fetch }
    else if s.isRiscvMode && s.rvAmo && s.amoIsSc then
      { u.quiet with
        rStoreAddr := s.rvMemAddr
        rStoreData := s.rDataOut
        rStoreByteWe := s.rMemByteWe
        rStoreWe := true
        state := .memWait }
    else if s.isRiscvMode && (opcode s.irReg = .load || s.rvAmo) then
      { u.quiet with
        rStoreAddr := s.rvMemAddr
        rLoadByteSel := s.memAddrLow
        rLoadF3 := funct3 s.irReg
        rLoadRd := rd s.irReg
        rLoadWe := true
        state := .memWait }
    else if s.isRiscvMode && opcode s.irReg = .store then
      { u.quiet with
        rStoreAddr := s.rvMemAddr
        rStoreData := s.rDataOut
        rStoreByteWe := s.rMemByteWe
        rStoreWe := true
        state := .memWait }
    else if !s.isRiscvMode && s.hackOp.useMem then
      { u.quiet with rHackMemWe := s.hackOp.weMem, state := .memWait }
    else if s.hackMemStall i then u
    else s.endInstr u
  | .memWait =>
    if i.dataReady then
      if s.isRiscvMode && s.rvAmoRmw && s.rLoadWe then
        { u with rStoreWe := false, rLoadWe := false, rMemData := i.dataIn, state := .amoCalc }
      else if s.isRiscvMode then { u.quiet with pcReg := s.pcPlus4Reg, state := .fetch }
      else { u with rStoreWe := false, rLoadWe := false, rMemData := i.dataIn, state := .hackWb }
    else u
  | .amoCalc =>
    { u with
      rStoreAddr := s.rvMemAddr
      rStoreData := amoNew (funct5 s.irReg) s.rMemData s.rs2Data s.aluResult
      rStoreByteWe := s.rMemByteWe
      rStoreWe := true
      state := .memWait }
  | .hackWb => if s.hackMemStall i then u else s.endInstr u
  | .hackWrD => { u with state := .fetch }
  | .muldivWait => if s.muldiv.fin then { u with pcReg := s.pcPlus4Reg, state := .fetch } else u

/-- What a reset of the state machine leaves, in the given ISA. -/
def resetState (u : Cpu) (riscv : Bool) : Cpu :=
  { u with
    state := .fetch
    rIrq := false
    rIrqCause := 0#32
    pcReg := 0#32
    pcPlus4Reg := 4#32
    irReg := 0x00000013#32
    rLoadByteSel := 0#2
    rLoadF3 := 0#3
    rLoadRd := 0#5
    rStoreAddr := 0#32
    rStoreData := 0#32
    rStoreByteWe := 0#4
    rStoreWe := false
    rLoadWe := false
    rHackMemWe := false
    rMemData := 0#32
    rHackD := 0#32
    isRiscvMode := riscv }

/-- A clock edge. -/
def tick : Cpu :=
  if i.softRst then (s.tickUnits i).resetState (if i.bootModeValid then i.bootMode else true)
  else s.tickState i (s.tickUnits i)

end

/-- The CPU after a hard reset; the register file keeps what it holds. -/
def powerOn (registers : BitVec 5 → Word) : Cpu where
  state := .fetch
  rIrq := false
  rIrqCause := 0#32
  pcReg := 0#32
  pcPlus4Reg := 4#32
  irReg := 0x00000013#32
  rLoadByteSel := 0#2
  rLoadF3 := 0#3
  rLoadRd := 0#5
  rStoreAddr := 0#32
  rStoreData := 0#32
  rStoreByteWe := 0#4
  rStoreWe := false
  rLoadWe := false
  rHackMemWe := false
  rMemData := 0#32
  rHackD := 0#32
  isRiscvMode := true
  registers := registers
  csrs := .reset
  resvValid := false
  resvAddr := 0#30
  muldiv := .reset

/-- The CPU's states that a run from a hard reset goes through, whatever the inputs. -/
inductive Reachable : Cpu → Prop
  | powerOn (registers : BitVec 5 → Word) : Reachable (powerOn registers)
  | tick {s : Cpu} (i : CpuIn) : Reachable s → Reachable (s.tick i)

end Cpu

end Vux9k.Rtl

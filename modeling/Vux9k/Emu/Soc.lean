import Vux9k.Emu.Csr

/-!
# The emulator's CPU

`emu/crates/vux9k_emu/src/soc.rs`: `step_rv` and `step_hack` execute a whole instruction at once and
say how many cycles it took.  What is outside the CPU (memories, caches, peripherals) is behind a
`Bus`: each method of the bus is the method of `Soc` of that name, with the cycle it is called with.
-/

set_option autoImplicit false

namespace Vux9k.Emu

/-! ## Fields -/

section

variable (i : Word)

/-- `rd`. -/
def rd : BitVec 5 := (i >>> 7 &&& 31#32).setWidth 5

/-- `rs1`. -/
def rs1 : BitVec 5 := (i >>> 15 &&& 31#32).setWidth 5

/-- `rs2`. -/
def rs2 : BitVec 5 := (i >>> 20 &&& 31#32).setWidth 5

/-- `funct3`. -/
def funct3 : Word := i >>> 12 &&& 7#32

/-- `funct7`. -/
def funct7 : Word := i >>> 25

/-- `imm_i`. -/
def immI : Word := i.sshiftRight 20

/-- `imm_s`. -/
def immS : Word := i.sshiftRight 25 <<< 5 ||| i >>> 7 &&& 0x1F#32

/-- `imm_b`. -/
def immB : Word :=
  i.sshiftRight 31 <<< 12 ||| i <<< 4 &&& 0x800#32 ||| i >>> 20 &&& 0x7E0#32 |||
    i >>> 7 &&& 0x1E#32

/-- `imm_u`. -/
def immU : Word := i &&& 0xFFFFF000#32

/-- `imm_j`. -/
def immJ : Word :=
  i.sshiftRight 31 <<< 20 ||| i &&& 0xFF000#32 ||| i >>> 9 &&& 0x800#32 ||| i >>> 20 &&& 0x7FE#32

end

/-- The `OP_*` constants. -/
inductive Op : Type
  | lui
  | auipc
  | jal
  | jalr
  | branch
  | load
  | store
  | imm
  | reg
  | fence
  | system
  | amo
  | other
  deriving DecidableEq

/-- `i & 0x7F`, among the `OP_*` constants. -/
def op (i : Word) : Op :=
  match (i &&& 0x7F#32).toNat with
  | 0x37 => .lui
  | 0x17 => .auipc
  | 0x6F => .jal
  | 0x67 => .jalr
  | 0x63 => .branch
  | 0x03 => .load
  | 0x23 => .store
  | 0x13 => .imm
  | 0x33 => .reg
  | 0x0F => .fence
  | 0x73 => .system
  | 0x2F => .amo
  | _ => .other

/-- The `AMO_*` constants. -/
inductive AmoOp : Type
  | add
  | swap
  | lr
  | sc
  | xor
  | or
  | and
  | min
  | max
  | minu
  | maxu
  deriving DecidableEq

/-- A `funct5`, among the `AMO_*` constants. -/
def AmoOp.of (f5 : Word) : Option AmoOp :=
  match f5.toNat with
  | 0x00 => some .add
  | 0x01 => some .swap
  | 0x02 => some .lr
  | 0x03 => some .sc
  | 0x04 => some .xor
  | 0x08 => some .or
  | 0x0C => some .and
  | 0x10 => some .min
  | 0x14 => some .max
  | 0x18 => some .minu
  | 0x1C => some .maxu
  | _ => none

/-- The operation of an A-extension instruction. -/
def amoOp (i : Word) : Option AmoOp := AmoOp.of (i >>> 27)

/-! ## Legality -/

/-- `Legal`. -/
structure Legal : Type where
  mExt : Bool
  user : Bool
  tw : Bool

/-- The CSR a CSR instruction names. -/
def csrAddr (i : Word) : BitVec 16 := (i >>> 20).setWidth 16

/-- `writes`. -/
def csrWrites (i : Word) : Bool := funct3 i &&& 3#32 = 1#32 || rs1 i ≠ 0#5

/-- `rv_illegal`. -/
def rvIllegal (i : Word) (x : Legal) : Bool :=
  let f3 := funct3 i
  let f7 := funct7 i
  match op i with
  | .lui | .auipc | .jal => false
  | .jalr => f3 ≠ 0#32
  | .branch => f3 >>> 1 = 1#32
  | .load => f3 = 3#32 || f3 >>> 1 = 3#32
  | .store => f3 &&& 4#32 ≠ 0#32 || f3 &&& 3#32 = 3#32
  | .imm =>
    match f3.toNat with
    | 1 => f7 ≠ 0#32
    | 5 => f7 ≠ 0#32 && f7 ≠ 0x20#32
    | _ => false
  | .reg => !(f7 = 0#32 || (x.mExt && f7 = 1#32) || (f7 = 0x20#32 && (f3 = 0#32 || f3 = 5#32)))
  | .amo => f3 ≠ 2#32 || (amoOp i).isNone || (amoOp i = some .lr && rs2 i ≠ 0#5)
  | .fence => f3 >>> 1 ≠ 0#32
  | .system =>
    if f3 = 0#32 then
      !(i = 0x00000073#32 || i = 0x00100073#32 || i = 0x30200073#32 || i = 0x10500073#32) ||
        (x.user && i = 0x30200073#32) || (x.user && i = 0x10500073#32 && x.tw)
    else
      let addr := csrAddr i
      let counter := (addr &&& 0xF7F#16).toNat
      let denied := x.user && (addr >>> 8 &&& 3#16 = 3#16 || (0xC00 ≤ counter && counter ≤ 0xC02))
      f3 = 4#32 || (csrReadOnly addr && csrWrites i) || !csrExists addr || denied
  | .other => true

/-! ## Operations -/

/-- A comparison as a word. -/
def toU32 (b : Bool) : Word := if b then 1#32 else 0#32

/-- `muldiv`. -/
def muldiv (f3 a b : Word) : Word :=
  let sa : BitVec 64 := a.signExtend 64
  let sb : BitVec 64 := b.signExtend 64
  match f3.toNat with
  | 0 => a * b
  | 1 => ((sa * sb).sshiftRight 32).setWidth 32
  | 2 => ((sa * b.setWidth 64).sshiftRight 32).setWidth 32
  | 3 => ((a.setWidth 64 * b.setWidth 64) >>> 32).setWidth 32
  | 4 => if b = 0#32 then 0xFFFFFFFF#32 else a.sdiv b
  | 5 => if b = 0#32 then 0xFFFFFFFF#32 else a / b
  | 6 => if b = 0#32 then a else a.srem b
  | _ => if b = 0#32 then a else a % b

/-- The value of OP and OP-IMM. -/
def aluValue (i x1 b : Word) : Word :=
  let sub := op i = .reg && funct7 i = 0x20#32
  let sh := (b &&& 31#32).toNat
  match (funct3 i).toNat with
  | 0 => if sub then x1 - b else x1 + b
  | 1 => x1 <<< sh
  | 2 => toU32 (x1.slt b)
  | 3 => toU32 (x1.ult b)
  | 4 => x1 ^^^ b
  | 5 => if funct7 i &&& 0x20#32 ≠ 0#32 then x1.sshiftRight sh else x1 >>> sh
  | 6 => x1 ||| b
  | _ => x1 &&& b

/-- `take` of a branch. -/
def branchTake (i x1 x2 : Word) : Bool :=
  match (funct3 i).toNat with
  | 0 => x1 = x2
  | 1 => x1 ≠ x2
  | 4 => x1.slt x2
  | 5 => !x1.slt x2
  | 6 => x1.ult x2
  | _ => !x1.ult x2

/-- `misaligned`. -/
def misaligned (addr f3 : Word) : Bool :=
  match (f3 &&& 3#32).toNat with
  | 1 => addr &&& 1#32 ≠ 0#32
  | 2 => addr &&& 3#32 ≠ 0#32
  | _ => false

/-- What a load puts in `rd`. -/
def loadValue (f3 addr word : Word) : Word :=
  let sh := ((addr &&& 3#32) * 8#32).toNat
  let sh16 := ((addr &&& 3#32) * 8#32 &&& 16#32).toNat
  match f3.toNat with
  | 0 => ((word >>> sh).setWidth 8).signExtend 32
  | 4 => word >>> sh &&& 0xFF#32
  | 1 => ((word >>> sh16).setWidth 16).signExtend 32
  | 5 => word >>> sh16 &&& 0xFFFF#32
  | _ => word

/-- What a store drives: the lanes and the byte enables. -/
def storeLanes (f3 addr x2 : Word) : Word × BitVec 4 :=
  let lane := addr &&& 3#32
  match f3.toNat with
  | 0 => ((x2 &&& 0xFF#32) * 0x01010101#32, 1#4 <<< lane.toNat)
  | 1 => ((x2 &&& 0xFFFF#32) * 0x00010001#32,
      if lane &&& 2#32 = 0#32 then 0b0011#4 else 0b1100#4)
  | _ => (x2, 0b1111#4)

/-- `new` of an AMO. -/
def amoValue (a : AmoOp) (old src : Word) : Word :=
  match a with
  | .swap => src
  | .add => old + src
  | .xor => old ^^^ src
  | .and => old &&& src
  | .or => old ||| src
  | .min => if src.slt old then src else old
  | .max => if src.slt old then old else src
  | .minu => if src.ult old then src else old
  | _ => if src.ult old then old else src

/-! ## The machine -/

/-- `Retire`, what an instruction did. -/
structure Retire : Type where
  rd : Option (BitVec 5 × Word)
  rd2 : Option (BitVec 5 × Word)
  store : Option (Word × Word × BitVec 4)
  trap : Option Word
  branchTaken : Option Bool
  cycles : ℕ

/-- `Retire::default`. -/
def Retire.default : Retire := ⟨none, none, none, none, none, 0⟩

/-- What is outside the CPU. -/
structure Bus (σ : Type) : Type where
  /-- `fetch`: the word and how long FETCH waits -/
  fetch : Bool → Word → σ → (Word × ℕ) × σ
  /-- `rv_load_wait` -/
  loadWait : Word → σ → ℕ × σ
  /-- `rv_read_word` -/
  readWord : Word → ℕ → σ → Word × σ
  /-- `rv_write` -/
  write : Word → Word → BitVec 4 → ℕ → σ → ℕ × σ
  /-- `hack_read` -/
  hackRead : Word → ℕ → σ → (Word × ℕ) × σ
  /-- `hack_write` -/
  hackWrite : Word → Word → ℕ → σ → ℕ × σ
  /-- `mip_at` -/
  mipAt : ℕ → σ → Word × σ
  /-- `mtime` of the timer in a cycle -/
  mtime : ℕ → σ → BitVec 64

/-- `Soc`: the CPU's fields, and `mem` for what is behind the bus. -/
structure Soc (σ : Type) : Type where
  cycle : ℕ
  regs : BitVec 5 → Word
  pc : Word
  csr : Csrs
  riscvMode : Bool
  mExt : Bool
  reservation : Option Word
  mcycleWritten : Option (BitVec 64)
  mem : σ

namespace Soc

variable {σ : Type} (bus : Bus σ)

/-- `write_rd`. -/
def writeRd (s : Soc σ) (rd : BitVec 5) (v : Word) (r : Retire) : Soc σ × Retire :=
  if rd ≠ 0#5 then ({ s with regs := Function.update s.regs rd v }, { r with rd := some (rd, v) })
  else (s, r)

/-- `take_trap`. -/
def takeTrap (s : Soc σ) (cause tval : Word) (r : Retire) : Soc σ × Retire :=
  let csr := s.csr.enterTrap s.pc cause tval
  ({ s with csr, reservation := none, pc := csr.mtvec },
    { r with trap := some cause, cycles := 2 })

/-- `exec_csr`; also whether the instruction counts in `minstret`. -/
def execCsr (s : Soc σ) (i : Word) (r : Retire) : Bool × Soc σ × Retire :=
  let addr := csrAddr i
  let f3 := funct3 i
  let atExecute := { s.csr with mcycle := s.csr.mcycle + 1#64 }
  let (mip, mem) := bus.mipAt s.cycle s.mem
  let s := { s with mem }
  let old := atExecute.read addr mip (bus.mtime s.cycle s.mem + 1#64)
  let old := if addr = 0x301#16 && !s.mExt then old &&& ~~~misaM else old
  let src := if f3 &&& 4#32 ≠ 0#32 then (rs1 i).setWidth 32 else s.regs (rs1 i)
  let value := match (f3 &&& 3#32).toNat with
    | 1 => src
    | 2 => old ||| src
    | _ => old &&& ~~~src
  let (counts, s) :=
    if csrWrites i then
      match addr.toNat with
      | 0xB00 | 0xB80 =>
        (true, { s with mcycleWritten := some (atExecute.write addr value).mcycle })
      | 0xB02 | 0xB82 => (false, { s with csr := s.csr.write addr value })
      | 0x300 => (true, { s with csr := (s.csr.write addr value).writeMpp value })
      | _ => (true, { s with csr := s.csr.write addr value })
    else (true, s)
  (counts, s.writeRd (rd i) old r)

/-- `exec_amo`: the cause of its trap, or what it did. -/
def execAmo (s : Soc σ) (i : Word) (r : Retire) : Word ⊕ Soc σ × Retire :=
  let addr := s.regs (rs1 i)
  if addr &&& 3#32 ≠ 0#32 then .inl (if amoOp i = some .lr then 4#32 else 6#32)
  else
    let src := s.regs (rs2 i)
    match amoOp i with
    | some .sc =>
      let s' := { s with reservation := none }
      if s.reservation = some addr then
        let (wait, mem) := bus.write addr src 0b1111#4 s.cycle s.mem
        .inr (writeRd { s' with mem } (rd i) 0#32
          { r with cycles := 3 + wait, store := some (addr, src, 0b1111#4) })
      else .inr (s'.writeRd (rd i) 1#32 { r with cycles := 2 })
    | some .lr =>
      let (wait, mem) := bus.loadWait addr s.mem
      let (old, mem) := bus.readWord addr s.cycle mem
      .inr (writeRd { s with mem, reservation := some addr } (rd i) old
        { r with cycles := 3 + wait })
    | a =>
      let (wait, mem) := bus.loadWait addr s.mem
      let (old, mem) := bus.readWord addr s.cycle mem
      let new := amoValue (a.getD .maxu) old src
      let (writeWait, mem) := bus.write addr new 0b1111#4 (s.cycle + (3 + wait)) mem
      .inr (writeRd { s with mem } (rd i) old
        { r with cycles := 3 + wait + (2 + writeWait), store := some (addr, new, 0b1111#4) })

/-- The end of an instruction that did not trap: it counts, and `next` is the next one. -/
def retire (s : Soc σ) (next : Word) (counts : Bool) (r : Retire) : Soc σ × Retire :=
  ({ s with
    csr := if counts then { s.csr with minstret := s.csr.minstret + 1#64 } else s.csr
    pc := next }, r)

/-- `step_rv`. -/
def stepRv (s : Soc σ) (i : Word) (irq : Option Word) (r : Retire) : Soc σ × Retire :=
  match irq with
  | some cause => s.takeTrap cause 0#32 r
  | none =>
    if rvIllegal i ⟨s.mExt, s.csr.user, s.csr.mstatus &&& mstatusTw ≠ 0#32⟩ then s.takeTrap 2#32 i r
    else
      let f3 := funct3 i
      let x1 := s.regs (rs1 i)
      let next := s.pc + 4#32
      let r := { r with cycles := 2 }
      -- what an instruction does that only writes `rd`
      let write := fun v next (r : Retire) ↦
        let (s, r) := s.writeRd (rd i) v r
        s.retire next true r
      match op i with
      | .reg =>
        if funct7 i = 1#32 then
          write (muldiv f3 x1 (s.regs (rs2 i))) next { r with cycles := 2 + 33 }
        else write (aluValue i x1 (s.regs (rs2 i))) next r
      | .imm => write (aluValue i x1 (immI i)) next r
      | .lui => write (immU i) next r
      | .auipc => write (s.pc + immU i) next r
      | .jal =>
        let target := s.pc + immJ i
        if target &&& 2#32 ≠ 0#32 then s.takeTrap 0#32 target r
        else write (s.pc + 4#32) target r
      | .jalr =>
        let target := (x1 + immI i) &&& ~~~1#32
        if target &&& 2#32 ≠ 0#32 then s.takeTrap 0#32 target r
        else write (s.pc + 4#32) target r
      | .branch =>
        let take := branchTake i x1 (s.regs (rs2 i))
        let target := s.pc + immB i
        if take && target &&& 2#32 ≠ 0#32 then s.takeTrap 0#32 target r
        else s.retire (if take then target else next) true { r with branchTaken := some take }
      | .load =>
        let addr := x1 + immI i
        if misaligned addr f3 then s.takeTrap 4#32 addr r
        else
          let (wait, mem) := bus.loadWait addr s.mem
          let (word, mem) := bus.readWord addr s.cycle mem
          let (s, r) := writeRd { s with mem } (rd i) (loadValue f3 addr word)
            { r with cycles := 3 + wait }
          s.retire next true r
      | .store =>
        let addr := x1 + immS i
        if misaligned addr f3 then s.takeTrap 6#32 addr r
        else
          let (data, be) := storeLanes f3 addr (s.regs (rs2 i))
          let (wait, mem) := bus.write addr data be s.cycle s.mem
          retire { s with mem } next true
            { r with cycles := 3 + wait, store := some (addr, data, be) }
      | .amo =>
        match s.execAmo bus i r with
        | .inl cause => s.takeTrap cause x1 r
        | .inr (s, r) => s.retire next true r
      | .fence => s.retire next true r
      | .system =>
        if f3 = 0#32 then
          if i = 0x00000073#32 then s.takeTrap (if s.csr.user then 8#32 else 11#32) 0#32 r
          else if i = 0x00100073#32 then s.takeTrap 3#32 s.pc r
          else if i = 0x30200073#32 then
            let s := { s with csr := s.csr.mret }
            s.retire s.csr.mepc true r
          else s.retire next true r
        else
          let (counts, s, r) := s.execCsr bus i r
          s.retire next counts r
      | .other => (s, r)

/-! ## Hack -/

/-- `out` of a C-instruction. -/
def hackOut (comp : BitVec 16) (d y : Word) : Word :=
  match comp.toNat with
  | 0b101010 => 0#32
  | 0b111111 => 1#32
  | 0b111010 => 0xFFFFFFFF#32
  | 0b001100 => d
  | 0b110000 => y
  | 0b001101 => ~~~d
  | 0b110001 => ~~~y
  | 0b001111 => 0#32 - d
  | 0b110011 => 0#32 - y
  | 0b011111 => d + 1#32
  | 0b110111 => y + 1#32
  | 0b001110 => d - 1#32
  | 0b110010 => y - 1#32
  | 0b000010 => d + y
  | 0b010011 => d - y
  | 0b000111 => y - d
  | 0b000000 => d &&& y
  | 0b010101 => d ||| y
  | 0b000101 => d ^^^ y
  | _ => d + y

/-- `take` of a jump. -/
def hackTake (jump : BitVec 16) (out : Word) : Bool :=
  let zero := out &&& 0xFFFF#32 = 0#32
  let neg := out &&& 0xFFFF#32 &&& 0x8000#32 ≠ 0#32
  match jump.toNat with
  | 1 => !zero && !neg
  | 2 => zero
  | 3 => !neg
  | 4 => neg
  | 5 => !zero
  | 6 => neg || zero
  | 7 => true
  | _ => false

/-- `ins` of `step_hack`. -/
def hackIns (pc word : Word) : BitVec 16 :=
  if pc &&& 2#32 ≠ 0#32 then (word >>> 16).setWidth 16 else word.setWidth 16

/-- `use_mem` of a C-instruction: the comps that never read M take no part of it. -/
def hackUseMem (ins : BitVec 16) : Bool :=
  let comp := (ins >>> 6 &&& 0x3F#16).toNat
  ins &&& 0x1000#16 ≠ 0#16 &&
    !(comp = 0b001101 || comp = 0b001111 || comp = 0b011111 || comp = 0b001110)

/-- `step_hack`. -/
def stepHack (s : Soc σ) (word : Word) (r : Retire) : Soc σ × Retire :=
  let ins := hackIns s.pc word
  let a := s.regs 1#5
  let d := s.regs 2#5
  let next := s.pc + 2#32
  if ins &&& 0x8000#16 = 0#16 then
    let v : Word := (ins &&& 0x7FFF#16).setWidth 32
    ({ s with regs := Function.update s.regs 1#5 v, pc := next },
      { r with rd := some (1#5, v), cycles := 2 })
  else
    let comp := ins >>> 6 &&& 0x3F#16
    let dest := ins >>> 3 &&& 7#16
    let jump := ins &&& 7#16
    let useMem := hackUseMem ins
    let t := s.cycle
    let ((y, readWait), mem) := if useMem then bus.hackRead a t s.mem else ((a, 0), s.mem)
    let out := hackOut comp d y
    let edge := if useMem then t + 3 + readWait else t + 1
    let (writeWait, mem) := if dest &&& 1#16 ≠ 0#16 then bus.hackWrite a out edge mem else (0, mem)
    let regs := if dest &&& 4#16 ≠ 0#16 then Function.update s.regs 1#5 out else s.regs
    let regs := if dest &&& 2#16 ≠ 0#16 then Function.update regs 2#5 out else regs
    let take := hackTake jump out
    ({ s with regs, mem, pc := if jump ≠ 0#16 && take then a <<< 1 else next },
      { r with
        store := if dest &&& 1#16 ≠ 0#16 then some (a, out, 0b1111#4) else r.store
        rd := if dest &&& 4#16 ≠ 0#16 then some (1#5, out)
          else if dest &&& 2#16 ≠ 0#16 then some (2#5, out) else r.rd
        rd2 := if dest &&& 4#16 ≠ 0#16 && dest &&& 2#16 ≠ 0#16 then some (2#5, out) else r.rd2
        branchTaken := if jump ≠ 0#16 && jump ≠ 7#16 then some take else r.branchTaken
        cycles := 2 + (if useMem then 2 + readWait else 0) + writeWait +
          if dest &&& 6#16 = 6#16 then 1 else 0 })

/-! ## `step` -/

/-- `step` up to the instruction's last FETCH cycle, `wait` cycles after its first. -/
def afterWait (s : Soc σ) (wait : ℕ) : Soc σ :=
  { s with
    cycle := s.cycle + wait
    csr := { s.csr with mcycle := s.csr.mcycle + BitVec.ofNat 64 wait } }

/-- What `step` does after the instruction: `mcycle` and the clock. -/
def endStep (s : Soc σ) (cycles : ℕ) : Soc σ :=
  { s with
    cycle := s.cycle + cycles
    csr := { s.csr with
      mcycle := s.mcycleWritten.getD (s.csr.mcycle + BitVec.ofNat 64 cycles) }
    mcycleWritten := none }

end Soc

end Vux9k.Emu

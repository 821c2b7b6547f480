import Vux9k.Rtl.Units

/-!
# Multiply and divide, a bit a cycle

`soc/cpu/rv32m_muldiv.veryl`.
-/

set_option autoImplicit false

namespace Vux9k.Rtl

/-- The registers of `rv32m_muldiv`. -/
structure MulDiv : Type where
  hi : BitVec 33
  lo : Word
  mcand : BitVec 33
  count : BitVec 5
  active : Bool
  fin : Bool
  isDiv : Bool
  msub : Bool
  selHi : Bool
  negRes : Bool

namespace MulDiv

/-- What a reset leaves. -/
def reset : MulDiv where
  hi := 0#33
  lo := 0#32
  mcand := 0#33
  count := 0#5
  active := false
  fin := false
  isDiv := false
  msub := false
  selHi := false
  negRes := false

/-- `sa`: `a` is signed and negative. -/
def signA (f3 : BitVec 3) (a : Word) : Bool :=
  (f3 = 1#3 || f3 = 2#3 || f3 = 4#3 || f3 = 6#3) && a.getLsbD 31

/-- `sb`. -/
def signB (f3 : BitVec 3) (b : Word) : Bool :=
  (f3 = 1#3 || f3 = 4#3 || f3 = 6#3) && b.getLsbD 31

/-- `mag_a`, `mag_b`: a magnitude. -/
def mag (neg : Bool) (x : Word) : Word := if neg then ~~~x + 1#32 else x

/-- `sum`. -/
def sum (m : MulDiv) : BitVec 34 :=
  let shifted : BitVec 33 := m.hi.extractLsb' 0 32 ++ m.lo.extractLsb' 31 1
  let sub := m.isDiv || (m.msub && m.count = 0#5)
  let x : BitVec 34 := if m.isDiv then shifted.setWidth 34 else m.hi.signExtend 34
  let y0 : BitVec 34 := if m.isDiv then m.mcand.setWidth 34
    else if m.lo.getLsbD 0 then m.mcand.signExtend 34 else 0#34
  let y := if sub then ~~~y0 else y0
  x + y + if sub then 1#34 else 0#34

/-- The operands at `start`. -/
def start (f3 : BitVec 3) (a b : Word) : MulDiv where
  isDiv := f3.getLsbD 2
  msub := f3 = 1#3
  selHi := (f3.extractLsb' 0 2 ≠ 0#2 && !f3.getLsbD 2) || (f3.getLsbD 2 && f3.getLsbD 1)
  negRes := f3.getLsbD 2 &&
    if f3.getLsbD 1 then signA f3 a else signA f3 a ≠ signB f3 b && b ≠ 0#32
  hi := 0#33
  lo := if f3.getLsbD 2 then mag (signA f3 a) a else b
  mcand := if f3.getLsbD 2 then (mag (signB f3 b) b).setWidth 33
    else BitVec.ofBool (f3 ≠ 3#3 && f3 ≠ 0#3 && a.getLsbD 31) ++ a
  count := 31#5
  active := true
  fin := false

/-- A clock edge without `start`. -/
def tick (m : MulDiv) : MulDiv :=
  if m.active then
    { m with
      hi := if m.isDiv then
          if m.sum.getLsbD 33 then m.hi.extractLsb' 0 32 ++ m.lo.extractLsb' 31 1
          else m.sum.extractLsb' 0 33
        else m.sum.extractLsb' 1 33
      lo := if m.isDiv then m.lo.extractLsb' 0 31 ++ BitVec.ofBool (!m.sum.getLsbD 33)
        else m.sum.extractLsb' 0 1 ++ m.lo.extractLsb' 1 31
      count := m.count - 1#5
      active := m.count ≠ 0#5
      fin := m.count = 0#5 || m.fin }
  else { m with fin := false }

/-- A clock edge, with the funct3 and the operands of a `start`. -/
def clock (m : MulDiv) : Option (BitVec 3 × Word × Word) → MulDiv
  | some (f3, a, b) => start f3 a b
  | none => m.tick

/-- The unit after `n` cycles. -/
def run (inp : ℕ → Option (BitVec 3 × Word × Word)) (m : MulDiv) : ℕ → MulDiv
  | 0 => m
  | n + 1 => (run inp m n).clock (inp n)

/-- `result`. -/
def result (m : MulDiv) : Word :=
  let raw := if m.selHi then m.hi.extractLsb' 0 32 else m.lo
  if m.negRes then ~~~raw + 1#32 else raw

end MulDiv

end Vux9k.Rtl

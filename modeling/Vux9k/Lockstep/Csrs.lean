import Vux9k.Lockstep.Units
import Vux9k.Rtl.Run

/-!
# The same CSRs

The CSRs of `rv32i_csrs` as the emulator keeps them: reads, writes, trap entry and return, and the
pending interrupt are the same on both.
-/

set_option autoImplicit false

namespace Vux9k

open Rtl (Csrs Lines setBit)

namespace Rtl.Csrs

/-- The emulator's view. -/
def toEmu (c : Csrs) : Emu.Csrs where
  mstatus := c.mstatus
  mie := c.mie
  mtvec := c.mtvec
  mscratch := c.mscratch
  mepc := c.mepc
  mcause := c.mcause
  mtval := c.mtval
  mcycle := c.mcycle
  minstret := c.minstret
  user := c.privU
  mppU := c.mppU

/-- An `mstatus` with these MIE, MPIE, MPRV and TW. -/
def mstatusOf (mie mpie mprv tw : Bool) : Word :=
  setBit (setBit (setBit (setBit 0#32 3 mie) 7 mpie) 17 mprv) 21 tw

theorem eq_mstatusOf {m : Word} (h : m &&& mstatusMask = m) :
    m = mstatusOf (m.getLsbD 3) (m.getLsbD 7) (m.getLsbD 17) (m.getLsbD 21) := by
  apply BitVec.eq_of_getLsbD_eq
  intro j hj
  have hbit : m.getLsbD j = (m.getLsbD j && mstatusMask.getLsbD j) := by
    rw [← BitVec.getLsbD_and, h]
  have hof : ∀ a b p t : Bool, (mstatusOf a b p t).getLsbD j =
      if j = 3 then a else if j = 7 then b else if j = 17 then p else if j = 21 then t
      else false := by
    interval_cases j <;> decide
  have hmask : mstatusMask.getLsbD j = (j = 3 ∨ j = 7 ∨ j = 17 ∨ j = 21 : Bool) := by
    interval_cases j <;> decide
  rw [hof]
  by_cases hset : j = 3 ∨ j = 7 ∨ j = 17 ∨ j = 21
  · rcases hset with rfl | rfl | rfl | rfl <;> rfl
  · rw [hbit, hmask, decide_eq_false hset, Bool.and_false]
    rw [not_or, not_or, not_or] at hset
    rw [if_neg hset.1, if_neg hset.2.1, if_neg hset.2.2.1, if_neg hset.2.2.2]

theorem toEmu_trapEntry {c : Csrs} (h : c.mstatus &&& mstatusMask = c.mstatus)
    (pc cause val : Word) :
    (c.trapEntry pc cause val).toEmu = c.toEmu.enterTrap pc cause val := by
  have hm :
      ∀ a b p t : Bool, setBit (setBit (mstatusOf a b p t) 7 ((mstatusOf a b p t).getLsbD 3)) 3
      false = mstatusOf a b p t &&& (Emu.mstatusMprv ||| Emu.mstatusTw) |||
        if mstatusOf a b p t &&& Emu.mstatusMie ≠ 0#32 then Emu.mstatusMpie else 0#32 := by decide
  unfold trapEntry Emu.Csrs.enterTrap toEmu
  dsimp only
  rw [eq_mstatusOf h, hm]

theorem toEmu_trapReturn {c : Csrs} (h : c.mstatus &&& mstatusMask = c.mstatus) :
    c.trapReturn.toEmu = c.toEmu.mret := by
  have hm : ∀ u a b p t : Bool,
      (if u then
        setBit (setBit (setBit (mstatusOf a b p t) 3 ((mstatusOf a b p t).getLsbD 7)) 7 true)
          17 false
        else setBit (setBit (mstatusOf a b p t) 3 ((mstatusOf a b p t).getLsbD 7)) 7 true) =
      let m := mstatusOf a b p t &&& (Emu.mstatusMprv ||| Emu.mstatusTw) |||
        (Emu.mstatusMpie ||| if mstatusOf a b p t &&& Emu.mstatusMpie ≠ 0#32 then Emu.mstatusMie
          else 0#32)
      if u then m &&& ~~~Emu.mstatusMprv else m := by decide
  unfold trapReturn Emu.Csrs.mret toEmu
  dsimp only
  rw [eq_mstatusOf h, hm]

theorem toNat_csr (addr : BitVec 12) : (addr.setWidth 16).toNat = addr.toNat := by
  have := addr.isLt
  rw [BitVec.toNat_setWidth, Nat.mod_eq_of_lt (by omega)]

theorem toEmu_read (c : Csrs) (addr : BitVec 12) (l : Lines) (mtime : BitVec 64) :
    c.toEmu.read (addr.setWidth 16) l.mip mtime = c.read addr l mtime := by
  have hlow : ∀ x : BitVec 64, x.setWidth 32 = x.extractLsb' 0 32 := by
    intro x
    apply BitVec.eq_of_toNat_eq
    simp
  unfold Emu.Csrs.read read
  rw [toNat_csr]
  simp only [hlow]
  rfl

theorem setLow_eq (x : BitVec 64) (v : Word) :
    setLow x v = x &&& ~~~0xFFFFFFFF#64 ||| v.setWidth 64 := by
  apply BitVec.eq_of_getLsbD_eq
  intro j hj
  unfold setLow
  rw [BitVec.getLsbD_append, BitVec.getLsbD_or, BitVec.getLsbD_and, BitVec.getLsbD_setWidth]
  by_cases h : j < 32
  · have hm : (~~~0xFFFFFFFF#64).getLsbD j = false := by
      interval_cases j <;> decide
    simp only [h, hj, hm, decide_true, Bool.and_false, Bool.false_or, Bool.true_and, if_true]
  · have hm : (~~~0xFFFFFFFF#64).getLsbD j = true := by
      interval_cases j <;> first | omega | decide
    have hv : v.getLsbD j = false := BitVec.getLsbD_of_ge v j (by omega)
    have hlt : j - 32 < 32 := by omega
    have hj' : 32 + (j - 32) = j := by omega
    simp only [h, hm, hv, hlt, hj', BitVec.getLsbD_extractLsb', decide_true,
      Bool.and_true, Bool.and_false, Bool.or_false, Bool.true_and, if_false]

theorem setHigh_eq (x : BitVec 64) (v : Word) :
    setHigh x v = x &&& 0xFFFFFFFF#64 ||| v.setWidth 64 <<< 32 := by
  apply BitVec.eq_of_getLsbD_eq
  intro j hj
  unfold setHigh
  rw [BitVec.getLsbD_append, BitVec.getLsbD_or, BitVec.getLsbD_and, BitVec.getLsbD_shiftLeft,
    BitVec.getLsbD_setWidth]
  by_cases h : j < 32
  · have hm : (0xFFFFFFFF#64).getLsbD j = true := by
      interval_cases j <;> decide
    simp only [h, hm, hj, decide_true, Bool.and_true, Bool.not_true, Bool.and_false,
      Bool.false_and, Bool.or_false, Bool.true_and, if_true, BitVec.getLsbD_extractLsb', zero_add]
  · have hm : (0xFFFFFFFF#64).getLsbD j = false := by
      interval_cases j <;> first | omega | decide
    have hlt : j - 32 < 64 := by omega
    simp only [h, hm, hj, hlt, decide_true, decide_false, Bool.and_false, Bool.false_or,
      Bool.true_and, Bool.not_false, if_false]

/-- The write of a CSR other than `mstatus`. -/
theorem toEmu_write (c : Csrs) {addr : BitVec 12} (h : addr ≠ 0x300#12) (v : Word) :
    (c.write addr v).toEmu = c.toEmu.write (addr.setWidth 16) v := by
  have hne : addr.toNat ≠ 0x300 := by
    intro heq
    exact h (BitVec.eq_of_toNat_eq heq)
  -- the emulator's match is out of sight of the first `split`
  generalize hw : c.toEmu.write (addr.setWidth 16) v = w
  unfold Emu.Csrs.write at hw
  rw [toNat_csr] at hw
  unfold write
  simp only [setLow_eq, setHigh_eq]
  generalize addr.toNat = n at hne hw
  split
  case h_1 => exact absurd rfl hne
  case h_12 =>
    split at hw
    case h_12 => exact hw
    all_goals contradiction
  all_goals exact hw

theorem toEmu_write_mstatus (c : Csrs) (v : Word) :
    (c.write 0x300#12 v).toEmu = (c.toEmu.write 0x300#16 v).writeMpp v := by
  have hm : v &&& 0x00220088#32 =
      v &&& (Emu.mstatusMie ||| Emu.mstatusMpie) ||| v &&& (Emu.mstatusMprv ||| Emu.mstatusTw) := by
    rw [← BitVec.and_or_distrib_left]
    rfl
  have hmpp : (v.extractLsb' 11 2 ≠ 0b11#2) = (v >>> 11 &&& 3#32 ≠ 3#32) := by
    have hx : v >>> 11 &&& 3#32 = (v.extractLsb' 11 2).setWidth 32 := by
      rw [show (3#32) = BitVec.ofNat 32 (2 ^ 2 - 1) from rfl, and_low _ 2 (by decide)]
      rfl
    rw [hx]
    generalize v.extractLsb' 11 2 = x
    revert x
    decide
  change toEmu { c with mstatus := v &&& 0x00220088#32, mppU := v.extractLsb' 11 2 ≠ 0b11#2 } = _
  rw [hm]
  simp only [hmpp]
  rfl

/-- **The same interrupt is pending.** -/
theorem toEmu_pendingInterrupt (c : Csrs) (l : Lines) : c.toEmu.pendingInterrupt l.mip =
    if c.irqPending l then some (c.irqCause l) else none := by
  have hb : ∀ (x : Word) (n : ℕ), n < 32 → (x &&& 1#32 <<< n ≠ 0#32) = (x.getLsbD n = true) := by
    intro x n hn
    rw [← BitVec.twoPow_eq, BitVec.and_twoPow]
    by_cases h : x.getLsbD n = true
    · simp only [h, if_true, eq_iff_iff, iff_true]
      intro h0
      have := congrArg BitVec.toNat h0
      rw [BitVec.toNat_twoPow_of_lt hn] at this
      exact absurd this (Nat.two_pow_pos n).ne'
    · simp [h]
  unfold Emu.Csrs.pendingInterrupt Emu.Csrs.interruptsOn irqPending irqCause pending Emu.mstatusMie
    Emu.mipMeip Emu.mipMsip Emu.mipMtip
  simp only [hb _ 3 (by decide), hb _ 7 (by decide), hb _ 11 (by decide)]
  unfold toEmu
  dsimp only
  generalize (c.mie &&& l.mip).getLsbD 3 = p3
  generalize (c.mie &&& l.mip).getLsbD 7 = p7
  generalize (c.mie &&& l.mip).getLsbD 11 = p11
  generalize c.mstatus.getLsbD 3 = m3
  generalize c.privU = u
  cases u <;> cases m3 <;> cases p11 <;> cases p3 <;> cases p7 <;> rfl

end Rtl.Csrs

end Vux9k

import Vux9k.Emu.Timer
import Vux9k.Rtl.Timer

/-!
# The emulator's timer is the RTL's

One operation of the CPU in each cycle at most, at any offset: the emulator applies the writes only,
`timer_core` runs in every cycle.
-/

set_option autoImplicit false

namespace Vux9k

open Emu (Stepped Timer Clint)
open Rtl (TimerCore TimerIn timerReg)

/-! ## The map of the registers -/

/-- The RTL's name of a register. -/
def timerRegOf : Emu.TimerReg → Rtl.TimerReg
  | .mtimeLo => .mtimeLo
  | .mtimeHi => .mtimeHi
  | .mtimecmpLo => .mtimecmpLo
  | .mtimecmpHi => .mtimecmpHi

theorem clint_offset (addr : Word) :
    addr &&& 0xFFFC#32 = (addr.extractLsb' 2 14 ++ 0#2).setWidth 32 := by
  apply BitVec.eq_of_getLsbD_eq
  intro j hj
  simp only [BitVec.getLsbD_and, BitVec.getLsbD_setWidth, BitVec.getLsbD_append,
    BitVec.getLsbD_extractLsb']
  interval_cases j <;> simp

/-- Both decode the address alike. -/
theorem timerReg_eq (addr : Word) : timerReg (addr.extractLsb' 0 16) =
    if addr &&& 0xFFFC#32 = 0x0000#32 then some .msip
    else (Emu.clintReg (addr &&& 0xFFFC#32)).map timerRegOf := by
  have h14 : (addr.extractLsb' 0 16).extractLsb' 2 14 = addr.extractLsb' 2 14 := by
    apply BitVec.eq_of_getLsbD_eq
    intro j hj
    simp only [BitVec.getLsbD_extractLsb', hj, decide_true, Bool.true_and, zero_add]
    rw [decide_eq_true (by omega : 2 + j < 16), Bool.true_and]
  have h13 :
      (addr.extractLsb' 0 16).extractLsb' 3 13 = (addr.extractLsb' 2 14).extractLsb' 1 13 := by
    apply BitVec.eq_of_getLsbD_eq
    intro j hj
    simp only [BitVec.getLsbD_extractLsb', hj, decide_true, Bool.true_and, zero_add]
    rw [decide_eq_true (by omega : 3 + j < 16), decide_eq_true (by omega : 1 + j < 14),
      Bool.true_and, Bool.true_and]
    congr 1
    omega
  have h2 : (addr.extractLsb' 0 16).getLsbD 2 = (addr.extractLsb' 2 14).getLsbD 0 := by simp
  rw [clint_offset, timerReg, h14, h13, h2]
  generalize addr.extractLsb' 2 14 = word
  have hcases : word = 0#14 ∨ word = 0x1000#14 ∨ word = 0x1001#14 ∨ word = 0x2FFE#14 ∨
      word = 0x2FFF#14 ∨ (word ≠ 0#14 ∧ word.extractLsb' 1 13 ≠ 0x800#13 ∧
        word.extractLsb' 1 13 ≠ 0x17FF#13) := by
    have hlt := word.isLt
    simp only [ne_eq, ← BitVec.toNat_inj, BitVec.extractLsb'_toNat, BitVec.toNat_ofNat,
      Nat.shiftRight_eq_div_pow]
    omega
  rcases hcases with rfl | rfl | rfl | rfl | rfl | ⟨h0, hcmp, htime⟩
  · rfl
  · rfl
  · rfl
  · rfl
  · rfl
  · have hoff : (BitVec.setWidth 32 (word ++ 0#2)).toNat = word.toNat * 4 := by
      rw [BitVec.toNat_setWidth, BitVec.toNat_append, BitVec.toNat_zero, Nat.or_zero,
        Nat.shiftLeft_eq]
      have := word.isLt
      omega
    have hmsip : (0x0000#16).extractLsb' 2 14 = 0#14 := rfl
    have hcmp' : (0x4000#16).extractLsb' 3 13 = 0x800#13 := rfl
    have htime' : (0xBFF8#16).extractLsb' 3 13 = 0x17FF#13 := rfl
    simp only [ne_eq, ← BitVec.toNat_inj, BitVec.extractLsb'_toNat, BitVec.toNat_ofNat,
      Nat.shiftRight_eq_div_pow] at h0 hcmp htime
    have hnone : Emu.clintReg (BitVec.setWidth 32 (word ++ 0#2)) = none := by
      unfold Emu.clintReg
      rw [hoff]
      split
      all_goals first
        | rfl
        | omega
    rw [hmsip, hcmp', htime', hnone]
    simp only [← BitVec.toNat_inj, BitVec.extractLsb'_toNat, BitVec.toNat_ofNat,
      Nat.shiftRight_eq_div_pow, hoff]
    rw [if_neg (by omega), if_neg (by omega), if_neg (by omega)]
    rfl

/-! ## The values of a cycle -/

namespace Emu.Stepped

variable {α : Type} (s : Stepped α)

theorem atCycle_of_le {c : ℕ} (h : s.start ≤ c) : s.atCycle c = s.new := if_pos h

theorem atCycle_set (c : ℕ) (v : α) : (s.set (c + 1) v).atCycle (c + 1) = v := if_pos le_rfl

/-- A change at the end of `c` is not to be seen in `c`. -/
theorem atCycle_set_before (c : ℕ) (v : α) : (s.set (c + 1) v).atCycle c = s.atCycle c :=
  if_neg (Nat.not_le.mpr c.lt_succ_self)

end Emu.Stepped

/-- An operation of the CPU. -/
inductive ClintOp : Type
  | read (addr : Word)
  | write (addr data : Word)

/-- The operation as `timer_core` sees it; in a cycle without one there is some address. -/
def ClintOp.input (idle : BitVec 16) : Option ClintOp → TimerIn
  | none => ⟨idle, 0#32, false⟩
  | some (.read addr) => ⟨addr.extractLsb' 0 16, 0#32, false⟩
  | some (.write addr data) => ⟨addr.extractLsb' 0 16, data, true⟩

/-- The operation in the emulator: only a write changes anything. -/
def ClintOp.apply (s : Clint) (c : ℕ) : Option ClintOp → Clint
  | some (.write addr data) => s.write addr data c
  | _ => s

/-- The emulator after the operations of the first `n` cycles. -/
def clintAfter (ops : ℕ → Option ClintOp) : ℕ → Clint
  | 0 => .default
  | n + 1 => ClintOp.apply (clintAfter ops n) n (ops n)

/-- The values of cycle `c` on both sides. -/
structure ClintAgrees (s : Clint) (t : TimerCore) (c : ℕ) : Prop where
  offsetStart : s.timer.offset.start ≤ c
  cmpStart : s.timer.mtimecmp.start ≤ c
  msipStart : s.msip.start ≤ c
  mtime : s.timer.mtime c = t.mtime
  mtimecmp : s.timer.mtimecmp.atCycle c = t.mtimecmp
  msip : s.msip.atCycle c = t.msip
  irq : s.timer.irq c = t.timerIrq

/-- A low half written, as `timer.rs` masks it and as the RTL concatenates it. -/
theorem high_or (x : BitVec 64) (v : Word) :
    x &&& ~~~0xFFFFFFFF#64 ||| v.setWidth 64 = x.extractLsb' 32 32 ++ v := by
  have hmask : 0xFFFFFFFF#64 = (BitVec.allOnes 32).setWidth 64 := rfl
  rw [hmask]
  apply BitVec.eq_of_getLsbD_eq
  intro j hj
  simp only [BitVec.getLsbD_or, BitVec.getLsbD_and, BitVec.getLsbD_not, BitVec.getLsbD_setWidth,
    BitVec.getLsbD_allOnes, BitVec.getLsbD_append, BitVec.getLsbD_extractLsb']
  by_cases h32 : j < 32
  · simp [h32, hj]
  · simp [h32, hj, BitVec.getLsbD_of_ge v j (by omega), show 32 + (j - 32) = j by omega,
      show j - 32 < 32 by omega]

/-- A high half. -/
theorem or_low (x : BitVec 64) (v : Word) :
    v.setWidth 64 <<< 32 ||| x &&& 0xFFFFFFFF#64 = v ++ x.extractLsb' 0 32 := by
  have hmask : 0xFFFFFFFF#64 = (BitVec.allOnes 32).setWidth 64 := rfl
  rw [hmask]
  apply BitVec.eq_of_getLsbD_eq
  intro j hj
  simp only [BitVec.getLsbD_or, BitVec.getLsbD_and, BitVec.getLsbD_shiftLeft,
    BitVec.getLsbD_setWidth,
    BitVec.getLsbD_allOnes, BitVec.getLsbD_append, BitVec.getLsbD_extractLsb']
  by_cases h32 : j < 32
  · simp [h32, hj]
  · simp [h32, hj, show j - 32 < 64 by omega]

namespace ClintAgrees

variable {s s' : Clint} {t t' : TimerCore} {c : ℕ}

/-- The interrupt of the next cycle compares the values of this one. -/
theorem irq_next (h : ClintAgrees s t c) (hmtime : s'.timer.mtime c = s.timer.mtime c)
    (hcmp : s'.timer.mtimecmp.atCycle c = s.timer.mtimecmp.atCycle c)
    (hirq : t'.timerIrq = decide (t.mtimecmp ≤ t.mtime)) : s'.timer.irq (c + 1) = t'.timerIrq := by
  rw [Timer.irq, Nat.add_sub_cancel, hmtime, hcmp, h.mtime, h.mtimecmp, hirq,
    decide_eq_true c.succ_pos, Bool.true_and]

theorem mtime_next (h : ClintAgrees s t c) : s.timer.mtime (c + 1) = t.mtime + 1#64 := by
  have h₁ := s.timer.offset.atCycle_of_le h.offsetStart
  have h₂ := s.timer.offset.atCycle_of_le (Nat.le_succ_of_le h.offsetStart)
  rw [← h.mtime, Timer.mtime, Timer.mtime, h₁, h₂, BitVec.ofNat_add, BitVec.add_assoc,
    BitVec.add_comm 1#64, BitVec.add_assoc]

theorem cmp_next (h : ClintAgrees s t c) : s.timer.mtimecmp.atCycle (c + 1) = t.mtimecmp := by
  rw [← h.mtimecmp, s.timer.mtimecmp.atCycle_of_le h.cmpStart,
    s.timer.mtimecmp.atCycle_of_le (Nat.le_succ_of_le h.cmpStart)]

theorem msip_next (h : ClintAgrees s t c) : s.msip.atCycle (c + 1) = t.msip := by
  rw [← h.msip, s.msip.atCycle_of_le h.msipStart,
    s.msip.atCycle_of_le (Nat.le_succ_of_le h.msipStart)]

/-- A cycle that writes no register. -/
theorem unwritten (h : ClintAgrees s t c) (i : TimerIn)
    (hi : i.we = true → timerReg i.addr = none) :
    ClintAgrees s (t.tick i) (c + 1) := by
  have hreg : ∀ r, ¬(i.we = true ∧ timerReg i.addr = some r) := by
    rintro r ⟨hwe, hr⟩
    rw [hi hwe] at hr
    cases hr
  constructor
  case offsetStart => exact Nat.le_succ_of_le h.offsetStart
  case cmpStart => exact Nat.le_succ_of_le h.cmpStart
  case msipStart => exact Nat.le_succ_of_le h.msipStart
  case mtime =>
    rw [h.mtime_next, TimerCore.tick]
    dsimp only
    rw [if_neg (hreg _), if_neg (hreg _)]
  case mtimecmp =>
    rw [h.cmp_next, TimerCore.tick]
    dsimp only
    rw [if_neg (hreg _), if_neg (hreg _)]
  case msip =>
    rw [h.msip_next, TimerCore.tick]
    dsimp only
    rw [if_neg (hreg _)]
  case irq => exact h.irq_next rfl rfl rfl

/-- A write of msip. -/
theorem set_msip (h : ClintAgrees s t c) {v : Bool} (hmsip : t'.msip = v)
    (hmtime : t'.mtime = t.mtime + 1#64) (hcmp : t'.mtimecmp = t.mtimecmp)
    (hirq : t'.timerIrq = decide (t.mtimecmp ≤ t.mtime)) :
    ClintAgrees { s with msip := s.msip.set (c + 1) v } t' (c + 1) where
  offsetStart := Nat.le_succ_of_le h.offsetStart
  cmpStart := Nat.le_succ_of_le h.cmpStart
  msipStart := le_rfl
  mtime := h.mtime_next.trans hmtime.symm
  mtimecmp := h.cmp_next.trans hcmp.symm
  msip := (Stepped.atCycle_set _ _ _).trans hmsip.symm
  irq := h.irq_next rfl rfl hirq

/-- A write of mtime. -/
theorem set_mtime (h : ClintAgrees s t c) {v : BitVec 64} (hmtime : t'.mtime = v)
    (hcmp : t'.mtimecmp = t.mtimecmp) (hmsip : t'.msip = t.msip)
    (hirq : t'.timerIrq = decide (t.mtimecmp ≤ t.mtime)) :
    ClintAgrees { s with timer := s.timer.setMtime (c + 1) v } t' (c + 1) where
  offsetStart := le_rfl
  cmpStart := Nat.le_succ_of_le h.cmpStart
  msipStart := Nat.le_succ_of_le h.msipStart
  mtime := by
    rw [Timer.mtime, Timer.setMtime, Stepped.atCycle_set, BitVec.add_comm, BitVec.sub_add_cancel,
      hmtime]
  mtimecmp := h.cmp_next.trans hcmp.symm
  msip := h.msip_next.trans hmsip.symm
  irq := h.irq_next
    (by rw [Timer.mtime, Timer.mtime, Timer.setMtime, Stepped.atCycle_set_before]) rfl hirq

/-- A write of mtimecmp. -/
theorem set_mtimecmp (h : ClintAgrees s t c) {v : BitVec 64} (hcmp : t'.mtimecmp = v)
    (hmtime : t'.mtime = t.mtime + 1#64) (hmsip : t'.msip = t.msip)
    (hirq : t'.timerIrq = decide (t.mtimecmp ≤ t.mtime)) :
    ClintAgrees { s with timer := { s.timer with mtimecmp := s.timer.mtimecmp.set (c + 1) v } } t'
      (c + 1) where
  offsetStart := Nat.le_succ_of_le h.offsetStart
  cmpStart := le_rfl
  msipStart := Nat.le_succ_of_le h.msipStart
  mtime := h.mtime_next.trans hmtime.symm
  mtimecmp := (Stepped.atCycle_set _ _ _).trans hcmp.symm
  msip := h.msip_next.trans hmsip.symm
  irq := h.irq_next rfl (Stepped.atCycle_set_before _ _ _) hirq

/-- A write of a half of mtime or mtimecmp. -/
theorem write_timer (h : ClintAgrees s t c) (addr : BitVec 16) (data : Word) (r : Emu.TimerReg)
    (hreg : timerReg addr = some (timerRegOf r)) :
    ClintAgrees { s with timer := s.timer.write r data c } (t.tick ⟨addr, data, true⟩) (c + 1) := by
  cases r with
  | mtimeLo =>
    refine h.set_mtime ?_ ?_ ?_ rfl
    · rw [high_or, h.mtime]
      simp [TimerCore.tick, hreg, timerRegOf]
    all_goals simp [TimerCore.tick, hreg, timerRegOf]
  | mtimeHi =>
    refine h.set_mtime ?_ ?_ ?_ rfl
    · rw [or_low, h.mtime]
      simp [TimerCore.tick, hreg, timerRegOf]
    all_goals simp [TimerCore.tick, hreg, timerRegOf]
  | mtimecmpLo =>
    refine h.set_mtimecmp ?_ ?_ ?_ rfl
    · rw [high_or, h.mtimecmp]
      simp [TimerCore.tick, hreg, timerRegOf]
    all_goals simp [TimerCore.tick, hreg, timerRegOf]
  | mtimecmpHi =>
    refine h.set_mtimecmp ?_ ?_ ?_ rfl
    · rw [BitVec.or_comm, or_low, h.mtimecmp]
      simp [TimerCore.tick, hreg, timerRegOf]
    all_goals simp [TimerCore.tick, hreg, timerRegOf]

/-- A write at any offset. -/
theorem write (h : ClintAgrees s t c) (addr data : Word) :
    ClintAgrees (s.write addr data c) (t.tick ⟨addr.extractLsb' 0 16, data, true⟩) (c + 1) := by
  have hreg := timerReg_eq addr
  unfold Clint.write
  dsimp only
  by_cases hmsip : addr &&& 0xFFFC#32 = 0x0000#32
  · rw [if_pos hmsip] at hreg ⊢
    refine h.set_msip ?_ ?_ ?_ rfl
    · have hbit : decide (data &&& 1#32 ≠ 0#32) = data.getLsbD 0 := by
        rw [BitVec.and_one_eq_setWidth_ofBool_getLsbD]
        cases data.getLsbD 0 <;> rfl
      rw [hbit]
      simp [TimerCore.tick, hreg]
    all_goals simp [TimerCore.tick, hreg]
  · rw [if_neg hmsip] at hreg ⊢
    cases hr : Emu.clintReg (addr &&& 0xFFFC#32) with
    | none =>
      rw [hr] at hreg
      exact h.unwritten _ fun _ ↦ hreg
    | some r =>
      rw [hr] at hreg
      exact h.write_timer _ data r hreg

/-- **A cycle.** -/
theorem next (h : ClintAgrees s t c) (idle : BitVec 16) (op : Option ClintOp) :
    ClintAgrees (ClintOp.apply s c op) (t.tick (ClintOp.input idle op)) (c + 1) := by
  rcases op with _ | ⟨addr⟩ | ⟨addr, data⟩
  · exact h.unwritten _ (by rintro ⟨⟩)
  · exact h.unwritten _ (by rintro ⟨⟩)
  · exact h.write addr data

theorem reset : ClintAgrees .default .reset 0 := ⟨le_rfl, le_rfl, le_rfl, rfl, rfl, rfl, rfl⟩

/-- What a read of the address gives. -/
theorem read (h : ClintAgrees s t c) (addr : Word) :
    s.read addr c = t.read (timerReg (addr.extractLsb' 0 16)) := by
  rw [timerReg_eq]
  unfold Clint.read
  dsimp only
  by_cases hmsip : addr &&& 0xFFFC#32 = 0x0000#32
  · rw [if_pos hmsip, if_pos hmsip, h.msip, TimerCore.read]
    cases t.msip <;> rfl
  · rw [if_neg hmsip, if_neg hmsip]
    have hhigh : ∀ x : BitVec 64, (x >>> 32).setWidth 32 = x.extractLsb' 32 32 := fun _ ↦ rfl
    have hlow : ∀ x : BitVec 64, x.setWidth 32 = x.extractLsb' 0 32 := fun x ↦
      BitVec.eq_of_toNat_eq (by simp [BitVec.extractLsb'_toNat])
    rcases Emu.clintReg (addr &&& 0xFFFC#32) with _ | r
    · rfl
    · cases r <;> simp only [Option.map_some, Option.getD_some, timerRegOf, Timer.read,
        TimerCore.read, h.mtime, h.mtimecmp, hhigh, hlow]

end ClintAgrees

/-- The cycle has a write. -/
def ClintOp.IsWrite : Option ClintOp → Prop
  | some (.write _ _) => True
  | _ => False

section

variable (ops : ℕ → Option ClintOp) (idle : ℕ → BitVec 16)

/-- `timer_core` after `n` cycles. -/
def timerAfter (n : ℕ) : TimerCore :=
  TimerCore.run (fun k ↦ ClintOp.input (idle k) (ops k)) .reset n

theorem clintAgrees_after (n : ℕ) : ClintAgrees (clintAfter ops n) (timerAfter ops idle n) n := by
  induction n with
  | zero => exact .reset
  | succ n ih => exact ih.next (idle n) (ops n)

/-- Nothing but a write changes the emulator's state. -/
theorem clintAfter_of_no_write {k c : ℕ} (hkc : k ≤ c)
    (hno : ∀ j, k ≤ j → j < c → ¬ClintOp.IsWrite (ops j)) :
    clintAfter ops c = clintAfter ops k := by
  induction c, hkc using Nat.le_induction with
  | base => rfl
  | succ c hkc ih =>
    rw [clintAfter, ih fun j hkj hjc ↦ hno j hkj (by omega)]
    have hc := hno c hkc (by omega)
    rcases hop : ops c with _ | ⟨addr⟩ | ⟨addr, data⟩
    · rfl
    · rfl
    · rw [hop] at hc
      exact absurd trivial hc

/-- **The emulator's timer and CLINT are `timer_core`.**  After any operations in the cycles before
`k`, asked for any cycle `c` that no later write comes before. -/
theorem clint_matches_timer_core {k c : ℕ} (hkc : k ≤ c)
    (hno : ∀ j, k ≤ j → j < c → ¬ClintOp.IsWrite (ops j)) {s : Clint} (hs : clintAfter ops k = s)
    {t : TimerCore} (ht : timerAfter ops idle c = t) :
    s.timer.mtime c = t.mtime ∧ s.timer.mtimecmp.atCycle c = t.mtimecmp ∧
      s.msip.atCycle c = t.msip ∧ s.timer.irq c = t.timerIrq ∧
      ∀ addr, ops c = some (.read addr) →
        s.read addr c = (timerAfter ops idle (c + 1)).dataOut := by
  have h := clintAgrees_after ops idle c
  rw [clintAfter_of_no_write ops hkc hno, hs, ht] at h
  refine ⟨h.mtime, h.mtimecmp, h.msip, h.irq, fun addr hop ↦ ?_⟩
  rw [h.read, timerAfter, TimerCore.run, ← timerAfter, ht, hop]
  rfl

end

/-- mtime is set to its last value before the wrap-around, mtimecmp to one, and mtime is read. -/
def wrapOps : ℕ → Option ClintOp
  | 0 => some (.write 0x2000BFF8#32 0xFFFFFFFD#32)
  | 1 => some (.write 0x2000BFFC#32 0xFFFFFFFF#32)
  | 2 => some (.write 0x20004004#32 0#32)
  | 3 => some (.write 0x20004000#32 1#32)
  | 5 => some (.read 0x2000BFF8#32)
  | _ => none

theorem clint_matches_timer_core_wrap :
    (clintAfter wrapOps 4).timer.mtime 5 = (timerAfter wrapOps (fun _ ↦ 0#16) 5).mtime ∧
      (timerAfter wrapOps (fun _ ↦ 0#16) 5).mtime = 1#64 ∧
      (clintAfter wrapOps 4).timer.irq 5 = false ∧ (clintAfter wrapOps 4).timer.irq 6 = true := by
  obtain ⟨hmtime, -, -, hirq, -⟩ :=
    clint_matches_timer_core wrapOps (fun _ ↦ 0#16) (k := 4) (c := 5)
    (by decide) (fun j hj hj' ↦ by
      obtain rfl : j = 4 := by omega
      exact id) rfl rfl
  exact ⟨hmtime, by decide +kernel, hirq.trans (by decide +kernel), by decide +kernel⟩

end Vux9k

import Vux9k.Lockstep.Mmio

/-!
# The cycles of the RTL's MMIO accesses

The accesses of a run of `soc_top`, in the terms of the emulator's log.  An instruction whose
address is that of a peripheral waits for nothing, so the cycle of each of its accesses follows from
the state of the CPU that makes it.
-/

set_option autoImplicit false

namespace Vux9k

open Emu (Peripheral Peripherals Outside Logged MmioAccess Soc Bus Retire)
open Rtl (SocTop SocIn Cpu CpuIn Device)
open Rtl.SocTop (run Reachable Instruction)

/-! ## The accesses of a run -/

/-- The cycle whose state a read returns that completes in cycle `k`: `uart_regs` answers in the
cycle itself, the other blocks register `data_out` at the end of the cycle before. -/
def sampled (k : ℕ) : Peripheral → ℕ
  | .uart => k
  | _ => k - 1

/-- The read that completes in cycle `k`. -/
def mmioReads (s : SocTop) (i : SocIn) (k : ℕ) : List MmioAccess :=
  if s.memReadReq i then (s.last.bind peripheralOf).toList.map fun d ↦ .read d (sampled k d) else []

/-- The write that takes effect at the end of cycle `k`: `timer_we` and its like. -/
def mmioWrites (s : SocTop) (k : ℕ) : List MmioAccess :=
  if s.cpu.memWrite then (s.wsel.bind peripheralOf).toList.map (.write · k) else []

/-- The accesses of the first `n` cycles. -/
def mmioIn (inp : ℕ → SocIn) (s : SocTop) : ℕ → List MmioAccess
  | 0 => []
  | n + 1 => mmioIn inp s n ++ (mmioReads (run inp s n) (inp n) n ++ mmioWrites (run inp s n) n)

section

variable {inp : ℕ → SocIn} {s : SocTop} {m n : ℕ}

theorem mmioIn_of_quiet {a b : ℕ} (hab : a ≤ b) (hq : ∀ k, a ≤ k → k < b →
    mmioReads (run inp s k) (inp k) k ++ mmioWrites (run inp s k) k = []) :
    mmioIn inp s b = mmioIn inp s a := by
  induction b, hab using Nat.le_induction with
  | base => rfl
  | succ b hab ih =>
    rw [mmioIn, hq b hab (by omega), List.append_nil]
    exact ih fun k hak hkb ↦ hq k hak (by omega)

/-- Only one cycle has accesses. -/
theorem mmioIn_one {r : ℕ} (hrn : r < n) (hq : ∀ k < n, k ≠ r →
    mmioReads (run inp s k) (inp k) k ++ mmioWrites (run inp s k) k = []) :
    mmioIn inp s n = mmioReads (run inp s r) (inp r) r ++ mmioWrites (run inp s r) r := by
  rw [mmioIn_of_quiet (a := r + 1) hrn fun k hk hkn ↦ hq k hkn (by omega), mmioIn,
    mmioIn_of_quiet (Nat.zero_le r) fun k _ hkr ↦ hq k (by omega) (by omega)]
  rfl

/-- Only two cycles have accesses. -/
theorem mmioIn_two {r w : ℕ} (hrw : r < w) (hwn : w < n) (hq : ∀ k < n, k ≠ r → k ≠ w →
    mmioReads (run inp s k) (inp k) k ++ mmioWrites (run inp s k) k = []) :
    mmioIn inp s n = mmioReads (run inp s r) (inp r) r ++ mmioWrites (run inp s r) r ++
      (mmioReads (run inp s w) (inp w) w ++ mmioWrites (run inp s w) w) := by
  rw [mmioIn_of_quiet (a := w + 1) hwn fun k hk hkn ↦ hq k hkn (by omega) (by omega), mmioIn,
    mmioIn_one hrw fun k hk hkr ↦ hq k (by omega) hkr (by omega)]

/-! ## An instruction's accesses -/

/-- The peripheral at the address of the instruction in EXECUTE. -/
def selects (x : Cpu) : Option Peripheral :=
  (Rtl.decode (!x.isRiscvMode) x.dataAddr).bind peripheralOf

theorem quiet_fetch_cycle (hs : Reachable s) {k : ℕ} (hk : (run inp s k).cpu.state = .fetch) :
    mmioReads (run inp s k) (inp k) k ++ mmioWrites (run inp s k) k = [] := by
  obtain ⟨hread, hwrite⟩ := ((hs.run inp k).inv).quiet_fetch (i := inp k) hk
  rw [mmioReads, mmioWrites, hread, hwrite]
  rfl

/-- A read is of the instruction's address. -/
theorem mmioReads_eq (h : Instruction inp s m n) (hs : Reachable s) {k : ℕ} (hmk : m < k)
    (hkn : k < n) : mmioReads (run inp s k) (inp k) k =
      if (run inp s k).memReadReq (inp k) then (selects (run inp s (m + 1)).cpu).toList.map
        fun d ↦ .read d (sampled k d) else [] := by
  unfold mmioReads
  cases hreq : (run inp s k).memReadReq (inp k) with
  | false => rfl
  | true =>
    obtain ⟨hstate, htarget⟩ := SocTop.memReadReq_state hreq
    obtain ⟨hlast, -, -⟩ := (hs.run inp k).inv.selected hstate htarget
    have hread : (run inp s (m + 1)).cpu.dataRead = true := by
      by_contra hno
      have hnone := (h.reads hs).1 (Bool.eq_false_of_not_eq_true hno) k hmk hkn
      rw [hnone] at hreq
      cases hreq
    obtain ⟨r, -, -, -, haddr, huniq⟩ := (h.reads hs).2 hread
    obtain rfl := huniq k hmk hkn hreq
    rw [hlast, SocTop.sel, haddr, h.isRiscvMode hmk hkn]
    rfl

/-- A write is too; one that waits is to the window. -/
theorem mmioWrites_eq (h : Instruction inp s m n) (hs : Reachable s) {k : ℕ} (hmk : m < k)
    (hkn : k < n) : mmioWrites (run inp s k) k =
      if (run inp s k).cpu.memWrite && (run inp s k).dataReady (inp k) then
        (selects (run inp s (m + 1)).cpu).toList.map (.write · k) else [] := by
  unfold mmioWrites
  cases hwe : (run inp s k).cpu.memWrite with
  | false => rfl
  | true =>
    cases hready : (run inp s k).dataReady (inp k) with
    | false =>
      have hwsel : (run inp s k).wsel = some .xmem := by
        simp only [SocTop.dataReady, Bool.or_eq_false_iff, Bool.not_eq_false', Bool.and_eq_true,
          decide_eq_true_eq] at hready
        exact hready.1.2
      rw [hwsel]
      rfl
    | true =>
      have hstore : (run inp s (m + 1)).cpu.dataStore = true := by
        by_contra hno
        have hnone := (h.stores hs).1 (Bool.eq_false_of_not_eq_true hno) k hmk hkn
        rw [hwe, hready] at hnone
        cases hnone
      obtain ⟨r, -, -, -, -, haddr, huniq⟩ := (h.stores hs).2 hstore
      obtain rfl := huniq k hmk hkn (by rw [hwe, hready]; rfl)
      rw [SocTop.wsel, haddr, h.isRiscvMode hmk hkn]
      rfl

end

end Vux9k

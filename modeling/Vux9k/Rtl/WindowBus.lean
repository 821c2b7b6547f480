import Vux9k.Rtl.UartAccess
import Vux9k.Rtl.WindowTime
import Vux9k.Rtl.Transparent

/-!
# The window's bus

The requests to the memory controller and its answers, under any delays of the controller.  What a
cache may do on the bus is decided by the phase that the window is at, so that every rule of the bus
is a case analysis over `At`; that a line transfer makes one request is `token_once`, with the
request that is yet to be taken as the token.
-/

set_option autoImplicit false

namespace Vux9k.Rtl.Win

/-- A line transfer. -/
inductive Transfer : Type
  | ifill
  | writeBack
  | dfill
  deriving DecidableEq

namespace Phase

/-- The transfer that is under way. -/
def transfer : Phase → Option Transfer
  | .idle => none
  | .ifillReq | .ifill _ => some .ifill
  | .wbPrime | .wbReq | .wb _ _ => some .writeBack
  | .dfillReq | .dfill _ => some .dfill

/-- The transfer's request is raised. -/
def raised : Phase → Bool
  | .ifillReq | .wbReq | .dfillReq => true
  | _ => false

/-- It is yet to be taken. -/
def pending : Phase → Bool
  | .wbPrime => true
  | p => p.raised

end Phase

variable {s : Win} {i j : WinIn} {held : Option Access} {p : Phase}

/-! ## Requests -/

theorem At.valid (h : At s held p) (hf : s.Follows held i) : (s.req i).valid = p.raised := by
  cases h with
  | idle hi hd hb =>
    simp [Win.req, Bridge.req, bridgeIn, Icache.memSel, hi.state, Dcache.memSel_of_idle hd.state,
      Phase.raised]
  | ifillReq h hc hb => simp [h.req hf, hb.busy, Phase.raised]
  | ifill h hk hc hb hp => simp [h.req hf, hb, Phase.raised]
  | wbPrime h hc hp hb => simp [h.req hf, hp, Phase.raised]
  | wbReq h hc hp hq hb => simp [h.req hf, hp, hb.busy, Phase.raised]
  | wb h hpos hk hc hp hq hb hw => simp [h.req hf, hb, Phase.raised]
  | dfillReq h hc hb => simp [h.req hf, hb.busy, Phase.raised]
  | dfill h hk hc hb hp => simp [h.req hf, hb, Phase.raised]

theorem At.free (h : At s held p) (hp : p.raised = true) : s.Free := by
  cases h with
  | ifillReq h hc hb => exact hb
  | wbReq h hc hp hq hb => exact hb
  | dfillReq h hc hb => exact hb
  | _ => exact absurd hp nofun

/-- A request is taken where it is raised, if the controller is ready. -/
theorem At.taken (h : At s held p) (hf : s.Follows held i) :
    s.taken i = (p.raised && i.ctl.ready) := by
  rw [Win.taken, h.valid hf]
  cases hp : p.raised with
  | false => rfl
  | true => rw [(h.free hp).reqReady]

/-- The words that the controller has read or taken, as the caches count them. -/
structure Counts (s : Win) (i : WinIn) : Prop where
  icIdle : s.ic.state = .idle → s.ic.cnt = 0#3
  dcIdle : s.dc.state = .idle → s.dc.cnt = 0#3
  icRead : ∀ a n k, s.ps.burst = .read a n k → s.ic.wordWe (s.icIn i) = true → s.ic.cnt.toNat = k
  dcRead : ∀ a n k, s.ps.burst = .read a n k → s.dc.done (s.dcIn i) = true → s.dc.cnt.toNat = k
  dcFirst : s.taken i = true → (s.req i).we = true → s.dc.cnt.toNat = 0
  dcTake : ∀ a n k, s.ps.burst = .write a n k true → s.dc.cnt.toNat = k

theorem toNat_ofNat_three {k : ℕ} (hk : k < 8) : (BitVec.ofNat 3 k).toNat = k := by
  rw [BitVec.toNat_ofNat, Nat.mod_eq_of_lt hk]

theorem At.counts (h : At s held p) (hf : s.Follows held i) : Counts s i := by
  have hcalm : s.Free →
      (∀ a n k, s.ps.burst ≠ .read a n k) ∧ ∀ a n k t, s.ps.burst ≠ .write a n k t :=
    fun hb ↦ ⟨by simp [hb.burst], by simp [hb.burst]⟩
  have htk := h.taken hf
  cases h with
  | idle hi hd hb =>
    exact ⟨fun _ ↦ hi.cnt, fun _ ↦ hd.cnt, fun a n k h ↦ absurd h ((hcalm hb).1 a n k),
      fun a n k h ↦ absurd h ((hcalm hb).1 a n k), fun h ↦ absurd (h.symm.trans htk) nofun,
      fun a n k h ↦ absurd h ((hcalm hb).2 a n k _)⟩
  | ifillReq h hc hb =>
    exact ⟨fun _ ↦ hc, fun _ ↦ h.dc.cnt, fun a n k h ↦ absurd h ((hcalm hb).1 a n k),
      fun a n k h ↦ absurd h ((hcalm hb).1 a n k), fun _ hw ↦ by simp [h.req hf] at hw,
      fun a n k h ↦ absurd h ((hcalm hb).2 a n k _)⟩
  | ifill h hk hc hb hp =>
    refine ⟨by simp [h.state], fun _ ↦ h.dc.cnt, fun a n k hr _ ↦ ?_, fun a n k hr hd ↦ ?_,
      fun h ↦ absurd (h.symm.trans htk) nofun, fun a n k hr ↦ by simp [hp] at hr⟩
    · obtain ⟨-, -, rfl⟩ := Burst.read.inj (hp.symm.trans hr)
      rw [hc, toNat_ofNat_three hk]
    · rw [Dcache.done_of_idle h.dc.state] at hd
      exact absurd hd nofun
  | wbPrime h hc hp hb =>
    exact ⟨fun _ ↦ h.ic.cnt, fun _ ↦ hc, fun a n k h ↦ absurd h ((hcalm hb).1 a n k),
      fun a n k h ↦ absurd h ((hcalm hb).1 a n k), fun h ↦ absurd (h.symm.trans htk) nofun,
      fun a n k h ↦ absurd h ((hcalm hb).2 a n k _)⟩
  | wbReq h hc hp hq hb =>
    exact ⟨fun _ ↦ h.ic.cnt, fun _ ↦ hc, fun a n k h ↦ absurd h ((hcalm hb).1 a n k),
      fun a n k h ↦ absurd h ((hcalm hb).1 a n k), fun _ _ ↦ by rw [hc]; rfl,
      fun a n k h ↦ absurd h ((hcalm hb).2 a n k _)⟩
  | wb h hpos hk hc hp hq hb hw =>
    refine ⟨fun _ ↦ h.ic.cnt, by simp [h.state], fun a n k hr ↦ by simp [hw] at hr,
      fun a n k hr ↦ by simp [hw] at hr, fun h ↦ absurd (h.symm.trans htk) nofun,
      fun a n k hr ↦ ?_⟩
    obtain ⟨-, -, rfl, rfl⟩ := Burst.write.inj (hw.symm.trans hr)
    rw [Bool.toNat_true] at hc hk
    rw [hc, toNat_ofNat_three (by omega)]
    omega
  | dfillReq h hc hb =>
    exact ⟨fun _ ↦ h.ic.cnt, fun _ ↦ hc, fun a n k h ↦ absurd h ((hcalm hb).1 a n k),
      fun a n k h ↦ absurd h ((hcalm hb).1 a n k), fun _ hw ↦ by simp [h.req hf] at hw,
      fun a n k h ↦ absurd h ((hcalm hb).2 a n k _)⟩
  | dfill h hk hc hb hp =>
    refine ⟨fun _ ↦ h.ic.cnt, by simp [h.state], fun a n k hr hd ↦ ?_, fun a n k hr _ ↦ ?_,
      fun h ↦ absurd (h.symm.trans htk) nofun, fun a n k hr ↦ by simp [hp] at hr⟩
    · rw [Icache.wordWe_of_idle h.ic.state] at hd
      exact absurd hd nofun
    · obtain ⟨-, -, rfl⟩ := Burst.read.inj (hp.symm.trans hr)
      rw [hc, toNat_ofNat_three hk]

/-- A response reaches the side that the bridge serves, and that side only. -/
theorem At.answer (h : At s held p) (hr : s.ps.rspValid i.ctl = true) :
    s.br.busy = true ∧ s.ic.wordWe (s.icIn i) = !s.br.busyData ∧
      s.dc.done (s.dcIn i) = s.br.busyData := by
  have hfree : ¬ s.Free := fun hb ↦ absurd (hr.symm.trans hb.rspValid) nofun
  cases h with
  | ifill h hk hc hb hp =>
    rw [wordWe_eq, done_eq, hb, hr]
    simp [Icache.memSel, h.state]
  | wb h hpos hk hc hp hq hb hw =>
    rw [wordWe_eq, done_eq, hb, hr]
    simp [Dcache.memSel, h.state, hp]
  | dfill h hk hc hb hp =>
    rw [wordWe_eq, done_eq, hb, hr]
    simp [Dcache.memSel, h.state]
  | idle hi hd hb => exact absurd hb hfree
  | ifillReq h hc hb => exact absurd hb hfree
  | wbPrime h hc hp hb => exact absurd hb hfree
  | wbReq h hc hp hq hb => exact absurd hb hfree
  | dfillReq h hc hb => exact absurd hb hfree

/-! ## Soft resets -/

section

variable (inp : ℕ → WinIn) (s : Win)

/-- What the window is at after `n` cycles. -/
def phaseAt : ℕ → Phase
  | 0 => .idle
  | n + 1 => (phaseAt n).next (run inp s n) (inp n)

/-- The cycles from `m` up to `n` are a stay. -/
structure Stay (P : ℕ → Prop) (m n : ℕ) : Prop where
  start : m = 0 ∨ ¬ P (m - 1)
  lt : m < n
  stay : ∀ k, m ≤ k → k < n → P k
  stop : ¬ P n

end

variable {inp : ℕ → WinIn}

theorem Cleared.inv_run (h : s.Cleared) (hd : Driven inp s) (n : ℕ) :
    (run inp s n).Inv (Win.held inp s n) (phaseAt inp s n) := by
  induction n with
  | zero => exact h.runs.inv
  | succ n ih => exact ih.tick (hd n)

section

variable {t : Transfer}

end

theorem Stay.congr {P Q : ℕ → Prop} {m n : ℕ} (h : Stay P m n) (hpq : ∀ k, P k ↔ Q k) :
    Stay Q m n :=
  ⟨h.start.imp_right (mt (hpq _).mpr), h.lt, fun k h1 h2 ↦ (hpq k).mp (h.stay k h1 h2),
    mt (hpq n).mpr h.stop⟩

end Vux9k.Rtl.Win

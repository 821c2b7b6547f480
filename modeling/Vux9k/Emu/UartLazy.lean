import Mathlib.Data.List.Pairwise
import Mathlib.Data.List.TakeWhile
import Mathlib.Logic.Function.Iterate
import Mathlib.Order.Basic
import Vux9k.Emu.Uart

/-!
# The emulator's UART, cycle by cycle

`advance` goes from one edge at which something happens to the next.  `tick` is the same for a
single cycle, and `upTo` for all cycles up to a given one: `advance` is `upTo` but for the note of
when it has to look again.  So it does not matter how often the UART is advanced on the way.
-/

set_option autoImplicit false

namespace Vux9k.Emu.Uart

variable {u u' : Uart} {c t k q edge : ℕ}

/-- The clock and the note of `advance`, set. -/
def at_ (u : Uart) (k q : ℕ) : Uart := { u with now := k, quietUntil := q }

/-- The edge at the end of cycle `now`. -/
def tick (u : Uart) : Uart :=
  { u.applyEdge u.now (u.txPopEdge = some u.now) (u.rxPushEdge = some u.now) with now := u.now + 1 }

/-- All the edges before cycle `t`. -/
def upTo (u : Uart) (t : ℕ) : Uart := tick^[t - u.now] u

/-! ## What an edge depends on -/

theorem foldl_applyOp_at (ops : List CpuOp) (u : Uart) (k q : ℕ) :
    ops.foldl applyOp (u.at_ k q) = (ops.foldl applyOp u).at_ k q := by
  induction ops generalizing u with
  | nil => rfl
  | cons op ops ih =>
    have hop : (u.at_ k q).applyOp op = (u.applyOp op).at_ k q := by cases op <;> rfl
    rw [List.foldl_cons, List.foldl_cons, hop, ih]

theorem applyOps_at (u : Uart) (edge k q : ℕ) :
    applyOps edge (u.at_ k q) = (applyOps edge u).at_ k q :=
  foldl_applyOp_at ((u.cpuOps.takeWhile fun op : ℕ × CpuOp ↦ op.1 = edge).map Prod.snd)
    { u with cpuOps := u.cpuOps.dropWhile fun op ↦ op.1 = edge } k q

theorem popTx_at (u : Uart) (edge k q : ℕ) : (u.at_ k q).popTx edge = (u.popTx edge).at_ k q := by
  cases h : u.txFifo <;> simp [popTx, at_, h]

theorem popLine_at (u : Uart) (k q : ℕ) :
    (u.at_ k q).popLine = (u.popLine.1, u.popLine.2.at_ k q) := by
  cases h : u.rxLine <;> simp [popLine, at_, h]

/-- The UART after the transmitter's and the receiver's part of an edge, and the byte to be kept. -/
def lines (u : Uart) (edge : ℕ) (txPop rxPush : Bool) : Option Byte × Uart :=
  let rxFull : Bool := u.rxFifo.length = fifoDepth
  let u := if txPop then u.popTx edge else u
  let (arrived, u) := if rxPush then u.popLine else (none, u)
  (if rxFull then none else arrived,
    if arrived.isSome && rxFull then { u with rxDropped := u.rxDropped + 1 } else u)

theorem applyEdge_eq (u : Uart) (edge : ℕ) (txPop rxPush : Bool) :
    u.applyEdge edge txPop rxPush =
      { (u.lines edge txPop rxPush).2.applyOps edge with
        rxFifo := ((u.lines edge txPop rxPush).2.applyOps edge).rxFifo ++
          (u.lines edge txPop rxPush).1.toList } := rfl

theorem lines_at (u : Uart) (edge k q : ℕ) (txPop rxPush : Bool) :
    (u.at_ k q).lines edge txPop rxPush =
      ((u.lines edge txPop rxPush).1, (u.lines edge txPop rxPush).2.at_ k q) := by
  have hfull : (u.at_ k q).rxFifo = u.rxFifo := rfl
  cases txPop <;> cases rxPush <;>
    simp only [lines, hfull, popTx_at, popLine_at, if_true, if_false, Bool.false_eq_true] <;>
    split_ifs <;> rfl

/-- An edge does not depend on the clock. -/
theorem applyEdge_at (u : Uart) (edge k q : ℕ) (txPop rxPush : Bool) :
    (u.at_ k q).applyEdge edge txPop rxPush = (u.applyEdge edge txPop rxPush).at_ k q := by
  rw [applyEdge_eq, lines_at, applyOps_at, applyEdge_eq]
  rfl

/-! ## What an edge leaves alone -/

/-- The fields that the CPU's effects do not touch. -/
structure SameLines (u u' : Uart) : Prop where
  now : u'.now = u.now
  txIdleFrom : u'.txIdleFrom = u.txIdleFrom
  txOut : u'.txOut = u.txOut
  txBytes : u'.txBytes = u.txBytes
  rxLine : u'.rxLine = u.rxLine
  rxLineFree : u'.rxLineFree = u.rxLineFree
  rxDropped : u'.rxDropped = u.rxDropped
  quietUntil : u'.quietUntil = u.quietUntil

theorem sameLines_foldl (ops : List CpuOp) (u : Uart) :
    SameLines u (ops.foldl applyOp u) ∧ (ops.foldl applyOp u).cpuOps = u.cpuOps ∧
      (ops.foldl applyOp u).txFifo.length ≤ u.txFifo.length + ops.length := by
  induction ops generalizing u with
  | nil => exact ⟨⟨rfl, rfl, rfl, rfl, rfl, rfl, rfl, rfl⟩, rfl, le_rfl⟩
  | cons op ops ih =>
    obtain ⟨h, hops, hlen⟩ := ih (u.applyOp op)
    have hop : SameLines u (u.applyOp op) ∧ (u.applyOp op).cpuOps = u.cpuOps ∧
        (u.applyOp op).txFifo.length ≤ u.txFifo.length + 1 := by
      cases op <;>
        exact ⟨⟨rfl, rfl, rfl, rfl, rfl, rfl, rfl, rfl⟩, rfl, by simp [applyOp]⟩
    obtain ⟨h₁, hops₁, hlen₁⟩ := hop
    refine ⟨⟨h.now.trans h₁.now, h.txIdleFrom.trans h₁.txIdleFrom, h.txOut.trans h₁.txOut,
      h.txBytes.trans h₁.txBytes, h.rxLine.trans h₁.rxLine, h.rxLineFree.trans h₁.rxLineFree,
      h.rxDropped.trans h₁.rxDropped, h.quietUntil.trans h₁.quietUntil⟩, hops.trans hops₁, ?_⟩
    rw [List.foldl_cons, List.length_cons]
    omega

theorem sameLines_applyOps (u : Uart) (edge : ℕ) :
    SameLines u (u.applyOps edge) ∧
      (u.applyOps edge).cpuOps = u.cpuOps.dropWhile fun op ↦ op.1 = edge := by
  obtain ⟨h, hops, -⟩ := sameLines_foldl
    ((u.cpuOps.takeWhile fun op : ℕ × CpuOp ↦ op.1 = edge).map Prod.snd)
    { u with cpuOps := u.cpuOps.dropWhile fun op ↦ op.1 = edge }
  exact ⟨⟨h.now, h.txIdleFrom, h.txOut, h.txBytes, h.rxLine, h.rxLineFree, h.rxDropped,
    h.quietUntil⟩, hops⟩

/-- What an edge makes of the fields that the CPU's effects do not touch. -/
structure Edge (u : Uart) (edge : ℕ) (txPop rxPush : Bool) (u' : Uart) : Prop where
  now : u'.now = u.now
  quietUntil : u'.quietUntil = u.quietUntil
  rxLineFree : u'.rxLineFree = u.rxLineFree
  cpuOps : u'.cpuOps = u.cpuOps.dropWhile fun op ↦ op.1 = edge
  rxLine : u'.rxLine = if rxPush then u.rxLine.tail else u.rxLine
  txOut : u'.txOut = (if txPop then u.popTx edge else u).txOut
  txBytes : u'.txBytes = (if txPop then u.popTx edge else u).txBytes
  txIdleFrom : u'.txIdleFrom = (if txPop then u.popTx edge else u).txIdleFrom

theorem edge_applyEdge (u : Uart) (edge : ℕ) (txPop rxPush : Bool) :
    Edge u edge txPop rxPush (u.applyEdge edge txPop rxPush) := by
  have hpop : (u.popTx edge).now = u.now ∧ (u.popTx edge).quietUntil = u.quietUntil ∧
      (u.popTx edge).rxLineFree = u.rxLineFree ∧ (u.popTx edge).cpuOps = u.cpuOps ∧
      (u.popTx edge).rxLine = u.rxLine := by
    cases h : u.txFifo <;> simp [popTx, h]
  obtain ⟨h, hops⟩ := sameLines_applyOps (u.lines edge txPop rxPush).2 edge
  have hline : ∀ w : Uart, w.popLine.2 = { w with rxLine := w.rxLine.tail } := by
    intro w
    cases hw : w.rxLine <;> simp [popLine, hw]
    rw [← hw]
  rw [applyEdge_eq]
  constructor
  case now =>
    rw [h.now, lines]
    cases txPop <;> cases rxPush <;> dsimp only <;> split_ifs <;> simp [hline, hpop]
  case quietUntil =>
    rw [h.quietUntil, lines]
    cases txPop <;> cases rxPush <;> dsimp only <;> split_ifs <;> simp [hline, hpop]
  case rxLineFree =>
    rw [h.rxLineFree, lines]
    cases txPop <;> cases rxPush <;> dsimp only <;> split_ifs <;> simp [hline, hpop]
  case cpuOps =>
    rw [hops, lines]
    cases txPop <;> cases rxPush <;> dsimp only <;> split_ifs <;> simp [hline, hpop]
  case rxLine =>
    rw [h.rxLine, lines]
    cases txPop <;> cases rxPush <;> dsimp only <;> split_ifs <;> simp [hline, hpop]
  case txOut =>
    rw [h.txOut, lines]
    cases txPop <;> cases rxPush <;> dsimp only <;> split_ifs <;> simp [hline]
  case txBytes =>
    rw [h.txBytes, lines]
    cases txPop <;> cases rxPush <;> dsimp only <;> split_ifs <;> simp [hline]
  case txIdleFrom =>
    rw [h.txIdleFrom, lines]
    cases txPop <;> cases rxPush <;> dsimp only <;> split_ifs <;> simp [hline]

/-! ## Well-formed states -/

/-- The edges at which something happens are not past, and `quietUntil` is not after any of them. -/
structure Wf (u : Uart) : Prop where
  ops : ∀ op ∈ u.cpuOps, op.1 = u.now
  push : ∀ f ∈ u.rxLine, u.now ≤ f.start + rxPushDelay
  spaced : u.rxLine.Pairwise fun f g ↦ f.start + frame ≤ g.start
  free : ∀ f ∈ u.rxLine, f.start + frame ≤ u.rxLineFree
  quiet : ∀ e, u.nextEdge = some e → u.quietUntil ≤ e
  sent : ∀ b ∈ u.txOut, b.2 ≤ u.txIdleFrom
  sorted : u.txOut.Pairwise fun a b ↦ a.2 ≤ b.2
  bytes : u.txBytes = u.txOut.map Prod.fst

theorem wf_default : Wf default := by
  constructor <;> simp [default, nextEdge, txPopEdge, rxPushEdge, cpuEdge]

/-- `e` is one of the edges at which something happens. -/
def HasEdge (u : Uart) (e : ℕ) : Prop :=
  u.txPopEdge = some e ∨ u.rxPushEdge = some e ∨ u.cpuEdge = some e

theorem nextEdge_iff : u.nextEdge = some edge ↔
    u.HasEdge edge ∧ ∀ e, u.HasEdge e → edge ≤ e := by
  have hmem : ∀ e, e ∈ [u.txPopEdge, u.rxPushEdge, u.cpuEdge].filterMap id ↔ u.HasEdge e := by
    intro e
    simp [HasEdge, eq_comm]
  rw [nextEdge, List.min?_eq_some_iff, hmem]
  simp only [hmem]

theorem nextEdge_eq_none_iff : u.nextEdge = none ↔ ∀ e, ¬u.HasEdge e := by
  rw [nextEdge, List.min?_eq_none_iff, List.filterMap_eq_nil_iff]
  constructor
  · intro h e he
    rcases he with he | he | he
    · have := h u.txPopEdge (by simp)
      rw [he] at this
      cases this
    · have := h u.rxPushEdge (by simp)
      rw [he] at this
      cases this
    · have := h u.cpuEdge (by simp)
      rw [he] at this
      cases this
  · intro h o ho
    cases o with
    | none => rfl
    | some e =>
      refine absurd ?_ (h e)
      simpa [HasEdge, eq_comm] using ho

theorem Wf.le_edge (h : u.Wf) (he : u.HasEdge edge) : u.now ≤ edge := by
  rcases he with he | he | he
  · unfold txPopEdge at he
    split at he
    · cases he
    · rw [← Option.some.inj he]
      exact le_max_left _ _
  · rw [rxPushEdge, Option.map_eq_some_iff] at he
    obtain ⟨f, hf, rfl⟩ := he
    exact h.push f (List.mem_of_mem_head? hf)
  · rw [cpuEdge, Option.map_eq_some_iff] at he
    obtain ⟨op, hop, rfl⟩ := he
    exact (h.ops op (List.mem_of_mem_head? hop)).ge

theorem Wf.quiet_le (h : u.Wf) (he : u.HasEdge edge) : u.quietUntil ≤ edge := by
  cases hnext : u.nextEdge with
  | none => exact absurd he (nextEdge_eq_none_iff.mp hnext edge)
  | some e => exact (h.quiet e hnext).trans ((nextEdge_iff.mp hnext).2 edge he)

/-! ## A cycle in which nothing happens -/

/-- Nothing happens before `t`. -/
def Quiet (u : Uart) (t : ℕ) : Prop := ∀ e, u.HasEdge e → t ≤ e

theorem hasEdge_at (k : ℕ) (hk : u.now ≤ k) (hquiet : u.Quiet k) (e : ℕ) :
    (u.at_ k q).HasEdge e ↔ u.HasEdge e := by
  have htx : (u.at_ k q).txPopEdge = u.txPopEdge := by
    change (if u.txFifo.isEmpty then none else some (max k u.txIdleFrom)) = _
    by_cases hempty : u.txFifo.isEmpty = true
    · rw [if_pos hempty, txPopEdge, if_pos hempty]
    · rw [if_neg hempty, txPopEdge, if_neg hempty]
      have hle := hquiet (max u.now u.txIdleFrom) (.inl (by rw [txPopEdge, if_neg hempty]))
      congr 1
      omega
  rw [HasEdge, HasEdge, htx]
  rfl

/-- An edge at which nothing happens. -/
theorem applyEdge_quiet (h : ∀ op ∈ u.cpuOps, op.1 ≠ edge) : u.applyEdge edge false false = u := by
  have htake : (u.cpuOps.takeWhile fun op : ℕ × CpuOp ↦ op.1 = edge) = [] := by
    cases hops : u.cpuOps with
    | nil => rfl
    | cons op ops => simp [h op (by simp [hops])]
  have hdrop : (u.cpuOps.dropWhile fun op : ℕ × CpuOp ↦ op.1 = edge) = u.cpuOps := by
    cases hops : u.cpuOps with
    | nil => rfl
    | cons op ops => simp [h op (by simp [hops])]
  have happly : applyOps edge u = u := by
    rw [applyOps, htake, hdrop]
    rfl
  have hnone : (u.lines edge false false).1 = none := by
    simp [lines]
  have hlines : (u.lines edge false false).2 = u := by
    simp [lines]
  rw [applyEdge_eq, hnone, hlines, happly, Option.toList_none, List.append_nil]

theorem tick_quiet (h : u.Wf) (hquiet : u.Quiet (u.now + 1)) :
    u.tick = u.at_ (u.now + 1) u.quietUntil := by
  have hno : ∀ e, u.HasEdge e → e ≠ u.now := fun e he heq ↦ by
    have := hquiet e he
    omega
  have htx : u.txPopEdge ≠ some u.now := fun he ↦ hno _ (.inl he) rfl
  have hrx : u.rxPushEdge ≠ some u.now := fun he ↦ hno _ (.inr (.inl he)) rfl
  have hops : ∀ op ∈ u.cpuOps, op.1 ≠ u.now := by
    intro op hop
    exfalso
    cases hcons : u.cpuOps with
    | nil =>
      rw [hcons] at hop
      cases hop
    | cons op' ops =>
      refine hno op'.1 (.inr (.inr ?_)) (h.ops op' (by simp [hcons]))
      rw [cpuEdge, hcons]
      rfl
  rw [tick, decide_eq_false htx, decide_eq_false hrx, applyEdge_quiet hops]
  rfl

theorem Quiet.at_ (hk : u.now ≤ k) (hkt : k ≤ t) (h : u.Quiet t) : (u.at_ k q).Quiet t :=
  fun e he ↦ h e ((hasEdge_at k hk (fun e he ↦ hkt.trans (h e he)) e).mp he)

/-- The first frame on the line arrives first. -/
theorem Wf.push_head (h : u.Wf) {f g : RxFrame} (hf : u.rxLine.head? = some f) (hg : g ∈ u.rxLine) :
    f.start ≤ g.start := by
  cases hline : u.rxLine with
  | nil =>
    rw [hline] at hf
    cases hf
  | cons f' rest =>
    have hspaced := h.spaced
    rw [hline] at hf hg hspaced
    obtain rfl := Option.some.inj hf
    rcases List.mem_cons.mp hg with rfl | hmem
    · exact le_rfl
    · exact (Nat.le_add_right _ _).trans ((List.pairwise_cons.mp hspaced).1 g hmem)

/-- An effect of the CPU that waits is one of this cycle. -/
theorem Wf.hasEdge_now (h : u.Wf) (hops : u.cpuOps ≠ []) : u.HasEdge u.now := by
  cases hcons : u.cpuOps with
  | nil => exact absurd hcons hops
  | cons op ops =>
    refine .inr (.inr ?_)
    rw [cpuEdge, hcons, ← h.ops op (by simp [hcons])]
    rfl

/-- The clock goes on as long as nothing happens. -/
theorem Wf.at_ (h : u.Wf) (hk : u.now ≤ k) (hquiet : u.Quiet k) (hq : ∀ e, u.HasEdge e → q ≤ e) :
    (u.at_ k q).Wf where
  ops op hop := by
    have hnow := hquiet _ (h.hasEdge_now (List.ne_nil_of_mem hop))
    exact (h.ops op hop).trans (Nat.le_antisymm hk hnow)
  push f hf := by
    cases hline : u.rxLine.head? with
    | none =>
      rw [List.head?_eq_none_iff] at hline
      change f ∈ u.rxLine at hf
      rw [hline] at hf
      cases hf
    | some g =>
      have hle := h.push_head hline hf
      have hedge := hquiet (g.start + rxPushDelay) (.inr (.inl (by rw [rxPushEdge, hline]; rfl)))
      change k ≤ _
      omega
  spaced := h.spaced
  free := h.free
  quiet e he := hq e ((hasEdge_at k hk hquiet e).mp (nextEdge_iff.mp he).1)
  sent := h.sent
  sorted := h.sorted
  bytes := h.bytes

theorem iterate_tick_quiet (h : u.Wf) (n : ℕ) (hquiet : u.Quiet (u.now + n)) :
    tick^[n] u = u.at_ (u.now + n) u.quietUntil := by
  induction n with
  | zero => rfl
  | succ n ih =>
    have hquiet' : u.Quiet (u.now + n) := fun e he ↦ by
      have := hquiet e he
      omega
    have hwf := h.at_ (Nat.le_add_right u.now n) hquiet' fun e he ↦ h.quiet_le he
    rw [Function.iterate_succ_apply', ih hquiet', tick_quiet hwf]
    · rfl
    · exact Quiet.at_ (Nat.le_add_right u.now n) (Nat.le_succ _) hquiet

/-- Up to a cycle before which nothing happens. -/
theorem upTo_quiet (h : u.Wf) (ht : u.now ≤ t) (hquiet : u.Quiet t) :
    u.upTo t = u.at_ t u.quietUntil := by
  have heq : u.now + (t - u.now) = t := by omega
  rw [upTo, iterate_tick_quiet h _ (by rwa [heq]), heq]

/-! ## A cycle in which something happens -/

theorem nextAlarm_ge (c : ℕ) : c ≤ nextAlarm c := by
  unfold nextAlarm
  split
  · assumption
  · have hdiv := Nat.div_add_mod (c - firstAlarm + (bit - 1)) bit
    have hmod := Nat.mod_lt (c - firstAlarm + (bit - 1)) (by decide : 0 < bit)
    rw [Nat.mul_comm] at hdiv
    have hb : bit = 156 := rfl
    omega

/-- A byte that is taken at `edge` starts two cycles later at the earliest. -/
theorem popTx_txOut (u : Uart) (edge : ℕ) : ∃ new, (u.popTx edge).txOut = u.txOut ++ new ∧
    (u.popTx edge).txBytes = u.txBytes ++ new.map Prod.fst ∧
    (∀ b ∈ new, edge + 2 ≤ b.2 ∧ b.2 ≤ (u.popTx edge).txIdleFrom) ∧
    new.Pairwise (fun a b ↦ a.2 ≤ b.2) ∧
    (u.txIdleFrom ≤ edge → u.txIdleFrom ≤ (u.popTx edge).txIdleFrom) := by
  cases h : u.txFifo with
  | nil => exact ⟨[], by simp [popTx, h], by simp [popTx, h], by simp, by simp, by simp [popTx, h]⟩
  | cons byte rest =>
    have hge := nextAlarm_ge (edge + 1)
    refine ⟨[(byte, nextAlarm (edge + 1) + 1)], by simp [popTx, h], by simp [popTx, h], ?_,
      List.pairwise_singleton _ _, ?_⟩
    · intro b hb
      obtain rfl := List.mem_singleton.mp hb
      simp only [popTx, h]
      omega
    · simp only [popTx, h]
      omega

theorem txIdleFrom_le (hpop : u.txPopEdge = some u.now) : u.txIdleFrom ≤ u.now := by
  unfold txPopEdge at hpop
  split at hpop
  · cases hpop
  · exact max_eq_left_iff.mp (Option.some.inj hpop)

theorem Wf.sent_popTx (h : u.Wf) (hpop : u.txPopEdge = some u.now) :
    ∀ b ∈ (u.popTx u.now).txOut, b.2 ≤ (u.popTx u.now).txIdleFrom := by
  obtain ⟨new, hout, -, hnew, -, hidle⟩ := popTx_txOut u u.now
  intro b hb
  rw [hout] at hb
  rcases List.mem_append.mp hb with hb | hb
  · exact (h.sent b hb).trans (hidle (txIdleFrom_le hpop))
  · exact (hnew b hb).2

theorem Wf.sorted_popTx (h : u.Wf) (hpop : u.txPopEdge = some u.now) :
    (u.popTx u.now).txOut.Pairwise fun a b ↦ a.2 ≤ b.2 := by
  obtain ⟨new, hout, -, hnew, hsorted, -⟩ := popTx_txOut u u.now
  rw [hout, List.pairwise_append]
  refine ⟨h.sorted, hsorted, fun a ha b hb ↦ ?_⟩
  have h₁ := h.sent a ha
  have h₂ := txIdleFrom_le hpop
  have h₃ := (hnew b hb).1
  omega

theorem tick_now (u : Uart) : u.tick.now = u.now + 1 := rfl

theorem iterate_tick_now (u : Uart) (n : ℕ) : (tick^[n] u).now = u.now + n := by
  induction n with
  | zero => rfl
  | succ n ih => rw [Function.iterate_succ_apply', tick_now, ih, Nat.add_assoc]

theorem upTo_now (ht : u.now ≤ t) : (u.upTo t).now = t := by
  rw [upTo, iterate_tick_now]
  omega

theorem upTo_of_le (ht : t ≤ u.now) : u.upTo t = u := by
  rw [upTo, Nat.sub_eq_zero_of_le ht]
  rfl

/-- It does not matter if the UART is looked at on the way. -/
theorem upTo_upTo (hc : u.now ≤ c) (hct : c ≤ t) : (u.upTo c).upTo t = u.upTo t := by
  unfold upTo
  rw [iterate_tick_now, ← Function.iterate_add_apply]
  congr 1
  omega

/-- **A cycle keeps the UART well-formed.** -/
theorem Wf.tick (h : u.Wf) : u.tick.Wf := by
  by_cases hquiet : u.Quiet (u.now + 1)
  · rw [tick_quiet h hquiet]
    refine h.at_ (Nat.le_succ _) hquiet fun e he ↦ h.quiet_le he
  have hedge := edge_applyEdge u u.now (u.txPopEdge = some u.now) (u.rxPushEdge = some u.now)
  have hline : ∀ f ∈ u.tick.rxLine, f ∈ u.rxLine := by
    intro f hf
    change f ∈ (u.applyEdge _ _ _).rxLine at hf
    rw [hedge.rxLine] at hf
    split at hf
    · exact List.mem_of_mem_tail hf
    · exact hf
  have hops : u.tick.cpuOps = [] := by
    change (u.applyEdge _ _ _).cpuOps = []
    rw [hedge.cpuOps, List.dropWhile_eq_nil_iff]
    intro op hop
    exact decide_eq_true (h.ops op hop)
  have hpush : ∀ f ∈ u.tick.rxLine, u.now + 1 ≤ f.start + rxPushDelay := by
    intro f hf
    have hle := h.push f (hline f hf)
    by_contra hlt
    have heq : f.start + rxPushDelay = u.now := by omega
    -- only the first frame can arrive now, and it does
    change f ∈ (u.applyEdge _ _ _).rxLine at hf
    rw [hedge.rxLine] at hf
    cases hcons : u.rxLine with
    | nil =>
      rw [hcons] at hf
      split at hf <;> cases hf
    | cons g rest =>
      have hspaced := h.spaced
      have hg := h.push g (by simp [hcons])
      rw [hcons, List.pairwise_cons] at hspaced
      have hframe : frame = 1560 := rfl
      rw [hcons] at hf
      have hhead : u.rxPushEdge = some (g.start + rxPushDelay) := by rw [rxPushEdge, hcons]; rfl
      by_cases hgf : g.start + rxPushDelay = u.now
      · rw [hhead, hgf, decide_eq_true rfl, if_pos rfl] at hf
        have := hspaced.1 f hf
        omega
      · have hno : (u.rxPushEdge = some u.now) = False := by
          rw [hhead]
          exact eq_false fun heq ↦ hgf (Option.some.inj heq)
        simp only [hno, decide_false, Bool.false_eq_true, if_false] at hf
        rcases List.mem_cons.mp hf with rfl | hmem
        · omega
        · have := hspaced.1 f hmem
          omega
  constructor
  case ops =>
    intro op hop
    rw [hops] at hop
    cases hop
  case push => exact hpush
  case spaced =>
    change (u.applyEdge _ _ _).rxLine.Pairwise _
    rw [hedge.rxLine]
    split
    · exact h.spaced.sublist (List.tail_sublist _)
    · exact h.spaced
  case free =>
    intro f hf
    have hfree := h.free f (hline f hf)
    rw [← hedge.rxLineFree] at hfree
    exact hfree
  case quiet =>
    intro e he
    rw [show u.tick.quietUntil = u.quietUntil from hedge.quietUntil]
    -- something happens now, so the note is past, and whatever is left comes later
    have hle : u.quietUntil ≤ u.now := by
      simp only [Quiet, not_forall, not_le] at hquiet
      obtain ⟨e', he', hlt⟩ := hquiet
      have := h.quiet_le he'
      omega
    have hlt : u.now + 1 ≤ e := by
      rcases (nextEdge_iff.mp he).1 with he | he | he
      · unfold txPopEdge at he
        split at he
        · cases he
        · rw [← Option.some.inj he, tick_now]
          exact le_max_left _ _
      · rw [rxPushEdge, Option.map_eq_some_iff] at he
        obtain ⟨f, hf, rfl⟩ := he
        exact hpush f (List.mem_of_mem_head? hf)
      · rw [cpuEdge, hops] at he
        cases he
    omega
  case sent =>
    intro b hb
    change b ∈ (u.applyEdge _ _ _).txOut at hb
    change b.2 ≤ (u.applyEdge _ _ _).txIdleFrom
    rw [hedge.txOut] at hb
    rw [hedge.txIdleFrom]
    split at hb
    · rename_i hpop
      rw [if_pos hpop]
      exact h.sent_popTx (of_decide_eq_true hpop) b hb
    · rename_i hpop
      rw [if_neg hpop]
      exact h.sent b hb
  case sorted =>
    change (u.applyEdge _ _ _).txOut.Pairwise _
    rw [hedge.txOut]
    split
    · rename_i hpop
      exact h.sorted_popTx (of_decide_eq_true hpop)
    · exact h.sorted
  case bytes =>
    change (u.applyEdge _ _ _).txBytes = (u.applyEdge _ _ _).txOut.map Prod.fst
    rw [hedge.txOut, hedge.txBytes]
    split
    · obtain ⟨new, hout, hbytes, -⟩ := popTx_txOut u u.now
      rw [hout, hbytes, h.bytes, List.map_append]
    · exact h.bytes

theorem Wf.iterate (h : u.Wf) (n : ℕ) : (Uart.tick^[n] u).Wf := by
  induction n with
  | zero => exact h
  | succ n ih =>
    rw [Function.iterate_succ_apply']
    exact ih.tick

theorem Wf.upTo (h : u.Wf) (t : ℕ) : (u.upTo t).Wf := h.iterate _

/-! ## `advance` -/

/-- The same but for the note of `advance`. -/
def Alike (u u' : Uart) : Prop := u' = { u with quietUntil := u'.quietUntil }

theorem Alike.refl (u : Uart) : Alike u u := rfl

theorem Alike.symm (h : Alike u u') : Alike u' u := by
  unfold Alike at *
  rw [h]

theorem Alike.trans {u'' : Uart} (h : Alike u u') (h' : Alike u' u'') : Alike u u'' := by
  unfold Alike at *
  rw [h', h]

theorem alike_at (u : Uart) (q : ℕ) : Alike u (u.at_ u.now q) := rfl

theorem Alike.tick (h : Alike u u') : Alike u.tick u'.tick := by
  have hu : u' = u.at_ u.now u'.quietUntil := h
  rw [hu]
  generalize u'.quietUntil = q
  change Alike _ { (u.at_ u.now q).applyEdge u.now _ _ with now := u.now + 1 }
  rw [applyEdge_at]
  rfl

theorem Alike.now_eq (h : Alike u u') : u'.now = u.now := by
  rw [h]

theorem Alike.upTo (h : Alike u u') (t : ℕ) : Alike (u.upTo t) (u'.upTo t) := by
  unfold Uart.upTo
  rw [h.now_eq]
  induction t - u.now with
  | zero => exact h
  | succ n ih =>
    rw [Function.iterate_succ_apply', Function.iterate_succ_apply']
    exact ih.tick

/-- The next edge at which something happens. -/
theorem tick_upTo (h : u.Wf) (hnext : u.nextEdge = some edge) : (u.upTo edge).tick =
    { u.applyEdge edge (u.txPopEdge = some edge) (u.rxPushEdge = some edge) with
      now := edge + 1 } := by
  obtain ⟨hedge, hmin⟩ := nextEdge_iff.mp hnext
  have hle := h.le_edge hedge
  have htx : (u.at_ edge u.quietUntil).txPopEdge = some edge ↔ u.txPopEdge = some edge := by
    unfold txPopEdge
    change (if u.txFifo.isEmpty then none else some (max edge u.txIdleFrom)) = some edge ↔ _
    by_cases hempty : u.txFifo.isEmpty = true
    · rw [if_pos hempty, if_pos hempty]
    · rw [if_neg hempty, if_neg hempty, Option.some.injEq, Option.some.injEq]
      have := hmin (max u.now u.txIdleFrom) (.inl (by rw [txPopEdge, if_neg hempty]))
      omega
  rw [upTo_quiet h hle hmin]
  change ({ (u.at_ edge u.quietUntil).applyEdge edge
      (decide ((u.at_ edge u.quietUntil).txPopEdge = some edge))
      (decide (u.rxPushEdge = some edge)) with now := edge + 1 } : Uart) = _
  rw [decide_eq_decide.mpr htx, applyEdge_at]
  generalize hX : u.applyEdge edge (u.txPopEdge = some edge) (u.rxPushEdge = some edge) = X
  have hq : X.quietUntil = u.quietUntil := by
    rw [← hX]
    exact (edge_applyEdge u edge _ _).quietUntil
  change X.at_ (edge + 1) u.quietUntil = X.at_ (edge + 1) X.quietUntil
  rw [hq]

/-- From an edge at which something happens. -/
theorem upTo_edge (h : u.Wf) (hnext : u.nextEdge = some edge) (ht : edge < t) :
    u.upTo t = ({ u.applyEdge edge (u.txPopEdge = some edge) (u.rxPushEdge = some edge) with
      now := edge + 1 } : Uart).upTo t := by
  have hle := h.le_edge (nextEdge_iff.mp hnext).1
  rw [← tick_upTo h hnext, ← upTo_upTo (hle.trans (Nat.le_succ edge)) ht]
  congr 1
  rw [upTo, upTo, show edge + 1 - u.now = edge - u.now + 1 by omega, Function.iterate_succ_apply']

theorem Wf.after_edge (h : u.Wf) (hnext : u.nextEdge = some edge) :
    ({ u.applyEdge edge (u.txPopEdge = some edge) (u.rxPushEdge = some edge) with
      now := edge + 1 } : Uart).Wf := by
  have hup := upTo_edge h hnext (Nat.lt_succ_self edge)
  rw [upTo_of_le (u := { u.applyEdge edge _ _ with now := edge + 1 }) le_rfl] at hup
  rw [← hup]
  exact h.upTo _

theorem lines_txFifo (u : Uart) (edge : ℕ) (txPop rxPush : Bool) :
    (u.lines edge txPop rxPush).2.txFifo = (if txPop then u.txFifo.tail else u.txFifo) ∧
      (u.lines edge txPop rxPush).2.cpuOps = u.cpuOps := by
  have hpop : (u.popTx edge).txFifo = u.txFifo.tail ∧ (u.popTx edge).cpuOps = u.cpuOps := by
    cases h : u.txFifo <;> simp [popTx, h]
  have hline : ∀ w : Uart, w.popLine.2.txFifo = w.txFifo ∧ w.popLine.2.cpuOps = w.cpuOps := by
    intro w
    cases hw : w.rxLine <;> simp [popLine, hw]
  cases txPop <;> cases rxPush <;> simp only [lines] <;> split_ifs <;> simp_all

theorem length_txFifo_applyEdge (u : Uart) (edge : ℕ) (txPop rxPush : Bool) :
    (u.applyEdge edge txPop rxPush).txFifo.length ≤
      (if txPop then u.txFifo.tail else u.txFifo).length +
        (u.cpuOps.takeWhile fun op : ℕ × CpuOp ↦ op.1 = edge).length := by
  obtain ⟨hfifo, hops⟩ := lines_txFifo u edge txPop rxPush
  obtain ⟨-, -, hlen⟩ := sameLines_foldl
    (((u.lines edge txPop rxPush).2.cpuOps.takeWhile fun op : ℕ × CpuOp ↦ op.1 = edge).map Prod.snd)
    { (u.lines edge txPop rxPush).2 with
      cpuOps := (u.lines edge txPop rxPush).2.cpuOps.dropWhile fun op ↦ op.1 = edge }
  rw [List.length_map, hops] at hlen
  rw [← hfifo]
  rw [← hops] at hlen ⊢
  exact hlen

/-- Each round of the loop leaves less to happen. -/
theorem pending_applyEdge (hedge : u.HasEdge edge) :
    (u.applyEdge edge (u.txPopEdge = some edge) (u.rxPushEdge = some edge)).pending <
      u.pending := by
  have hrest := edge_applyEdge u edge (u.txPopEdge = some edge) (u.rxPushEdge = some edge)
  have hfifo := length_txFifo_applyEdge u edge (u.txPopEdge = some edge) (u.rxPushEdge = some edge)
  have hops := congrArg List.length
    (List.takeWhile_append_dropWhile (p := fun op : ℕ × CpuOp ↦ op.1 = edge) (l := u.cpuOps))
  rw [List.length_append] at hops
  have hfifo' : (if decide (u.txPopEdge = some edge) then u.txFifo.tail else u.txFifo).length ≤
      u.txFifo.length := by
    split
    · exact (List.tail_sublist _).length_le
    · exact le_rfl
  have hline' : (if decide (u.rxPushEdge = some edge) then u.rxLine.tail else u.rxLine).length ≤
      u.rxLine.length := by
    split
    · exact (List.tail_sublist _).length_le
    · exact le_rfl
  rw [pending, pending, hrest.rxLine, hrest.cpuOps]
  rcases hedge with htx | hrx | hcpu
  · have hne : u.txFifo ≠ [] := by
      rintro hnil
      rw [txPopEdge, hnil] at htx
      cases htx
    have := List.length_pos_iff.mpr hne
    have htail : (if decide (u.txPopEdge = some edge) then u.txFifo.tail else u.txFifo).length =
        u.txFifo.length - 1 := by
      rw [decide_eq_true htx, if_pos rfl, List.length_tail]
    omega
  · have hne : u.rxLine ≠ [] := by
      rintro hnil
      rw [rxPushEdge, hnil] at hrx
      cases hrx
    have := List.length_pos_iff.mpr hne
    have htail : (if decide (u.rxPushEdge = some edge) then u.rxLine.tail else u.rxLine).length =
        u.rxLine.length - 1 := by
      rw [decide_eq_true hrx, if_pos rfl, List.length_tail]
    omega
  · have htake : 0 < (u.cpuOps.takeWhile fun op : ℕ × CpuOp ↦ op.1 = edge).length := by
      cases hcons : u.cpuOps with
      | nil =>
        rw [cpuEdge, hcons] at hcpu
        cases hcpu
      | cons op ops =>
        rw [cpuEdge, hcons] at hcpu
        have hop : op.1 = edge := Option.some.inj hcpu
        simp [hop]
    omega

theorem advanceLoop_eq {fuel : ℕ} (h : u.Wf) (hnow : u.now ≤ t) (hfuel : u.pending < fuel) :
    Alike (u.upTo t) (advanceLoop t fuel u) ∧ (advanceLoop t fuel u).Wf := by
  induction fuel generalizing u with
  | zero => omega
  | succ fuel ih =>
    rw [advanceLoop]
    by_cases hlt : u.now < t
    · rw [if_pos hlt]
      cases hnext : u.nextEdge with
      | none =>
        have hno := nextEdge_eq_none_iff.mp hnext
        have hquiet : u.Quiet t := fun e he ↦ absurd he (hno e)
        rw [upTo_quiet h hnow hquiet]
        exact ⟨rfl, h.at_ hnow hquiet fun e he ↦ absurd he (hno e)⟩
      | some edge =>
        obtain ⟨hedge, hmin⟩ := nextEdge_iff.mp hnext
        dsimp only
        by_cases hte : t ≤ edge
        · have hquiet : u.Quiet t := fun e he ↦ hte.trans (hmin e he)
          rw [if_pos hte, upTo_quiet h hnow hquiet]
          exact ⟨rfl, h.at_ hnow hquiet hmin⟩
        · rw [if_neg hte, upTo_edge h hnext (by omega)]
          refine ih (h.after_edge hnext) (by change edge + 1 ≤ t; omega) ?_
          have := pending_applyEdge hedge
          change (u.applyEdge _ _ _).pending < fuel
          omega
    · rw [if_neg hlt, upTo_of_le (by omega)]
      exact ⟨.refl u, h⟩

/-- **Advancing the UART is applying the edges of all cycles.** -/
theorem advance_eq (h : u.Wf) (hnow : u.now ≤ t) :
    Alike (u.upTo t) (u.advance t) ∧ (u.advance t).Wf := by
  rw [advance]
  by_cases hq : t ≤ u.quietUntil
  · have hquiet : u.Quiet t := fun e he ↦ hq.trans (h.quiet_le he)
    have hwf := h.at_ hnow hquiet fun e he ↦ h.quiet_le he
    rw [if_pos hq, upTo_quiet h hnow hquiet, max_eq_right hnow]
    exact ⟨rfl, hwf⟩
  · have hzero : (u.at_ u.now 0).Wf :=
      h.at_ le_rfl (fun e he ↦ h.le_edge he) fun e _ ↦ Nat.zero_le e
    rw [if_neg hq, advanceEdges]
    obtain ⟨halike, hwf⟩ := advanceLoop_eq (t := t) hzero hnow (Nat.lt_succ_self u.pending)
    exact ⟨((alike_at u 0).upTo t).trans halike, hwf⟩

end Vux9k.Emu.Uart

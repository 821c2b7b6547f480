import Vux9k.Rtl.WindowSim

/-!
# Runs of the window

The power-on reset sweeps both caches; from then on, in every run that keeps to the CPU's handshake,
the accesses that have completed leave the window as they leave the write-back cache.
-/

set_option autoImplicit false

namespace Vux9k.Rtl.Win

/-! ## Runs -/

section

variable (inp : ℕ → WinIn) (s : Win)

/-- The window after `n` cycles. -/
def run : ℕ → Win
  | 0 => s
  | n + 1 => (run n).tick (inp n)

/-- The access that waits then. -/
def held : ℕ → Option Access
  | 0 => none
  | n + 1 => (run inp s n).waiting (inp n)

/-- The accesses completed by then. -/
def log : ℕ → List Access
  | 0 => []
  | n + 1 => log n ++ ((run inp s n).done (inp n)).toList

/-- The driver keeps to the handshake. -/
def Driven : Prop := ∀ n, (run inp s n).Follows (held inp s n) (inp n)

end

/-! ## The power-on reset -/

/-- The registers are reset, and the memory controller idle; the RAMs hold anything. -/
structure IsReset (s : Win) : Prop where
  ic : s.ic = .reset s.ic.tags s.ic.words s.ic.tagQ s.ic.wordQ
  dc : s.dc = .reset s.dc.tags s.dc.words s.dc.tagQ s.dc.wordQ
  br : s.br = .reset
  ps : s.ps.burst = .idle

/-- A cycle of the power-on reset. -/
structure Por (i : WinIn) : Prop where
  clear : i.clear = true
  access : i.access = none

/-- The sweep after `n` cycles. -/
structure Sweeping (s : Win) (n : ℕ) : Prop where
  ic : s.ic.Calm
  dc : s.dc.Calm
  free : s.Free
  icSwept : s.ic.swept = decide (512 ≤ n)
  dcSwept : s.dc.swept = decide (64 ≤ n)
  icIdx : n < 512 → s.ic.sweepIdx = BitVec.ofNat 9 n
  dcIdx : n < 64 → s.dc.sweepIdx = BitVec.ofNat 6 n
  itags : ∀ l, l.toNat < n → s.ic.tags l = .zero
  tags : ∀ l, l.toNat < n → s.dc.tags l = .zero

/-- Both caches are swept and empty. -/
structure Cleared (s : Win) : Prop where
  ic : s.ic.Calm
  dc : s.dc.Calm
  free : s.Free
  icSwept : s.ic.swept = true
  dcSwept : s.dc.swept = true
  icAhead : s.ic.Ahead
  dcAhead : s.dc.Ahead
  itags : ∀ l, s.ic.tags l = .zero
  tags : ∀ l, s.dc.tags l = .zero

variable {s : Win} {i : WinIn}

theorem IsReset.sweeping (h : s.IsReset) : s.Sweeping 0 := by
  obtain ⟨hic, hdc, hbr, hps⟩ := h
  exact
    { ic := ⟨by rw [hic]; rfl, by rw [hic]; rfl⟩
      dc := ⟨by rw [hdc]; rfl, by rw [hdc]; rfl, by rw [hdc]; rfl⟩
      free := ⟨by rw [hbr]; rfl, hps⟩
      icSwept := by rw [hic]; rfl
      dcSwept := by rw [hdc]; rfl
      icIdx := fun _ ↦ by rw [hic]; rfl
      dcIdx := fun _ ↦ by rw [hdc]; rfl
      itags := fun _ hl ↦ absurd hl (Nat.not_lt_zero _)
      tags := fun _ hl ↦ absurd hl (Nat.not_lt_zero _) }

theorem access_none (h : i.access = none) :
    Icache.win (s.icIn i) = false ∧ Dcache.win (s.dcIn i) = false ∧ (s.icIn i).inv = false := by
  unfold WinIn.access at h
  split at h
  · exact absurd h nofun
  · next hf =>
    split at h
    · exact absurd h nofun
    · next hd =>
      have hd' : (i.dataReq && i.xmemWsel) = false := Bool.eq_false_of_not_eq_true hd
      refine ⟨Bool.eq_false_of_not_eq_true hf, hd', ?_⟩
      simp only [icIn, hd', Bool.false_and]

/-- A sweep's write covers one more line. -/
theorem sweep_line {m n : ℕ} {α : Type} {ram : BitVec m → α} {z : α} (hn : n < 2 ^ m)
    (h : ∀ l, l.toNat < n → ram l = z) (l : BitVec m) (hl : l.toNat < n + 1) :
    Function.update ram (BitVec.ofNat m n) z l = z := by
  by_cases he : l = BitVec.ofNat m n
  · rw [he, Function.update_self]
  · rw [Function.update_of_ne he]
    refine h l ?_
    have hne : l.toNat ≠ n := by
      intro hc
      refine he (BitVec.eq_of_toNat_eq ?_)
      rw [BitVec.toNat_ofNat, Nat.mod_eq_of_lt hn, hc]
    omega

theorem Sweeping.tick {n : ℕ} (h : s.Sweeping n) (hp : Por i) : (s.tick i).Sweeping (n + 1) := by
  obtain ⟨hwin, hdwin, hinv⟩ := access_none (s := s) hp.access
  have hmiss : s.ic.miss (s.icIn i) = false := by simp [Icache.miss, hwin]
  have hlook := Dcache.lookup_of_win (c := s.dc) hdwin
  have hdmiss : s.dc.miss (s.dcIn i) = false := by rw [Dcache.miss, hlook, Bool.false_and]
  have hprobe : s.dc.probeWb (s.dcIn i) = false := by
    have hpr : (s.dcIn i).probeReq = false := hmiss
    simp [Dcache.probeWb, hpr]
  have hhit : (s.dc.hit (s.dcIn i) && (s.dcIn i).dataWe) = false := by
    rw [Dcache.hit_of_lookup hlook, Bool.false_and]
  have hclear : (s.icIn i).clear = true ∧ (s.dcIn i).clear = true := ⟨hp.clear, hp.clear⟩
  have hics := h.icSwept
  have hdcs := h.dcSwept
  refine
    { ic := h.ic.tick (by rw [hmiss, Bool.false_and])
      dc := h.dc.tick hdmiss hprobe h.free.wdataNext
      free := (Free.tick_calm h.ic h.dc h.free).1
      icSwept := ?_
      dcSwept := ?_
      icIdx := fun hn ↦ ?_
      dcIdx := fun hn ↦ ?_
      itags := fun l hl ↦ ?_
      tags := fun l hl ↦ ?_ }
  · simp only [Win.tick, Icache.tick, hclear.1, Bool.true_and]
    by_cases hn : n < 512
    · rw [hics, h.icIdx hn, decide_eq_false (by omega), Bool.false_or, decide_eq_decide,
        ← BitVec.toNat_inj, BitVec.toNat_ofNat, BitVec.toNat_ofNat]
      omega
    · rw [hics, decide_eq_true (by omega), Bool.true_or, decide_eq_true (by omega)]
  · simp only [Win.tick, Dcache.tick, hclear.2, Bool.true_and]
    by_cases hn : n < 64
    · rw [hdcs, h.dcIdx hn, decide_eq_false (by omega), Bool.false_or, decide_eq_decide,
        ← BitVec.toNat_inj, BitVec.toNat_ofNat, BitVec.toNat_ofNat]
      omega
    · rw [hdcs, decide_eq_true (by omega), Bool.true_or, decide_eq_true (by omega)]
  · simp only [Win.tick, Icache.tick, hclear.1, hics, decide_eq_false (show ¬ 512 ≤ n by omega),
      h.icIdx (by omega), Bool.not_false, Bool.and_self, if_true, BitVec.ofNat_add]
  · simp only [Win.tick, Dcache.tick, hclear.2, hdcs, decide_eq_false (show ¬ 64 ≤ n by omega),
      h.dcIdx (by omega), Bool.not_false, Bool.and_self, if_true, BitVec.ofNat_add]
  · by_cases hn : n < 512
    · have hw : s.ic.tagWrite (s.icIn i) = some (BitVec.ofNat 9 n, .zero) := by
        simp [Icache.tagWrite, hics, hclear.1, h.icIdx hn, hn]
      simp only [Win.tick, Icache.tick, hw, ramTick]
      exact sweep_line hn h.itags l hl
    · have htags := (h.ic.tick_rams (i := s.icIn i) (by simp [hics]; omega) hinv).1
      simp only [Win.tick, htags]
      exact h.itags l (by have := l.isLt; omega)
  · by_cases hn : n < 64
    · have hw : s.dc.tagWrite (s.dcIn i) = some (BitVec.ofNat 6 n, .zero) := by
        simp [Dcache.tagWrite, hdcs, hclear.2, h.dcIdx hn, hn]
      simp only [Win.tick, Dcache.tick, hw, ramTick]
      exact sweep_line hn h.tags l hl
    · have htags := (h.dc.tick_rams (i := s.dcIn i) (by simp [hdcs]; omega) hhit).1
      simp only [Win.tick, htags]
      exact h.tags l (by have := l.isLt; omega)

theorem IsReset.sweeping_run {inp : ℕ → WinIn} (h : s.IsReset) {n : ℕ}
    (hp : ∀ k < n, Por (inp k)) :
    (run inp s n).Sweeping n ∧ (run inp s n).ps.mem = s.ps.mem := by
  induction n with
  | zero => exact ⟨h.sweeping, rfl⟩
  | succ n ih =>
    obtain ⟨hs, hm⟩ := ih fun k hk ↦ hp k (by omega)
    exact ⟨hs.tick (hp n (by omega)), ((Free.tick_calm hs.ic hs.dc hs.free).2).trans hm⟩

/-- **The power-on reset empties both caches and leaves the memory as it is.** -/
theorem IsReset.cleared {inp : ℕ → WinIn} (h : s.IsReset) {n : ℕ} (hn : 512 ≤ n)
    (hp : ∀ k < n, Por (inp k)) :
    (run inp s n).Cleared ∧ (run inp s n).ps.mem = s.ps.mem := by
  obtain ⟨hs, hm⟩ := h.sweeping_run hp
  obtain ⟨m, rfl⟩ : ∃ m, n = m + 1 := ⟨n - 1, by omega⟩
  refine ⟨?_, hm⟩
  exact
    { ic := hs.ic
      dc := hs.dc
      free := hs.free
      icSwept := by rw [hs.icSwept, decide_eq_true hn]
      dcSwept := by rw [hs.dcSwept, decide_eq_true (by omega)]
      icAhead := .tick _ _
      dcAhead := .tick _ _
      itags := fun l ↦ hs.itags l (by have := l.isLt; omega)
      tags := fun l ↦ hs.tags l (by have := l.isLt; omega) }

/-! ## The write-back cache of a run -/

/-- The write-back cache with what the window holds. -/
def contents (s : Win) : Wb := ⟨s.ic.tags, s.ic.words, s.dc.tags, s.dc.words, s.ps.mem⟩

/-- Between two clock edges of a run: `d` is the write-back cache after the completed accesses, and
the one that waits has yet to do to `c` what it does to `d`. -/
structure Runs (s : Win) (held : Option Access) (p : Phase) (c d : Wb) : Prop where
  inv : s.Inv held p
  rel : Rel s held p c
  idle : held = none → c = d ∧ p = .idle
  busy : ∀ x ∈ held, c.access x = d.access x

theorem Cleared.runs (h : s.Cleared) : s.Runs none .idle s.contents s.contents where
  inv := ⟨h.icSwept, h.dcSwept, h.icAhead, h.dcAhead, .idle h.ic h.dc h.free⟩
  rel := ⟨rfl, rfl, rfl, rfl, rfl, fun h ↦ absurd rfl h, by simp [h.dc.state]⟩
  idle _ := ⟨rfl, rfl⟩
  busy := nofun

/-- A transfer starts for an access that is not ready only. -/
theorem next_of_ready (h : s.ready i = true) : Phase.next s i .idle = .idle := by
  rw [ready, Bool.and_eq_true, dataReady_eq] at h
  have hm : s.ic.miss (s.icIn i) = false := by
    have hi : s.ic.instrReady (s.icIn i) = true := h.1
    cases hw : Icache.win (s.icIn i) with
    | false => simp [Icache.miss, hw]
    | true =>
      have hh : s.ic.hit (s.icIn i) = true := by simpa [Icache.instrReady, hw] using hi
      simp [Icache.miss, hh]
  have hdm : s.dc.miss (s.dcIn i) = false := by
    cases hw : Dcache.win (s.dcIn i) with
    | false => rw [Dcache.miss, Dcache.lookup_of_win hw, Bool.false_and]
    | true =>
      rw [show (i.dataReq && i.xmemWsel) = true from hw] at h
      have hh : s.dc.hit (s.dcIn i) = true := h.2
      rw [Dcache.hit, Bool.and_eq_true] at hh
      simp [Dcache.miss, hh.2]
  simp [Phase.next, hm, hdm]

theorem ready_of_none (hx : i.access = none) : s.ready i = true := by
  obtain ⟨hwin, hdwin, -⟩ := access_none (s := s) hx
  have hdr : s.dataReady i = true := by
    rw [dataReady_eq, show (i.dataReq && i.xmemWsel) = false from hdwin]
    rfl
  simp [ready, instrReady, Icache.instrReady, hwin, hdr]

/-- Nothing is under way in a cycle that no access has to wait in. -/
theorem Runs.idle_of_ready {held : Option Access} {p : Phase} {c d : Wb} (h : s.Runs held p c d)
    (hf : s.Follows held i) (hr : s.ready i = true) : p = .idle := by
  cases hx : i.access with
  | some x =>
    have ht := h.rel.access_tick h.inv hf hx
    rw [hr, if_pos rfl] at ht
    exact ht.1
  | none =>
    refine (h.idle ?_).2
    cases hh : held with
    | none => rfl
    | some x => exact absurd ((hf.held x hh).symm.trans hx) nofun

/-- The accesses completed in a cycle, done to the write-back cache. -/
theorem Runs.tick {held : Option Access} {p : Phase} {c d : Wb} (h : s.Runs held p c d)
    (hf : s.Follows held i) :
    (s.tick i).Runs (s.waiting i) (p.next s i) (c.tick s i p) (d.accesses (s.done i).toList) := by
  have hinv := h.inv.tick hf
  have hrel := h.rel.tick h.inv hf
  cases hx : i.access with
  | none =>
    obtain ⟨rfl, rfl⟩ : c = d ∧ p = .idle := by
      refine h.idle ?_
      cases hh : held with
      | none => rfl
      | some x => exact absurd ((hf.held x hh).symm.trans hx) nofun
    have hready := ready_of_none (s := s) hx
    have hdone : s.done i = none := by rw [Win.done, hready, if_pos rfl, hx]
    have hc : c.tick s i .idle = c := by simp only [Wb.tick, hdone]
    rw [hdone]
    have hwait : s.waiting i = none := by rw [waiting, hready, if_pos rfl]
    exact ⟨hinv, hrel, fun _ ↦ ⟨hc, next_of_ready hready⟩, by simp [hwait]⟩
  | some x =>
    have hacc := h.rel.access_tick h.inv hf hx
    have hd : c.access x = d.access x := by
      cases hh : held with
      | none => rw [(h.idle hh).1]
      | some y =>
        obtain rfl : y = x := Option.some.inj ((hf.held y hh).symm.trans hx)
        exact h.busy _ hh
    cases hready : s.ready i with
    | true =>
      rw [hready, if_pos rfl] at hacc
      have hdone : s.done i = some x := by rw [Win.done, hready, if_pos rfl, hx]
      have hwait : s.waiting i = none := by rw [waiting, hready, if_pos rfl]
      refine ⟨hinv, hrel, fun _ ↦ ⟨?_, ?_⟩, by simp [hwait]⟩
      · rw [hdone, hacc.2, hd]
        rfl
      · rw [hacc.1, next_of_ready hready]
    | false =>
      rw [hready, if_neg Bool.false_ne_true] at hacc
      have hdone : s.done i = none := by rw [Win.done, hready, if_neg Bool.false_ne_true]
      have hwait := waiting_eq hx hready
      rw [hdone]
      refine ⟨hinv, hrel, by simp [hwait], fun y hy ↦ ?_⟩
      rw [hwait, Option.mem_some_iff] at hy
      subst hy
      rw [hacc, hd]
      rfl

/-- **The RTL does to its caches and the memory what the completed accesses do to the write-back
cache, in every run that keeps to the handshake.** -/
theorem Cleared.runs_run {inp : ℕ → WinIn} (h : s.Cleared) (hd : Driven inp s) (n : ℕ) :
    ∃ p c, (run inp s n).Runs (held inp s n) p c (s.contents.accesses (log inp s n)) := by
  induction n with
  | zero => exact ⟨_, _, h.runs⟩
  | succ n ih =>
    obtain ⟨p, c, hr⟩ := ih
    have ht := hr.tick (hd n)
    rw [Wb.accesses, Wb.accesses, ← List.foldl_append] at ht
    exact ⟨_, _, ht⟩

/-! ## Driving the window -/

section

variable (script : ℕ → WinIn) (s : Win)

/-- The window and the number of accesses completed, if it is given a script of data accesses, each
held until it is ready. -/
def driven : ℕ → Win × ℕ
  | 0 => (s, 0)
  | n + 1 =>
    let (t, k) := driven n
    (t.tick (script k), if t.ready (script k) then k + 1 else k)

/-- The inputs then. -/
def drive (n : ℕ) : WinIn := script (driven script s n).2

variable {script s}

theorem run_drive (n : ℕ) : run (drive script s) s n = (driven script s n).1 := by
  induction n with
  | zero => rfl
  | succ n ih =>
    rw [run, ih]
    rfl

/-- Data accesses at one index keep to the handshake. -/
theorem driven_drive (idx : BitVec 9) (hf : ∀ k, (script k).fetchReq = false)
    (hs : ∀ k, (script k).softRst = false) (hi : ∀ k, (script k).winDataIdx = idx)
    (hx : ∀ k x a, (script k).access = some x → x.dataWord = some a → Dcache.idx a = idx)
    (h0 : s.dc.rdIdxQ = idx) : Driven (drive script s) s := by
  have hnf : ∀ k a, (script k).access ≠ some (.fetch a) := by
    intro k a h
    exact absurd ((access_fetch h).1.symm.trans (hf k)) (by simp)
  intro n
  refine ⟨fun h ↦ absurd (h.symm.trans (hf _)) (by simp),
    fun h ↦ absurd (h.symm.trans (hs _)) (by simp), ?_,
    fun a h ↦ absurd h (hnf _ a), fun x a hacc ha ↦ ?_⟩
  · intro x hheld
    cases n with
    | zero => exact absurd hheld (by rintro ⟨⟩)
    | succ n =>
      rw [held, waiting, run_drive] at hheld
      split at hheld
      · exact absurd hheld (by simp)
      · next hr =>
        have hk : (driven script s (n + 1)).2 = (driven script s n).2 := if_neg hr
        rw [drive, hk]
        exact hheld
  · rw [hx _ x a hacc ha]
    cases n with
    | zero => exact h0
    | succ n => exact hi _

/-- The accesses that complete are those of the script. -/
theorem log_drive (n : ℕ) : log (drive script s) s n =
    (List.range (driven script s n).2).filterMap fun k ↦ (script k).access := by
  induction n with
  | zero => rfl
  | succ n ih =>
    have hnext : (driven script s (n + 1)).2 =
        if (driven script s n).1.ready (script (driven script s n).2) then (driven script s n).2 + 1
        else (driven script s n).2 := rfl
    rw [log, ih, run_drive, Win.done, hnext, drive]
    split
    · rw [List.range_succ, List.filterMap_append]
      congr 1
    · exact List.append_nil _

end

/-- A window at power-on, in front of a memory. -/
def powerOn (mem : PWord → Word) : Win where
  ic := .reset (fun _ ↦ .zero) (fun _ ↦ 0#32) .zero 0#32
  dc := .reset (fun _ ↦ .zero) (fun _ ↦ ⟨0#4, 0#32⟩) .zero ⟨0#4, 0#32⟩
  br := .reset
  ps := ⟨mem, .idle⟩

theorem isReset_powerOn (mem : PWord → Word) : (powerOn mem).IsReset := ⟨rfl, rfl, rfl, rfl⟩

/-- The CPU in its power-on reset. -/
def porIn : WinIn where
  softRst := false
  clear := true
  activeMode := true
  instrAddr := 0#32
  fetchReq := true
  fetchAddr := 0#32
  dataReq := false
  dataAddr := 0#32
  dataWaddr := 0#32
  memWrite := false
  dataOut := 0#32
  byteWe := 0#4
  ctl := ⟨false, false, false, 0#32⟩

theorem por_porIn : Por porIn := ⟨rfl, rfl⟩

/-- A data access of RV32. -/
def dataAccess (addr : Word) (memWrite : Bool) (dataOut : Word) (byteWe : BitVec 4) : WinIn :=
  { porIn with
    clear := false
    fetchReq := false
    dataReq := true
    dataAddr := addr
    dataWaddr := addr
    memWrite := memWrite
    dataOut := dataOut
    byteWe := byteWe
    ctl := ⟨true, true, true, 0#32⟩ }

theorem rdIdxQ_powerOn (mem : PWord → Word) (n : ℕ) :
    (run (fun _ ↦ porIn) (powerOn mem) n).dc.rdIdxQ = 0#9 := by
  cases n with
  | zero => rfl
  | succ n =>
    change porIn.winDataIdx = 0#9
    decide

theorem driven_dataAccess {script : ℕ → WinIn} {s : Win}
    (h : ∀ k, ∃ addr we data be, script k = dataAccess addr we data be ∧
      addr.extractLsb' 2 9 = 0#9)
    (h0 : s.dc.rdIdxQ = 0#9) : Driven (drive script s) s := by
  refine driven_drive 0#9 (fun k ↦ ?_) (fun k ↦ ?_) (fun k ↦ ?_) (fun k x a hx ha ↦ ?_) h0
  · obtain ⟨addr, we, data, be, hk, -⟩ := h k
    rw [hk]
    rfl
  · obtain ⟨addr, we, data, be, hk, -⟩ := h k
    rw [hk]
    rfl
  · obtain ⟨addr, we, data, be, hk, hi⟩ := h k
    rw [hk]
    exact hi
  · obtain ⟨addr, we, data, be, hk, hi⟩ := h k
    rw [← (access_data hx ha).2.2.2.1, hk, ← hi]
    change (addr.extractLsb' 2 21).extractLsb' 0 9 = _
    refine BitVec.eq_of_getLsbD_eq fun j hj ↦ ?_
    simp [hj, show j < 21 by omega]

end Vux9k.Rtl.Win

import Vux9k.Rtl.WindowRun

/-!
# How long a window access waits

With a memory controller that takes each burst in the cycle it is raised and keeps to the timing of
`soc_pkg`, the phases of the window last a fixed number of cycles each, so that how long an access
waits depends on the caches' tags alone.
-/

set_option autoImplicit false

namespace Vux9k.Rtl

/-- `soc_pkg::XMEM_READ_LATENCY`. -/
def xmemReadLatency : ℕ := 35

/-- `soc_pkg::XMEM_WRITE_LATENCY`. -/
def xmemWriteLatency : ℕ := 34

/-- What a miss costs whose line is invalid or clean: the fill, `R+14`. -/
def lineFill : ℕ := xmemReadLatency + 14

/-- What a data miss costs whose line is dirty: the write-back and the fill, `(W+14)+2+(R+14)`. -/
def lineDirty : ℕ := xmemWriteLatency + 14 + 2 + lineFill

/-- What a probed instruction miss costs, `(W+14)+3` cycles before the fill's. -/
def fetchProbe : ℕ := xmemWriteLatency + 14 + 3 + lineFill

/-- The cycles an access waits. -/
def Wb.wait (c : Wb) : Access → ℕ
  | .fetch a => if c.IHolds a then 0
    else if c.tags (Dcache.line a) = ⟨true, true, Dcache.tag a⟩ then fetchProbe
    else lineFill
  | .load a => if c.Holds a then 0 else if c.dirty (Dcache.line a) then lineDirty else lineFill
  | .store a _ _ => if c.Holds a then 0 else if c.dirty (Dcache.line a) then lineDirty else lineFill

theorem Access.eq_fetch (x : Access) (h : x.dataWord = none) : ∃ a, x = .fetch a := by
  cases x with
  | fetch a => exact ⟨a, rfl⟩
  | load a => simp [Access.dataWord] at h
  | store a data be => simp [Access.dataWord] at h

namespace Win

/-! ## The controller's timing -/

/-- The controller takes a burst. -/
def taken (s : Win) (i : WinIn) : Bool := (s.req i).valid && s.ps.reqReady i.ctl

/-- The controller keeps to its timing in a cycle, `e` cycles after the one in which it took its
burst: it takes a burst in the cycle it is raised, word `k` of a read comes in `R - 3 + 2k`, the
response of a write in `W + 14`. -/
structure Keeps (s : Win) (i : WinIn) (e : ℕ) : Prop where
  ready : (s.req i).valid = true → i.ctl.ready = true
  read : ∀ a n k, s.ps.burst = .read a n k → i.ctl.rsp = decide (e = xmemReadLatency - 3 + 2 * k)
  write : ∀ a n k take, s.ps.burst = .write a n k take →
    s.ps.rspValid i.ctl = decide (e = xmemWriteLatency + 14)

variable {s : Win} {i : WinIn} {held : Option Access} {c d : Wb} {e w : ℕ}

/-- A data access that starts is looked up at once: none starts in the cycle after a store. -/
def Fresh (s : Win) (held : Option Access) (i : WinIn) : Prop :=
  held = none → ∀ x a, i.access = some x → x.dataWord = some a → s.dc.staleQ = false

/-! ## Lookups -/

theorem WritingBack.tick_isProbe (h : s.WritingBack held) (hlast : s.dc.last (s.dcIn i) = false) :
    (s.tick i).dc.isProbe = s.dc.isProbe := by
  have hstate : s.dc.tickState (s.dcIn i) = { s.dc with primed := true } := by
    simp only [Dcache.tickState, h.state, hlast, Bool.false_eq_true, if_false]
  rw [tick_dc, Dcache.tick_isProbe, hstate]

section

variable (hf : s.Follows held i) (hk : s.Keeps i e)

include hf hk

end

/-! ## One cycle between two transfers -/

theorem replayQ_of_calm (hi : s.ic.Calm) : (s.tick i).ic.replayQ = false := by
  simp [Win.tick, Icache.tick, hi.state]

/-- Between two transfers only a store makes the registered tag and word stale. -/
theorem staleQ_of_calm (hd : s.dc.Calm) (hdsw : s.dc.swept = true)
    (hst : (s.dc.hit (s.dcIn i) && (s.dcIn i).dataWe) = false) : (s.tick i).dc.staleQ = false := by
  have hlast := Dcache.last_of_done (Dcache.done_of_idle (i := s.dcIn i) hd.state)
  have htag := Dcache.tagWrite_none hdsw hst hlast
  have hword := Dcache.wordWrite_none hdsw hst (by simp [hd.state])
  simp [Win.tick, Dcache.tick, htag, hword, hd.state, collides]

/-- No data access of a run starts in the cycle after a store. -/
def Spaced (inp : ℕ → WinIn) (s : Win) : Prop :=
  ∀ n, (run inp s n).Fresh (Win.held inp s n) (inp n)

end Win

end Vux9k.Rtl

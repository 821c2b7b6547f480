import Vux9k.Lib.Fields
import Vux9k.Rtl.Window

/-!
# What the window is at

A driver that keeps to the CPU's handshake presents the index of a window access a cycle ahead and
holds the access until it completes.  Then the two caches, the bridge and the memory controller are
in step: at most one of the caches is out of its IDLE state, and the burst in flight is its own, as
far along as its word counter says.  `Phase` lists what the window can be at, `Phase.next` what a
clock edge makes of it, and `Inv.tick` says that the RTL follows, whatever the memory controller's
delays.
-/

set_option autoImplicit false

namespace Vux9k.Rtl

/-! ## The instruction cache -/

namespace Icache

/-- The word of its line. -/
def word (w : PWord) : BitVec 3 := w.extractLsb' 0 3

theorem eq_append (w : PWord) : w = tag w ++ line w ++ word w :=
  eq_fields (show BitVec (9 + 9 + 3) from w)

theorem idx_eq (w : PWord) : idx w = line w ++ word w :=
  extract_fields (show BitVec (9 + 9 + 3) from w)

theorem idx_eq_iff (w : PWord) (l : BitVec 9) (k : BitVec 3) :
    idx w = l ++ k ↔ line w = l ∧ word w = k := by
  rw [idx_eq]
  constructor
  · intro h
    have hl := congrArg (BitVec.extractLsb' 3 9) h
    have hk := congrArg (BitVec.extractLsb' 0 3) h
    rw [extract_high, extract_high] at hl
    rw [extract_low, extract_low] at hk
    exact ⟨hl, hk⟩
  · rintro ⟨rfl, rfl⟩
    rfl

theorem line_idx (w : PWord) : (idx w).extractLsb' 3 9 = line w := by
  rw [idx_eq]
  exact extract_high _ _

theorem beat_memAddr (w : PWord) {k : ℕ} (hk : k < 8) :
    Psram.beat (memAddr w) k = tag w ++ line w ++ BitVec.ofNat 3 k :=
  append_add_ofNat (tag w ++ line w) hk

/-- What the read-ahead registers say, but in the cycle after a fill. -/
structure Ahead (c : Icache) : Prop where
  word : c.replayQ = false → c.wordQ = c.words c.rdIdxQ
  tag : c.replayQ = false → c.conflictQ = false → c.tagQ = c.tags (c.rdIdxQ.extractLsb' 3 9)
  conflict : c.replayQ = false → c.conflictQ = true → c.tags (c.rdIdxQ.extractLsb' 3 9) = .zero

/-- Between two fetches. -/
structure Calm (c : Icache) : Prop where
  state : c.state = .idle
  cnt : c.cnt = 0#3

variable {c : Icache} {i : IcacheIn}

theorem wordWe_of_idle (h : c.state = .idle) : c.wordWe i = false := by
  simp [wordWe, memSel, h]

theorem last_of_idle (h : c.state = .idle) : c.last i = false := by
  rw [last, wordWe_of_idle h, Bool.false_and]

theorem Ahead.tick (c : Icache) (i : IcacheIn) : (c.tick i).Ahead := by
  have hidle : (c.tick i).replayQ = false → c.state = .idle := by
    intro h
    simpa [Icache.tick] using h
  refine ⟨fun h ↦ ?_, fun _ hc ↦ ?_, fun h hc ↦ ?_⟩
  · simp only [Icache.tick, wordWe_of_idle (hidle h), Bool.false_eq_true, if_false]
  · exact (ramTick_of_not_collides hc).symm
  · obtain ⟨t, hw, ht⟩ := ramTick_of_collides c.tags hc
    refine ht.trans ?_
    simp only [tagWrite, last_of_idle (hidle h), Bool.false_eq_true, if_false] at hw
    split at hw <;> split at hw <;> simp_all

/-- A lookup at the index presented ahead goes by the tag in the RAM. -/
theorem hit_iff (ha : c.Ahead) (hl : c.lookup = true) (hidx : c.rdIdxQ = idx i.fetchAddr) :
    c.hit i = true ↔ c.tags (line i.fetchAddr) = ⟨true, tag i.fetchAddr⟩ := by
  have hr : c.replayQ = false := by
    simp only [lookup, Bool.and_eq_true, Bool.not_eq_true'] at hl
    exact hl.2
  have hline : c.rdIdxQ.extractLsb' 3 9 = line i.fetchAddr := by rw [hidx, line_idx]
  cases hc : c.conflictQ with
  | true =>
    have hz := ha.conflict hr hc
    rw [hline] at hz
    simp [hit, hc, hz, ITag.zero]
  | false =>
    have ht := ha.tag hr hc
    rw [hline] at ht
    simp [hit, hl, hc, hidx, ht]

/-- An edge in IDLE that starts no fill. -/
theorem Calm.tick (h : c.Calm) (hgo : (c.miss i && !i.fillHold) = false) : (c.tick i).Calm := by
  refine ⟨?_, ?_⟩
  · simp only [Icache.tick, h.state, hgo, Bool.false_eq_true, if_false]
  · simp only [Icache.tick, wordWe_of_idle h.state, Bool.false_eq_true, if_false, h.cnt]

/-- An edge in IDLE that invalidates nothing. -/
theorem Calm.tick_rams (h : c.Calm) (hs : c.swept = true) (hinv : i.inv = false) :
    (c.tick i).tags = c.tags ∧ (c.tick i).words = c.words := by
  have hw : c.tagWrite i = none := by
    simp [tagWrite, hs, last_of_idle h.state, hinv]
  constructor
  · simp only [Icache.tick, hw, ramTick]
  · simp only [Icache.tick, wordWe_of_idle h.state, Bool.false_eq_true, if_false]

end Icache

/-! ## The data cache -/

theorem DTag.eq_mk {t : DTag} {b : Bool} {x : BitVec 12} (hv : t.valid = true) (hd : t.dirty = b)
    (ht : t.tag = x) : t = ⟨true, b, x⟩ := by
  subst hd ht
  rw [← hv]

namespace Dcache

/-- The word of its line. -/
def word (w : PWord) : BitVec 3 := w.extractLsb' 0 3

@[simp] theorem line_append (t : BitVec 12) (l : BitVec 6) (k : BitVec 3) :
    line (t ++ l ++ k) = l := extract_middle t l k

@[simp] theorem tag_append (t : BitVec 12) (l : BitVec 6) (k : BitVec 3) : tag (t ++ l ++ k) = t :=
  extract_top t l k

theorem eq_append (w : PWord) : w = tag w ++ line w ++ word w :=
  eq_fields (show BitVec (12 + 6 + 3) from w)

theorem idx_eq (w : PWord) : idx w = line w ++ word w :=
  extract_fields (show BitVec (12 + 6 + 3) from w)

theorem eq_append_iff (w : PWord) (t : BitVec 12) (l : BitVec 6) (k : BitVec 3) :
    w = t ++ l ++ k ↔ tag w = t ∧ line w = l ∧ word w = k := by
  constructor
  · intro h
    refine ⟨by rw [h, tag_append], by rw [h, line_append], ?_⟩
    rw [h]
    exact extract_low (t ++ l) k
  · rintro ⟨rfl, rfl, rfl⟩
    exact eq_append w

theorem idx_eq_iff (w : PWord) (l : BitVec 6) (k : BitVec 3) :
    idx w = l ++ k ↔ line w = l ∧ word w = k := by
  rw [idx_eq]
  constructor
  · intro h
    have hl := congrArg (BitVec.extractLsb' 3 6) h
    have hk := congrArg (BitVec.extractLsb' 0 3) h
    rw [extract_high, extract_high] at hl
    rw [extract_low, extract_low] at hk
    exact ⟨hl, hk⟩
  · rintro ⟨rfl, rfl⟩
    rfl

theorem line_idx (w : PWord) : (idx w).extractLsb' 3 6 = line w := by
  rw [idx_eq]
  exact extract_high _ _

theorem beat_append (t : BitVec 12) (l : BitVec 6) {k : ℕ} (hk : k < 8) :
    Psram.beat (t ++ l ++ 0#3) k = t ++ l ++ BitVec.ofNat 3 k :=
  append_add_ofNat (t ++ l) hk

/-- What the read-ahead registers say when they are not stale. -/
structure Ahead (c : Dcache) : Prop where
  word : c.staleQ = false → c.wordQ = c.words c.rdIdxQ
  tag : c.staleQ = false → c.tagQ = c.tags (c.rdIdxQ.extractLsb' 3 6)

/-- Between two line transfers. -/
structure Calm (c : Dcache) : Prop where
  state : c.state = .idle
  cnt : c.cnt = 0#3
  primed : c.primed = false

variable {c : Dcache} {i : DcacheIn}

theorem Ahead.tick (c : Dcache) (i : DcacheIn) : (c.tick i).Ahead := by
  have hstale : (c.tick i).staleQ = false → c.state = .idle ∧
      collides (c.tagWrite i) (i.rdIdx.extractLsb' 3 6) = false ∧
      collides (c.wordWrite i) i.rdIdx = false := by
    intro h
    simp only [Dcache.tick, Bool.or_eq_false_iff, decide_eq_false_iff_not, not_not] at h
    exact ⟨h.1.1, h.1.2, h.2⟩
  refine ⟨fun h ↦ ?_, fun h ↦ ?_⟩
  · obtain ⟨hidle, -, hword⟩ := hstale h
    simp only [Dcache.tick, ra, hidle, reduceCtorEq, if_false, ramTick_of_not_collides hword]
  · obtain ⟨-, htag, -⟩ := hstale h
    exact (ramTick_of_not_collides htag).symm

theorem Ahead.of_lookup (ha : c.Ahead) (hl : c.lookup i = true) :
    c.tagQ = c.tags (line i.dataAddr) ∧ c.wordQ = c.words (idx i.dataAddr) := by
  simp only [lookup, Bool.and_eq_true, Bool.not_eq_true', decide_eq_true_eq] at hl
  obtain ⟨⟨-, hstale⟩, hidx⟩ := hl
  exact ⟨by rw [ha.tag hstale, hidx, line_idx], by rw [ha.word hstale, hidx]⟩

theorem lookup_of_state (h : c.state ≠ .idle) : c.lookup i = false := by
  simp [lookup, h]

theorem lookup_of_win (h : win i = false) : c.lookup i = false := by
  simp [lookup, h]

theorem memSel_of_idle (h : c.state = .idle) : c.memSel = false := by
  simp [memSel, h]

theorem done_of_idle (h : c.state = .idle) : c.done i = false := by
  rw [done, memSel_of_idle h, Bool.false_and]

theorem last_of_done (h : c.done i = false) : c.last i = false := by
  rw [last, h, Bool.false_and]

theorem cntNext_of_not (hd : c.done i = false) (hw : i.memWnext = false) : c.cntNext i = c.cnt := by
  simp [cntNext, hd, hw]

theorem tagWrite_none (hs : c.swept = true) (hst : (c.hit i && i.dataWe) = false)
    (hlast : c.last i = false) : c.tagWrite i = none := by
  simp [tagWrite, hs, hst, hlast]

theorem wordWrite_none (hs : c.swept = true) (hst : (c.hit i && i.dataWe) = false)
    (hdone : (c.state = .fill && c.done i) = false) : c.wordWrite i = none := by
  simp [wordWrite, hs, hst, hdone]

theorem hit_of_lookup (h : c.lookup i = false) : c.hit i = false := by
  rw [hit, h, Bool.false_and]

/-! The registers of the state machine after an edge. -/

theorem tick_state : (c.tick i).state = (c.tickState i).state := rfl

theorem tick_isProbe : (c.tick i).isProbe = (c.tickState i).isProbe := rfl

theorem tick_primed : (c.tick i).primed = (c.tickState i).primed := rfl

theorem tick_lineR : (c.tick i).lineR = (c.tickState i).lineR := rfl

theorem tick_tagR : (c.tick i).tagR = (c.tickState i).tagR := rfl

theorem tick_cnt : (c.tick i).cnt = c.cntNext i := rfl

/-- An edge in IDLE that starts no transfer. -/
theorem Calm.tick (h : c.Calm) (hmiss : c.miss i = false) (hprobe : c.probeWb i = false)
    (hw : i.memWnext = false) : (c.tick i).Calm := by
  have hst : c.tickState i = c := by
    simp only [tickState, h.state, hmiss, hprobe, Bool.false_eq_true, if_false]
  refine ⟨?_, ?_, ?_⟩
  · rw [tick_state, hst, h.state]
  · rw [tick_cnt, cntNext_of_not (done_of_idle h.state) hw, h.cnt]
  · rw [tick_primed, hst, h.primed]

/-- An edge in IDLE that stores nothing. -/
theorem Calm.tick_rams (h : c.Calm) (hs : c.swept = true) (hst : (c.hit i && i.dataWe) = false) :
    (c.tick i).tags = c.tags ∧ (c.tick i).words = c.words := by
  have ht := tagWrite_none hs hst (last_of_done (done_of_idle h.state))
  have hw := wordWrite_none (i := i) hs hst (by simp [h.state])
  simp only [Dcache.tick, ht, hw, ramTick, and_self]

end Dcache

/-! ## The driver -/

/-- A window access, at a PSRAM word. -/
inductive Access : Type
  | fetch (w : PWord)
  | load (w : PWord)
  | store (w : PWord) (data : Word) (be : BitVec 4)
  deriving DecidableEq

/-- The word of a data access. -/
def Access.dataWord : Access → Option PWord
  | .fetch _ => none
  | .load w => some w
  | .store w _ _ => some w

/-- The window access on the bus. -/
def WinIn.access (i : WinIn) : Option Access :=
  if i.fetchReq && !i.softRst && i.xmemFetchSel then some (.fetch i.fetchWord)
  else if i.dataReq && i.xmemWsel then
    some (if i.memWrite then .store i.dataWord i.dataOut i.byteWe else .load i.dataWord)
  else none

namespace Win

/-- No access waits. -/
def ready (s : Win) (i : WinIn) : Bool := s.instrReady i && s.dataReady i

/-- The access that waits into the next cycle. -/
def waiting (s : Win) (i : WinIn) : Option Access := if s.ready i then none else i.access

/-- The CPU's handshake, with `held` the access that waits: one access at a time, held until it is
ready, none from a soft reset on, and its index presented a cycle ahead. -/
structure Follows (s : Win) (held : Option Access) (i : WinIn) : Prop where
  one : i.fetchReq = true → i.dataReq = false
  soft : i.softRst = true → i.dataReq = false
  held : ∀ x ∈ held, i.access = some x
  fetchIdx : ∀ a, i.access = some (.fetch a) → s.ic.rdIdxQ = Icache.idx a
  dataIdx : ∀ x a, i.access = some x → x.dataWord = some a → s.dc.rdIdxQ = Dcache.idx a

variable {s : Win} {i : WinIn} {held : Option Access}

theorem access_fetch {a : PWord} (h : i.access = some (.fetch a)) :
    i.fetchReq = true ∧ i.softRst = false ∧ i.xmemFetchSel = true ∧ i.fetchWord = a := by
  unfold WinIn.access at h
  split at h
  · next hc =>
    simp only [Bool.and_eq_true, Bool.not_eq_true'] at hc
    exact ⟨hc.1.1, hc.1.2, hc.2, by simpa using h⟩
  · split at h
    · split at h <;> simp at h
    · simp at h

theorem access_data {x : Access} {a : PWord} (h : i.access = some x) (hx : x.dataWord = some a) :
    (i.fetchReq && !i.softRst && i.xmemFetchSel) = false ∧ i.dataReq = true ∧ i.xmemWsel = true ∧
      i.dataWord = a ∧
      x = if i.memWrite then .store i.dataWord i.dataOut i.byteWe else .load i.dataWord := by
  unfold WinIn.access at h
  split at h
  · next hc =>
    simp only [Option.some.injEq] at h
    subst h
    simp [Access.dataWord] at hx
  · next hc =>
    split at h
    · next hd =>
      simp only [Bool.and_eq_true, Option.some.injEq] at hd h
      refine ⟨Bool.eq_false_of_not_eq_true hc, hd.1, hd.2, ?_, h.symm⟩
      subst h
      split at hx <;> simpa [Access.dataWord] using hx
    · simp at h

/-- What a fetch on the bus means to the caches. -/
theorem Follows.fetch (h : s.Follows held i) {a : PWord} (ha : i.access = some (.fetch a)) :
    Icache.win (s.icIn i) = true ∧ Dcache.win (s.dcIn i) = false ∧ (s.icIn i).inv = false ∧
      i.fetchWord = a ∧ i.softRst = false := by
  obtain ⟨hreq, hsoft, hsel, hw⟩ := access_fetch ha
  have hd := h.one hreq
  exact ⟨by simp [Icache.win, icIn, hreq, hsoft, hsel], by simp [Dcache.win, dcIn, dataIn, hd],
    by simp [icIn, hd], hw, hsoft⟩

/-- What a data access on the bus means to them. -/
theorem Follows.data (h : s.Follows held i) {x : Access} {a : PWord} (hx : i.access = some x)
    (ha : x.dataWord = some a) :
    Icache.win (s.icIn i) = false ∧ Dcache.win (s.dcIn i) = true ∧ i.dataWord = a ∧
      i.softRst = false := by
  obtain ⟨hf, hreq, hsel, hw, -⟩ := access_data hx ha
  refine ⟨by simpa [Icache.win, icIn] using hf, by simp [Dcache.win, dcIn, dataIn, hreq, hsel], hw,
    ?_⟩
  by_contra hs
  exact absurd (hreq.symm.trans (h.soft (by simpa using hs))) nofun

/-! ## Phases -/

/-- What the window is at: a line fill of either cache or a write-back, its request not yet taken,
or as many of its words answered or taken. -/
inductive Phase : Type
  | idle
  | ifillReq
  | ifill (k : ℕ)
  | wbPrime
  | wbReq
  | wb (k : ℕ) (take : Bool)
  | dfillReq
  | dfill (k : ℕ)
  deriving DecidableEq

/-- What a clock edge makes of it. -/
def Phase.next (s : Win) (i : WinIn) : Phase → Phase
  | .idle =>
    if s.ic.miss (s.icIn i) then if s.dc.probeDirty i.fetchWord then .wbPrime else .ifillReq
    else if s.dc.miss (s.dcIn i) then if s.dc.victimDirty then .wbPrime else .dfillReq
    else .idle
  | .ifillReq => if i.ctl.ready then .ifill 0 else .ifillReq
  | .ifill k => if i.ctl.rsp then if k = 7 then .idle else .ifill (k + 1) else .ifill k
  | .wbPrime => .wbReq
  | .wbReq => if i.ctl.ready then .wb 1 false else .wbReq
  | .wb k take =>
    if i.ctl.rsp && k = 8 && !take then if s.dc.isProbe then .idle else .dfillReq
    else .wb (k + take.toNat) (i.ctl.wnext && k + take.toNat < 8)
  | .dfillReq => if i.ctl.ready then .dfill 0 else .dfillReq
  | .dfill k => if i.ctl.rsp then if k = 7 then .idle else .dfill (k + 1) else .dfill k

/-- No burst is in flight. -/
structure Free (s : Win) : Prop where
  busy : s.br.busy = false
  burst : s.ps.burst = .idle

/-- The instruction cache fills the line of the fetch that waits. -/
structure Fetching (s : Win) (held : Option Access) (a : PWord) : Prop where
  held : held = some (.fetch a)
  state : s.ic.state = .fill
  dc : s.dc.Calm
  clean : s.dc.probeDirty a = false

/-- The data cache fills the line of the access that waits. -/
structure Filling (s : Win) (held : Option Access) : Prop where
  held : ∃ x a, held = some x ∧ x.dataWord = some a ∧ Dcache.line a = s.dc.lineR ∧
    Dcache.tag a = s.dc.tagR
  state : s.dc.state = .fill
  primed : s.dc.primed = false
  ic : s.ic.Calm

/-- The data cache writes a line back, for the fetch or for the access that waits. -/
structure WritingBack (s : Win) (held : Option Access) : Prop where
  held : (s.dc.isProbe = true ∧ ∃ a, held = some (.fetch a) ∧ Dcache.line a = s.dc.lineR ∧
      Dcache.tag a = s.dc.tagR ∧ s.ic.tags (Icache.line a) ≠ ⟨true, Icache.tag a⟩) ∨
    (s.dc.isProbe = false ∧ ∃ x a, held = some x ∧ x.dataWord = some a ∧
      Dcache.line a = s.dc.lineR)
  state : s.dc.state = .wb
  tag : s.dc.tags s.dc.lineR = ⟨true, true, s.dc.tagR⟩
  ic : s.ic.Calm

/-- The window is at a phase, with `held` the access that waits. -/
inductive At (s : Win) (held : Option Access) : Phase → Prop
  | idle (hi : s.ic.Calm) (hd : s.dc.Calm) (hb : s.Free) : At s held .idle
  | ifillReq {a : PWord} (h : s.Fetching held a) (hc : s.ic.cnt = 0#3) (hb : s.Free) :
      At s held .ifillReq
  | ifill {a : PWord} {k : ℕ} (h : s.Fetching held a) (hk : k < 8)
      (hc : s.ic.cnt = BitVec.ofNat 3 k) (hb : s.br = ⟨true, false⟩)
      (hp : s.ps.burst = .read (Icache.memAddr a) 8 k) : At s held (.ifill k)
  | wbPrime (h : s.WritingBack held) (hc : s.dc.cnt = 0#3) (hp : s.dc.primed = false)
      (hb : s.Free) : At s held .wbPrime
  | wbReq (h : s.WritingBack held) (hc : s.dc.cnt = 0#3) (hp : s.dc.primed = true)
      (hq : s.dc.wordQ = s.dc.words (s.dc.lineR ++ 0#3)) (hb : s.Free) : At s held .wbReq
  | wb {k : ℕ} {take : Bool} (h : s.WritingBack held) (hpos : 0 < k) (hk : k + take.toNat ≤ 8)
      (hc : s.dc.cnt = BitVec.ofNat 3 (k - 1 + take.toNat)) (hp : s.dc.primed = true)
      (hq : s.dc.wordQ = s.dc.words (s.dc.lineR ++ s.dc.cnt)) (hb : s.br = ⟨true, true⟩)
      (hw : s.ps.burst = .write s.dc.memAddr 8 k take) : At s held (.wb k take)
  | dfillReq (h : s.Filling held) (hc : s.dc.cnt = 0#3) (hb : s.Free) : At s held .dfillReq
  | dfill {k : ℕ} (h : s.Filling held) (hk : k < 8) (hc : s.dc.cnt = BitVec.ofNat 3 k)
      (hb : s.br = ⟨true, true⟩) (hp : s.ps.burst = .read s.dc.memAddr 8 k) : At s held (.dfill k)

/-- What holds between two clock edges once the caches are swept. -/
structure Inv (s : Win) (held : Option Access) (p : Phase) : Prop where
  icSwept : s.ic.swept = true
  dcSwept : s.dc.swept = true
  icAhead : s.ic.Ahead
  dcAhead : s.dc.Ahead
  at' : At s held p

/-! ## The signals of a phase -/

theorem tick_dc : (s.tick i).dc = s.dc.tick (s.dcIn i) := rfl

theorem wordWe_eq : s.ic.wordWe (s.icIn i) =
    (s.ic.memSel && (s.br.busy && s.ps.rspValid i.ctl && !s.br.busyData)) := by
  simp only [Icache.wordWe, icIn, Bridge.instrReady, bridgeIn]
  cases s.ic.memSel <;> rfl

theorem done_eq : s.dc.done (s.dcIn i) =
    (s.dc.memSel && (s.br.busy && s.ps.rspValid i.ctl && s.br.busyData)) := by
  simp only [Dcache.done, dcIn, dataIn, Bridge.dataReady, bridgeIn]
  cases s.dc.memSel <;> rfl

theorem dataReady_eq :
    s.dataReady i = (!(i.dataReq && i.xmemWsel) || s.dc.hit (s.dcIn i)) := rfl

theorem Free.rspValid (h : s.Free) : s.ps.rspValid i.ctl = false := by
  simp [Psram.rspValid, h.burst]

theorem Free.wdataNext (h : s.Free) : s.ps.wdataNext i.ctl = false := by
  simp [Psram.wdataNext, h.burst]

theorem Free.rspLast (h : s.Free) : s.ps.rspLast i.ctl = false := by
  simp [Psram.rspLast, h.burst, h.rspValid]

theorem Free.reqReady (h : s.Free) : s.ps.reqReady i.ctl = i.ctl.ready := by
  simp [Psram.reqReady, h.burst]

theorem wdataNext_read {a : PWord} {n k : ℕ} (h : s.ps.burst = .read a n k) :
    s.ps.wdataNext i.ctl = false := by
  simp [Psram.wdataNext, h]

/-- Without a request nothing happens on the bus. -/
theorem Free.tick (h : s.Free) (hreq : (s.req i).valid = false) :
    (s.tick i).Free ∧ (s.tick i).ps.mem = s.ps.mem := by
  have hps : (s.tick i).ps = s.ps := by
    simp [Win.tick, Psram.tick, h.burst, hreq]
  refine ⟨⟨?_, hps ▸ h.burst⟩, by rw [hps]⟩
  have hv : (s.br.req (s.bridgeIn i)).valid = false := hreq
  simp [Win.tick, Bridge.tick, hv, h.rspLast, h.busy]

/-- A request that the controller does not take stays. -/
theorem Free.tick_wait (h : s.Free) (hr : i.ctl.ready = false) :
    (s.tick i).Free ∧ (s.tick i).ps.mem = s.ps.mem := by
  have hps : (s.tick i).ps = s.ps := by
    simp [Win.tick, Psram.tick, h.burst, hr]
  refine ⟨⟨?_, hps ▸ h.burst⟩, by rw [hps]⟩
  simp [Win.tick, Bridge.tick, h.reqReady, hr, h.rspLast, h.busy]

/-- The controller takes a request. -/
theorem tick_br_taken (hb : s.Free) (hv : (s.req i).valid = true) (hr : i.ctl.ready = true) :
    (s.tick i).br = ⟨true, s.dc.memSel⟩ := by
  have hv' : (s.br.req (s.bridgeIn i)).valid = true := hv
  simp only [Win.tick, Bridge.tick, hv', hb.reqReady, hr, Bool.and_self, if_true]
  rfl

/-- A burst in flight. -/
theorem tick_br_busy (hb : s.br.busy = true) : (s.tick i).br =
    if s.ps.rspLast i.ctl then { s.br with busy := false } else s.br := by
  have hv : (s.br.req (s.bridgeIn i)).valid = false := by
    simp [Bridge.req, hb]
  simp only [Win.tick, Bridge.tick, hv, Bool.false_and, Bool.false_eq_true, if_false]

/-- One word of a read. -/
theorem tick_ps_read {a : PWord} {k : ℕ} (hp : s.ps.burst = .read a 8 k) :
    (s.tick i).ps.burst =
        (if i.ctl.rsp then if k = 7 then .idle else .read a 8 (k + 1) else .read a 8 k) ∧
      (s.tick i).ps.mem = s.ps.mem := by
  simp only [Win.tick, Psram.tick, hp]
  cases i.ctl.rsp with
  | false => exact ⟨hp, rfl⟩
  | true => simp

theorem ofNat_eq_seven {k : ℕ} (hk : k < 8) : BitVec.ofNat 3 k = 7#3 ↔ k = 7 := by
  constructor
  · intro he
    have := congrArg BitVec.toNat he
    simp only [BitVec.toNat_ofNat] at this
    omega
  · rintro rfl
    rfl

theorem ofNat_succ (k : ℕ) : BitVec.ofNat 3 k + 1#3 = BitVec.ofNat 3 (k + 1) := by
  rw [BitVec.ofNat_add]

theorem waiting_eq {x : Access} (hx : i.access = some x) (hr : s.ready i = false) :
    s.waiting i = some x := by
  rw [waiting, hr, if_neg Bool.false_ne_true, hx]

theorem ready_of_fetch (hwin : Icache.win (s.icIn i) = true) (hhit : s.ic.hit (s.icIn i) = false) :
    s.ready i = false := by
  simp [ready, instrReady, Icache.instrReady, hwin, hhit]

theorem ready_of_data (hwin : Dcache.win (s.dcIn i) = true)
    (hlook : s.dc.lookup (s.dcIn i) = false) : s.ready i = false := by
  have hwin' : Dcache.win (s.dataIn i) = true := hwin
  have hhit : s.dc.hit (s.dataIn i) = false := Dcache.hit_of_lookup hlook
  simp [ready, dataReady, Dcache.dataReady, hwin', hhit]

/-! ## One edge of an instruction-cache fill -/

section Fetching

variable {a : PWord}

theorem Fetching.lookup (h : s.Fetching held a) : s.ic.lookup = false := by
  simp [Icache.lookup, h.state]

theorem Fetching.waiting (h : s.Fetching held a) (hf : s.Follows held i) :
    s.waiting i = some (.fetch a) := by
  have ha := hf.held _ h.held
  refine waiting_eq ha (ready_of_fetch (hf.fetch ha).1 ?_)
  simp [Icache.hit, h.lookup]

/-- The data cache stays as it is. -/
theorem Fetching.tick_dc (h : s.Fetching held a) (hf : s.Follows held i)
    (hsw : s.dc.swept = true) (hwn : s.ps.wdataNext i.ctl = false) :
    (s.tick i).dc.tags = s.dc.tags ∧ (s.tick i).dc.words = s.dc.words ∧ (s.tick i).dc.Calm := by
  obtain ⟨-, hwin, -⟩ := hf.fetch (hf.held _ h.held)
  have hlook := Dcache.lookup_of_win (c := s.dc) hwin
  have hhit : (s.dc.hit (s.dcIn i) && (s.dcIn i).dataWe) = false := by
    rw [Dcache.hit_of_lookup hlook, Bool.false_and]
  obtain ⟨htags, hwords⟩ := h.dc.tick_rams hsw hhit
  refine ⟨htags, hwords, h.dc.tick ?_ ?_ hwn⟩
  · rw [Dcache.miss, hlook, Bool.false_and]
  · have hmiss : (s.dcIn i).probeReq = false := by
      simp [dcIn, Icache.miss, h.lookup]
    simp [Dcache.probeWb, hmiss]

/-- The line stays clean in it. -/
theorem Fetching.clean_tick (h : s.Fetching held a) (hsw : s.dc.swept = true)
    (htags : (s.tick i).dc.tags = s.dc.tags) : (s.tick i).dc.probeDirty a = false := by
  have hc := h.clean
  have hsw' : (s.tick i).dc.swept = s.dc.swept := by
    simp [Win.tick, Dcache.tick, hsw]
  rw [Dcache.probeDirty, htags, hsw']
  exact hc

theorem Fetching.tick (h : s.Fetching held a) (hf : s.Follows held i) (hsw : s.dc.swept = true)
    (hwn : s.ps.wdataNext i.ctl = false) (hlast : s.ic.last (s.icIn i) = false) :
    (s.tick i).Fetching (s.waiting i) a := by
  obtain ⟨htags, -, hcalm⟩ := h.tick_dc hf hsw hwn
  refine ⟨h.waiting hf, ?_, hcalm, h.clean_tick hsw htags⟩
  simp [Win.tick, Icache.tick, h.state, hlast]

theorem Fetching.req (h : s.Fetching held a) (hf : s.Follows held i) :
    s.req i = ⟨!s.br.busy, false, Icache.memAddr a, s.dc.wordQ.data, s.dc.wordQ.mask, 7#3⟩ := by
  obtain ⟨-, -, -, hw, hsoft⟩ := hf.fetch (hf.held _ h.held)
  have hd := Dcache.memSel_of_idle h.dc.state
  simp [Win.req, Bridge.req, bridgeIn, Icache.memSel, h.state, hd, hsoft, hw]

theorem at_ifillReq (h : s.Fetching held a) (hc : s.ic.cnt = 0#3) (hb : s.Free)
    (hf : s.Follows held i) (hsw : s.dc.swept = true) :
    At (s.tick i) (s.waiting i) (Phase.next s i .ifillReq) := by
  have hwe : s.ic.wordWe (s.icIn i) = false := by
    rw [wordWe_eq, hb.busy, Bool.false_and, Bool.false_and, Bool.and_false]
  have hlast : s.ic.last (s.icIn i) = false := by
    rw [Icache.last, hwe, Bool.false_and]
  have hfetch := h.tick hf hsw hb.wdataNext hlast
  have hcnt : (s.tick i).ic.cnt = 0#3 := by
    simp [Win.tick, Icache.tick, hwe, hc]
  have hreq := h.req hf
  rw [hb.busy, Bool.not_false] at hreq
  cases hr : i.ctl.ready with
  | false =>
    simp only [Phase.next, hr, Bool.false_eq_true, if_false]
    exact .ifillReq hfetch hcnt (hb.tick_wait hr).1
  | true =>
    simp only [Phase.next, hr, if_true]
    refine .ifill hfetch (by decide) hcnt ?_ ?_
    · rw [tick_br_taken hb (congrArg Req.valid hreq) hr, Dcache.memSel_of_idle h.dc.state]
    · simp [Win.tick, Psram.tick, hb.burst, hr, hreq]

theorem at_ifill {k : ℕ} (h : s.Fetching held a) (hk : k < 8) (hc : s.ic.cnt = BitVec.ofNat 3 k)
    (hb : s.br = ⟨true, false⟩) (hp : s.ps.burst = .read (Icache.memAddr a) 8 k)
    (hf : s.Follows held i) (hsw : s.dc.swept = true) :
    At (s.tick i) (s.waiting i) (Phase.next s i (.ifill k)) := by
  have hrsp : s.ps.rspValid i.ctl = i.ctl.rsp := by simp [Psram.rspValid, hp]
  have hwe : s.ic.wordWe (s.icIn i) = i.ctl.rsp := by
    simp [wordWe_eq, Icache.memSel, h.state, hb, hrsp]
  have hrspLast : s.ps.rspLast i.ctl = (i.ctl.rsp && k = 7) := by
    simp [Psram.rspLast, hp]
  have hlast : s.ic.last (s.icIn i) = (i.ctl.rsp && k = 7) := by
    rw [Icache.last, hwe, hc, decide_eq_decide.mpr (ofNat_eq_seven hk)]
  have hbr := tick_br_busy (s := s) (i := i) (by rw [hb])
  obtain ⟨hps, -⟩ := tick_ps_read (i := i) hp
  have hwn := wdataNext_read (i := i) hp
  have hcnt : (s.tick i).ic.cnt = if i.ctl.rsp then s.ic.cnt + 1#3 else s.ic.cnt := by
    simp only [Win.tick, Icache.tick, hwe]
  rw [hrspLast] at hbr
  cases hr : i.ctl.rsp with
  | false =>
    simp only [hr, Bool.false_and, Bool.false_eq_true, if_false] at hbr hps hcnt hlast
    simp only [Phase.next, hr, Bool.false_eq_true, if_false]
    exact .ifill (h.tick hf hsw hwn hlast) hk (hcnt.trans hc) (hbr.trans hb) hps
  | true =>
    simp only [hr, Bool.true_and, if_true, decide_eq_true_eq] at hbr hps hcnt hlast
    simp only [Phase.next, hr, if_true]
    by_cases hk7 : k = 7
    · rw [if_pos hk7] at hbr hps ⊢
      obtain ⟨-, -, hcalm⟩ := h.tick_dc hf hsw hwn
      refine .idle ⟨?_, ?_⟩ hcalm ⟨by rw [hbr], hps⟩
      · simp [Win.tick, Icache.tick, h.state, hlast, hk7]
      · rw [hcnt, hc, hk7]
        rfl
    · rw [if_neg hk7] at hbr hps ⊢
      refine .ifill (h.tick hf hsw hwn (by simp [hlast, hk7])) (by omega) ?_ (hbr.trans hb) hps
      rw [hcnt, hc, ofNat_succ]

end Fetching

/-! ## One edge of a write-back -/

/-- A data access that waits leaves the instruction cache alone. -/
theorem tick_ic_data {x : Access} {a : PWord} (hf : s.Follows held i) (hx : i.access = some x)
    (ha : x.dataWord = some a) (hst : s.dc.state ≠ .idle) (hisw : s.ic.swept = true)
    (hic : s.ic.Calm) :
    (s.tick i).ic.tags = s.ic.tags ∧ (s.tick i).ic.words = s.ic.words ∧ (s.tick i).ic.Calm := by
  obtain ⟨hfwin, hdwin, -, -⟩ := hf.data hx ha
  have hready : s.dataReady i = false := by
    have hwin : Dcache.win (s.dataIn i) = true := hdwin
    have hhit : s.dc.hit (s.dataIn i) = false := Dcache.hit_of_lookup (Dcache.lookup_of_state hst)
    simp [dataReady, Dcache.dataReady, hwin, hhit]
  obtain ⟨htags, hwords⟩ := hic.tick_rams (i := s.icIn i) hisw (by simp [icIn, hready])
  exact ⟨htags, hwords, hic.tick (by simp [Icache.miss, hfwin])⟩

section WritingBack

theorem WritingBack.exists_held (h : s.WritingBack held) : ∃ x, held = some x := by
  rcases h.held with ⟨-, a, ha, -⟩ | ⟨-, x, a, hx, -⟩
  · exact ⟨_, ha⟩
  · exact ⟨_, hx⟩

theorem WritingBack.waiting (h : s.WritingBack held) (hf : s.Follows held i) (hia : s.ic.Ahead) :
    s.waiting i = held := by
  rcases h.held with ⟨-, a, ha, -, -, hne⟩ | ⟨-, x, a, hx, ha, -⟩
  · have hacc := hf.held _ ha
    obtain ⟨hwin, -, -, hw, -⟩ := hf.fetch hacc
    rw [ha]
    refine waiting_eq hacc (ready_of_fetch hwin ?_)
    cases hl : s.ic.lookup with
    | false => simp [Icache.hit, hl]
    | true =>
      have hidx : s.ic.rdIdxQ = Icache.idx (s.icIn i).fetchAddr := by
        rw [hf.fetchIdx a hacc]
        exact congrArg Icache.idx hw.symm
      have hiff := Icache.hit_iff hia hl hidx
      refine Bool.eq_false_of_not_eq_true fun hhit ↦ hne ?_
      have ht := hiff.mp hhit
      simpa [icIn, hw] using ht
  · have hacc := hf.held _ hx
    rw [hx]
    refine waiting_eq hacc (ready_of_data (hf.data hacc ha).2.1 ?_)
    exact Dcache.lookup_of_state (by simp [h.state])

theorem WritingBack.probeDirty (h : s.WritingBack held) (hsw : s.dc.swept = true) {a : PWord}
    (hl : Dcache.line a = s.dc.lineR) (ht : Dcache.tag a = s.dc.tagR) :
    s.dc.probeDirty a = true := by
  simp [Dcache.probeDirty, hsw, hl, ht, h.tag]

/-- The instruction cache stays as it is. -/
theorem WritingBack.tick_ic (h : s.WritingBack held) (hf : s.Follows held i)
    (hisw : s.ic.swept = true) (hdsw : s.dc.swept = true) :
    (s.tick i).ic.tags = s.ic.tags ∧ (s.tick i).ic.words = s.ic.words ∧ (s.tick i).ic.Calm := by
  rcases h.held with ⟨-, a, ha, hl, ht, -⟩ | ⟨-, x, a, hx, ha, -⟩
  · obtain ⟨-, -, hinv, hw, -⟩ := hf.fetch (hf.held _ ha)
    obtain ⟨htags, hwords⟩ := h.ic.tick_rams hisw hinv
    have hhold : (s.icIn i).fillHold = true := by
      simp only [icIn, hw]
      exact h.probeDirty hdsw hl ht
    exact ⟨htags, hwords, h.ic.tick (by rw [hhold, Bool.not_true, Bool.and_false])⟩
  · exact tick_ic_data hf (hf.held _ hx) ha (by simp [h.state]) hisw h.ic

theorem WritingBack.hit (h : s.WritingBack held) (j : DcacheIn) : s.dc.hit j = false :=
  Dcache.hit_of_lookup (Dcache.lookup_of_state (by simp [h.state]))

/-- The word RAM stays as it is, and the next word is read from it. -/
theorem WritingBack.tick_words (h : s.WritingBack held) (hsw : s.dc.swept = true) :
    (s.tick i).dc.words = s.dc.words ∧
      (s.tick i).dc.wordQ = s.dc.words (s.dc.lineR ++ (s.tick i).dc.cnt) := by
  have hw : s.dc.wordWrite (s.dcIn i) = none :=
    Dcache.wordWrite_none hsw (by rw [h.hit, Bool.false_and]) (by simp [h.state])
  constructor
  · simp only [Win.tick, Dcache.tick, hw, ramTick]
  · simp only [Win.tick, Dcache.tick, Dcache.ra, h.state, if_true]

theorem WritingBack.tick_tags (h : s.WritingBack held) (hdsw : s.dc.swept = true)
    (hlast : s.dc.last (s.dcIn i) = false) : (s.tick i).dc.tags = s.dc.tags := by
  have htag : s.dc.tagWrite (s.dcIn i) = none :=
    Dcache.tagWrite_none hdsw (by rw [h.hit, Bool.false_and]) hlast
  simp only [Win.tick, Dcache.tick, htag, ramTick]

/-- The last word of the probe's transfer leaves its line clean. -/
theorem WritingBack.tick_tags_last (h : s.WritingBack held) (hdsw : s.dc.swept = true)
    (hlast : s.dc.last (s.dcIn i) = true) : (s.tick i).dc.tags =
      if s.dc.isProbe then Function.update s.dc.tags s.dc.lineR ⟨true, false, s.dc.tagR⟩
      else s.dc.tags := by
  have htag : s.dc.tagWrite (s.dcIn i) =
      if s.dc.isProbe then some (s.dc.lineR, ⟨true, false, s.dc.tagR⟩) else none := by
    simp [Dcache.tagWrite, hdsw, h.hit, h.state, hlast]
  simp only [Win.tick, Dcache.tick, htag]
  split <;> rfl

/-- The transfer goes on. -/
theorem WritingBack.tick (h : s.WritingBack held) (hf : s.Follows held i) (hia : s.ic.Ahead)
    (hisw : s.ic.swept = true) (hdsw : s.dc.swept = true)
    (hlast : s.dc.last (s.dcIn i) = false) :
    (s.tick i).WritingBack (s.waiting i) ∧ (s.tick i).dc.lineR = s.dc.lineR ∧
      (s.tick i).dc.tagR = s.dc.tagR ∧ (s.tick i).dc.primed = true := by
  have hstate : s.dc.tickState (s.dcIn i) = { s.dc with primed := true } := by
    simp only [Dcache.tickState, h.state, hlast, Bool.false_eq_true, if_false]
  have htags := h.tick_tags hdsw hlast
  obtain ⟨hitags, -, hcalm⟩ := h.tick_ic hf hisw hdsw
  have hline : (s.tick i).dc.lineR = s.dc.lineR := by rw [tick_dc, Dcache.tick_lineR, hstate]
  have htagR : (s.tick i).dc.tagR = s.dc.tagR := by rw [tick_dc, Dcache.tick_tagR, hstate]
  have hprobe : (s.tick i).dc.isProbe = s.dc.isProbe := by
    rw [tick_dc, Dcache.tick_isProbe, hstate]
  refine ⟨⟨?_, ?_, ?_, hcalm⟩, hline, htagR, by rw [tick_dc, Dcache.tick_primed, hstate]⟩
  · rw [h.waiting hf hia, hprobe, hline, htagR, hitags]
    exact h.held
  · rw [tick_dc, Dcache.tick_state, hstate]
    exact h.state
  · rw [htags, hline, htagR]
    exact h.tag

/-- The request, once the first word is read. -/
theorem WritingBack.req (h : s.WritingBack held) (hf : s.Follows held i) : s.req i =
    ⟨s.dc.primed && !s.br.busy, s.dc.primed, if s.dc.primed then s.dc.memAddr else
      Icache.memAddr i.fetchWord, s.dc.wordQ.data, s.dc.wordQ.mask, 7#3⟩ := by
  have hsoft : i.softRst = false := by
    rcases h.held with ⟨-, a, ha, -⟩ | ⟨-, x, a, hx, ha, -⟩
    · exact (hf.fetch (hf.held _ ha)).2.2.2.2
    · exact (hf.data (hf.held _ hx) ha).2.2.2
  simp [Win.req, Bridge.req, bridgeIn, Icache.memSel, Dcache.memSel, Dcache.memWe, h.state,
    h.ic.state, hsoft]

theorem at_wbPrime (h : s.WritingBack held) (hc : s.dc.cnt = 0#3) (hp : s.dc.primed = false)
    (hb : s.Free) (hf : s.Follows held i) (hia : s.ic.Ahead) (hisw : s.ic.swept = true)
    (hdsw : s.dc.swept = true) : At (s.tick i) (s.waiting i) (Phase.next s i .wbPrime) := by
  have hdone : s.dc.done (s.dcIn i) = false := by
    rw [done_eq, hb.busy, Bool.false_and, Bool.false_and, Bool.and_false]
  obtain ⟨hwb, hline, -, hprimed⟩ := h.tick hf hia hisw hdsw (Dcache.last_of_done hdone)
  have hcnt : (s.tick i).dc.cnt = 0#3 := by
    rw [tick_dc, Dcache.tick_cnt, Dcache.cntNext_of_not hdone hb.wdataNext, hc]
  obtain ⟨hwords, hword⟩ := h.tick_words (i := i) hdsw
  refine .wbReq hwb hcnt hprimed ?_ (hb.tick ?_).1
  · rw [hword, hcnt, hwords, hline]
  · rw [h.req hf, hp, Bool.false_and]

theorem at_wbReq (h : s.WritingBack held) (hc : s.dc.cnt = 0#3) (hp : s.dc.primed = true)
    (hb : s.Free) (hf : s.Follows held i) (hia : s.ic.Ahead) (hisw : s.ic.swept = true)
    (hdsw : s.dc.swept = true) : At (s.tick i) (s.waiting i) (Phase.next s i .wbReq) := by
  have hdone : s.dc.done (s.dcIn i) = false := by
    rw [done_eq, hb.busy, Bool.false_and, Bool.false_and, Bool.and_false]
  obtain ⟨hwb, hline, htag, hprimed⟩ := h.tick hf hia hisw hdsw (Dcache.last_of_done hdone)
  have hcnt : (s.tick i).dc.cnt = 0#3 := by
    rw [tick_dc, Dcache.tick_cnt, Dcache.cntNext_of_not hdone hb.wdataNext, hc]
  obtain ⟨hwords, hword⟩ := h.tick_words (i := i) hdsw
  have hreq := h.req hf
  rw [hp, hb.busy, if_pos rfl, Bool.not_false, Bool.and_self] at hreq
  have haddr : (s.tick i).dc.memAddr = s.dc.memAddr := by
    rw [Dcache.memAddr, hline, htag, Dcache.memAddr]
  cases hr : i.ctl.ready with
  | false =>
    simp only [Phase.next, hr, Bool.false_eq_true, if_false]
    refine .wbReq hwb hcnt hprimed ?_ (hb.tick_wait hr).1
    rw [hword, hcnt, hwords, hline]
  | true =>
    simp only [Phase.next, hr, if_true]
    refine .wb hwb (by decide) (by decide) hcnt hprimed ?_ ?_ ?_
    · rw [hword, hwords, hline]
    · rw [tick_br_taken hb (congrArg Req.valid hreq) hr]
      simp [Dcache.memSel, h.state, hp]
    · rw [haddr]
      simp [Win.tick, Psram.tick, hb.burst, hr, hreq]

theorem at_wb {k : ℕ} {take : Bool} (h : s.WritingBack held) (hpos : 0 < k)
    (hk : k + take.toNat ≤ 8) (hc : s.dc.cnt = BitVec.ofNat 3 (k - 1 + take.toNat))
    (hp : s.dc.primed = true) (hb : s.br = ⟨true, true⟩)
    (hw : s.ps.burst = .write s.dc.memAddr 8 k take) (hf : s.Follows held i) (hia : s.ic.Ahead)
    (hisw : s.ic.swept = true) (hdsw : s.dc.swept = true) :
    At (s.tick i) (s.waiting i) (Phase.next s i (.wb k take)) := by
  have hrsp : s.ps.rspValid i.ctl = (i.ctl.rsp && k = 8 && !take) := by simp [Psram.rspValid, hw]
  have hrspLast : s.ps.rspLast i.ctl = (i.ctl.rsp && k = 8 && !take) := by
    simp [Psram.rspLast, hw, hrsp]
  have hwn : s.ps.wdataNext i.ctl = (i.ctl.wnext && k + take.toNat < 8) := by
    simp [Psram.wdataNext, hw]
  have hdone : s.dc.done (s.dcIn i) = (i.ctl.rsp && k = 8 && !take) := by
    simp [done_eq, Dcache.memSel, h.state, hp, hb, hrsp]
  have hbr := tick_br_busy (s := s) (i := i) (by rw [hb])
  have hburst : (s.tick i).ps.burst = if i.ctl.rsp && k = 8 && !take then .idle
      else .write s.dc.memAddr 8 (k + take.toNat) (i.ctl.wnext && k + take.toNat < 8) := by
    simp only [Win.tick, Psram.tick, hw, hrsp, hwn]
  obtain ⟨hwords, hword⟩ := h.tick_words (i := i) hdsw
  have hwait := h.waiting hf hia
  rw [hrspLast] at hbr
  simp only [Phase.next]
  cases hfin : i.ctl.rsp && k = 8 && !take with
  | false =>
    rw [hfin] at hdone hbr hburst
    simp only [Bool.false_eq_true, if_false] at hbr hburst ⊢
    obtain ⟨hwb, hline, htag, hprimed⟩ := h.tick hf hia hisw hdsw (Dcache.last_of_done hdone)
    have haddr : (s.tick i).dc.memAddr = s.dc.memAddr := by
      rw [Dcache.memAddr, hline, htag, Dcache.memAddr]
    refine .wb hwb (by omega) ?_ ?_ hprimed ?_ (hbr.trans hb) (by rw [haddr, hburst])
    · cases hn : i.ctl.wnext && k + take.toNat < 8 with
      | false => simpa using hk
      | true =>
        simp only [Bool.and_eq_true, decide_eq_true_eq] at hn
        exact hn.2
    · have hmw : (s.dcIn i).memWnext = (i.ctl.wnext && k + take.toNat < 8) := hwn
      rw [tick_dc, Dcache.tick_cnt, Dcache.cntNext, hdone, hmw, Bool.false_or, hc]
      cases i.ctl.wnext && k + take.toNat < 8 with
      | false =>
        rw [if_neg Bool.false_ne_true]
        congr 1
        simp only [Bool.toNat_false]
        omega
      | true =>
        rw [if_pos rfl, ofNat_succ]
        congr 1
        simp only [Bool.toNat_true]
        omega
    · rw [hword, hwords, hline]
  | true =>
    rw [hfin] at hdone hbr hburst
    simp only [if_true] at hbr hburst ⊢
    simp only [Bool.and_eq_true, decide_eq_true_eq, Bool.not_eq_true'] at hfin
    obtain ⟨⟨-, rfl⟩, rfl⟩ := hfin
    have hcnt7 : s.dc.cnt = 7#3 := hc
    have hlast : s.dc.last (s.dcIn i) = true := by
      simp [Dcache.last, hdone, hcnt7]
    have hcnt : (s.tick i).dc.cnt = 0#3 := by
      rw [tick_dc, Dcache.tick_cnt, Dcache.cntNext, hdone, Bool.true_or, if_pos rfl, hcnt7]
      rfl
    have hfree : (s.tick i).Free := ⟨by rw [hbr], hburst⟩
    obtain ⟨-, -, hcalm⟩ := h.tick_ic hf hisw hdsw
    cases hprobe : s.dc.isProbe with
    | true =>
      have hstate : s.dc.tickState (s.dcIn i) = { s.dc with primed := false, state := .idle } := by
        simp only [Dcache.tickState, h.state, hlast, hprobe, if_true]
      refine .idle hcalm ⟨?_, hcnt, ?_⟩ hfree
      · rw [tick_dc, Dcache.tick_state, hstate]
      · rw [tick_dc, Dcache.tick_primed, hstate]
    | false =>
      have hstate : s.dc.tickState (s.dcIn i) =
          { s.dc with primed := false, state := .fill, tagR := Dcache.tag i.dataWord } := by
        simp only [Dcache.tickState, h.state, hlast, hprobe, if_true, Bool.false_eq_true, if_false]
        rfl
      refine .dfillReq ⟨?_, ?_, ?_, hcalm⟩ hcnt hfree
      · obtain ⟨-, x, a, hx, ha, hl⟩ := h.held.resolve_left (by simp [hprobe])
        rw [hwait]
        refine ⟨x, a, hx, ha, ?_, ?_⟩
        · rw [tick_dc, Dcache.tick_lineR, hstate]
          exact hl
        · rw [tick_dc, Dcache.tick_tagR, hstate, (hf.data (hf.held _ hx) ha).2.2.1]
      · rw [tick_dc, Dcache.tick_state, hstate]
      · rw [tick_dc, Dcache.tick_primed, hstate]

end WritingBack

/-! ## One edge of a data-cache fill -/

section Filling

theorem Filling.waiting (h : s.Filling held) (hf : s.Follows held i) : s.waiting i = held := by
  obtain ⟨x, a, hx, ha, -⟩ := h.held
  have hacc := hf.held _ hx
  rw [hx]
  refine waiting_eq hacc (ready_of_data (hf.data hacc ha).2.1 ?_)
  exact Dcache.lookup_of_state (by simp [h.state])

/-- The instruction cache stays as it is. -/
theorem Filling.tick_ic (h : s.Filling held) (hf : s.Follows held i) (hisw : s.ic.swept = true) :
    (s.tick i).ic.tags = s.ic.tags ∧ (s.tick i).ic.words = s.ic.words ∧ (s.tick i).ic.Calm := by
  obtain ⟨x, a, hx, ha, -⟩ := h.held
  exact tick_ic_data hf (hf.held _ hx) ha (by simp [h.state]) hisw h.ic

theorem Filling.tick (h : s.Filling held) (hf : s.Follows held i) (hisw : s.ic.swept = true)
    (hlast : s.dc.last (s.dcIn i) = false) :
    (s.tick i).Filling (s.waiting i) ∧ (s.tick i).dc.memAddr = s.dc.memAddr := by
  have hstate : s.dc.tickState (s.dcIn i) = s.dc := by
    simp only [Dcache.tickState, h.state, hlast, Bool.false_eq_true, if_false]
  have hline : (s.tick i).dc.lineR = s.dc.lineR := by rw [tick_dc, Dcache.tick_lineR, hstate]
  have htag : (s.tick i).dc.tagR = s.dc.tagR := by rw [tick_dc, Dcache.tick_tagR, hstate]
  refine ⟨⟨?_, ?_, ?_, (h.tick_ic hf hisw).2.2⟩, by
    rw [Dcache.memAddr, hline, htag, Dcache.memAddr]⟩
  · rw [h.waiting hf, hline, htag]
    exact h.held
  · rw [tick_dc, Dcache.tick_state, hstate, h.state]
  · rw [tick_dc, Dcache.tick_primed, hstate, h.primed]

theorem Filling.req (h : s.Filling held) (hf : s.Follows held i) : s.req i =
    ⟨!s.br.busy, false, s.dc.memAddr, s.dc.wordQ.data, s.dc.wordQ.mask, 7#3⟩ := by
  obtain ⟨x, a, hx, ha, -⟩ := h.held
  have hsoft := (hf.data (hf.held _ hx) ha).2.2.2
  simp [Win.req, Bridge.req, bridgeIn, Icache.memSel, Dcache.memSel, Dcache.memWe, h.state,
    h.ic.state, hsoft]

theorem at_dfillReq (h : s.Filling held) (hc : s.dc.cnt = 0#3) (hb : s.Free)
    (hf : s.Follows held i) (hisw : s.ic.swept = true) :
    At (s.tick i) (s.waiting i) (Phase.next s i .dfillReq) := by
  have hdone : s.dc.done (s.dcIn i) = false := by
    rw [done_eq, hb.busy, Bool.false_and, Bool.false_and, Bool.and_false]
  obtain ⟨hfill, haddr⟩ := h.tick hf hisw (Dcache.last_of_done hdone)
  have hcnt : (s.tick i).dc.cnt = 0#3 := by
    rw [tick_dc, Dcache.tick_cnt, Dcache.cntNext_of_not hdone hb.wdataNext, hc]
  have hreq := h.req hf
  rw [hb.busy, Bool.not_false] at hreq
  cases hr : i.ctl.ready with
  | false =>
    simp only [Phase.next, hr, Bool.false_eq_true, if_false]
    exact .dfillReq hfill hcnt (hb.tick_wait hr).1
  | true =>
    simp only [Phase.next, hr, if_true]
    refine .dfill hfill (by decide) hcnt ?_ ?_
    · rw [tick_br_taken hb (congrArg Req.valid hreq) hr]
      simp [Dcache.memSel, h.state]
    · rw [haddr]
      simp [Win.tick, Psram.tick, hb.burst, hr, hreq]

theorem at_dfill {k : ℕ} (h : s.Filling held) (hk : k < 8) (hc : s.dc.cnt = BitVec.ofNat 3 k)
    (hb : s.br = ⟨true, true⟩) (hp : s.ps.burst = .read s.dc.memAddr 8 k)
    (hf : s.Follows held i) (hisw : s.ic.swept = true) :
    At (s.tick i) (s.waiting i) (Phase.next s i (.dfill k)) := by
  have hrsp : s.ps.rspValid i.ctl = i.ctl.rsp := by simp [Psram.rspValid, hp]
  have hdone : s.dc.done (s.dcIn i) = i.ctl.rsp := by
    simp [done_eq, Dcache.memSel, h.state, hb, hrsp]
  have hrspLast : s.ps.rspLast i.ctl = (i.ctl.rsp && k = 7) := by
    simp [Psram.rspLast, hp]
  have hlast : s.dc.last (s.dcIn i) = (i.ctl.rsp && k = 7) := by
    rw [Dcache.last, hdone, hc, decide_eq_decide.mpr (ofNat_eq_seven hk)]
  have hbr := tick_br_busy (s := s) (i := i) (by rw [hb])
  obtain ⟨hps, -⟩ := tick_ps_read (i := i) hp
  have hcnt : (s.tick i).dc.cnt = if i.ctl.rsp then s.dc.cnt + 1#3 else s.dc.cnt := by
    have hwn : (s.dcIn i).memWnext = false := wdataNext_read (i := i) hp
    rw [tick_dc, Dcache.tick_cnt, Dcache.cntNext, hdone, hwn, Bool.or_false]
  rw [hrspLast] at hbr
  cases hr : i.ctl.rsp with
  | false =>
    simp only [hr, Bool.false_and, Bool.false_eq_true, if_false] at hbr hps hcnt hlast
    simp only [Phase.next, hr, Bool.false_eq_true, if_false]
    obtain ⟨hfill, haddr⟩ := h.tick hf hisw hlast
    exact .dfill hfill hk (hcnt.trans hc) (hbr.trans hb) (by rw [haddr, hps])
  | true =>
    simp only [hr, Bool.true_and, if_true, decide_eq_true_eq] at hbr hps hcnt hlast
    simp only [Phase.next, hr, if_true]
    by_cases hk7 : k = 7
    · rw [if_pos hk7] at hbr hps ⊢
      have hstate : s.dc.tickState (s.dcIn i) = { s.dc with state := .idle } := by
        simp [Dcache.tickState, h.state, hlast, hk7]
      refine .idle (h.tick_ic hf hisw).2.2 ⟨?_, ?_, ?_⟩ ⟨by rw [hbr], hps⟩
      · rw [tick_dc, Dcache.tick_state, hstate]
      · rw [hcnt, hc, hk7]
        rfl
      · rw [tick_dc, Dcache.tick_primed, hstate]
        exact h.primed
    · rw [if_neg hk7] at hbr hps ⊢
      obtain ⟨hfill, haddr⟩ := h.tick hf hisw (by simp [hlast, hk7])
      refine .dfill hfill (by omega) ?_ (hbr.trans hb) (by rw [haddr, hps])
      rw [hcnt, hc, ofNat_succ]

end Filling

/-! ## One edge between two transfers -/

section

variable (hi : s.ic.Calm) (hd : s.dc.Calm) (hb : s.Free)

include hi hd hb

theorem Free.tick_calm : (s.tick i).Free ∧ (s.tick i).ps.mem = s.ps.mem := by
  refine hb.tick ?_
  simp [Win.req, Bridge.req, bridgeIn, Icache.memSel, hi.state, Dcache.memSel_of_idle hd.state]

/-- A fetch that misses. -/
theorem at_fetchMiss (hf : s.Follows held i) (hia : s.ic.Ahead) (hisw : s.ic.swept = true)
    (hdsw : s.dc.swept = true) (hmiss : s.ic.miss (s.icIn i) = true) :
    At (s.tick i) (s.waiting i) (Phase.next s i .idle) := by
  have hfree := (Free.tick_calm (i := i) hi hd hb).1
  have hm := hmiss
  simp only [Icache.miss, Icache.win, Bool.and_eq_true, Bool.not_eq_true'] at hm
  obtain ⟨⟨⟨hreq, hsel⟩, hlook⟩, hhit⟩ := hm
  have hacc : i.access = some (.fetch i.fetchWord) := by
    have hc : (i.fetchReq && !i.softRst && i.xmemFetchSel) = true :=
      Bool.and_eq_true_iff.mpr ⟨hreq, hsel⟩
    rw [WinIn.access, if_pos hc]
  obtain ⟨hwin, hdwin, hinv, -, -⟩ := hf.fetch hacc
  have hwait := waiting_eq hacc (ready_of_fetch hwin hhit)
  have hdlook := Dcache.lookup_of_win (c := s.dc) hdwin
  have hdmiss : s.dc.miss (s.dcIn i) = false := by rw [Dcache.miss, hdlook, Bool.false_and]
  obtain ⟨hdtags, -⟩ := hd.tick_rams (i := s.dcIn i) hdsw
    (by rw [Dcache.hit_of_lookup hdlook, Bool.false_and])
  have hprobe : s.dc.probeWb (s.dcIn i) = s.dc.probeDirty i.fetchWord := by
    have hpr : (s.dcIn i).probeReq = true := hmiss
    simp only [Dcache.probeWb, hd.state, hdsw, hdwin, hpr]
    rfl
  have hdcnt : (s.tick i).dc.cnt = 0#3 := by
    rw [tick_dc, Dcache.tick_cnt, Dcache.cntNext_of_not (Dcache.done_of_idle hd.state) hb.wdataNext,
      hd.cnt]
  simp only [Phase.next, hmiss, if_true]
  cases hdirty : s.dc.probeDirty i.fetchWord with
  | true =>
    rw [if_pos rfl]
    have hstate : s.dc.tickState (s.dcIn i) =
        { s.dc with
          state := .wb
          lineR := Dcache.line i.fetchWord
          tagR := Dcache.tag i.fetchWord
          isProbe := true } := by
      simp only [Dcache.tickState, hd.state, hdmiss, hprobe, hdirty, Bool.false_eq_true, if_false,
        if_true]
      rfl
    have hline : (s.tick i).dc.lineR = Dcache.line i.fetchWord := by
      rw [tick_dc, Dcache.tick_lineR, hstate]
    have htag : (s.tick i).dc.tagR = Dcache.tag i.fetchWord := by
      rw [tick_dc, Dcache.tick_tagR, hstate]
    have hhold : (s.icIn i).fillHold = true := hdirty
    refine .wbPrime ⟨.inl ⟨?_, i.fetchWord, hwait, hline.symm, htag.symm, ?_⟩, ?_, ?_, ?_⟩ hdcnt ?_
      hfree
    · rw [tick_dc, Dcache.tick_isProbe, hstate]
    · have hitags := (hi.tick_rams (i := s.icIn i) hisw hinv).1
      change (s.ic.tick (s.icIn i)).tags _ ≠ _
      rw [hitags]
      intro ht
      have := (Icache.hit_iff (i := s.icIn i) hia hlook (hf.fetchIdx _ hacc)).mpr ht
      exact absurd (this.symm.trans hhit) nofun
    · rw [tick_dc, Dcache.tick_state, hstate]
    · rw [hline, htag, tick_dc, hdtags]
      simp only [Dcache.probeDirty, Bool.and_eq_true, decide_eq_true_eq] at hdirty
      exact DTag.eq_mk hdirty.1.1.2 hdirty.1.2 hdirty.2
    · exact hi.tick (by rw [hhold, Bool.not_true, Bool.and_false])
    · rw [tick_dc, Dcache.tick_primed, hstate]
      exact hd.primed
  | false =>
    rw [if_neg Bool.false_ne_true]
    have hhold : (s.icIn i).fillHold = false := hdirty
    have hcalm : (s.tick i).dc.Calm := hd.tick hdmiss (hprobe.trans hdirty) hb.wdataNext
    refine .ifillReq ⟨hwait, ?_, hcalm, ?_⟩ ?_ hfree
    · simp [Win.tick, Icache.tick, hi.state, hmiss, hhold]
    · have hsw : (s.dc.tick (s.dcIn i)).swept = s.dc.swept := by simp [Dcache.tick, hdsw]
      rw [tick_dc, Dcache.probeDirty, hdtags, hsw]
      exact hdirty
    · simp [Win.tick, Icache.tick, Icache.wordWe_of_idle hi.state, hi.cnt]

/-- A data access that misses. -/
theorem at_dataMiss (hf : s.Follows held i) (hda : s.dc.Ahead) (hdsw : s.dc.swept = true)
    (himiss : s.ic.miss (s.icIn i) = false)
    (hmiss : s.dc.miss (s.dcIn i) = true) :
    At (s.tick i) (s.waiting i) (Phase.next s i .idle) := by
  have hfree := (Free.tick_calm (i := i) hi hd hb).1
  have hm := hmiss
  simp only [Dcache.miss, Bool.and_eq_true, Bool.not_eq_true'] at hm
  obtain ⟨hlook, hmatch⟩ := hm
  have hwin : Dcache.win (s.dcIn i) = true := by
    simp only [Dcache.lookup, Bool.and_eq_true] at hlook
    exact hlook.1.1.1.1
  have hreq : i.dataReq = true ∧ i.xmemWsel = true := by
    simpa [Dcache.win, dcIn, dataIn] using hwin
  obtain ⟨x, hx, ha⟩ : ∃ x, i.access = some x ∧ x.dataWord = some i.dataWord := by
    have hnf : (i.fetchReq && !i.softRst && i.xmemFetchSel) = false := by
      refine Bool.eq_false_of_not_eq_true fun hc ↦ ?_
      simp only [Bool.and_eq_true] at hc
      exact absurd (hreq.1.symm.trans (hf.one hc.1.1)) nofun
    refine ⟨if i.memWrite then .store i.dataWord i.dataOut i.byteWe else .load i.dataWord, ?_, ?_⟩
    · rw [WinIn.access, hnf, hreq.1, hreq.2]
      rfl
    · split <;> rfl
  have hhit : s.dc.hit (s.dcIn i) = false := by rw [Dcache.hit, hmatch, Bool.and_false]
  have hnr : s.dataReady i = false := by
    have hw : Dcache.win (s.dataIn i) = true := hwin
    have hh : s.dc.hit (s.dataIn i) = false := hhit
    simp [dataReady, Dcache.dataReady, hw, hh]
  have hwait : s.waiting i = some x := waiting_eq hx (by simp [ready, hnr])
  have hic : (s.tick i).ic.Calm := hi.tick (by rw [himiss, Bool.false_and])
  obtain ⟨hdtags, -⟩ := hd.tick_rams (i := s.dcIn i) hdsw (by rw [hhit, Bool.false_and])
  have hdcnt : (s.tick i).dc.cnt = 0#3 := by
    rw [tick_dc, Dcache.tick_cnt, Dcache.cntNext_of_not (Dcache.done_of_idle hd.state) hb.wdataNext,
      hd.cnt]
  have hstate : s.dc.tickState (s.dcIn i) =
      { s.dc with
        lineR := Dcache.line i.dataWord
        isProbe := false
        state := if s.dc.victimDirty then .wb else .fill
        tagR := if s.dc.victimDirty then s.dc.tagQ.tag else Dcache.tag i.dataWord } := by
    simp only [Dcache.tickState, hd.state, hmiss, if_true]
    rfl
  have hline : (s.tick i).dc.lineR = Dcache.line i.dataWord := by
    rw [tick_dc, Dcache.tick_lineR, hstate]
  have hprimed : (s.tick i).dc.primed = false := by
    rw [tick_dc, Dcache.tick_primed, hstate]
    exact hd.primed
  simp only [Phase.next, himiss, hmiss, if_true, Bool.false_eq_true, if_false]
  cases hv : s.dc.victimDirty with
  | true =>
    simp only [hv, if_true] at hstate
    rw [if_pos rfl]
    refine .wbPrime ⟨.inr ⟨?_, x, i.dataWord, hwait, ha, hline.symm⟩, ?_, ?_, hic⟩ hdcnt hprimed
      hfree
    · rw [tick_dc, Dcache.tick_isProbe, hstate]
    · rw [tick_dc, Dcache.tick_state, hstate]
    · have hq : s.dc.tagQ = s.dc.tags (Dcache.line i.dataWord) := (hda.of_lookup hlook).1
      have htag : (s.tick i).dc.tagR = s.dc.tagQ.tag := by
        rw [tick_dc, Dcache.tick_tagR, hstate]
      rw [hline, htag, tick_dc, hdtags, ← hq]
      simp only [Dcache.victimDirty, Bool.and_eq_true] at hv
      exact DTag.eq_mk hv.1 hv.2 rfl
  | false =>
    simp only [hv, Bool.false_eq_true, if_false] at hstate
    rw [if_neg Bool.false_ne_true]
    refine .dfillReq ⟨⟨x, i.dataWord, hwait, ha, hline.symm, ?_⟩, ?_, hprimed, hic⟩ hdcnt hfree
    · rw [tick_dc, Dcache.tick_tagR, hstate]
    · rw [tick_dc, Dcache.tick_state, hstate]

theorem at_idle (hf : s.Follows held i) (hia : s.ic.Ahead) (hda : s.dc.Ahead)
    (hisw : s.ic.swept = true) (hdsw : s.dc.swept = true) :
    At (s.tick i) (s.waiting i) (Phase.next s i .idle) := by
  cases himiss : s.ic.miss (s.icIn i) with
  | true => exact at_fetchMiss hi hd hb hf hia hisw hdsw himiss
  | false =>
    cases hdmiss : s.dc.miss (s.dcIn i) with
    | true => exact at_dataMiss hi hd hb hf hda hdsw himiss hdmiss
    | false =>
      simp only [Phase.next, himiss, hdmiss, Bool.false_eq_true, if_false]
      have hprobe : s.dc.probeWb (s.dcIn i) = false := by
        have hpr : (s.dcIn i).probeReq = false := himiss
        simp [Dcache.probeWb, hpr]
      exact .idle (hi.tick (by rw [himiss, Bool.false_and])) (hd.tick hdmiss hprobe hb.wdataNext)
        (Free.tick_calm hi hd hb).1

end

/-- **The window stays in step, whatever the memory controller's delays.** -/
theorem Inv.tick {p : Phase} (h : s.Inv held p) (hf : s.Follows held i) :
    (s.tick i).Inv (s.waiting i) (p.next s i) := by
  obtain ⟨hisw, hdsw, hia, hda, hat⟩ := h
  refine ⟨by simp [Win.tick, Icache.tick, hisw], by simp [Win.tick, Dcache.tick, hdsw], .tick _ _,
    .tick _ _, ?_⟩
  cases hat with
  | idle hi hd hb => exact at_idle hi hd hb hf hia hda hisw hdsw
  | ifillReq h hc hb => exact at_ifillReq h hc hb hf hdsw
  | ifill h hk hc hb hp => exact at_ifill h hk hc hb hp hf hdsw
  | wbPrime h hc hp hb => exact at_wbPrime h hc hp hb hf hia hisw hdsw
  | wbReq h hc hp hq hb => exact at_wbReq h hc hp hb hf hia hisw hdsw
  | wb h hpos hk hc hp hq hb hw => exact at_wb h hpos hk hc hp hb hw hf hia hisw hdsw
  | dfillReq h hc hb => exact at_dfillReq h hc hb hf hisw
  | dfill h hk hc hb hp => exact at_dfill h hk hc hb hp hf hisw

end Win

end Vux9k.Rtl

import Vux9k.Rtl.WriteBack

/-!
# The RTL is the write-back cache

The caches' RAMs and the memory are those of the write-back cache `Wb`, but for the words that the
line transfer under way has moved already.  The transfers change the write-back cache when their
last word is through (`Wb.tick`), a store when it completes; and what an access has yet to do to it
stays the same until then, so that a completed access leaves it as `Wb.access` says.
-/

set_option autoImplicit false

namespace Vux9k.Rtl

open Win

/-- What completes in a cycle. -/
def Win.done (s : Win) (i : WinIn) : Option Access := if s.ready i then i.access else none

namespace Wb

/-- The write-back cache after a clock edge. -/
def tick (c : Wb) (s : Win) (i : WinIn) : Phase → Wb
  | .idle =>
    match s.done i with
    | some (.store a data be) => c.merge a data be
    | _ => c
  | .ifill k =>
    if i.ctl.rsp && k = 7 then c.ifill (Icache.tag i.fetchWord) (Icache.line i.fetchWord) else c
  | .wb k take =>
    if i.ctl.rsp && k = 8 && !take then
      if s.dc.isProbe then (c.writeBack s.dc.tagR s.dc.lineR).clean s.dc.tagR s.dc.lineR
      else c.writeBack s.dc.tagR s.dc.lineR
    else c
  | .dfill k => if i.ctl.rsp && k = 7 then c.fill s.dc.tagR s.dc.lineR else c
  | _ => c

/-- The data cache's words. -/
def dwordsAt (c : Wb) (s : Win) : Phase → BitVec 9 → DWord
  | .dfill k => c.wordsAfter s.dc.tagR s.dc.lineR k
  | _ => c.words

/-- The instruction cache's words. -/
def iwordsAt (c : Wb) (held : Option Access) : Phase → BitVec 12 → Word
  | .ifill k =>
    match held with
    | some (.fetch a) => c.iwordsAfter (Icache.tag a) (Icache.line a) k
    | _ => c.iwords
  | _ => c.iwords

/-- The memory. -/
def psramAt (c : Wb) (s : Win) : Phase → PWord → Word
  | .wb k _ => c.psramAfter s.dc.tagR s.dc.lineR k
  | _ => c.psram

end Wb

/-- The window at a phase is the write-back cache. -/
structure Rel (s : Win) (held : Option Access) (p : Phase) (c : Wb) : Prop where
  tags : s.dc.tags = c.tags
  itags : s.ic.tags = c.itags
  words : s.dc.words = c.dwordsAt s p
  iwords : s.ic.words = c.iwordsAt held p
  mem : s.ps.mem = c.psramAt s p
  missed : p ≠ .idle → ∀ x ∈ held, c.Misses x
  evicted : s.dc.state = .fill → c.evict s.dc.lineR = c

namespace Rel

variable {s : Win} {i : WinIn} {held : Option Access} {c : Wb} {a : PWord}

/-- An edge that moves nothing. -/
theorem of_same {s' : Win} {held' : Option Access} {p p' : Phase} (h : Rel s held p c)
    (ht : s'.dc.tags = s.dc.tags) (hw : s'.dc.words = s.dc.words) (hit : s'.ic.tags = s.ic.tags)
    (hiw : s'.ic.words = s.ic.words) (hm : s'.ps.mem = s.ps.mem)
    (hp : c.dwordsAt s' p' = c.dwordsAt s p ∧ c.iwordsAt held' p' = c.iwordsAt held p ∧
      c.psramAt s' p' = c.psramAt s p)
    (hmiss : p' ≠ .idle → ∀ x ∈ held', c.Misses x)
    (he : s'.dc.state = .fill → c.evict s'.dc.lineR = c) : Rel s' held' p' c :=
  ⟨ht.trans h.tags, hit.trans h.itags, by rw [hw, hp.1, h.words], by rw [hiw, hp.2.1, h.iwords],
    by rw [hm, hp.2.2, h.mem], hmiss, he⟩

/-! ## A fetch's fill -/

section

variable (hf : s.Follows held i) (hisw : s.ic.swept = true)

include hf hisw

/-- The instruction cache's RAMs while it fills. -/
theorem ic_of_fetching (h : s.Fetching held a) :
    (s.tick i).ic.tags = (if s.ic.last (s.icIn i) then
        Function.update s.ic.tags (Icache.line a) ⟨true, Icache.tag a⟩ else s.ic.tags) ∧
      (s.tick i).ic.words = (if s.ic.wordWe (s.icIn i) then
        Function.update s.ic.words (Icache.line a ++ s.ic.cnt) (s.ps.rspRdata i.ctl)
        else s.ic.words) := by
  obtain ⟨-, -, hinv, hw, -⟩ := hf.fetch (hf.held _ h.held)
  have haddr : (s.icIn i).fetchAddr = a := hw
  constructor
  · have ht : s.ic.tagWrite (s.icIn i) = if s.ic.last (s.icIn i) then
        some (Icache.line a, ⟨true, Icache.tag a⟩) else none := by
      simp [Icache.tagWrite, hisw, hinv, haddr]
    simp only [Win.tick, Icache.tick, ht]
    split <;> rfl
  · simp only [Win.tick, Icache.tick, haddr]
    rfl

theorem tick_ifillReq (hr : Rel s held .ifillReq c) (h : s.Fetching held a) (hb : s.Free)
    (hsw : s.dc.swept = true) :
    Rel (s.tick i) (s.waiting i) (Phase.next s i .ifillReq) (c.tick s i .ifillReq) := by
  have hwe : s.ic.wordWe (s.icIn i) = false := by
    rw [wordWe_eq, hb.busy, Bool.false_and, Bool.false_and, Bool.and_false]
  have hlast : s.ic.last (s.icIn i) = false := by rw [Icache.last, hwe, Bool.false_and]
  obtain ⟨hit, hiw⟩ := ic_of_fetching hf hisw h
  rw [hlast, if_neg Bool.false_ne_true] at hit
  rw [hwe, if_neg Bool.false_ne_true] at hiw
  obtain ⟨ht, hw, hcalm⟩ := h.tick_dc hf hsw hb.wdataNext
  have hm : (s.tick i).ps.mem = s.ps.mem := by
    have hreq := h.req hf
    simp only [Win.tick, Psram.tick, hb.burst, hreq]
    split <;> rfl
  have hwait := h.waiting hf
  refine hr.of_same ht hw hit hiw hm ?_ (fun _ x hx ↦ ?_) (by simp [hcalm.state])
  · simp only [Phase.next]
    split
    · rw [hwait]
      exact ⟨rfl, rfl, rfl⟩
    · exact ⟨rfl, rfl, rfl⟩
  · exact hr.missed (by simp) x (by rwa [hwait, ← h.held] at hx)

theorem tick_ifill {k : ℕ} (hr : Rel s held (.ifill k) c) (h : s.Fetching held a) (hk : k < 8)
    (hc : s.ic.cnt = BitVec.ofNat 3 k) (hb : s.br = ⟨true, false⟩)
    (hp : s.ps.burst = .read (Icache.memAddr a) 8 k) (hsw : s.dc.swept = true) :
    Rel (s.tick i) (s.waiting i) (Phase.next s i (.ifill k)) (c.tick s i (.ifill k)) := by
  have hw := (hf.fetch (hf.held _ h.held)).2.2.2.1
  have hrsp : s.ps.rspValid i.ctl = i.ctl.rsp := by simp [Psram.rspValid, hp]
  have hwe : s.ic.wordWe (s.icIn i) = i.ctl.rsp := by
    simp [wordWe_eq, Icache.memSel, h.state, hb, hrsp]
  have hlast : s.ic.last (s.icIn i) = (i.ctl.rsp && k = 7) := by
    rw [Icache.last, hwe, hc, decide_eq_decide.mpr (ofNat_eq_seven hk)]
  obtain ⟨hit, hiw⟩ := ic_of_fetching hf hisw h
  obtain ⟨ht, hdw, hcalm⟩ := h.tick_dc hf hsw (wdataNext_read hp)
  obtain ⟨-, hm⟩ := tick_ps_read (i := i) hp
  have hwait := h.waiting hf
  have hrdata :
      s.ps.rspRdata i.ctl = c.psram (Icache.tag a ++ Icache.line a ++ BitVec.ofNat 3 k) := by
    simp only [Psram.rspRdata, hp, hr.mem, Icache.beat_memAddr a hk]
    rfl
  have hwords : s.ic.words = c.iwordsAfter (Icache.tag a) (Icache.line a) k := by
    rw [hr.iwords, h.held]
    rfl
  rw [hwe, hc, hwords, hrdata] at hiw
  rw [hlast] at hit
  have hnofill : (s.tick i).dc.state ≠ .fill := by simp [hcalm.state]
  cases hrs : i.ctl.rsp with
  | false =>
    rw [hrs] at hiw hit
    simp only [Phase.next, Wb.tick, hrs, Bool.false_and, Bool.false_eq_true, if_false] at hiw hit ⊢
    refine hr.of_same ht hdw hit (hiw.trans hwords.symm) hm ?_ (fun _ x hx ↦ ?_) (absurd · hnofill)
    · rw [hwait, h.held]
      exact ⟨rfl, rfl, rfl⟩
    · exact hr.missed (by simp) x (by rwa [hwait, ← h.held] at hx)
  | true =>
    rw [hrs] at hiw hit
    simp only [Phase.next, Wb.tick, hrs, Bool.true_and, if_true, decide_eq_true_eq] at hiw hit ⊢
    by_cases hk7 : k = 7
    · subst hk7
      rw [if_pos rfl] at hit
      rw [if_pos rfl, if_pos rfl, hw]
      exact ⟨ht.trans hr.tags, by rw [hit, hr.itags]; rfl, hdw.trans hr.words, hiw, hm.trans hr.mem,
        fun h ↦ absurd rfl h, (absurd · hnofill)⟩
    · rw [if_neg hk7] at hit
      rw [if_neg hk7, if_neg hk7]
      refine ⟨ht.trans hr.tags, hit.trans hr.itags, hdw.trans hr.words, ?_, hm.trans hr.mem,
        fun _ x hx ↦ hr.missed (by simp) x (by rwa [hwait, ← h.held] at hx), (absurd · hnofill)⟩
      rw [hwait, hiw]
      rfl

end

/-! ## A write-back -/

section

variable (h : s.WritingBack held) (hf : s.Follows held i) (hia : s.ic.Ahead)
  (hisw : s.ic.swept = true) (hdsw : s.dc.swept = true)

include h hf hia hisw hdsw

theorem tick_wbPrime (hr : Rel s held .wbPrime c) (hp : s.dc.primed = false) (hb : s.Free) :
    Rel (s.tick i) (s.waiting i) (Phase.next s i .wbPrime) (c.tick s i .wbPrime) := by
  have hdone : s.dc.done (s.dcIn i) = false := by
    rw [done_eq, hb.busy, Bool.false_and, Bool.false_and, Bool.and_false]
  have hlast := Dcache.last_of_done hdone
  obtain ⟨hwb, -⟩ := h.tick hf hia hisw hdsw hlast
  obtain ⟨hit, hiw, -⟩ := h.tick_ic hf hisw hdsw
  have hm := (hb.tick (i := i) (by rw [h.req hf, hp, Bool.false_and])).2
  refine hr.of_same (h.tick_tags hdsw hlast) (h.tick_words hdsw).1 hit hiw hm ⟨rfl, rfl, rfl⟩
    (fun _ x hx ↦ ?_) (by simp [hwb.state])
  exact hr.missed nofun x (by rwa [h.waiting hf hia] at hx)

theorem tick_wbReq (hr : Rel s held .wbReq c) (hp : s.dc.primed = true)
    (hq : s.dc.wordQ = s.dc.words (s.dc.lineR ++ 0#3)) (hb : s.Free) :
    Rel (s.tick i) (s.waiting i) (Phase.next s i .wbReq) (c.tick s i .wbReq) := by
  have hdone : s.dc.done (s.dcIn i) = false := by
    rw [done_eq, hb.busy, Bool.false_and, Bool.false_and, Bool.and_false]
  have hlast := Dcache.last_of_done hdone
  obtain ⟨hwb, hline, htag, -⟩ := h.tick hf hia hisw hdsw hlast
  obtain ⟨hit, hiw, -⟩ := h.tick_ic hf hisw hdsw
  have ht := h.tick_tags (i := i) hdsw hlast
  have hw := (h.tick_words (i := i) hdsw).1
  have hmiss : ∀ x ∈ s.waiting i, c.Misses x := fun x hx ↦
    hr.missed nofun x (by rwa [h.waiting hf hia] at hx)
  cases hrd : i.ctl.ready with
  | false =>
    simp only [Phase.next, hrd, Bool.false_eq_true, if_false]
    exact hr.of_same ht hw hit hiw (hb.tick_wait hrd).2 ⟨rfl, rfl, rfl⟩ (fun _ ↦ hmiss)
      (by simp [hwb.state])
  | true =>
    simp only [Phase.next, hrd, if_true]
    refine ⟨ht.trans hr.tags, hit.trans hr.itags, hw.trans hr.words, hiw.trans hr.iwords, ?_,
      fun _ ↦ hmiss, by simp [hwb.state]⟩
    have hreq := h.req hf
    rw [hp, hb.busy, if_pos rfl, Bool.not_false, Bool.and_self] at hreq
    have hm : (s.tick i).ps.mem =
        Psram.write s.ps.mem s.dc.memAddr s.dc.wordQ.data s.dc.wordQ.mask := by
      simp [Win.tick, Psram.tick, hb.burst, hrd, hreq]
    rw [hm, hq, hr.mem, hr.words, Wb.psramAt, hline, htag]
    rfl

theorem tick_wb {k : ℕ} {take : Bool} (hr : Rel s held (.wb k take) c)
    (hpos : 0 < k) (hk : k + take.toNat ≤ 8)
    (hc : s.dc.cnt = BitVec.ofNat 3 (k - 1 + take.toNat)) (hp : s.dc.primed = true)
    (hq : s.dc.wordQ = s.dc.words (s.dc.lineR ++ s.dc.cnt)) (hb : s.br = ⟨true, true⟩)
    (hw : s.ps.burst = .write s.dc.memAddr 8 k take) :
    Rel (s.tick i) (s.waiting i) (Phase.next s i (.wb k take)) (c.tick s i (.wb k take)) := by
  have hrsp : s.ps.rspValid i.ctl = (i.ctl.rsp && k = 8 && !take) := by simp [Psram.rspValid, hw]
  have hdone : s.dc.done (s.dcIn i) = (i.ctl.rsp && k = 8 && !take) := by
    simp [done_eq, Dcache.memSel, h.state, hp, hb, hrsp]
  have hreq := h.req hf
  rw [hp, if_pos rfl] at hreq
  have hm : (s.tick i).ps.mem = c.psramAfter s.dc.tagR s.dc.lineR (k + take.toNat) := by
    have hm' : (s.tick i).ps.mem = if take then Psram.write s.ps.mem (Psram.beat s.dc.memAddr k)
        s.dc.wordQ.data s.dc.wordQ.mask else s.ps.mem := by
      simp only [Win.tick, Psram.tick, hw, hreq]
    cases take with
    | false => rw [hm', if_neg Bool.false_ne_true, hr.mem]; rfl
    | true =>
      have hk8 : k < 8 := by
        simp only [Bool.toNat_true] at hk
        omega
      have hcnt : s.dc.cnt = BitVec.ofNat 3 k := by
        rw [hc]
        congr 1
        simp only [Bool.toNat_true]
        omega
      rw [hm', if_pos rfl, hq, hcnt, hr.mem, hr.words, Dcache.memAddr, Dcache.beat_append _ _ hk8]
      rfl
  obtain ⟨hit, hiw, -⟩ := h.tick_ic hf hisw hdsw
  have hwords := (h.tick_words (i := i) hdsw).1
  simp only [Phase.next, Wb.tick]
  cases hfin : i.ctl.rsp && k = 8 && !take with
  | false =>
    rw [hfin] at hdone
    simp only [Bool.false_eq_true, if_false]
    have hlast := Dcache.last_of_done hdone
    obtain ⟨hwb, hline, htag, -⟩ := h.tick hf hia hisw hdsw hlast
    refine ⟨(h.tick_tags hdsw hlast).trans hr.tags, hit.trans hr.itags, hwords.trans hr.words,
      hiw.trans hr.iwords, ?_, fun _ x hx ↦ ?_, by simp [hwb.state]⟩
    · rw [hm, Wb.psramAt, hline, htag]
    · exact hr.missed (by simp) x (by rwa [h.waiting hf hia] at hx)
  | true =>
    rw [hfin] at hdone
    simp only [if_true]
    simp only [Bool.and_eq_true, decide_eq_true_eq, Bool.not_eq_true'] at hfin
    obtain ⟨⟨-, rfl⟩, rfl⟩ := hfin
    have hcnt7 : s.dc.cnt = 7#3 := hc
    have hlast : s.dc.last (s.dcIn i) = true := by
      simp [Dcache.last, hdone, hcnt7]
    have htags := h.tick_tags_last (i := i) hdsw hlast
    cases hprobe : s.dc.isProbe with
    | true =>
      rw [hprobe, if_pos rfl, hr.tags] at htags
      refine ⟨htags, hit.trans hr.itags, hwords.trans hr.words, hiw.trans hr.iwords, hm,
        fun h ↦ absurd rfl h, ?_⟩
      have hst : (s.tick i).dc.state = .idle := by
        simp [tick_dc, Dcache.tick_state, Dcache.tickState, h.state, hlast, hprobe]
      simp [hst]
    | false =>
      rw [hprobe, if_neg Bool.false_ne_true] at htags
      refine ⟨htags.trans hr.tags, hit.trans hr.itags, hwords.trans hr.words,
        hiw.trans hr.iwords, hm, fun _ x hx ↦ ?_, fun _ ↦ ?_⟩
      · have hx' : c.Misses x := hr.missed (by simp) x (by rwa [h.waiting hf hia] at hx)
        cases x <;> exact hx'
      · have hline : (s.tick i).dc.lineR = s.dc.lineR := by
          simp [tick_dc, Dcache.tick_lineR, Dcache.tickState, h.state, hlast, hprobe]
        have hvictim : c.evict s.dc.lineR = c.writeBack s.dc.tagR s.dc.lineR := by
          have ht := h.tag
          rw [hr.tags] at ht
          simp [Wb.evict, Wb.dirty, ht]
        rw [hline, if_neg Bool.false_ne_true, ← hvictim, Wb.evict_evict]

end

/-! ## A data access's fill -/

section

variable (h : s.Filling held) (hf : s.Follows held i) (hisw : s.ic.swept = true)
  (hdsw : s.dc.swept = true)

include h hdsw in
/-- The data cache's RAMs while it fills. -/
theorem dc_of_filling :
    (s.tick i).dc.tags = (if s.dc.last (s.dcIn i) then
        Function.update s.dc.tags s.dc.lineR ⟨true, false, s.dc.tagR⟩ else s.dc.tags) ∧
      (s.tick i).dc.words = (if s.dc.done (s.dcIn i) then
        Function.update s.dc.words (s.dc.lineR ++ s.dc.cnt) ⟨0b0000#4, s.ps.rspRdata i.ctl⟩
        else s.dc.words) := by
  have hhit : s.dc.hit (s.dcIn i) = false :=
    Dcache.hit_of_lookup (Dcache.lookup_of_state (by simp [h.state]))
  have hrdata : (s.dcIn i).memRdata = s.ps.rspRdata i.ctl := rfl
  constructor
  · have ht : s.dc.tagWrite (s.dcIn i) = if s.dc.last (s.dcIn i) then
        some (s.dc.lineR, ⟨true, false, s.dc.tagR⟩) else none := by
      cases hd : s.dc.done (s.dcIn i) <;>
        simp [Dcache.tagWrite, hdsw, hhit, h.state, hd, Dcache.last]
    simp only [Win.tick, Dcache.tick, ht]
    split <;> rfl
  · have hw : s.dc.wordWrite (s.dcIn i) = if s.dc.done (s.dcIn i) then
        some (s.dc.lineR ++ s.dc.cnt, ⟨0b0000#4, s.ps.rspRdata i.ctl⟩) else none := by
      simp [Dcache.wordWrite, hdsw, hhit, h.state, hrdata]
    simp only [Win.tick, Dcache.tick, hw]
    split <;> rfl

include h in
theorem Filling.tick_regs (hlast : s.dc.last (s.dcIn i) = false) :
    (s.tick i).dc.lineR = s.dc.lineR ∧ (s.tick i).dc.tagR = s.dc.tagR := by
  have hstate : s.dc.tickState (s.dcIn i) = s.dc := by
    simp only [Dcache.tickState, h.state, hlast, Bool.false_eq_true, if_false]
  exact ⟨by rw [tick_dc, Dcache.tick_lineR, hstate], by rw [tick_dc, Dcache.tick_tagR, hstate]⟩

include h hf hisw hdsw

theorem tick_dfillReq (hr : Rel s held .dfillReq c) (hb : s.Free) :
    Rel (s.tick i) (s.waiting i) (Phase.next s i .dfillReq) (c.tick s i .dfillReq) := by
  have hdone : s.dc.done (s.dcIn i) = false := by
    rw [done_eq, hb.busy, Bool.false_and, Bool.false_and, Bool.and_false]
  have hlast := Dcache.last_of_done hdone
  obtain ⟨ht, hw⟩ := dc_of_filling (i := i) h hdsw
  rw [hlast, if_neg Bool.false_ne_true] at ht
  rw [hdone, if_neg Bool.false_ne_true] at hw
  obtain ⟨hit, hiw, -⟩ := h.tick_ic hf hisw
  obtain ⟨hline, -⟩ := Filling.tick_regs h hlast
  have hm : (s.tick i).ps.mem = s.ps.mem := by
    have hreq := h.req hf
    simp only [Win.tick, Psram.tick, hb.burst, hreq]
    split <;> rfl
  refine hr.of_same ht hw hit hiw hm ?_ (fun _ x hx ↦ ?_) fun _ ↦ ?_
  · simp only [Phase.next]
    split <;> exact ⟨rfl, rfl, rfl⟩
  · exact hr.missed (by simp) x (by rwa [h.waiting hf] at hx)
  · rw [hline]
    exact hr.evicted h.state

theorem tick_dfill {k : ℕ} (hr : Rel s held (.dfill k) c) (hk : k < 8)
    (hc : s.dc.cnt = BitVec.ofNat 3 k) (hb : s.br = ⟨true, true⟩)
    (hp : s.ps.burst = .read s.dc.memAddr 8 k) :
    Rel (s.tick i) (s.waiting i) (Phase.next s i (.dfill k)) (c.tick s i (.dfill k)) := by
  have hrsp : s.ps.rspValid i.ctl = i.ctl.rsp := by simp [Psram.rspValid, hp]
  have hdone : s.dc.done (s.dcIn i) = i.ctl.rsp := by
    simp [done_eq, Dcache.memSel, h.state, hb, hrsp]
  have hlast : s.dc.last (s.dcIn i) = (i.ctl.rsp && k = 7) := by
    rw [Dcache.last, hdone, hc, decide_eq_decide.mpr (ofNat_eq_seven hk)]
  obtain ⟨ht, hw⟩ := dc_of_filling (i := i) h hdsw
  obtain ⟨hit, hiw, -⟩ := h.tick_ic hf hisw
  obtain ⟨-, hm⟩ := tick_ps_read (i := i) hp
  have hwait := h.waiting hf
  have hrdata : s.ps.rspRdata i.ctl =
      c.psram (s.dc.tagR ++ s.dc.lineR ++ BitVec.ofNat 3 k) := by
    simp only [Psram.rspRdata, hp, hr.mem, Dcache.memAddr, Dcache.beat_append _ _ hk]
    rfl
  rw [hlast] at ht
  rw [hdone, hc, hrdata, hr.words] at hw
  cases hrs : i.ctl.rsp with
  | false =>
    rw [hrs] at ht hw hlast
    simp only [Phase.next, Wb.tick, hrs, Bool.false_and, Bool.false_eq_true, if_false] at ht hw ⊢
    obtain ⟨hline, htag⟩ := Filling.tick_regs h hlast
    refine hr.of_same ht (hw.trans hr.words.symm) hit hiw hm ⟨?_, rfl, rfl⟩ (fun _ x hx ↦ ?_)
      fun _ ↦ ?_
    · rw [Wb.dwordsAt, hline, htag]
      rfl
    · exact hr.missed (by simp) x (by rwa [hwait] at hx)
    · rw [hline]
      exact hr.evicted h.state
  | true =>
    rw [hrs] at ht hw hlast
    simp only [Phase.next, Wb.tick, hrs, Bool.true_and, if_true, decide_eq_true_eq] at ht hw ⊢
    by_cases hk7 : k = 7
    · subst hk7
      rw [if_pos rfl] at ht
      rw [if_pos rfl, if_pos rfl]
      refine ⟨by rw [ht, hr.tags]; rfl, hit.trans hr.itags, hw, hiw.trans hr.iwords,
        hm.trans hr.mem, fun h ↦ absurd rfl h, ?_⟩
      have hst : (s.tick i).dc.state = .idle := by
        simp [tick_dc, Dcache.tick_state, Dcache.tickState, h.state, hlast]
      simp [hst]
    · rw [if_neg hk7] at ht
      rw [if_neg hk7, if_neg hk7]
      have hnl : s.dc.last (s.dcIn i) = false := by simp [hlast, hk7]
      obtain ⟨hline, htag⟩ := Filling.tick_regs h hnl
      refine ⟨ht.trans hr.tags, hit.trans hr.itags, ?_, hiw.trans hr.iwords, hm.trans hr.mem,
        fun _ x hx ↦ hr.missed (by simp) x (by rwa [hwait] at hx), fun _ ↦ ?_⟩
      · change _ = c.wordsAfter (s.tick i).dc.tagR (s.tick i).dc.lineR (k + 1)
        rw [hw, hline, htag]
        rfl
      · rw [hline]
        exact hr.evicted h.state

end

/-! ## Between two transfers -/

section

variable (hi : s.ic.Calm) (hd : s.dc.Calm) (hb : s.Free) (hf : s.Follows held i)
  (hisw : s.ic.swept = true) (hdsw : s.dc.swept = true)

theorem line_invIdx : i.winDataWaddr.extractLsb' 5 9 = Icache.line i.dataWord := by
  refine BitVec.eq_of_getLsbD_eq fun j hj ↦ ?_
  simp [Icache.line, WinIn.dataWord, hj, show 3 + j < 21 by omega, show 2 + (3 + j) =
    5 + j by omega]

include hf in
/-- A store that hits completes. -/
theorem done_of_store (hst : (s.dc.hit (s.dcIn i) && (s.dcIn i).dataWe) = true) :
    s.done i = some (.store i.dataWord i.dataOut i.byteWe) ∧ s.ready i = true := by
  rw [Bool.and_eq_true] at hst
  obtain ⟨hhit, hwe⟩ := hst
  have hw : i.memWrite = true := hwe
  have hwin : Dcache.win (s.dcIn i) = true := by
    simp only [Dcache.hit, Dcache.lookup, Bool.and_eq_true] at hhit
    exact hhit.1.1.1.1.1
  have hreq : i.dataReq = true ∧ i.xmemWsel = true := by
    simpa [Dcache.win, dcIn, dataIn] using hwin
  have hnf : i.fetchReq = false := by
    refine Bool.eq_false_of_not_eq_true fun hfr ↦ ?_
    exact absurd (hreq.1.symm.trans (hf.one hfr)) (by simp)
  have hready : s.ready i = true := by
    have hh : s.dc.hit (s.dataIn i) = true := hhit
    simp [ready, instrReady, Icache.instrReady, Icache.win, icIn, hnf, dataReady, Dcache.dataReady,
      hh]
  refine ⟨?_, hready⟩
  rw [Win.done, hready, if_pos rfl, WinIn.access, hnf, hreq.1, hreq.2, hw]
  rfl

/-- A store completes by a hit. -/
theorem store_of_done {data : Word} {be : BitVec 4} (h : s.done i = some (.store a data be)) :
    (s.dc.hit (s.dcIn i) && (s.dcIn i).dataWe) = true := by
  have hacc : i.access = some (.store a data be) ∧ s.ready i = true := by
    unfold Win.done at h
    split at h
    · next hr => exact ⟨h, hr⟩
    · simp at h
  obtain ⟨-, hreq, hsel, -, hx⟩ := access_data hacc.1 rfl
  have hw : i.memWrite = true := by
    cases hm : i.memWrite with
    | true => rfl
    | false => simp [hm] at hx
  have hready := hacc.2
  rw [ready, Bool.and_eq_true, dataReady_eq, hreq, hsel] at hready
  have hhit : s.dc.hit (s.dcIn i) = true := hready.2
  rw [hhit]
  exact hw

include hi hd hb hf hisw hdsw

theorem tick_fetchMiss (hr : Rel s held .idle c) (hia : s.ic.Ahead)
    (hmiss : s.ic.miss (s.icIn i) = true) :
    Rel (s.tick i) (s.waiting i) (Phase.next s i .idle) (c.tick s i .idle) := by
  have hm := (Free.tick_calm (i := i) hi hd hb).2
  have hm' := hmiss
  simp only [Icache.miss, Icache.win, Bool.and_eq_true, Bool.not_eq_true'] at hm'
  obtain ⟨⟨⟨hreq, hsel⟩, hlook⟩, hhit⟩ := hm'
  have hacc : i.access = some (.fetch i.fetchWord) := by
    have hc : (i.fetchReq && !i.softRst && i.xmemFetchSel) = true :=
      Bool.and_eq_true_iff.mpr ⟨hreq, hsel⟩
    rw [WinIn.access, if_pos hc]
  obtain ⟨hwin, hdwin, hinv, -, -⟩ := hf.fetch hacc
  have hnr := ready_of_fetch hwin hhit
  have hwait := waiting_eq hacc hnr
  have hdlook := Dcache.lookup_of_win (c := s.dc) hdwin
  obtain ⟨ht, hw⟩ := hd.tick_rams (i := s.dcIn i) hdsw
    (by rw [Dcache.hit_of_lookup hdlook, Bool.false_and])
  obtain ⟨hit, hiw⟩ := hi.tick_rams (i := s.icIn i) hisw hinv
  have hc : c.tick s i .idle = c := by simp [Wb.tick, Win.done, hnr]
  have hmisses : ∀ x ∈ s.waiting i, c.Misses x := by
    intro x hx
    rw [hwait, Option.mem_some_iff] at hx
    subst hx
    intro hh
    rw [Wb.IHolds, ← hr.itags] at hh
    have := (Icache.hit_iff (i := s.icIn i) hia hlook (hf.fetchIdx _ hacc)).mpr hh
    exact absurd (this.symm.trans hhit) (by simp)
  have hdmiss : s.dc.miss (s.dcIn i) = false := by rw [Dcache.miss, hdlook, Bool.false_and]
  have hnofill : (s.tick i).dc.state ≠ .fill := by
    rw [tick_dc, Dcache.tick_state]
    simp only [Dcache.tickState, hd.state, hdmiss, Bool.false_eq_true, if_false]
    split <;> simp [hd.state]
  rw [hc]
  refine hr.of_same ht hw hit hiw hm ?_ (fun _ ↦ hmisses) (absurd · hnofill)
  simp only [Phase.next, hmiss, if_true]
  split <;> exact ⟨rfl, rfl, rfl⟩

theorem tick_dataMiss (hr : Rel s held .idle c) (hda : s.dc.Ahead)
    (himiss : s.ic.miss (s.icIn i) = false) (hmiss : s.dc.miss (s.dcIn i) = true) :
    Rel (s.tick i) (s.waiting i) (Phase.next s i .idle) (c.tick s i .idle) := by
  have hm := (Free.tick_calm (i := i) hi hd hb).2
  have hm' := hmiss
  simp only [Dcache.miss, Bool.and_eq_true, Bool.not_eq_true'] at hm'
  obtain ⟨hlook, hmatch⟩ := hm'
  have hhit : s.dc.hit (s.dcIn i) = false := by rw [Dcache.hit, hmatch, Bool.and_false]
  have hwin : Dcache.win (s.dcIn i) = true := by
    simp only [Dcache.lookup, Bool.and_eq_true] at hlook
    exact hlook.1.1.1.1
  have hnr : s.dataReady i = false := by
    have hw : Dcache.win (s.dataIn i) = true := hwin
    have hh : s.dc.hit (s.dataIn i) = false := hhit
    simp [dataReady, Dcache.dataReady, hw, hh]
  have hready : s.ready i = false := by simp [ready, hnr]
  obtain ⟨ht, hw⟩ := hd.tick_rams (i := s.dcIn i) hdsw (by rw [hhit, Bool.false_and])
  obtain ⟨hit, hiw⟩ := hi.tick_rams (i := s.icIn i) hisw (by simp [icIn, hnr])
  have hc : c.tick s i .idle = c := by simp [Wb.tick, Win.done, hready]
  have hq : s.dc.tagQ = c.tags (Dcache.line i.dataWord) := by
    rw [← hr.tags]
    exact (hda.of_lookup hlook).1
  have hnholds : ¬ c.Holds i.dataWord := by
    rintro ⟨hv, htag⟩
    rw [← hq] at hv htag
    have htag' : s.dc.tagQ.tag = Dcache.tag (s.dcIn i).dataAddr := htag
    simp [Dcache.matched, hv, htag'] at hmatch
  have hmisses : ∀ x ∈ s.waiting i, c.Misses x := by
    intro x hx
    rw [waiting, hready, if_neg Bool.false_ne_true] at hx
    have hreq : i.dataReq = true ∧ i.xmemWsel = true := by
      simpa [Dcache.win, dcIn, dataIn] using hwin
    have hnf : i.fetchReq = false := by
      refine Bool.eq_false_of_not_eq_true fun hfr ↦ ?_
      exact absurd (hreq.1.symm.trans (hf.one hfr)) (by simp)
    have hx' : i.access = some x := hx
    simp only [WinIn.access, hnf, hreq.1, hreq.2, Bool.false_and, Bool.and_self, if_true,
      Bool.false_eq_true, if_false, Option.some.injEq] at hx'
    subst hx'
    split <;> exact hnholds
  rw [hc]
  refine hr.of_same ht hw hit hiw hm ?_ (fun _ ↦ hmisses) fun hfill ↦ ?_
  · simp only [Phase.next, himiss, hmiss, if_true, Bool.false_eq_true, if_false]
    split <;> exact ⟨rfl, rfl, rfl⟩
  · rw [tick_dc] at hfill ⊢
    rw [Dcache.tick_state] at hfill
    rw [Dcache.tick_lineR]
    simp only [Dcache.tickState, hd.state, hmiss, if_true] at hfill ⊢
    refine Wb.evict_of_clean ?_
    have hv : s.dc.victimDirty = false := by
      cases hv : s.dc.victimDirty with
      | false => rfl
      | true => simp [hv] at hfill
    rw [Dcache.victimDirty, hq] at hv
    exact hv

theorem tick_idle (hr : Rel s held .idle c) (hia : s.ic.Ahead) (hda : s.dc.Ahead) :
    Rel (s.tick i) (s.waiting i) (Phase.next s i .idle) (c.tick s i .idle) := by
  cases himiss : s.ic.miss (s.icIn i) with
  | true => exact tick_fetchMiss hi hd hb hf hisw hdsw hr hia himiss
  | false =>
    cases hdmiss : s.dc.miss (s.dcIn i) with
    | true => exact tick_dataMiss hi hd hb hf hisw hdsw hr hda himiss hdmiss
    | false =>
      have hm := (Free.tick_calm (i := i) hi hd hb).2
      have hprobe : s.dc.probeWb (s.dcIn i) = false := by
        have hpr : (s.dcIn i).probeReq = false := himiss
        simp [Dcache.probeWb, hpr]
      have hcalm : (s.tick i).dc.Calm := hd.tick hdmiss hprobe hb.wdataNext
      have hnofill : (s.tick i).dc.state ≠ .fill := by simp [hcalm.state]
      have hnext : Phase.next s i .idle = .idle := by simp [Phase.next, himiss, hdmiss]
      rw [hnext]
      cases hst : s.dc.hit (s.dcIn i) && (s.dcIn i).dataWe with
      | false =>
        obtain ⟨ht, hw⟩ := hd.tick_rams (i := s.dcIn i) hdsw hst
        have hinv : (s.icIn i).inv = false := by
          refine Bool.eq_false_of_not_eq_true fun hinv ↦ ?_
          simp only [icIn, Bool.and_eq_true] at hinv
          obtain ⟨⟨⟨hreq, hsel⟩, hwe⟩, hh⟩ := hinv
          rw [dataReady_eq, hreq, hsel] at hh
          have hhit : s.dc.hit (s.dcIn i) = true := hh
          have hwe' : (s.dcIn i).dataWe = true := hwe
          rw [hhit, hwe'] at hst
          exact absurd hst (by simp)
        obtain ⟨hit, hiw⟩ := hi.tick_rams hisw hinv
        have hc : c.tick s i .idle = c := by
          simp only [Wb.tick]
          split
          · next a data be hdone => exact absurd ((store_of_done hdone).symm.trans hst) (by simp)
          · rfl
        rw [hc]
        exact hr.of_same ht hw hit hiw hm ⟨rfl, rfl, rfl⟩ (fun h ↦ absurd rfl h)
          (absurd · hnofill)
      | true =>
        obtain ⟨hdone, -⟩ := done_of_store hf hst
        have hc : c.tick s i .idle = c.merge i.dataWord i.dataOut i.byteWe := by
          simp only [Wb.tick, hdone]
        rw [hc]
        have hlook : s.dc.lookup (s.dcIn i) = true := by
          simp only [Dcache.hit, Bool.and_eq_true] at hst
          exact hst.1.1
        have hword : s.dc.wordQ = c.words (Dcache.idx i.dataWord) := by
          rw [show c.words = s.dc.words from hr.words.symm]
          exact (hda.of_lookup hlook).2
        have hinv : (s.icIn i).inv = true := by
          have hst' := hst
          rw [Bool.and_eq_true] at hst'
          have hh : s.dc.hit (s.dataIn i) = true := hst'.1
          have hwin : Dcache.win (s.dcIn i) = true := by
            simp only [Dcache.lookup, Bool.and_eq_true] at hlook
            exact hlook.1.1.1.1
          have hreq : i.dataReq = true ∧ i.xmemWsel = true := by
            simpa [Dcache.win, dcIn, dataIn] using hwin
          have hwe : i.memWrite = true := hst'.2
          simp [icIn, dataReady, Dcache.dataReady, hh, hreq, hwe]
        have htag : s.dc.tagWrite (s.dcIn i) =
            some (Dcache.line i.dataWord, ⟨true, true, Dcache.tag i.dataWord⟩) := by
          simp only [Dcache.tagWrite, hdsw, hst, Bool.not_true, Bool.false_eq_true, if_false,
            if_true]
          rfl
        have hwr : s.dc.wordWrite (s.dcIn i) = some (Dcache.idx i.dataWord,
            ⟨s.dc.wordQ.mask ||| i.byteWe, strobed s.dc.wordQ.data i.dataOut i.byteWe⟩) := by
          simp only [Dcache.wordWrite, hdsw, hst, Bool.not_true, Bool.false_eq_true, if_false,
            if_true]
          rfl
        have hitag : s.ic.tagWrite (s.icIn i) = some (Icache.line i.dataWord, .zero) := by
          have hidx : (s.icIn i).invIdx = Icache.line i.dataWord := line_invIdx
          simp [Icache.tagWrite, hisw, Icache.last_of_idle hi.state, hinv, hidx]
        refine ⟨?_, ?_, ?_, ?_, hm.trans hr.mem, fun h ↦ absurd rfl h, (absurd · hnofill)⟩
        · simp only [Win.tick, Dcache.tick, htag, hr.tags]
          rfl
        · simp only [Win.tick, Icache.tick, hitag, hr.itags]
          rfl
        · simp only [Win.tick, Dcache.tick, hwr, hword, hr.words]
          rfl
        · simp only [Win.tick, Icache.tick, Icache.wordWe_of_idle hi.state, Bool.false_eq_true,
            if_false]
          exact hr.iwords

end

/-- **One clock edge of the RTL is one of the write-back cache.** -/
theorem tick {p : Phase} (hr : Rel s held p c) (h : s.Inv held p) (hf : s.Follows held i) :
    Rel (s.tick i) (s.waiting i) (p.next s i) (c.tick s i p) := by
  obtain ⟨hisw, hdsw, hia, hda, hat⟩ := h
  cases hat with
  | idle hi hd hb => exact tick_idle hi hd hb hf hisw hdsw hr hia hda
  | ifillReq h hc hb => exact tick_ifillReq hf hisw hr h hb hdsw
  | ifill h hk hc hb hp => exact tick_ifill hf hisw hr h hk hc hb hp hdsw
  | wbPrime h hc hp hb => exact tick_wbPrime h hf hia hisw hdsw hr hp hb
  | wbReq h hc hp hq hb => exact tick_wbReq h hf hia hisw hdsw hr hp hq hb
  | wb h hpos hk hc hp hq hb hw => exact tick_wb h hf hia hisw hdsw hr hpos hk hc hp hq hb hw
  | dfillReq h hc hb => exact tick_dfillReq h hf hisw hdsw hr hb
  | dfill h hk hc hb hp => exact tick_dfill h hf hisw hdsw hr hk hc hb hp

/-! ## What an access has yet to do -/

theorem ready_of_waiting {x : Access} (h : s.waiting i = some x) : s.ready i = false := by
  refine Bool.eq_false_of_not_eq_true fun hr ↦ ?_
  rw [waiting, hr, if_pos rfl] at h
  exact absurd h (by simp)

/-- A data access that completes finds its word. -/
theorem holds_of_ready {x : Access} (hr : Rel s held .idle c) (hda : s.dc.Ahead)
    (hx : i.access = some x) (ha : x.dataWord = some a) (hready : s.ready i = true) :
    c.Holds a ∧ s.dc.wordQ = c.words (Dcache.idx a) := by
  obtain ⟨-, hreq, hsel, hw, -⟩ := access_data hx ha
  rw [ready, Bool.and_eq_true, dataReady_eq, hreq, hsel] at hready
  have hhit : s.dc.hit (s.dcIn i) = true := hready.2
  rw [Dcache.hit, Bool.and_eq_true] at hhit
  obtain ⟨htag, hword⟩ := hda.of_lookup hhit.1
  have haddr : (s.dcIn i).dataAddr = a := hw
  have hm := hhit.2
  rw [Dcache.matched, htag, haddr, hr.tags, Bool.and_eq_true, decide_eq_true_iff] at hm
  refine ⟨hm, ?_⟩
  rw [hword, haddr, hr.words]
  rfl

/-- A fetch that completes finds its word. -/
theorem iholds_of_ready (hr : Rel s held .idle c) (hia : s.ic.Ahead) (hf : s.Follows held i)
    (hx : i.access = some (.fetch a)) (hready : s.ready i = true) :
    c.IHolds a ∧ s.ic.wordQ = c.iwords (Icache.idx a) := by
  obtain ⟨hwin, -, -, hw, -⟩ := hf.fetch hx
  have hhit : s.ic.hit (s.icIn i) = true := by
    rw [ready, instrReady, Icache.instrReady, hwin, Bool.and_eq_true] at hready
    exact hready.1
  have hlook : s.ic.lookup = true := by
    simp only [Icache.hit, Bool.and_eq_true] at hhit
    exact hhit.1.1.1
  have haddr : (s.icIn i).fetchAddr = a := hw
  have hidx := hf.fetchIdx a hx
  constructor
  · have ht := (Icache.hit_iff hia hlook (by rw [haddr, hidx])).mp hhit
    rwa [haddr, hr.itags] at ht
  · have hrep : s.ic.replayQ = false := by
      simp only [Icache.lookup, Bool.and_eq_true, Bool.not_eq_true'] at hlook
      exact hlook.2
    rw [hia.word hrep, hidx, hr.iwords]
    rfl

/-- **An access leaves the write-back cache as `Wb.access` says when it completes; until then it has
the same to do.** -/
theorem access_tick {p : Phase} {x : Access} (hr : Rel s held p c) (h : s.Inv held p)
    (hf : s.Follows held i) (hx : i.access = some x) :
    if s.ready i then p = .idle ∧ c.tick s i p = c.access x
    else (c.tick s i p).access x = c.access x := by
  obtain ⟨hisw, hdsw, hia, hda, hat⟩ := h
  have hsame : ∀ y, held = some y → x = y := by
    intro y hy
    exact Option.some.inj (hx.symm.trans (hf.held y hy))
  cases hat with
  | idle hi hd hb =>
    cases hready : s.ready i with
    | false =>
      rw [if_neg Bool.false_ne_true]
      simp [Wb.tick, Win.done, hready]
    | true =>
      have hdone : s.done i = some x := by rw [Win.done, hready, if_pos rfl, hx]
      rw [if_pos rfl]
      refine ⟨rfl, ?_⟩
      simp only [Wb.tick, hdone]
      cases x with
      | fetch a => exact (Wb.access_fetch (iholds_of_ready hr hia hf hx hready).1).symm
      | load a => exact (Wb.allocate_of_holds (holds_of_ready hr hda hx rfl hready).1).symm
      | store a data be =>
        rw [Wb.access, Wb.allocate_of_holds (holds_of_ready hr hda hx rfl hready).1]
  | @ifillReq a h hc hb =>
    rw [ready_of_waiting (h.waiting hf), if_neg Bool.false_ne_true]
    rfl
  | @ifill a k h hk hc hb hp =>
    rw [ready_of_waiting (h.waiting hf), if_neg Bool.false_ne_true]
    obtain rfl := hsame _ h.held
    have hw := (hf.fetch hx).2.2.2.1
    simp only [Wb.tick, hw]
    split
    · have hclean : c.tags (Dcache.line a) ≠ ⟨true, true, Dcache.tag a⟩ := by
        intro ht
        have hc := h.clean
        simp [Dcache.probeDirty, hdsw, hr.tags, ht] at hc
      exact Wb.access_ifill (hr.missed (by simp) _ h.held) (Wb.probe_eq hclean)
    · rfl
  | wbPrime h hc hp hb =>
    have hne : s.waiting i = some x := by
      rw [h.waiting hf hia]
      rcases h.held with ⟨-, a, ha, -⟩ | ⟨-, y, a, hy, -⟩
      · rw [ha, hsame _ ha]
      · rw [hy, hsame _ hy]
    rw [ready_of_waiting hne, if_neg Bool.false_ne_true]
    rfl
  | wbReq h hc hp hq hb =>
    have hne : s.waiting i = some x := by
      rw [h.waiting hf hia]
      rcases h.held with ⟨-, a, ha, -⟩ | ⟨-, y, a, hy, -⟩
      · rw [ha, hsame _ ha]
      · rw [hy, hsame _ hy]
    rw [ready_of_waiting hne, if_neg Bool.false_ne_true]
    rfl
  | wb h hpos hk hc hp hq hb hw =>
    have ht := h.tag
    rw [hr.tags] at ht
    rcases h.held with ⟨hprobe, a, ha, hl, htg, -⟩ | ⟨hprobe, y, a, hy, ha, hl⟩
    · obtain rfl := hsame _ ha
      rw [ready_of_waiting ((h.waiting hf hia).trans ha), if_neg Bool.false_ne_true]
      simp only [Wb.tick, hprobe, if_true]
      split
      · have hpr : c.probe a = (c.writeBack s.dc.tagR s.dc.lineR).clean s.dc.tagR s.dc.lineR := by
          rw [Wb.probe, hl, htg, if_pos ht]
        rw [← hpr]
        exact Wb.access_probe (hr.missed (by simp) _ ha)
      · rfl
    · obtain rfl := hsame _ hy
      rw [ready_of_waiting ((h.waiting hf hia).trans hy), if_neg Bool.false_ne_true]
      simp only [Wb.tick, hprobe, Bool.false_eq_true, if_false]
      split
      · have hev : c.evict (Dcache.line a) = c.writeBack s.dc.tagR s.dc.lineR := by
          simp [Wb.evict, Wb.dirty, hl, ht]
        rw [← hev]
        refine Wb.access_congr ha (Wb.allocate_evict ?_)
        exact (Wb.misses_iff ha).mp (hr.missed (by simp) _ hy)
      · rfl
  | dfillReq h hc hb =>
    obtain ⟨y, a, hy, -⟩ := h.held
    rw [ready_of_waiting ((h.waiting hf).trans hy), if_neg Bool.false_ne_true]
    rfl
  | dfill h hk hc hb hp =>
    obtain ⟨y, a, hy, ha, hl, htg⟩ := h.held
    obtain rfl := hsame _ hy
    rw [ready_of_waiting ((h.waiting hf).trans hy), if_neg Bool.false_ne_true]
    simp only [Wb.tick]
    split
    · rw [← hl, ← htg]
      refine Wb.access_congr ha (Wb.allocate_fill ?_ ?_)
      · exact (Wb.misses_iff ha).mp (hr.missed (by simp) _ hy)
      · rw [hl]
        exact hr.evicted h.state
    · rfl

end Rel

end Vux9k.Rtl

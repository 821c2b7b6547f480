import Vux9k.Rtl.Transparent
import Vux9k.Rtl.WindowBus

/-!
# What a write-back writes

The bytes of a write-back are those that the CPU stored since the fill that brought the line in: the
masks beside the words of the data cache are cleared by a fill, set by a store, and nothing else
changes them.  `Wb.Masks` ties the masks and the words to what was stored since.
-/

set_option autoImplicit false

namespace Vux9k.Rtl

namespace Wb

/-- The masks and the masked bytes of the lines held are what was stored, `g`. -/
def Masks (c : Wb) (g : PWord → ℕ → Option Byte) : Prop :=
  ∀ w, c.Holds w → ∀ b < 4, (c.words (Dcache.idx w)).mask.getLsbD b = (g w b).isSome ∧
    ∀ v ∈ g w b, byteAt (c.words (Dcache.idx w)).data b = v

variable {c : Wb} {g : PWord → ℕ → Option Byte}

theorem Masks.congr {d : Wb} (h : c.Masks g) (hw : d.words = c.words)
    (hh : ∀ w, d.Holds w ↔ c.Holds w) : d.Masks g := by
  intro w hd
  rw [hw]
  exact h w ((hh w).mp hd)

theorem Masks.merge {a : PWord} (h : c.Masks g) (ha : c.Holds a) (data : Word) (be : BitVec 4) :
    (c.merge a data be).Masks fun w b ↦ ((Access.store a data be).byteTo w b).or (g w b) := by
  intro w hw b hb
  have hw' := (holds_merge ha data be w).mp hw
  obtain ⟨hm, hv⟩ := h w hw' b hb
  by_cases hwa : w = a
  · subst hwa
    simp only [Wb.merge, Function.update_self, BitVec.getLsbD_or, hm, Access.byteTo, true_and]
    rw [byteAt_strobed _ _ _ hb]
    cases be.getLsbD b with
    | true => simp
    | false => simpa using hv
  · have hto : (Access.store a data be).byteTo w b = none := if_neg fun hc ↦ hwa hc.1.symm
    simp only [Wb.merge, Function.update_of_ne (idx_ne_of_holds ha hw' hwa), hto, Option.none_or]
    exact ⟨hm, hv⟩

theorem Masks.fill {t : BitVec 12} {l : BitVec 6} (h : c.Masks g) :
    (c.fill t l).Masks fun w b ↦
      if l = Dcache.line w ∧ t = Dcache.tag w then none else g w b := by
  intro w hw b hb
  by_cases hl : Dcache.line w = l
  · have ht := tag_of_holds_fill hl hw
    simp only [fill_words, hl, ht, and_self, if_true]
    simp
  · have hne : ¬ (l = Dcache.line w ∧ t = Dcache.tag w) := fun hc ↦ hl hc.1.symm
    simp only [fill_words, if_neg hl, if_neg hne]
    exact h w ((holds_fill hl).mp hw) b hb

end Wb

namespace Win

/-! ## Stores since the fill -/

/-- The data cache is filled with the word's line. -/
def filled (s : Win) (i : WinIn) (w : PWord) : Prop :=
  s.dc.state = .fill ∧ s.dc.last (s.dcIn i) = true ∧ s.dc.lineR = Dcache.line w ∧
    s.dc.tagR = Dcache.tag w

instance (s : Win) (i : WinIn) (w : PWord) : Decidable (s.filled i w) := instDecidableAnd

/-- What the CPU has stored into the byte `b` of `w` since its line's fill, last. -/
def storedSince (inp : ℕ → WinIn) (s : Win) (w : PWord) (b : ℕ) : ℕ → Option Byte
  | 0 => none
  | n + 1 => if (run inp s n).filled (inp n) w then none
    else (((run inp s n).done (inp n)).bind (Access.byteTo w b)).or (storedSince inp s w b n)

/-- The beat of a write burst: its word, data and strobes. -/
def beatOf (s : Win) (i : WinIn) : Option (PWord × Word × BitVec 4) :=
  if s.taken i && (s.req i).we then some ((s.req i).addr, (s.req i).wdata, (s.req i).wstrb)
  else match s.ps.burst with
    | .write a _ k true => some (Psram.beat a k, (s.req i).wdata, (s.req i).wstrb)
    | _ => none

variable {s : Win} {i : WinIn} {held : Option Access} {p : Phase} {c : Wb}
  {g : PWord → ℕ → Option Byte}

/-! ## One cycle -/

/-- What was stored since, a cycle later. -/
def storedNext (s : Win) (i : WinIn) (g : PWord → ℕ → Option Byte) (w : PWord) (b : ℕ) :
    Option Byte :=
  if s.filled i w then none else ((s.done i).bind (Access.byteTo w b)).or (g w b)

/-- While an access waits, only a fill changes it. -/
theorem storedNext_waiting {x : Access} (hw : s.waiting i = some x) (w : PWord) (b : ℕ) :
    storedNext s i g w b = if s.filled i w then none else g w b := by
  rw [storedNext, Win.done, Rel.ready_of_waiting hw, if_neg Bool.false_ne_true]
  rfl

theorem storedNext_eq {x : Access} (hw : s.waiting i = some x) (hfill : s.dc.state ≠ .fill) :
    storedNext s i g = g := by
  funext w b
  rw [storedNext_waiting hw, if_neg fun hc ↦ hfill hc.1]

theorem masks_idle (hd : s.dc.Calm) (hr : Rel s held .idle c) (hda : s.dc.Ahead)
    (h : c.Masks g) : (c.tick s i .idle).Masks (storedNext s i g) := by
  have hfill : ∀ w, ¬ s.filled i w := by
    rintro w ⟨hs, -⟩
    exact absurd (hd.state.symm.trans hs) (by simp)
  have hnone : (∀ w b, (s.done i).bind (Access.byteTo w b) = none) → storedNext s i g = g := by
    intro hno
    funext w b
    rw [storedNext, if_neg (hfill w), hno, Option.none_or]
  rw [Wb.tick]
  cases hdone : s.done i with
  | none =>
    rw [hnone (by simp [hdone])]
    exact h
  | some x =>
    cases x with
    | fetch a =>
      rw [hnone (by simp [hdone, Access.byteTo])]
      exact h
    | load a =>
      rw [hnone (by simp [hdone, Access.byteTo])]
      exact h
    | store a data be =>
      have hx : s.ready i = true ∧ i.access = some (.store a data be) := by
        unfold Win.done at hdone
        split at hdone
        · next hready => exact ⟨hready, hdone⟩
        · exact absurd hdone (by simp)
      have hh := (hr.holds_of_ready hda hx.2 rfl hx.1).1
      have hg : storedNext s i g =
          fun w b ↦ ((Access.store a data be).byteTo w b).or (g w b) := by
        funext w b
        rw [storedNext, if_neg (hfill w), hdone]
        rfl
      rw [hg]
      exact h.merge hh data be

theorem masks_tick (hr : Rel s held p c) (hinv : s.Inv held p) (hf : s.Follows held i)
    (h : c.Masks g) : (c.tick s i p).Masks (storedNext s i g) := by
  obtain ⟨hisw, hdsw, hia, hda, hat⟩ := hinv
  cases hat with
  | idle hi hd hb => exact masks_idle hd hr hda h
  | ifillReq h' hc hb =>
    rw [storedNext_eq (h'.waiting hf) (by simp [h'.dc.state])]
    exact h
  | ifill h' hk hc hb hp =>
    rw [storedNext_eq (h'.waiting hf) (by simp [h'.dc.state]), Wb.tick]
    split
    · exact h
    · exact h
  | wbPrime h' hc hp hb =>
    obtain ⟨x, hx⟩ := h'.exists_held
    rw [storedNext_eq ((h'.waiting hf hia).trans hx) (by simp [h'.state])]
    exact h
  | wbReq h' hc hp hq hb =>
    obtain ⟨x, hx⟩ := h'.exists_held
    rw [storedNext_eq ((h'.waiting hf hia).trans hx) (by simp [h'.state])]
    exact h
  | wb h' hpos hk hc hp hq hb hw =>
    obtain ⟨x, hx⟩ := h'.exists_held
    rw [storedNext_eq ((h'.waiting hf hia).trans hx) (by simp [h'.state]), Wb.tick]
    have ht := h'.tag
    rw [hr.tags] at ht
    split
    · split
      · refine h.congr rfl (Wb.holds_clean (c := c.writeBack _ _) ?_)
        have ht' :
            (c.writeBack s.dc.tagR s.dc.lineR).tags s.dc.lineR = ⟨true, true, s.dc.tagR⟩ := ht
        rw [ht']
        exact ⟨rfl, rfl⟩
      · exact h
    · exact h
  | dfillReq h' hc hb =>
    obtain ⟨x, a, hx, -⟩ := h'.held
    have hdone : s.dc.done (s.dcIn i) = false := by
      rw [done_eq, hb.busy, Bool.false_and, Bool.false_and, Bool.and_false]
    have hg : storedNext s i g = g := by
      funext w b
      rw [storedNext_waiting ((h'.waiting hf).trans hx), if_neg]
      rintro ⟨-, hl, -⟩
      exact absurd (hl.symm.trans (Dcache.last_of_done hdone)) (by simp)
    rw [hg]
    exact h
  | @dfill k h' hk hc hb hp =>
    obtain ⟨x, a, hx, -⟩ := h'.held
    have hrsp : s.ps.rspValid i.ctl = i.ctl.rsp := by simp [Psram.rspValid, hp]
    have hdone : s.dc.done (s.dcIn i) = i.ctl.rsp := by
      simp [done_eq, Dcache.memSel, h'.state, hb, hrsp]
    have hlast : s.dc.last (s.dcIn i) = (i.ctl.rsp && k = 7) := by
      rw [Dcache.last, hdone, hc, decide_eq_decide.mpr (ofNat_eq_seven hk)]
    have hg : storedNext s i g = fun w b ↦ if s.filled i w then none else g w b := by
      funext w b
      exact storedNext_waiting ((h'.waiting hf).trans hx) w b
    rw [hg, Wb.tick, ← hlast]
    cases hl : s.dc.last (s.dcIn i) with
    | true =>
      rw [if_pos rfl]
      simp only [filled, h'.state, hl, true_and]
      exact h.fill
    | false =>
      rw [if_neg Bool.false_ne_true]
      simp only [filled, hl, Bool.false_eq_true, false_and, and_false, if_false]
      exact h

/-- A beat carries a word of the line that is written back, with its mask. -/
theorem beat_of (hr : Rel s held p c) (hinv : s.Inv held p) (hf : s.Follows held i) {w : PWord}
    {data : Word} {be : BitVec 4} (hb : s.beatOf i = some (w, data, be)) :
    c.Holds w ∧ (c.words (Dcache.idx w)).data = data ∧ (c.words (Dcache.idx w)).mask = be := by
  have hat := hinv.at'
  have htk := hat.taken hf
  rw [beatOf] at hb
  -- The line that is written back is held, and its words are read as the beats need them.
  have hword : ∀ {k : ℕ}, k < 8 → s.WritingBack held → s.dc.words = c.words →
      s.dc.wordQ = s.dc.words (s.dc.lineR ++ BitVec.ofNat 3 k) →
      w = s.dc.tagR ++ s.dc.lineR ++ BitVec.ofNat 3 k → data = s.dc.wordQ.data →
      be = s.dc.wordQ.mask →
      c.Holds w ∧ (c.words (Dcache.idx w)).data = data ∧ (c.words (Dcache.idx w)).mask = be := by
    rintro k hk h hwords hq hw rfl rfl
    have ht := h.tag
    rw [hr.tags] at ht
    obtain ⟨htag, hline, hwd⟩ := (Dcache.eq_append_iff w _ _ _).mp hw
    have hidx : Dcache.idx w = s.dc.lineR ++ BitVec.ofNat 3 k := by
      rw [Dcache.idx_eq, hline, hwd]
    refine ⟨?_, by rw [hidx, hq, hwords], by rw [hidx, hq, hwords]⟩
    rw [Wb.Holds, hline, htag, ht]
    exact ⟨rfl, rfl⟩
  cases hat with
  | wbReq h hc hp hq hbus =>
    have hburst : s.ps.burst = .idle := hbus.burst
    rw [h.req hf, hp, hburst] at hb
    simp only [if_true, Bool.and_true] at hb
    split at hb
    · obtain ⟨rfl, rfl, rfl⟩ :
        s.dc.memAddr = w ∧ s.dc.wordQ.data = data ∧ s.dc.wordQ.mask = be := by
        simpa using hb
      exact hword (k := 0) (by decide) h hr.words hq rfl rfl rfl
    · exact absurd hb (by simp)
  | @wb k take h hpos hk hc hp hq hbus hw =>
    rw [htk, hw, h.req hf, hp] at hb
    simp only [Phase.raised, Bool.false_and, Bool.false_eq_true, if_false] at hb
    cases take with
    | false => exact absurd hb (by simp)
    | true =>
      rw [Bool.toNat_true] at hk hc
      obtain ⟨rfl, rfl, rfl⟩ : Psram.beat s.dc.memAddr k = w ∧ s.dc.wordQ.data = data ∧
          s.dc.wordQ.mask = be := by
        simpa using hb
      have hcnt : s.dc.cnt = BitVec.ofNat 3 k := by rw [hc, show k - 1 + 1 = k by omega]
      refine hword (k := k) (by omega) h hr.words (by rw [hq, hcnt]) ?_ rfl rfl
      exact Dcache.beat_append _ _ (by omega)
  | idle hi hd hbus => simp [htk, Phase.raised, hbus.burst] at hb
  | ifillReq h hc hbus => simp [h.req hf, hbus.burst] at hb
  | ifill h hk hc hbus hp => simp [htk, Phase.raised, hp] at hb
  | wbPrime h hc hp hbus => simp [htk, Phase.raised, hbus.burst] at hb
  | dfillReq h hc hbus => simp [h.req hf, hbus.burst] at hb
  | dfill h hk hc hbus hp => simp [htk, Phase.raised, hp] at hb

/-- The memory changes by the beats only. -/
theorem tick_mem : (s.tick i).ps.mem =
    match s.beatOf i with
    | some (w, data, be) => Psram.write s.ps.mem w data be
    | none => s.ps.mem := by
  cases hb : s.ps.burst with
  | idle =>
    have htk : s.taken i = ((s.req i).valid && i.ctl.ready) := by
      simp [taken, Psram.reqReady, hb]
    simp only [Win.tick, Psram.tick, beatOf, hb, htk]
    cases (s.req i).valid && i.ctl.ready with
    | false => rfl
    | true => cases (s.req i).we <;> rfl
  | read a n k =>
    have htk : s.taken i = false := by simp [taken, Psram.reqReady, hb]
    simp only [Win.tick, Psram.tick, beatOf, hb, htk]
    split <;> rfl
  | write a n k take =>
    have htk : s.taken i = false := by simp [taken, Psram.reqReady, hb]
    simp only [Win.tick, Psram.tick, beatOf, hb, htk]
    cases take <;> rfl

/-! ## Runs -/

variable {inp : ℕ → WinIn}

theorem Cleared.masks_run (h : s.Cleared) (hd : Driven inp s) (n : ℕ) :
    ∃ c, Rel (run inp s n) (Win.held inp s n) (phaseAt inp s n) c ∧
      c.Masks fun w b ↦ storedSince inp s w b n := by
  induction n with
  | zero =>
    refine ⟨_, h.runs.rel, fun w hw ↦ absurd hw.1 ?_⟩
    have ht : s.contents.tags (Dcache.line w) = .zero := h.tags _
    rw [ht]
    exact Bool.false_ne_true
  | succ n ih =>
    obtain ⟨c, hr, hm⟩ := ih
    have hinv := h.inv_run hd n
    exact ⟨_, hr.tick hinv (hd n), masks_tick hr hinv (hd n) hm⟩

/-- Every beat of a run carries what was stored since its line's fill. -/
theorem Cleared.beat_stored (h : s.Cleared) (hd : Driven inp s) {n : ℕ} {w : PWord} {data : Word}
    {be : BitVec 4} (hb : (run inp s n).beatOf (inp n) = some (w, data, be)) {b : ℕ} (hlt : b < 4) :
    be.getLsbD b = (storedSince inp s w b n).isSome ∧
      ∀ v ∈ storedSince inp s w b n, byteAt data b = v := by
  obtain ⟨c, hr, hm⟩ := h.masks_run hd n
  obtain ⟨hh, rfl, rfl⟩ := beat_of hr (h.inv_run hd n) (hd n) hb
  exact hm w hh b hlt

/-- **Write-backs write exactly the stored bytes**: a beat has the strobe of a byte set if and only
if the CPU completed a store to the byte since the fill that brought its line in, with the byte
stored last; and no other byte of the PSRAM ever changes. -/
theorem write_backs_exact (s : Win) (por inp : ℕ → WinIn) (m : ℕ) (hs : s.IsReset) (hm : 512 ≤ m)
    (hp : ∀ k < m, Por (por k)) (hd : Driven inp (run por s m)) (n : ℕ) (w : PWord) (b : ℕ)
    (hlt : b < 4) :
    (∀ data be, (run inp (run por s m) n).beatOf (inp n) = some (w, data, be) →
      (be.getLsbD b = true ↔ ∃ v, storedSince inp (run por s m) w b n = some v) ∧
      ∀ v, storedSince inp (run por s m) w b n = some v → byteAt data b = v) ∧
    (storedSince inp (run por s m) w b n = none →
      byteAt ((run inp (run por s m) (n + 1)).ps.mem w) b =
        byteAt ((run inp (run por s m) n).ps.mem w) b) := by
  have hc := (hs.cleared hm hp).1
  refine ⟨fun data be hb ↦ ?_, fun hno ↦ ?_⟩
  · obtain ⟨hbit, hv⟩ := hc.beat_stored hd hb hlt
    rw [hbit, Option.isSome_iff_exists]
    exact ⟨Iff.rfl, hv⟩
  · rw [run, tick_mem]
    cases hb : (run inp (run por s m) n).beatOf (inp n) with
    | none => rfl
    | some x =>
      obtain ⟨w', data, be⟩ := x
      by_cases hw : w' = w
      · subst hw
        have hbit := (hc.beat_stored hd hb hlt).1
        rw [hno, Option.isSome_none] at hbit
        simp only [Psram.write, Function.update_self]
        rw [byteAt_strobed _ _ _ hlt, hbit, if_neg Bool.false_ne_true]
      · simp only [Psram.write, Function.update_of_ne (Ne.symm hw)]

/-- A byte stored at 0x80000000, then a load that evicts its line. -/
def evictScript : ℕ → WinIn
  | 0 => dataAccess 0x80000000#32 true 0xAB#32 0b0001#4
  | _ + 1 => dataAccess 0x80000800#32 false 0#32 0#4

theorem driven_evictScript : Driven (drive evictScript bootedWin) bootedWin := by
  refine driven_dataAccess (fun k ↦ ?_) (rdIdxQ_powerOn _ _)
  cases k with
  | zero => exact ⟨_, _, _, _, rfl, by decide⟩
  | succ k => exact ⟨_, _, _, _, rfl, by decide⟩

/-- The write-back's first beat has that byte only. -/
theorem write_backs_exact_evict :
    (run (drive evictScript bootedWin) bootedWin 15).beatOf (drive evictScript bootedWin 15) =
        some (0#21, 0xAB#32, 0b0001#4) ∧
      (∃ v, storedSince (drive evictScript bootedWin) bootedWin 0#21 0 15 = some v) ∧
      ¬ ∃ v, storedSince (drive evictScript bootedWin) bootedWin 0#21 1 15 = some v := by
  have hb : (run (drive evictScript bootedWin) bootedWin 15).beatOf
      (drive evictScript bootedWin 15) = some (0#21, 0xAB#32, 0b0001#4) := by decide +kernel
  have h := fun b hlt ↦ (write_backs_exact (powerOn fun _ ↦ 0#32) (fun _ ↦ porIn)
    (drive evictScript bootedWin) 512 (isReset_powerOn _) le_rfl (fun _ _ ↦ por_porIn)
    driven_evictScript 15 0#21 b hlt).1 _ _ hb
  exact ⟨hb, (h 0 (by decide)).1.mp (by decide), mt (h 1 (by decide)).1.mpr (by decide)⟩

end Win

end Vux9k.Rtl

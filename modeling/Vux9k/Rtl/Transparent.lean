import Vux9k.Rtl.WindowRun

/-!
# The window is transparent

Behind its caches the window is one memory: a load or a fetch that completes returns, byte for byte,
what the latest completed store wrote there, or what the PSRAM held to begin with.  At the level of
the write-back cache, `Coherent` ties both caches and the memory behind them to that one memory;
every access keeps it, and the RTL follows by `Cleared.runs_run`.
-/

set_option autoImplicit false

namespace Vux9k.Rtl

/-! ## One memory -/

/-- What an access does to the memory. -/
def Access.apply (mem : PWord → Word) : Access → PWord → Word
  | .store w data be => Psram.write mem w data be
  | _ => mem

/-- The memory after some accesses. -/
def stored (mem : PWord → Word) (xs : List Access) : PWord → Word := xs.foldl Access.apply mem

/-- The byte `b` of a word. -/
def byteAt (w : Word) (b : ℕ) : Byte := w.extractLsb' (8 * b) 8

/-- What an access stores into the byte `b` of `w`. -/
def Access.byteTo (w : PWord) (b : ℕ) : Access → Option Byte
  | .store w' data be => if w' = w ∧ be.getLsbD b then some (byteAt data b) else none
  | _ => none

/-- What the latest of the accesses that stored into the byte `b` of `w` stored there. -/
def lastStored (w : PWord) (b : ℕ) (xs : List Access) : Option Byte :=
  xs.reverse.findSome? (Access.byteTo w b)

theorem byteAt_strobed (old new : Word) (be : BitVec 4) {b : ℕ} (hb : b < 4) :
    byteAt (strobed old new be) b = if be.getLsbD b then byteAt new b else byteAt old b := by
  have hbit : ∀ j < 8, (8 * b + j) / 8 = b := by omega
  cases hbe : be.getLsbD b <;>
  · refine BitVec.eq_of_getLsbD_eq fun j hj ↦ ?_
    simp [byteAt, hj, getLsbD_strobed (show 8 * b + j < 32 by omega), hbit j hj, hbe]

theorem stored_concat (mem : PWord → Word) (xs : List Access) (x : Access) :
    stored mem (xs ++ [x]) = x.apply (stored mem xs) := List.foldl_concat ..

theorem lastStored_concat (w : PWord) (b : ℕ) (xs : List Access) (x : Access) :
    lastStored w b (xs ++ [x]) = (x.byteTo w b).or (lastStored w b xs) := by
  rw [lastStored, List.reverse_concat, List.findSome?_cons]
  cases x.byteTo w b <;> rfl

/-- A byte of the memory is the one stored last, or the one it began with. -/
theorem byteAt_stored (mem : PWord → Word) (xs : List Access) (w : PWord) {b : ℕ} (hb : b < 4) :
    byteAt (stored mem xs w) b = (lastStored w b xs).getD (byteAt (mem w) b) := by
  induction xs using List.reverseRecOn with
  | nil => rfl
  | append_singleton xs x ih =>
    rw [stored_concat, lastStored_concat]
    cases x with
    | fetch a => exact ih
    | load a => exact ih
    | store a data be =>
      simp only [Access.apply, Psram.write, Access.byteTo]
      by_cases ha : a = w
      · subst ha
        rw [Function.update_self, byteAt_strobed _ _ _ hb]
        cases be.getLsbD b with
        | true => simp
        | false => simpa using ih
      · rw [Function.update_of_ne (Ne.symm ha), if_neg (fun h ↦ ha h.1)]
        exact ih

/-! ## The write-back cache in front of it -/

namespace Wb

/-- Both caches and the memory behind them are the memory `mem`. -/
structure Coherent (c : Wb) (mem : PWord → Word) : Prop where
  data : ∀ w, c.Holds w → (c.words (Dcache.idx w)).data = mem w
  mask : ∀ w, c.Holds w → AgreeOff (c.words (Dcache.idx w)).mask (c.psram w) (mem w)
  clean : ∀ w, c.Holds w → c.dirty (Dcache.line w) = false → c.psram w = mem w
  behind : ∀ w, ¬ c.Holds w → c.psram w = mem w
  fetched : ∀ w, c.IHolds w → c.iwords (Icache.idx w) = mem w

variable {c : Wb} {mem : PWord → Word}

/-! ### The words that a step leaves in the data cache -/

section

variable {w a : PWord} {t : BitVec 12} {l : BitVec 6}

theorem idx_injective (ht : Dcache.tag w = Dcache.tag a)
    (hi : Dcache.idx w = Dcache.idx a) : w = a := by
  rw [Dcache.idx_eq a, Dcache.idx_eq_iff] at hi
  exact (Dcache.eq_append_iff w _ _ _).mpr ⟨ht, hi.1, hi.2⟩ |>.trans (Dcache.eq_append a).symm

theorem idx_ne_of_holds (ha : c.Holds a) (hw : c.Holds w) (hwa : w ≠ a) :
    Dcache.idx w ≠ Dcache.idx a := by
  intro hi
  have hl : Dcache.line w = Dcache.line a := by rw [← Dcache.line_idx, hi, Dcache.line_idx]
  refine hwa (idx_injective ?_ hi)
  rw [← hw.2, hl, ha.2]

theorem holds_merge (ha : c.Holds a) (data : Word) (be : BitVec 4) (w : PWord) :
    (c.merge a data be).Holds w ↔ c.Holds w := by
  by_cases hl : Dcache.line w = Dcache.line a
  · simp [Holds, Wb.merge, hl, ha.1, ha.2]
  · simp only [Holds, Wb.merge, Function.update_of_ne hl]

theorem holds_fill (hl : Dcache.line w ≠ l) : (c.fill t l).Holds w ↔ c.Holds w := by
  simp only [Holds, Wb.fill, Function.update_of_ne hl]

theorem tag_of_holds_fill (hl : Dcache.line w = l) (hw : (c.fill t l).Holds w) :
    t = Dcache.tag w := by
  subst hl
  simpa [Holds, Wb.fill] using hw

theorem holds_clean (ht : (c.tags l).valid = true ∧ (c.tags l).tag = t) (w : PWord) :
    (c.clean t l).Holds w ↔ c.Holds w := by
  by_cases hl : Dcache.line w = l
  · subst hl
    simp [Holds, Wb.clean, ht]
  · simp only [Holds, Wb.clean, Function.update_of_ne hl]

end

/-- A cleared cache shows the memory behind it. -/
theorem coherent_of_empty (ht : ∀ l, c.tags l = .zero) (hi : ∀ l, c.itags l = .zero) :
    c.Coherent c.psram := by
  have hn : ∀ w, ¬ c.Holds w := by
    intro w h
    simp [Holds, ht, DTag.zero] at h
  exact ⟨fun w h ↦ absurd h (hn w), fun w h ↦ absurd h (hn w), fun w h ↦ absurd h (hn w),
    fun _ _ ↦ rfl, fun w h ↦ by simp [IHolds, hi, ITag.zero] at h⟩

/-- A line that is written back is in the memory. -/
theorem Coherent.psram_writeBack {t : BitVec 12} {l : BitVec 6} (h : c.Coherent mem)
    (ht : (c.tags l).valid = true ∧ (c.tags l).tag = t) (w : PWord) (hl : Dcache.line w = l) :
    (c.writeBack t l).psram w = mem w := by
  rw [writeBack_psram]
  by_cases hw : Dcache.tag w = t
  · have hh : c.Holds w := by
      rw [Holds, hl, hw]
      exact ht
    rw [if_pos ⟨hw, hl⟩, h.data w hh, (h.mask w hh).strobed_eq]
  · rw [if_neg (fun hc ↦ hw hc.1)]
    refine h.behind w fun hh ↦ hw ?_
    rw [Holds, hl, ht.2] at hh
    exact hh.2.symm

theorem Coherent.writeBack {t : BitVec 12} {l : BitVec 6} (h : c.Coherent mem)
    (ht : (c.tags l).valid = true ∧ (c.tags l).tag = t) : (c.writeBack t l).Coherent mem := by
  have hp : ∀ w, c.psram w = mem w → (c.writeBack t l).psram w = mem w := by
    intro w hw
    by_cases hl : Dcache.line w = l
    · exact h.psram_writeBack ht w hl
    · rw [writeBack_psram, if_neg (fun hc ↦ hl hc.2), hw]
  refine ⟨h.data, fun w hw ↦ ?_, fun w hw hd ↦ hp w (h.clean w hw hd),
    fun w hw ↦ hp w (h.behind w hw), h.fetched⟩
  by_cases hl : Dcache.line w = l
  · rw [h.psram_writeBack ht w hl]
    exact .refl _ _
  · rw [writeBack_psram, if_neg (fun hc ↦ hl hc.2)]
    exact h.mask w hw

/-- What an eviction leaves. -/
theorem Coherent.evict (h : c.Coherent mem) (l : BitVec 6) :
    (c.evict l).Coherent mem ∧ ∀ w, Dcache.line w = l → (c.evict l).psram w = mem w := by
  unfold Wb.evict
  cases hd : c.dirty l with
  | true =>
    have hv : (c.tags l).valid = true := by
      rw [dirty, Bool.and_eq_true] at hd
      exact hd.1
    rw [if_pos rfl]
    exact ⟨h.writeBack ⟨hv, rfl⟩, fun w hl ↦ h.psram_writeBack ⟨hv, rfl⟩ w hl⟩
  | false =>
    rw [if_neg Bool.false_ne_true]
    refine ⟨h, fun w hl ↦ ?_⟩
    by_cases hw : c.Holds w
    · exact h.clean w hw (by rwa [hl])
    · exact h.behind w hw

theorem Coherent.fill {t : BitVec 12} {l : BitVec 6} (h : c.Coherent mem)
    (hp : ∀ w, Dcache.line w = l → c.psram w = mem w) : (c.fill t l).Coherent mem := by
  have hother := fun w hl ↦ holds_fill (c := c) (t := t) (w := w) (l := l) hl
  have hline : ∀ w, Dcache.line w = l → (c.fill t l).Holds w →
      (c.fill t l).words (Dcache.idx w) = ⟨0b0000#4, mem w⟩ := by
    intro w hl hw
    rw [fill_words, if_pos hl, tag_of_holds_fill hl hw, ← hl, ← Dcache.eq_append w, hp w hl]
  refine ⟨fun w hw ↦ ?_, fun w hw ↦ ?_, fun w hw hd ↦ ?_, fun w hw ↦ ?_, h.fetched⟩
  · by_cases hl : Dcache.line w = l
    · rw [hline w hl hw]
    · rw [fill_words, if_neg hl]
      exact h.data w ((hother w hl).mp hw)
  · by_cases hl : Dcache.line w = l
    · rw [show (c.fill t l).psram w = mem w from hp w hl]
      exact .refl _ _
    · rw [fill_words, if_neg hl]
      exact h.mask w ((hother w hl).mp hw)
  · by_cases hl : Dcache.line w = l
    · exact hp w hl
    · refine h.clean w ((hother w hl).mp hw) ?_
      simpa only [dirty, Wb.fill, Function.update_of_ne hl] using hd
  · by_cases hl : Dcache.line w = l
    · exact hp w hl
    · exact h.behind w (mt (hother w hl).mpr hw)

theorem Coherent.clean' {t : BitVec 12} {l : BitVec 6} (h : c.Coherent mem)
    (ht : (c.tags l).valid = true ∧ (c.tags l).tag = t)
    (hp : ∀ w, Dcache.line w = l → c.psram w = mem w) : (c.clean t l).Coherent mem := by
  have hholds := holds_clean ht
  refine ⟨fun w hw ↦ h.data w ((hholds w).mp hw), fun w hw ↦ h.mask w ((hholds w).mp hw),
    fun w hw hd ↦ ?_, fun w hw ↦ h.behind w (mt (hholds w).mpr hw), h.fetched⟩
  by_cases hl : Dcache.line w = l
  · exact hp w hl
  · refine h.clean w ((hholds w).mp hw) ?_
    simpa only [dirty, Wb.clean, Function.update_of_ne hl] using hd

/-- The words of an instruction line are in one data line. -/
theorem dline_of_iline {w a : PWord} (ht : Icache.tag w = Icache.tag a)
    (hl : Icache.line w = Icache.line a) :
    Dcache.tag w = Dcache.tag a ∧ Dcache.line w = Dcache.line a := by
  have hbit : ∀ j, 3 ≤ j → j < 21 → w.getLsbD j = a.getLsbD j := by
    intro j h3 h21
    by_cases hj : j < 12
    · have := congrArg (fun x ↦ x.getLsbD (j - 3)) hl
      simpa [Icache.line, show j - 3 < 9 by omega, show 3 + (j - 3) = j by omega] using this
    · have := congrArg (fun x ↦ x.getLsbD (j - 12)) ht
      simpa [Icache.tag, show j - 12 < 9 by omega, show 12 + (j - 12) = j by omega] using this
  constructor
  · refine BitVec.eq_of_getLsbD_eq fun j hj ↦ ?_
    simp [Dcache.tag, hj, hbit (9 + j) (by omega) (by omega)]
  · refine BitVec.eq_of_getLsbD_eq fun j hj ↦ ?_
    simp [Dcache.line, hj, hbit (3 + j) (by omega) (by omega)]

/-- What a probe leaves. -/
theorem Coherent.probe (h : c.Coherent mem) (a : PWord) : (c.probe a).Coherent mem ∧
    ∀ w, Dcache.tag w = Dcache.tag a → Dcache.line w = Dcache.line a →
      (c.probe a).psram w = mem w := by
  unfold Wb.probe
  split
  · next ht =>
    have hv : (c.tags (Dcache.line a)).valid = true ∧
        (c.tags (Dcache.line a)).tag = Dcache.tag a := by
      simp [ht]
    exact ⟨(h.writeBack hv).clean' hv (h.psram_writeBack hv), fun w _ hl ↦
      h.psram_writeBack hv w hl⟩
  · next ht =>
    refine ⟨h, fun w hw hl ↦ ?_⟩
    by_cases hh : c.Holds w
    · refine h.clean w hh (Bool.eq_false_of_not_eq_true fun hd ↦ ht ?_)
      rw [dirty, Bool.and_eq_true, hl] at hd
      rw [Holds, hl, hw] at hh
      exact DTag.eq_mk hh.1 hd.2 hh.2
    · exact h.behind w hh

theorem Coherent.ifill {a : PWord} (h : c.Coherent mem)
    (hp : ∀ w, Dcache.tag w = Dcache.tag a → Dcache.line w = Dcache.line a → c.psram w = mem w) :
    (c.ifill (Icache.tag a) (Icache.line a)).Coherent mem := by
  refine ⟨h.data, h.mask, h.clean, h.behind, fun w hw ↦ ?_⟩
  rw [ifill_iwords]
  by_cases hl : Icache.line w = Icache.line a
  · have ht : Icache.tag w = Icache.tag a := by
      have hw' : (⟨true, Icache.tag a⟩ : ITag) = ⟨true, Icache.tag w⟩ := by
        simpa [IHolds, Wb.ifill, hl] using hw
      injection hw' with _ ht
      exact ht.symm
    obtain ⟨hdt, hdl⟩ := dline_of_iline ht hl
    rw [if_pos hl, ← ht, ← hl, ← Icache.eq_append w]
    exact hp w hdt hdl
  · rw [if_neg hl]
    refine h.fetched w ?_
    simpa only [IHolds, Wb.ifill, Function.update_of_ne hl] using hw

theorem Coherent.merge {a : PWord} (h : c.Coherent mem) (ha : c.Holds a) (data : Word)
    (be : BitVec 4) : (c.merge a data be).Coherent (Psram.write mem a data be) := by
  have hholds := holds_merge ha data be
  have hne := fun w hw hwa ↦ idx_ne_of_holds (w := w) ha hw hwa
  refine ⟨fun w hw ↦ ?_, fun w hw ↦ ?_, fun w hw hd ↦ ?_, fun w hw ↦ ?_, fun w hw ↦ ?_⟩
  · have hw' := (hholds w).mp hw
    by_cases hwa : w = a
    · subst hwa
      simp only [Wb.merge, Psram.write, Function.update_self, h.data w hw']
    · simp only [Wb.merge, Psram.write, Function.update_of_ne (hne w hw' hwa),
        Function.update_of_ne hwa, h.data w hw']
  · have hw' := (hholds w).mp hw
    by_cases hwa : w = a
    · subst hwa
      have hm := (h.mask w hw').store data be
      simpa only [Wb.merge, Psram.write, Function.update_self, h.data w hw'] using hm
    · simpa only [Wb.merge, Psram.write, Function.update_of_ne (hne w hw' hwa),
        Function.update_of_ne hwa] using h.mask w hw'
  · have hl : Dcache.line w ≠ Dcache.line a := by
      intro hl
      simp [dirty, Wb.merge, hl] at hd
    have hwa : w ≠ a := fun he ↦ hl (by rw [he])
    rw [Psram.write, Function.update_of_ne hwa]
    refine h.clean w ((hholds w).mp hw) ?_
    simpa only [dirty, Wb.merge, Function.update_of_ne hl] using hd
  · have hw' := mt (hholds w).mpr hw
    have hwa : w ≠ a := fun he ↦ hw' (he ▸ ha)
    rw [Psram.write, Function.update_of_ne hwa]
    exact h.behind w hw'
  · have hl : Icache.line w ≠ Icache.line a := by
      intro hl
      simp [IHolds, Wb.merge, hl, ITag.zero] at hw
    have hwa : w ≠ a := fun he ↦ hl (by rw [he])
    rw [Psram.write, Function.update_of_ne hwa]
    refine h.fetched w ?_
    simpa only [IHolds, Wb.merge, Function.update_of_ne hl] using hw

theorem Coherent.allocate (h : c.Coherent mem) (a : PWord) :
    (c.allocate a).Coherent mem ∧ (c.allocate a).Holds a := by
  by_cases hh : c.Holds a
  · rw [allocate_of_holds hh]
    exact ⟨h, hh⟩
  · rw [Wb.allocate, if_neg hh]
    obtain ⟨he, hp⟩ := h.evict (Dcache.line a)
    exact ⟨he.fill hp, by simp [Holds, Wb.fill]⟩

/-- **Every access keeps the caches and the memory behind them one memory.** -/
theorem Coherent.access (h : c.Coherent mem) (x : Access) :
    (c.access x).Coherent (x.apply mem) := by
  cases x with
  | fetch a =>
    rw [Wb.access]
    split
    · exact h
    · obtain ⟨hc, hp⟩ := h.probe a
      exact hc.ifill hp
  | load a => exact (h.allocate a).1
  | store a data be => exact (h.allocate a).1.merge (h.allocate a).2 data be

theorem Coherent.accesses (h : c.Coherent mem) (xs : List Access) :
    (c.accesses xs).Coherent (stored mem xs) := by
  induction xs generalizing c mem with
  | nil => exact h
  | cons x xs ih => exact ih (h.access x)

end Wb

/-! ## The RTL -/

namespace Win

variable {s : Win} {inp : ℕ → WinIn}

/-- What a completed access finds in the registers of the caches. -/
theorem Cleared.found (h : s.Cleared) (hd : Driven inp s) (n : ℕ) (w : PWord) :
    ((run inp s n).done (inp n) = some (.load w) →
        (run inp s n).dc.wordQ.data = stored s.ps.mem (log inp s n) w) ∧
      ((run inp s n).done (inp n) = some (.fetch w) →
        (run inp s n).ic.wordQ = stored s.ps.mem (log inp s n) w) := by
  obtain ⟨p, c, hr⟩ := h.runs_run hd n
  have hcoh : (s.contents.accesses (log inp s n)).Coherent (stored s.ps.mem (log inp s n)) :=
    Wb.Coherent.accesses (Wb.coherent_of_empty h.tags h.itags) _
  have hdone : ∀ x, (run inp s n).done (inp n) = some x →
      (run inp s n).ready (inp n) = true ∧ (inp n).access = some x := by
    intro x hx
    unfold Win.done at hx
    split at hx
    · next hready => exact ⟨hready, hx⟩
    · exact absurd hx nofun
  have hcx : ∀ x, (run inp s n).done (inp n) = some x →
      p = .idle ∧ c.access x = (s.contents.accesses (log inp s n)).access x := by
    intro x hx
    obtain ⟨hready, hacc⟩ := hdone x hx
    have ht := hr.rel.access_tick hr.inv (hd n) hacc
    rw [hready, if_pos rfl] at ht
    refine ⟨ht.1, ?_⟩
    cases hh : held inp s n with
    | none => rw [(hr.idle hh).1]
    | some y =>
      obtain rfl : y = x := Option.some.inj (((hd n).held y hh).symm.trans hacc)
      exact hr.busy _ hh
  constructor
  · intro hx
    obtain ⟨hready, hacc⟩ := hdone _ hx
    obtain ⟨rfl, hc⟩ := hcx _ hx
    obtain ⟨hh, hword⟩ := hr.rel.holds_of_ready hr.inv.dcAhead hacc rfl hready
    have hcoh' := hcoh.access (.load w)
    rw [← hc, Wb.access, Wb.allocate_of_holds hh] at hcoh'
    rw [hword]
    exact hcoh'.data w hh
  · intro hx
    obtain ⟨hready, hacc⟩ := hdone _ hx
    obtain ⟨rfl, hc⟩ := hcx _ hx
    obtain ⟨hh, hword⟩ := hr.rel.iholds_of_ready hr.inv.icAhead (hd n) hacc hready
    have hcoh' := hcoh.access (.fetch w)
    rw [← hc, Wb.access_fetch hh] at hcoh'
    rw [hword]
    exact hcoh'.fetched w hh

/-- **The window is transparent**: from the power-on reset on, in every run that keeps to the CPU's
handshake, a load that completes returns byte for byte what the latest completed store wrote there,
or else the PSRAM's original byte, and a fetch that completes returns the word of the same memory.
-/
theorem window_transparent (s : Win) (por inp : ℕ → WinIn) (m : ℕ) (hs : s.IsReset) (hm : 512 ≤ m)
    (hp : ∀ k < m, Por (por k)) (hd : Driven inp (run por s m)) (n : ℕ) (w : PWord) (b : ℕ)
    (hb : b < 4) :
    ((run inp (run por s m) n).done (inp n) = some (.load w) →
      byteAt (run inp (run por s m) n).dc.wordQ.data b =
        (lastStored w b (log inp (run por s m) n)).getD (byteAt (s.ps.mem w) b)) ∧
    ((run inp (run por s m) n).done (inp n) = some (.fetch w) →
      byteAt (run inp (run por s m) n).ic.wordQ b =
        (lastStored w b (log inp (run por s m) n)).getD (byteAt (s.ps.mem w) b)) := by
  obtain ⟨hc, hmem⟩ := hs.cleared hm hp
  obtain ⟨hload, hfetch⟩ := hc.found hd n w
  constructor
  · intro h
    rw [hload h, byteAt_stored _ _ _ hb, hmem]
  · intro h
    rw [hfetch h, byteAt_stored _ _ _ hb, hmem]

/-- A byte stored at 0x80000000, then loads at its alias 0x80800000. -/
def aliasScript : ℕ → WinIn
  | 0 => dataAccess 0x80000000#32 true 0xAB#32 0b0001#4
  | _ + 1 => dataAccess 0x80800000#32 false 0#32 0#4

/-- The window that they meet. -/
def bootedWin : Win := run (fun _ ↦ porIn) (powerOn fun _ ↦ 0#32) 512

theorem driven_aliasScript : Driven (drive aliasScript bootedWin) bootedWin := by
  refine driven_dataAccess (fun k ↦ ?_) (rdIdxQ_powerOn _ _)
  cases k with
  | zero => exact ⟨_, _, _, _, rfl, by decide⟩
  | succ k => exact ⟨_, _, _, _, rfl, by decide⟩

theorem window_transparent_alias :
    (run (drive aliasScript bootedWin) bootedWin 13).done (drive aliasScript bootedWin 13) =
        some (.load 0#21) ∧
      byteAt (run (drive aliasScript bootedWin) bootedWin 13).dc.wordQ.data 0 = 0xAB#8 := by
  have hdone : (run (drive aliasScript bootedWin) bootedWin 13).done
      (drive aliasScript bootedWin 13) = some (.load 0#21) := by decide +kernel
  refine ⟨hdone, ?_⟩
  have h := (window_transparent (powerOn fun _ ↦ 0#32) (fun _ ↦ porIn)
    (drive aliasScript bootedWin) 512 (isReset_powerOn _) le_rfl (fun _ _ ↦ por_porIn)
    driven_aliasScript 13 0#21 0 (by decide)).1 hdone
  refine h.trans ?_
  change (lastStored 0#21 0 (log (drive aliasScript bootedWin) bootedWin 13)).getD _ = 0xAB#8
  rw [log_drive]
  decide +kernel

end Win

end Vux9k.Rtl

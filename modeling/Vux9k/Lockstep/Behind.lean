import Vux9k.Lockstep.Waits

/-!
# The PSRAM behind the caches

The emulator stores into its memory at once and keeps, for a dirty line, the words that the PSRAM
still has; the RTL keeps the stored bytes in its lines.  `Linked` ties the two together.  A power-on
reset of the emulator puts the kept words back, which leaves the PSRAM of the write-back cache.
-/

set_option autoImplicit false

namespace Vux9k

open Rtl (Access PWord Wb DTag Dcache Psram)

/-! ## Words -/

/-- `merge_bytes` is a strobed write. -/
theorem mergeBytes_eq (old data : Word) (be : BitVec 4) :
    Emu.mergeBytes old data be = strobed old data be := by
  have hmask : ∀ be : BitVec 4, ∀ i : Fin 32,
      (Emu.byteMask be).getLsbD i = be.getLsbD (i / 8) := by decide
  refine BitVec.eq_of_getLsbD_eq fun i hi ↦ ?_
  rw [getLsbD_strobed hi, Emu.mergeBytes, BitVec.getLsbD_or, BitVec.getLsbD_and, BitVec.getLsbD_and,
    BitVec.getLsbD_not, hmask be ⟨i, hi⟩]
  cases hb : be.getLsbD (i / 8) with
  | true => simp
  | false => simp [hi]

/-- The PSRAM that the emulator's memory is. -/
def psramOf (xmem : ℕ → Word) (w : PWord) : Word := xmem w.toNat

theorem psramOf_update (xmem : ℕ → Word) (a : PWord) (v : Word) :
    psramOf (Function.update xmem a.toNat v) = Function.update (psramOf xmem) a v := by
  funext w
  rw [psramOf, update_toNat, Function.update_apply]
  rfl

theorem psramOf_store (xmem : ℕ → Word) (a : PWord) (data : Word) (be : BitVec 4) :
    psramOf (Function.update xmem a.toNat (Emu.mergeBytes (xmem a.toNat) data be)) =
      Psram.write (psramOf xmem) a data be := by
  rw [psramOf_update, mergeBytes_eq]
  rfl

/-- A word's place in its line. -/
theorem toNat_eq_line (w : PWord) : w.toNat =
    ((Dcache.tag w).toNat * 64 + (Dcache.line w).toNat) * 8 + (Dcache.word w).toNat := by
  have hw : w.toNat < 2 ^ 21 := w.isLt
  rw [Dcache.tag, Dcache.line, Dcache.word, BitVec.extractLsb'_toNat, BitVec.extractLsb'_toNat,
    BitVec.extractLsb'_toNat, Nat.shiftRight_eq_div_pow, Nat.shiftRight_eq_div_pow,
    Nat.shiftRight_eq_div_pow]
  omega

/-! ## The data cache without the instruction cache -/

section

/-- The window with an empty instruction cache. -/
def dark (c : Wb) : Wb := { c with itags := fun _ ↦ .zero }

variable {c d : Wb} {mem : PWord → Word}

theorem dark_coherent (h : c.Coherent mem) (ht : d.tags = c.tags) (hw : d.words = c.words)
    (hp : d.psram = c.psram) : (dark d).Coherent mem := by
  have hh : ∀ w, (dark d).Holds w ↔ c.Holds w := by
    intro w
    rw [Wb.Holds, Wb.Holds, ← ht]
    rfl
  refine ⟨fun w hd ↦ ?_, fun w hd ↦ ?_, fun w hd hl ↦ ?_, fun w hd ↦ ?_, fun w hd ↦ ?_⟩
  · rw [← h.data w ((hh w).mp hd), ← hw]
    rfl
  · have hm := h.mask w ((hh w).mp hd)
    rw [← hw, ← hp] at hm
    exact hm
  · have hl' : c.dirty (Dcache.line w) = false := by
      rw [Wb.dirty, ← ht]
      exact hl
    rw [← h.clean w ((hh w).mp hd) hl', ← hp]
    rfl
  · rw [← h.behind w (mt (hh w).mpr hd), ← hp]
    rfl
  · cases hd

theorem dark_evict (l : BitVec 6) : dark (c.evict l) = (dark c).evict l := by
  rw [Wb.evict, Wb.evict, show (dark c).dirty l = c.dirty l from rfl]
  split <;> rfl

theorem dark_allocate (a : PWord) : dark (c.allocate a) = (dark c).allocate a := by
  by_cases hh : c.Holds a
  · rw [Wb.allocate_of_holds hh, Wb.allocate_of_holds (show (dark c).Holds a from hh)]
  · rw [Wb.allocate, Wb.allocate, if_neg hh, if_neg (show ¬ (dark c).Holds a from hh), ← dark_evict]
    rfl

theorem dark_probe (a : PWord) : dark (c.probe a) = (dark c).probe a := by
  rw [Wb.probe, Wb.probe, show (dark c).tags = c.tags from rfl]
  split <;> rfl

/-- Every access keeps the data cache and the PSRAM behind it one memory. -/
theorem dark_access (h : (dark c).Coherent mem) (x : Access) :
    (dark (c.access x)).Coherent (x.apply mem) := by
  cases x with
  | fetch a =>
    rw [Wb.access]
    split
    · exact h
    · have hp := (h.probe a).1
      rw [← dark_probe] at hp
      exact dark_coherent hp rfl rfl rfl
  | load a =>
    rw [Wb.access, dark_allocate]
    exact (h.allocate a).1
  | store a data be =>
    have hm := (h.allocate a).1.merge (h.allocate a).2 data be
    rw [← dark_allocate] at hm
    exact dark_coherent hm rfl rfl rfl

end

/-! ## The emulator's window and the write-back cache -/

/-- The emulator's memory is the one that the caches show, and behind a dirty line it has the words
of the PSRAM. -/
structure Linked (s : Emu.Window) (c : Wb) : Prop where
  tags : TagsAgree s.caches c.itags c.tags
  coherent : (dark c).Coherent (psramOf s.mem.xmem)
  behind : ∀ w, c.tags (Dcache.line w) = ⟨true, true, Dcache.tag w⟩ →
    s.caches.behind (Dcache.line w).toNat (Dcache.word w).toNat = c.psram w

namespace Linked

variable {s : Emu.Window} {c : Wb}

theorem clean (h : Linked s c) (w : PWord)
    (hw : c.tags (Dcache.line w) ≠ ⟨true, true, Dcache.tag w⟩) :
    c.psram w = psramOf s.mem.xmem w := by
  by_cases hh : c.Holds w
  · refine h.coherent.clean w hh (Bool.eq_false_of_not_eq_true fun hd ↦ hw ?_)
    rw [Wb.dirty, Bool.and_eq_true] at hd
    exact DTag.eq_mk hh.1 hd.2 hh.2
  · exact h.coherent.behind w hh

/-- A line that is written back or filled is clean afterwards; the others are as they were. -/
theorem behind_of_clean {e : Emu.Caches} {d : Wb} {l : BitVec 6} {t : BitVec 12} (h : Linked s c)
    (he : e.behind = s.caches.behind) (ht : d.tags = Function.update c.tags l ⟨true, false, t⟩)
    (hp : ∀ w, Dcache.line w ≠ l → d.psram w = c.psram w) (w : PWord)
    (hw : d.tags (Dcache.line w) = ⟨true, true, Dcache.tag w⟩) :
    e.behind (Dcache.line w).toNat (Dcache.word w).toNat = d.psram w := by
  have hl : Dcache.line w ≠ l := by
    intro hl
    rw [ht, hl, Function.update_self] at hw
    cases hw
  rw [ht, Function.update_of_ne hl] at hw
  rw [he, hp w hl, h.behind w hw]

theorem writeBack_of_ne {t : BitVec 12} {l : BitVec 6} {w : PWord} (hl : Dcache.line w ≠ l) :
    (c.writeBack t l).psram w = c.psram w := by
  rw [Wb.writeBack_psram, if_neg fun hc ↦ hl hc.2]

theorem evict_of_ne {l : BitVec 6} {w : PWord} (hl : Dcache.line w ≠ l) :
    (c.evict l).psram w = c.psram w := by
  rw [Wb.evict]
  split
  · exact writeBack_of_ne hl
  · rfl

theorem fetch (h : Linked s c) (a : PWord) :
    Linked (s.access (.fetch a)).2 (c.access (.fetch a)) := by
  refine ⟨(h.tags.on s.mem.xmem (.fetch a)).2, dark_access h.coherent (.fetch a), ?_⟩
  have hb : (s.caches.fetch a.toNat).2.behind = s.caches.behind := by
    simp only [Emu.Caches.fetch, ilineOf_toNat, dlineOf_toNat]
    split_ifs <;> rfl
  rw [Wb.access]
  split
  · intro w hw
    exact (congrFun (congrFun hb _) _).trans (h.behind w hw)
  · by_cases hp : c.tags (Dcache.line a) = ⟨true, true, Dcache.tag a⟩
    · refine h.behind_of_clean (l := Dcache.line a) (t := Dcache.tag a) hb ?_ ?_
      · exact (probe_tags c a).trans (if_pos hp)
      · intro w hl
        change (c.probe a).psram w = _
        rw [Wb.probe, if_pos hp]
        exact writeBack_of_ne hl
    · rw [Wb.probe_eq hp]
      intro w hw
      exact (congrFun (congrFun hb _) _).trans (h.behind w hw)

/-- The line of a load or a store is there. -/
theorem allocate (h : Linked s c) (a : PWord) (stats : Emu.CacheStats) :
    Linked { s with caches := { s.caches with dline := s.caches.allocate a.toNat, stats } }
      (c.allocate a) := by
  refine ⟨h.tags.allocate a stats, ?_, ?_⟩
  · rw [dark_allocate]
    exact (h.coherent.allocate a).1
  · by_cases hh : c.Holds a
    · rw [Wb.allocate_of_holds hh]
      exact h.behind
    · refine h.behind_of_clean (l := Dcache.line a) (t := Dcache.tag a) rfl ?_ ?_
      · exact (allocate_tags c a).trans (if_neg hh)
      · intro w hl
        rw [Wb.allocate, if_neg hh]
        exact evict_of_ne hl

/-- A store's line becomes dirty; the emulator remembers its words if it was clean. -/
theorem merge {e : Emu.Caches} (h : Linked ⟨s.mem, e⟩ c) {a : PWord} (ha : c.Holds a) (data : Word)
    (be : BitVec 4) :
    Linked
      { mem := { s.mem with
          xmem := Function.update s.mem.xmem a.toNat (Emu.mergeBytes (s.mem.xmem a.toNat) data be) }
        caches := { e.markDirty a.toNat s.mem.xmem with
          itag := Function.update (e.markDirty a.toNat s.mem.xmem).itag (Emu.ilineOf a.toNat).1
            none } }
      (c.merge a data be) := by
  refine ⟨h.tags.markDirty ha s.mem.xmem data be, ?_, fun w hw ↦ ?_⟩
  · have hm := h.coherent.merge (show (dark c).Holds a from ha) data be
    rw [← psramOf_store] at hm
    exact dark_coherent hm rfl rfl rfl
  · have hline : e.dline (Dcache.line a).toNat =
        some ⟨(Dcache.tag a).toNat, (c.tags (Dcache.line a)).dirty⟩ := by
      rw [h.tags.dline, dlineOfTag, if_pos ha.1, ha.2]
    change (e.markDirty a.toNat s.mem.xmem).behind _ _ = c.psram w
    rw [Emu.Caches.markDirty, dlineOf_toNat, hline]
    cases hd : (c.tags (Dcache.line a)).dirty with
    | true =>
      refine h.behind w ?_
      by_cases hl : Dcache.line w = Dcache.line a
      · have hw' : (⟨true, true, Dcache.tag a⟩ : DTag) = ⟨true, true, Dcache.tag w⟩ := by
          simpa [Wb.merge, hl] using hw
        rw [hl, ← hw']
        exact DTag.eq_mk ha.1 hd ha.2
      · simpa only [Wb.merge, Function.update_of_ne hl] using hw
    | false =>
      by_cases hl : Dcache.line w = Dcache.line a
      · -- The PSRAM still has what the memory had before the store.
        have hw' : (⟨true, true, Dcache.tag a⟩ : DTag) = ⟨true, true, Dcache.tag w⟩ := by
          simpa [Wb.merge, hl] using hw
        injection hw' with _ _ ht
        have hclean : c.tags (Dcache.line w) ≠ ⟨true, true, Dcache.tag w⟩ := by
          intro hc
          rw [← hl, hc] at hd
          cases hd
        rw [h.clean w hclean, hl]
        change Function.update e.behind _ _ _ _ = s.mem.xmem w.toNat
        rw [Function.update_self]
        refine congrArg s.mem.xmem ?_
        have ha8 := toNat_eq_line a
        have hw8 := toNat_eq_line w
        have hword := (Dcache.word a).isLt
        rw [← ht, hl] at hw8
        rw [Emu.lineWords]
        omega
      · have hw' : c.tags (Dcache.line w) = ⟨true, true, Dcache.tag w⟩ := by
          simpa only [Wb.merge, Function.update_of_ne hl] using hw
        have hne : (Dcache.line w).toNat ≠ (Dcache.line a).toNat := mt BitVec.toNat_inj.mp hl
        refine Eq.trans ?_ (h.behind w hw')
        exact congrFun (Function.update_of_ne hne _ _) _

/-- **An access keeps the two together.** -/
theorem access (h : Linked s c) (x : Access) : Linked (s.access x).2 (c.access x) := by
  cases x with
  | fetch a => exact h.fetch a
  | load a => exact h.allocate a _
  | store a data be => exact (h.allocate a _).merge (holds_allocate c a) data be

/-- Words that are written past the caches, where no line holds them. -/
theorem written (h : Linked s c) {a : PWord} (ha : ¬ c.Holds a) (v : Word) :
    Linked (s.written a.toNat v) { c with psram := Function.update c.psram a v } := by
  have hnot : c.tags (Dcache.line a) ≠ ⟨true, true, Dcache.tag a⟩ := by
    intro hc
    exact ha ⟨by rw [hc], by rw [hc]⟩
  have hsame : s.caches.psramWritten a.toNat v = s.caches := by
    simp only [Emu.Caches.psramWritten, dlineOf_toNat]
    refine if_neg fun hc ↦ hnot ?_
    rwa [h.tags.dline, dlineOfTag_eq_dirty] at hc
  refine ⟨?_, ?_, fun w hw ↦ ?_⟩
  · rw [Emu.Window.written, hsame]
    exact h.tags
  · change (dark _).Coherent (psramOf (Function.update s.mem.xmem a.toNat v))
    rw [psramOf_update]
    have hne : ∀ w, c.Holds w → w ≠ a := by
      rintro w hw rfl
      exact ha hw
    have hc := h.coherent
    refine ⟨fun w hw ↦ ?_, fun w hw ↦ ?_, fun w hw hd ↦ ?_, fun w hw ↦ ?_, fun w hw ↦ ?_⟩
    · rw [Function.update_of_ne (hne w hw)]
      exact hc.data w hw
    · rw [Function.update_of_ne (hne w hw)]
      change AgreeOff _ (Function.update c.psram a v w) _
      rw [Function.update_of_ne (hne w hw)]
      exact hc.mask w hw
    · rw [Function.update_of_ne (hne w hw)]
      exact (Function.update_of_ne (hne w hw) _ _).trans (hc.clean w hw hd)
    · change Function.update c.psram a v w = _
      rw [Function.update_apply, Function.update_apply, show c.psram w = _ from hc.behind w hw]
    · cases hw
  · have hwa : w ≠ a := by
      rintro rfl
      exact hnot hw
    rw [Emu.Window.written, hsame]
    exact (h.behind w hw).trans (Function.update_of_ne hwa _ _).symm

/-! ### The reset -/

theorem putBack_apply (h : Linked s c) (mem : ℕ → Word) (l : BitVec 6) (w : PWord) :
    s.caches.putBack mem l.toNat w.toNat =
      if Dcache.line w = l ∧ c.tags l = ⟨true, true, Dcache.tag w⟩ then c.psram w
      else mem w.toNat := by
  have hw8 := toNat_eq_line w
  have hword := (Dcache.word w).isLt
  have hl6 := l.isLt
  have hl6' := (Dcache.line w).isLt
  rw [Emu.Caches.putBack, h.tags.dline]
  rcases ht : c.tags l with ⟨v, d, t⟩
  cases v with
  | false => simp [dlineOfTag]
  | true =>
    cases d with
    | false => simp [dlineOfTag]
    | true =>
      simp only [dlineOfTag, if_pos, DTag.mk.injEq, true_and]
      by_cases hw : Dcache.line w = l ∧ t = Dcache.tag w
      · obtain ⟨rfl, rfl⟩ := hw
        rw [if_pos ⟨rfl, rfl⟩, ← h.behind w ht, hw8]
        refine Emu.storeWords_get ?_
        rw [List.getElem?_map, List.getElem?_range (n := Emu.lineWords) hword]
        rfl
      · rw [if_neg hw]
        refine Emu.storeWords_of_not_mem ?_
        rw [List.length_map, List.length_range, Emu.lineWords, Emu.dcacheLines]
        intro hin
        refine hw ⟨BitVec.toNat_inj.mp ?_, BitVec.toNat_inj.mp ?_⟩
        · omega
        · omega

/-- **The reset leaves the PSRAM.** -/
theorem reset_xmem (h : Linked s c) (w : PWord) : s.reset.mem.xmem w.toNat = c.psram w := by
  have hfold : ∀ n ≤ 64, (List.range n).foldl s.caches.putBack s.mem.xmem w.toNat =
      if (Dcache.line w).toNat < n ∧ c.tags (Dcache.line w) = ⟨true, true, Dcache.tag w⟩ then
        c.psram w
      else s.mem.xmem w.toNat := by
    intro n
    induction n with
    | zero => simp
    | succ n ih =>
      intro hn
      have hk : n = (BitVec.ofNat 6 n).toNat := by
        rw [BitVec.toNat_ofNat, Nat.mod_eq_of_lt (by omega)]
      rw [List.range_succ, List.foldl_append, List.foldl_cons, List.foldl_nil]
      nth_rewrite 2 [hk]
      rw [h.putBack_apply, ih (by omega)]
      by_cases hl : Dcache.line w = BitVec.ofNat 6 n
      · have hln : (Dcache.line w).toNat = n := by rw [hl, ← hk]
        rw [← hl]
        by_cases ht : c.tags (Dcache.line w) = ⟨true, true, Dcache.tag w⟩
        · rw [if_pos ⟨rfl, ht⟩, if_pos ⟨by omega, ht⟩]
        · rw [if_neg fun hc ↦ ht hc.2, if_neg fun hc ↦ ht hc.2, if_neg fun hc ↦ ht hc.2]
      · have hln : (Dcache.line w).toNat ≠ n := by
          intro hc
          rw [hk] at hc
          exact hl (BitVec.toNat_inj.mp hc)
        rw [if_neg fun hc ↦ hl hc.1]
        refine if_congr (and_congr_left fun _ ↦ ?_) rfl rfl
        omega
  have hlt := (Dcache.line w).isLt
  refine (hfold 64 le_rfl).trans ?_
  by_cases ht : c.tags (Dcache.line w) = ⟨true, true, Dcache.tag w⟩
  · rw [if_pos ⟨hlt, ht⟩]
  · rw [if_neg fun hc ↦ ht hc.2]
    exact (h.clean w ht).symm

end Linked

end Vux9k

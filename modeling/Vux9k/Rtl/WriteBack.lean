import Vux9k.Rtl.WindowPhase

/-!
# The window as a write-back cache

What the window does, an access at a time: a direct-mapped write-back data cache with byte masks and
a read-only instruction cache in front of one memory.  A data miss writes its dirty victim back and
fills its line; an instruction miss writes the line back if the data cache holds it dirty, and fills
its own; a store merges its bytes into its line and invalidates the instruction-cache line at its
index.
-/

set_option autoImplicit false

namespace Vux9k.Rtl

/-- The two caches and the memory behind them. -/
structure Wb : Type where
  itags : BitVec 9 → ITag
  iwords : BitVec 12 → Word
  tags : BitVec 6 → DTag
  words : BitVec 9 → DWord
  psram : PWord → Word

namespace Wb

variable (c : Wb)

/-! ## Line transfers -/

/-- The memory after `k` words of a line's write-back. -/
def psramAfter (t : BitVec 12) (l : BitVec 6) : ℕ → PWord → Word
  | 0 => c.psram
  | k + 1 => Psram.write (psramAfter t l k) (t ++ l ++ BitVec.ofNat 3 k)
      (c.words (l ++ BitVec.ofNat 3 k)).data (c.words (l ++ BitVec.ofNat 3 k)).mask

/-- The data cache's words after `k` words of a line's fill. -/
def wordsAfter (t : BitVec 12) (l : BitVec 6) : ℕ → BitVec 9 → DWord
  | 0 => c.words
  | k + 1 => Function.update (wordsAfter t l k) (l ++ BitVec.ofNat 3 k)
      ⟨0b0000#4, c.psram (t ++ l ++ BitVec.ofNat 3 k)⟩

/-- The instruction cache's words after `k` words of a line's fill. -/
def iwordsAfter (t l : BitVec 9) : ℕ → BitVec 12 → Word
  | 0 => c.iwords
  | k + 1 => Function.update (iwordsAfter t l k) (l ++ BitVec.ofNat 3 k)
      (c.psram (t ++ l ++ BitVec.ofNat 3 k))

/-- A line's write-back: the bytes stored since its fill. -/
def writeBack (t : BitVec 12) (l : BitVec 6) : Wb := { c with psram := c.psramAfter t l 8 }

/-- A line's fill. -/
def fill (t : BitVec 12) (l : BitVec 6) : Wb :=
  { c with
    words := c.wordsAfter t l 8
    tags := Function.update c.tags l ⟨true, false, t⟩ }

/-- The line is clean again; its words keep their masks. -/
def clean (t : BitVec 12) (l : BitVec 6) : Wb :=
  { c with tags := Function.update c.tags l ⟨true, false, t⟩ }

/-- An instruction line's fill. -/
def ifill (t l : BitVec 9) : Wb :=
  { c with
    iwords := c.iwordsAfter t l 8
    itags := Function.update c.itags l ⟨true, t⟩ }

/-- A store into its line. -/
def merge (a : PWord) (data : Word) (be : BitVec 4) : Wb :=
  { c with
    itags := Function.update c.itags (Icache.line a) .zero
    words := Function.update c.words (Dcache.idx a) ⟨(c.words (Dcache.idx a)).mask ||| be,
      strobed (c.words (Dcache.idx a)).data data be⟩
    tags := Function.update c.tags (Dcache.line a) ⟨true, true, Dcache.tag a⟩ }

/-! ## Accesses -/

/-- The data cache holds the word. -/
def Holds (a : PWord) : Prop :=
  (c.tags (Dcache.line a)).valid = true ∧ (c.tags (Dcache.line a)).tag = Dcache.tag a

instance (a : PWord) : Decidable (c.Holds a) := instDecidableAnd

/-- The instruction cache holds the word. -/
def IHolds (a : PWord) : Prop := c.itags (Icache.line a) = ⟨true, Icache.tag a⟩

instance (a : PWord) : Decidable (c.IHolds a) :=
  inferInstanceAs (Decidable (c.itags (Icache.line a) = ⟨true, Icache.tag a⟩))

/-- A line is dirty. -/
def dirty (l : BitVec 6) : Bool := (c.tags l).valid && (c.tags l).dirty

/-- The victim of a miss, written back if it is dirty. -/
def evict (l : BitVec 6) : Wb := if c.dirty l then c.writeBack (c.tags l).tag l else c

/-- The word's line is in the data cache. -/
def allocate (a : PWord) : Wb :=
  if c.Holds a then c else (c.evict (Dcache.line a)).fill (Dcache.tag a) (Dcache.line a)

/-- An instruction miss's probe. -/
def probe (a : PWord) : Wb :=
  if c.tags (Dcache.line a) = ⟨true, true, Dcache.tag a⟩ then
    (c.writeBack (Dcache.tag a) (Dcache.line a)).clean (Dcache.tag a) (Dcache.line a)
  else c

/-- An access. -/
def access : Access → Wb
  | .fetch a => if c.IHolds a then c else (c.probe a).ifill (Icache.tag a) (Icache.line a)
  | .load a => c.allocate a
  | .store a data be => (c.allocate a).merge a data be

/-- Accesses, one after the other. -/
def accesses (xs : List Access) : Wb := xs.foldl access c

/-! ## Transfers, word by word -/

variable {c} {k : ℕ}

theorem word_eq_ofNat {x : BitVec 3} (hk : k < 8) : x = BitVec.ofNat 3 k ↔ x.toNat = k := by
  rw [← BitVec.toNat_inj, BitVec.toNat_ofNat]
  omega

theorem psramAfter_apply (t : BitVec 12) (l : BitVec 6) (hk : k ≤ 8) (w : PWord) :
    c.psramAfter t l k w =
      if Dcache.tag w = t ∧ Dcache.line w = l ∧ (Dcache.word w).toNat < k then
        strobed (c.psram w) (c.words (Dcache.idx w)).data (c.words (Dcache.idx w)).mask
      else c.psram w := by
  induction k with
  | zero => simp [psramAfter]
  | succ k ih =>
    rw [psramAfter, Psram.write]
    by_cases hw : w = t ++ l ++ BitVec.ofNat 3 k
    · obtain ⟨ht, hl, hword⟩ := (Dcache.eq_append_iff w t l _).mp hw
      have hn := (word_eq_ofNat (by omega)).mp hword
      rw [← hw, Function.update_self, ih (by omega), if_neg (by omega), if_pos ⟨ht, hl, by omega⟩,
        (Dcache.idx_eq_iff w l _).mpr ⟨hl, hword⟩]
    · rw [Function.update_of_ne hw, ih (by omega)]
      refine if_congr ?_ rfl rfl
      refine and_congr_right fun ht ↦ and_congr_right fun hl ↦ ⟨fun h ↦ by omega, fun h ↦ ?_⟩
      have hne : (Dcache.word w).toNat ≠ k := fun he ↦
        hw ((Dcache.eq_append_iff w t l _).mpr ⟨ht, hl, (word_eq_ofNat (by omega)).mpr he⟩)
      omega

theorem wordsAfter_idx (t : BitVec 12) (l : BitVec 6) (hk : k ≤ 8) (w : PWord) :
    c.wordsAfter t l k (Dcache.idx w) =
      if Dcache.line w = l ∧ (Dcache.word w).toNat < k then
        ⟨0b0000#4, c.psram (t ++ l ++ Dcache.word w)⟩
      else c.words (Dcache.idx w) := by
  induction k with
  | zero => simp [wordsAfter]
  | succ k ih =>
    rw [wordsAfter]
    by_cases hw : Dcache.idx w = l ++ BitVec.ofNat 3 k
    · obtain ⟨hl, hword⟩ := (Dcache.idx_eq_iff w l _).mp hw
      have hn := (word_eq_ofNat (by omega)).mp hword
      rw [← hw, Function.update_self, if_pos ⟨hl, by omega⟩, hword]
    · rw [Function.update_of_ne hw, ih (by omega)]
      refine if_congr (and_congr_right fun hl ↦ ⟨fun h ↦ by omega, fun h ↦ ?_⟩) rfl rfl
      have hne : (Dcache.word w).toNat ≠ k := fun he ↦
        hw ((Dcache.idx_eq_iff w l _).mpr ⟨hl, (word_eq_ofNat (by omega)).mpr he⟩)
      omega

theorem iwordsAfter_idx (t l : BitVec 9) (hk : k ≤ 8) (w : PWord) :
    c.iwordsAfter t l k (Icache.idx w) =
      if Icache.line w = l ∧ (Icache.word w).toNat < k then c.psram (t ++ l ++ Icache.word w)
      else c.iwords (Icache.idx w) := by
  induction k with
  | zero => simp [iwordsAfter]
  | succ k ih =>
    rw [iwordsAfter]
    by_cases hw : Icache.idx w = l ++ BitVec.ofNat 3 k
    · obtain ⟨hl, hword⟩ := (Icache.idx_eq_iff w l _).mp hw
      have hn := (word_eq_ofNat (by omega)).mp hword
      rw [← hw, Function.update_self, if_pos ⟨hl, by omega⟩, hword]
    · rw [Function.update_of_ne hw, ih (by omega)]
      refine if_congr (and_congr_right fun hl ↦ ⟨fun h ↦ by omega, fun h ↦ ?_⟩) rfl rfl
      have hne : (Icache.word w).toNat ≠ k := fun he ↦
        hw ((Icache.idx_eq_iff w l _).mpr ⟨hl, (word_eq_ofNat (by omega)).mpr he⟩)
      omega

theorem writeBack_psram (t : BitVec 12) (l : BitVec 6) (w : PWord) :
    (c.writeBack t l).psram w =
      if Dcache.tag w = t ∧ Dcache.line w = l then
        strobed (c.psram w) (c.words (Dcache.idx w)).data (c.words (Dcache.idx w)).mask
      else c.psram w := by
  have hlt : (Dcache.word w).toNat < 8 := (Dcache.word w).isLt
  refine (psramAfter_apply t l (le_refl 8) w).trans (if_congr ?_ rfl rfl)
  exact and_congr_right fun _ ↦ and_iff_left hlt

theorem fill_words (t : BitVec 12) (l : BitVec 6) (w : PWord) :
    (c.fill t l).words (Dcache.idx w) =
      if Dcache.line w = l then ⟨0b0000#4, c.psram (t ++ l ++ Dcache.word w)⟩
      else c.words (Dcache.idx w) := by
  have hlt : (Dcache.word w).toNat < 8 := (Dcache.word w).isLt
  refine (wordsAfter_idx t l (le_refl 8) w).trans (if_congr ?_ rfl rfl)
  exact and_iff_left hlt

theorem ifill_iwords (t l : BitVec 9) (w : PWord) :
    (c.ifill t l).iwords (Icache.idx w) =
      if Icache.line w = l then c.psram (t ++ l ++ Icache.word w) else c.iwords (Icache.idx w) := by
  have hlt : (Icache.word w).toNat < 8 := (Icache.word w).isLt
  refine (iwordsAfter_idx t l (le_refl 8) w).trans (if_congr ?_ rfl rfl)
  exact and_iff_left hlt

/-! ## An access under way -/

/-- The access misses. -/
def Misses : Access → Prop
  | .fetch a => ¬ c.IHolds a
  | .load a => ¬ c.Holds a
  | .store a _ _ => ¬ c.Holds a

theorem evict_of_clean {l : BitVec 6} (h : c.dirty l = false) : c.evict l = c := by
  rw [evict, h, if_neg Bool.false_ne_true]

/-- Writing a line back twice is writing it back once. -/
theorem writeBack_writeBack (t : BitVec 12) (l : BitVec 6) :
    (c.writeBack t l).writeBack t l = c.writeBack t l := by
  have hp : ((c.writeBack t l).writeBack t l).psram = (c.writeBack t l).psram := by
    funext w
    rw [writeBack_psram, writeBack_psram]
    split
    · exact strobed_strobed
    · rfl
  exact congrArg (fun p ↦ { c with psram := p }) hp

theorem evict_evict (l : BitVec 6) : (c.evict l).evict l = c.evict l := by
  unfold evict
  cases h : c.dirty l with
  | false =>
    rw [if_neg Bool.false_ne_true, h]
    rfl
  | true =>
    have hd : (c.writeBack (c.tags l).tag l).dirty l = true := h
    rw [if_pos rfl, hd, if_pos rfl]
    exact writeBack_writeBack _ _

theorem probe_eq {a : PWord} (h : c.tags (Dcache.line a) ≠ ⟨true, true, Dcache.tag a⟩) :
    c.probe a = c := if_neg h

theorem probe_probe (a : PWord) : (c.probe a).probe a = c.probe a := by
  by_cases h : c.tags (Dcache.line a) = ⟨true, true, Dcache.tag a⟩
  · refine probe_eq ?_
    rw [probe, if_pos h]
    simp [clean]
  · rw [probe_eq h, probe_eq h]

theorem access_fetch {a : PWord} (h : c.IHolds a) : c.access (.fetch a) = c := if_pos h

/-- After its probe, a fetch that missed still has the same to do. -/
theorem access_probe {a : PWord} (h : ¬ c.IHolds a) :
    (c.probe a).access (.fetch a) = c.access (.fetch a) := by
  have hi : (c.probe a).itags = c.itags := by
    unfold probe
    split <;> rfl
  have h' : ¬ (c.probe a).IHolds a := by rwa [IHolds, hi]
  rw [access, access, if_neg h, if_neg h', probe_probe]

/-- After its fill, a fetch is done. -/
theorem access_ifill {a : PWord} (h : ¬ c.IHolds a) (hp : c.probe a = c) :
    (c.ifill (Icache.tag a) (Icache.line a)).access (.fetch a) = c.access (.fetch a) := by
  have h' : (c.ifill (Icache.tag a) (Icache.line a)).IHolds a := Function.update_self _ _ _
  rw [access_fetch h', access, if_neg h, hp]

theorem allocate_of_holds {a : PWord} (h : c.Holds a) : c.allocate a = c := if_pos h

/-- A data access is what it does once its line is there. -/
theorem access_congr {d : Wb} {x : Access} {a : PWord} (hx : x.dataWord = some a)
    (h : d.allocate a = c.allocate a) : d.access x = c.access x := by
  cases x with
  | fetch w => simp [Access.dataWord] at hx
  | load w =>
    obtain rfl : w = a := by simpa [Access.dataWord] using hx
    exact h
  | store w data be =>
    obtain rfl : w = a := by simpa [Access.dataWord] using hx
    rw [access, access, h]

theorem misses_iff {x : Access} {a : PWord} (hx : x.dataWord = some a) :
    c.Misses x ↔ ¬ c.Holds a := by
  cases x with
  | fetch w => simp [Access.dataWord] at hx
  | load w =>
    obtain rfl : w = a := by simpa [Access.dataWord] using hx
    rfl
  | store w data be =>
    obtain rfl : w = a := by simpa [Access.dataWord] using hx
    rfl

/-- With its victim written back, an access that missed still has the same to do. -/
theorem allocate_evict {a : PWord} (h : ¬ c.Holds a) :
    (c.evict (Dcache.line a)).allocate a = c.allocate a := by
  have ht : (c.evict (Dcache.line a)).tags = c.tags := by
    unfold evict
    split <;> rfl
  have h' : ¬ (c.evict (Dcache.line a)).Holds a := by rwa [Holds, ht]
  rw [allocate, allocate, if_neg h, if_neg h', evict_evict]

/-- After its fill, its line is there. -/
theorem allocate_fill {a : PWord} (h : ¬ c.Holds a) (he : c.evict (Dcache.line a) = c) :
    (c.fill (Dcache.tag a) (Dcache.line a)).allocate a = c.allocate a := by
  have h' : (c.fill (Dcache.tag a) (Dcache.line a)).Holds a := by
    simp [Holds, fill]
  rw [allocate_of_holds h', allocate, if_neg h, he]

end Wb

end Vux9k.Rtl

import Vux9k.Fat.Alloc
import Vux9k.Fat.Erase

/-!
# The disk behind the cache

`Disk` is a volume on a card without the cache in between: the words of the FAT as the volume sees
them, the sectors outside the FAT, and the one sector buffer.  Many states of card and cache depict
the same disk (`Depicts`), and the methods of `fw_common/src/fat` can be told apart by what they do
to it.

`Disk.Ends g m d Q`: on a card without errors the method `m`, called in any state that depicts `d`,
ends in a state that depicts a disk of which `Q` holds, together with what `m` returns.  This is
total: it includes that the method ends.  The rules below follow the program.
-/

set_option autoImplicit false

namespace Vux9k

open Vol (Slot)

variable {α β σ : Type}

/-- What a volume on a card amounts to.  `dirty` if a change of the FAT may still wait in the
cache. -/
structure Disk : Type where
  fat : ℕ → Word
  area : Card
  buf : Sector
  dirty : Bool

/-- Cluster `n`'s entry. -/
def Disk.entry (d : Disk) (n : ℕ) : ℕ := (d.fat n &&& entryMask).toNat

namespace Disk

/-- The disk with something in the buffer. -/
def hold (d : Disk) (b : Sector) : Disk := { d with buf := b }

/-- The disk with a sector written. -/
def put (d : Disk) (lba : ℕ) (s : Sector) : Disk :=
  { d with area := Function.update d.area lba s }

/-- The disk with one entry of the FAT set. -/
def set (d : Disk) (n value : ℕ) : Disk :=
  { d with fat := entered d.fat n value, dirty := true }

/-- The disk with the cache written back. -/
def flush (d : Disk) : Disk := { d with dirty := false }

theorem put_apply (d : Disk) (lba : ℕ) (s : Sector) (l : ℕ) :
    (d.put lba s).area l = if l = lba then s else d.area l :=
  Function.update_apply _ _ _ _

theorem set_apply (d : Disk) (n value m : ℕ) :
    (d.set n value).fat m = if m = n then reserved (d.fat n) value else d.fat m :=
  Function.update_apply _ _ _ _

end Disk

/-- The card and the volume depict the disk. -/
structure Depicts (g : Geometry) (d : Disk) (c : Card) (v : Volume) : Prop where
  sound : Sound c v
  geometry : v.toGeometry = g
  cached : v.fatCached ≠ noSector → v.fatCached < g.fatSectors
  fat : ∀ n < g.entries, v.raw c n = d.fat n
  area : ∀ lba, lba < g.fatLba ∨ g.dataLba ≤ lba → c lba = d.area lba
  buf : v.buf = d.buf
  clean : d.dirty = false → v.fatDirty = false
  hint : 2 ≤ v.nextFree ∧ v.nextFree ≤ g.clusterEnd

/-- The method ends, and `Q` holds of what it returns and of the disk it leaves. -/
def Disk.Ends (g : Geometry) (m : Vol α) (d : Disk) (Q : Except FatError α → Disk → Prop) : Prop :=
  ∀ c v, Depicts g d c v → ∃ r v' ws d', onCard (m v) c = ((r, v'), ws) ∧
    Depicts g d' (c.after ws) v' ∧ Q r d'

/-- The method ends with the result `r` and the disk `d'`. -/
abbrev Returns (g : Geometry) (m : Vol α) (d : Disk) (r : Except FatError α) (d' : Disk) : Prop :=
  Disk.Ends g m d fun x e ↦ x = r ∧ e = d'

section Rules

variable {g : Geometry} {d d' : Disk} {m : Vol α} {f : α → Vol β}
  {P : Except FatError α → Disk → Prop} {Q : Except FatError β → Disk → Prop}

theorem Disk.Ends.mono {P' : Except FatError α → Disk → Prop} (h : Disk.Ends g m d P)
    (hP : ∀ r d', P r d' → P' r d') : Disk.Ends g m d P' := by
  intro c v hd
  obtain ⟨r, v', ws, d', hrun, hd', hr⟩ := h c v hd
  exact ⟨r, v', ws, d', hrun, hd', hP r d' hr⟩

theorem ends_pure {a : α} (h : P (.ok a) d) : Disk.Ends g (pure a) d P :=
  fun _ v hd ↦ ⟨.ok a, v, [], d, rfl, hd, h⟩

theorem ends_throw {e : FatError} (h : P (.error e) d) : Disk.Ends g (Vol.throw e) d P :=
  fun _ v hd ↦ ⟨.error e, v, [], d, rfl, hd, h⟩

theorem Disk.Ends.bind (h : Disk.Ends g m d P) (hok : ∀ a d', P (.ok a) d' → Disk.Ends g (f a) d' Q)
    (herror : ∀ e d', P (.error e) d' → Q (.error e) d') : Disk.Ends g (m >>= f) d Q := by
  intro c v hd
  obtain ⟨r, v', ws, d', hrun, hd', hr⟩ := h c v hd
  cases r with
  | error e => exact ⟨.error e, v', ws, d', onCard_bind_error hrun, hd', herror e d' hr⟩
  | ok a =>
    obtain ⟨r, v'', ws', d'', hrun', hd'', hr'⟩ := hok a d' hr _ v' hd'
    refine ⟨r, v'', ws ++ ws', d'', onCard_bind_ok hrun hrun', ?_, hr'⟩
    rwa [Card.after_append]

/-- A method of which it is known what it returns, and what follows. -/
theorem Returns.bind {a : α} (h : Returns g m d (.ok a) d') (hf : Disk.Ends g (f a) d' Q) :
    Disk.Ends g (m >>= f) d Q := by
  refine Disk.Ends.bind h ?_ ?_
  · rintro b e ⟨hb, rfl⟩
    cases hb
    exact hf
  · rintro e d' ⟨hb, -⟩
    cases hb

theorem Disk.Ends.attempt (h : Disk.Ends g m d P) :
    Disk.Ends g (Vol.attempt m) d fun r d' ↦ ∃ x, r = .ok x ∧ P x d' := by
  intro c v hd
  obtain ⟨r, v', ws, d', hrun, hd', hr⟩ := h c v hd
  refine ⟨.ok r, v', ws, d', ?_, hd', r, rfl, hr⟩
  rw [Vol.attempt, onCard_bind, hrun]
  exact congrArg (Prod.mk _) (List.append_nil ws)

/-- The outcome of a method, and what is made of it. -/
theorem Disk.Ends.attempt_bind {k : Except FatError α → Vol β} (h : Disk.Ends g m d P)
    (hk : ∀ x d', P x d' → Disk.Ends g (k x) d' Q) : Disk.Ends g (Vol.attempt m >>= k) d Q := by
  refine h.attempt.bind ?_ ?_
  · rintro x d' ⟨y, hy, hP⟩
    cases hy
    exact hk x d' hP
  · rintro e d' ⟨y, hy, -⟩
    cases hy

theorem ends_gets {k : Volume → α} {F : α → Vol β}
    (h : ∀ c v, Depicts g d c v → Disk.Ends g (F (k v)) d Q) :
    Disk.Ends g (Vol.gets k >>= F) d Q := by
  intro c v hd
  obtain ⟨r, v', ws, d', hrun, hd', hr⟩ := h c v hd c v hd
  exact ⟨r, v', ws, d', hrun, hd', hr⟩

theorem ends_ite {p : Prop} [Decidable p] {m' : Vol α} (h : p → Disk.Ends g m d P)
    (h' : ¬p → Disk.Ends g m' d P) : Disk.Ends g (if p then m else m') d P := by
  split
  · exact h ‹_›
  · exact h' ‹_›

/-- The buffer set. -/
theorem returns_setBuf (d : Disk) (b : Sector) :
    Returns g (Vol.modify fun v ↦ { v with buf := b }) d (.ok ()) (d.hold b) := by
  intro c v hd
  exact ⟨.ok (), { v with buf := b }, [], d.hold b, rfl,
    ⟨⟨hd.sound.laid, hd.sound.clean, hd.sound.dirty⟩, hd.geometry, hd.cached, hd.fat, hd.area, rfl,
      hd.clean, hd.hint⟩, rfl, rfl⟩

/-- The buffer changed. -/
theorem returns_mapBuf (d : Disk) (F : Sector → Sector) :
    Returns g (Vol.modify fun v ↦ { v with buf := F v.buf }) d (.ok ())
      (d.hold (F d.buf)) := by
  intro c v hd
  refine ⟨.ok (), { v with buf := F v.buf }, [], d.hold (F d.buf), rfl,
    ⟨⟨hd.sound.laid, hd.sound.clean, hd.sound.dirty⟩, hd.geometry, hd.cached, hd.fat, hd.area, ?_,
      hd.clean, hd.hint⟩, rfl, rfl⟩
  exact congrArg F hd.buf

end Rules

/-! ## Sectors -/

section Sectors

variable {g : Geometry} {d : Disk} {c : Card} {v : Volume}

/-- Outside the FAT. -/
def Geometry.Outside (g : Geometry) (lba : ℕ) : Prop := lba < g.fatLba ∨ g.dataLba ≤ lba

theorem returns_readBuf (d : Disk) {lba : ℕ} (hlba : g.Outside lba) :
    Returns g (Vol.readBuf lba) d (.ok (d.area lba)) (d.hold (d.area lba)) := by
  intro c v hd
  have hs : c lba = d.area lba := hd.area lba hlba
  refine ⟨.ok (c lba), { v with buf := c lba }, [], d.hold (d.area lba), rfl,
    ⟨⟨hd.sound.laid, hd.sound.clean, hd.sound.dirty⟩, hd.geometry, hd.cached, hd.fat, hd.area, hs,
      hd.clean, hd.hint⟩, ?_, rfl⟩
  rw [hs]

/-- The FAT's sectors are before the data. -/
theorem Geometry.Laid.fat_lt {g : Geometry} (hg : g.Laid) {i : ℕ} (hi : i < g.fatSectors) :
    g.fatLba + i < g.dataLba := by
  have hdata := hg.data
  rcases hg.fats with hn | hn <;> rw [hn] at hdata <;> omega

theorem Geometry.Laid.index_lt {g : Geometry} {n : ℕ} (hn : n < g.entries) :
    n / 128 < g.fatSectors := by
  rw [Geometry.entries] at hn
  omega

theorem Geometry.Outside.ne {g : Geometry} (hg : g.Laid) {lba i : ℕ} (hlba : g.Outside lba)
    (hi : i < g.fatSectors) : g.fatLba + i ≠ lba := by
  have := hg.fat_lt hi
  rcases hlba with h | h <;> omega

/-- A write outside the FAT. -/
theorem Depicts.write (hd : Depicts g d c v) {lba : ℕ} (hlba : g.Outside lba) (s : Sector) :
    Depicts g (d.put lba s) (Function.update c lba s) v := by
  have hlaid : g.Laid := hd.geometry ▸ hd.sound.laid
  have hkeep : ∀ i < g.fatSectors, Function.update c lba s (g.fatLba + i) = c (g.fatLba + i) :=
    fun i hi ↦ Function.update_of_ne (hlba.ne hlaid hi) _ _
  refine ⟨⟨hd.sound.laid, fun hclean hne ↦ ?_, hd.sound.dirty⟩, hd.geometry, hd.cached,
    fun n hn ↦ ?_, fun l hl ↦ ?_, hd.buf, hd.clean, hd.hint⟩
  · rw [hd.sound.clean hclean hne, hd.geometry, hkeep _ (hd.cached hne)]
  · change v.raw _ n = d.fat n
    rw [← hd.fat n hn, Volume.raw, Volume.raw, Volume.fatSector, Volume.fatSector, hd.geometry,
      hkeep _ (Geometry.Laid.index_lt hn)]
  · rw [Disk.put_apply, Function.update_apply, hd.area l hl]

theorem returns_writeBuf (d : Disk) {lba : ℕ} (hlba : g.Outside lba) :
    Returns g (Vol.writeBuf lba) d (.ok ()) (d.put lba d.buf) := by
  intro c v hd
  refine ⟨.ok (), v, [(lba, v.buf)], d.put lba d.buf, rfl, ?_, rfl, rfl⟩
  rw [← hd.buf]
  exact hd.write hlba v.buf

/-- A sector with some bytes written over. -/
theorem returns_update (d : Disk) {lba : ℕ} (hlba : g.Outside lba) (index : ℕ) (bs : List Byte) :
    Returns g (do
      let _ ← Vol.readBuf lba
      Vol.modify fun v ↦ { v with buf := splice v.buf (index * slotLen) bs }
      Vol.writeBuf lba) d (.ok ())
      ((d.hold (splice (d.area lba) (index * slotLen) bs)).put lba
        (splice (d.area lba) (index * slotLen) bs)) :=
  (returns_readBuf d hlba).bind ((returns_mapBuf _ fun b ↦ splice b (index * slotLen) bs).bind
    (returns_writeBuf _ hlba))

end Sectors

/-! ## The FAT -/

section Fat

variable {g : Geometry} {d : Disk} {c : Card} {v : Volume}

theorem Depicts.laid (hd : Depicts g d c v) : g.Laid := hd.geometry ▸ hd.sound.laid

theorem Depicts.entry (hd : Depicts g d c v) {n : ℕ} (hn : n < g.entries) :
    v.entry c n = d.entry n := by
  rw [Volume.entry_eq_raw, hd.fat n hn, Disk.entry]

/-- A state that shows the same depicts the same. -/
theorem Depicts.same (hd : Depicts g d c v) {c' : Card} {v' : Volume} (h : Same c v c' v')
    (hcached : v'.fatCached ≠ noSector → v'.fatCached < g.fatSectors) (hbuf : v'.buf = v.buf)
    (hclean : d.dirty = false → v'.fatDirty = false) : Depicts g d c' v' where
  sound := h.sound
  geometry := h.geometry.trans hd.geometry
  cached := hcached
  fat n hn := (h.raw_eq (by rwa [hd.geometry])).trans (hd.fat n hn)
  area lba hlba := (h.rest lba (by rwa [hd.geometry])).trans (hd.area lba hlba)
  buf := hbuf.trans hd.buf
  clean := hclean
  hint := by
    rw [h.nextFree]
    exact hd.hint

/-- The FAT sector an entry is in can be loaded. -/
theorem Depicts.load (hd : Depicts g d c v) {i : ℕ} (hi : i < g.fatSectors) :
    Depicts g d (c.after (v.evicted i)) (v.loaded c i) := by
  have hi' : i < v.fatSectors := by rwa [hd.geometry]
  refine hd.same (hd.sound.same_load hi') ?_ ?_ ?_
  · intro _
    rwa [(hd.sound.fatSector_loaded hi').1]
  · by_cases hc : v.fatCached = i
    · rw [Volume.loaded, if_pos hc]
    · rw [Volume.loaded, if_neg hc]
  · intro hclean
    by_cases hc : v.fatCached = i
    · rw [Volume.loaded, if_pos hc]
      exact hd.clean hclean
    · rw [Volume.loaded, if_neg hc]

theorem returns_fatEntry (d : Disk) {n : ℕ} (hn : n < g.entries) :
    Returns g (Vol.fatEntry n) d (.ok (d.entry n)) d := by
  intro c v hd
  have hi := Geometry.Laid.index_lt hn
  have hload := hd.sound.fatSector_loaded (i := n / 128) (by rwa [hd.geometry])
  refine ⟨.ok (d.entry n), v.loaded c (n / 128), v.evicted (n / 128), d, ?_, hd.load hi, rfl, rfl⟩
  rw [← List.append_nil (v.evicted (n / 128)), ← hd.entry hn, Volume.entry, ← hload.2]
  exact onCard_bind_ok (onCard_loadFat c v (n / 128)) rfl

theorem returns_flushFat (d : Disk) :
    Returns g Vol.flushFat d (.ok ()) d.flush := by
  intro c v hd
  have hsame := hd.sound.same_flush
  refine ⟨.ok (), _, v.flushed, d.flush, onCard_flushFat c v, ?_, rfl, rfl⟩
  have h := hd.same hsame hd.cached rfl fun _ ↦ rfl
  exact ⟨h.sound, h.geometry, h.cached, h.fat, h.area, h.buf, fun _ ↦ rfl, h.hint⟩

theorem returns_setFat (d : Disk) {n : ℕ} (hn : n < g.entries) (value : ℕ) :
    Returns g (Vol.setFat n value) d (.ok ()) (d.set n value) := by
  intro c v hd
  have hi := Geometry.Laid.index_lt hn
  have hn' : n < v.entries := by rwa [hd.geometry]
  have hcached := (hd.sound.fatSector_loaded (i := n / 128) (by rwa [hd.geometry])).1
  have hload := hd.load hi
  obtain ⟨v', ws, hrun, hent, hnext⟩ := onCard_setFat hd.sound hn' value
  -- the volume that `set_fat` leaves, with the sector in its cache
  have hdirect : onCard (Vol.setFat n value v) c = ((.ok (), { v.loaded c (n / 128) with
      fatBuf := Vol.setEntry (v.loaded c (n / 128)).fatBuf n value, fatDirty := true }),
      v.evicted (n / 128) ++ []) :=
    onCard_bind_ok (onCard_loadFat c v (n / 128)) rfl
  rw [hdirect] at hrun
  simp only [Prod.mk.injEq] at hrun
  obtain ⟨⟨-, rfl⟩, rfl⟩ := hrun
  refine ⟨.ok (), _, _, d.set n value, hdirect, ⟨hent.sound, hload.geometry, fun _ ↦ ?_,
    fun m hm ↦ ?_, fun lba hlba ↦ ?_, hload.buf, by rintro ⟨⟩, hload.hint⟩, rfl, rfl⟩
  · change (v.loaded c (n / 128)).fatCached < g.fatSectors
    rwa [hcached]
  · rw [hent.raw m (by rwa [hd.geometry]), entered, Disk.set_apply, Function.update_apply,
      hd.fat n hn, hd.fat m hm]
  · exact (hent.rest lba (by rwa [hd.geometry])).trans (hd.area lba hlba)

end Fat

/-! ## Directories -/

namespace Disk

variable (g : Geometry) (d : Disk)

/-- The clusters of a chain, and how it ends. -/
def chain (first : ℕ) : List ℕ × Except FatError ℕ := chainFrom g d.entry g.clusterEnd first

/-- The slots of a directory. -/
def slots (first : ℕ) : List Slot := (d.chain g first).1.flatMap (clusterSlots g d.area)

/-- The directory whose chain starts at `first`. -/
def directory (first : ℕ) : Directory := .ofSlots (d.slots g first) (d.chain g first).2

/-- The directories of the disk. -/
def tree : Tree := ⟨g.root, d.directory g⟩

end Disk

theorem chainFrom_congr {g : Geometry} {fat fat' : ℕ → ℕ}
    (h : ∀ n, g.isCluster n = true → fat n = fat' n) (fuel first : ℕ) :
    chainFrom g fat fuel first = chainFrom g fat' fuel first := by
  induction fuel generalizing first with
  | zero => rfl
  | succ fuel ih =>
    rw [chainFrom, chainFrom]
    by_cases hn : g.isCluster first = true
    · rw [if_neg (not_not.mpr hn), if_neg (not_not.mpr hn), h first hn]
      simp only [ih]
    · rw [if_pos hn, if_pos hn]

section Directories

variable {g : Geometry} {d : Disk} {c : Card} {v : Volume}

theorem Depicts.entry_of_isCluster (hd : Depicts g d c v) {n : ℕ} (hn : g.isCluster n = true) :
    v.entry c n = d.entry n :=
  hd.entry (hd.laid.lt_entries hn)

theorem Depicts.chain_eq (hd : Depicts g d c v) (first : ℕ) :
    chainFrom v.toGeometry (v.entry c) v.clusterEnd first = d.chain g first := by
  rw [hd.geometry, Disk.chain]
  exact chainFrom_congr (fun n hn ↦ hd.entry_of_isCluster hn) _ _

theorem Depicts.clusterSlots_eq (hd : Depicts g d c v) (n : ℕ) :
    clusterSlots v.toGeometry c n = clusterSlots g d.area n := by
  rw [clusterSlots, clusterSlots, hd.geometry]
  refine sectorSlots_congr fun i ↦ hd.area _ (.inr ?_)
  exact (g.dataLba_le_clusterLba n).trans (Nat.le_add_right _ _)

theorem Depicts.slots_eq (hd : Depicts g d c v) (first : ℕ) :
    dirSlots c v first = d.slots g first := by
  rw [dirSlots, hd.chain_eq, Disk.slots, funext hd.clusterSlots_eq]

theorem Depicts.directory_eq (hd : Depicts g d c v) (first : ℕ) :
    directoryAt c v first = d.directory g first := by
  rw [directoryAt, hd.slots_eq, hd.chain_eq, Disk.directory]

theorem Depicts.tree_eq (hd : Depicts g d c v) : treeOn c v = d.tree g := by
  rw [treeOn, funext hd.directory_eq, hd.geometry, Disk.tree]

/-- A disk without changes in the cache. -/
theorem Depicts.settled (hd : Depicts g d c v) (hclean : d.dirty = false) : Settled c v where
  laid := hd.sound.laid
  clean := hd.clean hclean
  cached hne := by
    refine ⟨?_, hd.sound.clean (hd.clean hclean) hne⟩
    rw [hd.geometry]
    exact hd.cached hne

theorem Settled.raw_eq (h : Settled c v) {n : ℕ} (hn : n < v.entries) :
    v.raw c n = word (c (v.fatLba + n / 128)) (n % 128 * 4) := by
  have hi := Geometry.Laid.index_lt hn
  rw [Volume.raw, Volume.fatSector]
  by_cases hc : v.fatCached = n / 128
  · have hne : v.fatCached ≠ noSector := by
      have := h.laid.small
      omega
    rw [if_pos hc, (h.cached hne).2, hc]
  · rw [if_neg hc]

/-- The volume has only looked at the card. -/
theorem Depicts.rests (hd : Depicts g d c v) (hclean : d.dirty = false) {v' : Volume}
    (h : Rests c v v') : Depicts g (d.hold v'.buf) c v' where
  sound := h.settled.sound
  geometry := h.geometry.trans hd.geometry
  cached hne := by
    have hlt := (h.settled.cached hne).1
    rwa [h.geometry, hd.geometry] at hlt
  fat n hn := by
    have hs := hd.settled hclean
    rw [h.settled.raw_eq (by rwa [h.geometry, hd.geometry]), h.geometry,
      ← hs.raw_eq (by rwa [hd.geometry])]
    exact hd.fat n hn
  area := hd.area
  buf := rfl
  clean _ := h.settled.clean
  hint := by
    rw [h.nextFree]
    exact hd.hint

/-- The method leaves all but the buffer, and returns `r`. -/
abbrev Looks (g : Geometry) (m : Vol α) (d : Disk) (r : Except FatError α) : Prop :=
  Disk.Ends g m d fun x d' ↦ x = r ∧ ∃ b, d' = d.hold b

/-- A method that is known to look only, and of which it is known what it returns. -/
theorem looks_of_stays {m : Vol α} {r : Except FatError α} (hclean : d.dirty = false)
    (hstays : ∀ {c v}, Settled c v → ∃ r', Stays c v m r')
    (hpeeks : ∀ {c v}, Depicts g d c v → Peeks c v m r) : Looks g m d r := by
  intro c v hd
  obtain ⟨r', v', hrun, hrest⟩ := hstays (hd.settled hclean)
  have hr := ((hpeeks hd).of_run hrun).1
  exact ⟨r', v', [], d.hold v'.buf, hrun, hd.rests hclean hrest, hr.symm, v'.buf, rfl⟩

/-- **`find_entry` finds what the tree has.** -/
theorem looks_findEntry (hclean : d.dirty = false) (dir : DirEntry) (p : DirEntry → Bool) :
    Looks g (Vol.findEntry dir p) d ((d.tree g).find dir fun e _ ↦ p e) := by
  refine looks_of_stays hclean (fun h ↦ stays_findEntry h dir p) fun hd ↦ ?_
  rw [← hd.tree_eq]
  exact peeks_find_tree hd.sound dir p

theorem stays_visitSlots {f : σ → ℕ → ℕ → (ℕ → Byte) → Bool × σ} (h : Settled c v) (first : ℕ)
    (st : σ) : ∃ r, Stays c v (Vol.visitSlots first f st) r :=
  (stays_gets h id).bind_some fun w _ _ h₁ ↦ stays_visitClusters h₁.settled w.clusterEnd first st

/-- `walk_slots` goes through the slots of the directory. -/
theorem looks_visitSlots {f : σ → ℕ → ℕ → (ℕ → Byte) → Bool × σ} (hclean : d.dirty = false)
    (first : ℕ) (st : σ) : Looks g (Vol.visitSlots first f st) d
      (.ok (walkChain f g d.area (d.chain g first) st)) := by
  refine looks_of_stays hclean (fun h ↦ stays_visitSlots h first st) fun {c v} hd ↦ ?_
  have hwalk := peeks_visitSlots (f := f) hd.sound first st
  rw [hd.chain_eq] at hwalk
  have hslots : walkChain f v.toGeometry c (d.chain g first) st =
      walkChain f g d.area (d.chain g first) st := by
    rw [walkChain, walkChain, funext hd.clusterSlots_eq]
  rwa [hslots] at hwalk

theorem nextFree_beginChange (c : Card) (v : Volume) :
    (onCard (Vol.beginChange v) c).1.2.nextFree = v.nextFree := by
  by_cases hdone : v.fsinfoDone = true
  · simp [Vol.beginChange, Vol.gets, bind, Vol.bind, Prog.bind, pure, onCard, hdone]
  by_cases hrange : v.fsinfoLba ≤ v.partLba ∨ v.fatLba ≤ v.fsinfoLba
  · simp [Vol.beginChange, Vol.gets, Vol.modify, bind, Vol.bind, Prog.bind, pure, onCard, hdone,
      hrange]
  by_cases hsig : le32 (c v.fsinfoLba) 0 ≠ fsinfoLead ∨ le32 (c v.fsinfoLba) 484 ≠ fsinfoStruct
  · simp [Vol.beginChange, Vol.gets, Vol.modify, Vol.readBuf, Vol.read, bind, Vol.bind, Prog.bind,
      pure, onCard, hdone, hrange, hsig]
  · simp [Vol.beginChange, Vol.gets, Vol.modify, Vol.readBuf, Vol.read, Vol.writeBuf, Vol.write,
      bind, Vol.bind, Prog.bind, pure, onCard, hdone, hrange, hsig]

/-- The disk with another FSInfo sector, as `begin_change` may leave it. -/
def Disk.Counts (g : Geometry) (d d' : Disk) : Prop :=
  ∃ area b, OnlyCounts g d.area area ∧ d' = { d with area := area, buf := b }

theorem ends_beginChange (hclean : d.dirty = false) :
    Disk.Ends g Vol.beginChange d fun r d' ↦ r = .ok () ∧ d.Counts g d' := by
  intro c v hd
  obtain ⟨v', ws, hrun, hgeo, hset, hcounts⟩ := onCard_beginChange (hd.settled hclean)
  rw [hd.geometry] at hcounts hgeo
  have hnext := nextFree_beginChange c v
  rw [hrun] at hnext
  change v'.nextFree = v.nextFree at hnext
  -- outside the sectors before the FAT nothing has changed
  refine ⟨.ok (), v', ws,
    { d with area := fun l ↦ if l < g.fatLba then c.after ws l else d.area l, buf := v'.buf }, hrun,
    ⟨hset.sound, hgeo, fun hne ↦ ?_, fun n hn ↦ ?_, fun l hl ↦ ?_, rfl, fun _ ↦ hset.clean,
      hnext ▸ hd.hint⟩, rfl, _, _, fun l j hne ↦ ?_, rfl⟩
  · have hlt := (hset.cached hne).1
    rwa [hgeo] at hlt
  · rw [hset.raw_eq (by rwa [hgeo]), hgeo, hcounts.eq (Nat.le_add_right _ _), ← hd.fat n hn,
      (hd.settled hclean).raw_eq (by rwa [hd.geometry]), hd.geometry]
  · change c.after ws l = if l < g.fatLba then c.after ws l else d.area l
    split
    · rfl
    · rename_i hlt
      rw [hcounts.eq (not_lt.mp hlt)]
      exact hd.area l hl
  · split at hne
    · rename_i hlt
      rw [← hd.area l (.inl hlt)] at hne
      exact hcounts l j hne
    · exact absurd rfl hne

end Directories

end Vux9k

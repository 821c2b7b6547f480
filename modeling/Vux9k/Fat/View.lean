import Vux9k.Fat.Card

/-!
# The FAT through the cache

The FAT is what the volume sees of it: the cached sector, and the card's for the others.  The card's
own copy of the cached sector may be old, so a method that only asks for FAT entries may still write
to the card, when it needs the cache for another sector.  It leaves what the volume sees as it was:
`Peeks c v m r` says that `m` returns `r` on a card that works and changes nothing that can be seen.
-/

set_option autoImplicit false

namespace Vux9k

variable {α β σ : Type} {c c' c'' : Card} {v v' v'' : Volume}

/-! ## Writes -/

theorem Card.after_append (c : Card) (ws ws' : List Wr) :
    c.after (ws ++ ws') = (c.after ws).after ws' := by
  induction ws generalizing c with
  | nil => rfl
  | cons w ws ih => exact ih _

theorem Card.after_of_forall_ne {ws : List Wr} {lba : ℕ} (h : ∀ w ∈ ws, w.1 ≠ lba) :
    c.after ws lba = c lba := by
  induction ws generalizing c with
  | nil => rfl
  | cons w ws ih =>
    rw [Card.after, ih fun w' hw' ↦ h w' (List.mem_cons_of_mem w hw')]
    exact Function.update_of_ne (h w List.mem_cons_self).symm _ _

/-- A method and what follows it, when the method succeeds. -/
theorem onCard_bind_ok {m : Vol α} {f : α → Vol β} {a : α} {ws ws' : List Wr}
    {x : Except FatError β × Volume} (hm : onCard (m v) c = ((.ok a, v'), ws))
    (hf : onCard (f a v') (c.after ws) = (x, ws')) :
    onCard ((m >>= f) v) c = (x, ws ++ ws') := by
  change onCard (m v >>= _) c = _
  rw [onCard_bind, hm]
  simp only [hf]

theorem onCard_bind_error {m : Vol α} {f : α → Vol β} {e : FatError} {ws : List Wr}
    (hm : onCard (m v) c = ((.error e, v'), ws)) :
    onCard ((m >>= f) v) c = ((.error e, v'), ws) := by
  change onCard (m v >>= _) c = _
  rw [onCard_bind, hm]
  simp [onCard]

/-! ## What the volume sees -/

/-- What `mount` has checked: an entry in the FAT for every cluster, and the data behind every copy
of the FAT. -/
structure Geometry.Laid (g : Geometry) : Prop extends Geometry.Ok g where
  fats : g.numFats = 1 ∨ g.numFats = 2
  entries : g.clusterEnd ≤ g.fatSectors * 128
  small : g.fatSectors ≤ noSector
  data : g.fatLba + g.numFats * g.fatSectors ≤ g.dataLba

/-- FAT sector `i`. -/
def Volume.fatSector (v : Volume) (c : Card) (i : ℕ) : Sector :=
  if v.fatCached = i then v.fatBuf else c (v.fatLba + i)

/-- Cluster `n`'s entry. -/
def Volume.entry (v : Volume) (c : Card) (n : ℕ) : ℕ := Vol.entryIn (v.fatSector c (n / 128)) n

/-- The cached sector is the card's, unless it has changed. -/
structure Sound (c : Card) (v : Volume) : Prop where
  laid : v.toGeometry.Laid
  clean : v.fatDirty = false → v.fatCached ≠ noSector → v.fatBuf = c (v.fatLba + v.fatCached)
  dirty : v.fatDirty = true → v.fatCached < v.fatSectors

/-- Nothing that can be seen has changed. -/
structure Same (c : Card) (v : Volume) (c' : Card) (v' : Volume) : Prop where
  sound : Sound c' v'
  geometry : v'.toGeometry = v.toGeometry
  nextFree : v'.nextFree = v.nextFree
  fsinfoDone : v'.fsinfoDone = v.fsinfoDone
  fat : ∀ i < v.fatSectors, v'.fatSector c' i = v.fatSector c i
  rest : ∀ lba, lba < v.fatLba ∨ v.dataLba ≤ lba → c' lba = c lba

theorem Same.refl (h : Sound c v) : Same c v c v :=
  ⟨h, rfl, rfl, rfl, fun _ _ ↦ rfl, fun _ _ ↦ rfl⟩

theorem Same.trans (h : Same c v c' v') (h' : Same c' v' c'' v'') : Same c v c'' v'' where
  sound := h'.sound
  geometry := h'.geometry.trans h.geometry
  nextFree := h'.nextFree.trans h.nextFree
  fsinfoDone := h'.fsinfoDone.trans h.fsinfoDone
  fat i hi := (h'.fat i (by rwa [h.geometry])).trans (h.fat i hi)
  rest lba hlba := (h'.rest lba (by rwa [h.geometry])).trans (h.rest lba hlba)

/-- The method returns `r`, and changes nothing that can be seen. -/
def Peeks (c : Card) (v : Volume) (m : Vol α) (r : Except FatError α) : Prop :=
  ∃ v' ws, onCard (m v) c = ((r, v'), ws) ∧ Same c v (c.after ws) v'

theorem Peeks.bind {m : Vol α} {a : α} {f : α → Vol β} {r : Except FatError β}
    (hm : Peeks c v m (.ok a)) (hf : ∀ c' v', Same c v c' v' → Peeks c' v' (f a) r) :
    Peeks c v (m >>= f) r := by
  obtain ⟨v', ws, hm, hv'⟩ := hm
  obtain ⟨v'', ws', hf, hv''⟩ := hf _ v' hv'
  refine ⟨v'', ws ++ ws', onCard_bind_ok hm hf, ?_⟩
  rw [Card.after_append]
  exact hv'.trans hv''

theorem Peeks.bind_error {m : Vol α} {e : FatError} {f : α → Vol β}
    (hm : Peeks c v m (.error e)) : Peeks c v (m >>= f) (.error e) := by
  obtain ⟨v', ws, hm, hv'⟩ := hm
  exact ⟨v', ws, onCard_bind_error hm, hv'⟩

theorem Peeks.attempt {m : Vol α} {r : Except FatError α} (hm : Peeks c v m r) :
    Peeks c v (Vol.attempt m) (.ok r) := by
  obtain ⟨v', ws, hm, hv'⟩ := hm
  refine ⟨v', ws, ?_, hv'⟩
  rw [Vol.attempt, onCard_bind, hm]
  simp [onCard]

theorem peeks_pure (h : Sound c v) (a : α) : Peeks c v (pure a : Vol α) (.ok a) :=
  ⟨v, [], rfl, .refl h⟩

theorem peeks_throw (h : Sound c v) (e : FatError) :
    Peeks c v (Vol.throw e : Vol α) (.error e) :=
  ⟨v, [], rfl, .refl h⟩

theorem peeks_gets (h : Sound c v) (f : Volume → α) : Peeks c v (Vol.gets f) (.ok (f v)) :=
  ⟨v, [], rfl, .refl h⟩

theorem peeks_readBuf (h : Sound c v) (lba : ℕ) : Peeks c v (Vol.readBuf lba) (.ok (c lba)) :=
  ⟨{ v with buf := c lba }, [], rfl, ⟨h.laid, h.clean, h.dirty⟩, rfl, rfl, rfl, fun _ _ ↦ rfl,
    fun _ _ ↦ rfl⟩

/-! ## The cache -/

/-- What `flush_fat` writes. -/
def Volume.flushed (v : Volume) : List Wr :=
  if v.fatDirty then
    (v.fatLba + v.fatCached, v.fatBuf) ::
      if v.numFats = 2 then [(v.fatLba + v.fatSectors + v.fatCached, v.fatBuf)] else []
  else []

theorem onCard_flushFat (c : Card) (v : Volume) :
    onCard (Vol.flushFat v) c = ((.ok (), { v with fatDirty := false }), v.flushed) := by
  by_cases hd : v.fatDirty = true
  · by_cases h2 : v.numFats = 2
    · simp [Vol.flushFat, Vol.writeFat, Vol.write, Vol.gets, Vol.modify, bind, Vol.bind, Prog.bind,
        onCard, Volume.flushed, hd, h2]
    · simp [Vol.flushFat, Vol.writeFat, Vol.write, Vol.gets, Vol.modify, bind, Vol.bind, Prog.bind,
        pure, onCard, Volume.flushed, hd, h2]
  · have hf : v.fatDirty = false := Bool.eq_false_of_not_eq_true hd
    have hv : { v with fatDirty := false } = v := by rw [← hf]
    simp [Vol.flushFat, Vol.gets, bind, Vol.bind, Prog.bind, pure, onCard, Volume.flushed, hf, hv]

theorem Volume.mem_flushed {w : Wr} (hw : w ∈ v.flushed) :
    v.fatDirty = true ∧ w.2 = v.fatBuf ∧ (w.1 = v.fatLba + v.fatCached ∨
      v.numFats = 2 ∧ w.1 = v.fatLba + v.fatSectors + v.fatCached) := by
  rw [Volume.flushed] at hw
  by_cases hd : v.fatDirty = true
  swap
  · rw [if_neg hd] at hw
    cases hw
  rw [if_pos hd] at hw
  by_cases h2 : v.numFats = 2
  · rw [if_pos h2, List.mem_cons, List.mem_singleton] at hw
    rcases hw with rfl | rfl
    · exact ⟨hd, rfl, .inl rfl⟩
    · exact ⟨hd, rfl, .inr ⟨h2, rfl⟩⟩
  · rw [if_neg h2, List.mem_singleton] at hw
    exact ⟨hd, hw ▸ rfl, .inl (hw ▸ rfl)⟩

/-- A flush writes to the FAT only. -/
theorem Sound.flushed_rest (h : Sound c v) {lba : ℕ} (hlba : lba < v.fatLba ∨ v.dataLba ≤ lba) :
    c.after v.flushed lba = c lba := by
  refine Card.after_of_forall_ne fun w hw ↦ ?_
  obtain ⟨hd, -, hw⟩ := Volume.mem_flushed hw
  have hc := h.dirty hd
  have hdata := h.laid.data
  rcases hw with hw | ⟨h2, hw⟩
  · rcases h.laid.fats with hn | hn <;> rw [hn] at hdata <;> omega
  · rw [h2] at hdata
    omega

/-- The other sectors of the first copy stay. -/
theorem Sound.flushed_other (h : Sound c v) {i : ℕ} (hi : i < v.fatSectors)
    (hne : v.fatCached ≠ i) :
    c.after v.flushed (v.fatLba + i) = c (v.fatLba + i) := by
  refine Card.after_of_forall_ne fun w hw ↦ ?_
  obtain ⟨hd, -, hw⟩ := Volume.mem_flushed hw
  have hc := h.dirty hd
  rcases hw with hw | ⟨-, hw⟩ <;> omega

/-- The cached sector is on the card. -/
theorem Sound.flushed_cached (h : Sound c v) (hne : v.fatCached ≠ noSector) :
    c.after v.flushed (v.fatLba + v.fatCached) = v.fatBuf := by
  by_cases hd : v.fatDirty = true
  · have hc := h.dirty hd
    rw [Volume.flushed, if_pos hd, Card.after, Card.after_of_forall_ne, Function.update_self]
    intro w hw
    by_cases h2 : v.numFats = 2
    · rw [if_pos h2, List.mem_singleton] at hw
      rw [hw]
      dsimp only
      omega
    · rw [if_neg h2] at hw
      cases hw
  · rw [Volume.flushed, if_neg hd]
    exact (h.clean (Bool.eq_false_of_not_eq_true hd) hne).symm

theorem Sound.same_flush (h : Sound c v) :
    Same c v (c.after v.flushed) { v with fatDirty := false } where
  sound := ⟨h.laid, fun _ hne ↦ (h.flushed_cached hne).symm, nofun⟩
  geometry := rfl
  nextFree := rfl
  fsinfoDone := rfl
  fat i hi := by
    by_cases hc : v.fatCached = i
    · rw [Volume.fatSector, Volume.fatSector, if_pos hc, if_pos hc]
    · rw [Volume.fatSector, Volume.fatSector, if_neg hc, if_neg hc]
      exact h.flushed_other hi hc
  rest lba hlba := h.flushed_rest hlba

/-- The volume with FAT sector `i` in its cache. -/
def Volume.loaded (v : Volume) (c : Card) (i : ℕ) : Volume :=
  if v.fatCached = i then v
  else { v with fatDirty := false, fatCached := i, fatBuf := c.after v.flushed (v.fatLba + i) }

/-- What `load_fat` writes. -/
def Volume.evicted (v : Volume) (i : ℕ) : List Wr := if v.fatCached = i then [] else v.flushed

theorem onCard_loadFat (c : Card) (v : Volume) (i : ℕ) :
    onCard (Vol.loadFat i v) c = ((.ok (), v.loaded c i), v.evicted i) := by
  by_cases hc : v.fatCached = i
  · simp [Vol.loadFat, Vol.gets, bind, Vol.bind, Prog.bind, pure, onCard, Volume.loaded,
      Volume.evicted, hc]
  · rw [Volume.loaded, Volume.evicted, if_neg hc, if_neg hc]
    change onCard ((if v.fatCached ≠ i then _ else _ : Vol Unit) v) c = _
    rw [if_pos hc]
    refine (onCard_bind_ok (onCard_flushFat c v) rfl).trans ?_
    exact congrArg (Prod.mk _) (List.append_nil v.flushed)

theorem Sound.fatSector_loaded (h : Sound c v) {i : ℕ} (hi : i < v.fatSectors) :
    (v.loaded c i).fatCached = i ∧ (v.loaded c i).fatBuf = v.fatSector c i := by
  by_cases hc : v.fatCached = i
  · rw [Volume.loaded, Volume.fatSector, if_pos hc, if_pos hc]
    exact ⟨hc, rfl⟩
  · rw [Volume.loaded, Volume.fatSector, if_neg hc, if_neg hc]
    exact ⟨rfl, h.flushed_other hi hc⟩

theorem Sound.same_load (h : Sound c v) {i : ℕ} (hi : i < v.fatSectors) :
    Same c v (c.after (v.evicted i)) (v.loaded c i) := by
  by_cases hc : v.fatCached = i
  · rw [Volume.loaded, Volume.evicted, if_pos hc, if_pos hc]
    exact .refl h
  have hload := h.fatSector_loaded hi
  rw [Volume.loaded, if_neg hc] at hload
  rw [Volume.loaded, Volume.evicted, if_neg hc, if_neg hc]
  refine ⟨⟨h.laid, fun _ _ ↦ rfl, nofun⟩, rfl, rfl, rfl, fun j hj ↦ ?_, fun lba ↦ h.flushed_rest⟩
  by_cases hji : i = j
  · subst hji
    rw [Volume.fatSector, if_pos rfl]
    exact hload.2
  · rw [Volume.fatSector, if_neg hji]
    -- the sector that was cached is on the card now
    by_cases hcj : v.fatCached = j
    · have hne : v.fatCached ≠ noSector := by
        have := h.laid.small
        omega
      rw [Volume.fatSector, if_pos hcj, ← h.flushed_cached hne, hcj]
    · rw [Volume.fatSector, if_neg hcj]
      exact h.flushed_other hj hcj

/-! ## Entries -/

theorem Geometry.Laid.sector_lt {g : Geometry} (hg : g.Laid) {n : ℕ} (hn : n < g.clusterEnd) :
    n / 128 < g.fatSectors := by
  have := hg.entries
  omega

theorem peeks_fatEntry (h : Sound c v) {n : ℕ} (hn : n < v.clusterEnd) :
    Peeks c v (Vol.fatEntry n) (.ok (v.entry c n)) := by
  have hi := h.laid.sector_lt hn
  refine ⟨v.loaded c (n / 128), v.evicted (n / 128), ?_, h.same_load hi⟩
  rw [← List.append_nil (v.evicted (n / 128)), Volume.entry, ← (h.fatSector_loaded hi).2]
  exact onCard_bind_ok (onCard_loadFat c v (n / 128)) rfl

theorem Same.entry_eq (h : Same c v c' v') (hg : v.toGeometry.Laid) {n : ℕ}
    (hn : n < v.clusterEnd) :
    v'.entry c' n = v.entry c n := by
  rw [Volume.entry, Volume.entry, h.fat _ (hg.sector_lt hn)]

/-- What `next_cluster` makes of an entry. -/
def Geometry.nextOf (g : Geometry) (n e : ℕ) : Except FatError (Option ℕ) :=
  if eocMin ≤ e then .ok none else if g.isCluster e then .ok (some e) else .error (.badChain n)

theorem peeks_nextCluster (h : Sound c v) {n : ℕ} (hn : n < v.clusterEnd) :
    Peeks c v (Vol.nextCluster n) (v.nextOf n (v.entry c n)) := by
  refine (peeks_fatEntry h hn).bind fun c₁ v₁ h₁ ↦ (peeks_gets h₁.sound id).bind fun c₂ v₂ h₂ ↦ ?_
  rw [Geometry.nextOf, id, h₁.geometry]
  by_cases he : eocMin ≤ v.entry c n
  · rw [if_pos he, if_pos he]
    exact peeks_pure h₂.sound none
  rw [if_neg he, if_neg he]
  by_cases hc : v.isCluster (v.entry c n) = true
  · rw [if_pos hc, if_pos hc]
    exact peeks_pure h₂.sound _
  · rw [if_neg hc, if_neg hc]
    exact peeks_throw h₂.sound _

end Vux9k

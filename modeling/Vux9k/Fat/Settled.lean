import Vux9k.Fat.Paths

/-!
# With a clean cache

A volume is settled when its cache holds a sector of the FAT as it is on the card, or none.  Then a
method that only looks does not write at all (`Stays`), and `begin_change` is the one place where
the FSInfo sector is written: of that sector the two counts, and of the others nothing.
-/

set_option autoImplicit false

namespace Vux9k

open Vol (Slot)

variable {α β σ : Type} {c : Card} {v v' v'' : Volume}

/-- The cache holds nothing, or a sector of the FAT that has not been changed. -/
structure Settled (c : Card) (v : Volume) : Prop where
  laid : v.toGeometry.Laid
  clean : v.fatDirty = false
  cached : v.fatCached ≠ noSector →
    v.fatCached < v.fatSectors ∧ v.fatBuf = c (v.fatLba + v.fatCached)

/-- The volume has looked at the card, and is settled. -/
structure Rests (c : Card) (v v' : Volume) : Prop where
  settled : Settled c v'
  geometry : v'.toGeometry = v.toGeometry
  nextFree : v'.nextFree = v.nextFree
  fsinfoDone : v'.fsinfoDone = v.fsinfoDone

/-- The method writes nothing and returns `r`. -/
def Stays (c : Card) (v : Volume) (m : Vol α) (r : Except FatError α) : Prop :=
  ∃ v', onCard (m v) c = ((r, v'), []) ∧ Rests c v v'

theorem Settled.sound (h : Settled c v) : Sound c v where
  laid := h.laid
  clean _ hne := (h.cached hne).2
  dirty hd := absurd (h.clean.symm.trans hd) (by simp)

theorem Rests.refl (h : Settled c v) : Rests c v v := ⟨h, rfl, rfl, rfl⟩

theorem Rests.trans (h : Rests c v v') (h' : Rests c v' v'') : Rests c v v'' :=
  ⟨h'.settled, h'.geometry.trans h.geometry, h'.nextFree.trans h.nextFree,
    h'.fsinfoDone.trans h.fsinfoDone⟩

theorem Stays.bind {m : Vol α} {a : α} {f : α → Vol β} {r : Except FatError β}
    (hm : Stays c v m (.ok a)) (hf : ∀ v', Rests c v v' → Stays c v' (f a) r) :
    Stays c v (m >>= f) r := by
  obtain ⟨v', hm, hv'⟩ := hm
  obtain ⟨v'', hf, hv''⟩ := hf v' hv'
  exact ⟨v'', onCard_bind_ok hm hf, hv'.trans hv''⟩

theorem Stays.bind_error {m : Vol α} {e : FatError} {f : α → Vol β}
    (hm : Stays c v m (.error e)) : Stays c v (m >>= f) (.error e) := by
  obtain ⟨v', hm, hv'⟩ := hm
  exact ⟨v', onCard_bind_error hm, hv'⟩

/-- The same when it does not matter what is returned. -/
theorem Stays.bind_some {m : Vol α} {r : Except FatError α} {f : α → Vol β} (hm : Stays c v m r)
    (hf : ∀ a v', r = .ok a → Rests c v v' → ∃ r', Stays c v' (f a) r') :
    ∃ r', Stays c v (m >>= f) r' := by
  cases r with
  | error e => exact ⟨_, hm.bind_error⟩
  | ok a =>
    obtain ⟨v', hm, hv'⟩ := hm
    obtain ⟨r', v'', hf, hv''⟩ := hf a v' rfl hv'
    exact ⟨r', v'', onCard_bind_ok hm hf, hv'.trans hv''⟩

theorem Stays.attempt {m : Vol α} {r : Except FatError α} (hm : Stays c v m r) :
    Stays c v (Vol.attempt m) (.ok r) := by
  obtain ⟨v', hm, hv'⟩ := hm
  refine ⟨v', ?_, hv'⟩
  rw [Vol.attempt, onCard_bind, hm]
  rfl

theorem stays_pure (h : Settled c v) (a : α) : Stays c v (pure a : Vol α) (.ok a) :=
  ⟨v, rfl, .refl h⟩

theorem stays_throw (h : Settled c v) (e : FatError) :
    Stays c v (Vol.throw e : Vol α) (.error e) :=
  ⟨v, rfl, .refl h⟩

theorem stays_gets (h : Settled c v) (f : Volume → α) : Stays c v (Vol.gets f) (.ok (f v)) :=
  ⟨v, rfl, .refl h⟩

theorem stays_readBuf (h : Settled c v) (lba : ℕ) : Stays c v (Vol.readBuf lba) (.ok (c lba)) :=
  ⟨{ v with buf := c lba }, rfl, ⟨h.laid, h.clean, h.cached⟩, rfl, rfl, rfl⟩

/-! ## The FAT -/

theorem Settled.flushed_eq (h : Settled c v) : v.flushed = [] := by
  rw [Volume.flushed, if_neg (by rw [h.clean]; simp)]

/-- A settled volume sees the card's FAT. -/
theorem Settled.entry_eq (h : Settled c v) {n : ℕ} (hn : n < v.clusterEnd) :
    v.entry c n = fatAt v.toGeometry c n := by
  have hi := h.laid.sector_lt hn
  rw [Volume.entry, Volume.fatSector, fatAt]
  by_cases hc : v.fatCached = n / 128
  · have hne : v.fatCached ≠ noSector := by
      have := h.laid.small
      omega
    rw [if_pos hc, (h.cached hne).2, hc]
  · rw [if_neg hc]

theorem Settled.loaded (h : Settled c v) {i : ℕ} (hi : i < v.fatSectors) :
    Rests c v (v.loaded c i) := by
  by_cases hc : v.fatCached = i
  · rw [Volume.loaded, if_pos hc]
    exact .refl h
  · rw [Volume.loaded, if_neg hc, h.flushed_eq]
    exact ⟨⟨h.laid, rfl, fun _ ↦ ⟨hi, rfl⟩⟩, rfl, rfl, rfl⟩

theorem stays_fatEntry (h : Settled c v) {n : ℕ} (hn : n < v.clusterEnd) :
    Stays c v (Vol.fatEntry n) (.ok (fatAt v.toGeometry c n)) := by
  have hi := h.laid.sector_lt hn
  refine ⟨v.loaded c (n / 128), ?_, h.loaded hi⟩
  have hnone : v.evicted (n / 128) = [] := by
    rw [Volume.evicted, h.flushed_eq, ite_self]
  have hload := onCard_loadFat c v (n / 128)
  rw [hnone] at hload
  rw [← h.entry_eq hn, Volume.entry, ← (h.sound.fatSector_loaded hi).2]
  exact onCard_bind_ok hload rfl

theorem stays_nextCluster (h : Settled c v) {n : ℕ} (hn : n < v.clusterEnd) :
    Stays c v (Vol.nextCluster n) (v.nextOf n (fatAt v.toGeometry c n)) := by
  refine (stays_fatEntry h hn).bind fun v₁ h₁ ↦ (stays_gets h₁.settled id).bind fun v₂ h₂ ↦ ?_
  rw [Geometry.nextOf, id, h₁.geometry]
  by_cases he : eocMin ≤ fatAt v.toGeometry c n
  · rw [if_pos he, if_pos he]
    exact stays_pure h₂.settled none
  rw [if_neg he, if_neg he]
  by_cases hc : v.isCluster (fatAt v.toGeometry c n) = true
  · rw [if_pos hc, if_pos hc]
    exact stays_pure h₂.settled _
  · rw [if_neg hc, if_neg hc]
    exact stays_throw h₂.settled _

/-! ## The walk -/

variable {f : σ → ℕ → ℕ → (ℕ → Byte) → Bool × σ}

theorem stays_visitSectors (h : Settled c v) (lba n s : ℕ) (st : σ) :
    ∃ r, Stays c v (Vol.visitSectors f lba n s st) r := by
  induction n generalizing v s st with
  | zero => exact ⟨_, stays_pure h _⟩
  | succ n ih =>
    refine (stays_readBuf h (lba + s)).attempt.bind_some fun buf v₁ _ h₁ ↦ ?_
    cases buf with
    | error e => exact ⟨_, stays_pure h₁.settled _⟩
    | ok buf =>
      dsimp only
      rcases Vol.scanSlots f buf (lba + s) slotsPerSector 0 st with ⟨_ | i, st'⟩
      · exact ih h₁.settled (s + 1) st'
      · exact ⟨_, stays_pure h₁.settled _⟩

theorem stays_visitClusters (h : Settled c v) (fuel n : ℕ) (st : σ) :
    ∃ r, Stays c v (Vol.visitClusters f fuel n st) r := by
  induction fuel generalizing v n st with
  | zero => exact ⟨_, stays_pure h _⟩
  | succ fuel ih =>
    refine (stays_gets h id).bind_some fun w v₁ hw h₁ ↦ ?_
    cases hw
    by_cases hn : v.isCluster n = true
    swap
    · rw [id, if_pos hn]
      exact ⟨_, stays_pure h₁.settled _⟩
    have hlt : n < v.clusterEnd := (h.laid.toOk.lt_eoc hn).2.1
    rw [id, if_neg (not_not.mpr hn)]
    obtain ⟨r, hsectors⟩ := stays_visitSectors (f := f) h₁.settled (v.clusterLba n)
      v.clusterSectors 0 st
    refine hsectors.bind_some fun a v₂ _ h₂ ↦ ?_
    have h₂ := h₁.trans h₂
    obtain ⟨stop, st'⟩ := a
    rcases stop with e | _ | slot
    · exact ⟨_, stays_pure h₂.settled _⟩
    · have hnext := stays_nextCluster h₂.settled (n := n) (by rwa [h₂.geometry])
      refine hnext.attempt.bind_some fun next v₃ _ h₃ ↦ ?_
      rcases next with e | _ | next
      · exact ⟨_, stays_pure h₃.settled _⟩
      · exact ⟨_, stays_pure h₃.settled _⟩
      · exact ih h₃.settled next st'
    · exact ⟨_, stays_pure h₂.settled _⟩

theorem stays_findEntry (h : Settled c v) (dir : DirEntry) (p : DirEntry → Bool) :
    ∃ r, Stays c v (Vol.findEntry dir p) r := by
  rw [Vol.findEntry]
  by_cases hdir : dir.isDir = true
  swap
  · rw [if_pos hdir]
    exact ⟨_, stays_throw h _⟩
  rw [if_neg (not_not.mpr hdir), Vol.walkSlots_eq, Vol.bind_assoc, Vol.visitSlots, Vol.bind_assoc]
  refine (stays_gets h id).bind_some fun w v₁ _ h₁ ↦ ?_
  obtain ⟨r, hwalk⟩ := stays_visitClusters (f := Vol.searchSlot p) h₁.settled w.clusterEnd
    dir.cluster ⟨none, none⟩
  refine hwalk.bind_some fun a v₂ _ h₂ ↦ ?_
  obtain ⟨stop, st⟩ := a
  cases stop with
  | error e => exact ⟨_, (stays_throw h₂.settled e).bind_error⟩
  | ok slot => exact ⟨_, stays_pure h₂.settled st.found⟩

theorem stays_list {τ : Type} (h : Settled c v) (dir : DirEntry)
    (f : τ → DirEntry → Option (List Byte) → Bool × τ) (seen : τ) :
    ∃ r, Stays c v (Vol.list dir f seen) r := by
  rw [Vol.list]
  by_cases hdir : dir.isDir = true
  swap
  · rw [if_pos hdir]
    exact ⟨_, stays_pure h _⟩
  rw [if_neg (not_not.mpr hdir), Vol.visitSlots, Vol.bind_assoc]
  refine (stays_gets h id).bind_some fun w v₁ _ h₁ ↦ ?_
  obtain ⟨r, hwalk⟩ := stays_visitClusters (f := Vol.listSlot f) h₁.settled w.clusterEnd
    dir.cluster (Vol.Listing.start seen)
  refine hwalk.bind_some fun a v₂ _ h₂ ↦ ?_
  obtain ⟨stop, st⟩ := a
  cases stop with
  | error e => exact ⟨_, stays_pure h₂.settled _⟩
  | ok slot => exact ⟨_, stays_pure h₂.settled _⟩

theorem stays_lookupLong (h : Settled c v) (dir : DirEntry) (part : List Byte) :
    ∃ r, Stays c v (Vol.lookupLong dir part) r := by
  obtain ⟨r, hlist⟩ := stays_list h dir (fun _ _ long ↦ (Vol.longMatches part long, ())) ()
  refine hlist.bind_some fun a v₁ _ h₁ ↦ ?_
  obtain ⟨e | _ | d, -⟩ := a
  · exact ⟨_, stays_throw h₁.settled _⟩
  · exact ⟨_, stays_throw h₁.settled _⟩
  · exact ⟨_, stays_pure h₁.settled _⟩

theorem stays_lookup (h : Settled c v) (dir : DirEntry) (part : List Byte) :
    ∃ r, Stays c v (Vol.lookup dir part) r := by
  rw [Vol.lookup]
  cases shortName part with
  | none => exact stays_lookupLong h dir part
  | some short =>
    obtain ⟨r, hfind⟩ := stays_findEntry h dir fun e ↦ e.name = short
    refine hfind.bind_some fun d v₁ _ h₁ ↦ ?_
    cases d with
    | none => exact stays_lookupLong h₁.settled dir part
    | some d => exact ⟨_, stays_pure h₁.settled d⟩

theorem stays_dotDot (h : Settled c v) (dir : DirEntry) : ∃ r, Stays c v (Vol.dotDot dir) r := by
  refine (stays_gets h id).bind_some fun w v₁ _ h₁ ↦ ?_
  by_cases hroot : dir.cluster = w.root
  · rw [if_pos hroot]
    exact ⟨_, stays_pure h₁.settled _⟩
  rw [if_neg hroot]
  obtain ⟨r, hfind⟩ := stays_findEntry h₁.settled dir fun e ↦ e.name = dotDot
  refine hfind.bind_some fun up v₂ _ h₂ ↦ ?_
  cases up with
  | none => exact ⟨_, stays_throw h₂.settled _⟩
  | some up => exact ⟨_, stays_pure h₂.settled _⟩

theorem stays_parent (h : Settled c v) (dir : DirEntry) : ∃ r, Stays c v (Vol.parent dir) r := by
  refine (stays_gets h id).bind_some fun w v₁ _ h₁ ↦ ?_
  obtain ⟨r, hup⟩ := stays_dotDot h₁.settled dir
  refine hup.bind_some fun up v₂ _ h₂ ↦ ?_
  cases up with
  | none => exact ⟨_, stays_pure h₂.settled _⟩
  | some up =>
    obtain ⟨r, habove⟩ := stays_dotDot h₂.settled up
    refine habove.bind_some fun above v₃ _ h₃ ↦ ?_
    obtain ⟨r, hfind⟩ := stays_findEntry h₃.settled (above.getD (.root w.root))
      (Vol.isEntryOf up.cluster)
    refine hfind.bind_some fun e v₄ _ h₄ ↦ ?_
    cases e with
    | none => exact ⟨_, stays_throw h₄.settled _⟩
    | some e => exact ⟨_, stays_pure h₄.settled e⟩

theorem stays_resolveParts (h : Settled c v) (parts : List (List Byte)) (d : DirEntry) :
    ∃ r, Stays c v (Vol.resolveParts parts d) r := by
  induction parts generalizing v d with
  | nil => exact ⟨_, stays_pure h d⟩
  | cons part parts ih =>
    rw [Vol.resolveParts]
    by_cases hempty : part = []
    · rw [if_pos hempty]
      exact ih h d
    rw [if_neg hempty]
    by_cases hdir : d.isDir = true
    swap
    · rw [if_pos hdir]
      exact ⟨_, stays_throw h _⟩
    rw [if_neg (not_not.mpr hdir)]
    have henter : ∃ r, Stays c v (Vol.enter d part) r := by
      rw [Vol.enter]
      split
      · exact ⟨_, stays_pure h d⟩
      split
      · exact stays_parent h d
      · exact stays_lookup h d part
    obtain ⟨r, henter⟩ := henter
    exact henter.bind_some fun d' v₁ _ h₁ ↦ ih h₁.settled d'

/-- **`resolve` writes nothing**, and returns what the path leads to in the card's tree. -/
theorem stays_resolve (h : Settled c v) (start : DirEntry) (path : List Byte) :
    Stays c v (Vol.resolve start path) ((treeOn c v).resolve start path) := by
  obtain ⟨r, v', hrun, hv'⟩ : ∃ r, Stays c v (Vol.resolve start path) r :=
    (stays_gets h id).bind_some fun w v₁ _ h₁ ↦ stays_resolveParts h₁.settled _ _
  obtain ⟨v'', ws, hrun', -⟩ := peeks_resolve h.sound start path
  rw [hrun'] at hrun
  simp only [Prod.mk.injEq] at hrun
  exact ⟨v', by rw [hrun', hrun.1.2, hrun.2], hv'⟩

/-! ## `begin_change` -/

/-- Nothing but FSInfo's two counts is another on the two cards. -/
def OnlyCounts (g : Geometry) (c c' : Card) : Prop :=
  ∀ lba j, c' lba j ≠ c lba j → lba = g.fsinfoLba ∧ lba < g.fatLba ∧ 488 ≤ j ∧ j < 496

theorem OnlyCounts.refl (g : Geometry) (c : Card) : OnlyCounts g c c :=
  fun _ _ hne ↦ absurd rfl hne

/-- The FAT and the data are untouched. -/
theorem OnlyCounts.eq {g : Geometry} {c' : Card} (h : OnlyCounts g c c') {lba : ℕ}
    (hlba : g.fatLba ≤ lba) : c' lba = c lba := by
  funext j
  by_contra hne
  have := (h lba j hne).2.1
  omega

theorem Settled.marked (h : Settled c v) (b : Sector) {c' : Card}
    (hc : OnlyCounts v.toGeometry c c') :
    Settled c' { v with fsinfoDone := true, buf := b } where
  laid := h.laid
  clean := h.clean
  cached hne := by
    obtain ⟨hlt, hbuf⟩ := h.cached hne
    exact ⟨hlt, hbuf.trans (hc.eq (Nat.le_add_right _ _)).symm⟩

theorem splice_apply_of_not_mem {s : Sector} {i j : ℕ} {bs : List Byte}
    (h : ¬(i ≤ j ∧ j < i + bs.length)) :
    splice s i bs j = s j :=
  if_neg h

/-- **`begin_change` touches nothing but FSInfo's two counts.** -/
theorem onCard_beginChange (h : Settled c v) : ∃ v' ws,
    onCard (Vol.beginChange v) c = ((.ok (), v'), ws) ∧ v'.toGeometry = v.toGeometry ∧
      Settled (c.after ws) v' ∧ OnlyCounts v.toGeometry c (c.after ws) := by
  have hnone := OnlyCounts.refl v.toGeometry c
  by_cases hdone : v.fsinfoDone = true
  · refine ⟨v, [], ?_, rfl, h, hnone⟩
    simp [Vol.beginChange, Vol.gets, bind, Vol.bind, Prog.bind, pure, onCard, hdone]
  by_cases hrange : v.fsinfoLba ≤ v.partLba ∨ v.fatLba ≤ v.fsinfoLba
  · refine ⟨{ v with fsinfoDone := true }, [], ?_, rfl, h.marked v.buf hnone, hnone⟩
    simp [Vol.beginChange, Vol.gets, Vol.modify, bind, Vol.bind, Prog.bind, pure, onCard, hdone,
      hrange]
  by_cases hsig : le32 (c v.fsinfoLba) 0 ≠ fsinfoLead ∨ le32 (c v.fsinfoLba) 484 ≠ fsinfoStruct
  · refine ⟨{ v with fsinfoDone := true, buf := c v.fsinfoLba }, [], ?_, rfl, h.marked _ hnone,
      hnone⟩
    simp [Vol.beginChange, Vol.gets, Vol.modify, Vol.readBuf, Vol.read, bind, Vol.bind, Prog.bind,
      pure, onCard, hdone, hrange, hsig]
  have hcounts : OnlyCounts v.toGeometry c
      (c.after [(v.fsinfoLba, splice (c v.fsinfoLba) 488 (List.replicate 8 0xFF#8))]) := by
    intro lba j hne
    by_cases hlba : lba = v.fsinfoLba
    · subst hlba
      refine ⟨rfl, by omega, ?_⟩
      by_contra hj
      refine hne ?_
      rw [Card.after, Card.after, Function.update_self]
      exact splice_apply_of_not_mem (by simpa using hj)
    · refine absurd ?_ hne
      rw [Card.after, Card.after, Function.update_of_ne hlba]
  refine ⟨{ v with
      fsinfoDone := true
      buf := splice (c v.fsinfoLba) 488 (List.replicate 8 0xFF#8) }, _, ?_, rfl,
    h.marked _ hcounts, hcounts⟩
  simp [Vol.beginChange, Vol.gets, Vol.modify, Vol.readBuf, Vol.read, Vol.writeBuf, Vol.write,
    bind, Vol.bind, Prog.bind, pure, onCard, hdone, hrange, hsig]

end Vux9k

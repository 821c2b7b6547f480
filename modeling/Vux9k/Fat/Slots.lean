import Vux9k.Fat.View
import Vux9k.Fat.Visits

/-!
# The slots of a directory

On a card that works a directory is the list of its slots, in the order of its chain: `dirSlots`.
`walk_slots` shows them to its closure one after the other until the closure stops, and if it does
not, ends as the chain ends.  Nothing is assumed of the chain: it may loop, or leave the volume.
-/

set_option autoImplicit false

namespace Vux9k

open Vol (Slot)

variable {σ : Type} {c c' : Card} {v v' : Volume}

/-! ## A directory -/

/-- The slots `i..` of a sector. -/
def slotsFrom (s : Sector) (lba i n : ℕ) : List Slot :=
  (List.range' i n).map fun i ↦ ⟨lba, i, slotOf s i⟩

/-- The slots of the sectors `s..` of a cluster at `lba`. -/
def sectorSlots (c : Card) (lba s n : ℕ) : List Slot :=
  (List.range' s n).flatMap fun s ↦ slotsFrom (c (lba + s)) (lba + s) 0 slotsPerSector

theorem sectorSlots_congr {lba s n : ℕ} (h : ∀ i, c' (lba + i) = c (lba + i)) :
    sectorSlots c' lba s n = sectorSlots c lba s n := by
  simp only [sectorSlots, h]

/-- The slots of a cluster. -/
def clusterSlots (g : Geometry) (c : Card) (n : ℕ) : List Slot :=
  sectorSlots c (g.clusterLba n) 0 g.clusterSectors

/-- The clusters of the chain from `n` on, at most `fuel` of them, and how it ends: with its last
cluster, or with an error. -/
def chainFrom (g : Geometry) (fat : ℕ → ℕ) : ℕ → ℕ → List ℕ × Except FatError ℕ
  | 0, n => ([], .error (.badChain n))
  | fuel + 1, n =>
    if ¬g.isCluster n then ([], .error (.badChain n))
    else
      let rest : List ℕ × Except FatError ℕ :=
        match g.nextOf n (fat n) with
        | .ok none => ([], .ok n)
        | .ok (some next) => chainFrom g fat fuel next
        | .error e => ([], .error e)
      (n :: rest.1, rest.2)

/-- The slots of the directory whose chain starts at `first`. -/
def dirSlots (c : Card) (v : Volume) (first : ℕ) : List Slot :=
  (chainFrom v.toGeometry (v.entry c) v.clusterEnd first).1.flatMap (clusterSlots v.toGeometry c)

theorem Geometry.dataLba_le_clusterLba (g : Geometry) (n : ℕ) : g.dataLba ≤ g.clusterLba n :=
  Nat.le_add_right _ _

/-! ## The closure on some slots -/

/-- The closure gets the slots until it stops: where, and what it has captured then. -/
def feed (f : σ → ℕ → ℕ → (ℕ → Byte) → Bool × σ) : List Slot → σ → Option (ℕ × ℕ) × σ
  | [], st => (none, st)
  | s :: ss, st =>
    match f st s.lba s.index s.bytes with
    | (true, st) => (some (s.lba, s.index), st)
    | (false, st) => feed f ss st

variable {f : σ → ℕ → ℕ → (ℕ → Byte) → Bool × σ}

theorem feed_append (ss ss' : List Slot) (st : σ) : feed f (ss ++ ss') st =
    match feed f ss st with
    | (some slot, st) => (some slot, st)
    | (none, st) => feed f ss' st := by
  induction ss generalizing st with
  | nil => rfl
  | cons s ss ih =>
    rw [List.cons_append, feed, feed]
    obtain ⟨stop, st'⟩ := f st s.lba s.index s.bytes
    cases stop with
    | true => rfl
    | false => exact ih st'

theorem scanSlots_eq_feed (s : Sector) (lba n i : ℕ) (st : σ) :
    Vol.scanSlots f s lba n i st =
      ((feed f (slotsFrom s lba i n) st).1.map Prod.snd, (feed f (slotsFrom s lba i n) st).2) := by
  induction n generalizing i st with
  | zero => rfl
  | succ n ih =>
    rw [Vol.scanSlots, slotsFrom, List.range'_succ, List.map_cons, feed]
    dsimp only
    obtain ⟨stop, st'⟩ := f st lba i (slotOf s i)
    cases stop with
    | true => rfl
    | false => exact ih (i + 1) st'

/-- All slots of a sector have its number. -/
theorem feed_slotsFrom_fst {s : Sector} {lba i n : ℕ} {st : σ} {slot : ℕ × ℕ}
    (h : (feed f (slotsFrom s lba i n) st).1 = some slot) : slot.1 = lba := by
  induction n generalizing i st with
  | zero => cases h
  | succ n ih =>
    rw [slotsFrom, List.range'_succ, List.map_cons, feed] at h
    dsimp only at h
    rcases hf : f st lba i (slotOf s i) with ⟨stop, st'⟩
    rw [hf] at h
    cases stop with
    | true =>
      cases h
      rfl
    | false => exact ih h

theorem peeks_visitSectors (h : Sound c v) {lba n s : ℕ} (hlba : v.dataLba ≤ lba) (st : σ) :
    Peeks c v (Vol.visitSectors f lba n s st)
      (.ok (.ok (feed f (sectorSlots c lba s n) st).1, (feed f (sectorSlots c lba s n) st).2)) := by
  induction n generalizing c v s st with
  | zero => exact peeks_pure h _
  | succ n ih =>
    refine ((peeks_readBuf h (lba + s)).attempt).bind fun c₁ v₁ h₁ ↦ ?_
    dsimp only
    rw [scanSlots_eq_feed]
    have hsplit : sectorSlots c lba s (n + 1) =
        slotsFrom (c (lba + s)) (lba + s) 0 slotsPerSector ++ sectorSlots c lba (s + 1) n := by
      rw [sectorSlots, List.range'_succ, List.flatMap_cons]
      rfl
    rw [hsplit, feed_append]
    rcases hfeed : feed f (slotsFrom (c (lba + s)) (lba + s) 0 slotsPerSector) st with ⟨stop, st'⟩
    cases stop with
    | some slot =>
      have hfst : slot.1 = lba + s := feed_slotsFrom_fst (congrArg Prod.fst hfeed)
      dsimp only [Option.map_some]
      rw [← hfst]
      exact peeks_pure h₁.sound _
    | none =>
      have hrest := ih h₁.sound (s := s + 1) (by rwa [h₁.geometry]) st'
      have hcard : ∀ i, c₁ (lba + i) = c (lba + i) := fun i ↦ h₁.rest _ (.inr (by omega))
      rwa [sectorSlots_congr hcard] at hrest

theorem Same.clusterSlots_eq (h : Same c v c' v') (n : ℕ) :
    clusterSlots v'.toGeometry c' n = clusterSlots v.toGeometry c n := by
  rw [clusterSlots, clusterSlots, h.geometry]
  refine sectorSlots_congr fun i ↦ h.rest _ (.inr ?_)
  exact (v.dataLba_le_clusterLba n).trans (Nat.le_add_right _ _)

theorem Same.chainFrom_eq (h : Same c v c' v') (hg : v.toGeometry.Laid) (fuel n : ℕ) :
    chainFrom v'.toGeometry (v'.entry c') fuel n = chainFrom v.toGeometry (v.entry c) fuel n := by
  induction fuel generalizing n with
  | zero => rfl
  | succ fuel ih =>
    rw [chainFrom, chainFrom, h.geometry]
    by_cases hn : v.isCluster n = true
    · have hlt : n < v.clusterEnd := (hg.toOk.lt_eoc hn).2.1
      rw [if_neg (not_not.mpr hn), if_neg (not_not.mpr hn), h.entry_eq hg hlt]
      simp only [← ih, h.geometry]
    · rw [if_pos hn, if_pos hn]

/-- What the walk over a chain does: it ends where the closure stops, or as the chain ends. -/
def walkChain (f : σ → ℕ → ℕ → (ℕ → Byte) → Bool × σ) (g : Geometry) (c : Card)
    (chain : List ℕ × Except FatError ℕ) (st : σ) : Except FatError (ℕ × ℕ ⊕ ℕ) × σ :=
  match feed f (chain.1.flatMap (clusterSlots g c)) st with
  | (some slot, st) => (.ok (.inl slot), st)
  | (none, st) => (chain.2.map .inr, st)

theorem walkChain_cons (g : Geometry) (n : ℕ) (chain : List ℕ × Except FatError ℕ) (st : σ) :
    walkChain f g c (n :: chain.1, chain.2) st =
      match feed f (clusterSlots g c n) st with
      | (some slot, st) => (.ok (.inl slot), st)
      | (none, st) => walkChain f g c chain st := by
  rw [walkChain, List.flatMap_cons, feed_append]
  obtain ⟨stop, st'⟩ := feed f (clusterSlots g c n) st
  cases stop with
  | some slot => rfl
  | none => rfl

theorem Same.walkChain_eq (h : Same c v c' v') (chain : List ℕ × Except FatError ℕ) (st : σ) :
    walkChain f v'.toGeometry c' chain st = walkChain f v.toGeometry c chain st := by
  rw [walkChain, walkChain, funext h.clusterSlots_eq]

theorem peeks_visitClusters (h : Sound c v) (fuel n : ℕ) (st : σ) :
    Peeks c v (Vol.visitClusters f fuel n st)
      (.ok (walkChain f v.toGeometry c (chainFrom v.toGeometry (v.entry c) fuel n) st)) := by
  induction fuel generalizing c v n st with
  | zero => exact peeks_pure h _
  | succ fuel ih =>
    refine (peeks_gets h id).bind fun c₁ v₁ h₁ ↦ ?_
    rw [id, chainFrom]
    by_cases hn : v.isCluster n = true
    swap
    · rw [if_pos hn, if_pos hn]
      exact peeks_pure h₁.sound _
    have hlt : n < v.clusterEnd := (h.laid.toOk.lt_eoc hn).2.1
    rw [if_neg (not_not.mpr hn), if_neg (not_not.mpr hn), walkChain_cons]
    have hdata : v₁.dataLba ≤ v.clusterLba n := by
      rw [h₁.geometry]
      exact v.dataLba_le_clusterLba n
    refine (peeks_visitSectors h₁.sound hdata st).bind fun c₂ v₂ h₂ ↦ ?_
    have h₂ := h₁.trans h₂
    have hslots : sectorSlots c₁ (v.clusterLba n) 0 v.clusterSectors =
        clusterSlots v.toGeometry c n := by
      have := h₁.clusterSlots_eq n
      rwa [h₁.geometry] at this
    rw [hslots]
    obtain ⟨stop, st'⟩ := feed f (clusterSlots v.toGeometry c n) st
    cases stop with
    | some slot => exact peeks_pure h₂.sound _
    | none =>
      have hnext := (peeks_nextCluster h₂.sound (n := n) (by rwa [h₂.geometry])).attempt
      refine hnext.bind fun c₃ v₃ h₃ ↦ ?_
      have h₃ := h₂.trans h₃
      rw [h₂.geometry, h₂.entry_eq h.laid hlt]
      rcases v.nextOf n (v.entry c n) with e | next | next
      · exact peeks_pure h₃.sound _
      · exact peeks_pure h₃.sound _
      · have hrest := ih h₃.sound next st'
        rwa [h₃.chainFrom_eq h.laid, h₃.walkChain_eq] at hrest

/-- **`walk_slots` goes through the directory's slots**, in the order of its chain. -/
theorem peeks_visitSlots (h : Sound c v) (first : ℕ) (st : σ) :
    Peeks c v (Vol.visitSlots first f st)
      (.ok (walkChain f v.toGeometry c (chainFrom v.toGeometry (v.entry c) v.clusterEnd first)
        st)) :=
  (peeks_gets h id).bind fun c₁ v₁ h₁ ↦ by
    have hwalk := peeks_visitClusters (f := f) h₁.sound v.clusterEnd first st
    rwa [h₁.chainFrom_eq h.laid, h₁.walkChain_eq] at hwalk

theorem snd_walkChain (g : Geometry) (c : Card) (chain : List ℕ × Except FatError ℕ) (st : σ) :
    (walkChain f g c chain st).2 = (feed f (chain.1.flatMap (clusterSlots g c)) st).2 := by
  rw [walkChain]
  obtain ⟨stop, st'⟩ := feed f (chain.1.flatMap (clusterSlots g c)) st
  cases stop with
  | some slot => rfl
  | none => rfl

end Vux9k

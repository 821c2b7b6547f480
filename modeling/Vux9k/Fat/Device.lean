import Vux9k.Fat.Create
import Vux9k.Lib.Meets

/-!
# A card that may fail

`device` answers as a card does that fails whenever it likes: a read gives the sector or fails, a
write is made or, if it fails, is not.

`Keeps env I J m Q`: in the environment `env` the method `m`, called when `J` holds of the card and
the volume, keeps `J`, goes only through cards `I`, and returns only what `Q` says.  The methods
touch no sectors but those of an `Extent`, whatever the card holds: those that only look keep every
`J` that does not say anything about the two buffers (`Stable`), the others every `J` that writes to
the extent leave alone (`Writable`).
-/

set_option autoImplicit false

namespace Vux9k

/-- A card that may fail. -/
def device (c : Card) : (o : FatOp) → FatOp.Ans o → Card → Prop
  | .read lba, r, c' => (∀ s ∈ r, s = c lba) ∧ c' = c
  | .write lba s, b, c' => c' = if b then Function.update c lba s else c

/-- The card a volume is on, and its environment. -/
abbrev CardEnv : Type := Prog.Env FatOp FatOp.Ans Card

variable {α β σ : Type} {env : CardEnv} {I : Card → Prop} {J : Card → Volume → Prop}
  {Q : α → Prop} {R : β → Prop}

/-- The method keeps `J`, and returns only what `Q` says. -/
def Keeps (env : CardEnv) (I : Card → Prop) (J : Card → Volume → Prop) (m : Vol α) (Q : α → Prop) :
    Prop :=
  ∀ c v, J c v → (m v).Meets env I (fun r c' ↦ J c' r.2 ∧ ∀ a, r.1 = .ok a → Q a) c

theorem Keeps.mono {m : Vol α} {Q' : α → Prop} (h : Keeps env I J m Q) (hQ : ∀ a, Q a → Q' a) :
    Keeps env I J m Q' :=
  fun c v hJ ↦ (h c v hJ).mono fun _ _ hr ↦ ⟨hr.1, fun a ha ↦ hQ a (hr.2 a ha)⟩

theorem keeps_pure {a : α} (ha : Q a) : Keeps env I J (pure a : Vol α) Q := by
  refine fun c v hJ ↦ ⟨hJ, fun b hb ↦ ?_⟩
  cases hb
  exact ha

theorem keeps_throw (e : FatError) : Keeps env I J (Vol.throw e : Vol α) Q :=
  fun _ _ hJ ↦ ⟨hJ, nofun⟩

theorem keeps_gets {f : Volume → α} (h : ∀ c v, J c v → Q (f v)) :
    Keeps env I J (Vol.gets f) Q := by
  refine fun c v hJ ↦ ⟨hJ, fun a ha ↦ ?_⟩
  cases ha
  exact h c v hJ

theorem keeps_modify {f : Volume → Volume} {Q : Unit → Prop} (h : ∀ c v, J c v → J c (f v))
    (hQ : Q ()) : Keeps env I J (Vol.modify f) Q :=
  fun c v hJ ↦ ⟨h c v hJ, fun _ _ ↦ hQ⟩

theorem Keeps.bind {m : Vol α} {f : α → Vol β} (hm : Keeps env I J m Q)
    (hf : ∀ a, Q a → Keeps env I J (f a) R) : Keeps env I J (m >>= f) R := by
  refine fun c v hJ ↦ (hm c v hJ).bind fun r c' hr ↦ ?_
  obtain ⟨x, v'⟩ := r
  cases x with
  | ok a => exact hf a (hr.2 a rfl) c' v' hr.1
  | error e => exact ⟨hr.1, nofun⟩

theorem Keeps.attempt {m : Vol α} (hm : Keeps env I J m Q) :
    Keeps env I J (Vol.attempt m) fun r ↦ ∀ a, r = .ok a → Q a := by
  refine fun c v hJ ↦ (hm c v hJ).bind fun r c' hr ↦ ⟨hr.1, fun a ha ↦ ?_⟩
  cases ha
  exact hr.2

theorem keeps_ite {p : Prop} [Decidable p] {m m' : Vol α} (hm : p → Keeps env I J m Q)
    (hm' : ¬p → Keeps env I J m' Q) : Keeps env I J (if p then m else m') Q := by
  split
  · exact hm ‹_›
  · exact hm' ‹_›

/-! ## Sectors -/

/-- The sectors that may be touched: of the FAT, by their numbers in it, and of the data.  Where a
method goes on from a sector of either, it comes to another one. -/
structure Extent (g : Geometry) : Type where
  fat : ℕ → Prop
  data : ℕ → Prop
  fat_lt : ∀ {n}, n < g.clusterEnd → fat (n / 128)
  fat_data : ∀ {lba}, data lba → fat (((lba - g.dataLba) >>> g.clusterShift + 2) / 128)
  data_cluster : ∀ {n s}, g.isCluster n = true → s < g.clusterSectors → data (g.clusterLba n + s)
  data_succ : ∀ {lba}, data lba → (lba - g.dataLba + 1) % g.clusterSectors ≠ 0 → data (lba + 1)

namespace Extent

variable {g : Geometry} (X : Extent g)

/-- The sector may be read. -/
def Touches (lba : ℕ) : Prop := (∃ i, X.fat i ∧ lba = g.fatLba + i) ∨ X.data lba

theorem fat_cluster {n : ℕ} (hn : g.isCluster n = true) : X.fat (n / 128) := by
  simp only [Geometry.isCluster, Bool.and_eq_true, decide_eq_true_eq] at hn
  exact X.fat_lt hn.2

end Extent

/-- The entry is in these sectors, and so are its long-name slots. -/
structure Within (D : ℕ → Prop) (e : DirEntry) : Prop where
  lba : D e.lba
  lfnLba : D e.lfnLba

/-! ## Looking -/

/-- What the methods that only look keep. -/
structure Stable (env : CardEnv) (I : Card → Prop) {g : Geometry} (X : Extent g)
    (J : Card → Volume → Prop) : Prop where
  geometry : ∀ {c v}, J c v → v.toGeometry = g
  safe : ∀ {c v}, J c v → I c
  reads : ∀ {c lba r c'}, X.Touches lba → env c (.read lba) r c' → c' = c
  buf : ∀ {c v} s, J c v → J c { v with buf := s }
  cache : ∀ {c v} s i, J c v → v.fatDirty = false → J c { v with fatBuf := s, fatCached := i }
  flush : ∀ {c v}, J c v → (Vol.flushFat v).Meets env I
    (fun r c' ↦ J c' r.2 ∧ (r.1 = .ok () → r.2.fatDirty = false)) c

section Look

variable {g : Geometry} {X : Extent g} (h : Stable env I X J)
include h

theorem Stable.flushFat : Keeps env I J Vol.flushFat fun _ ↦ True :=
  fun _ _ hJ ↦ (h.flush hJ).mono fun _ _ hr ↦ ⟨hr.1, fun _ _ ↦ trivial⟩

theorem Stable.gets {f : Volume → α} (hf : ∀ v, v.toGeometry = g → Q (f v)) :
    Keeps env I J (Vol.gets f) Q :=
  keeps_gets fun _ v hJ ↦ hf v (h.geometry hJ)

theorem Stable.geom : Keeps env I J (Vol.gets id) fun v ↦ v.toGeometry = g :=
  h.gets fun _ hv ↦ hv

theorem Stable.setBuf (f : Volume → Sector) :
    Keeps env I J (Vol.modify fun v ↦ { v with buf := f v }) fun _ ↦ True :=
  keeps_modify (fun _ v hJ ↦ h.buf (f v) hJ) trivial

theorem Stable.read {lba : ℕ} (hlba : X.Touches lba) :
    Keeps env I J (Vol.read lba) fun _ ↦ True := by
  intro c v hJ r c' hr
  obtain rfl := h.reads hlba hr
  refine ⟨h.safe hJ, ?_⟩
  cases r with
  | some s => exact ⟨hJ, fun _ _ ↦ trivial⟩
  | none => exact ⟨hJ, by simp⟩

theorem Stable.readBuf {lba : ℕ} (hlba : X.data lba) :
    Keeps env I J (Vol.readBuf lba) fun _ ↦ True :=
  (h.read (.inr hlba)).bind fun s _ ↦
    (keeps_modify (Q := fun _ ↦ True) (fun _ _ hJ ↦ h.buf s hJ) trivial).bind fun _ _ ↦
      keeps_pure trivial

/-- A sector of the FAT is in the cache once it has been loaded. -/
theorem Stable.meets_loadFat {c : Card} {v : Volume} {i : ℕ} (hi : X.fat i) (hJ : J c v) :
    (Vol.loadFat i v).Meets env I
      (fun r c' ↦ J c' r.2 ∧ (r.1 = .ok () → r.2.fatCached = i)) c := by
  change ((if v.fatCached ≠ i then _ else _ : Vol Unit) v).Meets _ _ _ _
  split
  swap
  next hcached => exact ⟨hJ, fun _ ↦ not_not.mp hcached⟩
  have hfat : v.fatLba = g.fatLba := congrArg Geometry.fatLba (h.geometry hJ)
  refine (h.flush hJ).bind fun r c' hr ↦ ?_
  obtain ⟨x, w⟩ := r
  cases x with
  | error e => exact ⟨hr.1, by simp⟩
  | ok _ =>
    have hclean : w.fatDirty = false := hr.2 rfl
    intro s c'' hs
    obtain rfl := h.reads (.inl ⟨i, hi, congrArg (· + i) hfat⟩) hs
    refine ⟨h.safe hr.1, ?_⟩
    cases s with
    | none => exact ⟨h.cache w.fatBuf noSector hr.1 hclean, by simp⟩
    | some s =>
      exact ⟨h.cache s i (h.cache w.fatBuf noSector hr.1 hclean) hclean, fun _ ↦ rfl⟩

theorem Stable.loadFat {i : ℕ} (hi : X.fat i) : Keeps env I J (Vol.loadFat i) fun _ ↦ True :=
  fun _ _ hJ ↦ (h.meets_loadFat hi hJ).mono fun _ _ hr ↦ ⟨hr.1, fun _ _ ↦ trivial⟩

theorem Stable.fatEntry {n : ℕ} (hn : X.fat (n / 128)) :
    Keeps env I J (Vol.fatEntry n) fun _ ↦ True :=
  (h.loadFat hn).bind fun _ _ ↦
    (h.gets (Q := fun _ ↦ True) fun _ _ ↦ trivial).bind fun _ _ ↦ keeps_pure trivial

theorem Stable.nextCluster {n : ℕ} (hn : X.fat (n / 128)) :
    Keeps env I J (Vol.nextCluster n) fun next ↦ ∀ m ∈ next, g.isCluster m = true := by
  refine (h.fatEntry hn).bind fun e _ ↦ h.geom.bind fun v hv ↦ ?_
  refine keeps_ite (fun _ ↦ keeps_pure (by simp)) fun _ ↦ ?_
  refine keeps_ite (fun he ↦ keeps_pure ?_) fun _ ↦ keeps_throw _
  rintro m ⟨⟩
  rw [← hv]
  exact he

end Look

/-! ## Directories -/

/-- The closure keeps `T` at slots in these sectors. -/
def FeedKeeps (D : ℕ → Prop) (f : σ → ℕ → ℕ → (ℕ → Byte) → Bool × σ) (T : σ → Prop) : Prop :=
  ∀ st lba i e, D lba → T st → T (f st lba i e).2

variable {D : ℕ → Prop} {f : σ → ℕ → ℕ → (ℕ → Byte) → Bool × σ} {T : σ → Prop}

theorem FeedKeeps.scanSlots (hf : FeedKeeps D f T) {lba : ℕ} (hlba : D lba) (s : Sector) (n i : ℕ)
    {st : σ} (hst : T st) : T (Vol.scanSlots f s lba n i st).2 := by
  induction n generalizing i st with
  | zero => exact hst
  | succ n ih =>
    have hst' := hf st lba i (slotOf s i) hlba hst
    rw [Vol.scanSlots]
    rcases hfeed : f st lba i (slotOf s i) with ⟨stop, st'⟩
    rw [hfeed] at hst'
    cases stop with
    | true => exact hst'
    | false => exact ih (i + 1) hst'

variable {g : Geometry} {X : Extent g}

section Walk

variable (h : Stable env I X J) (hf : FeedKeeps X.data f T)
include h hf

theorem Stable.walkSectors {lba : ℕ} (n s : ℕ) {st : σ}
    (hlba : ∀ k, s ≤ k → k < s + n → X.data (lba + k)) (hst : T st) :
    Keeps env I J (Vol.walkSectors f lba n s st) fun r ↦
      (∀ slot ∈ r.1, X.data slot.1) ∧ T r.2 := by
  induction n generalizing s st with
  | zero => exact keeps_pure ⟨by simp, hst⟩
  | succ n ih =>
    have hs : X.data (lba + s) := hlba s le_rfl (by omega)
    refine (h.readBuf hs).bind fun buf _ ↦ ?_
    have hst' := hf.scanSlots hs buf slotsPerSector 0 hst
    rcases hscan : Vol.scanSlots f buf (lba + s) slotsPerSector 0 st with ⟨stop, st'⟩
    rw [hscan] at hst'
    cases stop with
    | some i =>
      refine keeps_pure ⟨?_, hst'⟩
      rintro slot ⟨⟩
      exact hs
    | none => exact ih (s + 1) (fun k hk hlt ↦ hlba k (by omega) (by omega)) hst'

theorem Stable.walkClusters (n c : ℕ) {st : σ} (hst : T st) :
    Keeps env I J (Vol.walkClusters f n c st) fun r ↦
      (∀ slot, r.1 = .inl slot → X.data slot.1) ∧
        (∀ last, r.1 = .inr last → g.isCluster last = true) ∧ T r.2 := by
  induction n generalizing c st with
  | zero => exact keeps_throw _
  | succ n ih =>
    refine h.geom.bind fun v hv ↦ ?_
    refine keeps_ite (fun _ ↦ keeps_throw _) fun hc ↦ ?_
    change ¬¬v.toGeometry.isCluster c = true at hc
    rw [not_not, hv] at hc
    have hlba : ∀ k, 0 ≤ k → k < 0 + v.clusterSectors → X.data (v.clusterLba c + k) := by
      intro k _ hk
      rw [Nat.zero_add] at hk
      rw [hv] at hk ⊢
      exact X.data_cluster hc hk
    refine (h.walkSectors hf v.clusterSectors 0 hlba hst).bind fun r hr ↦ ?_
    obtain ⟨stop, st'⟩ := r
    cases stop with
    | some slot =>
      refine keeps_pure ⟨?_, by simp, hr.2⟩
      rintro _ ⟨⟩
      exact hr.1 slot rfl
    | none =>
      refine (h.nextCluster (X.fat_cluster hc)).bind fun next _ ↦ ?_
      cases next with
      | some next => exact ih next hr.2
      | none =>
        refine keeps_pure ⟨by simp, ?_, hr.2⟩
        rintro _ ⟨⟩
        exact hc

theorem Stable.walkSlots (first : ℕ) {st : σ} (hst : T st) :
    Keeps env I J (Vol.walkSlots first f st) fun r ↦
      (∀ slot, r.1 = .inl slot → X.data slot.1) ∧
        (∀ last, r.1 = .inr last → g.isCluster last = true) ∧ T r.2 :=
  h.geom.bind fun v _ ↦ h.walkClusters hf v.clusterEnd first hst

end Walk

/-- What the closure of `find_entry` has captured is in these sectors. -/
structure Found (D : ℕ → Prop) (st : Vol.Search) : Prop where
  lfn : ∀ l ∈ st.lfn, D l.1
  found : ∀ e ∈ st.found, Within D e

theorem feedKeeps_search (D : ℕ → Prop) (p : DirEntry → Bool) :
    FeedKeeps D (Vol.searchSlot p) (Found D) := by
  intro st lba i e hlba hst
  rw [Vol.searchSlot]
  split
  · exact hst
  split
  · exact ⟨by simp, hst.found⟩
  split
  · split
    · refine ⟨?_, hst.found⟩
      rintro l ⟨⟩
      exact hlba
    · exact hst
  dsimp only
  split
  · exact ⟨by simp, hst.found⟩
  split
  · refine ⟨by simp, ?_⟩
    rintro d ⟨⟩
    refine ⟨hlba, ?_⟩
    rw [DirEntry.parse]
    dsimp only
    cases hrun : st.lfn.filter fun l ↦ l.2.2 = checksum (ShortName.ofFn e).1 with
    | none => exact hlba
    | some l => exact hst.lfn l (Option.filter_eq_some_iff.mp hrun).1
  · exact ⟨by simp, hst.found⟩

section Files

variable (h : Stable env I X J)
include h

theorem Stable.findEntry (dir : DirEntry) (p : DirEntry → Bool) :
    Keeps env I J (Vol.findEntry dir p) fun r ↦ ∀ e ∈ r, Within X.data e := by
  refine keeps_ite (fun _ ↦ keeps_throw _) fun _ ↦ ?_
  have hstart : Found X.data ⟨none, none⟩ := ⟨by simp, by simp⟩
  have hwalk := h.walkSlots (feedKeeps_search X.data p) dir.cluster hstart
  exact hwalk.bind fun r hr ↦ keeps_pure hr.2.2.found

theorem Stable.find (dir : DirEntry) (name : ShortName) :
    Keeps env I J (Vol.find dir name) fun r ↦ ∀ e ∈ r, Within X.data e :=
  h.findEntry dir _

/-! ## Files -/

theorem Stable.eachSector {f : σ → List Byte → σ} {lba : ℕ} (n s rest : ℕ) (st : σ)
    (hlba : ∀ k, s ≤ k → k < s + n → X.data (lba + k)) :
    Keeps env I J (Vol.eachSector f lba n s rest st) fun _ ↦ True := by
  induction n generalizing s rest st with
  | zero => exact keeps_pure trivial
  | succ n ih =>
    refine (h.readBuf (hlba s le_rfl (by omega))).attempt.bind fun r _ ↦ ?_
    cases r with
    | error e => exact keeps_pure trivial
    | ok buf =>
      refine keeps_ite (fun _ ↦ keeps_pure trivial) fun _ ↦ ?_
      exact ih (s + 1) _ _ fun k hk hlt ↦ hlba k (by omega) (by omega)

theorem Stable.eachCluster {f : σ → List Byte → σ} (n c rest : ℕ) (st : σ) :
    Keeps env I J (Vol.eachCluster f n c rest st) fun _ ↦ True := by
  induction n generalizing c rest st with
  | zero => exact keeps_pure trivial
  | succ n ih =>
    refine h.geom.bind fun v hv ↦ ?_
    refine keeps_ite (fun _ ↦ keeps_pure trivial) fun hc ↦ ?_
    change ¬¬v.toGeometry.isCluster c = true at hc
    rw [not_not, hv] at hc
    refine (h.eachSector v.clusterSectors 0 rest st fun k _ hk ↦ ?_).bind fun r _ ↦ ?_
    · rw [Nat.zero_add] at hk
      rw [hv] at hk ⊢
      exact X.data_cluster hc hk
    obtain ⟨r, st'⟩ := r
    cases r with
    | error e => exact keeps_pure trivial
    | ok rest =>
      refine (h.nextCluster (X.fat_cluster hc)).attempt.bind fun next _ ↦ ?_
      cases next with
      | error e => exact keeps_pure trivial
      | ok next =>
        refine keeps_ite (fun _ ↦ ?_) fun _ ↦ ?_
        · cases next with
          | none => exact keeps_pure trivial
          | some _ => exact keeps_pure trivial
        · cases next with
          | none => exact keeps_pure trivial
          | some next => exact ih next rest st'

theorem Stable.readTo (file : DirEntry) (len : ℕ) :
    Keeps env I J (Vol.readTo file len) fun _ ↦ True := by
  refine keeps_ite (fun _ ↦ keeps_throw _) fun _ ↦ ?_
  have heach : Keeps env I J (Vol.forEachSector file (fun got data ↦ got ++ data) [])
      fun _ ↦ True := by
    refine keeps_ite (fun _ ↦ keeps_pure trivial) fun _ ↦ keeps_ite (fun _ ↦ ?_) fun _ ↦ ?_
    · exact keeps_ite (fun _ ↦ keeps_pure trivial) fun _ ↦ keeps_pure trivial
    · exact h.eachCluster _ _ _ _
  refine heach.bind fun r _ ↦ ?_
  obtain ⟨_ | _, got⟩ := r
  · exact keeps_throw _
  · exact keeps_pure trivial

theorem Stable.freeClusters : Keeps env I J Vol.freeClusters fun _ ↦ True := by
  refine h.geom.bind fun v hv ↦ ?_
  generalize v.clusterEnd = fuel
  suffices hcount : ∀ c n, Keeps env I J (Vol.countFrom fuel c n) fun _ ↦ True from hcount 2 0
  induction fuel with
  | zero => exact fun _ _ ↦ keeps_pure trivial
  | succ fuel ih =>
    intro c n
    refine h.geom.bind fun v hv ↦ keeps_ite (fun hc ↦ ?_) fun _ ↦ keeps_pure trivial
    have hc : c < g.clusterEnd := by
      rw [← congrArg Geometry.clusterEnd hv]
      exact hc
    refine (h.loadFat (X.fat_lt hc)).bind fun _ _ ↦ ?_
    exact (h.gets (Q := fun _ ↦ True) fun _ _ ↦ trivial).bind fun s _ ↦ ih _ _

end Files

/-! ## Changing -/

/-- What the methods that write the FAT and the data keep. -/
structure Writable (env : CardEnv) (I : Card → Prop) {g : Geometry} (X : Extent g)
    (J : Card → Volume → Prop) : Prop extends Stable env I X J where
  hint : ∀ {c v}, J c v → 2 ≤ v.nextFree
  write : ∀ {c v lba s b c'}, J c v → X.data lba → env c (.write lba s) b c' → J c' v
  dirty : ∀ {c v} s, J c v → X.fat v.fatCached → J c { v with fatBuf := s, fatDirty := true }
  nextFree : ∀ {c v} n, 2 ≤ n → J c v → J c { v with nextFree := n }

section Change

variable (h : Writable env I X J)
include h

theorem Writable.writeBuf {lba : ℕ} (hlba : X.data lba) :
    Keeps env I J (Vol.writeBuf lba) fun _ ↦ True := by
  refine (h.gets (Q := fun _ ↦ True) fun _ _ ↦ trivial).bind fun s _ ↦ ?_
  intro c v hJ b c' hw
  have hJ' := h.write hJ hlba hw
  refine ⟨h.safe hJ', ?_⟩
  cases b with
  | true => exact ⟨hJ', fun _ _ ↦ trivial⟩
  | false => exact ⟨hJ', by simp⟩

/-- A sector of the data read, changed and written back. -/
theorem Writable.update {lba : ℕ} (hlba : X.data lba) (f : Volume → Sector) :
    Keeps env I J (do
      let _ ← Vol.readBuf lba
      Vol.modify fun v ↦ { v with buf := f v }
      Vol.writeBuf lba) fun _ ↦ True :=
  (h.readBuf hlba).bind fun _ _ ↦ (h.setBuf f).bind fun _ _ ↦ h.writeBuf hlba

theorem Writable.setFat {n : ℕ} (hn : g.isCluster n = true) (value : ℕ) :
    Keeps env I J (Vol.setFat n value) fun _ ↦ True := by
  intro c v hJ
  refine (h.meets_loadFat (X.fat_cluster hn) hJ).bind fun r c' hr ↦ ?_
  obtain ⟨x, w⟩ := r
  cases x with
  | error e => exact ⟨hr.1, by simp⟩
  | ok _ =>
    have hcached : X.fat w.fatCached := by
      rw [show w.fatCached = n / 128 from hr.2 rfl]
      exact X.fat_cluster hn
    exact ⟨h.dirty _ hr.1 hcached, fun _ _ ↦ trivial⟩

theorem Writable.allocCluster {prev : Option ℕ} (hprev : ∀ p ∈ prev, g.isCluster p = true) :
    Keeps env I J (Vol.allocCluster prev) fun c ↦ g.isCluster c = true := by
  have hstart : Keeps env I J (Vol.gets id) fun v ↦ v.toGeometry = g ∧ 2 ≤ v.nextFree :=
    keeps_gets fun _ v hJ ↦ ⟨h.geometry hJ, h.hint hJ⟩
  refine hstart.bind fun v hv ↦ ?_
  obtain ⟨hv, hhint⟩ := hv
  have hroom : 0 < v.clusterEnd - 2 → 2 < g.clusterEnd := by
    rw [← hv]
    omega
  generalize v.clusterEnd - 2 = n at hroom
  generalize v.nextFree = c at hhint
  induction n generalizing c with
  | zero => exact keeps_throw _
  | succ n ih =>
    refine h.geom.bind fun w hw ↦ ?_
    have hend : w.clusterEnd = g.clusterEnd := congrArg Geometry.clusterEnd hw
    obtain ⟨m, hm⟩ : ∃ m, m = if w.clusterEnd ≤ c then 2 else c := ⟨_, rfl⟩
    have hcluster : g.isCluster m = true := by
      have := hroom n.succ_pos
      simp only [Geometry.isCluster, Bool.and_eq_true, decide_eq_true_eq]
      rw [hm, hend]
      split
      · omega
      · omega
    dsimp only
    rw [← hm]
    refine (h.fatEntry (X.fat_cluster hcluster)).bind fun e _ ↦ keeps_ite (fun _ ↦ ?_) fun _ ↦ ?_
    · refine (h.setFat hcluster _).bind fun _ _ ↦ ?_
      have hlast : Keeps env I J (Vol.modify (fun v ↦ { v with nextFree := m + 1 }) >>= fun _ ↦
          pure m) fun c ↦ g.isCluster c = true := by
        have hm2 : 2 ≤ m := by
          simp only [Geometry.isCluster, Bool.and_eq_true, decide_eq_true_eq] at hcluster
          exact hcluster.1
        exact (keeps_modify (Q := fun _ ↦ True)
          (fun _ _ hJ ↦ h.nextFree (m + 1) (by omega) hJ) trivial).bind fun _ _ ↦
            keeps_pure hcluster
      cases prev with
      | none => exact hlast
      | some p => exact (h.setFat (hprev p rfl) _).bind fun _ _ ↦ hlast
    · have hm2 : 2 ≤ m + 1 := by
        simp only [Geometry.isCluster, Bool.and_eq_true, decide_eq_true_eq] at hcluster
        omega
      exact ih (fun _ ↦ hroom n.succ_pos) (m + 1) hm2

theorem Writable.freeChain (first : ℕ) : Keeps env I J (Vol.freeChain first) fun _ ↦ True := by
  refine h.geom.bind fun v _ ↦ ?_
  generalize v.clusterEnd = fuel
  induction fuel generalizing first with
  | zero => exact keeps_throw _
  | succ fuel ih =>
    refine h.geom.bind fun v hv ↦ keeps_ite (fun _ ↦ keeps_throw _) fun hc ↦ ?_
    change ¬¬v.toGeometry.isCluster first = true at hc
    rw [not_not, hv] at hc
    refine (h.fatEntry (X.fat_cluster hc)).bind fun next _ ↦ (h.setFat hc 0).bind fun _ _ ↦ ?_
    exact keeps_ite (fun _ ↦ h.flushFat) fun _ ↦ ih next

theorem Writable.nextSlot {lba : ℕ} (hlba : X.data lba) (index : ℕ) :
    Keeps env I J (Vol.nextSlot lba index) fun slot ↦ X.data slot.1 := by
  refine keeps_ite (fun _ ↦ keeps_pure hlba) fun _ ↦ h.geom.bind fun v hv ↦ ?_
  change v.toGeometry = g at hv
  subst hv
  refine keeps_ite (fun hs ↦ keeps_pure (X.data_succ hlba hs)) fun _ ↦ ?_
  refine (h.nextCluster (X.fat_data hlba)).bind fun next hnext ↦ ?_
  cases next with
  | none => exact keeps_throw _
  | some next =>
    have hlba := X.data_cluster (s := 0) (hnext next rfl) v.clusterSectors_pos
    exact keeps_pure hlba

theorem Writable.deleteSlots {entry : DirEntry} (he : Within X.data entry) (keep : Bool) :
    Keeps env I J (Vol.deleteSlots entry keep) fun _ ↦ True := by
  refine h.geom.bind fun v _ ↦ ?_
  generalize v.clusterEnd * v.clusterSectors * slotsPerSector = fuel
  have hlba := he.lfnLba
  generalize entry.lfnLba = lba at hlba ⊢
  generalize entry.lfnIndex = index
  induction fuel generalizing lba index with
  | zero => exact keeps_throw _
  | succ fuel ih =>
    refine keeps_ite (fun _ ↦ keeps_pure trivial) fun _ ↦ ?_
    refine (h.readBuf hlba).bind fun _ _ ↦ (h.setBuf _).bind fun _ _ ↦
      (h.writeBuf hlba).bind fun _ _ ↦ keeps_ite (fun _ ↦ keeps_pure trivial) fun _ ↦ ?_
    exact (h.nextSlot hlba index).bind fun slot hslot ↦ ih slot.1 hslot slot.2

theorem Writable.writeSectors {lba : ℕ} (n s : ℕ)
    (hlba : ∀ k, s ≤ k → k < s + n → X.data (lba + k)) :
    Keeps env I J (Vol.writeSectors lba n s) fun _ ↦ True := by
  induction n generalizing s with
  | zero => exact keeps_pure trivial
  | succ n ih =>
    refine (h.writeBuf (hlba s le_rfl (by omega))).bind fun _ _ ↦ ih (s + 1) fun k hk hlt ↦ ?_
    exact hlba k (by omega) (by omega)

theorem Writable.freeSlot (dir : DirEntry) :
    Keeps env I J (Vol.freeSlot dir) fun slot ↦ X.data slot.1 := by
  refine (h.walkSlots (T := fun _ ↦ True) (fun _ _ _ _ _ _ ↦ trivial) dir.cluster trivial).bind
    fun r hr ↦ ?_
  obtain ⟨slot | last, _⟩ := r
  · exact keeps_pure (hr.1 slot rfl)
  · have hlast : ∀ p ∈ some last, g.isCluster p = true := by
      rintro p ⟨⟩
      exact hr.2.1 last rfl
    refine (h.allocCluster hlast).bind fun new hnew ↦ (h.setBuf _).bind fun _ _ ↦
      h.geom.bind fun v hv ↦ ?_
    have hlba : ∀ k < v.clusterSectors, X.data (v.clusterLba new + k) := by
      rw [hv]
      exact fun k hk ↦ X.data_cluster hnew hk
    refine (h.writeSectors _ 0 fun k _ hk ↦ hlba k ((Nat.zero_add v.clusterSectors) ▸ hk)).bind
      fun _ _ ↦ h.flushFat.bind fun _ _ ↦ keeps_pure ?_
    exact hlba 0 v.clusterSectors_pos

theorem Writable.writeEntry {lba : ℕ} (hlba : X.data lba) (index : ℕ) (raw : List Byte) :
    Keeps env I J (Vol.writeEntry lba index raw) fun _ ↦ True :=
  h.update hlba _

theorem Writable.writeData {lba : ℕ} (chunks : List (List Byte))
    (hlba : ∀ k < chunks.length, X.data (lba + k)) :
    Keeps env I J (Vol.writeData lba chunks) fun _ ↦ True := by
  induction chunks generalizing lba with
  | nil => exact keeps_pure trivial
  | cons chunk chunks ih =>
    refine (h.setBuf _).bind fun _ _ ↦ (h.writeBuf (hlba 0 (by simp))).bind fun _ _ ↦ ih ?_
    intro k hk
    rw [Nat.add_assoc, Nat.add_comm 1]
    exact hlba (k + 1) (by simpa using hk)

theorem Writable.writeClusters {clusters : List (List Byte)} (hfits : Fits g clusters)
    (first : ℕ) {prev : Option ℕ} (hprev : ∀ p ∈ prev, g.isCluster p = true) :
    Keeps env I J (Vol.writeClusters clusters first prev) fun _ ↦ True := by
  induction clusters generalizing first prev with
  | nil => exact h.flushFat.attempt.bind fun _ _ ↦ keeps_pure trivial
  | cons cluster rest ih =>
    refine (h.allocCluster hprev).attempt.bind fun r hr ↦ ?_
    cases r with
    | error e => exact keeps_pure trivial
    | ok c =>
      refine h.geom.bind fun v hv ↦ ?_
      have hlba : ∀ k < (chunks sectorLen cluster).length, X.data (v.clusterLba c + k) := by
        intro k hk
        rw [hv]
        exact X.data_cluster (hr c rfl)
          (hk.trans_le (hfits.sectors cluster List.mem_cons_self))
      refine (h.writeData _ hlba).attempt.bind fun r _ ↦ ?_
      cases r with
      | error e => exact keeps_pure trivial
      | ok _ =>
        refine ih (fun x hx ↦ hfits x (List.mem_cons_of_mem _ hx)) _ ?_
        rintro p ⟨⟩
        exact hr c rfl

/-- What is given back after a failure. -/
theorem Writable.giveBack (first : ℕ) (e : FatError) :
    Keeps env I J (do
      if first ≠ 0 then
        let _ ← Vol.attempt (Vol.freeChain first)
      Vol.throw e : Vol α) Q := by
  refine keeps_ite (fun _ ↦ ?_) fun _ ↦ ?_
  · exact (h.freeChain first).attempt.bind fun _ _ ↦ keeps_throw e
  · exact keeps_throw e

theorem Writable.writeChain (data : List Byte) :
    Keeps env I J (Vol.writeChain data) fun _ ↦ True := by
  refine h.geom.bind fun v hv ↦ ?_
  have hfits : Fits g (chunks v.clusterBytes data) := by
    rw [hv]
    exact fits_chunks g data
  refine (h.writeClusters hfits 0 (by simp)).bind fun r _ ↦ ?_
  obtain ⟨r, first⟩ := r
  cases r with
  | ok _ => exact keeps_pure trivial
  | error e => exact h.giveBack first e

end Change

end Vux9k

import Vux9k.Fat.Volume

/-!
# A card that works

`onCard` runs a program of the volume on a card that neither fails nor forgets, and keeps the list
of sectors it writes, in order: cutting the power is cutting this list short.

`Reads c v m r` is the statement for methods that only look: on the card `c` the method `m` writes
nothing and returns `r`, and the volume stays as it was but for what its two buffers hold.  These
compose (`Reads.bind`), and each method of `mod.rs` that only reads gets one such lemma, up to
`reads_forEachSector`: the closure sees the file's contents, sector by sector.
-/

set_option autoImplicit false

namespace Vux9k

/-- The sectors of a card. -/
abbrev Card := ℕ → Sector

/-- A sector written. -/
abbrev Wr := ℕ × Sector

/-- The card after some writes. -/
def Card.after (c : Card) : List Wr → Card
  | [] => c
  | w :: ws => Card.after (Function.update c w.1 w.2) ws

variable {α β : Type}

/-- A program on a card without errors: its result and what it writes. -/
def onCard : FatProg α → Card → α × List Wr
  | .ret a, _ => (a, [])
  | .ask (.read lba) k, c => onCard (k (some (c lba))) c
  | .ask (.write lba s) k, c =>
    let r := onCard (k true) (Function.update c lba s)
    (r.1, (lba, s) :: r.2)

theorem onCard_bind (p : FatProg α) (f : α → FatProg β) (c : Card) :
    onCard (p >>= f) c =
      ((onCard (f (onCard p c).1) (c.after (onCard p c).2)).1,
        (onCard p c).2 ++ (onCard (f (onCard p c).1) (c.after (onCard p c).2)).2) := by
  induction p generalizing c with
  | ret a => rfl
  | ask o k ih =>
    cases o with
    | read lba => exact ih _ c
    | write lba s =>
      rw [Prog.ask_bind, onCard, ih]
      rfl

/-! ## Looking only -/

/-- Nothing in the volume waits to be written, and its FAT sector is the card's. -/
structure Clean (c : Card) (v : Volume) : Prop where
  dirty : v.fatDirty = false
  cached : v.fatCached ≠ noSector → v.fatBuf = c (v.fatLba + v.fatCached)

/-- The volume has looked at the card. -/
structure Looked (c : Card) (v v' : Volume) : Prop where
  clean : Clean c v'
  geometry : v'.toGeometry = v.toGeometry
  nextFree : v'.nextFree = v.nextFree
  fsinfoDone : v'.fsinfoDone = v.fsinfoDone

/-- The method writes nothing and returns `r`. -/
def Reads (c : Card) (v : Volume) (m : Vol α) (r : Except FatError α) : Prop :=
  ∃ v', onCard (m v) c = ((r, v'), []) ∧ Looked c v v'

variable {c : Card} {v v' v'' : Volume}

theorem Looked.refl (h : Clean c v) : Looked c v v := ⟨h, rfl, rfl, rfl⟩

theorem Looked.trans (h : Looked c v v') (h' : Looked c v' v'') : Looked c v v'' :=
  ⟨h'.clean, h'.geometry.trans h.geometry, h'.nextFree.trans h.nextFree,
    h'.fsinfoDone.trans h.fsinfoDone⟩

/-- What a method that only looks leaves to be shown of the rest. -/
theorem Reads.bind {m : Vol α} {a : α} {f : α → Vol β} {r : Except FatError β}
    (hm : Reads c v m (.ok a)) (hf : ∀ v', Looked c v v' → Reads c v' (f a) r) :
    Reads c v (m >>= f) r := by
  obtain ⟨v', hm, hv'⟩ := hm
  obtain ⟨v'', hf, hv''⟩ := hf v' hv'
  refine ⟨v'', ?_, hv'.trans hv''⟩
  change onCard (m v >>= _) c = _
  rw [onCard_bind, hm]
  simpa [Card.after] using hf

theorem Reads.attempt {m : Vol α} {r : Except FatError α} (hm : Reads c v m r) :
    Reads c v (Vol.attempt m) (.ok r) := by
  obtain ⟨v', hm, hv'⟩ := hm
  refine ⟨v', ?_, hv'⟩
  rw [Vol.attempt, onCard_bind, hm]
  rfl

theorem reads_pure (h : Clean c v) (a : α) : Reads c v (pure a : Vol α) (.ok a) :=
  ⟨v, rfl, .refl h⟩

theorem reads_gets (h : Clean c v) (f : Volume → α) : Reads c v (Vol.gets f) (.ok (f v)) :=
  ⟨v, rfl, .refl h⟩

theorem reads_readBuf (h : Clean c v) (lba : ℕ) : Reads c v (Vol.readBuf lba) (.ok (c lba)) :=
  ⟨{ v with buf := c lba }, rfl, ⟨h.dirty, h.cached⟩, rfl, rfl, rfl⟩

/-! ## The FAT -/

/-- Cluster `n`'s entry in the first copy of the FAT. -/
def fatAt (g : Geometry) (c : Card) (n : ℕ) : ℕ := Vol.entryIn (c (g.fatLba + n / 128)) n

theorem reads_fatEntry (h : Clean c v) {n : ℕ} (hn : n < 2 ^ 32) :
    Reads c v (Vol.fatEntry n) (.ok (fatAt v.toGeometry c n)) := by
  have hindex : n / 128 ≠ noSector := by
    unfold noSector
    omega
  by_cases hc : v.fatCached = n / 128
  · refine ⟨v, ?_, .refl h⟩
    have hbuf := h.cached (hc ▸ hindex)
    simp [Vol.fatEntry, Vol.loadFat, Vol.gets, bind, Vol.bind, Prog.bind, pure, hc, onCard,
      fatAt, hbuf]
  · refine ⟨{ v with fatBuf := c (v.fatLba + n / 128), fatCached := n / 128 }, ?_,
      ⟨h.dirty, fun _ ↦ rfl⟩, rfl, rfl, rfl⟩
    simp [Vol.fatEntry, Vol.loadFat, Vol.flushFat, Vol.gets, Vol.modify, Vol.read, bind, Vol.bind,
      Prog.bind, pure, hc, onCard, fatAt, h.dirty]

/-- What `mount` has checked, as far as it concerns the FAT's numbers. -/
structure Geometry.Ok (g : Geometry) : Prop where
  clusters : g.clusterEnd ≤ maxClusters + 2

theorem Geometry.Ok.lt_eoc {g : Geometry} (hg : g.Ok) {n : ℕ} (h : g.isCluster n = true) :
    2 ≤ n ∧ n < g.clusterEnd ∧ n < eocMin ∧ n < 2 ^ 32 := by
  have hc := hg.clusters
  simp only [Geometry.isCluster, Bool.and_eq_true, decide_eq_true_eq] at h
  unfold maxClusters at hc
  unfold eocMin
  omega

theorem reads_nextCluster_none (h : Clean c v) {n : ℕ} (hn : n < 2 ^ 32)
    (he : eocMin ≤ fatAt v.toGeometry c n) : Reads c v (Vol.nextCluster n) (.ok none) := by
  refine (reads_fatEntry h hn).bind fun v' hv' ↦ (reads_gets hv'.clean id).bind fun v'' hv'' ↦ ?_
  rw [if_pos he]
  exact reads_pure hv''.clean none

theorem reads_nextCluster_some (hg : v.toGeometry.Ok) (h : Clean c v) {n m : ℕ} (hn : n < 2 ^ 32)
    (he : fatAt v.toGeometry c n = m) (hm : v.isCluster m = true) :
    Reads c v (Vol.nextCluster n) (.ok (some m)) := by
  refine (reads_fatEntry h hn).bind fun v' hv' ↦ (reads_gets hv'.clean id).bind fun v'' hv'' ↦ ?_
  have hlt := hg.lt_eoc hm
  rw [he, if_neg (by omega), id, hv'.geometry, if_pos hm]
  exact reads_pure hv''.clean _

/-! ## Files -/

/-- The clusters of a chain, from its first to its last. -/
def IsChain (g : Geometry) (fat : ℕ → ℕ) : List ℕ → Prop
  | [] => False
  | [n] => g.isCluster n = true ∧ eocMin ≤ fat n
  | n :: m :: ns => g.isCluster n = true ∧ fat n = m ∧ IsChain g fat (m :: ns)

theorem IsChain.isCluster {g : Geometry} {fat : ℕ → ℕ} {n : ℕ} {ns : List ℕ}
    (h : IsChain g fat (n :: ns)) : g.isCluster n = true := by
  cases ns with
  | nil => exact h.1
  | cons m ns => exact h.1

/-- Sectors `s, s + 1, …` from `lba` on, as bytes. -/
def sectorData (c : Card) (lba s n : ℕ) : List Byte :=
  (List.range' s n).flatMap fun s ↦ bytesOf (c (lba + s)) sectorLen

/-- The bytes of a cluster. -/
def clusterData (g : Geometry) (c : Card) (n : ℕ) : List Byte :=
  sectorData c (g.clusterLba n) 0 g.clusterSectors

@[simp]
theorem length_bytesOf (s : Sector) (n : ℕ) : (bytesOf s n).length = n := by
  simp [bytesOf]

theorem take_bytesOf {s : Sector} {m n : ℕ} (h : m ≤ n) : (bytesOf s n).take m = bytesOf s m := by
  rw [bytesOf, ← List.map_take, List.take_range, min_eq_left h, bytesOf]

@[simp]
theorem length_sectorData (c : Card) (lba s n : ℕ) :
    (sectorData c lba s n).length = n * sectorLen := by
  simp [sectorData, List.length_flatMap, List.map_const']

theorem sectorData_succ (c : Card) (lba s n : ℕ) : sectorData c lba s (n + 1) =
    bytesOf (c (lba + s)) sectorLen ++ sectorData c lba (s + 1) n := by
  simp [sectorData, List.range'_succ]

variable {σ : Type} {f : σ → List Byte → σ}

theorem reads_eachSector (h : Clean c v) {lba n s rest : ℕ} (hrest : 0 < rest) (st : σ) :
    Reads c v (Vol.eachSector f lba n s rest st)
      (.ok (.ok (rest - n * sectorLen),
        (chunks sectorLen ((sectorData c lba s n).take rest)).foldl f st)) := by
  induction n generalizing v s rest st with
  | zero =>
    rw [Vol.eachSector]
    simpa [sectorData] using reads_pure h ((.ok rest, st) : Except FatError ℕ × σ)
  | succ n ih =>
    have hpos : 0 < sectorLen := by decide
    refine ((reads_readBuf h (lba + s)).attempt).bind fun v' hv' ↦ ?_
    dsimp only
    rcases Nat.lt_or_ge sectorLen rest with hlt | hge
    · rw [min_eq_right hlt.le, if_neg (by omega), sectorData_succ,
        List.take_append, length_bytesOf, List.take_of_length_le (by simp; omega),
        chunks_append hpos _ (by simp),
        chunks_of_le (by simp [← List.length_pos_iff, hpos]) (by simp),
        List.foldl_append]
      have hmore : 0 < rest - sectorLen := Nat.sub_pos_of_lt hlt
      have hnext := ih hv'.clean (s := s + 1) hmore (f st (bytesOf (c (lba + s)) sectorLen))
      rw [show rest - (n + 1) * sectorLen = rest - sectorLen - n * sectorLen by
        rw [Nat.add_mul]; omega]
      exact hnext
    · rw [min_eq_left hge, Nat.sub_self, if_pos rfl, sectorData_succ,
        List.take_append_of_le_length (by simpa using hge), take_bytesOf hge,
        chunks_of_le (by simp [← List.length_pos_iff, hrest]) (by simpa using hge),
        show rest - (n + 1) * sectorLen = 0 by rw [Nat.add_mul]; omega]
      exact reads_pure hv'.clean _

theorem Geometry.clusterBytes_eq (g : Geometry) :
    g.clusterBytes = g.clusterSectors * sectorLen := by
  simp [Geometry.clusterBytes, Geometry.clusterSectors, Nat.shiftLeft_eq, Nat.mul_comm]

@[simp]
theorem length_clusterData (g : Geometry) (c : Card) (n : ℕ) :
    (clusterData g c n).length = g.clusterBytes := by
  simp [clusterData, g.clusterBytes_eq]

theorem reads_eachCluster (hg : v.toGeometry.Ok) (h : Clean c v) {ns : List ℕ} {n fuel rest : ℕ}
    (hchain : IsChain v.toGeometry (fatAt v.toGeometry c) (n :: ns)) (hfuel : ns.length < fuel)
    (hlow : ns.length * v.clusterBytes < rest) (hhigh : rest ≤ (ns.length + 1) * v.clusterBytes)
    (st : σ) :
    Reads c v (Vol.eachCluster f fuel n rest st) (.ok (.ok (),
      (chunks sectorLen (((n :: ns).flatMap (clusterData v.toGeometry c)).take rest)).foldl f
        st)) := by
  have hpos : 0 < sectorLen := by decide
  induction ns generalizing v n fuel rest st with
  | nil =>
    obtain ⟨hn, he⟩ := hchain
    cases fuel with
    | zero => simp at hfuel
    | succ fuel =>
      refine (reads_gets h id).bind fun v₁ hv₁ ↦ ?_
      rw [id, if_neg (by simp [hn])]
      refine (reads_eachSector hv₁.clean (by omega) st).bind fun v₂ hv₂ ↦ ?_
      dsimp only
      have hg₂ : v₂.toGeometry = v.toGeometry := hv₂.geometry.trans hv₁.geometry
      have hnext := (reads_nextCluster_none hv₂.clean (n := n) (hg.lt_eoc hn).2.2.2
        (by rwa [hg₂])).attempt
      refine hnext.bind fun v₃ hv₃ ↦ ?_
      dsimp only
      rw [if_pos]
      · simpa [clusterData] using reads_pure hv₃.clean _
      · rw [Geometry.clusterBytes_eq, List.length_nil, Nat.zero_add, Nat.one_mul] at hhigh
        omega
  | cons m ns ih =>
    obtain ⟨hn, he, htail⟩ := hchain
    cases fuel with
    | zero => simp at hfuel
    | succ fuel =>
      refine (reads_gets h id).bind fun v₁ hv₁ ↦ ?_
      rw [id, if_neg (by simp [hn])]
      refine (reads_eachSector hv₁.clean (by omega) st).bind fun v₂ hv₂ ↦ ?_
      dsimp only
      have hg₂ : v₂.toGeometry = v.toGeometry := hv₂.geometry.trans hv₁.geometry
      have hnext := (reads_nextCluster_some (hg₂ ▸ hg) hv₂.clean (n := n) (m := m)
        (hg.lt_eoc hn).2.2.2 (by rwa [hg₂]) (hg₂ ▸ htail.isCluster)).attempt
      refine hnext.bind fun v₃ hv₃ ↦ ?_
      have hg₃ : v₃.toGeometry = v.toGeometry := hv₃.geometry.trans hg₂
      dsimp only
      have hb := v.toGeometry.clusterBytes_eq
      rw [List.length_cons, Nat.add_mul] at hlow
      rw [List.length_cons, Nat.add_mul (ns.length + 1)] at hhigh
      rw [← hb, if_neg (by omega)]
      -- the rest of the file is the rest of the chain
      have hlow' : ns.length * v₃.clusterBytes < rest - v.clusterBytes := by
        rw [hg₃]
        omega
      have hhigh' : rest - v.clusterBytes ≤ (ns.length + 1) * v₃.clusterBytes := by
        rw [hg₃]
        omega
      have hrest :=
        ih (hg₃ ▸ hg) hv₃.clean (n := m) (by rwa [hg₃]) (by simpa using hfuel) hlow' hhigh'
        ((chunks sectorLen ((sectorData c (v.clusterLba n) 0 v.clusterSectors).take rest)).foldl f
          st)
      rw [hg₃] at hrest
      rw [List.flatMap_cons, List.take_append, length_clusterData,
        chunks_append hpos _ (by
          rw [List.take_of_length_le (by simp; omega), length_clusterData, hb]
          exact Dvd.intro_left _ rfl),
        List.foldl_append]
      exact hrest

/-- A file with these contents: its chain has just the clusters that its size needs. -/
structure HasContents (g : Geometry) (c : Card) (file : DirEntry) (contents : List Byte) :
    Prop where
  notDir : file.isDir = false
  size : file.size = contents.length
  empty : contents = [] → file.cluster = 0
  chain : contents ≠ [] → ∃ ns, IsChain g (fatAt g c) (file.cluster :: ns) ∧
    ns.length * g.clusterBytes < contents.length ∧
    contents.length ≤ (ns.length + 1) * g.clusterBytes ∧
    contents = ((file.cluster :: ns).flatMap (clusterData g c)).take contents.length

/-- **`for_each_sector` goes through the file's contents.** -/
theorem reads_forEachSector (hg : v.toGeometry.Ok) (h : Clean c v) {file : DirEntry}
    {contents : List Byte} (hfile : HasContents v.toGeometry c file contents) (st : σ) :
    Reads c v (Vol.forEachSector file f st)
      (.ok (.ok (), (chunks sectorLen contents).foldl f st)) := by
  rw [Vol.forEachSector, if_neg (by simp [hfile.notDir])]
  by_cases hne : contents = []
  · subst hne
    have hsize : file.size = 0 := hfile.size
    rw [if_pos hsize, if_pos (hfile.empty rfl)]
    exact reads_pure h _
  · obtain ⟨ns, hchain, hlow, hhigh, hdata⟩ := hfile.chain hne
    have hsize := hfile.size
    have hpos : 0 < contents.length := List.length_pos_iff.mpr hne
    rw [if_neg (by omega), hsize]
    have hb : 0 < v.clusterBytes := by
      rw [Geometry.clusterBytes_eq, Geometry.clusterSectors, Nat.one_shiftLeft]
      exact Nat.mul_pos (Nat.two_pow_pos _) (by decide)
    have hle : ns.length ≤ ns.length * v.clusterBytes := Nat.le_mul_of_pos_right _ hb
    have hfuel : ns.length < contents.length := hle.trans_lt hlow
    have hread := reads_eachCluster hg h (f := f) hchain hfuel hlow hhigh st
    rwa [← hdata] at hread

end Vux9k

import Vux9k.Fat.Operations

/-!
# Directories made and removed

`mkdir` and `rmdir` of `fw_common/src/fat/write.rs`, as steps of the table.
-/

set_option autoImplicit false

namespace Vux9k

open Vol (Slot Listing)

variable {g : Geometry} {d d' : Disk} {t : Table} {lost : Set ℕ}

/-! ## `rmdir` -/

theorem Geometry.Laid.dataLba_pos (hg : g.Laid) {n : ℕ} (hn : g.isCluster n = true) :
    0 < g.dataLba := by
  have hlt := (hg.toOk.lt_eoc hn).2.1
  have hentries := hg.entries
  have hdata := hg.data
  rcases hg.fats with h | h <;> rw [h] at hdata <;> omega

/-- **A directory is empty** if it lists nothing besides `.` and `..`. -/
theorem Listed.empty_iff {es : List (DirEntry × Option (List Byte))}
    {items : ShortName → Option Item}
    (h : Listed es items) :
    (∀ x ∈ es, x.1.name = dot ∨ x.1.name = dotDot) ↔ ∀ name, items name = none := by
  constructor
  · intro hall name
    by_contra hne
    obtain ⟨y, hy⟩ := Option.ne_none_iff_exists'.mp hne
    obtain ⟨hplain, x, hx, rfl⟩ := h.listed name y hy
    rcases hall x hx with heq | heq
    · exact dot_not_plain.1 (heq ▸ hplain)
    · exact dot_not_plain.2 (heq ▸ hplain)
  · intro hnone x hx
    by_contra hdots
    have hplain : x.1.name.Plain := by
      by_contra hplain
      exact hdots (h.dots x hx hplain).1
    obtain ⟨y, hy, -⟩ := h.stands x hx hplain
    rw [hnone] at hy
    cases hy

/-- The table without the empty directory `j`. -/
theorem Table.Sound.rmdir {root i j : ℕ} {name : ShortName} (h : t.Sound root)
    (hitem : t.item i name = some (.dir j)) (hj0 : j ≠ 0)
    (hempty : ∀ inner, t.item j inner = none) :
    ({ t with dirs := t.dirs \ {j} }.set i name none : Table).Sound root := by
  have hof :
      ∀ {k m x}, ({ t with dirs := t.dirs \ {j} }.set i name none : Table).item k m = some x →
      ¬(k = i ∧ m = name) ∧ t.item k m = some x := by
    intro k m x hx
    by_cases hkm : k = i ∧ m = name
    · rw [hkm.1, hkm.2, Table.set_item_self] at hx
      cases hx
    · rw [Table.set_item_of_ne hkm] at hx
      exact ⟨hkm, hx⟩
  refine ⟨⟨h.root_mem, fun hr ↦ (h.dir i name j hitem).2 hr.symm⟩, fun k m x hx ↦ ?_,
    fun k m l hx ↦ ?_, fun k m l c hx hl ↦ h.file k m l c (hof hx).2 hl.1,
    fun k m x l m' y hx hy ↦ h.unique k m x l m' y (hof hx).2 (hof hy).2⟩
  · refine ⟨h.inside k m x (hof hx).2, ?_⟩
    rintro rfl
    have := (hof hx).2
    rw [hempty] at this
    cases this
  · obtain ⟨hkm, hx'⟩ := hof hx
    obtain ⟨hl, hroot⟩ := h.dir k m l hx'
    refine ⟨⟨hl, ?_⟩, hroot⟩
    rintro rfl
    exact hkm (h.unique k m _ i name _ hx' hitem rfl hj0)

/-- **`rmdir` removes an empty directory**, or changes nothing. -/
theorem Disk.Models.ends_rmdir (hm : d.Models g t lost) (hg : g.Laid) {i : ℕ} {e : DirEntry}
    {x : Item}
    (hi : i ∈ t.dirs) (he : d.Has g t i e x) :
    Disk.Ends g (Vol.rmdir e) d (d.Steps g t lost (.rmdir i e.name)) := by
  have hstands := he.stands
  cases x with
  | file k contents =>
    rw [Vol.rmdir, if_pos (by rw [hstands.1]; exact Bool.false_ne_true)]
    exact ends_throw (hm.fails hg (.rmdirFile he.item) (.hold d.buf) hm.clean)
  | dir j =>
  obtain ⟨hdir, rfl⟩ := hstands
  have hj := (hm.sound.dir i e.name _ he.item).1
  obtain ⟨last, hlast⟩ := hm.ends hi
  obtain ⟨long, pb, pr, pa, hsits⟩ := he.sits
  have hlba : e.lba ≠ 0 := by
    have := hsits.data hg hlast
    have := hg.dataLba_pos (hm.dir_used hg hi).1
    omega
  rw [Vol.rmdir, if_neg (not_not.mpr hdir), if_neg (not_or.mpr ⟨hlba, he.plain⟩)]
  have hfind := looks_findEntry (g := g) hm.clean e fun x ↦ x.name ≠ dot && x.name ≠ dotDot
  rw [(hm.shows.tidy _ hj).find hdir] at hfind
  refine hfind.bind ?_ ?_
  swap
  · rintro err d' ⟨herr, -⟩
    cases herr
  rintro r _ ⟨hr, b, rfl⟩
  have hlisted := hm.shows.listed _ hj
  cases hfound : (d.entries g e.cluster).find? fun x ↦ x.1.name ≠ dot && x.1.name ≠ dotDot with
  | some y =>
    rw [hfound] at hr
    cases hr
    refine ends_throw (hm.fails hg (.rmdirUsed he.item ?_) (.hold b) hm.clean)
    by_contra hnone
    have hall := (hlisted.empty_iff.mpr fun name ↦ by
      by_contra hne
      exact hnone ⟨name, hne⟩) y (List.mem_of_find?_eq_some hfound)
    have hy := List.find?_some hfound
    simp only [ne_eq, decide_not, Bool.and_eq_true, Bool.not_eq_true', decide_eq_false_iff_not]
      at hy
    exact hall.elim hy.1 hy.2
  | none =>
    rw [hfound] at hr
    cases hr
    have hempty := hlisted.empty_iff.mp fun x hx ↦ by
      have := List.find?_eq_none.mp hfound x hx
      simp only [ne_eq, decide_not, Bool.and_eq_true, Bool.not_eq_true', decide_eq_false_iff_not]
        at this
      tauto
    rw [Option.map_none, Option.isSome_none, if_neg Bool.false_ne_true]
    refine (ends_beginChange (d := d.hold b) hm.clean).bind ?_ ?_
    swap
    · rintro err d' ⟨herr, -⟩
      cases herr
    rintro _ d₂ ⟨-, hcounts⟩
    have hm₂ := (hm.hold hg b).counts hg hcounts
    refine ((he.kept hm hg hi (hcounts.spares hg)).ends_deleteSlots hm₂ hg hi).bind ?_ ?_
    swap
    · rintro err d' ⟨herr, -⟩
      cases herr
    rintro _ d₃ ⟨-, hclean₃, hdropped⟩
    have hlayout := hm₂.layout.congr hdropped.fat
    have hshows := hm₂.shows.dropped hm₂.layout hg le_rfl hi
      (fun j name k contents h ↦ hm₂.file_ne hi h) he.plain hdropped
    have hcard : (d₃.free g).card = (d.free g).card := by
      rw [Disk.free, Disk.entry_congr hdropped.fat]
      exact congrArg Finset.card hcounts.free
    have hhead : e.cluster ∈ t.heads := .inl hj
    have hheads := Table.heads_rmdir hm.sound he.item
    have hj0 : e.cluster ≠ 0 := by
      have := Geometry.two_le_of_isCluster (hm.dir_used hg hj).1
      omega
    have hshows' : d₃.Shows g ({ t with dirs := t.dirs \ {e.cluster} }.set i e.name none) :=
      ⟨fun k hk ↦ hshows.tidy k hk.1, fun k hk ↦ hshows.listed k hk.1, hshows.holds,
        fun k m l hitem hl ↦ hshows.above k m l hitem hl.1⟩
    refine (hlayout.ends_freeChain hg hhead).mono ?_
    rintro r d₄ ⟨rfl, hclean₄, hlayout₄, hfree, hspares⟩
    refine .of_ok ?_ ⟨hclean₄, hm.sound.rmdir he.item hj0 hempty, ?_, ?_⟩
    · obtain ⟨last₃, hlast₃⟩ := hlayout.ends e.cluster hhead
      rw [hfree, hcard]
      exact .rmdirDone he.item hempty (List.length_pos_of_mem (Disk.first_mem_chain hlast₃))
    · rwa [hheads]
    · refine hshows'.freed hlayout hg ?_ hhead ?_ hspares
      · rw [hheads]
        exact Set.sdiff_subset
      · rw [hheads]
        exact fun h ↦ h.2 rfl

/-! ## A directory just made -/

theorem clusterPositions_two (g : Geometry) (n : ℕ) :
    ∃ ps, clusterPositions g n = (g.clusterLba n, 0) :: (g.clusterLba n, 1) :: ps ∧
      ∀ p ∈ ps, p.1 = g.clusterLba n ∧ 2 ≤ p.2 ∨
        g.clusterLba n < p.1 ∧ p.1 < g.clusterLba n + g.clusterSectors := by
  obtain ⟨k, hk⟩ := Nat.exists_eq_succ_of_ne_zero g.clusterSectors_pos.ne'
  rw [clusterPositions, hk, List.range'_succ, List.flatMap_cons]
  refine ⟨((List.range' 2 14).map fun i ↦ (g.clusterLba n + 0, i)) ++
    (List.range' 1 k).flatMap fun s ↦ sectorPositions (g.clusterLba n + s), rfl, fun p hp ↦ ?_⟩
  rcases List.mem_append.mp hp with hp | hp
  · obtain ⟨i, hi, rfl⟩ := List.mem_map.mp hp
    rw [List.mem_range'_1] at hi
    exact .inl ⟨rfl, hi.1⟩
  · obtain ⟨s, hs, hp⟩ := List.mem_flatMap.mp hp
    obtain ⟨i, -, rfl⟩ := List.mem_map.mp hp
    rw [List.mem_range'_1] at hs
    dsimp only
    omega

/-- What `mkdir` writes to the first sector of the new directory. -/
def dotsSector (first up : ℕ) : Sector :=
  splice (splice (fun _ ↦ 0#8) 0 (entryBytes dot attrDir first 0)) slotLen
    (entryBytes dotDot attrDir up 0)

theorem dotsSector_apply (first up j : ℕ) : dotsSector first up j =
    if j < slotLen then ofBytes (entryBytes dot attrDir first 0) j
    else if j < 2 * slotLen then ofBytes (entryBytes dotDot attrDir up 0) (j - slotLen)
      else 0#8 := by
  rw [dotsSector, splice, splice, length_entryBytes, length_entryBytes, slotLen]
  by_cases h₁ : j < 32
  · rw [if_neg (by omega), if_pos (by omega), if_pos h₁]
    rfl
  · by_cases h₂ : j < 2 * 32
    · rw [if_pos (by omega), if_neg h₁, if_pos h₂]
      rfl
    · rw [if_neg (by omega), if_neg (by omega), if_neg h₁, if_neg h₂]

theorem isRaw_dots (first up : ℕ) : IsRaw (entryBytes dot attrDir first 0) ∧
    IsRaw (entryBytes dotDot attrDir up 0) := by
  have hdot : dot.Shown ∧ dotDot.Shown := by
    rw [ShortName.Shown, ShortName.Shown]
    decide
  exact ⟨isRaw_entryBytes hdot.1 (by decide) (by decide) first 0,
    isRaw_entryBytes hdot.2 (by decide) (by decide) up 0⟩

theorem isDir_dir : decide (attrDir &&& attrDir ≠ 0#8) = true := by decide

/-- The disk has a new directory at `c`, with `.` and `..` and nothing else. -/
structure Disk.Fresh (g : Geometry) (d : Disk) (c up : ℕ) : Prop where
  chain : d.chain g c = ([c], .ok c)
  dots : d.area (g.clusterLba c) = dotsSector c up
  zeros : ∀ l, g.clusterLba c < l → l < g.clusterLba c + g.clusterSectors → d.area l = fun _ ↦ 0#8

/-- Its slots: `.`, `..`, and free ones. -/
theorem Disk.Fresh.slots_eq {c up : ℕ} (h : d.Fresh g c up) : ∃ s₁ s₂ rest,
    d.slots g c = s₁ :: s₂ :: rest ∧
      SameBytes (ofBytes (entryBytes dot attrDir c 0)) s₁.bytes ∧
      SameBytes (ofBytes (entryBytes dotDot attrDir up 0)) s₂.bytes ∧
      ∀ s ∈ rest, s.bytes 0 = 0#8 := by
  obtain ⟨ps, hps, hin⟩ := clusterPositions_two g c
  refine ⟨slotAt d.area (g.clusterLba c, 0), slotAt d.area (g.clusterLba c, 1),
    ps.map (slotAt d.area), ?_, fun j hj ↦ ?_, fun j hj ↦ ?_, fun s hs ↦ ?_⟩
  · rw [Disk.slots_eq, Disk.positions, h.chain]
    simp [hps]
  · change d.area (g.clusterLba c) (0 * slotLen + j) = _
    rw [h.dots, dotsSector_apply, Nat.zero_mul, Nat.zero_add, if_pos hj]
  · change d.area (g.clusterLba c) (1 * slotLen + j) = _
    rw [h.dots, dotsSector_apply, if_neg (by omega), if_pos (by omega), Nat.one_mul,
      Nat.add_sub_cancel_left]
  · obtain ⟨p, hp, rfl⟩ := List.mem_map.mp hs
    change d.area p.1 (p.2 * slotLen + 0) = _
    rcases hin p hp with ⟨hlba, h2⟩ | hlba
    · have hmul := Nat.mul_le_mul_right slotLen h2
      rw [hlba, h.dots, dotsSector_apply, if_neg (by omega), if_neg (by omega)]
    · rw [h.zeros _ hlba.1 hlba.2]

/-- An entry of a directory, as it is read. -/
theorem parse_dirEntry {name : ShortName} {first : ℕ} {s : Slot} (hfirst : first < 2 ^ 32)
    (h : SameBytes (ofBytes (entryBytes name attrDir first 0)) s.bytes) (lfn : Option (ℕ × ℕ)) :
    (DirEntry.parse s.bytes s.lba s.index lfn).name = name ∧
      (DirEntry.parse s.bytes s.lba s.index lfn).isDir = true ∧
      (DirEntry.parse s.bytes s.lba s.index lfn).cluster = first := by
  rw [h.parse, parse_entryBytes name attrDir hfirst (by decide)]
  exact ⟨rfl, isDir_dir, rfl⟩

/-- **A new directory lists `.` and `..`.** -/
theorem Disk.Fresh.entries_eq {c up : ℕ} (h : d.Fresh g c up) (hc : c < 2 ^ 32)
    (hup : up < 2 ^ 32) :
    ∃ x y, d.entries g c = [x, y] ∧
      (x.1.name = dot ∧ x.1.isDir = true ∧ x.2 = none) ∧
      y.1.name = dotDot ∧ y.1.isDir = true ∧ y.2 = none ∧ y.1.cluster = up := by
  obtain ⟨s₁, s₂, rest, hslots, h₁, h₂, hzero⟩ := h.slots_eq
  obtain ⟨hraw₁, hraw₂⟩ := isRaw_dots c up
  have he₁ := h₁.isEntry.mpr hraw₁.entry
  have he₂ := h₂.isEntry.mpr hraw₂.entry
  change ∃ x y, calls (d.slots g c) = [x, y] ∧ _
  rw [hslots, calls_eq, callsFrom, if_neg he₁.used, if_pos he₁, callsFrom, if_neg he₂.used,
    if_pos he₂, callsFrom_ended hzero]
  obtain ⟨hname₁, hdir₁, -⟩ := parse_dirEntry hc h₁ (((Listing.start ()).runAt s₁.bytes).map fun r ↦
    (r.1, r.2.1))
  have hstep := step_of_other (fun h ↦ he₁.notLfn h.2) (Listing.start ())
  obtain ⟨hname₂, hdir₂, hup₂⟩ := parse_dirEntry hup h₂ _
  exact ⟨_, _, rfl, ⟨hname₁, hdir₁, rfl⟩, hname₂, hdir₂, by rw [hstep]; rfl, hup₂⟩

theorem Disk.Fresh.listed {c up : ℕ} (h : d.Fresh g c up) (hc : c < 2 ^ 32) (hup : up < 2 ^ 32)
    {items : ShortName → Option Item} (hempty : ∀ name, items name = none) :
    Listed (d.entries g c) items := by
  obtain ⟨x, y, heq, ⟨hx, hxdir, hxlong⟩, hy, hydir, hylong, -⟩ := h.entries_eq hc hup
  rw [heq]
  refine ⟨?_, fun z hz hplain ↦ ?_, fun name z hz ↦ ?_, fun z hz _ ↦ ?_⟩
  · rw [List.map_cons, List.map_singleton, hx, hy]
    decide
  · rcases List.mem_pair.mp hz with rfl | rfl
    · exact absurd (hx ▸ hplain) dot_not_plain.1
    · exact absurd (hy ▸ hplain) dot_not_plain.2
  · rw [hempty] at hz
    cases hz
  · rcases List.mem_pair.mp hz with rfl | rfl
    · exact ⟨.inl hx, hxdir, hxlong⟩
    · exact ⟨.inr hy, hydir, hylong⟩

/-- Its `..` leads up. -/
theorem Disk.Fresh.above {c up i : ℕ} (h : d.Fresh g c up) (hc : c < 2 ^ 32) (hup : up < 2 ^ 32)
    (hi : up = i ∨ up = 0 ∧ i = g.root) : d.Above g c i := by
  obtain ⟨x, y, heq, -, hname, -, -, hcluster⟩ := h.entries_eq hc hup
  refine ⟨y, by rw [heq]; simp, hname, ?_⟩
  rwa [hcluster]

theorem Disk.Fresh.tidy {c up : ℕ} (h : d.Fresh g c up) : d.Tidy g c := by
  refine ⟨⟨c, by rw [h.chain]⟩, ?_⟩
  obtain ⟨s₁, s₂, rest, hslots, h₁, h₂, hzero⟩ := h.slots_eq
  obtain ⟨hraw₁, hraw₂⟩ := isRaw_dots c up
  rw [hslots, List.pairwise_cons, List.pairwise_cons]
  refine ⟨fun s _ h0 ↦ ?_, fun s _ h0 ↦ ?_, List.pairwise_of_forall_mem_list
    fun _ _ s hs _ ↦ hzero s hs⟩
  · exact absurd h0 (h₁.isEntry.mpr hraw₁.entry).used
  · exact absurd h0 (h₂.isEntry.mpr hraw₂.entry).used

/-! ## `mkdir` -/

/-- The disk with the cluster `c` filled as a new directory. -/
def Disk.dotted (g : Geometry) (d : Disk) (c up : ℕ) : Disk where
  fat := d.fat
  area l :=
    if l = g.clusterLba c then dotsSector c up
    else if g.clusterLba c < l ∧ l < g.clusterLba c + g.clusterSectors then fun _ ↦ 0#8
      else d.area l
  buf := dotsSector c up
  dirty := false

/-- `mkdir` fills the new directory, and puts it into the other. -/
theorem ends_fillDir (hg : g.Laid) {parent : DirEntry} {name : ShortName} {c up last : ℕ}
    (hlast : (d.chain g parent.cluster).2 = .ok last) :
    Disk.Ends g (Vol.fillDir parent name c up) d fun r d' ↦
      (∃ err, r = .error err ∧ FindsSlot g (d.dotted g c up) parent.cluster (.error err) d') ∨
        ∃ slot d₂, r = .ok slot ∧ FindsSlot g (d.dotted g c up) parent.cluster (.ok slot) d₂ ∧
          d' = (d₂.hold
            (splice (d₂.area slot.1) (slot.2 * slotLen) (entryBytes name attrDir c 0))).put
            slot.1 (splice (d₂.area slot.1) (slot.2 * slotLen) (entryBytes name attrDir c 0)) := by
  refine (returns_setBuf d fun _ ↦ 0#8).bind (ends_gets fun c₀ v hd ↦ ?_)
  have hlba : v.clusterLba c = g.clusterLba c := by rw [hd.geometry]
  have hsectors : v.clusterSectors = g.clusterSectors := by rw [hd.geometry]
  have hdata := g.dataLba_le_clusterLba c
  have hpos := g.clusterSectors_pos
  rw [id, hlba, hsectors]
  dsimp only
  refine (returns_writeSectors hdata _ 1).bind ?_
  refine (returns_mapBuf _ fun b ↦ splice (splice b 0 (entryBytes dot attrDir c 0)) slotLen
    (entryBytes dotDot attrDir up 0)).bind ?_
  refine (returns_writeBuf _ (.inr hdata)).bind ((returns_flushFat _).bind ?_)
  change Disk.Ends g _
    (⟨d.fat, Function.update _ _ (dotsSector c up), dotsSector c up, false⟩ : Disk) _
  have hdotted :
      (fun l ↦ if g.clusterLba c + 1 ≤ l ∧ l < g.clusterLba c + 1 + (g.clusterSectors - 1)
      then (fun _ ↦ 0#8) else d.area l) = fun l ↦ if g.clusterLba c < l ∧
        l < g.clusterLba c + g.clusterSectors then (fun _ ↦ 0#8) else d.area l := by
    funext l
    refine if_congr ?_ rfl rfl
    omega
  refine (congrArg (fun a ↦ Disk.Ends g _ (⟨d.fat, a, dotsSector c up, false⟩ : Disk) _) ?_).mpr
    (?_ : Disk.Ends g _ (d.dotted g c up) _)
  · funext l
    rw [Function.update_apply]
    refine if_congr Iff.rfl rfl ?_
    exact congrFun hdotted l
  have hslots := ends_freeSlot (d := d.dotted g c up) hg rfl hlast
  refine hslots.bind ?_ ?_
  · rintro slot d₂ hslot
    exact (returns_writeEntry d₂ hslot.data slot.2 _).bind
      (ends_pure (.inr ⟨slot, d₂, rfl, hslot, rfl⟩))
  · rintro err d' hslot
    exact .inl ⟨err, rfl, hslot⟩

section Dotted

variable {c : ℕ} (up : ℕ) (hc : c ∈ d.free g)
include hc

/-- A new directory takes one free cluster, -/
theorem gains_dotted : d.Gains g [c] ((d.take c none).dotted g c up) :=
  ⟨List.nodup_singleton c, fun _ hn ↦ List.mem_singleton.mp hn ▸ hc, rfl⟩

/-- and leaves the others as they are. -/
theorem spares_dotted (hg : g.Laid) :
    d.Spares g (fun _ ↦ False) ((d.take c none).dotted g c up) := by
  obtain ⟨hcluster, hfree⟩ := Disk.mem_free.mp hc
  have hfat : ∀ n, n ≠ c → ((d.take c none).dotted g c up).fat n = d.fat n := fun n hn ↦ by
    rw [(gains_dotted up hc).fat, linked_of_not_mem (by simpa using hn) (by simp)]
  refine ⟨fun n hn hused _ ↦ ⟨hfat n fun h ↦ hused (h ▸ hfree), fun s hs ↦ ?_⟩,
    fun n hn ↦ hfat n ?_, fun l j hl hne ↦ absurd (congrFun ?_ j) hne⟩
  · have hne : n ≠ c := fun h ↦ hused (h ▸ hfree)
    have := @clusterLba_apart g n c (hg.toOk.lt_eoc hn).1 (hg.toOk.lt_eoc hcluster).1 hne
    have hpos := g.clusterSectors_pos
    rw [Disk.dotted]
    dsimp only
    rw [if_neg (by omega), if_neg (by omega)]
    rfl
  · rintro rfl
    rw [hcluster] at hn
    cases hn
  · have := g.dataLba_le_clusterLba c
    have := hg.data
    rw [Disk.dotted]
    dsimp only
    rw [if_neg (by omega), if_neg (by omega)]
    rfl

theorem fresh_dotted (hg : g.Laid) : ((d.take c none).dotted g c up).Fresh g c up := by
  obtain ⟨hchain, last, hlast⟩ := Disk.chain_of_isChain hg ((gains_dotted up hc).isChain hg)
  obtain ⟨ns, hns, -, hlastOf⟩ := isChain_of_ending hlast
  have hnil : ns = [] := by
    have := hns.symm.trans hchain
    simpa using this
  subst hnil
  refine ⟨?_, if_pos rfl, fun l h₁ h₂ ↦ ?_⟩
  · refine Prod.ext hchain ?_
    rw [hlast]
    simpa using hlastOf.symm
  · rw [Disk.dotted]
    dsimp only
    rw [if_neg (by omega), if_pos ⟨h₁, h₂⟩]

/-- Given back, it leaves all as it was. -/
theorem ends_undotted (hg : g.Laid) (b : Sector) :
    Disk.Ends g (Vol.freeChain c) (((d.take c none).dotted g c up).hold b) fun r d' ↦
      r = .ok () ∧ d.Unchanged g d' ∧ d'.dirty = false := by
  have hgains := gains_dotted up hc
  have hspares := spares_dotted up hc hg
  have hfree :=
    returns_freeChain (d := ((d.take c none).dotted g c up).hold b) hg (hgains.isChain hg)
    hgains.nodup
  refine hfree.mono ?_
  rintro r d' ⟨rfl, rfl⟩
  have hfat : cleared ((d.take c none).dotted g c up).fat [c] = d.fat :=
    cleared_linked hg fun n hn ↦ Disk.mem_free.mp (hgains.free n hn)
  exact ⟨rfl, ⟨hfat, fun n hn hused hS ↦ ⟨congrFun hfat n, (hspares.cluster n hn hused hS).data⟩,
    fun n _ ↦ congrFun hfat n, hspares.before⟩, rfl⟩

end Dotted

/-- A table with a directory more that has no name yet. -/
theorem Table.Sound.opened {root c : ℕ} (h : t.Sound root)
    (hc : ∀ i name contents, t.item i name ≠ some (.file c contents)) :
    ({ t with dirs := insert c t.dirs } : Table).Sound root where
  root_mem := .inr h.root_mem
  inside i name x hx := .inr (h.inside i name x hx)
  dir i name k hk := ⟨.inr (h.dir i name k hk).1, (h.dir i name k hk).2⟩
  file i name k contents hk := by
    rintro (rfl | hmem)
    · exact hc i name contents hk
    · exact h.file i name k contents hk hmem
  unique := h.unique

/-- The disk with a new directory that has no name yet. -/
theorem Disk.Models.dotted (hm : d.Models g t lost) (hg : g.Laid) {c up : ℕ} (hc : c ∈ d.free g)
    (hup : up < 2 ^ 32) : ((d.take c none).dotted g c up).Models g
      { t with dirs := insert c t.dirs } lost := by
  obtain ⟨hcluster, hfree⟩ := Disk.mem_free.mp hc
  have hnot : ∀ i name contents, t.item i name ≠ some (.file c contents) := fun i name contents h ↦
    (hm.first_used hg h (by
      have := (hg.toOk.lt_eoc hcluster).1
      change c ≠ 0
      omega)).2 hfree
  have hnew : c ∉ t.dirs := fun h ↦ (hm.dir_used hg h).2 hfree
  have hspares := spares_dotted up hc hg
  have hfresh := fresh_dotted up hc hg
  have hshows := hm.shows.kept hm.layout hg le_rfl hspares
  have hlt : c < 2 ^ 32 := by
    have := (hg.toOk.lt_eoc hcluster).2
    simp only [eocMin] at this
    omega
  refine ⟨rfl, hm.sound.opened hnot, ?_, fun k hk ↦ ?_, fun k hk ↦ ?_, hshows.holds,
    fun k m l hitem hl ↦ hshows.above k m l hitem (hm.sound.dir k m l hitem).1⟩
  · have hlayout := hm.layout.gained hg (gains_dotted up hc) hspares
    have hheads : ({ t with dirs := insert c t.dirs } : Table).heads = insert c t.heads :=
      Set.ext fun _ ↦ or_assoc
    rwa [hheads]
  · rcases hk with rfl | hk
    · exact hfresh.tidy
    · exact hshows.tidy k hk
  · rcases hk with rfl | hk
    · refine hfresh.listed hlt hup fun name ↦ ?_
      by_contra hne
      obtain ⟨x, hx⟩ := Option.ne_none_iff_exists'.mp hne
      exact hnew (hm.sound.inside k name x hx)
    · exact hshows.listed k hk

section Mkdir

variable {c i : ℕ}

/-- The new directory under its name. -/
theorem Disk.Models.dirAdded (hm : d.Models g { t with dirs := insert c t.dirs } lost) (hg : g.Laid)
    (ht : t.Sound g.root) (hc : c ∉ t.dirs) (hi : i ∈ t.dirs) {name : ShortName}
    (hname : name.Proper)
    (hnone : t.item i name = none) (hlt : c < 2 ^ 32) (habove : d.Above g c i) {slot : ℕ × ℕ}
    (ha : d.Added g i (entryBytes name attrDir c 0) slot d') :
    d'.Models g ({ t with dirs := insert c t.dirs }.set i name (some (.dir c))) lost := by
  refine ⟨ha.clean.trans hm.clean,
    hm.sound.put (.inr hi) (fun k hk ↦ ?_) (fun k contents hk ↦ by cases hk)
    fun j m y hy _ heq ↦ ?_, ?_, ?_⟩
  · cases hk
    exact ⟨.inl rfl, fun h ↦ hc (h ▸ ht.root_mem)⟩
  · -- nothing else leads to the new directory
    cases y with
    | file k contents => exact absurd (.inl heq) (hm.sound.file j m k contents hy)
    | dir k =>
      have hkc : k = c := heq
      exact absurd (ht.dir j m k hy).1 (hkc ▸ hc)
  · have hlayout := hm.layout.added hg (.inl (.inr hi)) ha
    have hheads : ({ t with dirs := insert c t.dirs } : Table).heads = insert c t.heads :=
      Set.ext fun _ ↦ or_assoc
    rw [Table.heads_mkdir hnone]
    rwa [hheads] at hlayout
  · refine hm.shows.added hm.layout hg le_rfl (.inr hi) (fun _ _ _ _ h ↦ hm.file_ne (.inr hi) h) ha
      hname.plain hnone (fun lfn ↦ ?_) (fun k contents hk ↦ by cases hk) fun k hk ↦ by
        cases hk
        exact habove
    rw [parse_entryBytes name attrDir hlt (by decide)]
    exact ⟨rfl, isDir_dir, rfl⟩

end Mkdir

/-- **`mkdir` makes an empty directory**, or changes nothing. -/
theorem Disk.Models.ends_mkdir (hm : d.Models g t lost) (hg : g.Laid) {parent : DirEntry}
    (hdir : parent.isDir = true) (hi : parent.cluster ∈ t.dirs) {name : ShortName}
    (hname : name.Proper) : Disk.Ends g (Vol.mkdir parent name) d fun r d' ↦
      d.Steps g t lost (.mkdir parent.cluster name) (r.map fun _ ↦ ()) d' := by
  rw [Vol.mkdir, if_neg (not_not.mpr hdir)]
  refine (hm.ends_find hdir hi hname.plain).bind ?_ ?_
  swap
  · rintro err d' ⟨-, ⟨-, herr⟩ | ⟨_, _, _, _, herr⟩⟩
    · cases herr
    · cases herr
  rintro r _ ⟨⟨b, rfl⟩, ⟨hnone, hr⟩ | ⟨f, y, hf, hfname, hr⟩⟩
  swap
  · cases hr
    refine ends_throw (hm.fails hg (.mkdirTaken ?_) (.hold b) hm.clean)
    rw [← hfname, hf.item]
    simp
  cases hr
  rw [Option.isSome_none, if_neg Bool.false_ne_true]
  refine (ends_beginChange (d := d.hold b) hm.clean).bind ?_ ?_
  swap
  · rintro err d' ⟨herr, -⟩
    cases herr
  rintro _ d₂ ⟨-, hcounts⟩
  have hm₂ := (hm.hold hg b).counts hg hcounts
  have hu₂ : d.Unchanged g d₂ := (Disk.Unchanged.hold b).trans (hcounts.unchanged hg)
  have hfree₂ : (d₂.free g).card = (d.free g).card := congrArg Finset.card hcounts.free
  refine (ends_allocCluster hg (by simp)).bind ?_ ?_
  swap
  · intro err d' halloc
    generalize hr : (Except.error err : Except FatError ℕ) = r at halloc
    cases halloc with
    | ok => cases hr
    | full hfull =>
      cases hr
      refine hm.fails hg (.mkdirFull hnone ?_) hu₂ hm₂.clean
      rw [← hfree₂, hfull, Finset.card_empty]
      exact Nat.add_pos_left Nat.one_pos _
  intro c d' halloc
  generalize hr : (Except.ok c : Except FatError ℕ) = r at halloc
  cases halloc with
  | full => cases hr
  | ok hc =>
  cases hr
  refine ends_gets fun card v hd ↦ ?_
  dsimp only [id]
  generalize hup' : (if parent.cluster = v.root then 0 else parent.cluster) = up
  have hup : up < 2 ^ 32 := by
    have := (hg.toOk.lt_eoc (hm.dir_used hg hi).1).2
    simp only [eocMin] at this
    rw [← hup']
    split
    all_goals omega
  have hm₄ := hm₂.dotted hg hc hup
  have hcard₄ := (gains_dotted up hc).free_card hg
  rw [hfree₂, List.length_singleton] at hcard₄
  have hnew : c ∉ t.dirs := fun h ↦ (hm₂.dir_used hg h).2 (Disk.mem_free.mp hc).2
  have hlt : c < 2 ^ 32 := by
    have := (hg.toOk.lt_eoc (Disk.mem_free.mp hc).1).2
    simp only [eocMin] at this
    omega
  have hgrowth : ((d₂.take c none).dotted g c up).growth g parent.cluster =
      d.growth g parent.cluster := by
    rw [hm₂.growth_eq hg hi (spares_dotted up hc hg), hm.growth_eq hg hi hu₂.spares]
  obtain ⟨last, hlast⟩ := hm₄.ends (.inr hi)
  refine (ends_fillDir (d := d₂.take c none) hg hlast).attempt_bind ?_
  rintro _ d' (⟨err, rfl, hslot⟩ | ⟨slot, d₅, rfl, hslot, rfl⟩)
  · generalize hr : (Except.error err : Except FatError (ℕ × ℕ)) = r at hslot
    cases hslot with
    | found => cases hr
    | grown => cases hr
    | full hopen hfull b' =>
    cases hr
    refine (ends_undotted up hc hg b').attempt_bind ?_
    rintro _ d₆ ⟨rfl, hu₆, hclean₆⟩
    refine ends_throw (hm.fails hg (.mkdirFull hnone ?_) (hu₂.trans hu₆) hclean₆)
    rw [hfull, Finset.card_empty] at hcard₄
    rw [← hcard₄, ← hgrowth, Disk.growth, if_pos hopen]
    decide
  · have habove : ((d₂.take c none).dotted g c up).Above g c parent.cluster := by
      refine (fresh_dotted up hc hg).above hlt hup ?_
      have hroot : v.root = g.root := by rw [hd.geometry]
      rw [← hup', hroot]
      split
      · exact .inr ⟨rfl, ‹_›⟩
      · exact .inl rfl
    have hraw : IsRaw (entryBytes name attrDir c 0) :=
      isRaw_entryBytes hname.shown (by decide) (by decide) c 0
    have hadded := hslot.added hg rfl (hm₄.shows.tidy _ (.inr hi)) hraw
      (splice (d₅.area slot.1) (slot.2 * slotLen) (entryBytes name attrDir c 0))
    refine ends_pure (.of_ok ?_ (hm₄.dirAdded hg hm.sound hnew hi hname hnone hlt habove hadded))
    refine .made hnone hnew ?_
    rw [← hcard₄, ← hadded.free, ← hgrowth, Nat.add_comm 1]
    rfl

end Vux9k

import Vux9k.Fat.Layout

/-!
# Directories as tables of names

What a volume is for: directories that give names to files and directories, and files with contents.
`Table` is that and no more; directories and files are known by their first clusters, as by inode
numbers.  `Disk.Models` says that a disk stores a table: what its directories list, what the files'
chains hold, and that no cluster belongs to two of them.
-/

set_option autoImplicit false

namespace Vux9k

/-! ## Tables -/

/-- What a name stands for. -/
inductive Item : Type
  | file (first : ℕ) (contents : List Byte)
  | dir (first : ℕ)

/-- The first cluster; 0 for an empty file. -/
def Item.first : Item → ℕ
  | .file first _ => first
  | .dir first => first

/-- The directories there are, and what is in them. -/
structure Table : Type where
  dirs : Set ℕ
  item : ℕ → ShortName → Option Item

namespace Table

/-- The table with `name` in the directory `i` set. -/
def set (t : Table) (i : ℕ) (name : ShortName) (x : Option Item) : Table where
  dirs := t.dirs
  item k m := if k = i ∧ m = name then x else t.item k m

/-- Where the chains start. -/
def heads (t : Table) : Set ℕ :=
  {k | k ∈ t.dirs ∨ k ≠ 0 ∧ ∃ i name contents, t.item i name = some (.file k contents)}

/-- A table as a volume has them: everything has one name, and the root has none. -/
structure Sound (t : Table) (root : ℕ) : Prop where
  root_mem : root ∈ t.dirs
  inside : ∀ i name x, t.item i name = some x → i ∈ t.dirs
  dir : ∀ i name k, t.item i name = some (.dir k) → k ∈ t.dirs ∧ k ≠ root
  file : ∀ i name k contents, t.item i name = some (.file k contents) → k ∉ t.dirs
  unique : ∀ i name x j name' y, t.item i name = some x → t.item j name' = some y →
    x.first = y.first → x.first ≠ 0 → i = j ∧ name = name'

variable {t : Table} {root i : ℕ} {name : ShortName}

theorem set_item_self (x : Option Item) : (t.set i name x).item i name = x :=
  if_pos ⟨rfl, rfl⟩

theorem set_item_of_ne {x : Option Item} {k : ℕ} {m : ShortName} (h : ¬(k = i ∧ m = name)) :
    (t.set i name x).item k m = t.item k m := if_neg h

theorem set_item_dir (x : Option Item) :
    (t.set i name x).item i = Function.update (t.item i) name x := by
  funext m
  by_cases hm : m = name
  · rw [hm, set_item_self, Function.update_self]
  · rw [set_item_of_ne fun h ↦ hm h.2, Function.update_of_ne hm]

theorem set_item_other {x : Option Item} {k : ℕ} (h : k ≠ i) :
    (t.set i name x).item k = t.item k :=
  funext fun _ ↦ set_item_of_ne fun h' ↦ h h'.1

/-- A name taken out. -/
theorem Sound.drop (h : t.Sound root) (i : ℕ) (name : ShortName) :
    (t.set i name none).Sound root := by
  have hof : ∀ {k m x}, (t.set i name none).item k m = some x → t.item k m = some x := by
    intro k m x hx
    by_cases hkm : k = i ∧ m = name
    · obtain ⟨rfl, rfl⟩ := hkm
      rw [set_item_self] at hx
      cases hx
    · rwa [set_item_of_ne hkm] at hx
  exact ⟨h.root_mem, fun k m x hx ↦ h.inside k m x (hof hx), fun k m l hx ↦ h.dir k m l (hof hx),
    fun k m l c hx ↦ h.file k m l c (hof hx),
    fun k m x l m' y hx hy ↦ h.unique k m x l m' y (hof hx) (hof hy)⟩

/-- A name put in, for something that has no other. -/
theorem Sound.put (h : t.Sound root) (hi : i ∈ t.dirs) {x : Item}
    (hdir : ∀ k, x = .dir k → k ∈ t.dirs ∧ k ≠ root) (hfile : ∀ k c, x = .file k c → k ∉ t.dirs)
    (hunique : ∀ k m y, t.item k m = some y → ¬(k = i ∧ m = name) → y.first = x.first →
      x.first = 0) :
    (t.set i name (some x)).Sound root := by
  have hof : ∀ {k m y}, (t.set i name (some x)).item k m = some y →
      k = i ∧ m = name ∧ y = x ∨ ¬(k = i ∧ m = name) ∧ t.item k m = some y := by
    intro k m y hy
    by_cases hkm : k = i ∧ m = name
    · refine .inl ⟨hkm.1, hkm.2, ?_⟩
      rw [hkm.1, hkm.2, set_item_self] at hy
      exact (Option.some.inj hy).symm
    · rw [set_item_of_ne hkm] at hy
      exact .inr ⟨hkm, hy⟩
  refine ⟨h.root_mem, fun k m y hy ↦ ?_, fun k m l hy ↦ ?_, fun k m l c hy ↦ ?_,
    fun k m y l m' z hy hz heq hne ↦ ?_⟩
  · rcases hof hy with ⟨rfl, -⟩ | ⟨-, hy⟩
    · exact hi
    · exact h.inside k m y hy
  · rcases hof hy with ⟨-, -, hx⟩ | ⟨-, hy⟩
    · exact hdir l hx.symm
    · exact h.dir k m l hy
  · rcases hof hy with ⟨-, -, hx⟩ | ⟨-, hy⟩
    · exact hfile l c hx.symm
    · exact h.file k m l c hy
  · rcases hof hy with ⟨hk, hm, hyx⟩ | ⟨hkm, hy'⟩
    · rcases hof hz with ⟨hl, hm', -⟩ | ⟨hlm, hz'⟩
      · exact ⟨hk.trans hl.symm, hm.trans hm'.symm⟩
      · rw [hyx] at heq hne
        exact absurd (hunique l m' z hz' hlm heq.symm) hne
    · rcases hof hz with ⟨-, -, hzx⟩ | ⟨hlm, hz'⟩
      · rw [hzx] at heq
        exact absurd (heq.trans (hunique k m y hy' hkm heq)) hne
      · exact h.unique k m y l m' z hy' hz' heq hne

end Table

/-! ## Entries that stand for them -/

/-- A name other than `.` and `..`. -/
def ShortName.Plain (name : ShortName) : Prop := name.1.head? ≠ some 0x2E#8

/-- The entry stands for the item. -/
def Stands (e : DirEntry) : Item → Prop
  | .file first contents => e.isDir = false ∧ e.cluster = first ∧ e.size = contents.length
  | .dir first => e.isDir = true ∧ e.cluster = first

/-- The entries listed are those of the names, besides `.` and `..`. -/
structure Listed (es : List (DirEntry × Option (List Byte))) (items : ShortName → Option Item) :
    Prop where
  nodup : (es.map fun x ↦ x.1.name).Nodup
  stands : ∀ x ∈ es, x.1.name.Plain → ∃ y, items x.1.name = some y ∧ Stands x.1 y
  listed : ∀ name y, items name = some y → name.Plain ∧ ∃ x ∈ es, x.1.name = name
  dots : ∀ x ∈ es, ¬x.1.name.Plain →
    (x.1.name = dot ∨ x.1.name = dotDot) ∧ x.1.isDir = true ∧ x.2 = none

section Listed

variable {as bs es : List (DirEntry × Option (List Byte))} {items : ShortName → Option Item}
  {e : DirEntry} {long : Option (List Byte)}

/-- A name is in use if there is something under it. -/
theorem Listed.unused_iff (h : Listed es items) {name : ShortName} (hname : name.Plain) :
    (∀ x ∈ es, x.1.name ≠ name) ↔ items name = none := by
  constructor
  · intro hunused
    by_contra hne
    obtain ⟨y, hy⟩ := Option.ne_none_iff_exists'.mp hne
    obtain ⟨-, x, hx, hxname⟩ := h.listed name y hy
    exact hunused x hx hxname
  · rintro hnone x hx rfl
    obtain ⟨y, hy, -⟩ := h.stands x hx hname
    rw [hnone] at hy
    cases hy

/-- The entry listed under a name. -/
theorem Listed.of_mem (h : Listed es items) (he : (e, long) ∈ es) (hname : e.name.Plain) :
    ∃ y, items e.name = some y ∧ Stands e y := h.stands _ he hname

/-- **An entry more.** -/
theorem Listed.insert (h : Listed (as ++ bs) items) (hname : e.name.Plain)
    (hunused : items e.name = none) {x : Item} (hx : Stands e x) :
    Listed (as ++ (e, long) :: bs) (Function.update items e.name (some x)) := by
  have hnot := (h.unused_iff hname).mpr hunused
  have hmem : ∀ y, y ∈ as ++ (e, long) :: bs ↔ y = (e, long) ∨ y ∈ as ++ bs := fun y ↦ by
    simp only [List.mem_append, List.mem_cons]
    tauto
  refine ⟨?_, fun y hy hplain ↦ ?_, fun name y hy ↦ ?_, fun y hy hdot ↦ ?_⟩
  · have hperm : (as ++ (e, long) :: bs).Perm ((e, long) :: (as ++ bs)) := List.perm_middle
    rw [(hperm.map _).nodup_iff, List.map_cons, List.nodup_cons]
    refine ⟨fun hin ↦ ?_, h.nodup⟩
    obtain ⟨y, hy, hyname⟩ := List.mem_map.mp hin
    exact hnot y hy hyname
  · rcases (hmem y).mp hy with rfl | hy
    · exact ⟨x, Function.update_self _ _ _, hx⟩
    · obtain ⟨z, hz, hstands⟩ := h.stands y hy hplain
      exact ⟨z, by rwa [Function.update_of_ne (hnot y hy)], hstands⟩
  · by_cases hne : name = e.name
    · subst hne
      exact ⟨hname, _, (hmem _).mpr (.inl rfl), rfl⟩
    · rw [Function.update_of_ne hne] at hy
      obtain ⟨hplain, z, hz, hzname⟩ := h.listed name y hy
      exact ⟨hplain, z, (hmem z).mpr (.inr hz), hzname⟩
  · rcases (hmem y).mp hy with rfl | hy
    · exact absurd hname hdot
    · exact h.dots y hy hdot

/-- **An entry less.** -/
theorem Listed.erase (h : Listed (as ++ (e, long) :: bs) items) :
    Listed (as ++ bs) (Function.update items e.name none) := by
  have hperm : (as ++ (e, long) :: bs).Perm ((e, long) :: (as ++ bs)) := List.perm_middle
  have hnodup := h.nodup
  rw [(hperm.map _).nodup_iff, List.map_cons, List.nodup_cons] at hnodup
  have hne : ∀ y ∈ as ++ bs, y.1.name ≠ e.name := fun y hy heq ↦
    hnodup.1 (heq ▸ List.mem_map_of_mem hy)
  have hmem : ∀ y, y ∈ as ++ (e, long) :: bs ↔ y = (e, long) ∨ y ∈ as ++ bs := fun y ↦ by
    simp only [List.mem_append, List.mem_cons]
    tauto
  refine ⟨hnodup.2, fun y hy hplain ↦ ?_, fun name y hy ↦ ?_,
    fun y hy hdot ↦ h.dots y ((hmem y).mpr (.inr hy)) hdot⟩
  · obtain ⟨z, hz, hstands⟩ := h.stands y ((hmem y).mpr (.inr hy)) hplain
    exact ⟨z, by rwa [Function.update_of_ne (hne y hy)], hstands⟩
  · by_cases heq : name = e.name
    · rw [heq, Function.update_self] at hy
      cases hy
    · rw [Function.update_of_ne heq] at hy
      obtain ⟨hplain, z, hz, rfl⟩ := h.listed name y hy
      rcases (hmem z).mp hz with rfl | hz
      · exact absurd rfl heq
      · exact ⟨hplain, z, hz, rfl⟩

end Listed

/-! ## Disks that store a table -/

/-- The `..` of the directory at `j` leads to the directory at `i`; the root's cluster may be 0
there. -/
def Disk.Above (g : Geometry) (d : Disk) (j i : ℕ) : Prop :=
  ∃ x ∈ d.entries g j, x.1.name = dotDot ∧ (x.1.cluster = i ∨ x.1.cluster = 0 ∧ i = g.root)

theorem dot_not_plain : ¬dot.Plain ∧ ¬dotDot.Plain := by
  rw [ShortName.Plain, ShortName.Plain]
  decide

/-- A directory that keeps its `..`. -/
theorem Disk.Above.mono {g : Geometry} {d d' : Disk} {i j : ℕ} (h : d.Above g j i)
    (hkept : ∀ x ∈ d.entries g j, ¬x.1.name.Plain → x ∈ d'.entries g j) : d'.Above g j i := by
  obtain ⟨x, hx, hname, hcluster⟩ := h
  exact ⟨x, hkept x hx (hname ▸ dot_not_plain.2), hname, hcluster⟩

/-- The disk's directories list what the table has, and its files hold their contents. -/
structure Disk.Shows (g : Geometry) (d : Disk) (t : Table) : Prop where
  tidy : ∀ i ∈ t.dirs, d.Tidy g i
  listed : ∀ i ∈ t.dirs, Listed (d.entries g i) (t.item i)
  holds : ∀ i name k contents, t.item i name = some (.file k contents) → d.Holds g k contents
  above : ∀ i name j, t.item i name = some (.dir j) → j ∈ t.dirs → d.Above g j i

/-- **The disk stores the table**, and nothing else but the clusters in `lost`. -/
structure Disk.Models (g : Geometry) (d : Disk) (t : Table) (lost : Set ℕ) : Prop where
  clean : d.dirty = false
  sound : t.Sound g.root
  layout : d.Layout g t.heads lost
  shows : d.Shows g t

section Shows

variable {g : Geometry} {d d' : Disk} {t : Table} {H lost : Set ℕ}

/-- A file none of whose clusters is touched. -/
theorem Disk.Spares.holds_chain {S : ℕ → Prop} (hs : d.Spares g S d') (hg : g.Laid) {k : ℕ}
    {contents : List Byte} (hS : k ≠ 0 → ∀ n ∈ (d.chain g k).1, ¬S n) (hd : d.Holds g k contents) :
    d'.Holds g k contents := by
  refine hs.holds hd fun ns hchain ↦ ?_
  have hne : k ≠ 0 := by
    have := Geometry.two_le_of_isCluster hchain.isCluster
    omega
  have hall := hS hne
  rwa [(Disk.chain_of_isChain hg hchain).1] at hall

/-- What of a table is stored as before, when only the directory `i` is touched. -/
theorem Disk.Shows.spared (hs : d.Shows g t) (hl : d.Layout g H lost) (hg : g.Laid)
    (hsub : t.heads ⊆ H) {i : ℕ} (hi : i ∈ H) (hsp : d.Spares g (· ∈ (d.chain g i).1) d') :
    (∀ k ∈ t.dirs, k ≠ i → d'.Tidy g k ∧ d'.entries g k = d.entries g k) ∧
      ∀ j name k contents, k ≠ i → t.item j name = some (.file k contents) →
        d'.Holds g k contents := by
  refine ⟨fun k hk hne ↦ ?_, fun j name k contents hne hitem ↦ ?_⟩
  · have hkH : k ∈ H := hsub (.inl hk)
    have hapart := hl.apart k hkH i hi hne
    obtain ⟨last, hlast⟩ := hl.ends k hkH
    refine ⟨hsp.tidy hg (hs.tidy k hk) hapart, ?_⟩
    rw [Disk.entries, hsp.directory_eq hg hlast hapart]
    rfl
  · refine hsp.holds_chain hg (fun h0 ↦ ?_) (hs.holds j name k contents hitem)
    exact hl.apart k (hsub (.inr ⟨h0, j, name, contents, hitem⟩)) i hi hne

/-- The same, when nothing in use is touched. -/
theorem Disk.Shows.kept (hs : d.Shows g t) (hl : d.Layout g H lost) (hg : g.Laid)
    (hsub : t.heads ⊆ H) (hsp : d.Spares g (fun _ ↦ False) d') : d'.Shows g t := by
  have hentries : ∀ k ∈ t.dirs, d'.entries g k = d.entries g k := fun k hk ↦ by
    obtain ⟨last, hlast⟩ := hl.ends k (hsub (.inl hk))
    rw [Disk.entries, hsp.directory_eq hg hlast fun _ _ ↦ id]
    rfl
  refine ⟨fun k hk ↦ hsp.tidy hg (hs.tidy k hk) fun _ _ ↦ id, fun k hk ↦ ?_,
    fun j name k contents hitem ↦ ?_, fun j name k hitem hk ↦ ?_⟩
  · rw [hentries k hk]
    exact hs.listed k hk
  · exact hsp.holds_chain hg (fun _ _ _ ↦ id) (hs.holds j name k contents hitem)
  · rw [Disk.Above, hentries k hk]
    exact hs.above j name k hitem hk

/-- A change that neither takes nor frees a cluster, and touches none in use. -/
theorem Disk.Models.kept (hm : d.Models g t lost) (hg : g.Laid) (hfat : d'.fat = d.fat)
    (hsp : d.Spares g (fun _ ↦ False) d') (hclean : d'.dirty = false) : d'.Models g t lost :=
  ⟨hclean, hm.sound, hm.layout.congr hfat, hm.shows.kept hm.layout hg le_rfl hsp⟩

end Shows

end Vux9k

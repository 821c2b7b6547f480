import Vux9k.Fat.Erase

/-!
# Well-formed trees

What a file system promises of its directories: each has one entry, in the directory that its `..`
names, and `.` and `..` have no long names.  Then `parent`, which goes two `..` up and comes back
down by a search for the cluster, is the way back from an entry to the directory it is in.
-/

set_option autoImplicit false

namespace Vux9k

namespace Tree

/-- `e` is the entry of a directory, in the directory `d`. -/
structure Child (t : Tree) (d e : DirEntry) : Prop where
  mem : ∃ long, (e, long) ∈ (t.dirs d.cluster).entries
  isDir : e.isDir = true
  name : e.name.1.head? ≠ some 0x2E#8

/-- The directories of the tree: the root and, by their entries, those below it. -/
inductive IsDirectory (t : Tree) : DirEntry → Prop
  | root : t.IsDirectory (.root t.root)
  | child {d e : DirEntry} (hd : t.IsDirectory d) (he : t.Child d e) : t.IsDirectory e

/-- The cluster that `..` names in a directory in `d`: 0 for the root, or its own. -/
def Names (t : Tree) (up : ℕ) (d : DirEntry) : Prop :=
  up = d.cluster ∨ up = 0 ∧ d.cluster = t.root

/-- A well-formed tree of directories. -/
structure WellFormed (t : Tree) : Prop where
  /-- A directory has a cluster, which is not the root's. -/
  cluster : ∀ d e, t.IsDirectory d → t.Child d e → e.cluster ≠ 0 ∧ e.cluster ≠ t.root
  /-- A directory has one entry. -/
  unique : ∀ d d' e e', t.IsDirectory d → t.IsDirectory d' → t.Child d e → t.Child d' e' →
    e.cluster = e'.cluster → e = e'
  /-- Its `..` names the directory it is in. -/
  dotDot : ∀ d e, t.IsDirectory d → t.Child d e → ∃ up long,
    (t.dirs e.cluster).entries.find? (fun x ↦ x.1.name = Vux9k.dotDot) = some (up, long) ∧
      up.isDir = true ∧ t.Names up.cluster d
  /-- `.` and `..` have no long names. -/
  dots : ∀ d e long, t.IsDirectory d → (e, long) ∈ (t.dirs d.cluster).entries →
    e.name.1.head? = some 0x2E#8 → long = none

variable {t : Tree} {d e : DirEntry}

theorem isDir_root (cluster : ℕ) : (DirEntry.root cluster).isDir = true := by
  change decide (attrDir &&& attrDir ≠ 0#8) = true
  decide

theorem IsDirectory.isDir (h : t.IsDirectory d) : d.isDir = true := by
  cases h with
  | root => exact isDir_root t.root
  | child _ he => exact he.isDir

/-- The root is the directory at the root's cluster. -/
theorem WellFormed.eq_root (hw : t.WellFormed) (h : t.IsDirectory d) (hd : d.cluster = t.root) :
    d = .root t.root := by
  cases h with
  | root => rfl
  | child hd' he => exact absurd hd (hw.cluster _ _ hd' he).2

theorem WellFormed.cluster_ne (hw : t.WellFormed) (h : t.IsDirectory d) (hd : d.cluster ≠ t.root) :
    d.cluster ≠ 0 := by
  cases h with
  | root => exact absurd rfl hd
  | child hd' he => exact (hw.cluster _ _ hd' he).1

theorem first_of_find? {dir : Directory} {p : DirEntry → Option (List Byte) → Bool}
    {long : Option (List Byte)} (h : dir.entries.find? (fun x ↦ p x.1 x.2) = some (e, long)) :
    dir.first p = .ok (some e) := by
  rw [Directory.first, Directory.answer, h]
  rfl

/-- `dot_dot` leads to the directory an entry is in, or to the root. -/
theorem WellFormed.dotDot_eq (hw : t.WellFormed) (hd : t.IsDirectory d) (he : t.Child d e)
    {e' : DirEntry} (hdir : e'.isDir = true) (hcluster : e'.cluster = e.cluster) :
    d.cluster = t.root ∧ t.dotDot e' = .ok none ∨
      d.cluster ≠ t.root ∧ ∃ up, up.isDir = true ∧ up.cluster = d.cluster ∧
        t.dotDot e' = .ok (some up) := by
  obtain ⟨up, long, hfind, hup, hnames⟩ := hw.dotDot d e hd he
  have hsome : t.find e' (fun x _ ↦ x.name = Vux9k.dotDot) = .ok (some up) := by
    rw [Tree.find, if_neg (not_not.mpr hdir), hcluster]
    exact first_of_find? hfind
  have heq : t.dotDot e' =
      .ok (if up.cluster ≠ 0 ∧ up.cluster ≠ t.root then some up else none) := by
    rw [Tree.dotDot, hcluster, if_neg (hw.cluster d e hd he).2, hsome]
    rfl
  by_cases hroot : d.cluster = t.root
  · refine .inl ⟨hroot, ?_⟩
    rw [heq, if_neg]
    rintro ⟨h0, hr⟩
    rcases hnames with h | ⟨h, -⟩
    · exact hr (h.trans hroot)
    · exact h0 h
  · have hcl : up.cluster = d.cluster := hnames.resolve_right fun h ↦ hroot h.2
    refine .inr ⟨hroot, up, hup, hcl, ?_⟩
    rw [heq, if_pos ⟨hcl ▸ hw.cluster_ne hd hroot, hcl ▸ hroot⟩]

/-- The directory's entry is found by its cluster. -/
theorem WellFormed.find_eq (hw : t.WellFormed) (hd : t.IsDirectory d) (he : t.Child d e)
    {holder : DirEntry} (hdir : holder.isDir = true) (hcluster : holder.cluster = d.cluster) :
    t.find holder (fun x _ ↦ Vol.isEntryOf e.cluster x) = .ok (some e) := by
  obtain ⟨long, hmem⟩ := he.mem
  have htakes : ∀ x, Vol.isEntryOf e.cluster x = true ↔
      x.isDir = true ∧ x.cluster = e.cluster ∧ x.name.1.head? ≠ some 0x2E#8 := by
    intro x
    simp only [Vol.isEntryOf, Bool.and_eq_true, decide_eq_true_eq, and_assoc]
  rw [Tree.find, if_neg (not_not.mpr hdir), hcluster]
  rcases hfind : (t.dirs d.cluster).entries.find? fun x ↦ Vol.isEntryOf e.cluster x.1 with
    _ | ⟨x, long'⟩
  · have hnone := List.find?_eq_none.mp hfind (e, long) hmem
    exact absurd ((htakes e).mpr ⟨he.isDir, rfl, he.name⟩) hnone
  · have htaken : Vol.isEntryOf e.cluster x = true := by
      simpa using List.find?_some hfind
    obtain ⟨hxdir, hxcl, hxname⟩ := (htakes x).mp htaken
    have hx : t.Child d x := ⟨⟨long', List.mem_of_find?_eq_some hfind⟩, hxdir, hxname⟩
    have hex := hw.unique d d x e hd hd hx he hxcl
    rw [← hex] at hfind ⊢
    exact first_of_find? hfind

theorem parent_root : t.parent (.root t.root) = .ok (.root t.root) := by
  have hdd : t.dotDot (.root t.root) = .ok none := if_pos rfl
  rw [Tree.parent, hdd]
  rfl

/-- **`..` of a directory is the directory it is in**, as its own entry. -/
theorem WellFormed.parent_eq (hw : t.WellFormed) (hd : t.IsDirectory d) (he : t.Child d e) :
    t.parent e = .ok d := by
  rw [Tree.parent]
  rcases hw.dotDot_eq hd he he.isDir rfl with ⟨hroot, hdd⟩ | ⟨hroot, up, hup, hcl, hdd⟩
  · rw [hdd, hw.eq_root hd hroot]
    rfl
  rw [hdd]
  -- the directory's own `..`, to find its entry
  cases hd with
  | root => exact absurd rfl hroot
  | @child d₀ d hd₀ hd' =>
    have hholder : ∃ above, t.dotDot up = .ok above ∧
        (above.getD (.root t.root)).isDir = true ∧
        (above.getD (.root t.root)).cluster = d₀.cluster := by
      rcases hw.dotDot_eq hd₀ hd' hup hcl with ⟨hroot₀, hdd₀⟩ | ⟨-, up₀, hup₀, hcl₀, hdd₀⟩
      · exact ⟨none, hdd₀, isDir_root t.root, hroot₀.symm⟩
      · exact ⟨some up₀, hdd₀, hup₀, hcl₀⟩
    obtain ⟨above, habove, hdir, hcluster⟩ := hholder
    have hfind := hw.find_eq hd₀ hd' hdir hcluster
    rw [← hcl] at hfind
    change (t.dotDot up >>= fun above ↦ t.find (above.getD (.root t.root))
      (fun e _ ↦ Vol.isEntryOf up.cluster e) >>= Tree.must) = _
    rw [habove]
    change (t.find (above.getD (.root t.root)) (fun e _ ↦ Vol.isEntryOf up.cluster e) >>=
      Tree.must) = _
    rw [hfind]
    rfl

end Tree

end Vux9k

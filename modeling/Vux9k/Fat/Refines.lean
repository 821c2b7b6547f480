import Vux9k.Fat.Replace
import Vux9k.Fat.Stores
import Vux9k.Fat.WellFormed

/-!
# The volume refines a table of names

The methods of `fw_common/src/fat/write.rs`, called one after the other with entries that the volume
has given out, on a card without errors: what they return, and what `find` and `read_to` return in
the end, is what a table of names would.  No cluster is lost on the way, and the tree stays well
formed.
-/

set_option autoImplicit false

namespace Vux9k

open Vol (Slot)

variable {c c' : Card} {v v' : Volume} {t : Table} {lost : Set ℕ}

/-! ## What a volume stores -/

/-- **The volume on the card stores the table**, and nothing else but the clusters in `lost`. -/
def Stored (c : Card) (v : Volume) (t : Table) (lost : Set ℕ) : Prop :=
  ∃ d, Depicts v.toGeometry d c v ∧ d.Models v.toGeometry t lost

theorem Depicts.free_eq {g : Geometry} {d : Disk} (hd : Depicts g d c v) : v.free c = d.free g := by
  ext n
  rw [mem_free, Disk.mem_free, Geometry.isCluster, hd.geometry]
  refine and_congr_right fun hn ↦ ?_
  rw [hd.entry_of_isCluster hn]


section Models

variable {g : Geometry} {d : Disk} (hm : d.Models g t lost)
include hm

/-- The directories of the tree are those of the table. -/
theorem Disk.Models.isDirectory {dir : DirEntry} (h : (d.tree g).IsDirectory dir) :
    dir.isDir = true ∧ dir.cluster ∈ t.dirs := by
  induction h with
  | root => exact ⟨isDir_root g.root, hm.sound.root_mem⟩
  | @child dir e hdir he ih =>
    obtain ⟨long, hmem⟩ := he.mem
    obtain ⟨x, hx⟩ := hm.has ih.2 hmem he.name
    refine ⟨he.isDir, ?_⟩
    have hstands := hx.stands
    cases x with
    | file k contents => exact absurd he.isDir (by rw [hstands.1]; exact Bool.false_ne_true)
    | dir k => exact hstands.2 ▸ (hm.sound.dir _ _ _ hx.item).1

/-- The entry of a directory, as the table has it. -/
theorem Disk.Models.child {dir e : DirEntry} (hdir : (d.tree g).IsDirectory dir)
    (he : (d.tree g).Child dir e) : t.item dir.cluster e.name = some (.dir e.cluster) := by
  obtain ⟨long, hmem⟩ := he.mem
  obtain ⟨x, hx⟩ := hm.has (hm.isDirectory hdir).2 hmem he.name
  have hstands := hx.stands
  cases x with
  | file k contents => exact absurd he.isDir (by rw [hstands.1]; exact Bool.false_ne_true)
  | dir k => exact hstands.2.symm ▸ hx.item

/-- A directory lists an entry once. -/
theorem Disk.Models.eq_of_name {i : ℕ} (hi : i ∈ t.dirs) {x y : DirEntry × Option (List Byte)}
    (hx : x ∈ d.entries g i) (hy : y ∈ d.entries g i) (hname : x.1.name = y.1.name) : x = y :=
  List.inj_on_of_nodup_map (hm.shows.listed i hi).nodup hx hy hname

/-- **The tree is well formed.** -/
theorem Disk.Models.wellFormed (hg : g.Laid) : (d.tree g).WellFormed where
  cluster dir e hdir he := by
    have hitem := hm.child hdir he
    obtain ⟨hmem, hroot⟩ := hm.sound.dir _ _ _ hitem
    have := Geometry.two_le_of_isCluster (hm.dir_used hg hmem).1
    exact ⟨by omega, hroot⟩
  unique dir dir' e e' hdir hdir' he he' hcluster := by
    have hitem := hm.child hdir he
    have hitem' := hm.child hdir' he'
    have h0 : e.cluster ≠ 0 := by
      have := Geometry.two_le_of_isCluster (hm.dir_used hg (hm.sound.dir _ _ _ hitem).1).1
      omega
    obtain ⟨hi, hname⟩ := hm.sound.unique _ _ _ _ _ _ hitem hitem' hcluster h0
    obtain ⟨long, hmem⟩ := he.mem
    obtain ⟨long', hmem'⟩ := he'.mem
    rw [← hi] at hmem'
    exact (Prod.mk.inj (hm.eq_of_name (hm.isDirectory hdir).2 hmem hmem' hname)).1
  dotDot dir e hdir he := by
    have hitem := hm.child hdir he
    have hi := (hm.sound.dir _ _ _ hitem).1
    obtain ⟨⟨up, long⟩, hmem, hname, hcluster⟩ := hm.shows.above _ _ _ hitem hi
    refine ⟨up, long, ?_, ?_, hcluster.imp id fun h ↦ ⟨h.1, h.2⟩⟩
    · change (d.entries g e.cluster).find? _ = _
      cases hfind : (d.entries g e.cluster).find? fun x ↦ x.1.name = dotDot with
      | none => exact absurd hname (by simpa using List.find?_eq_none.mp hfind _ hmem)
      | some y =>
        have hy := List.find?_some hfind
        rw [hm.eq_of_name hi (List.mem_of_find?_eq_some hfind) hmem
          ((of_decide_eq_true hy).trans hname.symm)]
    · exact ((hm.shows.listed _ hi).dots _ hmem (by rw [hname]; exact dot_not_plain.2)).2.1
  dots dir e long hdir hmem hname :=
    ((hm.shows.listed _ (hm.isDirectory hdir).2).dots _ hmem (not_not.mpr hname)).2.2

end Models

/-! ## Calls, and what they mean -/

/-- The call, with entries that the volume gives out now, is the operation on names. -/
inductive Call.Names (c : Card) (v : Volume) : Call → Op → Prop
  | create {dir : DirEntry} {name : ShortName} {data : List Byte}
      (hdir : (treeOn c v).IsDirectory dir) (hname : name.Proper) (hdata : data.length < 2 ^ 32) :
      Names c v (.create dir name data) (.create dir.cluster name data)
  | rename {dir entry : DirEntry} {name : ShortName} (hdir : (treeOn c v).IsDirectory dir)
      (hentry : Returned c v dir entry) (hplain : entry.name.Plain) (hname : name.Proper) :
      Names c v (.rename dir entry name) (.rename dir.cluster entry.name name)
  | remove {dir entry : DirEntry} (hdir : (treeOn c v).IsDirectory dir)
      (hentry : Returned c v dir entry) (hplain : entry.name.Plain) :
      Names c v (.remove entry) (.remove dir.cluster entry.name)
  | mkdir {dir : DirEntry} {name : ShortName} (hdir : (treeOn c v).IsDirectory dir)
      (hname : name.Proper) : Names c v (.mkdir dir name) (.mkdir dir.cluster name)
  | rmdir {dir entry : DirEntry} (hdir : (treeOn c v).IsDirectory dir)
      (hentry : Returned c v dir entry) (hplain : entry.name.Plain) :
      Names c v (.rmdir entry) (.rmdir dir.cluster entry.name)
  | replace {dir : DirEntry} {name : ShortName} {data : List Byte}
      (hdir : (treeOn c v).IsDirectory dir) (hname : name.Proper) (hdata : data.length < 2 ^ 32) :
      Names c v (.replace dir name data) (.replace dir.cluster name data)
  | moveTo {src entry dst : DirEntry} {name : ShortName} (hsrc : (treeOn c v).IsDirectory src)
      (hdst : (treeOn c v).IsDirectory dst) (hentry : Returned c v src entry)
      (hplain : entry.name.Plain) (hname : name.Proper) :
      Names c v (.moveTo src entry dst name) (.moveTo src.cluster entry.name dst.cluster name)

section Step

variable {g : Geometry} {d : Disk}

theorem Depicts.returned (hd : Depicts g d c v) (hm : d.Models g t lost) {dir e : DirEntry}
    (hi : dir.cluster ∈ t.dirs) (he : Returned c v dir e) (hplain : e.name.Plain) :
    ∃ x, d.Has g t dir.cluster e x := by
  obtain ⟨long, hmem⟩ := he.mem
  rw [hd.directory_eq] at hmem
  exact hm.has hi hmem hplain

/-- What is said of the outcome, without what the method returns. -/
theorem Disk.Ends.discard {α : Type} {m : Vol α} {P : Except FatError Unit → Disk → Prop}
    (h : Disk.Ends g m d fun r d' ↦ P (r.map fun _ ↦ ()) d') :
    Disk.Ends g (m >>= fun _ ↦ pure ()) d P :=
  h.bind (fun _ _ hr ↦ ends_pure hr) fun _ _ hr ↦ hr

/-- **A call is a step of the table.** -/
theorem Disk.Models.ends_call (hm : d.Models g t lost) (hd : Depicts g d c v) {call : Call}
    {op : Op}
    (hcall : call.Names c v op) : Disk.Ends g call.run d (d.Steps g t lost op) := by
  have hg := hd.laid
  have hdirs : ∀ {dir : DirEntry}, (treeOn c v).IsDirectory dir →
      dir.isDir = true ∧ dir.cluster ∈ t.dirs := fun h ↦ by
    rw [hd.tree_eq] at h
    exact hm.isDirectory h
  cases hcall with
  | create hdir hname hdata =>
    obtain ⟨hdir, hi⟩ := hdirs hdir
    refine Disk.Ends.discard ((hm.ends_create hg hdir hi hname hdata).mono ?_)
    rintro r d' (⟨err, rfl, hsteps⟩ | ⟨e, rfl, hcreated⟩)
    · exact hsteps
    · exact hcreated.steps
  | rename hdir hentry hplain hname =>
    obtain ⟨hdir, hi⟩ := hdirs hdir
    obtain ⟨x, hx⟩ := hd.returned hm hi hentry hplain
    exact hm.ends_rename hg hdir hi hx hname
  | remove hdir hentry hplain =>
    obtain ⟨-, hi⟩ := hdirs hdir
    obtain ⟨x, hx⟩ := hd.returned hm hi hentry hplain
    exact hm.ends_remove hg hi hx
  | mkdir hdir hname =>
    obtain ⟨hdir, hi⟩ := hdirs hdir
    exact Disk.Ends.discard (hm.ends_mkdir hg hdir hi hname)
  | rmdir hdir hentry hplain =>
    obtain ⟨-, hi⟩ := hdirs hdir
    obtain ⟨x, hx⟩ := hd.returned hm hi hentry hplain
    exact hm.ends_rmdir hg hi hx
  | replace hdir hname hdata =>
    obtain ⟨hdir, hi⟩ := hdirs hdir
    exact Disk.Ends.discard (hm.ends_replace hg hdir hi hname hdata)
  | moveTo hsrc hdst hentry hplain hname =>
    obtain ⟨hsrc, hi⟩ := hdirs hsrc
    obtain ⟨hdst, hj⟩ := hdirs hdst
    obtain ⟨x, hx⟩ := hd.returned hm hi hentry hplain
    exact Disk.Ends.discard (hm.ends_moveTo hg hsrc hdst hi hj hx hname)

end Step

/-- How many clusters a directory needs for one entry more. -/
def growthAt (c : Card) (v : Volume) (first : ℕ) : ℕ :=
  if (dirSlots c v first).find? Slot.isOpen = none then 1 else 0

theorem growthAt_le (c : Card) (v : Volume) (first : ℕ) : growthAt c v first ≤ 1 := by
  rw [growthAt]
  split
  · exact le_rfl
  · exact Nat.zero_le 1

/-- Nothing has changed: no word of the FAT, no slot of a directory, no cluster in use; and nothing
waits to be written. -/
structure Intact (c : Card) (v : Volume) (t : Table) (c' : Card) (v' : Volume) : Prop where
  clean : v'.fatDirty = false
  fat : ∀ n < v.entries, v'.raw c' n = v.raw c n
  slots : ∀ i ∈ t.dirs, dirSlots c' v' i = dirSlots c v i
  data : ∀ n, v.isCluster n = true → v.entry c n ≠ 0 →
    clusterData v.toGeometry c' n = clusterData v.toGeometry c n

section Depicts

variable {g : Geometry} {d d' : Disk}

theorem Depicts.growthAt_eq (hd : Depicts g d c v) : growthAt c v = d.growth g := by
  funext i
  rw [growthAt, hd.slots_eq, Disk.growth, Disk.openSlot]

theorem Depicts.intact (hd : Depicts g d c v) (hd' : Depicts g d' c' v') (hm : d.Models g t lost)
    (hclean : d'.dirty = false) (h : d.Unchanged g d') : Intact c v t c' v' where
  clean := hd'.clean hclean
  fat n hn := by
    rw [hd.geometry] at hn
    rw [hd'.fat n hn, hd.fat n hn, h.fat]
  slots i hi := by
    obtain ⟨last, hlast⟩ := hm.ends hi
    rw [hd'.slots_eq, hd.slots_eq, h.spares.slots_eq hd.laid hlast fun _ _ ↦ id]
  data n hn hused := by
    rw [Geometry.isCluster, hd.geometry] at hn
    rw [hd.entry_of_isCluster hn] at hused
    rw [hd.geometry, hd'.clusterData_eq, hd.clusterData_eq]
    exact clusterData_congr (h.spares.cluster n hn hused id).data

end Depicts

/-- **On the card: a call ends, and is a step of the table.**  If it fails, nothing has changed,
unless it is `replace`. -/
theorem Stored.step (h : Stored c v t lost) {call : Call} {op : Op} (hcall : call.Names c v op) :
    ∃ r v' ws t', onCard (call.run v) c = ((r, v'), ws) ∧ v'.toGeometry = v.toGeometry ∧
      t.Step v.need (growthAt c v) (v.free c).card op r t' (v'.free (c.after ws)).card ∧
        Stored (c.after ws) v' t' lost ∧
          ∀ err, r = .error err → op.Whole → Intact c v t (c.after ws) v' := by
  obtain ⟨d, hd, hm⟩ := h
  obtain ⟨r, v', ws, d', hrun, hd', t', hstep, hm', hwhole⟩ := hm.ends_call hd hcall c v hd
  refine ⟨r, v', ws, t', hrun, hd'.geometry, ?_, ⟨d', ?_, ?_⟩, fun err herr hop ↦ ?_⟩
  · rwa [hd.free_eq, hd'.free_eq, hd.growthAt_eq]
  · rwa [hd'.geometry]
  · rwa [hd'.geometry]
  · exact hd.intact hd' hm hm'.clean (hwhole err herr hop)

/-! ## Runs -/

/-- Calls one after the other, each with entries that the volume gives out then. -/
inductive Calls : Card → Volume → List (Op × Except FatError Unit) → Card → Volume → Prop
  | nil (c : Card) (v : Volume) : Calls c v [] c v
  | cons {c c' : Card} {v v₁ v' : Volume} {call : Call} {op : Op} {r : Except FatError Unit}
      {ws : List Wr} {ops : List (Op × Except FatError Unit)} (hcall : call.Names c v op)
      (hrun : onCard (call.run v) c = ((r, v₁), ws)) (hrest : Calls (c.after ws) v₁ ops c' v') :
      Calls c v ((op, r) :: ops) c' v'

/-- Steps of a table, one after the other, with directories that grow by a cluster at a time. -/
inductive Table.Steps (need : List Byte → ℕ) :
    Table → ℕ → List (Op × Except FatError Unit) → Table → ℕ → Prop
  | nil (t : Table) (n : ℕ) : Steps need t n [] t n
  | cons {t t₁ t' : Table} {n n₁ n' : ℕ} {op : Op} {r : Except FatError Unit} {grow : ℕ → ℕ}
      {ops : List (Op × Except FatError Unit)} (hgrow : ∀ i, grow i ≤ 1)
      (hstep : t.Step need grow n op r t₁ n₁)
      (hrest : Steps need t₁ n₁ ops t' n') : Steps need t n ((op, r) :: ops) t' n'

theorem Stored.steps (h : Stored c v t lost) {ops : List (Op × Except FatError Unit)}
    (hcalls : Calls c v ops c' v') : ∃ t', v'.toGeometry = v.toGeometry ∧
      t.Steps v.need (v.free c).card ops t' (v'.free c').card ∧ Stored c' v' t' lost := by
  induction hcalls generalizing t with
  | nil c v => exact ⟨t, rfl, .nil t _, h⟩
  | @cons c c' v v₁ v' call op r ws ops hcall hrun hrest ih =>
    obtain ⟨r', v₂, ws', t₁, hrun', hgeom, hstep, h₁, -⟩ := h.step hcall
    rw [hrun] at hrun'
    cases hrun'
    obtain ⟨t', hgeom', hsteps, h'⟩ := ih h₁
    rw [hgeom] at hsteps
    exact ⟨t', hgeom'.trans hgeom, .cons (growthAt_le c v) hstep hsteps, h'⟩

/-! ## What can be read -/

/-- **The tree that the volume shows is well formed.** -/
theorem Stored.wellFormed (h : Stored c v t lost) : (treeOn c v).WellFormed := by
  obtain ⟨d, hd, hm⟩ := h
  rw [hd.tree_eq]
  exact hm.wellFormed hd.laid

theorem Stored.isDirectory (h : Stored c v t lost) {dir : DirEntry}
    (hdir : (treeOn c v).IsDirectory dir) : dir.isDir = true ∧ dir.cluster ∈ t.dirs := by
  obtain ⟨d, hd, hm⟩ := h
  rw [hd.tree_eq] at hdir
  exact hm.isDirectory hdir

/-- **`find` and `read_to` show the table**: what has no name is not found, and what is found under
the name of a file is read as the table has it. -/
structure Shown (c : Card) (v : Volume) (t : Table) (dir : DirEntry) (name : ShortName) : Prop where
  absent : t.item dir.cluster name = none → Stays c v (Vol.find dir name) (.ok none)
  present : ∀ x, t.item dir.cluster name = some x → ∃ e v₁,
    onCard (Vol.find dir name v) c = ((.ok (some e), v₁), []) ∧ Rests c v v₁ ∧ Stands e x ∧
      ∀ k contents len, x = .file k contents → contents.length ≤ len →
        Reads c v₁ (Vol.readTo e len) (.ok contents)

theorem Stored.shown (h : Stored c v t lost) {dir : DirEntry} (hdir : (treeOn c v).IsDirectory dir)
    {name : ShortName} (hname : name.Plain) : Shown c v t dir name := by
  obtain ⟨hisDir, hi⟩ := h.isDirectory hdir
  obtain ⟨d, hd, hm⟩ := h
  have hg := hd.laid
  have hsettled := hd.settled hm.clean
  obtain ⟨r, v₁, hrun, hrests⟩ := stays_findEntry hsettled dir fun e ↦ e.name = name
  obtain ⟨r', v₁', ws', d', hrun', -, -, hfound⟩ := hm.ends_find hisDir hi hname c v hd
  have hsame := hrun.symm.trans hrun'
  simp only [Prod.mk.injEq] at hsame
  obtain ⟨⟨rfl, rfl⟩, rfl⟩ := hsame
  rcases hfound with ⟨hnone, rfl⟩ | ⟨e, x, he, rfl, rfl⟩
  · refine ⟨fun _ ↦ ⟨v₁, hrun, hrests⟩, fun x hx ↦ ?_⟩
    rw [hnone] at hx
    cases hx
  · refine ⟨fun hnone ↦ ?_, fun y hy ↦ ⟨e, v₁, hrun, hrests, ?_, ?_⟩⟩
    · rw [he.item] at hnone
      cases hnone
    · rw [he.item] at hy
      cases hy
      exact he.stands
    · intro k contents len hyfile hlen
      rw [he.item] at hy
      cases hy
      subst hyfile
      obtain ⟨hfile, hcluster, hsize⟩ := he.stands
      have hd₁ := hd.rests hm.clean hrests
      have hcontents : HasContents v.toGeometry c e contents := by
        rw [hd.hasContents_iff hm.clean]
        exact ⟨hfile, hsize, hcluster ▸ hm.shows.holds _ _ _ _ he.item⟩
      rw [← hrests.geometry] at hcontents
      exact reads_readTo hrests.settled.laid.toOk hrests.settled.toClean hcontents hlen

/-! ## Whose the clusters are -/

/-- Every cluster in use is in the chain of one directory or file of the table, or in `lost`; the
chains end, and a file's is as long as its contents need. -/
structure Owned (c : Card) (v : Volume) (t : Table) (lost : Set ℕ) : Prop where
  used : ∀ n, v.isCluster n = true →
    (v.entry c n ≠ 0 ↔ n ∈ lost ∨ ∃ k ∈ t.heads, n ∈ chainOf c v k)
  once : ∀ k ∈ t.heads, ∀ l ∈ t.heads, ∀ n ∈ chainOf c v k, n ∈ chainOf c v l → k = l
  lost : ∀ n ∈ lost, ∀ k ∈ t.heads, n ∉ chainOf c v k
  ends : ∀ k ∈ t.heads, ∃ last, (chainFrom v.toGeometry (v.entry c) v.clusterEnd k).2 = .ok last
  length : ∀ i name k contents, t.item i name = some (.file k contents) → k ≠ 0 →
    (chainOf c v k).length = v.need contents

theorem Stored.owned (h : Stored c v t lost) : Owned c v t lost := by
  obtain ⟨d, hd, hm⟩ := h
  have hchain : ∀ k, chainOf c v k = (d.chain v.toGeometry k).1 := fun k ↦ by
    rw [chainOf, hd.chain_eq]
  refine ⟨fun n hn ↦ ?_, fun k hk l hl n hnk hnl ↦ ?_, fun n hn k hk ↦ ?_, fun k hk ↦ ?_,
    fun i name k contents hitem h0 ↦ ?_⟩
  · simp only [hchain]
    rw [hd.entry_of_isCluster hn]
    exact hm.layout.used n hn
  · rw [hchain] at hnk hnl
    by_contra hne
    exact hm.layout.apart k hk l hl hne n hnk hnl
  · rw [hchain]
    exact hm.layout.lost n hn k hk
  · rw [hd.chain_eq]
    exact hm.layout.ends k hk
  · rw [hchain]
    exact ((hm.shows.holds i name k contents hitem).length hd.laid h0).1

/-! ## An empty volume -/

/-- The table of an empty volume. -/
def emptyTable (root : ℕ) : Table := ⟨{root}, fun _ _ ↦ none⟩

theorem emptyTable_item {root i : ℕ} {name : ShortName} {x : Item} :
    (emptyTable root).item i name ≠ some x := (Option.some_ne_none x).symm

theorem stored_small : Stored smallCard smallVolume (emptyTable 2) ∅ := by
  obtain ⟨-, hfresh⟩ := fresh_mount mount_small
  have hsettled : Settled smallCard smallVolume :=
    ⟨hfresh.laid, hfresh.dirty, fun hne ↦ absurd hfresh.cached hne⟩
  have hchain : (diskOf smallCard smallVolume).chain smallVolume.toGeometry 2 = ([2], .ok 2) := rfl
  have hentries : (diskOf smallCard smallVolume).entries smallVolume.toGeometry 2 = [] := rfl
  have hzero : ∀ s ∈ (diskOf smallCard smallVolume).slots smallVolume.toGeometry 2,
      s.bytes 0 = 0#8 := by decide
  have hdirs : ∀ i ∈ (emptyTable 2).dirs, i = 2 := fun i hi ↦ hi
  have hheads : (emptyTable 2).heads = {2} := by
    ext n
    simp [Table.heads, emptyTable]
  have hsound : (emptyTable 2).Sound 2 :=
    ⟨rfl, fun _ _ _ hx ↦ absurd hx emptyTable_item, fun _ _ _ hx ↦ absurd hx emptyTable_item,
      fun _ _ _ _ hx ↦ absurd hx emptyTable_item,
      fun _ _ _ _ _ _ hx ↦ absurd hx emptyTable_item⟩
  refine ⟨diskOf smallCard smallVolume, hsettled.depicts ⟨by decide, by decide⟩, rfl, hsound, ?_,
    fun i hi ↦ ?_, fun i hi ↦ ?_, fun _ _ _ _ hx ↦ absurd hx emptyTable_item,
    fun _ _ _ hx ↦ absurd hx emptyTable_item⟩
  · rw [hheads]
    refine ⟨fun k hk ↦ ?_, fun k hk l hl hne ↦ absurd (hk.trans hl.symm) hne, fun n hn ↦ ?_,
      fun n hn ↦ absurd hn (Set.notMem_empty n)⟩
    · rw [Set.mem_singleton_iff.mp hk, hchain]
      exact ⟨2, rfl⟩
    · have hall : ∀ n, 2 ≤ n → n < 4 → ((diskOf smallCard smallVolume).entry n ≠ 0 ↔ n = 2) := by
        intro n h2 h4
        interval_cases n
        · decide
        · decide
      rw [Geometry.isCluster, Bool.and_eq_true, decide_eq_true_eq, decide_eq_true_eq] at hn
      rw [hall n hn.1 hn.2]
      simp only [Set.mem_empty_iff_false, false_or, Set.mem_singleton_iff, exists_eq_left, hchain,
        List.mem_singleton]
  · rw [hdirs i hi]
    exact ⟨⟨2, by rw [hchain]⟩,
      List.pairwise_of_forall_mem_list fun _ _ s hs _ ↦ hzero s hs⟩
  · rw [hdirs i hi, hentries]
    exact ⟨List.nodup_nil, fun x hx ↦ absurd hx List.not_mem_nil,
      fun name y hy ↦ absurd hy emptyTable_item, fun x hx ↦ absurd hx List.not_mem_nil⟩

/-- The name that the calls give. -/
def nameOfA : ShortName := .ofFn fun _ ↦ 0x41#8

theorem nameOfA_proper : nameOfA.Proper := by
  refine ⟨?_, ?_⟩
  · rw [ShortName.Shown]
    decide
  · rw [ShortName.Plain]
    decide

theorem isDirectory_root : (treeOn smallCard smallVolume).IsDirectory (.root 2) := .root

/-- A file is made, and then again. -/
theorem calls_small : ∃ r r' c' v', Calls smallCard smallVolume
    [(.create 2 nameOfA [0x2A#8], r), (.create 2 nameOfA [0x2A#8], r')] c' v' := by
  have hnames : ∀ {c v}, v.root = 2 → Call.Names c v (.create (.root 2) nameOfA [0x2A#8])
      (.create 2 nameOfA [0x2A#8]) := fun {c v} hroot ↦ by
    have hdir : (treeOn c v).IsDirectory (.root 2) := hroot ▸ .root
    exact .create hdir nameOfA_proper (by decide)
  obtain ⟨r, v₁, ws, t₁, hrun, hgeom, -, h₁, -⟩ := stored_small.step (hnames rfl)
  obtain ⟨r', v₂, ws', t₂, hrun', -⟩ := h₁.step (hnames (congrArg Geometry.root hgeom))
  exact ⟨r, r', _, v₂, .cons (hnames rfl) hrun
    (.cons (hnames (congrArg Geometry.root hgeom)) hrun' (.nil _ _))⟩

/-! ## The results -/

/-- **No call loses or shares a cluster**, whether it succeeds or fails: after any calls the
clusters that were lost before are lost, and every other one is free or in one chain. -/
theorem no_cluster_lost (h : Stored c v t lost) {ops : List (Op × Except FatError Unit)}
    (hcalls : Calls c v ops c' v') :
    ∃ t', t.Steps v.need (v.free c).card ops t' (v'.free c').card ∧ Owned c' v' t' lost := by
  obtain ⟨t', -, hsteps, h'⟩ := h.steps hcalls
  exact ⟨t', hsteps, h'.owned⟩

theorem no_cluster_lost_small : ∃ r r' c' v' t', Calls smallCard smallVolume
    [(.create 2 nameOfA [0x2A#8], r), (.create 2 nameOfA [0x2A#8], r')] c' v' ∧
      (emptyTable 2).Steps smallVolume.need (smallVolume.free smallCard).card
        [(.create 2 nameOfA [0x2A#8], r), (.create 2 nameOfA [0x2A#8], r')] t' (v'.free c').card ∧
          Owned c' v' t' ∅ := by
  obtain ⟨r, r', c', v', hcalls⟩ := calls_small
  obtain ⟨t', hsteps, howned⟩ := no_cluster_lost stored_small hcalls
  exact ⟨r, r', c', v', t', hcalls, hsteps, howned⟩

/-- **`..` leads back after any calls**: the tree stays well formed, so `parent` finds the directory
that a directory is in. -/
theorem parent_after_calls (h : Stored c v t lost) {ops : List (Op × Except FatError Unit)}
    (hcalls : Calls c v ops c' v') : (treeOn c' v').WellFormed ∧
      ∀ dir e, (treeOn c' v').IsDirectory dir → (treeOn c' v').Child dir e →
        Peeks c' v' (Vol.parent e) (.ok dir) := by
  obtain ⟨t', -, -, h'⟩ := h.steps hcalls
  refine ⟨h'.wellFormed, fun dir e hdir he ↦ ?_⟩
  obtain ⟨d, hd, -⟩ := id h'
  rw [← h'.wellFormed.parent_eq hdir he]
  exact peeks_parent hd.sound e

theorem parent_after_calls_small :
    ∃ r c' v', Calls smallCard smallVolume [(.mkdir 2 nameOfA, r)] c' v' ∧
    (treeOn c' v').WellFormed ∧ ∀ dir e, (treeOn c' v').IsDirectory dir →
      (treeOn c' v').Child dir e → Peeks c' v' (Vol.parent e) (.ok dir) := by
  have hnames : Call.Names smallCard smallVolume (.mkdir (.root 2) nameOfA) (.mkdir 2 nameOfA) :=
    .mkdir isDirectory_root nameOfA_proper
  obtain ⟨r, v₁, ws, t₁, hrun, -⟩ := stored_small.step hnames
  have hcalls : Calls smallCard smallVolume [(.mkdir 2 nameOfA, r)] _ v₁ :=
    .cons hnames hrun (.nil _ _)
  exact ⟨r, _, v₁, hcalls, parent_after_calls stored_small hcalls⟩

/-! ## Calls that fail -/

/-- There are too few free clusters for the operation. -/
def Op.Short (t : Table) (need : List Byte → ℕ) (grow : ℕ → ℕ) (n : ℕ) : Op → Prop
  | .create i name data => t.item i name = none ∧ n < need data + grow i
  | .mkdir i name => t.item i name = none ∧ n < 1 + grow i
  | .moveTo i old j new => (∃ k contents, t.item i old = some (.file k contents)) ∧
      t.item j new = none ∧ i ≠ j ∧ n < grow j
  | _ => False

theorem Table.Step.full_iff {need : List Byte → ℕ} {grow : ℕ → ℕ} {t' : Table} {n n' : ℕ} {op : Op}
    {r : Except FatError Unit} (h : t.Step need grow n op r t' n') (hop : op.Whole) :
    r = .error .diskFull ↔ op.Short t need grow n := by
  cases h with
  | createTaken h => exact iff_of_false (by simp) fun hs ↦ h hs.1
  | createFull h hn => exact iff_of_true rfl ⟨h, hn⟩
  | created h hn => exact iff_of_false (by simp) fun hs ↦ by have := hs.2; omega
  | mkdirTaken h => exact iff_of_false (by simp) fun hs ↦ h hs.1
  | mkdirFull h hn => exact iff_of_true rfl ⟨h, hn⟩
  | made h hj hn => exact iff_of_false (by simp) fun hs ↦ by have := hs.2; omega
  | moveDir h =>
    refine iff_of_false (by simp) ?_
    rintro ⟨⟨k, contents, hk⟩, -⟩
    rw [h] at hk
    cases hk
  | moveTaken h hnew => exact iff_of_false (by simp) fun hs ↦ hnew hs.2.1
  | moveFull hij h hnew hn => exact iff_of_true rfl ⟨⟨_, _, h⟩, hnew, hij, hn⟩
  | moved h hnew hn =>
    refine iff_of_false (by simp) ?_
    rintro ⟨-, -, hij, hshort⟩
    rw [if_neg hij] at hn
    omega
  | replaceDir | replaceTemp | replaceFull | replaced => exact hop.elim
  | renameDir | renameTaken | renamed | removeDir | removed | rmdirFile | rmdirUsed | rmdirDone =>
    exact iff_of_false (by simp) id

/-- **The card is full exactly when there are too few clusters**: `create`, `mkdir` and `move_to`
return `DiskFull` just if the free clusters are fewer than the contents, the new directory and the
longer directory need, and the checks that come first pass; no other call does. -/
theorem disk_full_iff (h : Stored c v t lost) {call : Call} {op : Op} (hcall : call.Names c v op)
    (hop : op.Whole) : (onCard (call.run v) c).1.1 = .error .diskFull ↔
      op.Short t v.need (growthAt c v) (v.free c).card := by
  obtain ⟨r, v', ws, t', hrun, -, hstep, -⟩ := h.step hcall
  rw [hrun]
  exact hstep.full_iff hop

/-- A file that does not fit. -/
theorem names_large : Call.Names smallCard smallVolume
    (.create (.root 2) nameOfA (List.replicate 513 0x2A#8))
    (.create 2 nameOfA (List.replicate 513 0x2A#8)) :=
  .create isDirectory_root nameOfA_proper (by rw [List.length_replicate]; decide)

theorem short_large : (Op.create 2 nameOfA (List.replicate 513 0x2A#8)).Short (emptyTable 2)
    smallVolume.need (growthAt smallCard smallVolume) (smallVolume.free smallCard).card := by
  have hfree : (smallVolume.free smallCard).card = 1 := by decide
  have hbytes : smallVolume.clusterBytes = 512 := by decide
  have hneed := length_le_chunks (k := 512) (by decide) (List.replicate 513 (0x2A#8 : Byte))
  rw [List.length_replicate] at hneed
  refine ⟨rfl, ?_⟩
  rw [hfree, Geometry.need, hbytes]
  omega

theorem disk_full_iff_small :
    (onCard ((Call.create (.root 2) nameOfA (List.replicate 513 0x2A#8)).run smallVolume)
      smallCard).1.1 = .error .diskFull :=
  (disk_full_iff stored_small names_large trivial).mpr short_large

/-- **A call that fails changes nothing**, whatever it has already done when it fails: the FAT is as
it was to the bit, and so are all directories and all clusters in use. -/
theorem failed_call_changes_nothing (h : Stored c v t lost) {call : Call} {op : Op}
    (hcall : call.Names c v op) (hop : op.Whole) {err : FatError} {ws : List Wr}
    (hrun : onCard (call.run v) c = ((.error err, v'), ws)) : Intact c v t (c.after ws) v' := by
  obtain ⟨r, v₁, ws₁, t', hrun', -, -, -, hwhole⟩ := h.step hcall
  rw [hrun] at hrun'
  cases hrun'
  exact hwhole err rfl hop

theorem failed_call_changes_nothing_small : ∃ v' ws,
    onCard ((Call.create (.root 2) nameOfA (List.replicate 513 0x2A#8)).run smallVolume) smallCard =
      ((.error .diskFull, v'), ws) ∧ Intact smallCard smallVolume (emptyTable 2)
        (smallCard.after ws) v' := by
  obtain ⟨r, v', ws, t', hrun, -, hstep, -⟩ := stored_small.step names_large
  obtain rfl := (hstep.full_iff trivial).mpr short_large
  exact ⟨v', ws, hrun, failed_call_changes_nothing stored_small names_large trivial hrun⟩

/-! ## `replace` -/

/-- What `replace` makes of a table: the new contents under the name, or what was there; and nothing
else but a `~PUT.TMP` taken out. -/
structure Table.Replaced (t : Table) (i : ℕ) (name : ShortName) (data : List Byte)
    (r : Except FatError Unit) (t' : Table) : Prop where
  dirs : t'.dirs = t.dirs
  other : ∀ k m, ¬(k = i ∧ (m = name ∨ m = replaceTmp)) → t'.item k m = t.item k m
  ok : r = .ok () → (∃ first, t'.item i name = some (.file first data)) ∧
    t'.item i replaceTmp = none
  error : ∀ err, r = .error err → t'.item i name = t.item i name ∧
    (err = .wrongType ∨ err = .diskFull)

/-- `replace` fails, and the name holds what it did. -/
theorem Table.Replaced.fails {i : ℕ} {name : ShortName} {data : List Byte} {err : FatError}
    {t' : Table}
    (hdirs : t'.dirs = t.dirs)
    (hother : ∀ k m, ¬(k = i ∧ (m = name ∨ m = replaceTmp)) → t'.item k m = t.item k m)
    (hname : t'.item i name = t.item i name) (herr : err = .wrongType ∨ err = .diskFull) :
    t.Replaced i name data (.error err) t' := by
  refine ⟨hdirs, hother, fun hok ↦ ?_, fun err' h ↦ ?_⟩
  · cases hok
  · cases h
    exact ⟨hname, herr⟩

theorem Table.Step.replaced_of {need : List Byte → ℕ} {grow : ℕ → ℕ} {t' : Table} {n n' i : ℕ}
    {name : ShortName} {data : List Byte} {r : Except FatError Unit} (hne : name ≠ replaceTmp)
    (h : t.Step need grow n (.replace i name data) r t' n') : t.Replaced i name data r t' := by
  cases h with
  | replaceDir h => exact .fails rfl (fun _ _ _ ↦ rfl) rfl (.inl rfl)
  | replaceTemp h htemp => exact .fails rfl (fun _ _ _ ↦ rfl) rfl (.inl rfl)
  | replaceFull h htemp hk hn =>
    rw [Table.without_eq htemp]
    exact .fails rfl (fun k m hkm ↦ Table.set_item_of_ne fun h ↦ hkm ⟨h.1, .inr h.2⟩)
      (Table.set_item_of_ne fun h ↦ hne h.2) (.inr rfl)
  | replaced h htemp hk hn hold =>
    rw [Table.without_eq hold, Table.without_eq htemp]
    refine ⟨rfl, fun k m hkm ↦ ?_, fun _ ↦ ⟨⟨_, Table.set_item_self _⟩, ?_⟩, fun err herr ↦ ?_⟩
    · have hname : ¬(k = i ∧ m = name) := fun h ↦ hkm ⟨h.1, .inl h.2⟩
      rw [Table.set_item_of_ne hname, Table.set_item_of_ne hname,
        Table.set_item_of_ne fun h ↦ hkm ⟨h.1, .inr h.2⟩]
    · rw [Table.set_item_of_ne fun h ↦ hne h.2.symm, Table.set_item_of_ne fun h ↦ hne h.2.symm,
        Table.set_item_self]
    · cases herr

/-- **`replace` puts the new contents in place of the old, or leaves the old.**  When it succeeds,
the name holds the data and there is no `~PUT.TMP`; when it fails, the name holds what it did; and
in both cases everything else is as before. -/
theorem replace_outcome (h : Stored c v t lost) {dir : DirEntry} {name : ShortName}
    {data : List Byte}
    (hdir : (treeOn c v).IsDirectory dir) (hname : name.Proper) (hne : name ≠ replaceTmp)
    (hdata : data.length < 2 ^ 32) : ∃ r v' ws t',
      onCard ((Call.replace dir name data).run v) c = ((r, v'), ws) ∧
        t.Replaced dir.cluster name data r t' ∧
          ∀ k m, (treeOn (c.after ws) v').IsDirectory k → m.Plain →
          Shown (c.after ws) v' t' k m := by
  obtain ⟨r, v', ws, t', hrun, -, hstep, h', -⟩ := h.step (.replace hdir hname hdata)
  exact ⟨r, v', ws, t', hrun, hstep.replaced_of hne, fun _ _ hk hm ↦ h'.shown hk hm⟩

theorem replace_outcome_small : ∃ r v' ws t',
    onCard ((Call.replace (.root 2) nameOfA [0x2A#8]).run smallVolume) smallCard = ((r, v'), ws) ∧
      (emptyTable 2).Replaced 2 nameOfA [0x2A#8] r t' ∧
        ∀ k m, (treeOn (smallCard.after ws) v').IsDirectory k → m.Plain →
          Shown (smallCard.after ws) v' t' k m :=
  replace_outcome stored_small isDirectory_root nameOfA_proper (by decide) (by decide)

end Vux9k

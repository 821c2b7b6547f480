import Vux9k.Fat.Steps

/-!
# The methods as steps

Every method of `fw_common/src/fat/write.rs` that changes the volume, on a card without errors: what
it returns and what it leaves is a step of the table that the disk stores.
-/

set_option autoImplicit false

namespace Vux9k

open Vol (Slot Listing)

variable {g : Geometry} {d d' : Disk} {t : Table} {lost : Set ℕ}

/-! ## What a change spares -/

/-- The slots of a directory that is spared. -/
theorem Disk.Spares.slotAt_eq {S : ℕ → Prop} (h : d.Spares g S d') (hg : g.Laid) {first last : ℕ}
    (hlast : (d.chain g first).2 = .ok last) (hS : ∀ n ∈ (d.chain g first).1, ¬S n) {p : ℕ × ℕ}
    (hp : p ∈ d.positions g first) : slotAt d'.area p = slotAt d.area p := by
  obtain ⟨n, hn, hp⟩ := List.mem_flatMap.mp hp
  obtain ⟨-, k, hk, hpk⟩ := mem_clusterPositions hp
  obtain ⟨hcluster, hused⟩ := (Disk.chain_nodup hg hlast).2 n hn
  rw [slotAt, slotAt, hpk, (h.cluster n hcluster hused (hS n hn)).data k hk]

/-- An entry of a directory that is spared. -/
theorem Disk.Sits.spared {S : ℕ → Prop} {first last : ℕ} {e : DirEntry} {long : Option (List Byte)}
    {pb pr pa : List (ℕ × ℕ)} (hs : d.Sits g first e long pb pr pa) (h : d.Spares g S d')
    (hg : g.Laid) (hlast : (d.chain g first).2 = .ok last)
    (hS : ∀ n ∈ (d.chain g first).1, ¬S n) : d'.Sits g first e long pb pr pa := by
  have hmem : ∀ p ∈ pb ++ (pr ++ (e.lba, e.index) :: pa), slotAt d'.area p = slotAt d.area p :=
    fun p hp ↦ h.slotAt_eq hg hlast hS (hs.split ▸ hp)
  have hmap : ∀ ps : List (ℕ × ℕ), (∀ p ∈ ps, p ∈ pb ++ (pr ++ (e.lba, e.index) :: pa)) →
      ps.map (slotAt d'.area) = ps.map (slotAt d.area) := fun ps hps ↦
    List.map_congr_left fun p hp ↦ hmem p (hps p hp)
  have hpos := hmem (e.lba, e.index) (by simp)
  refine ⟨?_, fun p hp ↦ ?_, ?_, ?_, hs.start, ?_, ?_⟩
  · rw [Disk.positions, h.chain_eq hg hlast hS]
    exact hs.split
  · rw [hmem p (by rw [← List.append_assoc]; exact List.mem_append_left _ hp)]
    exact hs.used p hp
  · rw [hpos]
    exact hs.entry
  · rw [hpos]
    exact hs.parsed
  · rw [hmap pr fun p hp ↦ by simp [hp]]
    exact hs.names
  · rw [hmap pb fun p hp ↦ by simp [hp], hmap pa fun p hp ↦ by simp [hp], Disk.entries,
      h.directory_eq hg hlast hS]
    exact hs.listed

/-- Where the entry of a directory is, is in the data. -/
theorem Disk.Sits.data {first last : ℕ} {e : DirEntry} {long : Option (List Byte)}
    {pb pr pa : List (ℕ × ℕ)} (hs : d.Sits g first e long pb pr pa) (hg : g.Laid)
    (hlast : (d.chain g first).2 = .ok last) : g.dataLba ≤ e.lba :=
  (Disk.position_apart hg hlast (p := (e.lba, e.index)) (by rw [hs.split]; simp)).1

/-! ## The clusters of a file -/

/-- How many clusters contents take. -/
def Geometry.need (g : Geometry) (contents : List Byte) : ℕ :=
  (chunks g.clusterBytes contents).length

/-- **A file's chain is as long as its contents need.** -/
theorem Disk.Holds.length (hg : g.Laid) {k : ℕ} {contents : List Byte} (h : d.Holds g k contents)
    (hk : k ≠ 0) :
    (d.chain g k).1.length = g.need contents ∧ IsChain g d.entry (d.chain g k).1 := by
  have hne : contents ≠ [] := fun hnil ↦ hk (h.empty hnil)
  obtain ⟨ns, hchain, hlow, hhigh, -⟩ := h.chain hne
  have hpos := clusterBytes_pos g
  have hlt := length_chunks_lt hpos contents
  have hge := length_le_chunks hpos contents
  rw [(Disk.chain_of_isChain hg hchain).1]
  refine ⟨?_, hchain⟩
  rw [List.length_cons, Geometry.need]
  generalize (chunks g.clusterBytes contents).length = m at hlt hge ⊢
  have h₁ : ns.length < m := by
    by_contra hle
    have := Nat.mul_le_mul_right g.clusterBytes (not_lt.mp hle)
    omega
  have h₂ : m < ns.length + 2 := by
    by_contra hle
    have hmul := Nat.mul_le_mul_right g.clusterBytes (not_lt.mp hle)
    rw [Nat.add_mul] at hmul hhigh
    omega
  omega

theorem Disk.Holds.need_zero {contents : List Byte} (h : d.Holds g 0 contents) :
    g.need contents = 0 := by
  by_cases hne : contents = []
  · rw [Geometry.need, hne, chunks_nil]
    rfl
  · obtain ⟨ns, hchain, -⟩ := h.chain hne
    exact absurd (Geometry.two_le_of_isCluster hchain.isCluster) (by decide)

/-! ## Where the chains of a changed table start -/

namespace Table

variable {i j k : ℕ} {name old new : ShortName} {contents : List Byte}

/-- A name set where no chain started. -/
theorem heads_set {x : Option Item} (h : ∀ n c, t.item i name = some (.file n c) → n = 0) :
    (t.set i name x).heads = t.heads ∪ {n | n ≠ 0 ∧ ∃ c, x = some (.file n c)} := by
  ext n
  constructor
  · rintro (hn | ⟨hn, l, m, c, hl⟩)
    · exact .inl (.inl hn)
    · by_cases hlm : l = i ∧ m = name
      · rw [hlm.1, hlm.2, set_item_self] at hl
        exact .inr ⟨hn, c, hl⟩
      · rw [set_item_of_ne hlm] at hl
        exact .inl (.inr ⟨hn, l, m, c, hl⟩)
  · rintro ((hn | ⟨hn, l, m, c, hl⟩) | ⟨hn, c, rfl⟩)
    · exact .inl hn
    · refine .inr ⟨hn, l, m, c, ?_⟩
      rw [set_item_of_ne]
      · exact hl
      · rintro ⟨rfl, rfl⟩
        exact hn (h n c hl)
    · exact .inr ⟨hn, i, name, c, set_item_self _⟩

/-- Where no chain starts before and after. -/
theorem heads_set_other {x : Option Item} (h : ∀ n c, t.item i name = some (.file n c) → n = 0)
    (hx : ∀ n c, x = some (.file n c) → n = 0) : (t.set i name x).heads = t.heads := by
  rw [heads_set h]
  refine Set.union_eq_left.mpr ?_
  rintro n ⟨hn, c, hc⟩
  exact absurd (hx n c hc) hn

theorem heads_put (hitem : t.item i name = none) (hk : k ≠ 0) :
    (t.set i name (some (.file k contents))).heads = insert k t.heads := by
  rw [heads_set fun n c hn ↦ by rw [hitem] at hn; cases hn]
  ext n
  simp only [Set.mem_union, Set.mem_ofPred_eq, Set.mem_insert_iff, Option.some.injEq,
    Item.file.injEq]
  constructor
  · rintro (hn | ⟨-, c, rfl, -⟩)
    · exact .inr hn
    · exact .inl rfl
  · rintro (rfl | hn)
    · exact .inr ⟨hk, contents, rfl, rfl⟩
    · exact .inl hn

/-- A file without a name. -/
theorem heads_drop (h : t.Sound g.root) (hitem : t.item i name = some (.file k contents)) :
    (t.set i name none).heads = t.heads \ {k} := by
  ext n
  constructor
  · rintro (hn | ⟨hn, l, m, c, hl⟩)
    · exact ⟨.inl hn, fun heq ↦ h.file i name k contents hitem (heq ▸ hn)⟩
    · by_cases hlm : l = i ∧ m = name
      · rw [hlm.1, hlm.2, set_item_self] at hl
        cases hl
      · rw [set_item_of_ne hlm] at hl
        exact ⟨.inr ⟨hn, l, m, c, hl⟩, fun heq ↦ hlm (h.unique l m _ i name _ hl hitem heq hn)⟩
  · rintro ⟨hn | ⟨hn, l, m, c, hl⟩, hne⟩
    · exact .inl hn
    · refine .inr ⟨hn, l, m, c, ?_⟩
      rw [set_item_of_ne]
      · exact hl
      · rintro ⟨rfl, rfl⟩
        rw [hitem] at hl
        cases hl
        exact hne rfl

/-- A file under another name. -/
theorem heads_moved (h : t.Sound g.root) (hold : t.item i old = some (.file k contents))
    (hnew : t.item j new = none) :
    ((t.set i old none).set j new (some (.file k contents))).heads = t.heads := by
  have hnone : (t.set i old none).item j new = none := by
    by_cases hjn : j = i ∧ new = old
    · rw [hjn.1, hjn.2, set_item_self]
    · rw [set_item_of_ne hjn, hnew]
  by_cases hk : k = 0
  · subst hk
    rw [heads_set_other (fun n c hn ↦ by rw [hnone] at hn; cases hn) fun n c hc ↦ by cases hc; rfl,
      heads_set_other (fun n c hn ↦ by rw [hold] at hn; cases hn; rfl) fun n c hc ↦ by cases hc]
  · rw [heads_put hnone hk, heads_drop h hold, Set.insert_sdiff_singleton]
    exact Set.insert_eq_of_mem (.inr ⟨hk, i, old, contents, hold⟩)

/-- Something that has one name still has one. -/
theorem Sound.moved {root : ℕ} (h : t.Sound root) (hj : j ∈ t.dirs)
    (hold : t.item i old = some (.file k contents)) :
    ((t.set i old none).set j new (some (.file k contents))).Sound root := by
  refine (h.drop i old).put hj (fun k' hk' ↦ by cases hk') (fun k' c hk' ↦ ?_)
    fun l m y hy _ heq ↦ ?_
  · cases hk'
    exact h.file i old k contents hold
  · by_contra hne
    have hlm : ¬(l = i ∧ m = old) := fun hlm ↦ by
      rw [hlm.1, hlm.2, set_item_self] at hy
      cases hy
    rw [set_item_of_ne hlm] at hy
    exact hlm (h.unique l m y i old _ hy hold heq (heq ▸ hne))

theorem set_comm {x y : Option Item} (h : ¬(i = j ∧ old = new)) :
    (t.set i old x).set j new y = (t.set j new y).set i old x := by
  rw [set, set, set, set]
  refine congrArg (Table.mk t.dirs) (funext fun l ↦ funext fun m ↦ ?_)
  dsimp only
  by_cases h₁ : l = j ∧ m = new
  · rw [if_pos h₁, if_neg fun h₂ ↦ h ⟨h₂.1.symm.trans h₁.1, h₂.2.symm.trans h₁.2⟩, if_pos h₁]
  · rw [if_neg h₁, if_neg h₁]

theorem heads_mkdir (hitem : t.item i name = none) :
    ({ t with dirs := insert j t.dirs }.set i name (some (.dir j)) : Table).heads =
      insert j t.heads := by
  rw [heads_set_other (t := { t with dirs := insert j t.dirs })
    (fun n c (hn : t.item i name = _) ↦ by rw [hitem] at hn; cases hn)
    fun n c hc ↦ by cases hc]
  ext n
  exact or_assoc

theorem heads_rmdir (h : t.Sound g.root) (hitem : t.item i name = some (.dir j)) :
    ({ t with dirs := t.dirs \ {j} }.set i name none : Table).heads = t.heads \ {j} := by
  rw [heads_set_other (t := { t with dirs := t.dirs \ {j} })
    (fun n c (hn : t.item i name = _) ↦ by rw [hitem] at hn; cases hn)
    fun n c hc ↦ by cases hc]
  ext n
  constructor
  · rintro (hn | ⟨hn, l, m, c, hl⟩)
    · exact ⟨.inl hn.1, hn.2⟩
    · exact ⟨.inr ⟨hn, l, m, c, hl⟩, fun heq ↦ h.file l m n c hl (heq ▸ (h.dir i name j hitem).1)⟩
  · rintro ⟨hn | hn, hne⟩
    · exact .inl ⟨hn, hne⟩
    · exact .inr hn

end Table

/-! ## Steps within a method -/

/-- The entry `e` of the directory `i` stands for the item `x`. -/
structure Disk.Has (g : Geometry) (d : Disk) (t : Table) (i : ℕ) (e : DirEntry) (x : Item) :
    Prop where
  sits : ∃ long pb pr pa, d.Sits g i e long pb pr pa
  stands : Stands e x
  item : t.item i e.name = some x
  plain : e.name.Plain

section Models

variable (hm : d.Models g t lost)
include hm

theorem Disk.Models.ends {i : ℕ} (hi : i ∈ t.dirs) : ∃ last, (d.chain g i).2 = .ok last :=
  hm.layout.ends i (.inl hi)

/-- What is listed has an item. -/
theorem Disk.Models.has {i : ℕ} (hi : i ∈ t.dirs) {e : DirEntry} {long : Option (List Byte)}
    (he : (e, long) ∈ d.entries g i) (hname : e.name.Plain) : ∃ x, d.Has g t i e x := by
  obtain ⟨x, hx, hstands⟩ := (hm.shows.listed i hi).of_mem he hname
  exact ⟨x, ⟨long, exists_sits he⟩, hstands, hx, hname⟩

theorem Disk.Models.hold (hg : g.Laid) (b : Sector) : (d.hold b).Models g t lost :=
  hm.kept hg rfl (.refl _ b) hm.clean

theorem Disk.Models.counts (hg : g.Laid) (h : d.Counts g d') : d'.Models g t lost :=
  hm.kept hg h.fat (h.spares hg) (h.clean.trans hm.clean)

/-- **`find` finds what the table has.** -/
theorem Disk.Models.ends_find {dir : DirEntry} (hdir : dir.isDir = true) (hi : dir.cluster ∈ t.dirs)
    {name : ShortName} (hname : name.Plain) : Disk.Ends g (Vol.find dir name) d fun r d' ↦
      (∃ b, d' = d.hold b) ∧ ((t.item dir.cluster name = none ∧ r = .ok none) ∨
        ∃ e x, d.Has g t dir.cluster e x ∧ e.name = name ∧ r = .ok (some e)) := by
  refine (Vux9k.ends_find hm.clean hdir (hm.shows.tidy _ hi) name).mono ?_
  rintro r d' ⟨hb, ⟨x, hx, rfl, rfl⟩ | ⟨rfl, hunused⟩⟩
  · obtain ⟨y, hy⟩ := hm.has hi hx hname
    exact ⟨hb, .inr ⟨x.1, y, hy, rfl, rfl⟩⟩
  · exact ⟨hb, .inl ⟨((hm.shows.listed _ hi).unused_iff hname).mp hunused, rfl⟩⟩

/-- A file's first cluster is not a directory's. -/
theorem Disk.Models.file_ne {i j k : ℕ} (hi : i ∈ t.dirs) {name : ShortName} {contents : List Byte}
    (h : t.item j name = some (.file k contents)) : k ≠ i := by
  rintro rfl
  exact hm.sound.file j name k contents h hi

end Models

section Shows

variable {H : Set ℕ} (hs : d.Shows g t) (hl : d.Layout g H lost) (hg : g.Laid) (hsub : t.heads ⊆ H)
  {i : ℕ} (hi : i ∈ t.dirs)
  (hfile : ∀ j name k contents, t.item j name = some (.file k contents) → k ≠ i)
include hs hl hg hsub hi hfile

/-- An entry taken out of a directory. -/
theorem Disk.Shows.dropped {e : DirEntry} (hplain : e.name.Plain) (hd : d.Dropped g i e d') :
    d'.Shows g (t.set i e.name none) := by
  obtain ⟨hdirs, hfiles⟩ := hs.spared hl hg hsub (hsub (.inl hi)) hd.spares
  obtain ⟨as, lba, index, long, bs, hold, hnew⟩ := hd.listed
  have hof : ∀ {j name x}, (t.set i e.name none).item j name = some x → t.item j name = some x := by
    intro j name x hitem
    by_cases hjn : j = i ∧ name = e.name
    · rw [hjn.1, hjn.2, Table.set_item_self] at hitem
      cases hitem
    · rwa [Table.set_item_of_ne hjn] at hitem
  refine ⟨fun k hk ↦ ?_, fun k hk ↦ ?_, fun j name k contents hitem ↦ ?_,
    fun j name k hitem hk ↦ ?_⟩
  · by_cases hki : k = i
    · exact hki ▸ hd.tidy
    · exact (hdirs k hk hki).1
  · by_cases hki : k = i
    · have hlisted := hs.listed i hi
      rw [hold] at hlisted
      rw [hki, Table.set_item_dir, hnew]
      exact hlisted.erase
    · rw [Table.set_item_other hki, (hdirs k hk hki).2]
      exact hs.listed k hk
  · exact hfiles j name k contents (hfile j name k contents (hof hitem)) (hof hitem)
  · refine (hs.above j name k (hof hitem) hk).mono fun x hx hdot ↦ ?_
    by_cases hki : k = i
    · rw [hki, hold] at hx
      rw [hki, hnew]
      simp only [List.mem_append, List.mem_cons] at hx ⊢
      rcases hx with hx | rfl | hx
      · exact .inl hx
      · exact absurd hplain hdot
      · exact .inr hx
    · rwa [(hdirs k hk hki).2]

/-- An entry put into a directory. -/
theorem Disk.Shows.added {raw : List Byte} {slot : ℕ × ℕ} (ha : d.Added g i raw slot d')
    {name : ShortName} {x : Item} (hname : name.Plain) (hnone : t.item i name = none)
    (hraw : ∀ lfn, (DirEntry.parse (ofBytes raw) slot.1 slot.2 lfn).name = name ∧
      Stands (DirEntry.parse (ofBytes raw) slot.1 slot.2 lfn) x)
    (hx : ∀ k contents, x = .file k contents → k ≠ i ∧ d.Holds g k contents ∧ (k ≠ 0 → k ∈ H))
    (habove : ∀ k, x = .dir k → d.Above g k i) : d'.Shows g (t.set i name (some x)) := by
  obtain ⟨hdirs, hfiles⟩ := hs.spared hl hg hsub (hsub (.inl hi)) ha.spares
  obtain ⟨as, bs, lfn, long, hold, hnew⟩ := ha.listed
  have hkept : ∀ k ∈ t.dirs, ∀ y ∈ d.entries g k, y ∈ d'.entries g k := fun k hk y hy ↦ by
    by_cases hki : k = i
    · change y ∈ (d'.directory g k).entries
      change y ∈ (d.directory g k).entries at hy
      rw [hki, hold] at hy
      rw [hki, hnew]
      simp only [List.mem_append, List.mem_cons] at hy ⊢
      tauto
    · rwa [(hdirs k hk hki).2]
  refine ⟨fun k hk ↦ ?_, fun k hk ↦ ?_, fun j m k contents hitem ↦ ?_, fun j m k hitem hk ↦ ?_⟩
  · by_cases hki : k = i
    · exact hki ▸ ha.tidy
    · exact (hdirs k hk hki).1
  · by_cases hki : k = i
    · have hlisted : Listed (d.directory g i).entries (t.item i) := hs.listed i hi
      rw [hold] at hlisted
      obtain ⟨hrawname, hstands⟩ := hraw lfn
      rw [← hrawname] at hname hnone ⊢
      rw [hki, Table.set_item_dir]
      change Listed (d'.directory g i).entries _
      rw [hnew]
      exact hlisted.insert hname hnone hstands
    · rw [Table.set_item_other hki, (hdirs k hk hki).2]
      exact hs.listed k hk
  · by_cases hjm : j = i ∧ m = name
    · rw [hjm.1, hjm.2, Table.set_item_self] at hitem
      obtain ⟨hki, hholds, hkH⟩ := hx k contents (Option.some.inj hitem)
      exact ha.spares.holds_chain hg
        (fun h0 ↦ hl.apart k (hkH h0) i (hsub (.inl hi)) hki) hholds
    · rw [Table.set_item_of_ne hjm] at hitem
      exact hfiles j m k contents (hfile j m k contents hitem) hitem
  · have hold : d.Above g k j := by
      by_cases hjm : j = i ∧ m = name
      · rw [hjm.1, hjm.2, Table.set_item_self] at hitem
        rw [hjm.1]
        exact habove k (Option.some.inj hitem)
      · rw [Table.set_item_of_ne hjm] at hitem
        exact hs.above j m k hitem hk
    exact hold.mono fun y hy _ ↦ hkept k hk y hy

end Shows

/-- A chain given back that the table does not have. -/
theorem Disk.Shows.freed {H : Set ℕ} (hs : d.Shows g t) (hl : d.Layout g H lost) (hg : g.Laid)
    (hsub : t.heads ⊆ H) {k : ℕ} (hk : k ∈ H) (hnot : k ∉ t.heads)
    (hsp : d.Spares g (· ∈ (d.chain g k).1) d') : d'.Shows g t := by
  obtain ⟨hdirs, hfiles⟩ := hs.spared hl hg hsub hk hsp
  have hne : ∀ i ∈ t.dirs, i ≠ k := fun i hi h ↦ hnot (.inl (h ▸ hi))
  refine ⟨fun i hi ↦ (hdirs i hi (hne i hi)).1, fun i hi ↦ ?_,
    fun j name l contents hitem ↦ hfiles j name l contents (fun h ↦ hnot ?_) hitem,
    fun j name l hitem hl ↦ ?_⟩
  · rw [(hdirs i hi (hne i hi)).2]
    exact hs.listed i hi
  · subst h
    refine .inr ⟨fun h0 ↦ ?_, j, name, contents, hitem⟩
    have := Geometry.two_le_of_isCluster (hl.isCluster hg hk).1
    omega
  · rw [Disk.Above, (hdirs l hl (hne l hl)).2]
    exact hs.above j name l hitem hl

/-- **`free_chain` gives a chain back.** -/
theorem Disk.Layout.ends_freeChain {H : Set ℕ} (hl : d.Layout g H lost) (hg : g.Laid) {k : ℕ}
    (hk : k ∈ H) : Disk.Ends g (Vol.freeChain k) d fun r d' ↦ r = .ok () ∧ d'.dirty = false ∧
      d'.Layout g (H \ {k}) lost ∧ (d'.free g).card = (d.free g).card + (d.chain g k).1.length ∧
      d.Spares g (· ∈ (d.chain g k).1) d' := by
  obtain ⟨last, hlast⟩ := hl.ends k hk
  obtain ⟨ns, hns, hchain⟩ := Disk.isChain_chain hlast
  refine (returns_freeChain hg hchain (hchain.nodup hg.toOk)).mono ?_
  rintro r d' ⟨rfl, rfl⟩
  have hfat : (d.clear (k :: ns)).fat = cleared d.fat (d.chain g k).1 := by
    rw [hns]
    rfl
  exact ⟨rfl, rfl, hl.freed hg hk hfat, hl.freed_card hg hk hfat,
    spares_cleared (fun n hn ↦ (hl.of_mem hg hk hn).1) hfat rfl⟩

/-! ## `remove` and `rename` -/

/-- The FAT is as it was, and so are all clusters in use. -/
structure Disk.Unchanged (g : Geometry) (d d' : Disk) : Prop where
  fat : d'.fat = d.fat
  spares : d.Spares g (fun _ ↦ False) d'

theorem Disk.Unchanged.hold (b : Sector) : d.Unchanged g (d.hold b) := ⟨rfl, .refl _ b⟩

theorem Disk.Unchanged.free_eq (h : d.Unchanged g d') : d'.free g = d.free g := by
  rw [Disk.free, Disk.free, Disk.entry_congr h.fat]

theorem Disk.Unchanged.trans {d'' : Disk} (h : d.Unchanged g d') (h' : d'.Unchanged g d'') :
    d.Unchanged g d'' := ⟨h'.fat.trans h.fat, h.spares.trans h'.spares⟩

theorem Disk.Counts.unchanged (hg : g.Laid) (h : d.Counts g d') : d.Unchanged g d' :=
  ⟨h.fat, h.spares hg⟩

/-- The disk after a method is the table after a step. -/
def Disk.Steps (g : Geometry) (d : Disk) (t : Table) (lost : Set ℕ) (op : Op)
    (r : Except FatError Unit) (d' : Disk) : Prop :=
  ∃ t', t.Step g.need (d.growth g) (d.free g).card op r t' (d'.free g).card ∧ d'.Models g t' lost ∧
    ∀ err, r = .error err → op.Whole → d.Unchanged g d'

/-- A call that fails and changes nothing. -/
theorem Disk.Models.fails (hm : d.Models g t lost) (hg : g.Laid) {op : Op} {err : FatError}
    (hstep : t.Step g.need (d.growth g) (d.free g).card op (.error err) t (d.free g).card)
    (h : d.Unchanged g d') (hclean : d'.dirty = false) : d.Steps g t lost op (.error err) d' := by
  refine ⟨t, ?_, hm.kept hg h.fat h.spares hclean, fun _ _ _ ↦ h⟩
  rwa [h.free_eq]

theorem Disk.Steps.of_ok {op : Op} {t' : Table}
    (hstep : t.Step g.need (d.growth g) (d.free g).card op (.ok ()) t' (d'.free g).card)
    (hm : d'.Models g t' lost) : d.Steps g t lost op (.ok ()) d' :=
  ⟨t', hstep, hm, fun _ herr ↦ by cases herr⟩

section Remove

variable {i : ℕ} {e : DirEntry} {x : Item}

theorem Disk.Has.kept (h : d.Has g t i e x) (hm : d.Models g t lost) (hg : g.Laid) (hi : i ∈ t.dirs)
    (hs : d.Spares g (fun _ ↦ False) d') : d'.Has g t i e x := by
  obtain ⟨last, hlast⟩ := hm.ends hi
  obtain ⟨long, pb, pr, pa, hsits⟩ := h.sits
  exact ⟨⟨long, pb, pr, pa, hsits.spared hs hg hlast fun _ _ ↦ id⟩, h.stands, h.item, h.plain⟩

/-- **`delete_slots` takes an entry out of its directory**, and touches nothing else. -/
theorem Disk.Has.ends_deleteSlots (h : d.Has g t i e x) (hm : d.Models g t lost) (hg : g.Laid)
    (hi : i ∈ t.dirs) : Disk.Ends g (Vol.deleteSlots e false) d fun r d' ↦ r = .ok () ∧
      d'.dirty = false ∧ d.Dropped g i e d' := by
  obtain ⟨last, hlast⟩ := hm.ends hi
  obtain ⟨long, pb, pr, pa, hsits⟩ := h.sits
  refine (hsits.ends_deleteSlots hg hm.clean hlast false).mono ?_
  rintro r d' ⟨rfl, b, rfl⟩
  exact ⟨rfl, hm.clean, hsits.dropped hg (hm.shows.tidy i hi) rfl rfl⟩

/-- `remove` of a file: its clusters are free again, and the directory's other entries stay. -/
theorem Disk.Models.ends_removeFile (hm : d.Models g t lost) (hg : g.Laid) (hi : i ∈ t.dirs) {k : ℕ}
    {contents : List Byte} (he : d.Has g t i e (.file k contents)) :
    Disk.Ends g (Vol.remove e) d fun r d' ↦ r = .ok () ∧ d'.Models g (t.set i e.name none) lost ∧
      (d'.free g).card = (d.free g).card + g.need contents ∧
      ∀ y ∈ d.entries g i, y.1.name ≠ e.name → y ∈ d'.entries g i := by
  obtain ⟨hfile, hk, -⟩ := he.stands
  rw [Vol.remove, if_neg (by rw [hfile]; exact Bool.false_ne_true)]
  refine (ends_beginChange hm.clean).bind ?_ ?_
  swap
  · rintro err d' ⟨herr, -⟩
    cases herr
  rintro _ d₂ ⟨-, hcounts⟩
  have hm₂ := hm.counts hg hcounts
  refine ((he.kept hm hg hi (hcounts.spares hg)).ends_deleteSlots hm₂ hg hi).bind ?_ ?_
  swap
  · rintro err d' ⟨herr, -⟩
    cases herr
  rintro _ d₃ ⟨-, hclean₃, hdropped⟩
  have hlayout := hm₂.layout.congr hdropped.fat
  have hshows := hm₂.shows.dropped hm₂.layout hg le_rfl hi
    (fun j name k contents h ↦ hm₂.file_ne hi h) he.plain hdropped
  have hsound := hm.sound.drop i e.name
  have hcard : (d₃.free g).card = (d.free g).card := by
    rw [Disk.free, Disk.entry_congr hdropped.fat]
    exact congrArg Finset.card hcounts.free
  have hstay : ∀ y ∈ d.entries g i, y.1.name ≠ e.name → y ∈ d₃.entries g i := by
    obtain ⟨last, hlast⟩ := hm.ends hi
    obtain ⟨as, lba, index, long, bs, hold, hnew⟩ := hdropped.listed
    rw [Disk.entries, (hcounts.spares hg).directory_eq hg hlast fun _ _ ↦ id] at hold
    intro y hy hne
    rw [Disk.entries, hold] at hy
    rw [hnew]
    simp only [List.mem_append, List.mem_cons] at hy ⊢
    rcases hy with hy | rfl | hy
    · exact .inl hy
    · exact absurd rfl hne
    · exact .inr hy
  have hholds := hm₂.shows.holds i e.name k contents he.item
  have hki := hm₂.file_ne hi he.item
  subst hk
  by_cases h0 : e.cluster = 0
  · -- an empty file has no chain
    rw [if_neg (not_not.mpr h0)]
    have hitem : t.item i e.name = some (.file 0 contents) := h0 ▸ he.item
    refine ends_pure ⟨rfl, ⟨hclean₃, hsound, ?_, hshows⟩, ?_, hstay⟩
    · rwa [Table.heads_set_other (fun n c hn ↦ by rw [hitem] at hn; cases hn; rfl)
        fun n c hc ↦ by cases hc]
    · rw [h0] at hholds
      rw [hholds.need_zero, Nat.add_zero, hcard]
  rw [if_pos h0]
  have hhead : e.cluster ∈ t.heads := .inr ⟨h0, i, e.name, contents, he.item⟩
  have hchain : d₃.chain g e.cluster = d₂.chain g e.cluster :=
    congrFun (Disk.chain_congr hdropped.fat) _
  have hheads := Table.heads_drop hm.sound he.item
  refine (hlayout.ends_freeChain hg hhead).mono ?_
  rintro r d₄ ⟨rfl, hclean₄, hlayout₄, hfree, hspares⟩
  refine ⟨rfl, ⟨hclean₄, hsound, ?_, ?_⟩, ?_, fun y hy hne ↦ ?_⟩
  · rwa [hheads]
  · refine hshows.freed hlayout hg ?_ hhead ?_ hspares
    · rw [hheads]
      exact Set.sdiff_subset
    · rw [hheads]
      exact fun h ↦ h.2 rfl
  · rw [hfree, hcard, hchain, (hholds.length hg h0).1]
  · obtain ⟨last, hlast⟩ := hlayout.ends i (.inl hi)
    have hapart := hlayout.apart i (.inl hi) e.cluster hhead fun h ↦ hki h.symm
    rw [Disk.entries, hspares.directory_eq hg hlast hapart]
    exact hstay y hy hne

/-- **`remove` takes a file out**, or changes nothing. -/
theorem Disk.Models.ends_remove (hm : d.Models g t lost) (hg : g.Laid) (hi : i ∈ t.dirs)
    (he : d.Has g t i e x) :
    Disk.Ends g (Vol.remove e) d (d.Steps g t lost (.remove i e.name)) := by
  cases x with
  | dir k =>
    rw [Vol.remove, if_pos he.stands.1]
    exact ends_throw (hm.fails hg (.removeDir he.item) (.hold d.buf) hm.clean)
  | file k contents =>
    refine (hm.ends_removeFile hg hi he).mono ?_
    rintro r d' ⟨rfl, hm', hcard, -⟩
    refine .of_ok ?_ hm'
    rw [hcard]
    exact .removed he.item

/-- A name that `to_short_name` can give: not like a slot that is free, and not like `.` and
`..`. -/
structure ShortName.Proper (name : ShortName) : Prop where
  shown : name.Shown
  plain : name.Plain

/-- **A file under another name.** -/
theorem Disk.Models.renamed (hm : d.Models g t lost) (hg : g.Laid) (hi : i ∈ t.dirs) {k : ℕ}
    {contents : List Byte} (he : d.Has g t i e (.file k contents)) {name : ShortName}
    (hname : name.Plain) (hnew : t.item i name = none) (hd : d.Renamed g i e name d')
    (hclean : d'.dirty = false) :
    d'.Models g ((t.set i e.name none).set i name (some (.file k contents))) lost := by
  obtain ⟨hdirs, hfiles⟩ := hm.shows.spared hm.layout hg le_rfl (.inl hi) hd.spares
  have hnone : (t.set i e.name none).item i name = none := by
    by_cases hne : name = e.name
    · rw [hne, Table.set_item_self]
    · rw [Table.set_item_of_ne fun h ↦ hne h.2, hnew]
  have hback : ∀ {j m y}, ((t.set i e.name none).set i name (some (.file k contents))).item j m =
      some y → (j = i ∧ m = name ∧ y = .file k contents) ∨ t.item j m = some y := by
    intro j m y hy
    by_cases hjm : j = i ∧ m = name
    · rw [hjm.1, hjm.2, Table.set_item_self] at hy
      exact .inl ⟨hjm.1, hjm.2, (Option.some.inj hy).symm⟩
    rw [Table.set_item_of_ne hjm] at hy
    by_cases hjn : j = i ∧ m = e.name
    · rw [hjn.1, hjn.2, Table.set_item_self] at hy
      cases hy
    · exact .inr (by rwa [Table.set_item_of_ne hjn] at hy)
  obtain ⟨as, lba, index, long, bs, lba', index', long', hold, hlist⟩ := hd.listed
  refine ⟨hclean, ?_, ?_, fun j hj ↦ ?_, fun j hj ↦ ?_, fun j m l c hitem ↦ ?_,
    fun j m l hitem hl ↦ ?_⟩
  · exact hm.sound.moved hi he.item
  · rw [Table.heads_moved hm.sound he.item hnew]
    exact hm.layout.congr hd.fat
  · by_cases hji : j = i
    · exact hji ▸ hd.tidy
    · exact (hdirs j hj hji).1
  · by_cases hji : j = i
    · have hlisted := hm.shows.listed i hi
      rw [hold] at hlisted
      have hstands : Stands { e with name := name, lfnLba := lba', lfnIndex := index' }
          (.file k contents) := he.stands
      rw [hji, Table.set_item_dir, Table.set_item_dir, hlist]
      rw [Table.set_item_dir] at hnone
      exact hlisted.erase.insert hname hnone hstands
    · rw [Table.set_item_other hji, Table.set_item_other hji, (hdirs j hj hji).2]
      exact hm.shows.listed j hj
  · rcases hback hitem with ⟨-, -, heq⟩ | hitem
    · cases heq
      exact hfiles i e.name k contents (hm.file_ne hi he.item) he.item
    · exact hfiles j m l c (hm.file_ne hi hitem) hitem
  · rcases hback hitem with ⟨-, -, heq⟩ | hitem
    · cases heq
    refine (hm.shows.above j m l hitem hl).mono fun x hx hdot ↦ ?_
    by_cases hli : l = i
    · rw [hli, hold] at hx
      rw [hli, hlist]
      simp only [List.mem_append, List.mem_cons] at hx ⊢
      rcases hx with hx | rfl | hx
      · exact .inl hx
      · exact absurd he.plain hdot
      · exact .inr (.inr hx)
    · rwa [(hdirs l hl hli).2]

/-- **`rename` gives a file another name.** -/
theorem Disk.Models.ends_rename (hm : d.Models g t lost) (hg : g.Laid) {dir : DirEntry}
    (hdir : dir.isDir = true) (hi : dir.cluster ∈ t.dirs) (he : d.Has g t dir.cluster e x)
    {name : ShortName} (hname : name.Proper) :
    Disk.Ends g (Vol.rename dir e name) d (d.Steps g t lost (.rename dir.cluster e.name name)) := by
  have hstands := he.stands
  cases x with
  | dir k =>
    rw [Vol.rename, if_pos hstands.1]
    exact ends_throw (hm.fails hg (.renameDir he.item) (.hold d.buf) hm.clean)
  | file k contents =>
  rw [Vol.rename, if_neg (by rw [hstands.1]; exact Bool.false_ne_true)]
  refine (hm.ends_find hdir hi hname.plain).bind ?_ ?_
  swap
  · rintro err d' ⟨-, ⟨-, herr⟩ | ⟨_, _, _, _, herr⟩⟩
    · cases herr
    · cases herr
  rintro r _ ⟨⟨b, rfl⟩, ⟨hnone, hr⟩ | ⟨f, y, hf, hfname, hr⟩⟩
  swap
  · cases hr
    refine ends_throw (hm.fails hg (.renameTaken he.item ?_) (.hold b) hm.clean)
    rw [← hfname, hf.item]
    simp
  cases hr
  rw [Option.isSome_none, if_neg Bool.false_ne_true]
  refine (ends_beginChange (d := d.hold b) hm.clean).bind ?_ ?_
  swap
  · rintro err d' ⟨herr, -⟩
    cases herr
  rintro _ d₂ ⟨-, hcounts⟩
  have hm₂ := (hm.hold hg b).counts hg hcounts
  have he₂ := he.kept hm hg hi (hcounts.spares hg)
  obtain ⟨last, hlast⟩ := hm₂.ends hi
  obtain ⟨long, pb, pr, pa, hsits⟩ := he₂.sits
  have hdata : g.dataLba ≤ e.lba := hsits.data hg hlast
  refine (hsits.ends_deleteSlots hg hm₂.clean hlast true).bind ?_ ?_
  swap
  · rintro err d' ⟨herr, -⟩
    cases herr
  rintro _ d₃ ⟨-, b', rfl⟩
  rw [if_pos rfl, List.append_nil]
  refine (returns_update _ (.inr hdata) e.index name.1).mono ?_
  rintro r d₄ ⟨rfl, rfl⟩
  refine .of_ok ?_ (hm₂.renamed hg hi he₂ hname.plain hnone
    (hsits.renamed hg (hm₂.shows.tidy _ hi) ?_ hname.shown ?_) hm₂.clean)
  · have hfree : d₂.free g = d.free g := hcounts.free
    rw [← hfree]
    exact .renamed he.item hnone
  · rfl
  · rfl

end Remove

/-! ## `create` -/

theorem Disk.growth_le (g : Geometry) (d : Disk) (first : ℕ) : d.growth g first ≤ 1 := by
  rw [Disk.growth]
  split
  · exact le_rfl
  · exact Nat.zero_le 1

/-- A directory that is spared grows as before. -/
theorem Disk.Models.growth_eq (hm : d.Models g t lost) (hg : g.Laid) {i : ℕ} (hi : i ∈ t.dirs)
    (hs : d.Spares g (fun _ ↦ False) d') : d'.growth g i = d.growth g i := by
  obtain ⟨last, hlast⟩ := hm.ends hi
  rw [Disk.growth, Disk.growth, hs.openSlot_eq hg hlast fun _ _ ↦ id]

/-- What is in the table is in use on the disk. -/
theorem Disk.Models.first_used (hm : d.Models g t lost) (hg : g.Laid) {j : ℕ} {name : ShortName}
    {y : Item} (hy : t.item j name = some y) (h0 : y.first ≠ 0) :
    g.isCluster y.first = true ∧ d.entry y.first ≠ 0 := by
  refine hm.layout.isCluster hg ?_
  cases y with
  | file k contents => exact .inr ⟨h0, j, name, contents, hy⟩
  | dir k => exact .inl (hm.sound.dir j name k hy).1

theorem Disk.Models.dir_used (hm : d.Models g t lost) (hg : g.Laid) {j : ℕ} (hj : j ∈ t.dirs) :
    g.isCluster j = true ∧ d.entry j ≠ 0 := hm.layout.isCluster hg (.inl hj)

/-- `create` has made the file `e`. -/
structure Disk.Created (g : Geometry) (d : Disk) (t : Table) (lost : Set ℕ) (i : ℕ)
    (name : ShortName) (data : List Byte) (e : DirEntry) (d' : Disk) : Prop where
  unused : t.item i name = none
  card : (d'.free g).card + (g.need data + d.growth g i) = (d.free g).card
  named : e.name = name
  own : e.lfnLba = e.lba ∧ e.lfnIndex = e.index
  models : d'.Models g (t.set i name (some (.file e.cluster data))) lost
  has : d'.Has g (t.set i name (some (.file e.cluster data))) i e (.file e.cluster data)

theorem Disk.Created.steps {i : ℕ} {name : ShortName} {data : List Byte} {e : DirEntry}
    (h : d.Created g t lost i name data e d') :
    d.Steps g t lost (.create i name data) (.ok ()) d' :=
  .of_ok (.created h.unused h.card) h.models

theorem isDir_archive : decide (attrArchive &&& attrDir ≠ 0#8) = false := by decide

/-- The chain of a file just made. -/
theorem Disk.Models.layout_created (hm : d.Models g t lost) (hg : g.Laid) {i : ℕ} (hi : i ∈ t.dirs)
    {name : ShortName} (hname : t.item i name = none) {data : List Byte} {d₂ d₃ : Disk}
    {ns : List ℕ} (hcounts : d.Counts g d₂)
    (hmade : Made g d₂ none (chunks g.clusterBytes data) ns d₃)
    {raw : List Byte} {slot : ℕ × ℕ} (hadded : d₃.Added g i raw slot d') :
    d'.Layout g (t.set i name (some (.file (ns.headD 0) data))).heads lost := by
  have hm₂ := hm.counts hg hcounts
  cases ns with
  | nil =>
    rw [Table.heads_set_other (fun n c hn ↦ by rw [hname] at hn; cases hn)
      fun n c hc ↦ by cases hc; rfl]
    have hlayout : d₃.Layout g t.heads lost := hm₂.layout.congr hmade.fat
    exact hlayout.added hg (.inl hi) hadded
  | cons n ns =>
    have h0 : n ≠ 0 := by
      have hfree := Disk.mem_free.mp (hmade.free n List.mem_cons_self)
      have := Geometry.two_le_of_isCluster hfree.1
      omega
    rw [List.headD_cons, Table.heads_put hname h0]
    have hlayout := hm₂.layout.gained hg hmade.gains (hmade.spares hg (fits_chunks g data))
    exact hlayout.added hg (.inr (.inl hi)) hadded

/-- **`create` makes a file, or changes nothing.** -/
theorem Disk.Models.ends_create (hm : d.Models g t lost) (hg : g.Laid) {dir : DirEntry}
    (hdir : dir.isDir = true) (hi : dir.cluster ∈ t.dirs) {name : ShortName} (hname : name.Proper)
    {data : List Byte} (hdata : data.length < 2 ^ 32) :
    Disk.Ends g (Vol.create dir name data) d fun r d' ↦
      (∃ err, r = .error err ∧ d.Steps g t lost (.create dir.cluster name data) (.error err) d') ∨
        ∃ e, r = .ok e ∧ d.Created g t lost dir.cluster name data e d' := by
  have hlisted := hm.shows.listed _ hi
  refine (Vux9k.ends_create hg hm.clean hdir (hm.shows.tidy _ hi) hname.shown data).mono ?_
  intro r d' hcreates
  cases hcreates with
  | @taken x b hx hxname =>
    refine .inl ⟨_, rfl, hm.fails hg (.createTaken fun hnone ↦ ?_) (.hold b) hm.clean⟩
    exact (hlisted.unused_iff hname.plain).mpr hnone x hx hxname
  | full hunused hfew hfat hspares hclean =>
    have hnone := (hlisted.unused_iff hname.plain).mp hunused
    exact .inl ⟨_, rfl, hm.fails hg (.createFull hnone hfew) ⟨hfat, hspares⟩ hclean⟩
  | @ok d₂ d₃ _ ns first slot hunused hcounts hmade hhead hadded hcard hspares hholds hlists htidy
      hclean =>
    have hnone := (hlisted.unused_iff hname.plain).mp hunused
    have hstands :
        ∀ lba index, Stands { newEntry name attrArchive first (data.length % 2 ^ 32) slot with
        lfnLba := lba, lfnIndex := index } (.file first data) := fun _ _ ↦
      ⟨isDir_archive, rfl, Nat.mod_eq_of_lt hdata⟩
    obtain ⟨hdirs, hfiles⟩ := hm.shows.spared hm.layout hg le_rfl (.inl hi) hspares
    obtain ⟨as, bs, lba, index, long, hold, hnew⟩ := hlists
    have hunusedFirst : first = 0 ∨ d.entry first = 0 := by
      rw [hhead]
      cases ns with
      | nil => exact .inl rfl
      | cons n ns =>
        refine .inr ?_
        rw [← hcounts.entry]
        exact (Disk.mem_free.mp (hmade.free n List.mem_cons_self)).2
    refine .inr ⟨_, rfl, hnone, hcard, rfl, ⟨rfl, rfl⟩, ⟨hclean, ?_, ?_, ?_⟩, ?_⟩
    · -- the new chain is no other's
      refine hm.sound.put hi (fun k hk ↦ by cases hk) (fun k c hk hmem ↦ ?_)
        fun j m y hy _ heq ↦ ?_
      · cases hk
        have hused := hm.dir_used hg hmem
        rcases hunusedFirst with h0 | h0
        · have := Geometry.two_le_of_isCluster hused.1
          change 2 ≤ first at this
          omega
        · exact hused.2 h0
      · change y.first = first at heq
        by_contra hne
        have hused := (hm.first_used hg hy (heq ▸ hne)).2
        exact hunusedFirst.elim hne fun h0 ↦ hused (heq ▸ h0)
    · subst hhead
      exact hm.layout_created hg hi hnone hcounts hmade hadded
    · refine ⟨fun j hj ↦ ?_, fun j hj ↦ ?_, fun j m k c hitem ↦ ?_, fun j m k hitem hk ↦ ?_⟩
      · by_cases hji : j = dir.cluster
        · exact hji ▸ htidy
        · exact (hdirs j hj hji).1
      · by_cases hji : j = dir.cluster
        · rw [hold] at hlisted
          rw [hji, Table.set_item_dir, hnew]
          exact hlisted.insert hname.plain hnone (hstands lba index)
        · rw [Table.set_item_other hji, (hdirs j hj hji).2]
          exact hm.shows.listed j hj
      · by_cases hjm : j = dir.cluster ∧ m = name
        · rw [hjm.1, hjm.2, Table.set_item_self] at hitem
          cases hitem
          exact hholds
        · rw [Table.set_item_of_ne hjm] at hitem
          exact hfiles j m k c (hm.file_ne hi hitem) hitem
      · by_cases hjm : j = dir.cluster ∧ m = name
        · rw [hjm.1, hjm.2, Table.set_item_self] at hitem
          cases hitem
        rw [Table.set_item_of_ne hjm] at hitem
        refine (hm.shows.above j m k hitem hk).mono fun y hy _ ↦ ?_
        by_cases hki : k = dir.cluster
        · rw [hki, hold] at hy
          rw [hki, hnew]
          simp only [List.mem_append, List.mem_cons] at hy ⊢
          tauto
        · rwa [(hdirs k hk hki).2]
    · have hmem : ({ newEntry name attrArchive first (data.length % 2 ^ 32) slot with
          lfnLba := lba, lfnIndex := index }, long) ∈ d'.entries g dir.cluster := by
        rw [hnew]
        simp
      obtain ⟨pb, pr, pa, hsits⟩ := exists_sits hmem
      exact ⟨⟨long, _, _, _, hsits.own⟩, hstands _ _, Table.set_item_self _, hname.plain⟩

/-! ## `move_to` -/

/-- The bytes that `move_to` writes: those of the entry, with another name. -/
theorem ofBytes_moved (name : ShortName) (b : ℕ → Byte) {j : ℕ} (hj : j < slotLen) :
    ofBytes (name.1 ++ (bytesOf b slotLen).drop 11) j =
      if j < 11 then name.1.getD j 0#8 else b j := by
  rw [ofBytes]
  by_cases h : j < 11
  · rw [if_pos h, List.getD_append _ _ _ _ (by rw [name.2]; exact h)]
  · rw [if_neg h, List.getD_append_right _ _ _ _ (by rw [name.2]; omega), name.2,
      List.getD_eq_getElem _ _ (by simp [bytesOf]; omega), List.getElem_drop]
    simp only [bytesOf, List.getElem_map, List.getElem_range]
    rw [Nat.add_sub_cancel' (by omega)]

theorem Stands.congr {e e' : DirEntry} {x : Item} (h : Stands e x) (hattr : e'.attr = e.attr)
    (hcluster : e'.cluster = e.cluster) (hsize : e'.size = e.size) : Stands e' x := by
  have hdir : e'.isDir = e.isDir := by rw [DirEntry.isDir, DirEntry.isDir, hattr]
  cases x with
  | file k contents => exact ⟨hdir.trans h.1, hcluster.trans h.2.1, hsize.trans h.2.2⟩
  | dir k => exact ⟨hdir.trans h.1, hcluster.trans h.2⟩

section Move

variable {i : ℕ} {e : DirEntry} {x : Item}

/-- What is written stands for the same, under the new name. -/
theorem Disk.Has.moved (h : d.Has g t i e x) {name : ShortName} (hname : name.Proper)
    {raw : List Byte}
    (hraw : raw = name.1 ++ (bytesOf (slotOf (d.area e.lba) e.index) slotLen).drop 11) :
    IsRaw raw ∧ ∀ lba index lfn, (DirEntry.parse (ofBytes raw) lba index lfn).name = name ∧
      Stands (DirEntry.parse (ofBytes raw) lba index lfn) x := by
  obtain ⟨long, pb, pr, pa, hsits⟩ := h.sits
  obtain ⟨lfn₀, hparsed⟩ := hsits.parsed
  have hentry := hsits.entry
  have hbytes : ∀ j < slotLen, ofBytes raw j = if j < 11 then name.1.getD j 0#8
      else (slotAt d.area (e.lba, e.index)).bytes j := fun j hj ↦ hraw ▸ ofBytes_moved name _ hj
  have h0 := hbytes 0 (by decide)
  have h11 := hbytes 11 (by decide)
  rw [if_pos (by decide)] at h0
  rw [if_neg (by decide)] at h11
  refine ⟨⟨?_, h0 ▸ hname.shown.1, h0 ▸ hname.shown.2, h11 ▸ hentry.notLfn, h11 ▸ hentry.notVolume⟩,
    fun lba index lfn ↦ ?_⟩
  · rw [hraw, List.length_append, name.2, List.length_drop]
    simp [bytesOf, slotLen]
  · rw [parse_renamed hbytes lba index none lfn]
    refine ⟨rfl, h.stands.congr ?_ ?_ ?_⟩
    all_goals
      rw [hparsed]
      rfl

/-- **`move_to` gives a file a name in another directory**, or changes nothing. -/
theorem Disk.Models.ends_moveTo (hm : d.Models g t lost) (hg : g.Laid) {srcDir dstDir : DirEntry}
    (hsrc : srcDir.isDir = true) (hdst : dstDir.isDir = true) (hi : srcDir.cluster ∈ t.dirs)
    (hj : dstDir.cluster ∈ t.dirs) (he : d.Has g t srcDir.cluster e x) {name : ShortName}
    (hname : name.Proper) : Disk.Ends g (Vol.moveTo srcDir e dstDir name) d fun r d' ↦
      d.Steps g t lost (.moveTo srcDir.cluster e.name dstDir.cluster name) (r.map fun _ ↦ ())
        d' := by
  have hstands := he.stands
  cases x with
  | dir k =>
    rw [Vol.moveTo, if_pos (by rw [hstands.1, Bool.true_or])]
    exact ends_throw (hm.fails hg (.moveDir he.item) (.hold d.buf) hm.clean)
  | file k contents =>
  rw [Vol.moveTo, if_neg (by rw [hstands.1, hdst]; exact Bool.false_ne_true)]
  refine ends_ite (fun hij ↦ ?_) fun hij ↦ ?_
  · -- in the same directory it is a `rename`
    refine (hm.ends_rename hg hsrc hi he hname).bind ?_ ?_
    · rintro _ d' ⟨t', hstep, hm', -⟩
      exact ends_pure (.of_ok (hij ▸ hstep.move) hm')
    · rintro err d' ⟨t', hstep, hm', hwhole⟩
      exact ⟨t', hij ▸ hstep.move, hm', fun err' herr _ ↦ hwhole err' herr trivial⟩
  refine (hm.ends_find hdst hj hname.plain).bind ?_ ?_
  swap
  · rintro err d' ⟨-, ⟨-, herr⟩ | ⟨_, _, _, _, herr⟩⟩
    · cases herr
    · cases herr
  rintro r _ ⟨⟨b, rfl⟩, ⟨hnone, hr⟩ | ⟨f, y, hf, hfname, hr⟩⟩
  swap
  · cases hr
    refine ends_throw (hm.fails hg (.moveTaken he.item ?_) (.hold b) hm.clean)
    rw [← hfname, hf.item]
    simp
  cases hr
  rw [Option.isSome_none, if_neg Bool.false_ne_true]
  refine (ends_beginChange (d := d.hold b) hm.clean).bind ?_ ?_
  swap
  · rintro err d' ⟨herr, -⟩
    cases herr
  rintro _ d₂ ⟨-, hcounts⟩
  have hm₂ := (hm.hold hg b).counts hg hcounts
  have he₂ := he.kept hm hg hi (hcounts.spares hg)
  have hfree₂ : d₂.free g = d.free g := hcounts.free
  obtain ⟨last, hlast⟩ := hm₂.ends hi
  obtain ⟨last', hlast'⟩ := hm₂.ends hj
  obtain ⟨long, pb, pr, pa, hsits⟩ := he₂.sits
  refine (returns_readBuf d₂ (.inr (hsits.data hg hlast))).bind ?_
  obtain ⟨hraw, hparsed⟩ := he₂.moved hname rfl
  have hm₃ := hm₂.hold hg (d₂.area e.lba)
  have hu₃ : d.Unchanged g (d₂.hold (d₂.area e.lba)) :=
    ((Disk.Unchanged.hold b).trans (hcounts.unchanged hg)).trans (.hold _)
  refine (ends_freeSlot hg hm₃.clean hlast').bind ?_ ?_
  swap
  · intro err d' hslot
    generalize hr : (Except.error err : Except FatError (ℕ × ℕ)) = r at hslot
    cases hslot with
    | found => cases hr
    | grown => cases hr
    | full hopen hfull b' =>
      cases hr
      refine hm.fails hg (.moveFull hij he.item hnone ?_) (hu₃.trans (.hold b')) hm₃.clean
      have hzero : (d.free g).card = 0 := by
        rw [← hfree₂, show d₂.free g = ∅ from hfull, Finset.card_empty]
      rw [hzero, ← hm.growth_eq hg hj hu₃.spares, Disk.growth, if_pos hopen]
      exact Nat.one_pos
  rintro slot d₄ hslot
  refine (returns_writeEntry d₄ hslot.data slot.2 _).bind ?_
  have hadded := hslot.added hg hm₃.clean (hm₃.shows.tidy _ hj) hraw
    (splice (d₄.area slot.1) (slot.2 * slotLen)
      (name.1 ++ (bytesOf (slotOf (d₂.area e.lba) e.index) slotLen).drop 11))
  generalize Disk.put _ slot.1 _ = d₅ at hadded ⊢
  -- now the file has two names
  have hki := hm₂.file_ne hj he.item
  have hlayout₅ := hm₃.layout.added hg (.inl hj) hadded
  have hclean₅ : d₅.dirty = false := hadded.clean.trans hm₃.clean
  have hshows₅ := hm₃.shows.added hm₃.layout hg le_rfl hj (fun _ _ _ _ h ↦ hm₂.file_ne hj h) hadded
    hname.plain hnone (hparsed slot.1 slot.2) fun l c hl ↦ by
      cases hl
      exact ⟨hki, hm₃.shows.holds _ _ _ _ he.item, fun h0 ↦ .inr ⟨h0, _, _, _, he.item⟩⟩
  have hshows₅ := hshows₅ fun l hl ↦ by cases hl
  have hsits₅ : d₅.Sits g srcDir.cluster e long pb pr pa := by
    have hsits₃ := hsits.spared (Disk.Spares.refl (fun _ ↦ False) (d₂.area e.lba)) hg hlast
      fun _ _ ↦ id
    exact hsits₃.spared hadded.spares hg hlast
      (hm₃.layout.apart _ (.inl hi) _ (.inl hj) hij)
  obtain ⟨last₅, hlast₅⟩ := hlayout₅.ends srcDir.cluster (.inl hi)
  refine (hsits₅.ends_deleteSlots hg hclean₅ hlast₅ false).bind ?_ ?_
  swap
  · rintro err d' ⟨herr, -⟩
    cases herr
  rintro _ d₆ ⟨-, b', hd₆⟩
  have hfat₆ : d₆.fat = d₅.fat := by rw [hd₆]
  have hclean₆ : d₆.dirty = false := by rw [hd₆]; exact hclean₅
  have hdropped := hsits₅.dropped hg (hshows₅.tidy _ hi) hfat₆ (by rw [hd₆]; rfl)
  have hshows₆ := hshows₅.dropped hlayout₅ hg ?_ hi ?_ he.plain hdropped
  rotate_left
  · rw [Table.heads_set fun n c hn ↦ by rw [hnone] at hn; cases hn]
    refine Set.union_subset le_rfl ?_
    rintro n ⟨hn, c, hc⟩
    cases hc
    exact .inr ⟨hn, _, _, _, he.item⟩
  · intro j m l c hl
    by_cases hjm : j = dstDir.cluster ∧ m = name
    · rw [hjm.1, hjm.2, Table.set_item_self] at hl
      cases hl
      exact hm₂.file_ne hi he.item
    · rw [Table.set_item_of_ne hjm] at hl
      exact hm₂.file_ne hi hl
  rw [Table.set_comm fun h ↦ hij h.1.symm] at hshows₆
  refine ends_pure (.of_ok ?_ ⟨hclean₆, hm.sound.moved hj he.item, ?_, hshows₆⟩)
  · have hfree₆ : (d₆.free g).card = (d₅.free g).card := by
      rw [Disk.free, Disk.entry_congr hfat₆]
      rfl
    have hfree₅ := hadded.free
    rw [show (d₂.hold (d₂.area e.lba)).free g = d.free g from hfree₂] at hfree₅
    rw [hfree₆]
    refine .moved he.item hnone ?_
    rw [if_neg hij, ← hm.growth_eq hg hj hu₃.spares]
    exact hfree₅
  · rw [Table.heads_moved hm.sound he.item hnone]
    exact hlayout₅.congr hfat₆

end Move

end Vux9k

import Vux9k.Fat.Listing

/-!
# An entry added to a directory

What `free_slot` and `write_entry` together do: the directory lists one entry more, and all that is
not of this directory, and not free, is as it was.
-/

set_option autoImplicit false

namespace Vux9k

open Vol (Slot)

variable {g : Geometry} {d d' d'' : Disk}

/-! ## What is left alone -/

/-- The cluster's entry and its data are as they were. -/
structure Disk.SameCluster (g : Geometry) (d d' : Disk) (n : ℕ) : Prop where
  fat : d'.fat n = d.fat n
  data : ∀ s < g.clusterSectors, d'.area (g.clusterLba n + s) = d.area (g.clusterLba n + s)

/-- All is as it was but the free clusters, the clusters of which `S` holds, and FSInfo's two
counts. -/
structure Disk.Spares (g : Geometry) (S : ℕ → Prop) (d d' : Disk) : Prop where
  cluster : ∀ n, g.isCluster n = true → d.entry n ≠ 0 → ¬S n → d.SameCluster g d' n
  other : ∀ n, g.isCluster n = false → d'.fat n = d.fat n
  before : ∀ lba j, lba < g.fatLba → d'.area lba j ≠ d.area lba j →
    lba = g.fsinfoLba ∧ 488 ≤ j ∧ j < 496

theorem Disk.Spares.refl (S : ℕ → Prop) (b : Sector) : d.Spares g S (d.hold b) :=
  ⟨fun _ _ _ _ ↦ ⟨rfl, fun _ _ ↦ rfl⟩, fun _ _ ↦ rfl, fun _ _ _ hne ↦ absurd rfl hne⟩

theorem Disk.Spares.mono {S T : ℕ → Prop} (h : d.Spares g S d') (hST : ∀ n, S n → T n) :
    d.Spares g T d' :=
  ⟨fun n hn hused hT ↦ h.cluster n hn hused fun hS ↦ hT (hST n hS), h.other, h.before⟩

theorem Disk.Spares.trans {S : ℕ → Prop} (h : d.Spares g S d') (h' : d'.Spares g S d'') :
    d.Spares g S d'' where
  cluster n hn hused hS := by
    have h₁ := h.cluster n hn hused hS
    have h₂ := h'.cluster n hn (by rwa [Disk.entry_eq, h₁.fat]) hS
    exact ⟨h₂.fat.trans h₁.fat, fun s hs ↦ (h₂.data s hs).trans (h₁.data s hs)⟩
  other n hn := (h'.other n hn).trans (h.other n hn)
  before lba j hlba hne := by
    by_cases hj : d'.area lba j = d.area lba j
    · exact h'.before lba j hlba (by rwa [hj])
    · exact h.before lba j hlba hj

/-- Only FSInfo's counts have changed. -/
theorem Disk.Counts.spares (hg : g.Laid) (h : d.Counts g d') : d.Spares g (fun _ ↦ False) d' := by
  obtain ⟨area, b, hcounts, rfl⟩ := h
  refine ⟨fun n _ _ _ ↦ ⟨rfl, fun s _ ↦ hcounts.eq ?_⟩, fun _ _ ↦ rfl, fun lba j _ hne ↦ ?_⟩
  · have := g.dataLba_le_clusterLba n
    have := hg.data
    omega
  · obtain ⟨heq, -, h1, h2⟩ := hcounts lba j hne
    exact ⟨heq, h1, h2⟩

section Keeps

variable {S : ℕ → Prop} (h : d.Spares g S d')
include h

/-- The clusters of a chain that ends are in use, so a chain left alone is as it was. -/
theorem Disk.Spares.isChain {ns : List ℕ} (hchain : IsChain g d.entry ns)
    (hS : ∀ n ∈ ns, ¬S n) : IsChain g d'.entry ns := by
  refine hchain.congr fun n hn ↦ ?_
  have hsame := h.cluster n (hchain.isCluster_of_mem n hn) (hchain.entry_ne_zero n hn) (hS n hn)
  rw [Disk.entry_eq, Disk.entry_eq, hsame.fat]

theorem Disk.Spares.chain_eq (hg : g.Laid) {first last : ℕ} (hlast : (d.chain g first).2 = .ok last)
    (hS : ∀ n ∈ (d.chain g first).1, ¬S n) : d'.chain g first = d.chain g first := by
  obtain ⟨ns, hns, hchain, -⟩ := isChain_of_ending hlast
  rw [Disk.chain] at hS ⊢
  rw [hns] at hS
  have hlen := length_le_of_isCluster (hchain.nodup hg.toOk) hchain.isCluster_of_mem
  have h2 := (hg.toOk.lt_eoc hchain.isCluster).2.1
  have hfuel : ns.length < g.clusterEnd := by
    rw [List.length_cons] at hlen
    omega
  rw [Disk.chain, chainFrom_of_isChain hg.toOk (h.isChain hchain hS) hfuel,
    chainFrom_of_isChain hg.toOk hchain hfuel]

theorem Disk.Spares.slots_eq (hg : g.Laid) {first last : ℕ} (hlast : (d.chain g first).2 = .ok last)
    (hS : ∀ n ∈ (d.chain g first).1, ¬S n) : d'.slots g first = d.slots g first := by
  obtain ⟨ns, hns, hchain, -⟩ := isChain_of_ending hlast
  rw [Disk.slots, Disk.slots, h.chain_eq hg hlast hS]
  refine List.flatMap_congr fun n hn ↦ ?_
  have hmem : n ∈ first :: ns := hns ▸ hn
  have hsame := h.cluster n (hchain.isCluster_of_mem n hmem) (hchain.entry_ne_zero n hmem) (hS n hn)
  rw [clusterSlots, clusterSlots, sectorSlots, sectorSlots]
  refine List.flatMap_congr fun s hs ↦ ?_
  rw [hsame.data s (by simpa using hs)]

/-- **A directory left alone lists what it did.** -/
theorem Disk.Spares.directory_eq (hg : g.Laid) {first last : ℕ}
    (hlast : (d.chain g first).2 = .ok last) (hS : ∀ n ∈ (d.chain g first).1, ¬S n) :
    d'.directory g first = d.directory g first := by
  rw [Disk.directory, Disk.directory, h.slots_eq hg hlast hS, h.chain_eq hg hlast hS]

end Keeps

/-! ## Directories -/

/-- The directory's chain ends, and after its end come only empty slots. -/
structure Disk.Tidy (g : Geometry) (d : Disk) (first : ℕ) : Prop where
  ends : ∃ last, (d.chain g first).2 = .ok last
  tail : (d.slots g first).Pairwise fun s t ↦ s.bytes 0 = 0#8 → t.bytes 0 = 0#8

/-- An entry with the bytes `raw` has been added to the directory whose chain starts at `first`. -/
structure Disk.Added (g : Geometry) (d : Disk) (first : ℕ) (raw : List Byte) (slot : ℕ × ℕ)
    (d' : Disk) : Prop where
  spares : d.Spares g (· ∈ (d.chain g first).1) d'
  listed : ∃ as bs lfn long, (d.directory g first).entries = as ++ bs ∧
    (d'.directory g first).entries =
      as ++ (DirEntry.parse (ofBytes raw) slot.1 slot.2 lfn, long) :: bs
  tidy : d'.Tidy g first
  kept : ∀ n ∈ (d.chain g first).1, n ∈ (d'.chain g first).1
  fresh : ∀ n ∈ (d'.chain g first).1, n ∈ (d.chain g first).1 ∨ d.entry n = 0
  used : ∀ n, g.isCluster n = true →
    (d'.entry n ≠ 0 ↔ d.entry n ≠ 0 ∨ n ∈ (d'.chain g first).1)
  free : (d'.free g).card + (if d.openSlot g first = none then 1 else 0) = (d.free g).card
  clean : d'.dirty = d.dirty

/-- The bytes of an entry are those of a file or directory. -/
structure IsRaw (raw : List Byte) : Prop where
  length : raw.length = slotLen
  entry : IsEntry (ofBytes raw)

theorem sameBytes_spliced (c : Card) {lba index : ℕ} {raw : List Byte}
    (hraw : raw.length = slotLen) :
    SameBytes (ofBytes raw) (slotAt (spliced c lba index raw) (lba, index)).bytes :=
  fun _ hj ↦ slotAt_spliced_self c hraw hj

theorem forall₂_spliced (c : Card) {lba index : ℕ} {raw : List Byte} (hraw : raw.length = slotLen)
    {ps : List (ℕ × ℕ)} (hps : (lba, index) ∉ ps) :
    List.Forall₂ SameSlots (ps.map (slotAt c)) (ps.map (slotAt (spliced c lba index raw))) := by
  rw [List.forall₂_map_left_iff, List.forall₂_map_right_iff, List.forall₂_same]
  exact fun p hp ↦ sameSlots_spliced c hraw fun h ↦ hps (h ▸ hp)

theorem forall₂_refl_slots (ss : List Slot) : List.Forall₂ SameSlots ss ss :=
  List.forall₂_same.mpr fun _ _ ↦ ⟨rfl, rfl, fun _ _ ↦ rfl⟩

/-- The slots of a directory in which the one at `(lba, index)` is written over, as they are
listed. -/
theorem calls_spliced (c : Card) {lba index : ℕ} {raw : List Byte} (hraw : raw.length = slotLen)
    {pre post : List (ℕ × ℕ)} (hpre : (lba, index) ∉ pre) (hpost : (lba, index) ∉ post) :
    calls ((pre ++ (lba, index) :: post).map (slotAt (spliced c lba index raw))) =
      calls (pre.map (slotAt c) ++ slotAt (spliced c lba index raw) (lba, index) ::
        post.map (slotAt c)) := by
  rw [List.map_append, List.map_cons]
  refine calls_congr (List.rel_append (forall₂_spliced c hraw hpre) ?_)
  exact .cons ⟨rfl, rfl, fun _ _ ↦ rfl⟩ (forall₂_spliced c hraw hpost)

/-- The slots after the written one are as tidy as before. -/
theorem pairwise_spliced (c : Card) {lba index : ℕ} {raw : List Byte} (hraw : IsRaw raw)
    {pre post : List (ℕ × ℕ)} (hpre : (lba, index) ∉ pre) (hpost : (lba, index) ∉ post)
    (hused : ∀ p ∈ pre, (slotAt c p).bytes 0 ≠ 0#8)
    (htail : (post.map (slotAt c)).Pairwise fun s t ↦ s.bytes 0 = 0#8 → t.bytes 0 = 0#8) :
    ((pre ++ (lba, index) :: post).map (slotAt (spliced c lba index raw))).Pairwise
      fun s t ↦ s.bytes 0 = 0#8 → t.bytes 0 = 0#8 := by
  have hsame : ∀ p, p ≠ (lba, index) →
      (slotAt (spliced c lba index raw) p).bytes 0 = (slotAt c p).bytes 0 :=
    fun p hp ↦ (sameSlots_spliced c hraw.length hp).bytes.at 0
  rw [List.pairwise_map] at htail ⊢
  rw [List.pairwise_append, List.pairwise_cons]
  refine ⟨?_, ⟨fun p _ h0 ↦ ?_, ?_⟩, fun p hp q _ h0 ↦ ?_⟩
  · refine List.pairwise_of_forall_mem_list fun p hp q _ h0 ↦ ?_
    rw [hsame p fun h ↦ hpre (h ▸ hp)] at h0
    exact absurd h0 (hused p hp)
  · rw [(sameBytes_spliced c hraw.length).at 0] at h0
    exact absurd h0 hraw.entry.used
  · refine htail.imp_of_mem fun {p q} hp hq h h0 ↦ ?_
    rw [hsame p fun h ↦ hpost (h ▸ hp)] at h0
    rw [hsame q fun h ↦ hpost (h ▸ hq)]
    exact h h0
  · rw [hsame p fun h ↦ hpre (h ▸ hp)] at h0
    exact absurd h0 (hused p hp)

theorem Disk.chain_nodup (hg : g.Laid) {first last : ℕ} (hlast : (d.chain g first).2 = .ok last) :
    (d.chain g first).1.Nodup ∧ ∀ n ∈ (d.chain g first).1, g.isCluster n = true ∧
    d.entry n ≠ 0 := by
  obtain ⟨ns, hns, hchain, -⟩ := isChain_of_ending hlast
  rw [Disk.chain, hns]
  exact ⟨hchain.nodup hg.toOk,
    fun n hn ↦ ⟨hchain.isCluster_of_mem n hn, hchain.entry_ne_zero n hn⟩⟩

theorem Disk.positions_nodup (hg : g.Laid) {first last : ℕ}
    (hlast : (d.chain g first).2 = .ok last) : (d.positions g first).Nodup := by
  obtain ⟨hnodup, hall⟩ := Disk.chain_nodup hg hlast
  exact nodup_chain (fun n hn ↦ (hall n hn).1) hnodup

theorem Vol.Slot.used_of_not_open {s : Slot} (h : s.isOpen = false) : s.bytes 0 ≠ 0#8 := by
  intro h0
  rw [Slot.isOpen_iff.mpr (.inl h0)] at h
  cases h

/-- The new slot is in the data. -/
theorem FindsSlot.data {first : ℕ} {slot : ℕ × ℕ} (h : FindsSlot g d first (.ok slot) d') :
    g.dataLba ≤ slot.1 := by
  generalize hr : (Except.ok slot : Except FatError (ℕ × ℕ)) = r at h
  cases h with
  | found hopen b =>
    rename_i s
    cases hr
    have hmem := List.mem_of_find?_eq_some hopen
    rw [Disk.slots_eq, List.mem_map] at hmem
    obtain ⟨p, hp, rfl⟩ := hmem
    obtain ⟨n, -, hp⟩ := List.mem_flatMap.mp hp
    obtain ⟨-, k, -, hk⟩ := mem_clusterPositions hp
    rw [pos_slotAt, hk]
    exact (g.dataLba_le_clusterLba n).trans (Nat.le_add_right _ _)
  | grown =>
    cases hr
    exact g.dataLba_le_clusterLba _
  | full => cases hr

/-- An entry in an open slot of the directory. -/
theorem added_found (hg : g.Laid) {first : ℕ} {s : Slot} {raw : List Byte} (htidy : d.Tidy g first)
    (hopen : d.openSlot g first = some s) (hraw : IsRaw raw)
    (hfat : d'.fat = d.fat) (harea : d'.area = spliced d.area s.lba s.index raw)
    (hclean : d'.dirty = d.dirty) : d.Added g first raw s.pos d' := by
  obtain ⟨last, hlast⟩ := htidy.ends
  have hentry : d'.entry = d.entry := funext fun n ↦ by rw [Disk.entry_eq, Disk.entry_eq, hfat]
  have hchain : d'.chain g first = d.chain g first := by rw [Disk.chain, Disk.chain, hentry]
  have hpositions : d'.positions g first = d.positions g first := by
    rw [Disk.positions, Disk.positions, hchain]
  -- the places before and after
  obtain ⟨hs, ss, ts, hsplit, hss⟩ := List.find?_eq_some_iff_append.mp hopen
  rw [Disk.slots_eq, List.map_eq_append_iff] at hsplit
  obtain ⟨pre, rest, hps, rfl, hrest⟩ := hsplit
  obtain ⟨p, post, rfl, rfl, rfl⟩ := List.map_eq_cons_iff.mp hrest
  have hnodup := Disk.positions_nodup hg hlast
  rw [hps] at hnodup
  have hpre : p ∉ pre := fun h ↦ (List.nodup_append.mp hnodup).2.2 p h p List.mem_cons_self rfl
  have hpost : p ∉ post := (List.nodup_cons.mp (List.nodup_append.mp hnodup).2.1).1
  have hnotopen : ∀ t ∈ pre.map (slotAt d.area), t.isOpen = false := fun t ht ↦ by
    simpa using hss t ht
  have hslots : d.slots g first =
      pre.map (slotAt d.area) ++ slotAt d.area p :: post.map (slotAt d.area) := by
    rw [Disk.slots_eq, hps, List.map_append, List.map_cons]
  have htail := htidy.tail
  rw [hslots, List.pairwise_append, List.pairwise_cons] at htail
  have hspliced : d'.area = spliced d.area p.1 p.2 raw := harea
  have hslots' : d'.slots g first =
      (pre ++ (p.1, p.2) :: post).map (slotAt (spliced d.area p.1 p.2 raw)) := by
    rw [Disk.slots_eq, hpositions, hps, hspliced]
  have hsame := @sameBytes_spliced d.area p.1 p.2 _ hraw.length
  refine ⟨⟨fun n hn _ hmem ↦ ⟨by rw [hfat], fun k hk ↦ ?_⟩, fun n _ ↦ by rw [hfat],
    fun l j hl hne ↦ ?_⟩,
    ?_, ⟨⟨last, by rw [hchain, hlast]⟩, ?_⟩, fun n hn ↦ by rwa [hchain],
    fun n hn ↦ .inl (hchain ▸ hn), fun n _ ↦ ?_, ?_, hclean⟩
  · -- the slot is in a cluster of the directory
    rw [hspliced, spliced, Function.update_of_ne]
    have hmemp : p ∈ d.positions g first := by
      rw [hps]
      simp
    obtain ⟨m, hm, hp⟩ := List.mem_flatMap.mp hmemp
    obtain ⟨-, i, hi, hpi⟩ := mem_clusterPositions hp
    intro heq
    have hm2 := (hg.toOk.lt_eoc ((Disk.chain_nodup hg hlast).2 m hm).1).1
    have hn2 := (hg.toOk.lt_eoc hn).1
    have hne : n ≠ m := fun h ↦ hmem (h ▸ hm)
    have := @clusterLba_apart g n m hn2 hm2 hne
    omega
  · have hdata : g.dataLba ≤ p.1 := FindsSlot.data (.found hopen d.buf)
    have := hg.data
    rw [hspliced, spliced, Function.update_of_ne (by omega)] at hne
    exact absurd rfl hne
  · obtain ⟨as, bs, long, lfn, h₁, h₂⟩ := @calls_insert _ _ (slotAt d.area p)
      (slotAt (spliced d.area p.1 p.2 raw) (p.1, p.2)) hnotopen hs (fun h0 t ht ↦
        htail.2.1.1 t ht h0) (hsame.isEntry.mpr hraw.entry)
    refine ⟨as, bs, lfn, long, ?_, ?_⟩
    · change calls (d.slots g first) = _
      rw [hslots, h₁]
    · change calls (d'.slots g first) = _
      rw [hslots', calls_spliced d.area hraw.length hpre hpost, h₂, hsame.parse]
      rfl
  · rw [hslots']
    refine pairwise_spliced d.area hraw hpre hpost (fun q hq ↦ ?_) htail.2.1.2
    exact Slot.used_of_not_open (hnotopen _ (List.mem_map_of_mem hq))
  · rw [hentry, hchain]
    exact ⟨.inl, fun h ↦ h.elim id fun hmem ↦ ((Disk.chain_nodup hg hlast).2 n hmem).2⟩
  · have hfree : d'.free g = d.free g := by rw [Disk.free, Disk.free, hentry]
    rw [hfree, hopen]
    rfl

/-! ## A directory with one more cluster -/

theorem isChain_grown {fat fat' : ℕ → ℕ} {ns : List ℕ} {last new : ℕ} (h : IsChain g fat ns)
    (hnodup : ns.Nodup) (hlast : ns.getLast? = some last) (hnew : g.isCluster new = true)
    (hsame : ∀ n ∈ ns, n ≠ last → fat' n = fat n) (hlink : fat' last = new)
    (hend : eocMin ≤ fat' new) : IsChain g fat' (ns ++ [new]) := by
  induction ns with
  | nil => cases hlast
  | cons n ns ih =>
    cases ns with
    | nil =>
      cases hlast
      exact ⟨h.1, hlink, hnew, hend⟩
    | cons m ns =>
      obtain ⟨hnot, hnodup⟩ := List.nodup_cons.mp hnodup
      rw [List.getLast?_cons_cons] at hlast
      have hne : n ≠ last := fun heq ↦ hnot (heq ▸ List.mem_of_getLast? hlast)
      refine ⟨h.1, (hsame n List.mem_cons_self hne).trans h.2.1, ?_⟩
      exact ih h.2.2 hnodup hlast fun k hk ↦ hsame k (List.mem_cons_of_mem n hk)

theorem zeroed_of_not_mem {c : Card} {n l : ℕ}
    (hl : l < g.clusterLba n ∨ g.clusterLba n + g.clusterSectors ≤ l) : zeroed g c n l = c l := by
  rw [zeroed, if_neg (by omega)]

theorem clusterPositions_cons (g : Geometry) (n : ℕ) :
    ∃ ps, clusterPositions g n = (g.clusterLba n, 0) :: ps ∧
      (∀ p ∈ ps, p ≠ (g.clusterLba n, 0)) ∧
      ∀ p ∈ ps, g.clusterLba n ≤ p.1 ∧ p.1 < g.clusterLba n + g.clusterSectors := by
  have hhead := head?_clusterPositions g n
  cases hps : clusterPositions g n with
  | nil =>
    rw [hps] at hhead
    cases hhead
  | cons p ps =>
    rw [hps] at hhead
    cases hhead
    refine ⟨ps, rfl, fun q hq ↦ ?_, fun q hq ↦ ?_⟩
    · have hnodup : (clusterPositions g n).Nodup := by
        rw [clusterPositions, List.nodup_flatMap]
        refine ⟨fun s _ ↦ (List.nodup_range' 1).map fun i j hij ↦ (Prod.mk.inj hij).2, ?_⟩
        refine (List.nodup_range' 1).imp fun {s t} hst p hp hq ↦ ?_
        obtain ⟨i, -, rfl⟩ := List.mem_map.mp hp
        obtain ⟨j, -, hj⟩ := List.mem_map.mp hq
        have := (Prod.mk.inj hj).1
        omega
      rw [hps] at hnodup
      exact fun heq ↦ (List.nodup_cons.mp hnodup).1 (heq ▸ hq)
    · have hmem : q ∈ clusterPositions g n := by
        rw [hps]
        exact List.mem_cons_of_mem _ hq
      obtain ⟨-, s, hs, hqs⟩ := mem_clusterPositions hmem
      omega

/-- An entry in a new cluster of the directory. -/
theorem added_grown (hg : g.Laid) {first last new : ℕ} {raw : List Byte}
    (hopen : d.openSlot g first = none) (hlast : (d.chain g first).2 = .ok last)
    (hnew : new ∈ d.free g) (hraw : IsRaw raw) (hfat : d'.fat = allocated d.fat new (some last))
    (harea : d'.area = spliced (zeroed g d.area new) (g.clusterLba new) 0 raw)
    (hclean : d'.dirty = d.dirty) : d.Added g first raw (g.clusterLba new, 0) d' := by
  obtain ⟨hnodup, hall⟩ := Disk.chain_nodup hg hlast
  have hfree := Disk.mem_free.mp hnew
  have hnew2 := (hg.toOk.lt_eoc hfree.1).1
  have hnotin : new ∉ (d.chain g first).1 := fun h ↦ (hall new h).2 hfree.2
  obtain ⟨ns, hns, hchain, hgetLast⟩ := isChain_of_ending hlast
  have hns' : (d.chain g first).1 = first :: ns := hns
  have hlastmem : last ∈ (d.chain g first).1 := by
    rw [hns']
    exact List.mem_of_getLast? hgetLast
  have hlastnew : last ≠ new := fun h ↦ hnotin (h ▸ hlastmem)
  have hentry : ∀ n, d'.entry n = bits (allocated d.fat new (some last) n) := fun n ↦ by
    rw [Disk.entry_eq, hfat]
  have hsame : ∀ n, n ≠ new → n ≠ last → d'.fat n = d.fat n := fun n hn hl ↦ by
    rw [hfat, allocated_of_ne hn fun h ↦ hl (Option.some.inj h).symm]
  -- the chain is one cluster longer
  have hgrown : IsChain g d'.entry (first :: (ns ++ [new])) := by
    rw [← List.cons_append]
    refine isChain_grown hchain (hns' ▸ hnodup) hgetLast hfree.1 (fun n hn hl ↦ ?_) ?_ ?_
    · rw [Disk.entry_eq, Disk.entry_eq, hsame n (fun h ↦ hnotin (hns' ▸ h ▸ hn)) hl]
    · rw [hentry, allocated_prev (hg.le_mask hfree.1)]
    · rw [hentry, allocated_new fun h ↦ hlastnew (Option.some.inj h)]
      decide
  have hlen := length_le_of_isCluster (hgrown.nodup hg.toOk) hgrown.isCluster_of_mem
  have hend := (hg.toOk.lt_eoc hgrown.isCluster).2.1
  have hchain' := @chainFrom_of_isChain _ hg.toOk _ _ _ g.clusterEnd hgrown (by
    rw [List.length_cons] at hlen
    omega)
  have hgrownChain : (d'.chain g first).1 = (d.chain g first).1 ++ [new] := by
    rw [Disk.chain, hchain', hns']
    rfl
  have hpositions : d'.positions g first = d.positions g first ++ clusterPositions g new := by
    rw [Disk.positions, Disk.positions, hgrownChain, List.flatMap_append, List.flatMap_singleton]
  obtain ⟨ps, hps, hne, hin⟩ := clusterPositions_cons g new
  have hold : ∀ p ∈ d.positions g first,
      p.1 < g.clusterLba new ∨ g.clusterLba new + g.clusterSectors ≤ p.1 := by
    intro p hp
    obtain ⟨m, hm, hp⟩ := List.mem_flatMap.mp hp
    obtain ⟨-, i, hi, hpi⟩ := mem_clusterPositions hp
    have hm2 := (hg.toOk.lt_eoc (hall m hm).1).1
    have := @clusterLba_apart g m new hm2 hnew2 fun h ↦ hnotin (h ▸ hm)
    omega
  have hpos := g.clusterSectors_pos
  have hpre : (g.clusterLba new, 0) ∉ d.positions g first := fun h ↦ by
    have := hold _ h
    dsimp only at this
    omega
  have hpost : (g.clusterLba new, 0) ∉ ps := fun h ↦ hne _ h rfl
  have hslots : d.slots g first =
      (d.positions g first).map (slotAt (zeroed g d.area new)) := by
    rw [Disk.slots_eq]
    refine List.map_congr_left fun p hp ↦ ?_
    rw [slotAt, slotAt, zeroed_of_not_mem (hold p hp)]
  have hslots' : d'.slots g first = ((d.positions g first) ++ (g.clusterLba new, 0) :: ps).map
      (slotAt (spliced (zeroed g d.area new) (g.clusterLba new) 0 raw)) := by
    rw [Disk.slots_eq, hpositions, hps, harea]
  have hnotopen : ∀ t ∈ d.slots g first, t.isOpen = false := fun t ht ↦ by
    simpa using List.find?_eq_none.mp hopen t ht
  have hzero : ∀ t ∈ ps.map (slotAt (zeroed g d.area new)), t.bytes 0 = 0#8 := by
    intro t ht
    obtain ⟨p, hp, rfl⟩ := List.mem_map.mp ht
    change zeroed g d.area new p.1 _ = _
    rw [zeroed, if_pos (hin p hp)]
  have hsamebytes :=
    @sameBytes_spliced (zeroed g d.area new) (g.clusterLba new) 0 _ hraw.length
  refine ⟨⟨fun n hn hused hmem ↦ ?_, fun n hn ↦ ?_, fun l j hl hne ↦ ?_⟩, ?_,
    ⟨⟨_, by rw [Disk.chain, hchain']⟩, ?_⟩, fun n hn ↦ ?_, fun n hn ↦ ?_, fun n hn ↦ ?_, ?_, hclean⟩
  · have hnn : n ≠ new := fun h ↦ hused (h ▸ hfree.2)
    refine ⟨hsame n hnn fun h ↦ hmem (h ▸ hlastmem), fun k hk ↦ ?_⟩
    have := @clusterLba_apart g n new (hg.toOk.lt_eoc hn).1 hnew2 hnn
    rw [harea, spliced, Function.update_of_ne (by omega), zeroed_of_not_mem (by omega)]
  · refine hsame n (fun h ↦ ?_) fun h ↦ ?_
    · rw [h, hfree.1] at hn
      cases hn
    · rw [h, (hall last hlastmem).1] at hn
      cases hn
  · have := g.dataLba_le_clusterLba new
    have := hg.data
    rw [harea, spliced, Function.update_of_ne (by omega), zeroed_of_not_mem (by omega)] at hne
    exact absurd rfl hne
  · obtain ⟨long, lfn, h⟩ := @calls_concat _ _
      (slotAt (spliced (zeroed g d.area new) (g.clusterLba new) 0 raw) (g.clusterLba new, 0))
      hnotopen hzero (hsamebytes.isEntry.mpr hraw.entry)
    refine ⟨(d.directory g first).entries, [], lfn, long, by simp, ?_⟩
    change calls (d'.slots g first) = _
    rw [hslots', calls_spliced _ hraw.length hpre hpost, ← hslots, h, hsamebytes.parse]
    rfl
  · rw [hslots']
    refine pairwise_spliced _ hraw hpre hpost (fun q hq ↦ ?_) ?_
    · refine Slot.used_of_not_open (hnotopen _ ?_)
      rw [hslots]
      exact List.mem_map_of_mem hq
    · exact List.pairwise_of_forall_mem_list fun _ _ t ht _ ↦ hzero t ht
  · rw [hgrownChain]
    exact List.mem_append_left _ hn
  · rw [hgrownChain, List.mem_append, List.mem_singleton] at hn
    refine hn.imp_right fun h ↦ ?_
    rw [h]
    exact hfree.2
  · rw [hgrownChain, List.mem_append, List.mem_singleton]
    have hmem := Disk.mem_free_take (m := n) hg (Disk.behind_last hlast) hnew
    rw [Disk.mem_free, Disk.mem_free] at hmem
    have hentry' : d'.entry n = (d.take new (some last)).entry n := by
      rw [hentry]
      rfl
    rw [hentry']
    constructor
    · intro hused
      by_cases hnn : n = new
      · exact .inr (.inr hnn)
      · exact .inl fun h0 ↦ hused (hmem.mpr ⟨⟨hn, h0⟩, hnn⟩).2
    · rintro (hold | hold | rfl) h0
      · exact hold (hmem.mp ⟨hn, h0⟩).1.2
      · exact (hall n hold).2 (hmem.mp ⟨hn, h0⟩).1.2
      · exact (hmem.mp ⟨hn, h0⟩).2 rfl
  · have htake : d'.free g = (d.free g).erase new := by
      ext m
      have hmem := Disk.mem_free_take (m := m) hg (Disk.behind_last hlast) hnew
      rw [Finset.mem_erase, and_comm, ← hmem, Disk.mem_free, Disk.mem_free, hentry]
      rfl
    rw [htake, hopen, if_pos rfl]
    exact Finset.card_erase_add_one hnew

/-- **An entry added to a directory.** -/
theorem FindsSlot.added (hg : g.Laid) {first : ℕ} {slot : ℕ × ℕ} {raw : List Byte}
    (hclean : d.dirty = false) (htidy : d.Tidy g first) (hraw : IsRaw raw)
    (h : FindsSlot g d first (.ok slot) d') (b : Sector) :
    d.Added g first raw slot ((d'.hold b).put slot.1
      (splice (d'.area slot.1) (slot.2 * slotLen) raw)) := by
  generalize hr : (Except.ok slot : Except FatError (ℕ × ℕ)) = r at h
  cases h with
  | found hopen b' =>
    cases hr
    exact added_found hg htidy hopen hraw rfl rfl rfl
  | grown hopen hlast hnew fat area clean =>
    cases hr
    refine added_grown hg hopen hlast hnew hraw fat ?_ (clean.trans hclean.symm)
    rw [← area]
    rfl
  | full => cases hr

end Vux9k

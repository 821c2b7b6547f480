import Mathlib.Data.List.GetD
import Vux9k.Fat.Adding

/-!
# Files created

`create` of `fw_common/src/fat/write.rs` on a card without errors: it refuses a name that is taken,
changes nothing that is in use if the card is too full, and else stores the file, which is read back
as it was given.
-/

set_option autoImplicit false

namespace Vux9k

open Vol (Slot)

variable {g : Geometry} {d d' : Disk}

/-! ## The bytes of an entry -/

/-- A name that a slot can have: it does not begin like a deleted slot or like the end. -/
def ShortName.Shown (name : ShortName) : Prop :=
  name.1.getD 0 0#8 ≠ 0#8 ∧ name.1.getD 0 0#8 ≠ deleted

theorem length_entryBytes (name : ShortName) (attr : Byte) (first size : ℕ) :
    (entryBytes name attr first size).length = slotLen := by
  simp [entryBytes, leBytes16, leBytes, date1980, name.2, slotLen]

theorem ofBytes_entryBytes (name : ShortName) (attr : Byte) (first size : ℕ) (k : ℕ) :
    ofBytes (entryBytes name attr first size) (11 + k) =
      ([attr] ++ [0#8, 0#8, 0#8, 0#8] ++ date1980 ++ date1980 ++ leBytes16 (first >>> 16) ++
        [0#8, 0#8] ++ date1980 ++ leBytes16 first ++ leBytes (BitVec.ofNat 32 size)).getD k
          0#8 := by
  rw [ofBytes, entryBytes]
  simp only [List.append_assoc]
  rw [List.getD_append_right _ _ _ _ (by rw [name.2]; omega), name.2, Nat.add_sub_cancel_left]

theorem ofFn_entryBytes (name : ShortName) (attr : Byte) (first size : ℕ) :
    ShortName.ofFn (ofBytes (entryBytes name attr first size)) = name := by
  refine Subtype.ext (List.ext_getElem (by rw [(ShortName.ofFn _).2, name.2]) fun i h₁ h₂ ↦ ?_)
  simp only [ShortName.ofFn, List.getElem_map, List.getElem_range]
  rw [ofBytes, entryBytes]
  simp only [List.append_assoc]
  rw [List.getD_append _ _ _ _ h₂, List.getD_eq_getElem _ _ h₂]

theorem le16_leBytes16 {e : ℕ → Byte} {i n : ℕ} (h₀ : e i = BitVec.ofNat 8 n)
    (h₁ : e (i + 1) = BitVec.ofNat 8 (n >>> 8)) : le16 e i = n % 2 ^ 16 := by
  rw [le16, h₀, h₁, BitVec.toNat_ofNat, BitVec.toNat_ofNat, Nat.or_comm,
    Nat.shiftLeft_eq, Nat.shiftRight_eq_div_pow, Nat.mul_comm,
    ← Nat.two_pow_add_eq_or_of_lt (Nat.mod_lt n (Nat.two_pow_pos 8))]
  omega

/-- **An entry is read as it was written.** -/
theorem parse_entryBytes (name : ShortName) (attr : Byte) {first size : ℕ} (hfirst : first < 2 ^ 32)
    (hsize : size < 2 ^ 32) (lba index : ℕ) (lfn : Option (ℕ × ℕ)) :
    DirEntry.parse (ofBytes (entryBytes name attr first size)) lba index lfn =
      { name := name, attr := attr, cluster := first, size := size, lba := lba, index := index,
        lfnLba := (lfn.map Prod.fst).getD lba, lfnIndex := (lfn.map Prod.snd).getD index } := by
  have hat := ofBytes_entryBytes name attr first size
  have hhigh : le16 (ofBytes (entryBytes name attr first size)) 20 = (first >>> 16) % 2 ^ 16 :=
    le16_leBytes16 (hat 9) (hat 10)
  have hlow : le16 (ofBytes (entryBytes name attr first size)) 26 = first % 2 ^ 16 :=
    le16_leBytes16 (hat 15) (hat 16)
  have hword : word (ofBytes (entryBytes name attr first size)) 28 = BitVec.ofNat 32 size := by
    rw [word, show ofBytes (entryBytes name attr first size) 28 = _ from hat 17,
      show ofBytes (entryBytes name attr first size) (28 + 1) = _ from hat 18,
      show ofBytes (entryBytes name attr first size) (28 + 2) = _ from hat 19,
      show ofBytes (entryBytes name attr first size) (28 + 3) = _ from hat 20]
    exact leWord_leBytes _
  have hcluster : ((first >>> 16) % 2 ^ 16) <<< 16 ||| first % 2 ^ 16 = first := by
    rw [Nat.shiftLeft_eq, Nat.shiftRight_eq_div_pow, Nat.mul_comm,
      ← Nat.two_pow_add_eq_or_of_lt (Nat.mod_lt first (Nat.two_pow_pos 16))]
    omega
  rw [DirEntry.parse, ofFn_entryBytes, hhigh, hlow, hcluster, le32, hword, BitVec.toNat_ofNat,
    Nat.mod_eq_of_lt hsize]
  have hattr : ofBytes (entryBytes name attr first size) 11 = attr := hat 0
  rw [hattr]

theorem isRaw_entryBytes {name : ShortName} (hname : name.Shown) {attr : Byte}
    (hlfn : attr ≠ attrLfn) (hvol : attr &&& attrVolume = 0#8) (first size : ℕ) :
    IsRaw (entryBytes name attr first size) where
  length := length_entryBytes name attr first size
  entry := by
    have h0 : ofBytes (entryBytes name attr first size) 0 = name.1.getD 0 0#8 := by
      rw [ofBytes, entryBytes]
      simp only [List.append_assoc]
      rw [List.getD_append _ _ _ _ (by rw [name.2]; omega)]
    have h11 : ofBytes (entryBytes name attr first size) 11 = attr :=
      ofBytes_entryBytes name attr first size 0
    refine ⟨h0 ▸ hname.1, h0 ▸ hname.2, ?_, ?_⟩
    · rwa [h11]
    · rwa [h11]

/-! ## Chains just made -/

section Made

variable {xs : List (List Byte)} {ns : List ℕ}

/-- The pieces fit in a cluster each. -/
def Fits (g : Geometry) (xs : List (List Byte)) : Prop := ∀ x ∈ xs, x.length ≤ g.clusterBytes

theorem Fits.sectors (h : Fits g xs) : ∀ x ∈ xs, (chunks sectorLen x).length ≤ g.clusterSectors :=
  fun x hx ↦ length_chunks_le (by decide) (g.clusterBytes_eq ▸ h x hx)

theorem clusterBytes_pos (g : Geometry) : 0 < g.clusterBytes := by
  rw [g.clusterBytes_eq]
  exact Nat.mul_pos g.clusterSectors_pos (by decide)

theorem fits_chunks (g : Geometry) (data : List Byte) : Fits g (chunks g.clusterBytes data) :=
  fun _ hx ↦ length_le_of_mem_chunks (clusterBytes_pos g) hx

/-- Data in free clusters leaves the others as they are. -/
theorem spares_filled (hg : g.Laid) (hxs : Fits g xs) (hfree : ∀ n ∈ ns, n ∈ d.free g)
    (hfat : ∀ n, n ∉ ns → d'.fat n = d.fat n) (harea : d'.area = filled g d.area ns xs) :
    d.Spares g (fun _ ↦ False) d' := by
  have hns := fun n hn ↦ Disk.mem_free.mp (hfree n hn)
  have htwo := fun n hn ↦ (hg.toOk.lt_eoc (hns n hn).1).1
  refine ⟨fun n hn hused _ ↦ ⟨hfat n fun h ↦ hused (hns n h).2, fun s hs ↦ ?_⟩,
    fun n hn ↦ hfat n fun h ↦ ?_, fun l j hl hne ↦ ?_⟩
  · rw [harea, filled_of_other hxs.sectors fun m hm ↦ ?_]
    have hne : n ≠ m := fun h ↦ hused (h ▸ (hns m hm).2)
    have := @clusterLba_apart g n m (hg.toOk.lt_eoc hn).1 (htwo m hm) hne
    omega
  · rw [(hns n h).1] at hn
    cases hn
  · have hdata := hg.data
    rw [harea, filled_of_other hxs.sectors fun m _ ↦ .inl ?_] at hne
    · exact absurd rfl hne
    · have := g.dataLba_le_clusterLba m
      omega

theorem Made.spares (hg : g.Laid) (hxs : Fits g xs) (h : Made g d none xs ns d') :
    d.Spares g (fun _ ↦ False) d' :=
  spares_filled hg hxs h.free
    (fun n hn ↦ by rw [h.fat, linked_of_not_mem hn (by simp)]) h.area

end Made

/-- The clusters `ns`, which were free, have become a chain. -/
structure Disk.Gains (g : Geometry) (d : Disk) (ns : List ℕ) (d' : Disk) : Prop where
  nodup : ns.Nodup
  free : ∀ n ∈ ns, n ∈ d.free g
  fat : d'.fat = linked d.fat none ns

theorem Made.gains {xs : List (List Byte)} {ns : List ℕ} (h : Made g d none xs ns d') :
    d.Gains g ns d' := ⟨h.nodup, h.free, h.fat⟩

section Gains

variable {ns : List ℕ}

theorem Disk.Gains.isChain (hg : g.Laid) {n : ℕ} (h : d.Gains g (n :: ns) d') :
    IsChain g d'.entry (n :: ns) := by
  have hchain := @isChain_linked _ hg d.fat none _ _
    (fun m hm ↦ (Disk.mem_free.mp (h.free m hm)).1) h.nodup (by simp)
  rw [← h.fat] at hchain
  exact hchain

theorem Disk.Gains.used (hg : g.Laid) (h : d.Gains g ns d') : ∀ n ∈ ns, d'.entry n ≠ 0 := by
  cases ns with
  | nil => simp
  | cons n ns => exact (h.isChain hg).entry_ne_zero

/-- As many free clusters less. -/
theorem Disk.Gains.free_card (hg : g.Laid) (h : d.Gains g ns d') :
    (d'.free g).card + ns.length = (d.free g).card := by
  have hsub : ns.toFinset ⊆ d.free g := fun n hn ↦ h.free n (List.mem_toFinset.mp hn)
  have hfree : d'.free g = d.free g \ ns.toFinset := by
    ext n
    rw [Finset.mem_sdiff, List.mem_toFinset, Disk.mem_free, Disk.mem_free]
    by_cases hn : n ∈ ns
    · have := h.used hg n hn
      simp [hn, this]
    · rw [Disk.entry_eq, h.fat, linked_of_not_mem hn (by simp)]
      simp [hn, Disk.entry_eq]
  rw [hfree, Finset.card_sdiff_of_subset hsub, List.toFinset_card_of_nodup h.nodup]
  have hle := Finset.card_le_card hsub
  rw [List.toFinset_card_of_nodup h.nodup] at hle
  omega

end Gains

/-! ## The contents of a file -/

/-- The file's chain has just the clusters that its size needs, and they hold the data. -/
structure Disk.Holds (g : Geometry) (d : Disk) (first : ℕ) (data : List Byte) : Prop where
  empty : data = [] → first = 0
  chain : data ≠ [] → ∃ ns, IsChain g d.entry (first :: ns) ∧
    ns.length * g.clusterBytes < data.length ∧
    data.length ≤ (ns.length + 1) * g.clusterBytes ∧
    data = ((first :: ns).flatMap (clusterData g d.area)).take data.length

/-- **The chain made holds the data.** -/
theorem Made.holds (hg : g.Laid) {data : List Byte} {ns : List ℕ}
    (h : Made g d none (chunks g.clusterBytes data) ns d')
    (hlen : ns.length = (chunks g.clusterBytes data).length) : d'.Holds g (ns.headD 0) data := by
  have hpos := clusterBytes_pos g
  refine ⟨fun hnil ↦ ?_, fun hne ↦ ?_⟩
  · rw [hnil, chunks_nil] at hlen
    rw [List.eq_nil_of_length_eq_zero hlen]
    rfl
  have hlt := length_chunks_lt hpos data
  have hge := length_le_chunks hpos data
  cases ns with
  | nil =>
    have hzero : (chunks g.clusterBytes data).length = 0 := hlen.symm
    rw [hzero] at hge
    exact absurd (List.eq_nil_of_length_eq_zero (by omega)) hne
  | cons n ns =>
    have hprefix := prefix_of_chunks hpos (clusterData g d'.area)
      (fun n ↦ length_clusterData g d'.area n) (show List.Forall₂ _ (chunks _ data) (n :: ns) by
        rw [h.area]
        exact prefix_filled hlen h.nodup
          (fun m hm ↦ (hg.toOk.lt_eoc (Disk.mem_free.mp (h.free m hm)).1).1) (fits_chunks g data))
    rw [List.length_cons] at hlen
    rw [← hlen, Nat.add_mul, Nat.one_mul] at hlt hge
    refine ⟨ns, h.gains.isChain hg, by omega, by rw [Nat.add_mul, Nat.one_mul]; exact hge, ?_⟩
    exact List.prefix_iff_eq_take.mp hprefix

/-- What is left alone keeps its contents. -/
theorem Disk.Spares.holds {S : ℕ → Prop} (h : d.Spares g S d') {first : ℕ} {data : List Byte}
    (hd : d.Holds g first data)
    (hS : ∀ ns, IsChain g d.entry (first :: ns) → ∀ n ∈ first :: ns, ¬S n) :
    d'.Holds g first data := by
  refine ⟨hd.empty, fun hne ↦ ?_⟩
  obtain ⟨ns, hchain, hlow, hhigh, hdata⟩ := hd.chain hne
  refine ⟨ns, h.isChain hchain (hS ns hchain), hlow, hhigh, ?_⟩
  have hsame : ((first :: ns).flatMap (clusterData g d'.area)) =
      (first :: ns).flatMap (clusterData g d.area) := by
    refine List.flatMap_congr fun n hn ↦ clusterData_congr fun s hs ↦ ?_
    exact (h.cluster n (hchain.isCluster_of_mem n hn) (hchain.entry_ne_zero n hn)
      (hS ns hchain n hn)).data s hs
  rw [hsame]
  exact hdata

/-! ## `create` -/

/-- The entries of a directory. -/
def Disk.entries (g : Geometry) (d : Disk) (first : ℕ) : List (DirEntry × Option (List Byte)) :=
  (d.directory g first).entries

/-- A tidy directory is searched to its end. -/
theorem Disk.Tidy.find {dir : DirEntry} (h : d.Tidy g dir.cluster) (hdir : dir.isDir = true)
    (p : DirEntry → Option (List Byte) → Bool) : (d.tree g).find dir p =
      .ok (((d.entries g dir.cluster).find? fun x ↦ p x.1 x.2).map Prod.fst) := by
  obtain ⟨last, hlast⟩ := h.ends
  have hend : (d.directory g dir.cluster).ending = .ok () := by
    rw [Disk.directory, Directory.ofSlots, hlast]
    split <;> rfl
  rw [Tree.find, if_neg (not_not.mpr hdir)]
  change (d.directory g dir.cluster).first p = _
  rw [Directory.first, Directory.answer, hend, Disk.entries]
  split
  · rename_i hnone
    rw [hnone]
    rfl
  · rfl

/-- How many clusters it takes to add an entry to the directory. -/
def Disk.growth (g : Geometry) (d : Disk) (first : ℕ) : ℕ :=
  if d.openSlot g first = none then 1 else 0

/-- The entry that `create` returns. -/
def newEntry (name : ShortName) (attr : Byte) (first size : ℕ) (slot : ℕ × ℕ) : DirEntry where
  name := name
  attr := attr
  cluster := first
  size := size
  lba := slot.1
  index := slot.2
  lfnLba := slot.1
  lfnIndex := slot.2

/-- The directory lists the entry `e`, perhaps with a long name that was left before it, between the
entries that were there. -/
def Lists (old new : List (DirEntry × Option (List Byte))) (e : DirEntry) : Prop :=
  ∃ as bs lfnLba lfnIndex long, old = as ++ bs ∧
    new = as ++ ({ e with lfnLba := lfnLba, lfnIndex := lfnIndex }, long) :: bs

/-- What `create` does. -/
inductive Disk.Creates (g : Geometry) (d : Disk) (dir : DirEntry) (name : ShortName)
    (data : List Byte) : Except FatError DirEntry → Disk → Prop
  | taken {x : DirEntry × Option (List Byte)} (b : Sector) (hx : x ∈ d.entries g dir.cluster)
      (hname : x.1.name = name) : Disk.Creates g d dir name data (.error .exists) (d.hold b)
  | full {d' : Disk} (unused : ∀ x ∈ d.entries g dir.cluster, x.1.name ≠ name)
      (few : (d.free g).card < (chunks g.clusterBytes data).length + d.growth g dir.cluster)
      (fat : d'.fat = d.fat) (spares : d.Spares g (fun _ ↦ False) d') (clean : d'.dirty = false) :
      Disk.Creates g d dir name data (.error .diskFull) d'
  | ok {d₂ d₃ d' : Disk} {ns : List ℕ} {first : ℕ} {slot : ℕ × ℕ}
      (unused : ∀ x ∈ d.entries g dir.cluster, x.1.name ≠ name) (counts : d.Counts g d₂)
      (made : Made g d₂ none (chunks g.clusterBytes data) ns d₃) (head : first = ns.headD 0)
      (added : d₃.Added g dir.cluster (entryBytes name attrArchive first (data.length % 2 ^ 32))
        slot d')
      (card : (d'.free g).card + ((chunks g.clusterBytes data).length + d.growth g dir.cluster) =
        (d.free g).card)
      (spares : d.Spares g (· ∈ (d.chain g dir.cluster).1) d') (holds : d'.Holds g first data)
      (lists : Lists (d.entries g dir.cluster) (d'.entries g dir.cluster)
        (newEntry name attrArchive first (data.length % 2 ^ 32) slot))
      (tidy : d'.Tidy g dir.cluster) (clean : d'.dirty = false) :
      Disk.Creates g d dir name data
        (.ok (newEntry name attrArchive first (data.length % 2 ^ 32) slot)) d'

theorem Disk.Spares.openSlot_eq {S : ℕ → Prop} (hg : g.Laid) (h : d.Spares g S d') {first last : ℕ}
    (hlast : (d.chain g first).2 = .ok last) (hS : ∀ n ∈ (d.chain g first).1, ¬S n) :
    d'.openSlot g first = d.openSlot g first := by
  rw [Disk.openSlot, Disk.openSlot, h.slots_eq hg hlast hS]

theorem Disk.Spares.tidy {S : ℕ → Prop} (hg : g.Laid) (h : d.Spares g S d') {first : ℕ}
    (ht : d.Tidy g first) (hS : ∀ n ∈ (d.chain g first).1, ¬S n) : d'.Tidy g first := by
  obtain ⟨last, hlast⟩ := ht.ends
  refine ⟨⟨last, by rw [h.chain_eq hg hlast hS, hlast]⟩, ?_⟩
  rw [h.slots_eq hg hlast hS]
  exact ht.tail

/-- The search for the new name. -/
theorem ends_find (hclean : d.dirty = false) {dir : DirEntry} (hdir : dir.isDir = true)
    (htidy : d.Tidy g dir.cluster) (name : ShortName) :
    Disk.Ends g (Vol.find dir name) d fun r d' ↦ (∃ b, d' = d.hold b) ∧
      ((∃ x ∈ d.entries g dir.cluster, x.1.name = name ∧ r = .ok (some x.1)) ∨
        r = .ok none ∧ ∀ x ∈ d.entries g dir.cluster, x.1.name ≠ name) := by
  have hfind := looks_findEntry (g := g) hclean dir fun e ↦ e.name = name
  rw [htidy.find hdir] at hfind
  refine hfind.mono ?_
  rintro r _ ⟨rfl, hb⟩
  refine ⟨hb, ?_⟩
  cases hfound : (d.entries g dir.cluster).find? (fun x ↦ decide (x.1.name = name)) with
  | some x =>
    refine .inl ⟨x, List.mem_of_find?_eq_some hfound, ?_, rfl⟩
    simpa using List.find?_some hfound
  | none => exact .inr ⟨rfl, fun x hx ↦ by simpa using List.find?_eq_none.mp hfound x hx⟩

section Counts

variable (h : d.Counts g d')
include h

theorem Disk.Counts.fat : d'.fat = d.fat := by
  obtain ⟨area, b, -, rfl⟩ := h
  rfl

theorem Disk.Counts.clean : d'.dirty = d.dirty := by
  obtain ⟨area, b, -, rfl⟩ := h
  rfl

theorem Disk.Counts.entry : d'.entry = d.entry :=
  funext fun n ↦ by rw [Disk.entry_eq, Disk.entry_eq, h.fat]

theorem Disk.Counts.free : d'.free g = d.free g := by rw [Disk.free, Disk.free, h.entry]

end Counts

theorem attrArchive_shown : attrArchive ≠ attrLfn ∧ attrArchive &&& attrVolume = 0#8 := by decide

/-- **`create` on a card without errors.** -/
theorem ends_create (hg : g.Laid) (hclean : d.dirty = false) {dir : DirEntry}
    (hdir : dir.isDir = true) (htidy : d.Tidy g dir.cluster) {name : ShortName} (hname : name.Shown)
    (data : List Byte) : Disk.Ends g (Vol.create dir name data) d (d.Creates g dir name data) := by
  refine (ends_find hclean hdir htidy name).bind ?_ ?_
  swap
  · rintro e d' ⟨-, ⟨x, -, -, he⟩ | ⟨he, -⟩⟩
    · cases he
    · cases he
  rintro r _ ⟨⟨b, rfl⟩, ⟨x, hx, hxname, hr⟩ | ⟨hr, hunused⟩⟩
  · cases hr
    exact ends_throw (.taken b hx hxname)
  cases hr
  obtain ⟨last, hlast⟩ := htidy.ends
  rw [Option.isSome_none, if_neg Bool.false_ne_true]
  refine (ends_beginChange (d := d.hold b) hclean).bind ?_ ?_
  swap
  · rintro e d' ⟨he, -⟩
    cases he
  rintro _ d₂ ⟨-, hcounts⟩
  have h₂ : d.Spares g (fun _ ↦ False) d₂ := hcounts.spares hg
  have hclean₂ : d₂.dirty = false := hcounts.clean.trans hclean
  have hfat₂ : d₂.fat = d.fat := hcounts.fat
  have hentry₂ : d₂.entry = d.entry := hcounts.entry
  have hfree₂ : d₂.free g = d.free g := hcounts.free
  refine (ends_writeChain hg data).bind ?_ ?_
  swap
  · rintro e d' (- | ⟨few, hfree, hfat, harea, hdirty⟩)
    refine .full hunused ?_ (hfat.trans hfat₂) (h₂.trans ?_) (hdirty hclean₂)
    · rw [← hfree₂]
      omega
    · exact spares_filled hg (fits_chunks g data) hfree (fun n _ ↦ by rw [hfat]) harea
  rintro first d₃ hwrites
  generalize hr : (Except.ok first : Except FatError ℕ) = r at hwrites
  cases hwrites with
  | full => cases hr
  | ok hmade hlen hclean₃ =>
  rename_i ns
  cases hr
  have h₃ : d.Spares g (fun _ ↦ False) d₃ := h₂.trans (hmade.spares hg (fits_chunks g data))
  have hcard₃ := hmade.gains.free_card hg
  rw [hfree₂, hlen] at hcard₃
  have hnone : ∀ n ∈ (d.chain g dir.cluster).1, ¬False := fun _ _ h ↦ h
  have hchain₃ := h₃.chain_eq hg hlast hnone
  have hopen₃ := h₃.openSlot_eq hg hlast hnone
  have htidy₃ := h₃.tidy hg htidy hnone
  refine (ends_freeSlot hg hclean₃ (hchain₃ ▸ hlast)).attempt_bind ?_
  rintro x d₄ hslot
  cases x with
  | error e =>
    -- the directory cannot be made longer
    generalize hr : (Except.error e : Except FatError (ℕ × ℕ)) = r at hslot
    cases hslot with
    | found => cases hr
    | grown => cases hr
    | full hopen hfull b' =>
    cases hr
    have hfew : (d.free g).card <
        (chunks g.clusterBytes data).length + d.growth g dir.cluster := by
      rw [hfull, Finset.card_empty] at hcard₃
      rw [Disk.growth, ← hopen₃, if_pos hopen]
      omega
    cases ns with
    | nil =>
      refine ends_throw (.full hunused hfew ?_ (h₃.trans (.refl _ b')) hclean₃)
      exact hmade.fat.trans hfat₂
    | cons n ns =>
      have hfree := fun m hm ↦ Disk.mem_free.mp (hmade.free m hm)
      have hn := hg.toOk.lt_eoc (hfree n List.mem_cons_self).1
      have hne : (n :: ns).headD 0 ≠ 0 := by
        rw [List.headD_cons]
        omega
      refine ends_ite (fun _ ↦ ?_) fun h ↦ absurd hne h
      refine (returns_freeChain (d := d₃.hold b') hg (hmade.gains.isChain hg)
        hmade.nodup).attempt_bind ?_
      rintro _ _ ⟨-, rfl⟩
      have hfat : cleared d₃.fat (n :: ns) = d₂.fat := by
        rw [hmade.fat, cleared_linked hg hfree]
      refine ends_throw (.full hunused hfew (hfat.trans hfat₂) (h₂.trans ?_) rfl)
      exact spares_filled hg (fits_chunks g data) hmade.free (fun m _ ↦ by rw [← hfat]; rfl)
        hmade.area
  | ok slot =>
    have hdata := hslot.data
    have hraw := isRaw_entryBytes hname attrArchive_shown.1 attrArchive_shown.2 (ns.headD 0)
      (data.length % 2 ^ 32)
    refine (returns_writeEntry d₄ hdata slot.2 _).bind (ends_pure ?_)
    have hadded := hslot.added hg hclean₃ htidy₃ hraw
      (splice (d₄.area slot.1) (slot.2 * slotLen)
        (entryBytes name attrArchive (ns.headD 0) (data.length % 2 ^ 32)))
    obtain ⟨as, bs, lfn, long, hold, hnew⟩ := hadded.listed
    have hns : ∀ n ∈ ns, n ∉ (d₃.chain g dir.cluster).1 := fun n hn hmem ↦ by
      rw [hchain₃] at hmem
      have hused := ((Disk.chain_nodup hg hlast).2 n hmem).2
      rw [← hentry₂] at hused
      exact hused (Disk.mem_free.mp (hmade.free n hn)).2
    have hfirst : ns.headD 0 < 2 ^ 32 := by
      cases ns with
      | nil => simp
      | cons n ns =>
        exact (hg.toOk.lt_eoc (Disk.mem_free.mp (hmade.free n List.mem_cons_self)).1).2.2.2
    refine .ok hunused hcounts hmade rfl hadded ?_
      ((h₃.mono fun _ h ↦ h.elim).trans (hchain₃ ▸ hadded.spares)) ?_ ?_
      hadded.tidy (hadded.clean.trans hclean₃)
    · have := hadded.free
      rw [hopen₃] at this
      rw [Disk.growth]
      omega
    · -- the directory has none of the new clusters
      refine hadded.spares.holds (hmade.holds hg hlen) fun ns' hchain ↦ ?_
      cases ns with
      | nil => exact absurd (Geometry.two_le_of_isCluster hchain.isCluster) (by simp)
      | cons n ns =>
        rw [← (hmade.gains.isChain hg).unique hg.toOk hchain]
        exact hns
    · refine ⟨as, bs, (lfn.map Prod.fst).getD slot.1, (lfn.map Prod.snd).getD slot.2, long, ?_, ?_⟩
      · rw [← hold, Disk.entries, h₃.directory_eq hg hlast hnone]
      · rw [parse_entryBytes name attrArchive hfirst (Nat.mod_lt _ (Nat.two_pow_pos 32))] at hnew
        exact hnew

end Vux9k

import Vux9k.Fat.Disk

/-!
# Chains made and given back

`alloc_cluster`, `free_chain` and `write_chain` of `fw_common/src/fat/write.rs`, by what they do to
the disk.  Every cluster taken was free, so chains that end properly, which contain no free cluster,
are not touched; and a chain given back leaves the FAT as it was before it was made, to the bit.
-/

set_option autoImplicit false

namespace Vux9k

variable {g : Geometry} {d d' : Disk}

/-! ## One cluster -/

/-- The free clusters of the disk. -/
def Disk.free (g : Geometry) (d : Disk) : Finset ℕ :=
  (Finset.Ico 2 g.clusterEnd).filter fun n ↦ d.entry n = 0

theorem Disk.mem_free {n : ℕ} : n ∈ d.free g ↔ g.isCluster n = true ∧ d.entry n = 0 := by
  rw [Disk.free, Finset.mem_filter, Finset.mem_Ico, Geometry.isCluster, Bool.and_eq_true,
    decide_eq_true_eq, decide_eq_true_eq]

/-- The disk with the free cluster `n` taken, behind the cluster `prev` if there is one. -/
def Disk.take (d : Disk) (n : ℕ) (prev : Option ℕ) : Disk :=
  { d with fat := allocated d.fat n prev, dirty := true }

/-- `alloc_cluster` takes a free cluster, or finds that there is none. -/
inductive Allocates (g : Geometry) (d : Disk) (prev : Option ℕ) :
    Except FatError ℕ → Disk → Prop
  | ok {n : ℕ} (h : n ∈ d.free g) : Allocates g d prev (.ok n) (d.take n prev)
  | full (h : d.free g = ∅) : Allocates g d prev (.error .diskFull) d

theorem returns_nextFree (d : Disk) {n : ℕ} (h2 : 2 ≤ n) (hn : n ≤ g.clusterEnd) :
    Returns g (Vol.modify fun v ↦ { v with nextFree := n }) d (.ok ()) d := by
  intro c v hd
  exact ⟨.ok (), { v with nextFree := n }, [], d, rfl,
    ⟨⟨hd.sound.laid, hd.sound.clean, hd.sound.dirty⟩, hd.geometry, hd.cached, hd.fat, hd.area,
      hd.buf,
      hd.clean, h2, hn⟩, rfl, rfl⟩

/-- The search from `start` on, for `k` clusters. -/
theorem ends_allocFrom (hg : g.Laid) (h2 : 2 < g.clusterEnd) {prev : Option ℕ}
    (hprev : ∀ p ∈ prev, g.isCluster p = true) (k : ℕ) {start : ℕ} (hstart : 2 ≤ start)
    (hend : start ≤ g.clusterEnd) :
    Disk.Ends g (Vol.allocFrom prev k start) d fun r d' ↦
      (∃ n ∈ d.free g, r = .ok n ∧ d' = d.take n prev) ∨
        r = .error .diskFull ∧ d' = d ∧ ∀ j < k, d.entry (g.probe start j) ≠ 0 := by
  induction k generalizing start with
  | zero => exact ends_throw (.inr ⟨rfl, rfl, fun j hj ↦ absurd hj (Nat.not_lt_zero j)⟩)
  | succ k ih =>
    have hprobe := Geometry.probe_zero hstart hend h2
    have hn := Geometry.isCluster_probe h2 start 0
    have hlt := hg.toOk.lt_eoc hn
    refine ends_gets fun c v hd ↦ ?_
    have hclusters : v.clusterEnd = g.clusterEnd := congrArg Geometry.clusterEnd hd.geometry
    rw [id, hclusters]
    dsimp only
    rw [← hprobe]
    refine (returns_fatEntry d (hg.lt_entries hn)).bind ?_
    by_cases hfree : d.entry (g.probe start 0) = 0
    · rw [if_pos hfree]
      refine (returns_setFat d (hg.lt_entries hn) _).bind ?_
      have hlast : ∀ e : Disk, e = d.take (g.probe start 0) prev →
          Disk.Ends g (Vol.modify (fun v ↦ { v with nextFree := g.probe start 0 + 1 }) >>= fun _ ↦
            pure (g.probe start 0)) e fun r d' ↦
              (∃ n ∈ d.free g, r = .ok n ∧ d' = d.take n prev) ∨
                r = .error .diskFull ∧ d' = d ∧ ∀ j < k + 1, d.entry (g.probe start j) ≠ 0 := by
        rintro e rfl
        refine (returns_nextFree _ (by omega) (by omega)).bind (ends_pure (.inl ?_))
        exact ⟨_, Disk.mem_free.mpr ⟨hn, hfree⟩, rfl, rfl⟩
      cases prev with
      | none => exact hlast _ rfl
      | some p => exact (returns_setFat _ (hg.lt_entries (hprev p rfl)) _).bind (hlast _ rfl)
    · rw [if_neg hfree]
      refine (@ih (g.probe start 0 + 1) (by omega) (by omega)).mono fun r d' hr ↦ ?_
      refine hr.imp id fun hnone ↦ ⟨hnone.1, hnone.2.1, fun j hj ↦ ?_⟩
      cases j with
      | zero => exact hfree
      | succ j =>
        have h := hnone.2.2 j (by omega)
        rwa [Geometry.probe_succ hstart hend h2] at h

/-- **`alloc_cluster` takes a free cluster if there is one.** -/
theorem ends_allocCluster (hg : g.Laid) {prev : Option ℕ}
    (hprev : ∀ p ∈ prev, g.isCluster p = true) :
    Disk.Ends g (Vol.allocCluster prev) d (Allocates g d prev) := by
  refine ends_gets fun c v hd ↦ ?_
  have hclusters : v.clusterEnd = g.clusterEnd := congrArg Geometry.clusterEnd hd.geometry
  rw [id, hclusters]
  obtain ⟨hstart, hend⟩ := hd.hint
  by_cases h2 : 2 < g.clusterEnd
  swap
  · rw [show g.clusterEnd - 2 = 0 by omega]
    refine ends_throw (.full ?_)
    rw [Disk.free, Finset.Ico_eq_empty (by omega), Finset.filter_empty]
  refine (ends_allocFrom hg h2 hprev _ hstart hend).mono fun r d' hr ↦ ?_
  rcases hr with ⟨n, hn, rfl, rfl⟩ | ⟨rfl, rfl, hnone⟩
  · exact .ok hn
  · refine .full (Finset.eq_empty_of_forall_notMem fun n hn ↦ ?_)
    rw [Disk.mem_free] at hn
    obtain ⟨k, hk, rfl⟩ := Geometry.exists_probe hstart hend hn.1
    exact hnone k hk hn.2

theorem entered_apply (f : ℕ → Word) (n value m : ℕ) :
    entered f n value m = if m = n then reserved (f n) value else f m :=
  Function.update_apply _ _ _ _

/-- The 28 bits of a word of the FAT. -/
def bits (w : Word) : ℕ := (w &&& entryMask).toNat

theorem Disk.entry_eq (d : Disk) (n : ℕ) : d.entry n = bits (d.fat n) := rfl

theorem bits_reserved (old : Word) {value : ℕ} (h : value ≤ entryMask.toNat) :
    bits (reserved old value) = value :=
  reserved_and_mask old h

theorem allocated_of_ne {f : ℕ → Word} {n m : ℕ} {prev : Option ℕ} (hn : m ≠ n)
    (hp : prev ≠ some m) : allocated f n prev m = f m := by
  cases prev with
  | none => rw [allocated, entered_apply, if_neg hn]
  | some p =>
    have hmp : m ≠ p := fun heq ↦ hp (by rw [heq])
    rw [allocated, entered_apply, if_neg hmp, entered_apply, if_neg hn]

theorem allocated_new {f : ℕ → Word} {n : ℕ} {prev : Option ℕ} (hp : prev ≠ some n) :
    bits (allocated f n prev n) = entryMask.toNat := by
  cases prev with
  | none => rw [allocated, entered_apply, if_pos rfl, bits_reserved _ le_rfl]
  | some p =>
    have hnp : n ≠ p := fun heq ↦ hp (by rw [heq])
    rw [allocated, entered_apply, if_neg hnp, entered_apply, if_pos rfl, bits_reserved _ le_rfl]

theorem allocated_prev {f : ℕ → Word} {n p : ℕ} (hn : n ≤ entryMask.toNat) :
    bits (allocated f n (some p) p) = n := by
  rw [allocated, entered_apply, if_pos rfl, bits_reserved _ hn]

/-- The reserved bits stay. -/
theorem allocated_reserved {f : ℕ → Word} {n : ℕ} {prev : Option ℕ} (hn : n ≤ entryMask.toNat)
    (m : ℕ) : allocated f n prev m &&& ~~~entryMask = f m &&& ~~~entryMask := by
  have hset : ∀ (f : ℕ → Word) (k value : ℕ), value ≤ entryMask.toNat →
      entered f k value m &&& ~~~entryMask = f m &&& ~~~entryMask := by
    intro f k value hvalue
    rw [entered_apply]
    split
    · rename_i hmk
      rw [hmk]
      exact reserved_and_not_mask (f k) hvalue
    · rfl
  cases prev with
  | none => exact hset _ _ _ le_rfl
  | some p => exact (hset _ _ _ hn).trans (hset _ _ _ le_rfl)

theorem Disk.take_entry (d : Disk) (n : ℕ) (prev : Option ℕ) (m : ℕ) :
    (d.take n prev).entry m = bits (allocated d.fat n prev m) := rfl

/-- What is in front of a new cluster is in use. -/
def Disk.Behind (g : Geometry) (d : Disk) (prev : Option ℕ) : Prop :=
  ∀ p ∈ prev, g.isCluster p = true ∧ d.entry p ≠ 0

/-- One free cluster less. -/
theorem Disk.mem_free_take (hg : g.Laid) {prev : Option ℕ} (hprev : d.Behind g prev) {n m : ℕ}
    (hn : n ∈ d.free g) : m ∈ (d.take n prev).free g ↔ m ∈ d.free g ∧ m ≠ n := by
  have hn' := Disk.mem_free.mp hn
  have hmask : entryMask.toNat ≠ 0 := by decide
  have hnp : prev ≠ some n := fun hp ↦ (hprev n hp).2 hn'.2
  rw [Disk.mem_free, Disk.mem_free, Disk.take_entry]
  by_cases hmn : m = n
  · subst hmn
    simp [allocated_new hnp, hmask]
  by_cases hp : prev = some m
  · subst hp
    have hused := (hprev m rfl).2
    have h2 := (hg.toOk.lt_eoc hn'.1).1
    have hne : n ≠ 0 := by omega
    simp [allocated_prev (hg.le_mask hn'.1), hused, hne]
  · rw [allocated_of_ne hmn hp]
    simp [hmn, Disk.entry_eq]

/-! ## Chains given back -/

/-- The FAT with the entries of some clusters cleared. -/
def cleared (f : ℕ → Word) (ns : List ℕ) : ℕ → Word := fun m ↦
  if m ∈ ns then reserved (f m) 0 else f m

/-- The disk with the chain `ns` given back. -/
def Disk.clear (d : Disk) (ns : List ℕ) : Disk := { d with fat := cleared d.fat ns, dirty := false }

theorem IsChain.congr {fat fat' : ℕ → ℕ} {ns : List ℕ} (h : IsChain g fat ns)
    (hfat : ∀ n ∈ ns, fat' n = fat n) : IsChain g fat' ns := by
  induction ns with
  | nil => exact h
  | cons n ns ih =>
    cases ns with
    | nil => exact ⟨h.1, by rw [hfat n List.mem_cons_self]; exact h.2⟩
    | cons m ns =>
      refine ⟨h.1, by rw [hfat n List.mem_cons_self]; exact h.2.1, ih h.2.2 fun k hk ↦ ?_⟩
      exact hfat k (List.mem_cons_of_mem n hk)

theorem IsChain.isCluster_of_mem {fat : ℕ → ℕ} {ns : List ℕ} (h : IsChain g fat ns) :
    ∀ n ∈ ns, g.isCluster n = true := by
  induction ns with
  | nil => exact fun n hn ↦ absurd hn List.not_mem_nil
  | cons n ns ih =>
    cases ns with
    | nil => simpa using h.1
    | cons m ns =>
      intro k hk
      rcases List.mem_cons.mp hk with rfl | hk
      · exact h.1
      · exact ih h.2.2 k hk

/-- A chain that ends properly contains no free cluster. -/
theorem IsChain.entry_ne_zero {fat : ℕ → ℕ} {ns : List ℕ} (h : IsChain g fat ns) :
    ∀ n ∈ ns, fat n ≠ 0 := by
  induction ns with
  | nil => exact fun n hn ↦ absurd hn List.not_mem_nil
  | cons n ns ih =>
    have heoc : 0 < eocMin := by decide
    cases ns with
    | nil =>
      obtain ⟨-, hend⟩ := h
      intro k hk
      rw [List.mem_singleton] at hk
      subst hk
      omega
    | cons m ns =>
      obtain ⟨-, hnext, hrest⟩ := h
      intro k hk
      rcases List.mem_cons.mp hk with rfl | hk
      · have := Geometry.two_le_of_isCluster hrest.isCluster
        omega
      · exact ih hrest k hk

/-- **`free_chain` clears the entries of the chain**, and nothing else. -/
theorem returns_freeFrom (hg : g.Laid) {n : ℕ} {ns : List ℕ} {fuel : ℕ}
    (hchain : IsChain g d.entry (n :: ns)) (hnodup : (n :: ns).Nodup) (hfuel : ns.length < fuel) :
    Returns g (Vol.freeFrom fuel n) d (.ok ()) (d.clear (n :: ns)) := by
  induction ns generalizing d n fuel with
  | nil =>
    obtain ⟨fuel, rfl⟩ := Nat.exists_eq_succ_of_ne_zero (Nat.ne_of_gt hfuel)
    obtain ⟨hn, hend⟩ := hchain
    refine ends_gets fun c v hd ↦ ?_
    rw [id, hd.geometry, if_neg (not_not.mpr hn)]
    refine (returns_fatEntry d (hg.lt_entries hn)).bind ?_
    refine (returns_setFat d (hg.lt_entries hn) 0).bind ?_
    rw [if_pos hend]
    refine (returns_flushFat _).mono ?_
    rintro r d' ⟨rfl, rfl⟩
    refine ⟨rfl, ?_⟩
    have hfat : (d.set n 0).fat = cleared d.fat [n] := by
      funext m
      rw [Disk.set_apply, cleared]
      by_cases hm : m = n
      · rw [if_pos hm, if_pos (List.mem_singleton.mpr hm), hm]
      · rw [if_neg hm, if_neg (fun h ↦ hm (List.mem_singleton.mp h))]
    rw [Disk.flush, Disk.clear, hfat]
    rfl
  | cons m ns ih =>
    obtain ⟨fuel, rfl⟩ := Nat.exists_eq_succ_of_ne_zero (Nat.ne_of_gt (Nat.zero_lt_of_lt hfuel))
    obtain ⟨hn, hnext, hrest⟩ := hchain
    obtain ⟨hnot, hnodup⟩ := List.nodup_cons.mp hnodup
    have hm := hg.toOk.lt_eoc hrest.isCluster
    refine ends_gets fun c v hd ↦ ?_
    rw [id, hd.geometry, if_neg (not_not.mpr hn)]
    refine (returns_fatEntry d (hg.lt_entries hn)).bind ?_
    refine (returns_setFat d (hg.lt_entries hn) 0).bind ?_
    rw [hnext, if_neg (by omega)]
    -- the rest of the chain is as it was
    have hrest' : IsChain g (d.set n 0).entry (m :: ns) := by
      refine hrest.congr fun k hk ↦ ?_
      have hkn : k ≠ n := fun heq ↦ hnot (heq ▸ hk)
      rw [Disk.entry_eq, Disk.set_apply, if_neg hkn, Disk.entry_eq]
    refine (ih hrest' hnodup (by simpa using hfuel)).mono ?_
    rintro r d' ⟨rfl, rfl⟩
    refine ⟨rfl, ?_⟩
    have hfat : cleared (d.set n 0).fat (m :: ns) = cleared d.fat (n :: m :: ns) := by
      funext k
      rw [cleared, cleared, Disk.set_apply]
      by_cases hk : k ∈ m :: ns
      · have hkn : k ≠ n := fun heq ↦ hnot (heq ▸ hk)
        rw [if_pos hk, if_pos (List.mem_cons_of_mem n hk), if_neg hkn]
      · by_cases hkn : k = n
        · rw [if_neg hk, if_pos hkn, if_pos (List.mem_cons.mpr (.inl hkn)), hkn]
        · rw [if_neg hk, if_neg hkn, if_neg (fun h ↦ (List.mem_cons.mp h).elim hkn hk)]
    rw [Disk.clear, Disk.clear, hfat]
    rfl

theorem length_le_of_isCluster {ns : List ℕ} (hnodup : ns.Nodup)
    (hns : ∀ n ∈ ns, g.isCluster n = true) : ns.length ≤ g.clusterEnd - 2 := by
  have hsub : ns.toFinset ⊆ Finset.Ico 2 g.clusterEnd := by
    intro n hn
    have hn := hns n (List.mem_toFinset.mp hn)
    rw [Geometry.isCluster, Bool.and_eq_true, decide_eq_true_eq, decide_eq_true_eq] at hn
    exact Finset.mem_Ico.mpr hn
  rw [← List.toFinset_card_of_nodup hnodup]
  exact (Finset.card_le_card hsub).trans (by simp)

theorem returns_freeChain (hg : g.Laid) {n : ℕ} {ns : List ℕ}
    (hchain : IsChain g d.entry (n :: ns)) (hnodup : (n :: ns).Nodup) :
    Returns g (Vol.freeChain n) d (.ok ()) (d.clear (n :: ns)) := by
  refine ends_gets fun c v hd ↦ ?_
  have hclusters : v.clusterEnd = g.clusterEnd := congrArg Geometry.clusterEnd hd.geometry
  have hlen := length_le_of_isCluster hnodup hchain.isCluster_of_mem
  have h2 := (hg.toOk.lt_eoc hchain.isCluster).2.1
  rw [id, hclusters]
  refine returns_freeFrom hg hchain hnodup ?_
  rw [List.length_cons] at hlen
  omega

/-! ## Chains made -/

/-- The FAT with the clusters `ns` taken one after the other, behind `prev`. -/
def linked (f : ℕ → Word) : Option ℕ → List ℕ → ℕ → Word
  | _, [] => f
  | prev, n :: ns => linked (allocated f n prev) (some n) ns

theorem linked_of_not_mem {f : ℕ → Word} {prev : Option ℕ} {ns : List ℕ} {m : ℕ} (hm : m ∉ ns)
    (hp : prev ≠ some m) : linked f prev ns m = f m := by
  induction ns generalizing f prev with
  | nil => rfl
  | cons n ns ih =>
    rw [List.mem_cons, not_or] at hm
    rw [linked, ih hm.2 fun h ↦ hm.1 (Option.some.inj h).symm, allocated_of_ne hm.1 hp]

/-- The cluster before leads to the new ones. -/
theorem linked_prev {f : ℕ → Word} {p n : ℕ} {ns : List ℕ} (hn : n ≤ entryMask.toNat)
    (hp : p ∉ n :: ns) : bits (linked f (some p) (n :: ns) p) = n := by
  rw [List.mem_cons, not_or] at hp
  rw [linked, linked_of_not_mem hp.2 fun h ↦ hp.1 (Option.some.inj h).symm, allocated_prev hn]

/-- **The clusters taken are a chain.** -/
theorem isChain_linked (hg : g.Laid) {f : ℕ → Word} {prev : Option ℕ} {n : ℕ} {ns : List ℕ}
    (hns : ∀ m ∈ n :: ns, g.isCluster m = true) (hnodup : (n :: ns).Nodup)
    (hprev : ∀ p ∈ prev, p ∉ n :: ns) :
    IsChain g (fun m ↦ bits (linked f prev (n :: ns) m)) (n :: ns) := by
  induction ns generalizing f prev n with
  | nil =>
    refine ⟨hns n List.mem_cons_self, ?_⟩
    have hp : prev ≠ some n := fun h ↦ hprev n h List.mem_cons_self
    change eocMin ≤ bits (allocated f n prev n)
    rw [allocated_new hp]
    decide
  | cons m ns ih =>
    obtain ⟨hnot, hnodup⟩ := List.nodup_cons.mp hnodup
    have hns' := fun k hk ↦ hns k (List.mem_cons_of_mem n hk)
    refine ⟨hns n List.mem_cons_self, ?_, ?_⟩
    · exact linked_prev (hg.le_mask (hns' m List.mem_cons_self)) hnot
    · exact ih hns' hnodup fun p hp ↦ by
        rw [Option.mem_some_iff] at hp
        rwa [← hp]

theorem linked_reserved (hg : g.Laid) {f : ℕ → Word} {prev : Option ℕ} {ns : List ℕ}
    (hns : ∀ m ∈ ns, g.isCluster m = true) (m : ℕ) :
    linked f prev ns m &&& ~~~entryMask = f m &&& ~~~entryMask := by
  induction ns generalizing f prev with
  | nil => rfl
  | cons n ns ih =>
    rw [linked, ih fun k hk ↦ hns k (List.mem_cons_of_mem n hk),
      allocated_reserved (hg.le_mask (hns n List.mem_cons_self))]

/-- **A new chain given back leaves the FAT as it was**, its reserved bits included. -/
theorem cleared_linked (hg : g.Laid) {f : ℕ → Word} {ns : List ℕ}
    (hns : ∀ n ∈ ns, g.isCluster n = true ∧ bits (f n) = 0) :
    cleared (linked f none ns) ns = f := by
  funext m
  rw [cleared]
  by_cases hm : m ∈ ns
  swap
  · rw [if_neg hm, linked_of_not_mem hm (by simp)]
  obtain ⟨-, hzero⟩ := hns m hm
  have hzero : f m &&& entryMask = 0#32 := BitVec.eq_of_toNat_eq hzero
  have hsplit : f m = (f m &&& ~~~entryMask) ||| (f m &&& entryMask) := by
    rw [← BitVec.and_or_distrib_left]
    exact (BitVec.and_allOnes).symm
  rw [if_pos hm, reserved, linked_reserved hg fun n hn ↦ (hns n hn).1]
  conv_rhs => rw [hsplit, hzero]

/-! ## Data -/

/-- The sectors from `lba` on filled with these bytes, one after the other. -/
def stored (c : Card) (lba : ℕ) : List (List Byte) → Card
  | [] => c
  | chunk :: chunks => stored (Function.update c lba (ofBytes chunk)) (lba + 1) chunks

theorem stored_of_lt {c : Card} {lba l : ℕ} {xs : List (List Byte)} (h : l < lba) :
    stored c lba xs l = c l := by
  induction xs generalizing c lba with
  | nil => rfl
  | cons x xs ih => rw [stored, ih (by omega), Function.update_of_ne (by omega)]

theorem stored_of_le {c : Card} {lba l : ℕ} {xs : List (List Byte)} (h : lba + xs.length ≤ l) :
    stored c lba xs l = c l := by
  induction xs generalizing c lba with
  | nil => rfl
  | cons x xs ih =>
    rw [List.length_cons] at h
    rw [stored, ih (by omega), Function.update_of_ne (by omega)]

theorem stored_getElem {c : Card} {lba i : ℕ} {xs : List (List Byte)} (h : i < xs.length) :
    stored c lba xs (lba + i) = ofBytes xs[i] := by
  induction xs generalizing c lba i with
  | nil => exact absurd h (Nat.not_lt_zero i)
  | cons x xs ih =>
    cases i with
    | zero => rw [stored, stored_of_lt (by omega), Nat.add_zero, Function.update_self]; rfl
    | succ i =>
      rw [stored, show lba + (i + 1) = lba + 1 + i by omega, ih (by simpa using h)]
      rfl

theorem ends_writeData {lba : ℕ} (hlba : g.dataLba ≤ lba) (xs : List (List Byte)) :
    Disk.Ends g (Vol.writeData lba xs) d fun r d' ↦ r = .ok () ∧
      ∃ b, d' = { d with area := stored d.area lba xs, buf := b } := by
  induction xs generalizing d lba with
  | nil => exact ends_pure ⟨rfl, d.buf, rfl⟩
  | cons x xs ih =>
    refine (returns_setBuf d (ofBytes x)).bind ((returns_writeBuf _ (.inr hlba)).bind ?_)
    exact ih (Nat.le_succ_of_le hlba)

/-- The clusters `ns` filled with these bytes, one after the other. -/
def filled (g : Geometry) (c : Card) : List ℕ → List (List Byte) → Card
  | n :: ns, x :: xs => filled g (stored c (g.clusterLba n) (chunks sectorLen x)) ns xs
  | _, _ => c

/-! ## `write_chain` -/

/-- What `first` is in the end. -/
def firstOf (first : ℕ) (ns : List ℕ) : ℕ := if first = 0 then ns.headD 0 else first

theorem firstOf_cons (first n : ℕ) (ns : List ℕ) (hn : n ≠ 0) :
    firstOf (if first = 0 then n else first) ns = firstOf first (n :: ns) := by
  rw [firstOf, firstOf]
  by_cases h : first = 0
  · rw [if_pos h, if_pos h, if_neg hn]
    rfl
  · rw [if_neg h, if_neg h, if_neg h]

/-- The clusters `ns`, which were free, have been taken and filled with the first of these bytes. -/
structure Made (g : Geometry) (d : Disk) (prev : Option ℕ) (xs : List (List Byte)) (ns : List ℕ)
    (d' : Disk) : Prop where
  nodup : ns.Nodup
  free : ∀ n ∈ ns, n ∈ d.free g
  fat : d'.fat = linked d.fat prev ns
  area : d'.area = filled g d.area ns xs
  untouched : ns = [] → d'.dirty = false ∨ d' = d

theorem ends_writeClusters (hg : g.Laid) (xs : List (List Byte)) (first : ℕ) {prev : Option ℕ}
    (hprev : d.Behind g prev) :
    Disk.Ends g (Vol.writeClusters xs first prev) d fun r d' ↦ ∃ ns, Made g d prev xs ns d' ∧
      (r = .ok (.ok (), firstOf first ns) ∧ ns.length = xs.length ∧ d'.dirty = false ∨
        r = .ok (.error .diskFull, firstOf first ns) ∧ ns.length < xs.length ∧
          ∀ n ∈ d.free g, n ∈ ns) := by
  induction xs generalizing d first prev with
  | nil =>
    refine (returns_flushFat d).attempt_bind ?_
    rintro x d' ⟨rfl, rfl⟩
    refine ends_pure ⟨[], ⟨.nil, by simp, rfl, rfl, fun _ ↦ .inl rfl⟩, .inl ⟨?_, rfl, rfl⟩⟩
    rw [firstOf, List.headD_nil]
    split
    · rename_i h
      rw [h]
    · rfl
  | cons x xs ih =>
    refine (ends_allocCluster hg fun p hp ↦ (hprev p hp).1).attempt_bind ?_
    rintro _ _ (⟨hn⟩ | hfull)
    swap
    · refine ends_pure ⟨[], ⟨.nil, by simp, rfl, rfl, fun _ ↦ .inr rfl⟩, .inr ⟨?_, by simp, ?_⟩⟩
      · rw [firstOf, List.headD_nil]
        split
        · rename_i h
          rw [h]
        · rfl
      · rw [hfull]
        simp
    rename_i n
    have hn' := Disk.mem_free.mp hn
    have h2 := hg.toOk.lt_eoc hn'.1
    refine ends_gets fun c v hd ↦ ?_
    have hlba : v.clusterLba n = g.clusterLba n := by rw [hd.geometry]
    rw [id, hlba]
    refine (ends_writeData (g.dataLba_le_clusterLba n) _).attempt_bind ?_
    rintro _ e ⟨rfl, b, rfl⟩
    dsimp only
    generalize he : ({ d.take n prev with
      area := stored (d.take n prev).area (g.clusterLba n) (chunks sectorLen x)
      buf := b } : Disk) = e
    have hfree : ∀ m, m ∈ e.free g ↔ m ∈ d.free g ∧ m ≠ n := by
      intro m
      rw [← Disk.mem_free_take hg hprev hn, ← he]
      rfl
    have hnew : e.entry n = entryMask.toNat := by
      rw [← he]
      exact allocated_new fun hp ↦ (hprev n hp).2 hn'.2
    have hbehind : e.Behind g (some n) := by
      intro p hp
      rw [Option.mem_some_iff] at hp
      subst hp
      refine ⟨hn'.1, ?_⟩
      rw [hnew]
      decide
    refine (ih (d := e) _ hbehind).mono ?_
    rintro r d' ⟨ns, hmade, hr⟩
    have hfree' := fun m hm ↦ (hfree m).mp (hmade.free m hm)
    refine ⟨n :: ns, ⟨?_, ?_, ?_, ?_, by simp⟩, ?_⟩
    · exact List.nodup_cons.mpr ⟨fun hmem ↦ (hfree' n hmem).2 rfl, hmade.nodup⟩
    · intro m hm
      rcases List.mem_cons.mp hm with rfl | hm
      · exact hn
      · exact (hfree' m hm).1
    · rw [hmade.fat, ← he]
      rfl
    · rw [hmade.area, ← he]
      rfl
    · have hfirst := firstOf_cons first n ns (by omega)
      rw [hfirst] at hr
      rw [List.length_cons, List.length_cons]
      rcases hr with ⟨rfl, hlen, hclean⟩ | ⟨rfl, hlen, hall⟩
      · exact .inl ⟨rfl, by omega, hclean⟩
      · refine .inr ⟨rfl, by omega, fun m hm ↦ ?_⟩
        by_cases hmn : m = n
        · exact List.mem_cons.mpr (.inl hmn)
        · exact List.mem_cons_of_mem n (hall m ((hfree m).mpr ⟨hm, hmn⟩))

/-- `write_chain` with data for `k` clusters. -/
inductive Writes (g : Geometry) (d : Disk) (xs : List (List Byte)) : Except FatError ℕ → Disk → Prop
  | ok {ns : List ℕ} {d' : Disk} (h : Made g d none xs ns d') (length : ns.length = xs.length)
      (clean : d'.dirty = false) : Writes g d xs (.ok (ns.headD 0)) d'
  | full {ns : List ℕ} {d' : Disk} (few : (d.free g).card < xs.length)
      (free : ∀ n ∈ ns, n ∈ d.free g) (fat : d'.fat = d.fat)
        (area : d'.area = filled g d.area ns xs)
      (clean : d.dirty = false → d'.dirty = false) : Writes g d xs (.error .diskFull) d'

/-- **`write_chain` writes all of its data, or gives back what it has taken.** -/
theorem ends_writeChain (hg : g.Laid) (data : List Byte) :
    Disk.Ends g (Vol.writeChain data) d (Writes g d (chunks g.clusterBytes data)) := by
  refine ends_gets fun c v hd ↦ ?_
  have hbytes : v.clusterBytes = g.clusterBytes := by rw [hd.geometry]
  rw [id, hbytes]
  generalize chunks g.clusterBytes data = xs
  have hnone : d.Behind g none := fun p hp ↦ by cases hp
  refine (ends_writeClusters hg xs 0 hnone).bind ?_ ?_
  swap
  · rintro e d' ⟨ns, -, ⟨hr, -⟩ | ⟨hr, -⟩⟩
    · cases hr
    · cases hr
  rintro a d' ⟨ns, hmade, ⟨hr, hlen, hclean⟩ | ⟨hr, hlen, hall⟩⟩
  · cases hr
    exact ends_pure (.ok hmade hlen hclean)
  cases hr
  have hcard : (d.free g).card < xs.length := by
    refine lt_of_le_of_lt ?_ hlen
    rw [← List.toFinset_card_of_nodup hmade.nodup]
    exact Finset.card_le_card fun n hn ↦ List.mem_toFinset.mpr (hall n hn)
  have hns : ∀ n ∈ ns, g.isCluster n = true ∧ bits (d.fat n) = 0 :=
    fun n hn ↦ Disk.mem_free.mp (hmade.free n hn)
  dsimp only
  rw [firstOf, if_pos rfl]
  cases ns with
  | nil =>
    refine ends_throw (.full hcard (by simp) hmade.fat hmade.area fun hclean ↦ ?_)
    rcases hmade.untouched rfl with h | h
    · exact h
    · rw [h]
      exact hclean
  | cons n ns =>
    have hn := hg.toOk.lt_eoc (hns n List.mem_cons_self).1
    have hchain : IsChain g d'.entry (n :: ns) := by
      have h := @isChain_linked _ hg d.fat none _ _ (fun m hm ↦ (hns m hm).1) hmade.nodup (by simp)
      rw [← hmade.fat] at h
      exact h
    rw [List.headD_cons, if_pos (by omega)]
    refine (returns_freeChain hg hchain hmade.nodup).attempt_bind ?_
    rintro x e ⟨-, rfl⟩
    refine ends_throw (.full hcard hmade.free ?_ hmade.area fun _ ↦ rfl)
    change cleared d'.fat (n :: ns) = d.fat
    rw [hmade.fat, cleared_linked hg hns]

/-! ## What is read back -/

theorem filled_of_other {c : Card} {ns : List ℕ} {xs : List (List Byte)} {l : ℕ}
    (hxs : ∀ x ∈ xs, (chunks sectorLen x).length ≤ g.clusterSectors)
    (hl : ∀ n ∈ ns, l < g.clusterLba n ∨ g.clusterLba n + g.clusterSectors ≤ l) :
    filled g c ns xs l = c l := by
  induction ns generalizing c xs with
  | nil => cases xs <;> rfl
  | cons n ns ih =>
    cases xs with
    | nil => rfl
    | cons x xs =>
      have hx := hxs x List.mem_cons_self
      rw [filled, ih (fun y hy ↦ hxs y (List.mem_cons_of_mem x hy))
        fun m hm ↦ hl m (List.mem_cons_of_mem n hm)]
      rcases hl n List.mem_cons_self with h | h
      · exact stored_of_lt h
      · exact stored_of_le (by omega)

theorem length_le_of_mem_chunks {α : Type} {k : ℕ} (hk : 0 < k) {l x : List α}
    (hx : x ∈ chunks k l) : x.length ≤ k := by
  induction l using chunks_induction hk with
  | nil => cases hx
  | step l h ih =>
    rw [chunks_of_ne_nil hk h, List.mem_cons] at hx
    rcases hx with rfl | hx
    · exact (List.length_take_le k l)
    · exact ih hx

theorem length_chunks_le {α : Type} {k m : ℕ} (hk : 0 < k) {l : List α} (h : l.length ≤ m * k) :
    (chunks k l).length ≤ m := by
  have hlt := length_chunks_lt hk l
  have hmul : (chunks k l).length * k < (m + 1) * k := by
    rw [Nat.add_mul, Nat.one_mul]
    omega
  exact Nat.le_of_lt_succ (Nat.lt_of_mul_lt_mul_right hmul)

theorem length_le_chunks {α : Type} {k : ℕ} (hk : 0 < k) (l : List α) :
    l.length ≤ (chunks k l).length * k := by
  induction l using chunks_induction hk with
  | nil => simp
  | step l h ih =>
    rw [chunks_of_ne_nil hk h, List.length_cons, Nat.add_mul, Nat.one_mul]
    rw [List.length_drop] at ih
    omega

/-- What begins its piece everywhere begins the whole, when the pieces are full. -/
theorem prefix_of_chunks {α β : Type} {k : ℕ} (hk : 0 < k) (F : β → List α)
    (hF : ∀ b, (F b).length = k) {l : List α} {bs : List β}
    (h : List.Forall₂ (fun x b ↦ x <+: F b) (chunks k l) bs) : l <+: bs.flatMap F := by
  induction l using chunks_induction hk generalizing bs with
  | nil => exact List.nil_prefix
  | step l hne ih =>
    rw [chunks_of_ne_nil hk hne] at h
    obtain ⟨b, bs, hhead, htail, rfl⟩ := List.forall₂_cons_left_iff.mp h
    rw [List.flatMap_cons]
    rcases Nat.lt_or_ge l.length k with hlt | hge
    · rw [List.take_of_length_le hlt.le] at hhead
      exact hhead.trans (List.prefix_append _ _)
    · have hfull : l.take k = F b := by
        refine hhead.eq_of_length ?_
        rw [List.length_take, hF, min_eq_left hge]
      obtain ⟨rest, hrest⟩ := ih htail
      refine ⟨rest, ?_⟩
      rw [← hrest, ← hfull, ← List.append_assoc, List.take_append_drop]

theorem prefix_bytesOf {x : List Byte} {k : ℕ} (hx : x.length ≤ k) :
    x <+: bytesOf (ofBytes x) k := by
  have htake : bytesOf (ofBytes x) x.length = x := by
    refine List.ext_getElem (by simp) fun i h₁ h₂ ↦ ?_
    simp [bytesOf, ofBytes, h₂]
  rw [← take_bytesOf hx] at htake
  rw [← htake]
  conv_rhs => rw [htake]
  exact List.take_prefix _ _

theorem clusterLba_apart {n m : ℕ} (hn : 2 ≤ n) (hm : 2 ≤ m) (hne : n ≠ m) :
    g.clusterLba n + g.clusterSectors ≤ g.clusterLba m ∨
      g.clusterLba m + g.clusterSectors ≤ g.clusterLba n := by
  rw [g.clusterLba_eq, g.clusterLba_eq]
  rcases Nat.lt_or_gt_of_ne hne with h | h
  · have := Nat.mul_le_mul_right g.clusterSectors (show n - 2 + 1 ≤ m - 2 by omega)
    rw [Nat.add_mul, Nat.one_mul] at this
    omega
  · have := Nat.mul_le_mul_right g.clusterSectors (show m - 2 + 1 ≤ n - 2 by omega)
    rw [Nat.add_mul, Nat.one_mul] at this
    omega

theorem clusterData_congr {c c' : Card} {n : ℕ}
    (h : ∀ s < g.clusterSectors, c' (g.clusterLba n + s) = c (g.clusterLba n + s)) :
    clusterData g c' n = clusterData g c n := by
  rw [clusterData, clusterData, sectorData, sectorData]
  refine List.flatMap_congr fun s hs ↦ ?_
  rw [h s (by simpa using hs)]

/-- A cluster begins with the bytes written to it. -/
theorem prefix_stored (c : Card) (n : ℕ) {x : List Byte} (hx : x.length ≤ g.clusterBytes) :
    x <+: clusterData g (stored c (g.clusterLba n) (chunks sectorLen x)) n := by
  have hpos : 0 < sectorLen := by decide
  have hlen : (chunks sectorLen x).length ≤ g.clusterSectors :=
    length_chunks_le hpos (g.clusterBytes_eq ▸ hx)
  have hsplit : List.range' 0 g.clusterSectors = List.range' 0 (chunks sectorLen x).length ++
      List.range' (chunks sectorLen x).length (g.clusterSectors - (chunks sectorLen x).length) := by
    have happend := List.range'_append_1 (s := 0) (m := (chunks sectorLen x).length)
      (n := g.clusterSectors - (chunks sectorLen x).length)
    rw [Nat.zero_add, Nat.add_sub_cancel' hlen] at happend
    exact happend.symm
  rw [clusterData, sectorData, hsplit, List.flatMap_append]
  refine List.IsPrefix.trans ?_ (List.prefix_append _ _)
  refine prefix_of_chunks hpos _ (fun s ↦ length_bytesOf _ _) ?_
  refine List.forall₂_iff_get.mpr ⟨by simp, fun i h₁ h₂ ↦ ?_⟩
  simp only [List.get_eq_getElem, List.getElem_range', Nat.zero_add, Nat.one_mul]
  rw [stored_getElem h₁]
  exact prefix_bytesOf (length_le_of_mem_chunks hpos (List.getElem_mem h₁))

/-- **Each cluster begins with its piece.** -/
theorem prefix_filled {c : Card} {ns : List ℕ} {xs : List (List Byte)}
    (hlen : ns.length = xs.length)
    (hnodup : ns.Nodup) (hns : ∀ n ∈ ns, 2 ≤ n) (hxs : ∀ x ∈ xs, x.length ≤ g.clusterBytes) :
    List.Forall₂ (fun x n ↦ x <+: clusterData g (filled g c ns xs) n) xs ns := by
  induction ns generalizing c xs with
  | nil =>
    obtain rfl := List.eq_nil_of_length_eq_zero hlen.symm
    exact .nil
  | cons n ns ih =>
    cases xs with
    | nil => cases hlen
    | cons x xs =>
      obtain ⟨hnot, hnodup⟩ := List.nodup_cons.mp hnodup
      have hns' := fun m hm ↦ hns m (List.mem_cons_of_mem n hm)
      have hxs' := fun y hy ↦ hxs y (List.mem_cons_of_mem x hy)
      have hpieces : ∀ y ∈ xs, (chunks sectorLen y).length ≤ g.clusterSectors := fun y hy ↦
        length_chunks_le (by decide) (g.clusterBytes_eq ▸ hxs' y hy)
      refine .cons ?_ (ih (by simpa using hlen) hnodup hns' hxs')
      -- the clusters after it are others
      rw [filled, clusterData_congr fun s hs ↦ filled_of_other hpieces fun m hm ↦ ?_]
      · exact prefix_stored c n (hxs x List.mem_cons_self)
      · have hne : n ≠ m := fun heq ↦ hnot (heq ▸ hm)
        have := @clusterLba_apart g n m (hns n List.mem_cons_self) (hns' m hm) hne
        omega

/-! ## Chains that end -/

/-- A chain is known by its first cluster. -/
theorem IsChain.unique {fat : ℕ → ℕ} (hg : g.Ok) {n : ℕ} {as bs : List ℕ}
    (ha : IsChain g fat (n :: as)) (hb : IsChain g fat (n :: bs)) : as = bs := by
  induction as generalizing n bs with
  | nil =>
    cases bs with
    | nil => rfl
    | cons m bs =>
      have := (hg.lt_eoc hb.2.2.isCluster).2.2.1
      have := ha.2
      have := hb.2.1
      omega
  | cons k as ih =>
    have hk := (hg.lt_eoc ha.2.2.isCluster).2.2.1
    cases bs with
    | nil =>
      have := hb.2
      have := ha.2.1
      omega
    | cons m bs =>
      obtain rfl : k = m := ha.2.1.symm.trans hb.2.1
      rw [ih ha.2.2 hb.2.2]

theorem IsChain.suffix {fat : ℕ → ℕ} {as bs : List ℕ} (h : IsChain g fat (as ++ bs))
    (hne : bs ≠ []) : IsChain g fat bs := by
  induction as with
  | nil => exact h
  | cons a as ih =>
    cases hl : as ++ bs with
    | nil => exact absurd (List.append_eq_nil_iff.mp hl).2 hne
    | cons b bs' =>
      rw [List.cons_append, hl] at h
      exact ih (hl ▸ h.2.2)

/-- **A chain that ends does not meet itself.** -/
theorem IsChain.nodup {fat : ℕ → ℕ} (hg : g.Ok) {ns : List ℕ} (h : IsChain g fat ns) :
    ns.Nodup := by
  induction ns with
  | nil => exact .nil
  | cons n ns ih =>
    refine List.nodup_cons.mpr ⟨fun hmem ↦ ?_, ?_⟩
    · obtain ⟨as, bs, rfl⟩ := List.append_of_mem hmem
      have hsuffix : IsChain g fat (n :: bs) :=
        @IsChain.suffix _ _ (n :: as) _ (by simpa using h) (by simp)
      have hlen := congrArg List.length (hsuffix.unique hg h)
      simp only [List.length_append, List.length_cons] at hlen
      omega
    · cases ns with
      | nil => exact .nil
      | cons m ns => exact ih h.2.2

/-- A walk that comes to the end of the chain has gone through all of it. -/
theorem isChain_of_ending {fat : ℕ → ℕ} {fuel n last : ℕ}
    (h : (chainFrom g fat fuel n).2 = .ok last) :
    ∃ ns, (chainFrom g fat fuel n).1 = n :: ns ∧ IsChain g fat (n :: ns) ∧
      (n :: ns).getLast? = some last := by
  induction fuel generalizing n with
  | zero => cases h
  | succ fuel ih =>
    rw [chainFrom] at h ⊢
    by_cases hn : g.isCluster n = true
    swap
    · rw [if_pos hn] at h
      cases h
    rw [if_neg (not_not.mpr hn)] at h ⊢
    rcases hnext : g.nextOf n (fat n) with e | _ | m
    · rw [hnext] at h
      cases h
    · rw [hnext] at h
      cases h
      refine ⟨[], rfl, ⟨hn, ?_⟩, rfl⟩
      rw [Geometry.nextOf] at hnext
      split at hnext
      · assumption
      · split at hnext <;> cases hnext
    · rw [hnext] at h
      obtain ⟨ns, hns, hchain, hlast⟩ := ih h
      refine ⟨m :: ns, ?_, ⟨hn, ?_, hchain⟩, ?_⟩
      · rw [← hns]
      · rw [Geometry.nextOf] at hnext
        split at hnext
        · cases hnext
        · split at hnext
          · cases hnext
            rfl
          · cases hnext
      · rw [List.getLast?_cons_cons]
        exact hlast

/-- And a chain that ends is gone through. -/
theorem chainFrom_of_isChain (hg : g.Ok) {fat : ℕ → ℕ} {n : ℕ} {ns : List ℕ} {fuel : ℕ}
    (h : IsChain g fat (n :: ns)) (hfuel : ns.length < fuel) :
    chainFrom g fat fuel n = (n :: ns, .ok ((n :: ns).getLast (by simp))) := by
  induction ns generalizing n fuel with
  | nil =>
    obtain ⟨fuel, rfl⟩ := Nat.exists_eq_succ_of_ne_zero (Nat.ne_of_gt hfuel)
    rw [chainFrom, if_neg (not_not.mpr h.1), Geometry.nextOf, if_pos h.2]
    rfl
  | cons m ns ih =>
    obtain ⟨fuel, rfl⟩ := Nat.exists_eq_succ_of_ne_zero (Nat.ne_of_gt (Nat.zero_lt_of_lt hfuel))
    have hm := h.2.2.isCluster
    have hlt := hg.lt_eoc hm
    rw [chainFrom, if_neg (not_not.mpr h.1), h.2.1, Geometry.nextOf, if_neg (by omega), if_pos hm]
    dsimp only
    rw [ih h.2.2 (by simpa using hfuel)]
    rw [List.getLast_cons_cons]

end Vux9k

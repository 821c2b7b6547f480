import Mathlib.Data.List.Chain
import Mathlib.Data.List.Nodup
import Vux9k.Fat.Settled

/-!
# Deleting an entry

`delete_slots` of `fw_common/src/fat/write.rs` marks the long-name slots of an entry and the entry
itself.  Where the long name starts has been found by a walk through the directory; the slots from
there on are found again by `next_slot`, from nothing but their numbers.  `follows_dirPositions`
says that the two agree for every directory: `next_slot` leads from each slot of the walk to the
next, in a sector, in a cluster and from one cluster to another.
-/

set_option autoImplicit false

namespace Vux9k

open Vol (Slot Listing)

/-! ## Slots by their numbers -/

/-- Where a slot is. -/
def Vol.Slot.pos (s : Slot) : ℕ × ℕ := (s.lba, s.index)

/-- The slots of a sector. -/
def sectorPositions (lba : ℕ) : List (ℕ × ℕ) := (List.range' 0 slotsPerSector).map fun i ↦ (lba, i)

/-- The slots of a cluster. -/
def clusterPositions (g : Geometry) (n : ℕ) : List (ℕ × ℕ) :=
  (List.range' 0 g.clusterSectors).flatMap fun s ↦ sectorPositions (g.clusterLba n + s)

/-- The cluster a sector of the data area is in. -/
def Geometry.clusterOf (g : Geometry) (lba : ℕ) : ℕ := (lba - g.dataLba) >>> g.clusterShift + 2

/-- What `next_slot` returns. -/
def Geometry.slotAfter (g : Geometry) (fat : ℕ → ℕ) (p : ℕ × ℕ) : Except FatError (ℕ × ℕ) :=
  if p.2 + 1 < slotsPerSector then .ok (p.1, p.2 + 1)
  else if (p.1 - g.dataLba + 1) % g.clusterSectors ≠ 0 then .ok (p.1 + 1, 0)
  else
    match g.nextOf (g.clusterOf p.1) (fat (g.clusterOf p.1)) with
    | .ok none => .error (.badChain (g.clusterOf p.1))
    | .ok (some next) => .ok (g.clusterLba next, 0)
    | .error e => .error e

/-- `next_slot` leads from `p`, in a cluster of the volume, to `q`. -/
def Geometry.Follows (g : Geometry) (fat : ℕ → ℕ) (p q : ℕ × ℕ) : Prop :=
  g.isCluster (g.clusterOf p.1) = true ∧ g.slotAfter fat p = .ok q

theorem map_pos_sectorSlots (c : Card) (lba s n : ℕ) : (sectorSlots c lba s n).map Slot.pos =
    (List.range' s n).flatMap fun s ↦ sectorPositions (lba + s) := by
  rw [sectorSlots, List.map_flatMap]
  refine congrArg (fun f ↦ (List.range' s n).flatMap f) (funext fun s ↦ ?_)
  rw [slotsFrom, List.map_map]
  rfl

theorem map_pos_dirSlots (c : Card) (v : Volume) (first : ℕ) :
    (dirSlots c v first).map Slot.pos =
      (chainFrom v.toGeometry (v.entry c) v.clusterEnd first).1.flatMap
        (clusterPositions v.toGeometry) := by
  rw [dirSlots, List.map_flatMap]
  refine congrArg (fun f ↦ List.flatMap f _) (funext fun n ↦ ?_)
  exact map_pos_sectorSlots c (v.clusterLba n) 0 v.clusterSectors

section

variable (g : Geometry)

theorem Geometry.clusterSectors_pos : 0 < g.clusterSectors := by
  rw [Geometry.clusterSectors, Nat.one_shiftLeft]
  exact Nat.two_pow_pos _

theorem Geometry.clusterLba_eq (n : ℕ) :
    g.clusterLba n = g.dataLba + (n - 2) * g.clusterSectors := by
  rw [Geometry.clusterLba, Geometry.clusterSectors, Nat.one_shiftLeft, Nat.shiftLeft_eq]

/-- `next_slot` finds the cluster a sector is in. -/
theorem Geometry.clusterOf_eq {n s : ℕ} (hn : 2 ≤ n) (hs : s < g.clusterSectors) :
    g.clusterOf (g.clusterLba n + s) = n := by
  rw [Geometry.clusterOf, g.clusterLba_eq, Nat.shiftRight_eq_div_pow, ← Nat.one_shiftLeft,
    ← Geometry.clusterSectors, Nat.add_assoc, Nat.add_sub_cancel_left, Nat.mul_comm,
    Nat.mul_add_div g.clusterSectors_pos, Nat.div_eq_of_lt hs]
  omega

theorem Geometry.two_le_of_isCluster {g : Geometry} {n : ℕ} (h : g.isCluster n = true) : 2 ≤ n := by
  rw [Geometry.isCluster, Bool.and_eq_true, decide_eq_true_eq] at h
  exact h.1

theorem getElem_sectorPositions {lba i : ℕ} (hi : i < (sectorPositions lba).length) :
    (sectorPositions lba)[i] = (lba, i) := by
  simp [sectorPositions]

theorem length_sectorPositions (lba : ℕ) : (sectorPositions lba).length = slotsPerSector := by
  simp [sectorPositions]

variable {g} {fat : ℕ → ℕ}

/-- In a sector. -/
theorem follows_sectorPositions {n s : ℕ} (hn : g.isCluster n = true) (hs : s < g.clusterSectors) :
    List.IsChain (g.Follows fat) (sectorPositions (g.clusterLba n + s)) := by
  rw [List.isChain_iff_getElem]
  intro i hi
  rw [getElem_sectorPositions, getElem_sectorPositions]
  rw [length_sectorPositions] at hi
  refine ⟨?_, ?_⟩
  · rw [g.clusterOf_eq (Geometry.two_le_of_isCluster hn) hs]
    exact hn
  · rw [Geometry.slotAfter, if_pos hi]

theorem head?_sectorPositions (lba : ℕ) : (sectorPositions lba).head? = some (lba, 0) := rfl

theorem getLast?_sectorPositions (lba : ℕ) : (sectorPositions lba).getLast? = some (lba, 15) := rfl

/-- From the last slot of a sector to the next sector. -/
theorem follows_sector {n s : ℕ} (hn : g.isCluster n = true) (hs : s + 1 < g.clusterSectors) :
    g.Follows fat (g.clusterLba n + s, 15) (g.clusterLba n + (s + 1), 0) := by
  refine ⟨?_, ?_⟩
  · rw [g.clusterOf_eq (Geometry.two_le_of_isCluster hn) (by omega)]
    exact hn
  · have hmod : (g.clusterLba n + s - g.dataLba + 1) % g.clusterSectors = s + 1 := by
      rw [g.clusterLba_eq, Nat.add_assoc, Nat.add_sub_cancel_left, Nat.add_assoc, Nat.mul_comm,
        Nat.mul_add_mod, Nat.mod_eq_of_lt hs]
    rw [Geometry.slotAfter, if_neg (by simp [slotsPerSector]), if_pos (by rw [hmod]; omega)]
    rfl

/-- From the last slot of a cluster to the next cluster. -/
theorem follows_cluster {n m : ℕ} (hn : g.isCluster n = true)
    (hnext : g.nextOf n (fat n) = .ok (some m)) :
    g.Follows fat (g.clusterLba n + (g.clusterSectors - 1), 15) (g.clusterLba m, 0) := by
  have hpos := g.clusterSectors_pos
  have hof := g.clusterOf_eq (Geometry.two_le_of_isCluster hn)
    (Nat.sub_lt hpos Nat.one_pos)
  refine ⟨by rwa [hof], ?_⟩
  have hmod : (g.clusterLba n + (g.clusterSectors - 1) - g.dataLba + 1) % g.clusterSectors = 0 := by
    rw [g.clusterLba_eq, Nat.add_assoc, Nat.add_sub_cancel_left, Nat.add_assoc,
      Nat.sub_add_cancel hpos, Nat.mul_comm, Nat.mul_add_mod, Nat.mod_self]
  rw [Geometry.slotAfter, if_neg (by simp [slotsPerSector]), if_neg (by rw [hmod]; simp), hof,
    hnext]

/-- In a cluster. -/
theorem follows_clusterPositions {n : ℕ} (hn : g.isCluster n = true) :
    List.IsChain (g.Follows fat) (clusterPositions g n) := by
  rw [clusterPositions, List.flatMap,
    List.isChain_flatten (by simp [sectorPositions, slotsPerSector])]
  refine ⟨fun l hl ↦ ?_, ?_⟩
  · obtain ⟨s, hs, rfl⟩ := List.mem_map.mp hl
    exact follows_sectorPositions hn (by simpa using hs)
  · rw [List.isChain_iff_getElem]
    intro i hi p hp q hq
    simp only [List.getElem_map, List.getElem_range', getLast?_sectorPositions,
      head?_sectorPositions, Option.mem_some_iff] at hp hq
    subst hp hq
    simpa using follows_sector hn (by simpa using hi)

theorem head?_clusterPositions (g : Geometry) (n : ℕ) :
    (clusterPositions g n).head? = some (g.clusterLba n, 0) := by
  obtain ⟨k, hk⟩ := Nat.exists_eq_succ_of_ne_zero g.clusterSectors_pos.ne'
  rw [clusterPositions, hk, Nat.succ_eq_add_one, List.range'_succ, List.flatMap_cons,
    List.head?_append, head?_sectorPositions]
  rfl

theorem getLast?_clusterPositions (g : Geometry) (n : ℕ) :
    (clusterPositions g n).getLast? = some (g.clusterLba n + (g.clusterSectors - 1), 15) := by
  obtain ⟨k, hk⟩ := Nat.exists_eq_succ_of_ne_zero g.clusterSectors_pos.ne'
  rw [clusterPositions, hk, Nat.succ_eq_add_one, List.range'_concat, List.flatMap_append,
    List.getLast?_append, List.flatMap_singleton, getLast?_sectorPositions]
  simp

/-- The clusters of a chain follow one another in the FAT. -/
theorem isChain_chainFrom (g : Geometry) (fat : ℕ → ℕ) (fuel n : ℕ) :
    List.IsChain (fun n m ↦ g.nextOf n (fat n) = .ok (some m)) (chainFrom g fat fuel n).1 ∧
      (∀ m ∈ (chainFrom g fat fuel n).1.head?, m = n) ∧
      ∀ m ∈ (chainFrom g fat fuel n).1, g.isCluster m = true := by
  induction fuel generalizing n with
  | zero => exact ⟨.nil, by simp [chainFrom], by simp [chainFrom]⟩
  | succ fuel ih =>
    rw [chainFrom]
    by_cases hn : g.isCluster n = true
    swap
    · rw [if_pos hn]
      exact ⟨.nil, by simp, by simp⟩
    rw [if_neg (not_not.mpr hn)]
    rcases hnext : g.nextOf n (fat n) with e | _ | m
    · exact ⟨.singleton n, by simp, by simpa using hn⟩
    · exact ⟨.singleton n, by simp, by simpa using hn⟩
    · obtain ⟨hchain, hhead, hall⟩ := ih m
      refine ⟨List.isChain_cons.mpr ⟨fun y hy ↦ ?_, hchain⟩, by simp, ?_⟩
      · rw [hnext, hhead y hy]
      · simpa [hn] using hall

/-- **`next_slot` goes through the slots of a directory** in the order of the walk. -/
theorem follows_chain {ns : List ℕ} (hns : ∀ n ∈ ns, g.isCluster n = true)
    (hchain : List.IsChain (fun n m ↦ g.nextOf n (fat n) = .ok (some m)) ns) :
    List.IsChain (g.Follows fat) (ns.flatMap (clusterPositions g)) := by
  have hne : ∀ n, clusterPositions g n ≠ [] := fun n hnil ↦ by
    have := head?_clusterPositions g n
    rw [hnil] at this
    cases this
  rw [List.flatMap, List.isChain_flatten (by simpa using fun n _ ↦ hne n)]
  refine ⟨fun l hl ↦ ?_, ?_⟩
  · obtain ⟨n, hn, rfl⟩ := List.mem_map.mp hl
    exact follows_clusterPositions (hns n hn)
  · rw [List.isChain_map]
    refine hchain.imp_of_mem_imp fun n m hn _ hnext p hp q hq ↦ ?_
    rw [getLast?_clusterPositions, Option.mem_some_iff] at hp
    rw [head?_clusterPositions, Option.mem_some_iff] at hq
    subst hp hq
    exact follows_cluster (hns n hn) hnext

theorem mem_clusterPositions {n : ℕ} {p : ℕ × ℕ} (h : p ∈ clusterPositions g n) :
    p.2 < slotsPerSector ∧ ∃ s < g.clusterSectors, p.1 = g.clusterLba n + s := by
  obtain ⟨s, hs, hp⟩ := List.mem_flatMap.mp h
  obtain ⟨i, hi, rfl⟩ := List.mem_map.mp hp
  exact ⟨by simpa using hi, s, by simpa using hs, rfl⟩

/-- No slot comes twice, if no cluster does. -/
theorem nodup_chain {ns : List ℕ} (hns : ∀ n ∈ ns, g.isCluster n = true) (hnodup : ns.Nodup) :
    (ns.flatMap (clusterPositions g)).Nodup := by
  rw [List.nodup_flatMap]
  refine ⟨fun n _ ↦ ?_, ?_⟩
  · rw [clusterPositions, List.nodup_flatMap]
    refine ⟨fun s _ ↦ ?_, ?_⟩
    · exact (List.nodup_range' 1).map fun i j hij ↦ (Prod.mk.inj hij).2
    · refine (List.nodup_range' 1).imp fun {s t} hst ↦ ?_
      intro p hp hq
      obtain ⟨i, -, rfl⟩ := List.mem_map.mp hp
      obtain ⟨j, -, hj⟩ := List.mem_map.mp hq
      have := (Prod.mk.inj hj).1
      omega
  · refine List.Pairwise.imp_of_mem (fun {n m} hn hm hne ↦ ?_) hnodup
    intro p hp hq
    obtain ⟨-, s, hs, hps⟩ := mem_clusterPositions hp
    obtain ⟨-, t, ht, hpt⟩ := mem_clusterPositions hq
    refine hne ?_
    rw [← g.clusterOf_eq (Geometry.two_le_of_isCluster (hns n hn)) hs,
      ← g.clusterOf_eq (Geometry.two_le_of_isCluster (hns m hm)) ht, ← hps, ← hpt]

theorem length_clusterPositions (g : Geometry) (n : ℕ) :
    (clusterPositions g n).length = g.clusterSectors * slotsPerSector := by
  simp [clusterPositions, List.length_flatMap, length_sectorPositions]

theorem length_chain (g : Geometry) (ns : List ℕ) : (ns.flatMap (clusterPositions g)).length =
    ns.length * (g.clusterSectors * slotsPerSector) := by
  induction ns with
  | nil => simp
  | cons n ns ih =>
    rw [List.flatMap_cons, List.length_append, ih, length_clusterPositions, List.length_cons,
      Nat.add_mul]
    omega

theorem length_chainFrom_le (g : Geometry) (fat : ℕ → ℕ) (fuel n : ℕ) :
    (chainFrom g fat fuel n).1.length ≤ fuel := by
  induction fuel generalizing n with
  | zero => exact le_rfl
  | succ fuel ih =>
    rw [chainFrom]
    by_cases hn : g.isCluster n = true
    swap
    · rw [if_pos hn]
      exact Nat.zero_le _
    rw [if_neg (not_not.mpr hn)]
    rcases g.nextOf n (fat n) with e | _ | m
    · simp
    · simp
    · simpa using ih m

end

/-! ## The long-name slots of an entry -/

/-- A slot of a long name whose entry has the checksum `sum`. -/
structure IsNameSlot (sum : Byte) (e : ℕ → Byte) : Prop where
  kept : e 0 ≠ deleted
  attr : e 11 = attrLfn
  sum : e 13 = sum

/-- The slots `run`, after `before`, are as much of a long name with this checksum as there is: only
the first of them may be a name's last part, and it is, or no slot of such a name is before it. -/
structure IsRun (sum : Byte) (before run : List Slot) : Prop where
  slots : ∀ t ∈ run, IsNameSlot sum t.bytes
  single : ∀ t ∈ run.tail, t.bytes 0 &&& 0x40#8 = 0#8
  whole : (∃ t ∈ run.head?, t.bytes 0 &&& 0x40#8 ≠ 0#8) ∨
    ∀ t ∈ before.getLast?, ¬IsNameSlot sum t.bytes

/-- What is behind the run that a search has kept after the slots `pre`. -/
structure RunKept (pre : List Slot) (run : Option (ℕ × ℕ × Byte)) : Prop where
  none : run = none → ∀ t ∈ pre.getLast?, ¬(t.bytes 0 ≠ deleted ∧ t.bytes 11 = attrLfn)
  some : ∀ r, run = some r → ∃ before first rest, pre = before ++ first :: rest ∧
    first.pos = (r.1, r.2.1) ∧ IsRun r.2.2 before (first :: rest)

/-- The last slot of a run kept has its checksum, and no other. -/
theorem RunKept.not_nameSlot {pre : List Slot} {run : Option (ℕ × ℕ × Byte)} (h : RunKept pre run)
    {sum : Byte} (hsum : ∀ r ∈ run, r.2.2 ≠ sum) :
    ∀ t ∈ pre.getLast?, ¬IsNameSlot sum t.bytes := by
  intro t ht hname
  cases hrun : run with
  | none => exact h.none hrun t ht ⟨hname.kept, hname.attr⟩
  | some r =>
    obtain ⟨before, first, rest, rfl, -, hslots⟩ := h.some r hrun
    have hmem : t ∈ first :: rest := by
      rw [List.getLast?_append_of_ne_nil _ (by simp)] at ht
      exact List.mem_of_getLast? ht
    exact hsum r hrun ((hslots.slots t hmem).sum.symm.trans hname.sum)

theorem RunKept.step {pre : List Slot} {st : Listing Unit} (h : RunKept pre st.run) (s : Slot) :
    RunKept (pre ++ [s]) (st.step s).run := by
  by_cases hlfn : s.bytes 0 ≠ deleted ∧ s.bytes 11 = attrLfn
  swap
  · rw [step_of_other hlfn]
    refine ⟨fun _ t ht ↦ ?_, fun r hr ↦ by cases hr⟩
    rw [List.getLast?_concat, Option.mem_some_iff] at ht
    rwa [← ht]
  rw [step_of_lfn hlfn.1 hlfn.2, st.run_addSlot]
  by_cases hstart : s.bytes 0 &&& 0x40#8 ≠ 0#8 ∨ ∀ r ∈ st.run, r.2.2 ≠ s.bytes 13
  · -- a run of one slot
    rw [if_pos hstart]
    refine ⟨fun hnone ↦ (by cases hnone), fun r hr ↦ ?_⟩
    cases hr
    refine ⟨pre, s, [], rfl, rfl, by simpa using ⟨hlfn.1, hlfn.2, rfl⟩, by simp, ?_⟩
    exact hstart.imp (fun hbit ↦ ⟨s, rfl, hbit⟩) h.not_nameSlot
  · -- one more slot of the run
    rw [if_neg hstart]
    rw [not_or, not_not] at hstart
    obtain ⟨hbit, hsum⟩ := hstart
    refine ⟨fun hnone ↦ absurd ?_ hsum, fun r hr ↦ ?_⟩
    · rw [hnone]
      simp
    · obtain ⟨before, first, rest, rfl, hpos, hrun⟩ := h.some r hr
      have hs : s.bytes 13 = r.2.2 := by
        by_contra hne
        refine hsum fun r' hr' ↦ ?_
        rw [hr, Option.mem_some_iff] at hr'
        rw [← hr']
        exact fun heq ↦ hne heq.symm
      refine ⟨before, first, rest ++ [s], by simp, hpos, ?_, ?_, hrun.whole⟩
      · intro t ht
        rw [← List.cons_append, List.mem_append, List.mem_singleton] at ht
        rcases ht with ht | rfl
        · exact hrun.slots t ht
        · exact ⟨hlfn.1, hlfn.2, hs⟩
      · intro t ht
        rw [List.tail_cons, List.mem_append, List.mem_singleton] at ht
        rcases ht with ht | rfl
        · exact hrun.single t ht
        · exact hbit

theorem runKept_foldl (pre : List Slot) :
    RunKept pre (pre.foldl Listing.step (Listing.start ())).run := by
  induction pre using List.reverseRec with
  | nil => exact ⟨by simp, fun r hr ↦ by cases hr⟩
  | append_singleton pre s ih =>
    rw [List.foldl_append]
    exact ih.step s

/-- **An entry says where its long name starts**: at the first of its slots, or at its own. -/
theorem entryAt_run (pre : List Slot) (s : Slot) : ∃ before run, pre = before ++ run ∧
    IsRun (checksum (ShortName.ofFn s.bytes).1) before run ∧
    ((run ++ [s]).head?.map Slot.pos) =
      some (((pre.foldl Listing.step (Listing.start ())).entryAt s.lba s.index s.bytes).lfnLba,
        ((pre.foldl Listing.step (Listing.start ())).entryAt s.lba s.index s.bytes).lfnIndex) := by
  have hkept := runKept_foldl pre
  generalize pre.foldl Listing.step (Listing.start ()) = st at hkept ⊢
  rw [Listing.entryAt]
  cases hat : st.runAt s.bytes with
  | none =>
    refine ⟨pre, [], by simp, ⟨by simp, by simp, .inr (hkept.not_nameSlot fun r hr heq ↦ ?_)⟩, rfl⟩
    rw [Listing.runAt, Option.filter_eq_none_iff] at hat
    exact hat r hr (by simpa using heq)
  | some r =>
    rw [Listing.runAt, Option.filter_eq_some_iff, decide_eq_true_eq] at hat
    obtain ⟨before, first, rest, rfl, hpos, hrun⟩ := hkept.some r hat.1
    rw [hat.2] at hrun
    exact ⟨before, first :: rest, rfl, hrun, congrArg some hpos⟩

/-! ## The loop -/

/-- The card with the first bytes of some slots marked. -/
def erased (c : Card) (ps : List (ℕ × ℕ)) : Card := fun lba j ↦
  if ps.any fun p ↦ p.1 = lba && p.2 * slotLen = j then deleted else c lba j

/-- The sector with some bytes written over, where it is on the card. -/
def spliced (c : Card) (lba index : ℕ) (bs : List Byte) : Card :=
  Function.update c lba (splice (c lba) (index * slotLen) bs)

theorem spliced_apply (c : Card) (lba index : ℕ) (bs : List Byte) (lba' j : ℕ) :
    spliced c lba index bs lba' j =
      if lba' = lba ∧ index * slotLen ≤ j ∧ j < index * slotLen + bs.length then
        bs.getD (j - index * slotLen) 0#8
      else c lba' j := by
  rw [spliced]
  by_cases hlba : lba' = lba
  · subst hlba
    rw [Function.update_self, splice]
    simp only [true_and]
  · rw [Function.update_of_ne hlba, if_neg fun h ↦ hlba h.1]

theorem erased_cons (c : Card) (p : ℕ × ℕ) (ps : List (ℕ × ℕ)) :
    erased c (p :: ps) = erased (spliced c p.1 p.2 [deleted]) ps := by
  funext lba j
  rw [erased, erased, spliced_apply, List.any_cons]
  by_cases hps : (ps.any fun p ↦ p.1 = lba && p.2 * slotLen = j) = true
  · rw [if_pos (by rw [hps, Bool.or_true]), if_pos hps]
  · rw [if_neg hps]
    rw [Bool.not_eq_true] at hps
    by_cases hp : p.1 = lba ∧ p.2 * slotLen = j
    · rw [if_pos (by simp [hp]), if_pos ⟨hp.1.symm, hp.2.le, by simp [hp.2]⟩, hp.2, Nat.sub_self]
      rfl
    · rw [if_neg (by simpa [hps] using hp), if_neg]
      rintro ⟨hlba, hle, hlt⟩
      rw [List.length_singleton] at hlt
      exact hp ⟨hlba.symm, by omega⟩

section

variable {c : Card} {v : Volume}

/-- Bytes of a slot written over, and what follows. -/
theorem onCard_splice (c : Card) (v : Volume) (lba index : ℕ) (bs : List Byte) (k : Vol Unit) :
    onCard ((Vol.readBuf lba >>= fun _ ↦
      Vol.modify (fun v ↦ { v with buf := splice v.buf (index * slotLen) bs }) >>= fun _ ↦
        Vol.writeBuf lba >>= fun _ ↦ k) v) c =
      ((onCard (k { v with buf := splice (c lba) (index * slotLen) bs })
          (spliced c lba index bs)).1,
        (lba, splice (c lba) (index * slotLen) bs) ::
          (onCard (k { v with buf := splice (c lba) (index * slotLen) bs })
            (spliced c lba index bs)).2) :=
  rfl

theorem onCard_splice_last (c : Card) (v : Volume) (lba index : ℕ) (bs : List Byte) :
    ∃ v', onCard ((Vol.readBuf lba >>= fun _ ↦
      Vol.modify (fun v ↦ { v with buf := splice v.buf (index * slotLen) bs }) >>= fun _ ↦
        Vol.writeBuf lba) v) c =
      ((.ok (), v'), [(lba, splice (c lba) (index * slotLen) bs)]) :=
  ⟨{ v with buf := splice (c lba) (index * slotLen) bs }, rfl⟩

/-- A write to the data area leaves the volume settled. -/
theorem Settled.spliced (h : Settled c v) {lba : ℕ} (hlba : v.dataLba ≤ lba) (index : ℕ)
    (bs : List Byte) (b : Sector) : Settled (spliced c lba index bs) { v with buf := b } where
  laid := h.laid
  clean := h.clean
  cached hne := by
    obtain ⟨hlt, hbuf⟩ := h.cached hne
    refine ⟨hlt, hbuf.trans ?_⟩
    have hdata := h.laid.data
    have hone : v.fatSectors ≤ v.numFats * v.fatSectors := by
      rcases h.laid.fats with hn | hn <;> rw [hn] <;> omega
    exact (Function.update_of_ne (by omega) _ _).symm

/-- And the FAT as it was. -/
theorem Settled.fatAt_spliced (h : Settled c v) {lba : ℕ} (hlba : v.dataLba ≤ lba) (index : ℕ)
    (bs : List Byte) {n : ℕ} (hn : v.isCluster n = true) :
    fatAt v.toGeometry (Vux9k.spliced c lba index bs) n = fatAt v.toGeometry c n := by
  have hlt := h.laid.sector_lt (h.laid.toOk.lt_eoc hn).2.1
  have hdata := h.laid.data
  have hone : v.fatSectors ≤ v.numFats * v.fatSectors := by
    rcases h.laid.fats with hn | hn <;> rw [hn] <;> omega
  rw [fatAt, fatAt, Vux9k.spliced, Function.update_of_ne (by omega)]

theorem Geometry.Follows.congr {g : Geometry} {fat fat' : ℕ → ℕ} {p q : ℕ × ℕ}
    (h : g.Follows fat p q) (hfat : ∀ n, g.isCluster n = true → fat' n = fat n) :
    g.Follows fat' p q := by
  refine ⟨h.1, ?_⟩
  rw [Geometry.slotAfter, hfat _ h.1]
  exact h.2

theorem stays_nextSlot (h : Settled c v) {lba index : ℕ}
    (hlba : v.isCluster (v.clusterOf lba) = true) :
    Stays c v (Vol.nextSlot lba index) (v.slotAfter (fatAt v.toGeometry c) (lba, index)) := by
  rw [Vol.nextSlot, Geometry.slotAfter]
  dsimp only
  by_cases hindex : index + 1 < slotsPerSector
  · rw [if_pos hindex, if_pos hindex]
    exact stays_pure h _
  rw [if_neg hindex, if_neg hindex]
  refine (stays_gets h id).bind fun v₁ h₁ ↦ ?_
  dsimp only [id]
  by_cases hsector : (lba - v.dataLba + 1) % v.clusterSectors ≠ 0
  · rw [if_pos hsector, if_pos hsector]
    exact stays_pure h₁.settled _
  rw [if_neg hsector, if_neg hsector]
  have hnext := stays_nextCluster h₁.settled (n := v.clusterOf lba)
    (by rw [h₁.geometry]; exact (h.laid.toOk.lt_eoc hlba).2.1)
  rw [h₁.geometry] at hnext
  rcases hof : v.nextOf (v.clusterOf lba) (fatAt v.toGeometry c (v.clusterOf lba)) with e | _ | n
  · rw [hof] at hnext
    exact hnext.bind_error
  · rw [hof] at hnext
    exact hnext.bind fun v₂ h₂ ↦ stays_throw h₂.settled _
  · rw [hof] at hnext
    exact hnext.bind fun v₂ h₂ ↦ stays_pure h₂.settled _

/-- **The loop marks the slots up to the entry's**, and ends there. -/
theorem onCard_deleteFrom {e : DirEntry} (keep : Bool) {ps : List (ℕ × ℕ)} (h : Settled c v)
    (hchain : List.IsChain (v.Follows (fatAt v.toGeometry c)) (ps ++ [(e.lba, e.index)]))
    (hlast : (e.lba, e.index) ∉ ps) (hdata : ∀ p ∈ ps ++ [(e.lba, e.index)], v.dataLba ≤ p.1)
    {fuel : ℕ} (hfuel : ps.length < fuel) {p : ℕ × ℕ}
    (hp : (ps ++ [(e.lba, e.index)]).head? = some p) :
    ∃ v' ws, onCard (Vol.deleteFrom e keep fuel p.1 p.2 v) c = ((.ok (), v'), ws) ∧
      v'.toGeometry = v.toGeometry ∧ Settled (c.after ws) v' ∧
      c.after ws = erased c (ps ++ if keep then [] else [(e.lba, e.index)]) := by
  induction ps generalizing c v fuel p with
  | nil =>
    obtain ⟨fuel, rfl⟩ := Nat.exists_eq_succ_of_ne_zero (Nat.ne_of_gt hfuel)
    cases hp
    rw [Vol.deleteFrom]
    simp only [and_self, decide_true, Bool.true_and, if_true]
    cases keep with
    | true => exact ⟨v, [], rfl, rfl, h, rfl⟩
    | false =>
      have hlba : v.dataLba ≤ e.lba := hdata (e.lba, e.index) (by simp)
      refine ⟨_, _, onCard_splice c v e.lba e.index [deleted] (pure ()), rfl, ?_, ?_⟩
      · exact h.spliced hlba e.index [deleted] _
      · exact (erased_cons c (e.lba, e.index) []).symm
  | cons q qs ih =>
    obtain ⟨fuel, rfl⟩ := Nat.exists_eq_succ_of_ne_zero (Nat.ne_of_gt (Nat.zero_lt_of_lt hfuel))
    cases hp
    have hne : ¬(q.1 = e.lba ∧ q.2 = e.index) := fun heq ↦
      hlast (List.mem_cons.mpr (.inl (Prod.ext heq.1 heq.2).symm))
    have hlba : v.dataLba ≤ q.1 := hdata q (by simp)
    rw [List.cons_append, List.isChain_cons] at hchain
    obtain ⟨r, hr⟩ : ∃ r, (qs ++ [(e.lba, e.index)]).head? = some r := by
      cases qs with
      | nil => exact ⟨_, rfl⟩
      | cons r qs => exact ⟨r, rfl⟩
    have hfollows := hchain.1 r hr
    -- the slot is marked, and the next one found in the FAT, which is as it was
    have h₁ := h.spliced hlba q.2 [deleted] (splice (c q.1) (q.2 * slotLen) [deleted])
    have hfat : ∀ n, v.isCluster n = true →
        fatAt v.toGeometry (spliced c q.1 q.2 [deleted]) n = fatAt v.toGeometry c n :=
      fun n hn ↦ h.fatAt_spliced hlba q.2 [deleted] hn
    have hnext : Stays _ _ (Vol.nextSlot q.1 q.2) (.ok r) :=
      (hfollows.congr hfat).2 ▸ stays_nextSlot h₁ hfollows.1
    obtain ⟨v₂, hnext, h₂⟩ := hnext
    obtain ⟨v', ws, hrest, hgeo, hset, hcard⟩ := ih h₂.settled
      (by
        rw [h₂.geometry]
        exact hchain.2.imp fun _ _ hf ↦ hf.congr hfat)
      (fun hmem ↦ hlast (List.mem_cons_of_mem q hmem))
      (fun p hp ↦ by
        rw [h₂.geometry]
        exact hdata p (List.mem_cons_of_mem q hp))
      (by simpa using hfuel) hr
    refine ⟨v', (q.1, splice (c q.1) (q.2 * slotLen) [deleted]) :: ws, ?_,
      hgeo.trans h₂.geometry, hset, ?_⟩
    · rw [Vol.deleteFrom]
      simp only [hne, decide_false, Bool.false_and, Bool.false_eq_true, if_false]
      refine (onCard_splice c v q.1 q.2 [deleted] _).trans ?_
      rw [onCard_bind_ok hnext hrest]
      rfl
    · rw [List.cons_append, erased_cons]
      exact hcard

end

/-! ## Entries that have been returned -/

/-- `find_entry`, `list` or `locate` has returned the entry `e` of `dir`, and nothing that can be
seen has changed since. -/
inductive Returned (c : Card) (v : Volume) (dir e : DirEntry) : Prop
  | findEntry (p : DirEntry → Bool) (c₀ : Card) (v₀ v₁ : Volume) (ws : List Wr)
    (sound : Sound c₀ v₀)
      (run : onCard (Vol.findEntry dir p v₀) c₀ = ((.ok (some e), v₁), ws))
      (same : Same (c₀.after ws) v₁ c v)
  | list (τ : Type) (f : τ → DirEntry → Option (List Byte) → Bool × τ) (seen seen' : τ) (c₀ : Card)
      (v₀ v₁ : Volume) (ws : List Wr) (sound : Sound c₀ v₀)
      (run : onCard (Vol.list dir f seen v₀) c₀ = ((.ok (.ok (some e), seen'), v₁), ws))
      (same : Same (c₀.after ws) v₁ c v)
  | locate (start : DirEntry) (path : List Byte) (c₀ : Card) (v₀ v₁ : Volume) (ws : List Wr)
      (sound : Sound c₀ v₀)
      (run : onCard (Vol.locate start path v₀) c₀ = ((.ok (dir, e), v₁), ws))
      (same : Same (c₀.after ws) v₁ c v)

section

variable {α β : Type} {c c' : Card} {v v' : Volume} {dir e : DirEntry}

/-- What is known of a run that only looks. -/
theorem Peeks.of_run {m : Vol α} {r r' : Except FatError α} {ws : List Wr} (hm : Peeks c v m r)
    (hrun : onCard (m v) c = ((r', v'), ws)) : r = r' ∧ Same c v (c.after ws) v' := by
  obtain ⟨v'', ws', hrun', hsame⟩ := hm
  rw [hrun] at hrun'
  simp only [Prod.mk.injEq] at hrun'
  obtain ⟨⟨rfl, rfl⟩, rfl⟩ := hrun'
  exact ⟨rfl, hsame⟩

theorem mem_of_answer {d : Directory} {r : Option DirEntry} (h : d.answer r = .ok (some e)) :
    r = some e := by
  rw [Directory.answer] at h
  split at h
  · cases hend : d.ending with
    | ok _ =>
      rw [hend] at h
      cases h
    | error _ =>
      rw [hend] at h
      cases h
  · cases h
    rfl

theorem mem_of_first {d : Directory} {p : DirEntry → Option (List Byte) → Bool}
    (h : d.first p = .ok (some e)) : ∃ long, (e, long) ∈ d.entries := by
  have hfind := mem_of_answer h
  rw [Option.map_eq_some_iff] at hfind
  obtain ⟨⟨e', long⟩, hfind, rfl⟩ := hfind
  exact ⟨long, List.mem_of_find?_eq_some hfind⟩

theorem Tree.mem_of_find {t : Tree} {p : DirEntry → Option (List Byte) → Bool}
    (h : t.find dir p = .ok (some e)) :
    dir.isDir = true ∧ ∃ long, (e, long) ∈ (t.dirs dir.cluster).entries := by
  rw [Tree.find] at h
  split at h
  · cases h
  · rename_i hdir
    exact ⟨not_not.mp hdir, mem_of_first h⟩

theorem Tree.mem_of_must {t : Tree} {p : DirEntry → Option (List Byte) → Bool}
    (h : t.find dir p >>= Tree.must = .ok e) : t.find dir p = .ok (some e) := by
  rcases hfind : t.find dir p with err | _ | d
  · rw [hfind] at h
    cases h
  · rw [hfind] at h
    cases h
  · rw [hfind] at h
    cases h
    rfl

theorem Tree.mem_of_lookup {t : Tree} {part : List Byte} (h : t.lookup dir part = .ok e) :
    dir.isDir = true ∧ ∃ long, (e, long) ∈ (t.dirs dir.cluster).entries := by
  rw [Tree.lookup] at h
  cases hshort : shortName part with
  | none =>
    rw [hshort] at h
    exact Tree.mem_of_find (Tree.mem_of_must h)
  | some short =>
    rw [hshort] at h
    dsimp only at h
    rcases hfind : t.find dir fun e _ ↦ e.name = short with err | _ | d
    · rw [hfind] at h
      cases h
    · rw [hfind] at h
      exact Tree.mem_of_find (Tree.mem_of_must h)
    · rw [hfind] at h
      cases h
      exact Tree.mem_of_find hfind

theorem Tree.mem_of_locate {t : Tree} {start : DirEntry} {path : List Byte}
    (h : t.locate start path = .ok (dir, e)) :
    ∃ long, (e, long) ∈ (t.dirs dir.cluster).entries := by
  rw [Tree.locate] at h
  split at h
  · cases h
  cases hdir : t.resolveDir start (splitLast path).1 with
  | error err =>
    rw [hdir] at h
    cases h
  | ok d =>
    rw [hdir] at h
    change (t.lookup d (splitLast path).2 >>= fun e ↦ Except.ok (d, e)) = _ at h
    cases hlookup : t.lookup d (splitLast path).2 with
    | error err =>
      rw [hlookup] at h
      cases h
    | ok e' =>
      rw [hlookup] at h
      cases h
      exact (Tree.mem_of_lookup hlookup).2

/-- **An entry returned is in its directory.** -/
theorem Returned.mem (h : Returned c v dir e) :
    ∃ long, (e, long) ∈ (directoryAt c v dir.cluster).entries := by
  cases h with
  | findEntry p c₀ v₀ v₁ ws sound run same =>
    obtain ⟨hr, hsame⟩ := (peeks_find_tree sound dir p).of_run run
    have htree := (hsame.trans same).directoryAt_eq sound.laid dir.cluster
    rw [htree]
    exact (Tree.mem_of_find hr).2
  | list τ f seen seen' c₀ v₀ v₁ ws sound run same =>
    by_cases hdir : dir.isDir = true
    swap
    · rw [Vol.list, if_pos hdir] at run
      cases run
    obtain ⟨seen'', hlist⟩ := peeks_list_taken sound hdir f seen
    obtain ⟨hr, hsame⟩ := hlist.of_run run
    rw [(hsame.trans same).directoryAt_eq sound.laid dir.cluster]
    simp only [Except.ok.injEq, Prod.mk.injEq] at hr
    exact mem_of_taken (mem_of_answer hr.1)
  | locate start path c₀ v₀ v₁ ws sound run same =>
    obtain ⟨hr, hsame⟩ := (peeks_locate sound start path).of_run run
    rw [(hsame.trans same).directoryAt_eq sound.laid dir.cluster]
    exact Tree.mem_of_locate hr

theorem mem_callsFrom {st : Listing Unit} {ss : List Slot} {d : DirEntry}
    {long : Option (List Byte)}
    (h : (d, long) ∈ callsFrom st ss) : ∃ pre s post, ss = pre ++ s :: post ∧ IsEntry s.bytes ∧
      d = (pre.foldl Listing.step st).entryAt s.lba s.index s.bytes := by
  induction ss generalizing st with
  | nil => cases h
  | cons s ss ih =>
    rw [callsFrom] at h
    split at h
    · cases h
    have hrest : (d, long) ∈ callsFrom (st.step s) ss → ∃ pre t post, s :: ss = pre ++ t :: post ∧
        IsEntry t.bytes ∧ d = (pre.foldl Listing.step st).entryAt t.lba t.index t.bytes := by
      intro hmem
      obtain ⟨pre, t, post, rfl, ht, hd⟩ := ih hmem
      exact ⟨s :: pre, t, post, rfl, ht, hd⟩
    split at h
    · rename_i hs
      rcases List.mem_cons.mp h with heq | hmem
      · exact ⟨[], s, ss, rfl, hs, (Prod.mk.inj heq).1⟩
      · exact hrest hmem
    · exact hrest h

end

/-! ## The slots of an entry -/

/-- The entry `e` of a directory with these slots is in slot `s`, and the slots `run` right before
it are those of its long name. -/
structure Own (slots : List Slot) (e : DirEntry) (before run : List Slot) (s : Slot)
    (after : List Slot) : Prop where
  split : slots = before ++ (run ++ s :: after)
  entry : IsEntry s.bytes
  pos : s.pos = (e.lba, e.index)
  name : ShortName.ofFn s.bytes = e.name
  isRun : IsRun (checksum e.name.1) before run
  start : (run ++ [s]).head?.map Slot.pos = some (e.lfnLba, e.lfnIndex)

section

variable {c : Card} {v : Volume} {dir e : DirEntry}

theorem Returned.own (h : Returned c v dir e) :
    ∃ before run s after, Own (dirSlots c v dir.cluster) e before run s after := by
  obtain ⟨long, hmem⟩ := h.mem
  change (e, long) ∈ calls (dirSlots c v dir.cluster) at hmem
  rw [calls_eq] at hmem
  obtain ⟨pre, s, after, hsplit, hs, rfl⟩ := mem_callsFrom hmem
  obtain ⟨before, run, hpre, hrun, hstart⟩ := entryAt_run pre s
  refine ⟨before, run, s, after, ?_, hs, rfl, rfl, hrun, hstart⟩
  rw [hsplit, hpre, List.append_assoc]

/-- What the loop of `delete_slots` relies on, of the slots from the long name to the entry. -/
structure Deletable (c : Card) (v : Volume) (ps : List (ℕ × ℕ)) (last : ℕ × ℕ) : Prop where
  chain : List.IsChain (v.Follows (fatAt v.toGeometry c)) (ps ++ [last])
  once : last ∉ ps
  data : ∀ p ∈ ps ++ [last], v.dataLba ≤ p.1
  fuel : ps.length < v.clusterEnd * v.clusterSectors * slotsPerSector

theorem Own.deletable (h : Settled c v) {before run after : List Slot} {s : Slot}
    (hchain : (chainFrom v.toGeometry (v.entry c) v.clusterEnd dir.cluster).1.Nodup)
    (ho : Own (dirSlots c v dir.cluster) e before run s after) :
    Deletable c v (run.map Slot.pos) (e.lba, e.index) := by
  obtain ⟨hlinks, -, hclusters⟩ :=
    isChain_chainFrom v.toGeometry (v.entry c) v.clusterEnd dir.cluster
  have hpos : before.map Slot.pos ++ ((run.map Slot.pos ++ [(e.lba, e.index)]) ++
      after.map Slot.pos) = (chainFrom v.toGeometry (v.entry c) v.clusterEnd dir.cluster).1.flatMap
        (clusterPositions v.toGeometry) := by
    rw [← map_pos_dirSlots, ho.split, ← ho.pos]
    simp
  refine ⟨?_, ?_, ?_, ?_⟩
  · have hall := follows_chain hclusters hlinks
    rw [← hpos] at hall
    have hown := (List.isChain_append.mp (List.isChain_append.mp hall).2.1).1
    refine hown.imp fun p q hf ↦ hf.congr fun n hn ↦ ?_
    exact (h.entry_eq (h.laid.toOk.lt_eoc hn).2.1).symm
  · have hnodup := nodup_chain hclusters hchain
    rw [← hpos] at hnodup
    have hown := (List.nodup_append.mp (List.nodup_append.mp hnodup).2.1).1
    exact fun hmem ↦ (List.nodup_append.mp hown).2.2 _ hmem _ (List.mem_singleton_self _) rfl
  · intro p hp
    have hmem : p ∈ (chainFrom v.toGeometry (v.entry c) v.clusterEnd dir.cluster).1.flatMap
        (clusterPositions v.toGeometry) := by
      rw [← hpos]
      exact List.mem_append_right _ (List.mem_append_left _ hp)
    obtain ⟨n, -, hn⟩ := List.mem_flatMap.mp hmem
    obtain ⟨-, k, -, hk⟩ := mem_clusterPositions hn
    rw [hk]
    exact (v.dataLba_le_clusterLba n).trans (Nat.le_add_right _ _)
  · have hlen := congrArg List.length hpos
    have hle := length_chainFrom_le v.toGeometry (v.entry c) v.clusterEnd dir.cluster
    rw [length_chain] at hlen
    simp only [List.length_append, List.length_map, List.length_singleton] at hlen ⊢
    have hmul := Nat.mul_le_mul_right (v.clusterSectors * slotsPerSector) hle
    rw [Nat.mul_assoc]
    omega

theorem OnlyCounts.fatAt_eq {g : Geometry} {c' : Card} (h : OnlyCounts g c c') (n : ℕ) :
    fatAt g c' n = fatAt g c n := by
  rw [fatAt, fatAt, h.eq (Nat.le_add_right _ _)]

/-- FSInfo is not in the way. -/
theorem Deletable.marked {ps : List (ℕ × ℕ)} {last : ℕ × ℕ} (h : Deletable c v ps last) {c' : Card}
    {v' : Volume} (hc : OnlyCounts v.toGeometry c c') (hv : v'.toGeometry = v.toGeometry) :
    Deletable c' v' ps last := by
  refine ⟨?_, h.once, ?_, ?_⟩
  · rw [hv]
    exact h.chain.imp fun p q hf ↦ hf.congr fun n _ ↦ hc.fatAt_eq n
  · rw [hv]
    exact h.data
  · rw [hv]
    exact h.fuel

theorem onCard_deleteSlots (h : Settled c v) (keep : Bool) {ps : List (ℕ × ℕ)}
    (hd : Deletable c v ps (e.lba, e.index))
    (hstart : (ps ++ [(e.lba, e.index)]).head? = some (e.lfnLba, e.lfnIndex)) :
    ∃ v' ws, onCard (Vol.deleteSlots e keep v) c = ((.ok (), v'), ws) ∧
      v'.toGeometry = v.toGeometry ∧ Settled (c.after ws) v' ∧
      c.after ws = erased c (ps ++ if keep then [] else [(e.lba, e.index)]) :=
  onCard_deleteFrom keep h hd.chain hd.once hd.data hd.fuel hstart

/-- **Deleting an entry touches only its own slots.**  For an entry that has been returned from a
directory whose chain does not repeat a cluster, with a clean cache and on a card without errors,
`delete_slots` ends, and all of the card is as it was but the first bytes of the slots of the
entry's long name and, unless it is to be kept, of the entry.  A `rename` fails and changes nothing,
or changes besides that FSInfo's two counts and the entry's name. -/
theorem delete_slots_own (h : Settled c v)
    (hchain : (chainFrom v.toGeometry (v.entry c) v.clusterEnd dir.cluster).1.Nodup)
    (he : Returned c v dir e) :
    ∃ before run s after, Own (dirSlots c v dir.cluster) e before run s after ∧
      (∀ keep, ∃ v' ws, onCard (Vol.deleteSlots e keep v) c = ((.ok (), v'), ws) ∧
        c.after ws = erased c ((run ++ if keep then [] else [s]).map Slot.pos)) ∧
      ∀ dir' name,
        (∃ err v', onCard (Vol.rename dir' e name v) c = ((.error err, v'), [])) ∨
        ∃ v' ws c₁, onCard (Vol.rename dir' e name v) c = ((.ok (), v'), ws) ∧
          OnlyCounts v.toGeometry c c₁ ∧
          c.after ws = spliced (erased c₁ (run.map Slot.pos)) e.lba e.index name.1 := by
  obtain ⟨before, run, s, after, ho⟩ := he.own
  have hd := ho.deletable h hchain
  have hstart : (run.map Slot.pos ++ [(e.lba, e.index)]).head? = some (e.lfnLba, e.lfnIndex) := by
    rw [← ho.start, ← ho.pos, ← List.head?_map]
    simp
  refine ⟨before, run, s, after, ho, fun keep ↦ ?_, fun dir' name ↦ ?_⟩
  · obtain ⟨v', ws, hrun, -, -, hcard⟩ := onCard_deleteSlots h keep hd hstart
    refine ⟨v', ws, hrun, hcard.trans (congrArg (erased c) ?_)⟩
    rw [List.map_append, ← ho.pos]
    cases keep with
    | true => rfl
    | false => rfl
  · rw [Vol.rename]
    by_cases hdir : e.isDir = true
    · rw [if_pos hdir]
      exact .inl ⟨_, v, rfl⟩
    rw [if_neg hdir]
    obtain ⟨r, v₁, hfind, h₁⟩ := stays_findEntry h dir' fun d ↦ d.name = name
    rcases r with err | found
    · exact .inl ⟨err, v₁, onCard_bind_error hfind⟩
    by_cases hfound : found.isSome = true
    · refine .inl ⟨.exists, v₁, onCard_bind_ok hfind ?_⟩
      rw [if_pos hfound]
      rfl
    -- the counts, then the slots, then the name
    obtain ⟨v₂, ws₂, hbegin, hgeo₂, hset₂, hcounts⟩ := onCard_beginChange h₁.settled
    rw [h₁.geometry] at hgeo₂ hcounts
    obtain ⟨v₃, ws₃, hdelete, -, -, hcard⟩ :=
      onCard_deleteSlots hset₂ true (hd.marked hcounts hgeo₂) hstart
    obtain ⟨v₄, hname⟩ := onCard_splice_last ((c.after ws₂).after ws₃) v₃ e.lba e.index name.1
    refine .inr ⟨v₄, [] ++ (ws₂ ++ (ws₃ ++ [(e.lba, splice ((c.after ws₂).after ws₃ e.lba)
      (e.index * slotLen) name.1)])), c.after ws₂, onCard_bind_ok hfind ?_, hcounts, ?_⟩
    · rw [if_neg hfound]
      exact onCard_bind_ok hbegin (onCard_bind_ok hdelete hname)
    · rw [List.nil_append, Card.after_append, Card.after_append, hcard, if_pos rfl, List.append_nil]
      rfl

theorem Same.symm {c' : Card} {v' : Volume} (h : Same c v c' v') (hs : Sound c v) :
    Same c' v' c v where
  sound := hs
  geometry := h.geometry.symm
  nextFree := h.nextFree.symm
  fsinfoDone := h.fsinfoDone.symm
  fat i hi := (h.fat i (by rwa [← h.geometry])).symm
  rest lba hlba := (h.rest lba (by rwa [← h.geometry])).symm

end

/-- The entry of `Hello.txt`. -/
def helloEntry : DirEntry := .parse (slotOf (helloCard 2) 1) 2 1 (some (2, 0))

theorem settled_hello : Settled helloCard helloVolume where
  laid := sound_hello.laid
  clean := rfl
  cached hne := absurd rfl hne

theorem returned_hello : Returned helloCard helloVolume (.root 2) helloEntry := by
  have hfirst : ((directoryAt helloCard helloVolume 2).first fun d _ ↦ d.name = helloEntry.name) =
      .ok (some helloEntry) := by
    decide
  have hpeeks :=
    @peeks_findEntry _ _ (.root 2) sound_hello (by decide) fun d ↦ d.name = helloEntry.name
  change Peeks _ _ _ ((directoryAt helloCard helloVolume 2).first _) at hpeeks
  rw [hfirst] at hpeeks
  obtain ⟨v₁, ws, hrun, hsame⟩ := hpeeks
  exact .findEntry _ helloCard helloVolume v₁ ws sound_hello hrun (hsame.symm sound_hello)

theorem delete_slots_own_hello :
    Settled helloCard helloVolume ∧
    (chainFrom helloVolume.toGeometry (helloVolume.entry helloCard) 3 2).1.Nodup ∧
    Returned helloCard helloVolume (.root 2) helloEntry ∧
    ∃ v' ws, onCard (Vol.deleteSlots helloEntry false helloVolume) helloCard =
      ((.ok (), v'), ws) := by
  have hnodup : (chainFrom helloVolume.toGeometry (helloVolume.entry helloCard) 3 2).1.Nodup := by
    decide
  obtain ⟨before, run, s, after, -, hdelete, -⟩ :=
    @delete_slots_own _ _ (.root 2) _ settled_hello hnodup returned_hello
  obtain ⟨v', ws, hrun, -⟩ := hdelete false
  exact ⟨settled_hello, hnodup, returned_hello, v', ws, hrun⟩

end Vux9k

import Vux9k.Fat.Chains

/-!
# A slot for a new entry

`free_slot` and `write_entry` of `fw_common/src/fat/write.rs`.  The slot is the first of the
directory that holds no entry; if there is none, the directory is given one more cluster, which is
all zeros on the card before the FAT leads to it.
-/

set_option autoImplicit false

namespace Vux9k

open Vol (Slot)

variable {g : Geometry} {d : Disk}

/-- The slot holds no entry. -/
def Vol.Slot.isOpen (s : Slot) : Bool := s.bytes 0 = 0#8 ∨ s.bytes 0 = deleted

/-- The first slot of a directory that holds no entry. -/
def Disk.openSlot (g : Geometry) (d : Disk) (first : ℕ) : Option Slot :=
  (d.slots g first).find? Slot.isOpen

/-- The closure of `free_slot`. -/
def stopAtOpen (_ : Unit) (_ _ : ℕ) (e : ℕ → Byte) : Bool × Unit :=
  (decide (e 0 = 0#8 ∨ e 0 = deleted), ())

theorem feed_stopAtOpen (ss : List Slot) :
    feed stopAtOpen ss () = ((ss.find? Slot.isOpen).map Slot.pos, ()) := by
  induction ss with
  | nil => rfl
  | cons s ss ih =>
    rw [feed, List.find?_cons]
    by_cases hs : s.isOpen = true
    · have hstop : stopAtOpen () s.lba s.index s.bytes = (true, ()) := congrArg (·, ()) hs
      rw [hstop, hs]
      rfl
    · have hs : s.isOpen = false := Bool.eq_false_of_not_eq_true hs
      have hstop : stopAtOpen () s.lba s.index s.bytes = (false, ()) := congrArg (·, ()) hs
      rw [hstop, hs]
      exact ih

/-- The card with a cluster of zeros. -/
def zeroed (g : Geometry) (c : Card) (n : ℕ) : Card := fun l ↦
  if g.clusterLba n ≤ l ∧ l < g.clusterLba n + g.clusterSectors then fun _ ↦ 0#8 else c l

/-- What `free_slot` returns of the directory whose chain starts at `first`. -/
inductive FindsSlot (g : Geometry) (d : Disk) (first : ℕ) : Except FatError (ℕ × ℕ) → Disk → Prop
  | found {s : Slot} (h : d.openSlot g first = some s) (b : Sector) :
      FindsSlot g d first (.ok s.pos) (d.hold b)
  | grown {last new : ℕ} {d' : Disk} (h : d.openSlot g first = none)
      (hlast : (d.chain g first).2 = .ok last) (hnew : new ∈ d.free g)
      (fat : d'.fat = allocated d.fat new (some last)) (area : d'.area = zeroed g d.area new)
      (clean : d'.dirty = false) : FindsSlot g d first (.ok (g.clusterLba new, 0)) d'
  | full (h : d.openSlot g first = none) (free : d.free g = ∅) (b : Sector) :
      FindsSlot g d first (.error .diskFull) (d.hold b)

theorem returns_writeSectors {lba : ℕ} (hlba : g.dataLba ≤ lba) (n s : ℕ) :
    Returns g (Vol.writeSectors lba n s) d (.ok ()) { d with
      area := fun l ↦ if lba + s ≤ l ∧ l < lba + s + n then d.buf else d.area l } := by
  induction n generalizing d s with
  | zero =>
    refine ends_pure ⟨rfl, ?_⟩
    have harea : d.area = fun l ↦ if lba + s ≤ l ∧ l < lba + s + 0 then d.buf else d.area l := by
      funext l
      rw [if_neg (by omega)]
    rw [← harea]
  | succ n ih =>
    refine (returns_writeBuf d (.inr (hlba.trans (Nat.le_add_right _ s)))).bind ?_
    refine (ih (d := d.put (lba + s) d.buf) (s + 1)).mono ?_
    rintro r d' ⟨rfl, rfl⟩
    refine ⟨rfl, ?_⟩
    have harea : (fun l ↦ if lba + (s + 1) ≤ l ∧ l < lba + (s + 1) + n then d.buf
        else (d.put (lba + s) d.buf).area l) =
        fun l ↦ if lba + s ≤ l ∧ l < lba + s + (n + 1) then d.buf else d.area l := by
      funext l
      rw [Disk.put_apply]
      by_cases hl : l = lba + s
      · rw [if_neg (by omega), if_pos hl, if_pos (by omega)]
      · by_cases hin : lba + s ≤ l ∧ l < lba + s + (n + 1)
        · rw [if_pos (by omega), if_pos hin]
        · rw [if_neg (by omega), if_neg hl, if_neg hin]
    change ({ d with area := _, buf := d.buf } : Disk) = _
    rw [← harea]
    rfl

/-- The last cluster of a chain is in use. -/
theorem Disk.behind_last {first last : ℕ} (h : (d.chain g first).2 = .ok last) :
    d.Behind g (some last) := by
  obtain ⟨ns, -, hchain, hlast⟩ := isChain_of_ending h
  have hmem : last ∈ first :: ns := List.mem_of_getLast? hlast
  intro p hp
  rw [Option.mem_some_iff] at hp
  subst hp
  exact ⟨hchain.isCluster_of_mem _ hmem, hchain.entry_ne_zero _ hmem⟩

/-- **`free_slot` finds the first open slot**, or makes the directory longer. -/
theorem ends_freeSlot (hg : g.Laid) (hclean : d.dirty = false) {dir : DirEntry} {last : ℕ}
    (hlast : (d.chain g dir.cluster).2 = .ok last) :
    Disk.Ends g (Vol.freeSlot dir) d (FindsSlot g d dir.cluster) := by
  rw [Vol.freeSlot]
  change Disk.Ends g (Vol.walkSlots dir.cluster stopAtOpen () >>= _) d _
  rw [Vol.walkSlots_eq, Vol.bind_assoc]
  refine (looks_visitSlots (f := stopAtOpen) hclean dir.cluster ()).bind ?_ ?_
  swap
  · rintro e d' ⟨he, -⟩
    cases he
  rintro r _ ⟨hr, b, rfl⟩
  cases hr
  rw [walkChain, feed_stopAtOpen]
  cases hopen : d.openSlot g dir.cluster with
  | some s =>
    change (d.slots g dir.cluster).find? Slot.isOpen = some s at hopen
    rw [Disk.slots] at hopen
    rw [hopen]
    exact ends_pure (.found (by rw [Disk.openSlot, Disk.slots, hopen]) b)
  | none =>
    have hnone := hopen
    rw [Disk.openSlot, Disk.slots] at hnone
    rw [hnone, hlast]
    have hbehind := Disk.behind_last hlast
    refine (ends_allocCluster (d := d.hold b) hg fun p hp ↦ (hbehind p hp).1).bind ?_ ?_
    swap
    · rintro e d' h
      cases h with
      | full hfull => exact .full hopen hfull b
    rintro new d' ⟨hnew⟩
    refine (returns_setBuf _ fun _ ↦ 0#8).bind (ends_gets fun c v hd ↦ ?_)
    have hlba : v.clusterLba new = g.clusterLba new := by rw [hd.geometry]
    have hsectors : v.clusterSectors = g.clusterSectors := by rw [hd.geometry]
    rw [id, hlba, hsectors]
    refine (returns_writeSectors (g.dataLba_le_clusterLba new) _ 0).bind ?_
    refine (returns_flushFat _).bind (ends_pure ?_)
    exact .grown hopen hlast hnew rfl rfl rfl

/-- `write_entry` writes over a slot. -/
theorem returns_writeEntry (d : Disk) {lba : ℕ} (hlba : g.dataLba ≤ lba) (index : ℕ)
    (raw : List Byte) : Returns g (Vol.writeEntry lba index raw) d (.ok ())
      ((d.hold (splice (d.area lba) (index * slotLen) raw)).put lba
        (splice (d.area lba) (index * slotLen) raw)) :=
  returns_update d (.inr hlba) index raw

end Vux9k

import Vux9k.Fat.NewSlot

/-!
# The listing of a changed directory

A slot is 32 bytes of a sector, and what a search sees of a directory depends on these bytes of its
slots alone.  So a slot written over changes the listing in this one place: a new entry in the first
open slot comes between the entries that are there (`calls_insert`).
-/

set_option autoImplicit false

namespace Vux9k

open Vol (Slot Listing)

/-! ## The bytes of a slot -/

/-- The two have the same 32 bytes. -/
def SameBytes (e e' : ℕ → Byte) : Prop := ∀ j < slotLen, e' j = e j

/-- The two slots are at the same place and have the same bytes. -/
structure SameSlots (s s' : Slot) : Prop where
  lba : s'.lba = s.lba
  index : s'.index = s.index
  bytes : SameBytes s.bytes s'.bytes

section Bytes

variable {e e' : ℕ → Byte} (h : SameBytes e e')
include h

theorem SameBytes.at (j : ℕ) (hj : j < 32 := by decide) : e' j = e j := h j hj

theorem SameBytes.le16 {i : ℕ} (hi : i + 1 < 32) : le16 e' i = le16 e i := by
  rw [Vux9k.le16, Vux9k.le16, h.at i (by omega), h.at (i + 1) hi]

theorem SameBytes.ofFn : ShortName.ofFn e' = ShortName.ofFn e := by
  refine Subtype.ext (List.map_congr_left fun j hj ↦ ?_)
  rw [List.mem_range] at hj
  exact h.at j (by omega)

theorem SameBytes.parse (lba index : ℕ) (lfn : Option (ℕ × ℕ)) :
    DirEntry.parse e' lba index lfn = DirEntry.parse e lba index lfn := by
  rw [DirEntry.parse, DirEntry.parse, h.ofFn, h.at 11, h.le16 (by decide : 20 + 1 < 32),
    h.le16 (by decide : 26 + 1 < 32), le32, le32, word, word, h.at 28, h.at 29, h.at 30, h.at 31]

theorem SameBytes.isEntry : IsEntry e' ↔ IsEntry e := by
  have h0 := h.at 0
  have h11 := h.at 11
  exact ⟨fun ⟨a, b, c, d⟩ ↦ ⟨h0 ▸ a, h0 ▸ b, h11 ▸ c, h11 ▸ d⟩,
    fun ⟨a, b, c, d⟩ ↦ ⟨h0 ▸ a, h0 ▸ b, h11 ▸ c, h11 ▸ d⟩⟩

theorem SameBytes.decodeChars {ats : List ℕ} (hats : ∀ i ∈ ats, i + 1 < 32) (k : ℕ)
    (r : ℕ × NameBuf) : decodeChars e' ats k r = decodeChars e ats k r := by
  induction ats generalizing k r with
  | nil => rfl
  | cons i ats ih =>
    rw [Vux9k.decodeChars, Vux9k.decodeChars, h.le16 (hats i List.mem_cons_self)]
    exact ih (fun j hj ↦ hats j (List.mem_cons_of_mem i hj)) _ _

theorem SameBytes.addPart (part : ℕ) (long : Option (ℕ × ℕ)) (b : NameBuf) :
    Vol.addPart e' part long b = Vol.addPart e part long b := by
  have hats : ∀ i ∈ charOffsets, i + 1 < 32 := by decide
  rw [Vol.addPart, Vol.addPart]
  simp only [h.decodeChars hats]

theorem SameBytes.addSlot {τ : Type} (st : Listing τ) (lba i : ℕ) :
    st.addSlot lba i e' = st.addSlot lba i e := by
  rw [Listing.addSlot, Listing.addSlot, h.at 0, h.at 13]
  simp only [h.addPart]

theorem SameBytes.runAt {τ : Type} (st : Listing τ) : st.runAt e' = st.runAt e := by
  rw [Listing.runAt, Listing.runAt, h.ofFn]

theorem SameBytes.entryAt {τ : Type} (st : Listing τ) (lba i : ℕ) :
    st.entryAt lba i e' = st.entryAt lba i e := by
  rw [Listing.entryAt, Listing.entryAt, h.runAt, h.parse]

theorem SameBytes.longAt {τ : Type} (st : Listing τ) : st.longAt e' = st.longAt e := by
  rw [Listing.longAt, Listing.longAt, h.runAt]

end Bytes

theorem SameSlots.step {τ : Type} {s s' : Slot} (h : SameSlots s s') (st : Listing τ) :
    st.step s' = st.step s := by
  rw [Listing.step, Listing.step, h.bytes.at 0, h.bytes.at 11, h.lba, h.index, h.bytes.addSlot]

/-- **What is listed depends on the bytes of the slots.** -/
theorem callsFrom_congr {ss ss' : List Slot} (h : List.Forall₂ SameSlots ss ss')
    (st : Listing Unit) : callsFrom st ss' = callsFrom st ss := by
  induction h generalizing st with
  | nil => rfl
  | cons hs _ ih =>
    have hb := hs.bytes
    rw [callsFrom, callsFrom, hb.at 0, hs.step, ih, hs.lba, hs.index, hb.entryAt, hb.longAt]
    simp only [hb.isEntry]

theorem calls_congr {ss ss' : List Slot} (h : List.Forall₂ SameSlots ss ss') :
    calls ss' = calls ss := by
  rw [calls_eq, calls_eq, callsFrom_congr h]

/-! ## A slot written over -/

theorem Vol.Slot.isOpen_iff {s : Slot} :
    s.isOpen = true ↔ s.bytes 0 = 0#8 ∨ s.bytes 0 = deleted := by
  rw [Slot.isOpen, decide_eq_true_eq]

/-- Slots after the end. -/
theorem callsFrom_ended {ss : List Slot} (h : ∀ s ∈ ss, s.bytes 0 = 0#8) (st : Listing Unit) :
    callsFrom st ss = [] := by
  cases ss with
  | nil => rfl
  | cons s ss => rw [callsFrom, if_pos (h s List.mem_cons_self)]

/-- **A new entry in the first open slot** comes between the entries that are there. -/
theorem calls_insert {pre post : List Slot} {s s' : Slot} (hpre : ∀ t ∈ pre, t.isOpen = false)
    (hopen : s.isOpen = true) (hend : s.bytes 0 = 0#8 → ∀ t ∈ post, t.bytes 0 = 0#8)
    (hentry : IsEntry s'.bytes) :
    ∃ as bs long lfn, calls (pre ++ s :: post) = as ++ bs ∧
      calls (pre ++ s' :: post) =
        as ++ (DirEntry.parse s'.bytes s'.lba s'.index lfn, long) :: bs := by
  have hused : ∀ t ∈ pre, t.bytes 0 ≠ 0#8 := fun t ht h0 ↦ by
    have := hpre t ht
    rw [Slot.isOpen_iff.mpr (.inl h0)] at this
    cases this
  rw [calls_eq, calls_eq, callsFrom_append hused, callsFrom_append hused]
  generalize pre.foldl Listing.step (Listing.start ()) = st
  -- both slots end the name that may be before them
  have hother : ∀ t : Slot, ¬(t.bytes 0 ≠ deleted ∧ t.bytes 11 = attrLfn) →
      st.step t = { st with run := none, long := none } := fun t ht ↦ step_of_other ht st
  have hnew :
      callsFrom st (s' :: post) = (st.entryAt s'.lba s'.index s'.bytes, st.longAt s'.bytes) ::
      callsFrom { st with run := none, long := none } post := by
    rw [callsFrom, if_neg hentry.used, if_pos hentry, hother s' fun h ↦ hentry.notLfn h.2]
  rcases Slot.isOpen_iff.mp hopen with h0 | hdel
  · refine ⟨callsFrom (Listing.start ()) pre, [], st.longAt s'.bytes,
      (st.runAt s'.bytes).map fun r ↦ (r.1, r.2.1), ?_, ?_⟩
    · rw [callsFrom, if_pos h0]
    · rw [hnew, callsFrom_ended (hend h0)]
      rfl
  · have hne : s.bytes 0 ≠ 0#8 := by
      rw [hdel]
      decide
    refine ⟨callsFrom (Listing.start ()) pre, callsFrom { st with run := none, long := none } post,
      st.longAt s'.bytes, (st.runAt s'.bytes).map fun r ↦ (r.1, r.2.1), ?_, ?_⟩
    · rw [callsFrom, if_neg hne, if_neg fun h : IsEntry s.bytes ↦ h.kept hdel,
        hother s fun h ↦ h.1 hdel]
    · rw [hnew]
      rfl

/-- A new entry behind the others. -/
theorem calls_concat {pre post : List Slot} {s' : Slot} (hpre : ∀ t ∈ pre, t.isOpen = false)
    (hpost : ∀ t ∈ post, t.bytes 0 = 0#8) (hentry : IsEntry s'.bytes) :
    ∃ long lfn, calls (pre ++ s' :: post) =
      calls pre ++ [(DirEntry.parse s'.bytes s'.lba s'.index lfn, long)] := by
  have hused : ∀ t ∈ pre, t.bytes 0 ≠ 0#8 := fun t ht h0 ↦ by
    have := hpre t ht
    rw [Slot.isOpen_iff.mpr (.inl h0)] at this
    cases this
  let st := pre.foldl Listing.step (Listing.start ())
  refine ⟨st.longAt s'.bytes, (st.runAt s'.bytes).map fun r ↦ (r.1, r.2.1), ?_⟩
  rw [calls_eq, calls_eq, callsFrom_append hused, callsFrom, if_neg hentry.used, if_pos hentry,
    callsFrom_ended hpost]
  rfl

/-! ## The slots of a disk -/

/-- The slot at a place. -/
def slotAt (c : Card) (p : ℕ × ℕ) : Slot := ⟨p.1, p.2, slotOf (c p.1) p.2⟩

theorem pos_slotAt (c : Card) (p : ℕ × ℕ) : (slotAt c p).pos = p := rfl

/-- The places of a directory's slots. -/
def Disk.positions (g : Geometry) (d : Disk) (first : ℕ) : List (ℕ × ℕ) :=
  (d.chain g first).1.flatMap (clusterPositions g)

theorem clusterSlots_eq (g : Geometry) (c : Card) (n : ℕ) :
    clusterSlots g c n = (clusterPositions g n).map (slotAt c) := by
  rw [clusterSlots, sectorSlots, clusterPositions, List.map_flatMap]
  refine List.flatMap_congr fun s _ ↦ ?_
  rw [slotsFrom, sectorPositions, List.map_map]
  rfl

theorem Disk.slots_eq (g : Geometry) (d : Disk) (first : ℕ) :
    d.slots g first = (d.positions g first).map (slotAt d.area) := by
  rw [Disk.slots, Disk.positions, List.map_flatMap]
  exact List.flatMap_congr fun n _ ↦ clusterSlots_eq g d.area n

/-- The slot written over has the new bytes. -/
theorem slotAt_spliced_self (c : Card) {lba index : ℕ} {raw : List Byte}
    (hraw : raw.length = slotLen) {j : ℕ} (hj : j < slotLen) :
    (slotAt (spliced c lba index raw) (lba, index)).bytes j = raw.getD j 0#8 := by
  change spliced c lba index raw lba (index * slotLen + j) = _
  rw [spliced_apply, if_pos ⟨rfl, by omega, by omega⟩, Nat.add_sub_cancel_left]

/-- The others are as they were. -/
theorem sameSlots_spliced (c : Card) {lba index : ℕ} {raw : List Byte}
    (hraw : raw.length = slotLen) {p : ℕ × ℕ} (hp : p ≠ (lba, index)) :
    SameSlots (slotAt c p) (slotAt (spliced c lba index raw) p) where
  lba := rfl
  index := rfl
  bytes j hj := by
    change spliced c lba index raw p.1 (p.2 * slotLen + j) = c p.1 (p.2 * slotLen + j)
    rw [spliced_apply, if_neg]
    rintro ⟨hlba, hle, hlt⟩
    refine hp (Prod.ext hlba ?_)
    rw [hraw] at hlt
    rw [slotLen] at *
    omega

end Vux9k

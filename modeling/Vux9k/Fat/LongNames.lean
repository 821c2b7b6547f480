import Mathlib.Data.List.Forall2
import Mathlib.Data.List.Induction
import Vux9k.Fat.Slots

/-!
# Long names decode exactly

`list` reads a long name from the run of slots before its entry.  Here the run is a list of slots
anywhere in the directory, with any slots before it: what `list` has captured by then, a run begun
and not ended, or a buffer full of an older name, has no effect on it, and nothing but a whole run
with the entry's checksum gives a name.
-/

set_option autoImplicit false

namespace Vux9k

open Vol (Slot Listing listSlot)

variable {τ : Type}

/-! ## The encoding -/

/-- Character `i` of a long name in its slots: the name's, then a zero, then `0xFFFF`. -/
def longChar (name : List Byte) (i : ℕ) : ℕ :=
  if i = name.length then 0 else (name[i]?.map BitVec.toNat).getD 0xFFFF

/-- Slot `k` of the `p` slots of a long name, whose entry has the checksum `sum`. -/
structure IsLongSlot (name : List Byte) (sum : Byte) (p k : ℕ) (e : ℕ → Byte) : Prop where
  order : e 0 = BitVec.ofNat 8 (if k = p then k + 0x40 else k)
  attr : e 11 = attrLfn
  type : e 12 = 0#8
  sum : e 13 = sum
  first : e 26 = 0#8 ∧ e 27 = 0#8
  chars : ∀ j < 13, le16 e (charOffsets.getD j 0) = longChar name (13 * (k - 1) + j)

/-- How many slots a long name takes. -/
def longSlots (name : List Byte) : ℕ := (name.length + 12) / 13

/-- The numbers `p`, `p - 1`, …, `q + 1`. -/
def partNumbers (p q : ℕ) : List ℕ := (List.range' (q + 1) (p - q)).reverse

/-- The slots are the VFAT encoding of the name. -/
def Encodes (name : List Byte) (sum : Byte) (ss : List Slot) : Prop :=
  List.Forall₂ (fun k s ↦ IsLongSlot name sum (longSlots name) k s.bytes)
    (partNumbers (longSlots name) 0) ss

/-- A long-name slot with part number `k`, the first of a run if it is `p`. -/
structure IsPart (sum : Byte) (p k : ℕ) (e : ℕ → Byte) : Prop where
  attr : e 11 = attrLfn
  part : (e 0 &&& 0x1F#8).toNat = k
  first : k = p → e 0 &&& 0x40#8 ≠ 0#8
  sum : e 13 = sum

/-- The slot holds a file or directory. -/
structure IsEntry (e : ℕ → Byte) : Prop where
  used : e 0 ≠ 0#8
  kept : e 0 ≠ deleted
  notLfn : e 11 ≠ attrLfn
  notVolume : e 11 &&& attrVolume = 0#8

instance (e : ℕ → Byte) : Decidable (IsEntry e) :=
  decidable_of_iff (e 0 ≠ 0#8 ∧ e 0 ≠ deleted ∧ e 11 ≠ attrLfn ∧ e 11 &&& attrVolume = 0#8)
    ⟨fun h ↦ ⟨h.1, h.2.1, h.2.2.1, h.2.2.2⟩, fun h ↦ ⟨h.1, h.2, h.3, h.4⟩⟩

/-! ## What `list` passes -/

/-- What `list` has captured at the start. -/
def Vol.Listing.start (seen : τ) : Listing τ := ⟨.zeros, none, none, none, seen⟩

/-- A closure of the caller that takes no entry, and writes down what it is given. -/
def record (seen : List (DirEntry × Option (List Byte))) (d : DirEntry)
    (long : Option (List Byte)) : Bool × List (DirEntry × Option (List Byte)) :=
  (false, seen ++ [(d, long)])

/-- What `list` passes to such a closure. -/
def calls (ss : List Slot) : List (DirEntry × Option (List Byte)) :=
  (feed (listSlot record) ss (Listing.start [])).2.seen

/-- What a closure has captured when it has been given these until it took one. -/
def present (f : τ → DirEntry → Option (List Byte) → Bool × τ) :
    List (DirEntry × Option (List Byte)) → τ → τ
  | [], t => t
  | (d, long) :: cs, t =>
    match f t d long with
    | (true, t) => t
    | (false, t) => present f cs t

/-! ## The buffer -/

theorem NameBuf.bytes_set {b : NameBuf} {i : ℕ} (hi : i < longNameMax) (c : Byte) :
    (b.set i c).bytes = Function.update b.bytes i c := by
  rw [NameBuf.set, if_pos hi]

theorem NameBuf.overrun_set {b : NameBuf} {i : ℕ} (hi : i < longNameMax) (c : Byte) :
    (b.set i c).overrun = b.overrun := by
  rw [NameBuf.set, if_pos hi]

theorem decodeChars_overrun {e : ℕ → Byte} {ats : List ℕ} {k len : ℕ} {b : NameBuf}
    (hk : k + ats.length ≤ longNameMax) : (decodeChars e ats k (len, b)).2.overrun = b.overrun := by
  induction ats generalizing k len b with
  | nil => rfl
  | cons off ats ih =>
    rw [List.length_cons] at hk
    rw [decodeChars, ih (by omega), NameBuf.overrun_set (by omega)]

theorem decodeChars_le (e : ℕ → Byte) (ats : List ℕ) (k len : ℕ) (b : NameBuf) :
    (decodeChars e ats k (len, b)).1 ≤ len := by
  induction ats generalizing k len b with
  | nil => exact le_rfl
  | cons off ats ih =>
    rw [decodeChars]
    refine (ih _ _ _).trans ?_
    split
    · exact min_le_left _ _
    · exact le_rfl

/-- A part's characters are in the buffer, and the others stay. -/
theorem decodeChars_bytes {e : ℕ → Byte} {ats : List ℕ} {k len : ℕ} {b : NameBuf}
    (hk : k + ats.length ≤ longNameMax) (i : ℕ) :
    (decodeChars e ats k (len, b)).2.bytes i =
      if k ≤ i ∧ i < k + ats.length then asciiChar (le16 e (ats.getD (i - k) 0))
        else b.bytes i := by
  induction ats generalizing k len b with
  | nil =>
    rw [if_neg (by simp)]
    rfl
  | cons off ats ih =>
    rw [List.length_cons] at hk
    rw [decodeChars, ih (by omega), NameBuf.bytes_set (by omega), List.length_cons]
    rcases Nat.lt_trichotomy i k with hi | rfl | hi
    · rw [if_neg (by omega), if_neg (by omega), Function.update_of_ne (by omega)]
    · rw [if_neg (by omega), if_pos (by omega), Function.update_self, Nat.sub_self]
      rfl
    · by_cases hlast : i < k + (ats.length + 1)
      · rw [if_pos (by omega), if_pos (by omega), show i - k = i - (k + 1) + 1 by omega]
        rfl
      · rw [if_neg (by omega), if_neg (by omega), Function.update_of_ne (by omega)]

/-- The name ends at the zero, if the part has it. -/
theorem decodeChars_len {e : ℕ → Byte} {ats : List ℕ} {k len n : ℕ} {b : NameBuf}
    (hzero : ∀ j < ats.length, le16 e (ats.getD j 0) = 0 ↔ k + j = n) :
    (decodeChars e ats k (len, b)).1 = if k ≤ n ∧ n < k + ats.length then min len n else len := by
  induction ats generalizing k len b with
  | nil =>
    rw [if_neg (by simp)]
    rfl
  | cons off ats ih =>
    have hfirst : le16 e off = 0 ↔ k = n := hzero 0 (by simp)
    have hrest : ∀ j < ats.length, le16 e (ats.getD j 0) = 0 ↔ k + 1 + j = n := fun j hj ↦ by
      have := hzero (j + 1) (by simpa using hj)
      rwa [show k + (j + 1) = k + 1 + j by omega] at this
    rw [decodeChars, ih hrest, List.length_cons]
    by_cases hk : k = n
    · rw [if_pos (hfirst.mpr hk), if_neg (by omega), if_pos (by omega), hk]
    · rw [if_neg (mt hfirst.mp hk)]
      by_cases hn : k ≤ n ∧ n < k + (ats.length + 1)
      · rw [if_pos (by omega), if_pos hn]
      · rw [if_neg (by omega), if_neg hn]

theorem times13_eq (n : ℕ) : times13 n = 13 * n := by
  rw [times13, Nat.shiftLeft_eq, Nat.shiftLeft_eq]
  omega

/-! ## A slot after the other -/

/-- What a slot other than the end does to what `list` keeps of names. -/
def Vol.Listing.step (st : Listing τ) (s : Slot) : Listing τ :=
  if s.bytes 0 ≠ deleted ∧ s.bytes 11 = attrLfn then st.addSlot s.lba s.index s.bytes
  else { st with run := none, long := none }

theorem step_of_lfn {s : Slot} (hdel : s.bytes 0 ≠ deleted) (hlfn : s.bytes 11 = attrLfn)
    (st : Listing τ) : st.step s = st.addSlot s.lba s.index s.bytes := by
  rw [Listing.step, if_pos ⟨hdel, hlfn⟩]

theorem step_of_other {s : Slot} (h : ¬(s.bytes 0 ≠ deleted ∧ s.bytes 11 = attrLfn))
    (st : Listing τ) : st.step s = { st with run := none, long := none } := by
  rw [Listing.step, if_neg h]

theorem seen_step (st : Listing τ) (s : Slot) : (st.step s).seen = st.seen := by
  rw [Listing.step]
  split
  · exact st.seen_addSlot s.lba s.index s.bytes
  · rfl

theorem listSlot_eq (f : τ → DirEntry → Option (List Byte) → Bool × τ) (st : Listing τ) (s : Slot) :
    listSlot f st s.lba s.index s.bytes =
      if s.bytes 0 = 0#8 then (true, st)
      else if IsEntry s.bytes then
        (st.step s).offer (st.entryAt s.lba s.index s.bytes)
          (f st.seen (st.entryAt s.lba s.index s.bytes) (st.longAt s.bytes))
      else (false, st.step s) := by
  by_cases h₀ : s.bytes 0 = 0#8
  · rw [listSlot, if_pos h₀, if_pos h₀]
  rw [listSlot, if_neg h₀, if_neg h₀]
  by_cases hdel : s.bytes 0 = deleted
  · rw [if_pos hdel, if_neg fun h : IsEntry s.bytes ↦ h.kept hdel, step_of_other fun h ↦ h.1 hdel]
  rw [if_neg hdel]
  by_cases hlfn : s.bytes 11 = attrLfn
  · rw [if_pos hlfn, if_neg fun h : IsEntry s.bytes ↦ h.notLfn hlfn, step_of_lfn hdel hlfn]
  rw [if_neg hlfn, step_of_other fun h ↦ hlfn h.2]
  dsimp only
  by_cases hvol : s.bytes 11 &&& attrVolume = 0#8
  · rw [if_neg (not_not.mpr hvol), if_pos (⟨h₀, hdel, hlfn, hvol⟩ : IsEntry s.bytes)]
    rfl
  · rw [if_pos hvol, if_neg fun h : IsEntry s.bytes ↦ hvol h.notVolume]

/-- What `list` keeps of names, without the rest. -/
def Vol.Listing.naming (st : Listing τ) : Listing Unit := ⟨st.name, st.run, st.long, none, ()⟩

theorem naming_step (st : Listing τ) (s : Slot) : (st.step s).naming = st.naming.step s := by
  rw [Listing.step, Listing.step]
  split
  · dsimp only [Listing.addSlot, Listing.naming]
    split <;> rfl
  · rfl

/-- The calls for some slots, as far as the end of the directory. -/
def callsFrom (st : Listing Unit) : List Slot → List (DirEntry × Option (List Byte))
  | [] => []
  | s :: ss =>
    if s.bytes 0 = 0#8 then []
    else if IsEntry s.bytes then
      (st.entryAt s.lba s.index s.bytes, st.longAt s.bytes) :: callsFrom (st.step s) ss
    else callsFrom (st.step s) ss

theorem feed_listSlot (f : τ → DirEntry → Option (List Byte) → Bool × τ) (ss : List Slot)
    (st : Listing τ) :
    (feed (listSlot f) ss st).2.seen = present f (callsFrom st.naming ss) st.seen := by
  induction ss generalizing st with
  | nil => rfl
  | cons s ss ih =>
    rw [feed, listSlot_eq, callsFrom]
    by_cases h₀ : s.bytes 0 = 0#8
    · rw [if_pos h₀, if_pos h₀]
      rfl
    rw [if_neg h₀, if_neg h₀]
    by_cases he : IsEntry s.bytes
    · rw [if_pos he, if_pos he, present]
      change _ = match f st.seen (st.entryAt s.lba s.index s.bytes) (st.longAt s.bytes) with
        | (true, t) => t
        | (false, t) => present f (callsFrom (st.naming.step s) ss) t
      obtain ⟨stop, t⟩ := f st.seen (st.entryAt s.lba s.index s.bytes) (st.longAt s.bytes)
      cases stop with
      | true => rfl
      | false =>
        refine (ih _).trans ?_
        exact congrArg (fun n ↦ present f (callsFrom n ss) t) (naming_step st s)
    · rw [if_neg he, if_neg he]
      refine (ih _).trans ?_
      rw [naming_step, seen_step]

theorem present_record (cs seen : List (DirEntry × Option (List Byte))) :
    present record cs seen = seen ++ cs := by
  induction cs generalizing seen with
  | nil => exact (List.append_nil seen).symm
  | cons x cs ih =>
    refine (ih _).trans ?_
    rw [List.append_assoc]
    rfl

theorem calls_eq (ss : List Slot) : calls ss = callsFrom (Listing.start ()) ss :=
  (feed_listSlot record ss (Listing.start [])).trans (present_record _ _)

theorem callsFrom_append {pre : List Slot} (hpre : ∀ s ∈ pre, s.bytes 0 ≠ 0#8) (ss : List Slot)
    (st : Listing Unit) :
    callsFrom st (pre ++ ss) = callsFrom st pre ++ callsFrom (pre.foldl Listing.step st) ss := by
  induction pre generalizing st with
  | nil => rfl
  | cons s pre ih =>
    have h₀ : s.bytes 0 ≠ 0#8 := hpre s List.mem_cons_self
    have ih := ih fun t ht ↦ hpre t (List.mem_cons_of_mem s ht)
    rw [List.cons_append, callsFrom, callsFrom, if_neg h₀, if_neg h₀, ih, List.foldl_cons]
    split
    · rfl
    · rfl

/-- The call for an entry after the slots `pre`. -/
theorem calls_entry {pre : List Slot} {s : Slot} (hpre : ∀ t ∈ pre, t.bytes 0 ≠ 0#8)
    (hs : IsEntry s.bytes) (post : List Slot) :
    ∃ rest, calls (pre ++ s :: post) = calls pre ++
      ((pre.foldl Listing.step (Listing.start ())).entryAt s.lba s.index s.bytes,
        (pre.foldl Listing.step (Listing.start ())).longAt s.bytes) :: rest := by
  refine ⟨callsFrom ((pre.foldl Listing.step (Listing.start ())).step s) post, ?_⟩
  rw [calls_eq, calls_eq, callsFrom_append hpre, callsFrom, if_neg hs.used, if_pos hs]

/-! ## What a name needs -/

/-- What is behind the name `list` has so far: the last slots are the parts of a run down to the
part expected next, all with the run's checksum. -/
def Backed (pre : List Slot) (st : Listing Unit) : Prop :=
  ∀ len q, st.long = some (len, q) → ∃ before parts p r, pre = before ++ parts ∧
    st.run = some r ∧ p ≤ longParts ∧ q < p ∧ len ≤ times13 p ∧
    List.Forall₂ (fun k s ↦ IsPart r.2.2 p k s.bytes) (partNumbers p q) parts

/-- What `list` keeps after the slots `pre`. -/
structure NamesKept (pre : List Slot) (st : Listing Unit) : Prop where
  backed : Backed pre st
  inside : st.name.overrun = false

theorem partNumbers_self (p : ℕ) : partNumbers p p = [] := by
  rw [partNumbers, Nat.sub_self]
  rfl

theorem partNumbers_succ {p q : ℕ} (h : q < p) :
    partNumbers p q = partNumbers p (q + 1) ++ [q + 1] := by
  rw [partNumbers, partNumbers, show p - q = p - (q + 1) + 1 by omega, List.range'_succ,
    List.reverse_cons]

theorem exists_concat_of_forall₂ {α β : Type} {R : α → β → Prop} {l : List α} {a : α} {ss : List β}
    (h : List.Forall₂ R (l ++ [a]) ss) :
    ∃ ss' s, ss = ss' ++ [s] ∧ List.Forall₂ R l ss' ∧ R a s := by
  induction l generalizing ss with
  | nil =>
    cases h with
    | cons hs hnil =>
      cases hnil
      exact ⟨[], _, rfl, .nil, hs⟩
  | cons b l ih =>
    cases h with
    | cons hb h =>
      obtain ⟨ss', s, rfl, hss', hs⟩ := ih h
      exact ⟨_ :: ss', s, rfl, .cons hb hss', hs⟩

theorem namesKept_start : NamesKept [] (Listing.start ()) := ⟨fun _ _ h ↦ (nomatch h), rfl⟩

/-- The part number of a long-name slot. -/
def partOf (e : ℕ → Byte) : ℕ := (e 0 &&& 0x1F#8).toNat

/-- `st` when a long-name slot has been looked at for the start of a run. -/
def Vol.Listing.begun (st : Listing τ) (lba i : ℕ) (e : ℕ → Byte) : Listing τ :=
  if e 0 &&& 0x40#8 ≠ 0#8 ∨ ∀ r ∈ st.run, r.2.2 ≠ e 13 then
    { st with
      run := some (lba, i, e 13)
      long :=
        if e 0 &&& 0x40#8 ≠ 0#8 ∧ 1 ≤ partOf e ∧ partOf e ≤ longParts then
          some (times13 (partOf e), partOf e)
        else none }
  else st

theorem addSlot_eq (st : Listing τ) (lba i : ℕ) (e : ℕ → Byte) :
    st.addSlot lba i e = { st.begun lba i e with
      long := (Vol.addPart e (partOf e) (st.begun lba i e).long (st.begun lba i e).name).1
      name := (Vol.addPart e (partOf e) (st.begun lba i e).long (st.begun lba i e).name).2 } := by
  dsimp only [Listing.addSlot, Listing.begun]
  simp only [decide_eq_true_eq]
  rfl

/-- The name goes on: the slot is the part expected. -/
theorem addPart_some {e : ℕ → Byte} {part len : ℕ} (hpart : part ≠ 0) (b : NameBuf) :
    Vol.addPart e part (some (len, part)) b =
      (some ((decodeChars e charOffsets (times13 (part - 1)) (len, b)).1, part - 1),
        (decodeChars e charOffsets (times13 (part - 1)) (len, b)).2) := by
  simp [Vol.addPart, Option.filter, hpart]

theorem addPart_cases (e : ℕ → Byte) (part : ℕ) (long : Option (ℕ × ℕ)) (b : NameBuf) :
    Vol.addPart e part long b = (none, b) ∨ part ≠ 0 ∧ ∃ len, long = some (len, part) := by
  rcases long with _ | ⟨len, q⟩
  · exact .inl rfl
  by_cases h : part ≠ 0 ∧ q = part
  · exact .inr ⟨h.1, len, by rw [h.2]⟩
  · refine .inl ?_
    simp [Vol.addPart, Option.filter, h]

/-- The name a slot begins or goes on with is a run's, down to the slot's own part. -/
theorem NamesKept.begun {pre : List Slot} {st : Listing Unit} (h : NamesKept pre st) {s : Slot}
    (hlfn : s.bytes 11 = attrLfn) {len : ℕ}
    (hlong : (st.begun s.lba s.index s.bytes).long = some (len, partOf s.bytes)) :
    ∃ before parts p r, pre ++ [s] = before ++ parts ∧
      (st.begun s.lba s.index s.bytes).run = some r ∧ p ≤ longParts ∧ partOf s.bytes ≤ p ∧
      len ≤ times13 p ∧
      (partOf s.bytes ≠ 0 → List.Forall₂ (fun k s ↦ IsPart r.2.2 p k s.bytes)
        (partNumbers p (partOf s.bytes - 1)) parts) := by
  rw [Listing.begun] at hlong ⊢
  by_cases hnew : s.bytes 0 &&& 0x40#8 ≠ 0#8 ∨ ∀ r ∈ st.run, r.2.2 ≠ s.bytes 13
  · rw [if_pos hnew] at hlong ⊢
    dsimp only at hlong ⊢
    by_cases hok : s.bytes 0 &&& 0x40#8 ≠ 0#8 ∧ 1 ≤ partOf s.bytes ∧ partOf s.bytes ≤ longParts
    · rw [if_pos hok] at hlong
      cases hlong
      refine ⟨pre, [s], partOf s.bytes, _, rfl, rfl, hok.2.2, le_rfl, le_rfl, fun h₀ ↦ ?_⟩
      rw [partNumbers_succ (by omega), Nat.sub_add_cancel (by omega), partNumbers_self]
      exact .cons ⟨hlfn, rfl, fun _ ↦ hok.1, rfl⟩ .nil
    · rw [if_neg hok] at hlong
      cases hlong
  · rw [if_neg hnew] at hlong ⊢
    obtain ⟨before, parts, p, r, rfl, hrun, hp, hq, hlen, hparts⟩ := h.backed _ _ hlong
    have hsum : r.2.2 = s.bytes 13 := by
      by_contra hne
      refine hnew (.inr fun r' hr' ↦ ?_)
      rw [hrun] at hr'
      cases hr'
      exact hne
    refine ⟨before, parts ++ [s], p, r, by simp, hrun, hp, hq.le, hlen, fun h₀ ↦ ?_⟩
    rw [partNumbers_succ (by omega), Nat.sub_add_cancel (by omega)]
    refine List.rel_append hparts (.cons ⟨hlfn, rfl, fun hk ↦ ?_, hsum.symm⟩ .nil)
    omega

theorem NamesKept.step {pre : List Slot} {st : Listing Unit} (h : NamesKept pre st) (s : Slot) :
    NamesKept (pre ++ [s]) (st.step s) := by
  by_cases hlfn : s.bytes 0 ≠ deleted ∧ s.bytes 11 = attrLfn
  swap
  · rw [step_of_other hlfn]
    exact ⟨fun _ _ hl ↦ (nomatch hl), h.inside⟩
  rw [step_of_lfn hlfn.1 hlfn.2, addSlot_eq]
  have hname : (st.begun s.lba s.index s.bytes).name = st.name := by
    rw [Listing.begun]
    split <;> rfl
  rcases addPart_cases s.bytes (partOf s.bytes) (st.begun s.lba s.index s.bytes).long
    (st.begun s.lba s.index s.bytes).name with hnone | ⟨hpart, len, hlong⟩
  · rw [hnone]
    refine ⟨fun _ _ hl ↦ (nomatch hl), ?_⟩
    dsimp only
    rw [hname]
    exact h.inside
  · obtain ⟨before, parts, p, r, hpre, hrun, hp, hle, hlen, hparts⟩ := h.begun hlfn.2 hlong
    rw [hlong, addPart_some hpart]
    refine ⟨?_, ?_⟩
    · rintro len' q' hl
      cases hl
      exact ⟨before, parts, p, r, hpre, hrun, hp, by omega, (decodeChars_le _ _ _ _ _).trans hlen,
        hparts hpart⟩
    · dsimp only
      rw [decodeChars_overrun, hname]
      · exact h.inside
      · rw [times13_eq]
        unfold longParts at hp
        simp only [charOffsets, List.length_cons, List.length_nil, longNameMax]
        omega

/-- **What `list` keeps is always backed by the slots before**, and inside its buffer. -/
theorem namesKept_foldl (pre : List Slot) :
    NamesKept pre (pre.foldl Listing.step (Listing.start ())) := by
  induction pre using List.reverseRec with
  | nil => exact namesKept_start
  | append_singleton pre s ih =>
    rw [List.foldl_append]
    exact ih.step s

/-! ## What a name's slots give -/

/-- A name that has a standard encoding and no character that would read as `?`. -/
structure Printable (name : List Byte) : Prop where
  pos : 0 < name.length
  short : name.length ≤ 255
  ascii : ∀ c ∈ name, 0x20 ≤ c.toNat ∧ c.toNat ≤ 0x7E

variable {name : List Byte} {sum : Byte}

theorem Printable.longChar_eq_zero (hn : Printable name) {i : ℕ} :
    longChar name i = 0 ↔ i = name.length := by
  rw [longChar]
  by_cases hi : i = name.length
  · rw [if_pos hi]
    exact ⟨fun _ ↦ hi, fun _ ↦ rfl⟩
  rw [if_neg hi]
  rcases Nat.lt_or_ge i name.length with hlt | hge
  · have := (hn.ascii name[i] (List.getElem_mem hlt)).1
    rw [List.getElem?_eq_getElem hlt]
    simp only [Option.map_some, Option.getD_some]
    omega
  · rw [List.getElem?_eq_none hge]
    simp [hi]

theorem Printable.asciiChar_longChar (hn : Printable name) {i : ℕ} (hi : i < name.length) :
    asciiChar (longChar name i) = name[i] := by
  have hascii := hn.ascii name[i] (List.getElem_mem hi)
  rw [longChar, if_neg (by omega), List.getElem?_eq_getElem hi, Option.map_some, Option.getD_some,
    asciiChar, if_pos hascii, BitVec.ofNat_toNat, BitVec.setWidth_eq]

theorem Printable.slots (hn : Printable name) :
    13 * (longSlots name - 1) < name.length ∧ name.length ≤ 13 * longSlots name ∧
      0 < longSlots name ∧ longSlots name ≤ longParts := by
  have := hn.pos
  have := hn.short
  unfold longSlots longParts
  omega

/-- The order byte of slot `k` of `p`. -/
theorem order_facts : ∀ k < 21, 0 < k →
    (BitVec.ofNat 8 (k + 0x40) &&& 0x1F#8).toNat = k ∧ (BitVec.ofNat 8 k &&& 0x1F#8).toNat = k ∧
      BitVec.ofNat 8 (k + 0x40) &&& 0x40#8 ≠ 0#8 ∧ BitVec.ofNat 8 k &&& 0x40#8 = 0#8 ∧
      BitVec.ofNat 8 (k + 0x40) ≠ deleted ∧ BitVec.ofNat 8 k ≠ deleted := by
  decide

section Slot

variable {p k : ℕ} {s : Slot} (hs : IsLongSlot name sum p k s.bytes) (hk : 0 < k)
  (hp : k ≤ p) (hmax : p ≤ longParts)
include hs hk hp hmax

theorem IsLongSlot.partOf_eq : partOf s.bytes = k := by
  have hfacts := order_facts k (by unfold longParts at hmax; omega) hk
  rw [partOf, hs.order]
  split
  · exact hfacts.1
  · exact hfacts.2.1

theorem IsLongSlot.starts_iff : s.bytes 0 &&& 0x40#8 ≠ 0#8 ↔ k = p := by
  have hfacts := order_facts k (by unfold longParts at hmax; omega) hk
  rw [hs.order]
  by_cases h : k = p
  · rw [if_pos h]
    exact ⟨fun _ ↦ h, fun _ ↦ hfacts.2.2.1⟩
  · rw [if_neg h]
    exact ⟨fun hne ↦ absurd hfacts.2.2.2.1 hne, fun h' ↦ absurd h' h⟩

theorem IsLongSlot.kept : s.bytes 0 ≠ deleted := by
  have hfacts := order_facts k (by unfold longParts at hmax; omega) hk
  rw [hs.order]
  split
  · exact hfacts.2.2.2.2.1
  · exact hfacts.2.2.2.2.2

end Slot

/-- The name as far as its slots `p`, …, `q + 1` spell it. -/
structure Spelled (name : List Byte) (sum : Byte) (q : ℕ) (st : Listing Unit) : Prop where
  run : ∃ r, st.run = some r ∧ r.2.2 = sum
  long : st.long = some (name.length, q)
  bytes : ∀ i (hi : i < name.length), 13 * q ≤ i → st.name.bytes i = name[i]

/-- The characters of slot `k`, after those of the slots before it. -/
theorem IsLongSlot.decode (hn : Printable name) {k : ℕ} {s : Slot}
    (hs : IsLongSlot name sum (longSlots name) k s.bytes) (hk : 0 < k) (hp : k ≤ longSlots name)
    {len : ℕ} {b : NameBuf}
    (hlen : len = if k = longSlots name then 13 * k else name.length)
    (hb : ∀ i (hi : i < name.length), 13 * k ≤ i → b.bytes i = name[i]) :
    (decodeChars s.bytes charOffsets (times13 (k - 1)) (len, b)).1 = name.length ∧
      ∀ i (hi : i < name.length), 13 * (k - 1) ≤ i →
        (decodeChars s.bytes charOffsets (times13 (k - 1)) (len, b)).2.bytes i = name[i] := by
  obtain ⟨hlow, hhigh, -, hmax⟩ := hn.slots
  unfold longParts at hmax
  rw [times13_eq]
  have hsize : charOffsets.length = 13 := rfl
  refine ⟨?_, fun i hi hki ↦ ?_⟩
  · rw [decodeChars_len (n := name.length), hsize]
    · by_cases hlast : k = longSlots name
      · rw [if_pos hlast] at hlen
        by_cases hend : 13 * (k - 1) ≤ name.length ∧ name.length < 13 * (k - 1) + 13
        · rw [if_pos hend]
          omega
        · rw [if_neg hend]
          omega
      · rw [if_neg hlast] at hlen
        rw [if_neg (by omega), hlen]
    · intro j hj
      rw [hsize] at hj
      rw [hs.chars j hj]
      exact hn.longChar_eq_zero
  · rw [decodeChars_bytes (by rw [hsize]; unfold longNameMax; omega), hsize]
    by_cases hin : 13 * (k - 1) ≤ i ∧ i < 13 * (k - 1) + 13
    · rw [if_pos hin, hs.chars _ (by omega), Nat.add_sub_cancel' hki]
      exact hn.asciiChar_longChar hi
    · rw [if_neg hin]
      exact hb i hi (by omega)

/-- The slot spells its part, when it is the part expected. -/
theorem IsLongSlot.spelled (hn : Printable name) {k l : ℕ} {s : Slot} {st : Listing Unit}
    (hs : IsLongSlot name sum (longSlots name) k s.bytes) (hk : 0 < k) (hp : k ≤ longSlots name)
    (hrun : ∃ r, (st.begun s.lba s.index s.bytes).run = some r ∧ r.2.2 = sum)
    (hlong : (st.begun s.lba s.index s.bytes).long = some (l, k))
    (hlen : l = if k = longSlots name then 13 * k else name.length)
    (hb : ∀ i (hi : i < name.length), 13 * k ≤ i →
      (st.begun s.lba s.index s.bytes).name.bytes i = name[i]) :
    Spelled name sum (k - 1) (st.step s) := by
  have hmax := hn.slots.2.2.2
  have hdec := hs.decode hn hk hp hlen hb
  rw [step_of_lfn (hs.kept hk hp hmax) hs.attr, addSlot_eq, hs.partOf_eq hk hp hmax, hlong,
    addPart_some hk.ne']
  refine ⟨hrun, ?_, hdec.2⟩
  dsimp only
  rw [hdec.1]

/-- The first slot of a name starts it, whatever came before. -/
theorem IsLongSlot.spelled_first (hn : Printable name) {s : Slot}
    (hs : IsLongSlot name sum (longSlots name) (longSlots name) s.bytes) (st : Listing Unit) :
    Spelled name sum (longSlots name - 1) (st.step s) := by
  obtain ⟨-, hhigh, hpos, hmax⟩ := hn.slots
  have hstart := (hs.starts_iff hpos le_rfl hmax).mpr rfl
  have hpart := hs.partOf_eq hpos le_rfl hmax
  have hbegun : st.begun s.lba s.index s.bytes = { st with
      run := some (s.lba, s.index, s.bytes 13)
      long := some (times13 (longSlots name), longSlots name) } := by
    rw [Listing.begun, if_pos (.inl hstart), hpart, if_pos ⟨hstart, hpos, hmax⟩]
  refine hs.spelled hn (l := 13 * longSlots name) hpos le_rfl ?_ ?_ ?_ ?_
  · rw [hbegun]
    exact ⟨_, rfl, hs.sum⟩
  · rw [hbegun, times13_eq]
  · rw [if_pos rfl]
  · intro i hi hge
    omega

/-- The slots after it go on. -/
theorem IsLongSlot.spelled_next (hn : Printable name) {q : ℕ} {s : Slot} {st : Listing Unit}
    (hs : IsLongSlot name sum (longSlots name) (q + 1) s.bytes) (hq : q + 1 < longSlots name)
    (hst : Spelled name sum (q + 1) st) : Spelled name sum q (st.step s) := by
  have hmax := hn.slots.2.2.2
  have hstart := mt (hs.starts_iff q.succ_pos hq.le hmax).mp hq.ne
  obtain ⟨r, hrun, hsum⟩ := hst.run
  have hbegun : st.begun s.lba s.index s.bytes = st := by
    rw [Listing.begun, if_neg]
    rintro (h | h)
    · exact hstart h
    · exact h r hrun (hsum.trans hs.sum.symm)
  refine hs.spelled hn (l := name.length) q.succ_pos hq.le ?_ ?_ ?_ ?_
  · rw [hbegun]
    exact hst.run
  · rw [hbegun]
    exact hst.long
  · rw [if_neg hq.ne]
  · rw [hbegun]
    exact hst.bytes

theorem spelled_foldl (hn : Printable name) (st : Listing Unit) {n q : ℕ} {ss : List Slot}
    (hq : q + 1 + n = longSlots name)
    (hss : List.Forall₂ (fun k s ↦ IsLongSlot name sum (longSlots name) k s.bytes)
      (partNumbers (longSlots name) q) ss) :
    Spelled name sum q (ss.foldl Listing.step st) := by
  induction n generalizing q ss with
  | zero =>
    rw [partNumbers_succ (by omega), show q + 1 = longSlots name by omega, partNumbers_self,
      List.nil_append] at hss
    cases hss with
    | cons hs hnil =>
      cases hnil
      have := hs.spelled_first hn st
      rwa [show longSlots name - 1 = q by omega] at this
  | succ n ih =>
    rw [partNumbers_succ (by omega)] at hss
    obtain ⟨ss', s, rfl, hss', hs⟩ := exists_concat_of_forall₂ hss
    rw [List.foldl_append]
    exact hs.spelled_next hn (by omega) (ih (by omega) hss')

/-- **The slots of a name give the name.** -/
theorem longAt_of_encodes (hn : Printable name) (st : Listing Unit) {ss : List Slot}
    (hss : Encodes name sum ss) {e : ℕ → Byte} (he : checksum (ShortName.ofFn e).1 = sum) :
    (ss.foldl Listing.step st).longAt e = some name := by
  obtain ⟨-, -, hpos, -⟩ := hn.slots
  have hspell := spelled_foldl hn st (n := longSlots name - 1) (q := 0) (by omega) hss
  obtain ⟨r, hrun, hsum⟩ := hspell.run
  have hat : (ss.foldl Listing.step st).runAt e = some r := by
    rw [Listing.runAt, hrun, Option.filter_some, if_pos (by simp [hsum, he])]
  rw [Listing.longAt, hat, hspell.long]
  refine (if_pos hn.pos).trans (congrArg some ?_)
  refine List.ext_getElem (by simp [NameBuf.take]) fun i h₁ h₂ ↦ ?_
  simp only [NameBuf.take, bytesOf, List.getElem_map, List.getElem_range]
  exact hspell.bytes i h₂ (Nat.zero_le i)

/-- **A name comes from a whole run with the entry's checksum.** -/
theorem NamesKept.of_longAt {pre : List Slot} {st : Listing Unit} (h : NamesKept pre st)
    {e : ℕ → Byte}
    {long : List Byte} (hlong : st.longAt e = some long) :
    long.length ≤ longNameMax ∧ ∃ before parts p, pre = before ++ parts ∧ 1 ≤ p ∧ p ≤ longParts ∧
      List.Forall₂ (fun k s ↦ IsPart (checksum (ShortName.ofFn e).1) p k s.bytes)
        (partNumbers p 0) parts := by
  rw [Listing.longAt] at hlong
  cases hr : st.runAt e with
  | none =>
    rw [hr] at hlong
    cases hlong
  | some r =>
    rcases hl : st.long with _ | ⟨len, _ | q⟩
    · rw [hr, hl] at hlong
      cases hlong
    · obtain ⟨before, parts, p, r', hpre, hrun, hp, hq, hlen, hparts⟩ := h.backed len 0 hl
      have hsum : r'.2.2 = checksum (ShortName.ofFn e).1 := by
        rw [Listing.runAt, hrun, Option.filter_eq_some_iff] at hr
        rw [Option.some.inj hr.1]
        exact of_decide_eq_true hr.2
      rw [hsum] at hparts
      refine ⟨?_, before, parts, p, hpre, hq, hp, hparts⟩
      rw [hr, hl] at hlong
      have hpos : 0 < len := by
        by_contra hno
        exact absurd ((if_neg hno).symm.trans hlong) nofun
      obtain rfl : st.name.take len = long := Option.some.inj ((if_pos hpos).symm.trans hlong)
      rw [times13_eq] at hlen
      unfold longParts at hp
      simp only [NameBuf.take, length_bytesOf, longNameMax]
      omega
    · rw [hr, hl] at hlong
      cases hlong

/-! ## Every directory -/

/-- What `list` has captured of names is what some of the slots have left. -/
theorem exists_naming_feed (f : τ → DirEntry → Option (List Byte) → Bool × τ) (ss : List Slot)
    (st : Listing τ) :
    ∃ n, (feed (listSlot f) ss st).2.naming = (ss.take n).foldl Listing.step st.naming := by
  induction ss generalizing st with
  | nil => exact ⟨0, rfl⟩
  | cons s ss ih =>
    rw [feed, listSlot_eq]
    by_cases h₀ : s.bytes 0 = 0#8
    · rw [if_pos h₀]
      exact ⟨0, rfl⟩
    rw [if_neg h₀]
    by_cases he : IsEntry s.bytes
    · rw [if_pos he]
      obtain ⟨stop, t⟩ := f st.seen (st.entryAt s.lba s.index s.bytes) (st.longAt s.bytes)
      cases stop with
      | true => exact ⟨1, naming_step st s⟩
      | false =>
        obtain ⟨n, hn⟩ := ih { st.step s with seen := t }
        refine ⟨n + 1, hn.trans ?_⟩
        rw [List.take_succ_cons, List.foldl_cons, ← naming_step]
        rfl
    · rw [if_neg he]
      obtain ⟨n, hn⟩ := ih (st.step s)
      refine ⟨n + 1, hn.trans ?_⟩
      rw [List.take_succ_cons, List.foldl_cons, ← naming_step]

theorem NamesKept.callsFrom_short {pre ss : List Slot} {st : Listing Unit} (h : NamesKept pre st)
    {call : DirEntry × Option (List Byte)} (hcall : call ∈ callsFrom st ss) {long : List Byte}
    (hlong : call.2 = some long) : long.length ≤ longNameMax := by
  induction ss generalizing pre st with
  | nil => cases hcall
  | cons s ss ih =>
    rw [callsFrom] at hcall
    split at hcall
    · cases hcall
    split at hcall
    · rcases List.mem_cons.mp hcall with rfl | hcall
      · exact (h.of_longAt hlong).1
      · exact ih (h.step s) hcall
    · exact ih (h.step s) hcall

theorem peeks_list {c : Card} {v : Volume} {dir : DirEntry} (h : Sound c v)
    (hdir : dir.isDir = true) (f : τ → DirEntry → Option (List Byte) → Bool × τ) (seen : τ) :
    ∃ r, Peeks c v (Vol.list dir f seen)
      (.ok (r, present f (calls (dirSlots c v dir.cluster)) seen)) := by
  have hseen := feed_listSlot f (dirSlots c v dir.cluster) (Listing.start seen)
  have hwalk := peeks_visitSlots (f := listSlot f) h dir.cluster (Listing.start seen)
  have hst := snd_walkChain (f := listSlot f) v.toGeometry c
    (chainFrom v.toGeometry (v.entry c) v.clusterEnd dir.cluster) (Listing.start seen)
  rcases hwalk' : walkChain (listSlot f) v.toGeometry c
    (chainFrom v.toGeometry (v.entry c) v.clusterEnd dir.cluster) (Listing.start seen) with ⟨r, st⟩
  rw [hwalk'] at hwalk hst
  have hpres : st.seen = present f (calls (dirSlots c v dir.cluster)) seen := by
    rw [calls_eq]
    exact (congrArg Listing.seen hst).trans hseen
  rw [Vol.list, if_neg (not_not.mpr hdir), ← hpres]
  cases r with
  | ok _ => exact ⟨.ok st.found, hwalk.bind fun c₁ v₁ h₁ ↦ peeks_pure h₁.sound _⟩
  | error e => exact ⟨.error e, hwalk.bind fun c₁ v₁ h₁ ↦ peeks_pure h₁.sound _⟩

/-- **Long names decode exactly**: `list` passes its closure, in the order of the directory's chain
and until it takes one, the entries with their long names (`calls`); the VFAT encoding of a name
right before an entry gives that name, and only a whole run of long-name slots with the entry's
checksum gives a name at all.  Whatever the slots hold, the buffer is written inside its bounds and
no name is longer than it. -/
theorem list_long_names {c : Card} {v : Volume} {dir : DirEntry} (h : Sound c v)
    (hdir : dir.isDir = true) :
    (∀ (τ : Type) (f : τ → DirEntry → Option (List Byte) → Bool × τ) (seen : τ), ∃ r v' ws,
      onCard (Vol.list dir f seen v) c =
        ((.ok (r, present f (calls (dirSlots c v dir.cluster)) seen), v'), ws)) ∧
    (∀ pre s post, dirSlots c v dir.cluster = pre ++ s :: post →
      (∀ t ∈ pre, t.bytes 0 ≠ 0#8) → IsEntry s.bytes → ∃ d long rest,
        calls (dirSlots c v dir.cluster) = calls pre ++ (d, long) :: rest ∧
        d.lba = s.lba ∧ d.index = s.index ∧ d.name = .ofFn s.bytes ∧
        (∀ name before parts, pre = before ++ parts → Printable name →
          Encodes name (checksum d.name.1) parts → long = some name) ∧
        ∀ name, long = some name → ∃ before parts p, pre = before ++ parts ∧ 1 ≤ p ∧
          p ≤ longParts ∧ List.Forall₂ (fun k s ↦ IsPart (checksum d.name.1) p k s.bytes)
            (partNumbers p 0) parts) ∧
    ∀ ss : List Slot,
      (∀ (τ : Type) (f : τ → DirEntry → Option (List Byte) → Bool × τ) (seen : τ),
        (feed (listSlot f) ss (Listing.start seen)).2.name.overrun = false) ∧
      ∀ call ∈ calls ss, ∀ name, call.2 = some name → name.length ≤ longNameMax := by
  refine ⟨fun τ f seen ↦ ?_, fun pre s post hsplit hpre hs ↦ ?_, fun ss ↦ ⟨fun τ f seen ↦ ?_, ?_⟩⟩
  · obtain ⟨r, v', ws, hrun, -⟩ := peeks_list h hdir f seen
    exact ⟨r, v', ws, hrun⟩
  · obtain ⟨rest, hrest⟩ := calls_entry hpre hs post
    refine ⟨_, _, rest, hsplit ▸ hrest, rfl, rfl, rfl, ?_, ?_⟩
    · rintro name before parts rfl hn henc
      rw [List.foldl_append]
      exact longAt_of_encodes hn _ henc rfl
    · intro name hname
      exact ((namesKept_foldl pre).of_longAt hname).2
  · obtain ⟨n, hn⟩ := exists_naming_feed f ss (Listing.start seen)
    have hkept := (namesKept_foldl (ss.take n)).inside
    exact (congrArg (fun st : Listing Unit ↦ st.name.overrun) hn).trans hkept
  · intro call hcall name hname
    rw [calls_eq] at hcall
    exact namesKept_start.callsFrom_short hcall hname

/-- `Hello.txt`. -/
def helloName : List Byte :=
  [0x48#8, 0x65#8, 0x6C#8, 0x6C#8, 0x6F#8, 0x2E#8, 0x74#8, 0x78#8, 0x74#8]

/-- `HELLO   TXT`. -/
def helloShort : List Byte :=
  [0x48#8, 0x45#8, 0x4C#8, 0x4C#8, 0x4F#8, 0x20#8, 0x20#8, 0x20#8, 0x54#8, 0x58#8, 0x54#8]

/-- Its long-name slot and its entry. -/
def helloDir : List Byte :=
  [0x41#8, 0x48#8, 0#8, 0x65#8, 0#8, 0x6C#8, 0#8, 0x6C#8, 0#8, 0x6F#8, 0#8, 0x0F#8, 0#8,
    checksum helloShort, 0x2E#8, 0#8, 0x74#8, 0#8, 0x78#8, 0#8, 0x74#8, 0#8, 0#8, 0#8, 0xFF#8,
    0xFF#8,
    0#8, 0#8, 0xFF#8, 0xFF#8, 0xFF#8, 0xFF#8] ++ helloShort ++ [0x20#8] ++ List.replicate 20 0#8

/-- A card whose FAT is sector 1 and whose only cluster, the directory, is sector 2. -/
def helloCard : Card := fun lba ↦
  if lba = 1 then ofBytes (List.replicate 8 0#8 ++ [0xFF#8, 0xFF#8, 0xFF#8, 0x0F#8])
  else if lba = 2 then ofBytes helloDir
  else fun _ ↦ 0#8

/-- The volume on it, as `mount` leaves it. -/
def helloVolume : Volume where
  partLba := 0
  fatLba := 1
  fatSectors := 1
  numFats := 1
  dataLba := 2
  clusterShift := 0
  clusterEnd := 3
  root := 2
  fsinfoLba := 0
  buf := fun _ ↦ 0#8
  fatBuf := fun _ ↦ 0#8
  fatCached := noSector
  fatDirty := false
  nextFree := 2
  fsinfoDone := false

theorem sound_hello : Sound helloCard helloVolume where
  laid := ⟨⟨by decide⟩, by decide, by decide, by decide, by decide⟩
  clean _ hne := absurd rfl hne
  dirty := nofun

theorem list_long_names_hello :
    Sound helloCard helloVolume ∧ (DirEntry.root 2).isDir = true ∧
    ∃ d rest, calls (dirSlots helloCard helloVolume 2) = (d, some helloName) :: rest ∧
      d.name.1 = helloShort := by
  refine ⟨sound_hello, by decide, ?_⟩
  have hnames := (@list_long_names _ _ (.root 2) sound_hello (by decide)).2.1
    [⟨2, 0, slotOf (helloCard 2) 0⟩] ⟨2, 1, slotOf (helloCard 2) 1⟩
    (slotsFrom (helloCard 2) 2 2 14) rfl (by decide) ⟨by decide, by decide, by decide, by decide⟩
  obtain ⟨d, long, rest, hcalls, -, -, hname, henc, -⟩ := hnames
  have hshort : d.name.1 = helloShort := by
    rw [hname]
    decide
  have hlong : long = some helloName := by
    refine henc helloName [] _ rfl ⟨by decide, by decide, by decide⟩ ?_
    rw [hshort]
    exact .cons ⟨by decide, by decide, by decide, by decide, by decide, by decide⟩ .nil
  refine ⟨d, rest, ?_, hshort⟩
  rw [← hlong]
  exact hcalls

end Vux9k

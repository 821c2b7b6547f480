import Vux9k.Fat.Create

/-!
# Entries deleted and renamed

`delete_slots` of `fw_common/src/fat/write.rs` takes an entry out of the listing of its directory
and leaves the others there as they are, with their long names; `rename` gives it another name in
its place.
-/

set_option autoImplicit false

namespace Vux9k

open Vol (Slot Listing)

variable {g : Geometry} {d d' : Disk}

/-! ## Listings that go on in the same way -/

/-- What is listed next is the same after both: they differ in no byte of a name that is still to be
read. -/
structure Vol.Listing.Alike (st st' : Listing Unit) : Prop where
  run : st'.run = st.run
  long : st'.long = st.long
  name : ∀ len q, st.long = some (len, q) →
    q ≤ longParts ∧ ∀ i, 13 * q ≤ i → i < len → st'.name.bytes i = st.name.bytes i

section Alike

variable {st st' : Listing Unit} (h : st.Alike st')
include h

theorem Vol.Listing.Alike.entryAt (lba i : ℕ) (e : ℕ → Byte) :
    st'.entryAt lba i e = st.entryAt lba i e := by
  rw [Listing.entryAt, Listing.entryAt, Listing.runAt, Listing.runAt, h.run]

theorem Vol.Listing.Alike.longAt (e : ℕ → Byte) : st'.longAt e = st.longAt e := by
  rw [Listing.longAt, Listing.longAt, Listing.runAt, Listing.runAt, h.run, h.long]
  rcases hlong : st.long with _ | ⟨len, q⟩
  · cases st.run.filter fun r ↦ r.2.2 = checksum (ShortName.ofFn e).1 <;> rfl
  cases st.run.filter fun r ↦ r.2.2 = checksum (ShortName.ofFn e).1 with
  | none => rfl
  | some r =>
    cases q with
    | succ q => rfl
    | zero =>
      have htake : st'.name.take len = st.name.take len :=
        List.map_congr_left
          fun i hi ↦ (h.name len 0 hlong).2 i (Nat.zero_le i) (List.mem_range.mp hi)
      rw [longNameOf, longNameOf, htake]

theorem Vol.Listing.Alike.begun (lba i : ℕ) (e : ℕ → Byte) :
    (st.begun lba i e).Alike (st'.begun lba i e) := by
  rw [Listing.begun, Listing.begun, h.run]
  split
  swap
  · exact h
  refine ⟨rfl, rfl, fun len q hlong ↦ ?_⟩
  dsimp only at hlong
  split at hlong
  swap
  · cases hlong
  rename_i hok
  cases hlong
  refine ⟨hok.2.2, fun j hj hlt ↦ ?_⟩
  rw [times13_eq] at hlt
  omega

/-- A slot more. -/
theorem Vol.Listing.Alike.step (s : Slot) : (st.step s).Alike (st'.step s) := by
  by_cases hlfn : s.bytes 0 ≠ deleted ∧ s.bytes 11 = attrLfn
  swap
  · rw [step_of_other hlfn, step_of_other hlfn]
    exact ⟨rfl, rfl, by simp⟩
  rw [step_of_lfn hlfn.1 hlfn.2, step_of_lfn hlfn.1 hlfn.2, addSlot_eq, addSlot_eq]
  have hb := h.begun s.lba s.index s.bytes
  generalize st.begun s.lba s.index s.bytes = b at hb ⊢
  generalize st'.begun s.lba s.index s.bytes = b' at hb ⊢
  rw [hb.long]
  rcases hlong : b.long with _ | ⟨len, q⟩
  · exact ⟨hb.run, rfl, by simp [Vol.addPart]⟩
  by_cases hq : partOf s.bytes ≠ 0 ∧ q = partOf s.bytes
  swap
  · have hnone : ∀ n, Vol.addPart s.bytes (partOf s.bytes) (some (len, q)) n = (none, n) :=
      fun n ↦ by
      simp [Vol.addPart, Option.filter, hq]
    simp only [hnone]
    exact ⟨hb.run, rfl, by simp⟩
  -- the part expected: both write the same bytes, below those of the parts before
  obtain ⟨hpart, rfl⟩ := hq
  obtain ⟨hmax, hsame⟩ := hb.name len _ hlong
  rw [addPart_some hpart, addPart_some hpart]
  have hlen : ∀ (ats : List ℕ) (k l : ℕ) (n n' : NameBuf),
      (decodeChars s.bytes ats k (l, n')).1 = (decodeChars s.bytes ats k (l, n)).1 := by
    intro ats
    induction ats with
    | nil => exact fun _ _ _ _ ↦ rfl
    | cons off ats ih => exact fun k l n n' ↦ ih _ _ _ _
  have hfits : times13 (partOf s.bytes - 1) + charOffsets.length ≤ longNameMax := by
    rw [times13_eq]
    simp only [charOffsets, List.length_cons, List.length_nil, longNameMax]
    rw [longParts] at hmax
    omega
  refine ⟨hb.run, congrArg (fun l ↦ some (l, partOf s.bytes - 1)) (hlen _ _ _ _ _),
    fun l q hl ↦ ?_⟩
  cases hl
  refine ⟨by omega, fun i hi hlt ↦ ?_⟩
  dsimp only
  rw [decodeChars_bytes hfits, decodeChars_bytes hfits]
  split
  · rfl
  · rename_i hout
    have hle := decodeChars_le s.bytes charOffsets (times13 (partOf s.bytes - 1)) len b.name
    rw [times13_eq] at hout
    simp only [charOffsets, List.length_cons, List.length_nil] at hout
    exact hsame i (by omega) (by omega)

/-- **The same is listed of all that comes.** -/
theorem Vol.Listing.Alike.callsFrom_eq (ss : List Slot) : callsFrom st' ss = callsFrom st ss := by
  induction ss generalizing st st' with
  | nil => rfl
  | cons s ss ih =>
    rw [callsFrom, callsFrom, h.entryAt, h.longAt, ih (h.step s)]

end Alike

/-! ## Where an entry is -/

/-- Slots of a long name are not listed. -/
theorem callsFrom_names {sum : Byte} {ss : List Slot} (h : ∀ t ∈ ss, IsNameSlot sum t.bytes)
    (st : Listing Unit) : callsFrom st ss = [] := by
  induction ss generalizing st with
  | nil => rfl
  | cons t ss ih =>
    have ht := h t List.mem_cons_self
    rw [callsFrom, if_neg fun he : IsEntry t.bytes ↦ he.notLfn ht.attr,
      ih fun u hu ↦ h u (List.mem_cons_of_mem t hu)]
    split <;> rfl

theorem split_callsFrom {st : Listing Unit} {ss : List Slot} {x : DirEntry × Option (List Byte)}
    (h : x ∈ callsFrom st ss) : ∃ pre s post, ss = pre ++ s :: post ∧
      (∀ t ∈ pre, t.bytes 0 ≠ 0#8) ∧ IsEntry s.bytes ∧
      x = ((pre.foldl Listing.step st).entryAt s.lba s.index s.bytes,
        (pre.foldl Listing.step st).longAt s.bytes) := by
  induction ss generalizing st with
  | nil => cases h
  | cons s ss ih =>
    rw [callsFrom] at h
    split at h
    · cases h
    rename_i h0
    have hrest : x ∈ callsFrom (st.step s) ss → ∃ pre t post, s :: ss = pre ++ t :: post ∧
        (∀ t ∈ pre, t.bytes 0 ≠ 0#8) ∧ IsEntry t.bytes ∧
        x = ((pre.foldl Listing.step st).entryAt t.lba t.index t.bytes,
          (pre.foldl Listing.step st).longAt t.bytes) := by
      intro hmem
      obtain ⟨pre, t, post, rfl, hpre, ht, hx⟩ := ih hmem
      exact ⟨s :: pre, t, post, rfl, List.forall_mem_cons.mpr ⟨h0, hpre⟩, ht, hx⟩
    split at h
    · rename_i hs
      rcases List.mem_cons.mp h with heq | hmem
      · exact ⟨[], s, ss, rfl, by simp, hs, heq⟩
      · exact hrest hmem
    · exact hrest h

/-- The state after an entry lists what comes as at the start. -/
theorem callsFrom_blank (st : Listing Unit) (ss : List Slot) :
    callsFrom { st with run := none, long := none } ss = callsFrom (Listing.start ()) ss := by
  have h : (Listing.start ()).Alike { st with run := none, long := none } :=
    ⟨rfl, rfl, fun len q hlong ↦ by cases hlong⟩
  exact h.callsFrom_eq ss

/-- The entry `e` of the directory at `first` is in its slot, after the places `pb` and the places
`pr` of its long name, and before the places `pa`.  The directory may list it with more of a long
name. -/
structure Disk.Sits (g : Geometry) (d : Disk) (first : ℕ) (e : DirEntry) (long : Option (List Byte))
    (pb pr pa : List (ℕ × ℕ)) : Prop where
  split : d.positions g first = pb ++ (pr ++ (e.lba, e.index) :: pa)
  used : ∀ p ∈ pb ++ pr, (slotAt d.area p).bytes 0 ≠ 0#8
  entry : IsEntry (slotAt d.area (e.lba, e.index)).bytes
  parsed : ∃ lfn, e = DirEntry.parse (slotAt d.area (e.lba, e.index)).bytes e.lba e.index lfn
  start : (pr ++ [(e.lba, e.index)]).head? = some (e.lfnLba, e.lfnIndex)
  names : ∀ st, callsFrom st (pr.map (slotAt d.area)) = []
  listed : ∃ lba index, d.entries g first = calls (pb.map (slotAt d.area)) ++
    ({ e with lfnLba := lba, lfnIndex := index }, long) ::
      callsFrom (Listing.start ()) (pa.map (slotAt d.area))

/-- **Every entry listed is somewhere.** -/
theorem exists_sits {first : ℕ} {e : DirEntry} {long : Option (List Byte)}
    (he : (e, long) ∈ d.entries g first) : ∃ pb pr pa, d.Sits g first e long pb pr pa := by
  change (e, long) ∈ calls (d.slots g first) at he
  rw [calls_eq] at he
  obtain ⟨pre, s, post, hsplit, hused, hs, hx⟩ := split_callsFrom he
  obtain ⟨before, run, rfl, hrun, hstart⟩ := entryAt_run pre s
  have hlist : calls (d.slots g first) = calls before ++
      (e, long) :: callsFrom (Listing.start ()) post := by
    rw [hsplit, calls_eq, callsFrom_append hused, callsFrom, if_neg hs.used, if_pos hs, ← hx,
      step_of_other fun h ↦ hs.notLfn h.2, callsFrom_blank,
      callsFrom_append fun t ht ↦ hused t (List.mem_append_left _ ht),
      callsFrom_names hrun.slots, List.append_nil, calls_eq]
  obtain ⟨rfl, rfl⟩ := Prod.mk.inj hx
  rw [Disk.slots_eq, List.append_assoc, List.map_eq_append_iff] at hsplit
  obtain ⟨pb, rest, hps, rfl, hrest⟩ := hsplit
  obtain ⟨pr, rest', rfl, rfl, hrest'⟩ := List.map_eq_append_iff.mp hrest
  obtain ⟨p, pa, rfl, rfl, rfl⟩ := List.map_eq_cons_iff.mp hrest'
  refine ⟨pb, pr, pa, hps, fun p hp ↦ ?_, hs, ⟨_, rfl⟩, ?_, callsFrom_names hrun.slots, _, _, hlist⟩
  · refine hused _ ?_
    rw [← List.map_append]
    exact List.mem_map_of_mem hp
  · rw [← hstart, ← List.head?_map, List.map_append, List.map_map]
    exact congrArg List.head? (congrArg (· ++ _) (List.map_id pr).symm)

/-- The same entry without its long name, as `create` returns it. -/
theorem Disk.Sits.own {first : ℕ} {e : DirEntry} {long : Option (List Byte)}
    {pb pr pa : List (ℕ × ℕ)}
    (h : d.Sits g first e long pb pr pa) :
    d.Sits g first { e with lfnLba := e.lba, lfnIndex := e.index } long (pb ++ pr) [] pa where
  split := by
    rw [h.split]
    simp
  used p hp := h.used p (by simpa using hp)
  entry := h.entry
  parsed := by
    obtain ⟨lfn, he⟩ := h.parsed
    refine ⟨none, ?_⟩
    rw [he]
    rfl
  start := rfl
  names _ := rfl
  listed := by
    obtain ⟨lba, index, hlist⟩ := h.listed
    refine ⟨lba, index, ?_⟩
    have hpb : ∀ s ∈ pb.map (slotAt d.area), s.bytes 0 ≠ 0#8 := fun s hs ↦ by
      obtain ⟨p, hp, rfl⟩ := List.mem_map.mp hs
      exact h.used p (List.mem_append_left _ hp)
    rw [hlist, List.map_append, calls_eq, calls_eq, callsFrom_append hpb, h.names, List.append_nil]

/-! ## Slots marked -/

theorem sameSlots_erased (c : Card) {ps : List (ℕ × ℕ)} {p : ℕ × ℕ} (hp : p ∉ ps) :
    SameSlots (slotAt c p) (slotAt (erased c ps) p) where
  lba := rfl
  index := rfl
  bytes j hj := by
    change erased c ps p.1 (p.2 * slotLen + j) = c p.1 (p.2 * slotLen + j)
    rw [erased, if_neg]
    rw [List.any_eq_true]
    rintro ⟨q, hq, heq⟩
    rw [Bool.and_eq_true, decide_eq_true_eq, decide_eq_true_eq, slotLen] at heq
    rw [slotLen] at hj
    have hqp : q = p := Prod.ext heq.1 (by omega)
    exact hp (hqp ▸ hq)

theorem slotAt_erased (c : Card) {ps : List (ℕ × ℕ)} {p : ℕ × ℕ} (hp : p ∈ ps) :
    (slotAt (erased c ps) p).bytes 0 = deleted := by
  change erased c ps p.1 (p.2 * slotLen + 0) = deleted
  rw [erased, if_pos (List.any_eq_true.mpr ⟨p, hp, by simp⟩)]

theorem erased_of_ne (c : Card) {ps : List (ℕ × ℕ)} {l : ℕ} (h : ∀ p ∈ ps, p.1 ≠ l) :
    erased c ps l = c l := by
  funext j
  rw [erased, if_neg]
  rw [List.any_eq_true]
  rintro ⟨q, hq, heq⟩
  rw [Bool.and_eq_true, decide_eq_true_eq] at heq
  exact h q hq heq.1

theorem erased_nil (c : Card) : erased c [] = c := rfl

theorem deleted_ne_zero : deleted ≠ 0#8 := by decide

theorem callsFrom_deleted {ss : List Slot} (h : ∀ t ∈ ss, t.bytes 0 = deleted) (st : Listing Unit) :
    callsFrom st ss = [] := by
  induction ss generalizing st with
  | nil => rfl
  | cons t ss ih =>
    have ht := h t List.mem_cons_self
    rw [callsFrom, if_neg (ht ▸ deleted_ne_zero), if_neg fun he : IsEntry t.bytes ↦ he.kept ht]
    exact ih (fun u hu ↦ h u (List.mem_cons_of_mem t hu)) _

/-- **An entry and its long name marked are listed no more**, and the rest is listed as it was. -/
theorem calls_dropped {before run after : List Slot} {s : Slot}
    (hused : ∀ t ∈ before, t.bytes 0 ≠ 0#8) (hrun : ∀ t ∈ run, t.bytes 0 = deleted)
    (hs : s.bytes 0 = deleted) :
    calls (before ++ (run ++ s :: after)) =
      calls before ++ callsFrom (Listing.start ()) after := by
  rw [calls_eq, calls_eq, callsFrom_append hused,
    callsFrom_append fun t ht ↦ hrun t ht ▸ deleted_ne_zero, callsFrom_deleted hrun,
    List.nil_append,
    callsFrom, if_neg (hs ▸ deleted_ne_zero), if_neg fun he : IsEntry s.bytes ↦ he.kept hs,
    step_of_other fun h ↦ h.1 hs, callsFrom_blank]

/-- A slot written over where only its long name has been marked. -/
theorem calls_renamed {before run after : List Slot} {s : Slot}
    (hused : ∀ t ∈ before, t.bytes 0 ≠ 0#8) (hrun : ∀ t ∈ run, t.bytes 0 = deleted)
    (hs : IsEntry s.bytes) :
    ∃ lfn long, calls (before ++ (run ++ s :: after)) =
      calls before ++ (DirEntry.parse s.bytes s.lba s.index lfn, long) ::
        callsFrom (Listing.start ()) after := by
  rw [calls_eq, calls_eq, callsFrom_append hused,
    callsFrom_append fun t ht ↦ hrun t ht ▸ deleted_ne_zero, callsFrom_deleted hrun,
    List.nil_append,
    callsFrom, if_neg hs.used, if_pos hs, step_of_other fun h ↦ hs.notLfn h.2, callsFrom_blank]
  exact ⟨_, _, rfl⟩

/-- An entry with another name. -/
theorem parse_renamed {b b' : ℕ → Byte} {name : ShortName}
    (h : ∀ j < slotLen, b' j = if j < 11 then name.1.getD j 0#8 else b j) (lba index : ℕ)
    (lfn lfn' : Option (ℕ × ℕ)) :
    DirEntry.parse b' lba index lfn' =
      { DirEntry.parse b lba index lfn with
        name := name, lfnLba := (lfn'.map Prod.fst).getD lba
        lfnIndex := (lfn'.map Prod.snd).getD index } := by
  have hrest : ∀ j, 11 ≤ j → j < slotLen → b' j = b j := fun j hj hlt ↦ by
    rw [h j hlt, if_neg (by omega)]
  have hname : ShortName.ofFn b' = name := by
    refine Subtype.ext (List.ext_getElem (by rw [(ShortName.ofFn _).2, name.2]) fun i h₁ h₂ ↦ ?_)
    have hi : i < 11 := name.2 ▸ h₂
    simp only [ShortName.ofFn, List.getElem_map, List.getElem_range]
    rw [h i (by rw [slotLen]; omega), if_pos hi, List.getD_eq_getElem _ _ h₂]
  have hle : ∀ i, 11 ≤ i → i + 1 < slotLen → le16 b' i = le16 b i := fun i hi hlt ↦ by
    rw [le16, le16, hrest i hi (by omega), hrest (i + 1) (by omega) hlt]
  rw [DirEntry.parse, DirEntry.parse, hname, hrest 11 le_rfl (by decide),
    hle 20 (by decide) (by decide), hle 26 (by decide) (by decide), le32, le32, word, word,
    hrest 28 (by decide) (by decide), hrest 29 (by decide) (by decide),
    hrest 30 (by decide) (by decide), hrest 31 (by decide) (by decide)]

theorem SameSlots.trans {s t u : Slot} (h : SameSlots s t) (h' : SameSlots t u) : SameSlots s u :=
  ⟨h'.lba.trans h.lba, h'.index.trans h.index, fun j hj ↦ (h'.bytes j hj).trans (h.bytes j hj)⟩

/-! ## Changes of the slots of one directory -/

/-- A slot is in no cluster but its own. -/
theorem Disk.position_apart (hg : g.Laid) {first last : ℕ} (hlast : (d.chain g first).2 = .ok last)
    {p : ℕ × ℕ} (hp : p ∈ d.positions g first) : g.dataLba ≤ p.1 ∧
      ∀ n, g.isCluster n = true → n ∉ (d.chain g first).1 → ∀ k < g.clusterSectors,
        g.clusterLba n + k ≠ p.1 := by
  obtain ⟨m, hm, hp⟩ := List.mem_flatMap.mp hp
  obtain ⟨-, i, hi, hpi⟩ := mem_clusterPositions hp
  refine ⟨hpi ▸ (g.dataLba_le_clusterLba m).trans (Nat.le_add_right _ _), fun n hn hmem k hk ↦ ?_⟩
  have hm2 := (hg.toOk.lt_eoc ((Disk.chain_nodup hg hlast).2 m hm).1).1
  have hn2 := (hg.toOk.lt_eoc hn).1
  have := @clusterLba_apart g n m hn2 hm2 fun h ↦ hmem (h ▸ hm)
  omega

theorem Disk.spares_of_positions (hg : g.Laid) {first last : ℕ}
    (hlast : (d.chain g first).2 = .ok last) (hfat : d'.fat = d.fat)
    (harea : ∀ l, (∀ p ∈ d.positions g first, p.1 ≠ l) → d'.area l = d.area l) :
    d.Spares g (· ∈ (d.chain g first).1) d' := by
  refine ⟨fun n hn _ hmem ↦ ⟨by rw [hfat], fun k hk ↦ harea _ fun p hp ↦ ?_⟩,
    fun _ _ ↦ by rw [hfat],
    fun l j hl hne ↦ ?_⟩
  · exact ((Disk.position_apart hg hlast hp).2 n hn hmem k hk).symm
  · rw [harea l fun p hp ↦ ?_] at hne
    · exact absurd rfl hne
    · have := (Disk.position_apart hg hlast hp).1
      have := hg.data
      omega

/-- The entry `e` has been taken out of the directory at `first`. -/
structure Disk.Dropped (g : Geometry) (d : Disk) (first : ℕ) (e : DirEntry) (d' : Disk) : Prop where
  spares : d.Spares g (· ∈ (d.chain g first).1) d'
  fat : d'.fat = d.fat
  listed : ∃ as lba index long bs,
    d.entries g first = as ++ ({ e with lfnLba := lba, lfnIndex := index }, long) :: bs ∧
      d'.entries g first = as ++ bs
  tidy : d'.Tidy g first

/-- The entry `e` of the directory at `first` has got another name. -/
structure Disk.Renamed (g : Geometry) (d : Disk) (first : ℕ) (e : DirEntry) (name : ShortName)
    (d' : Disk) : Prop where
  spares : d.Spares g (· ∈ (d.chain g first).1) d'
  fat : d'.fat = d.fat
  listed : ∃ as lba index long bs lba' index' long',
    d.entries g first = as ++ ({ e with lfnLba := lba, lfnIndex := index }, long) :: bs ∧
      d'.entries g first =
        as ++ ({ e with name := name, lfnLba := lba', lfnIndex := index' }, long') :: bs
  tidy : d'.Tidy g first

section Sits

variable {first last : ℕ} {e : DirEntry} {long : Option (List Byte)} {pb pr pa : List (ℕ × ℕ)}

/-- The places of an entry are apart from the others. -/
theorem Disk.Sits.apart (h : d.Sits g first e long pb pr pa) (hg : g.Laid)
    (hlast : (d.chain g first).2 = .ok last) :
    (∀ p ∈ pb, p ∉ pr ++ [(e.lba, e.index)]) ∧ (∀ p ∈ pa, p ∉ pr ++ [(e.lba, e.index)]) ∧
      (e.lba, e.index) ∉ pr := by
  have hnodup := Disk.positions_nodup hg hlast
  rw [h.split] at hnodup
  obtain ⟨-, hrest, hpb⟩ := List.nodup_append.mp hnodup
  obtain ⟨-, hcons, hpr⟩ := List.nodup_append.mp hrest
  obtain ⟨hpos, -⟩ := List.nodup_cons.mp hcons
  refine ⟨fun p hp hmem ↦ ?_, fun p hp hmem ↦ ?_, fun hmem ↦ ?_⟩
  · refine hpb p hp p ?_ rfl
    rcases List.mem_append.mp hmem with h | h
    · exact List.mem_append_left _ h
    · exact List.mem_append_right _ (List.mem_cons.mpr (.inl (List.mem_singleton.mp h)))
  · rcases List.mem_append.mp hmem with h | h
    · exact hpr p h p (List.mem_cons_of_mem _ hp) rfl
    · exact hpos (List.mem_singleton.mp h ▸ hp)
  · exact hpr _ hmem _ List.mem_cons_self rfl

/-- The slots of a directory in which only those of the entry have changed. -/
theorem Disk.Sits.calls_changed (h : d.Sits g first e long pb pr pa) {c : Card}
    (hfat : d'.fat = d.fat) (harea : d'.area = c)
    (hsame : ∀ p ∈ pb ++ pa, SameSlots (slotAt d.area p) (slotAt c p)) :
    d'.entries g first = calls (pb.map (slotAt d.area) ++ (pr.map (slotAt c) ++
      slotAt c (e.lba, e.index) :: pa.map (slotAt d.area))) := by
  have hpositions : d'.positions g first = d.positions g first := by
    have hentry : d'.entry = d.entry := funext fun n ↦ by rw [Disk.entry_eq, Disk.entry_eq, hfat]
    rw [Disk.positions, Disk.positions, Disk.chain, Disk.chain, hentry]
  have hpart : ∀ {ps : List (ℕ × ℕ)}, (∀ p ∈ ps, p ∈ pb ++ pa) →
      List.Forall₂ SameSlots (ps.map (slotAt d.area)) (ps.map (slotAt c)) := by
    intro ps hps
    rw [List.forall₂_map_left_iff, List.forall₂_map_right_iff, List.forall₂_same]
    exact fun p hp ↦ hsame p (hps p hp)
  change calls (d'.slots g first) = _
  rw [Disk.slots_eq, hpositions, h.split, harea, List.map_append, List.map_append, List.map_cons]
  refine calls_congr (List.rel_append (hpart fun p hp ↦ List.mem_append_left _ hp) ?_)
  refine List.rel_append (forall₂_refl_slots _) (.cons ⟨rfl, rfl, fun _ _ ↦ rfl⟩ ?_)
  exact hpart fun p hp ↦ List.mem_append_right _ hp

/-- As tidy as before, when the same slots are at the end. -/
theorem Disk.Tidy.changed (h : d.Tidy g first) (hfat : d'.fat = d.fat)
    (hzero : ∀ p ∈ d.positions g first,
      (slotAt d'.area p).bytes 0 = 0#8 ↔ (slotAt d.area p).bytes 0 = 0#8) : d'.Tidy g first := by
  have hentry : d'.entry = d.entry := funext fun n ↦ by rw [Disk.entry_eq, Disk.entry_eq, hfat]
  have hchain : d'.chain g first = d.chain g first := by rw [Disk.chain, Disk.chain, hentry]
  obtain ⟨last, hlast⟩ := h.ends
  refine ⟨⟨last, by rw [hchain, hlast]⟩, ?_⟩
  have htail := h.tail
  rw [Disk.slots_eq, List.pairwise_map] at htail
  have hpositions : d'.positions g first = d.positions g first := by
    rw [Disk.positions, Disk.positions, hchain]
  rw [Disk.slots_eq, hpositions, List.pairwise_map]
  refine htail.imp_of_mem fun {p q} hp hq hpq h0 ↦ ?_
  exact (hzero q hq).mpr (hpq ((hzero p hp).mp h0))

variable (h : d.Sits g first e long pb pr pa) (hg : g.Laid) (htidy : d.Tidy g first)
  (hfat : d'.fat = d.fat)
include h hg htidy hfat

/-- **An entry deleted** is taken out of the listing, and the other entries are listed as before. -/
theorem Disk.Sits.dropped (harea : d'.area = erased d.area (pr ++ [(e.lba, e.index)])) :
    d.Dropped g first e d' := by
  obtain ⟨last, hlast⟩ := htidy.ends
  obtain ⟨hpb, hpa, -⟩ := h.apart hg hlast
  have hown : ∀ p ∈ pr ++ [(e.lba, e.index)], p ∈ d.positions g first := fun p hp ↦ by
    rw [h.split]
    rcases List.mem_append.mp hp with hp | hp
    · exact List.mem_append_right _ (List.mem_append_left _ hp)
    · rw [List.mem_singleton.mp hp]
      simp
  refine ⟨Disk.spares_of_positions hg hlast hfat fun l hl ↦ ?_, hfat, ?_,
    htidy.changed hfat fun p hp ↦ ?_⟩
  · rw [harea]
    exact erased_of_ne _ fun p hp ↦ hl p (hown p hp)
  · obtain ⟨lba, index, hlist⟩ := h.listed
    refine ⟨_, lba, index, long, _, hlist, (h.calls_changed hfat harea fun p hp ↦ ?_).trans
      (calls_dropped (fun t ht ↦ ?_) (fun t ht ↦ ?_) (slotAt_erased _ (by simp)))⟩
    · exact sameSlots_erased _ ((List.mem_append.mp hp).elim (hpb p) (hpa p))
    · obtain ⟨p, hp, rfl⟩ := List.mem_map.mp ht
      exact h.used p (List.mem_append_left _ hp)
    · obtain ⟨p, hp, rfl⟩ := List.mem_map.mp ht
      exact slotAt_erased _ (List.mem_append_left _ hp)
  · rw [harea]
    by_cases hmem : p ∈ pr ++ [(e.lba, e.index)]
    · have hold : (slotAt d.area p).bytes 0 ≠ 0#8 := by
        rcases List.mem_append.mp hmem with hp | hp
        · exact h.used p (List.mem_append_right _ hp)
        · rw [List.mem_singleton.mp hp]
          exact h.entry.used
      rw [slotAt_erased _ hmem]
      exact iff_of_false deleted_ne_zero hold
    · rw [(sameSlots_erased d.area hmem).bytes.at 0]

/-- **An entry renamed** is listed in its place under the new name. -/
theorem Disk.Sits.renamed {name : ShortName} (hname : name.Shown)
    (harea : d'.area = spliced (erased d.area pr) e.lba e.index name.1) :
    d.Renamed g first e name d' := by
  obtain ⟨last, hlast⟩ := htidy.ends
  obtain ⟨hpb, hpa, hpos⟩ := h.apart hg hlast
  -- the bytes of the slot: the new name, and then as they were
  have hbytes : ∀ j < slotLen, (slotAt (spliced (erased d.area pr) e.lba e.index name.1)
      (e.lba, e.index)).bytes j =
        if j < 11 then name.1.getD j 0#8 else (slotAt d.area (e.lba, e.index)).bytes j := by
    intro j hj
    change spliced _ e.lba e.index name.1 e.lba (e.index * slotLen + j) = _
    rw [spliced_apply, name.2, Nat.add_sub_cancel_left]
    by_cases hlt : j < 11
    · rw [if_pos ⟨rfl, by omega, by omega⟩, if_pos hlt]
    · rw [if_neg (by omega), if_neg hlt]
      exact (sameSlots_erased d.area hpos).bytes j hj
  have hother : ∀ p, p ≠ (e.lba, e.index) → SameSlots (slotAt (erased d.area pr) p)
      (slotAt (spliced (erased d.area pr) e.lba e.index name.1) p) := fun p hp ↦ by
    refine ⟨rfl, rfl, fun j hj ↦ ?_⟩
    change spliced _ e.lba e.index name.1 p.1 (p.2 * slotLen + j) =
      erased _ _ p.1 (p.2 * slotLen + j)
    rw [spliced_apply, if_neg]
    rintro ⟨hlba, hle, hlt⟩
    refine hp (Prod.ext hlba ?_)
    rw [name.2] at hlt
    rw [slotLen] at *
    omega
  have hentry : IsEntry (slotAt (spliced (erased d.area pr) e.lba e.index name.1)
      (e.lba, e.index)).bytes := by
    have h0 := hbytes 0 (by decide)
    have h11 := hbytes 11 (by decide)
    rw [if_pos (by decide)] at h0
    rw [if_neg (by decide)] at h11
    exact ⟨h0 ▸ hname.1, h0 ▸ hname.2, h11 ▸ h.entry.notLfn, h11 ▸ h.entry.notVolume⟩
  have hsame : ∀ p, p ∉ pr ++ [(e.lba, e.index)] → SameSlots (slotAt d.area p)
      (slotAt (spliced (erased d.area pr) e.lba e.index name.1) p) := fun p hp ↦
    (sameSlots_erased _ fun h ↦ hp (List.mem_append_left _ h)).trans
      (hother p fun h ↦ hp (List.mem_append_right _ (List.mem_singleton.mpr h)))
  have hmarked : ∀ p ∈ pr,
      (slotAt (spliced (erased d.area pr) e.lba e.index name.1) p).bytes 0 = deleted :=
        fun p hp ↦ by
    rw [(hother p fun h ↦ hpos (h ▸ hp)).bytes.at 0, slotAt_erased _ hp]
  have hown : ∀ p ∈ pr ++ [(e.lba, e.index)], p ∈ d.positions g first := fun p hp ↦ by
    rw [h.split]
    rcases List.mem_append.mp hp with hp | hp
    · exact List.mem_append_right _ (List.mem_append_left _ hp)
    · rw [List.mem_singleton.mp hp]
      simp
  refine ⟨Disk.spares_of_positions hg hlast hfat fun l hl ↦ ?_, hfat, ?_,
    htidy.changed hfat fun p hp ↦ ?_⟩
  · have hne : l ≠ e.lba := fun h ↦ hl (e.lba, e.index) (hown _ (by simp)) h.symm
    rw [harea, spliced, Function.update_of_ne hne]
    exact erased_of_ne _ fun p hp ↦ hl p (hown p (List.mem_append_left _ hp))
  · have hbefore : ∀ t ∈ pb.map (slotAt d.area), t.bytes 0 ≠ 0#8 := fun t ht ↦ by
      obtain ⟨p, hp, rfl⟩ := List.mem_map.mp ht
      exact h.used p (List.mem_append_left _ hp)
    have hrun : ∀ t ∈ pr.map (slotAt (spliced (erased d.area pr) e.lba e.index name.1)),
        t.bytes 0 = deleted := fun t ht ↦ by
      obtain ⟨p, hp, rfl⟩ := List.mem_map.mp ht
      exact hmarked p hp
    obtain ⟨lfn', long', hcalls⟩ :=
      @calls_renamed _ _ (pa.map (slotAt d.area)) _ hbefore hrun hentry
    obtain ⟨lfn, he⟩ := h.parsed
    obtain ⟨lba, index, hlist⟩ := h.listed
    refine ⟨_, lba, index, long, _, (lfn'.map Prod.fst).getD e.lba,
      (lfn'.map Prod.snd).getD e.index,
      long', hlist, (h.calls_changed hfat harea fun p hp ↦ ?_).trans (hcalls.trans ?_)⟩
    · exact hsame p ((List.mem_append.mp hp).elim (hpb p) (hpa p))
    · refine congrArg (fun x ↦ _ ++ (x, long') :: _) ?_
      refine (parse_renamed hbytes e.lba e.index lfn lfn').trans ?_
      rw [← he]
  · rw [harea]
    by_cases hmem : p ∈ pr ++ [(e.lba, e.index)]
    · rcases List.mem_append.mp hmem with hp | hp
      · rw [hmarked p hp]
        exact iff_of_false deleted_ne_zero (h.used p (List.mem_append_right _ hp))
      · rw [List.mem_singleton.mp hp]
        exact iff_of_false hentry.used h.entry.used
    · rw [(hsame p hmem).bytes.at 0]

end Sits

/-! ## `delete_slots` -/

/-- `next_slot` leads to the next slot. -/
theorem looks_nextSlot (hclean : d.dirty = false) {p q : ℕ × ℕ} (h : g.Follows d.entry p q) :
    Looks g (Vol.nextSlot p.1 p.2) d (.ok q) := by
  intro c v hd
  obtain rfl := hd.geometry
  have hs := hd.settled hclean
  have hfat : ∀ n, v.isCluster n = true → fatAt v.toGeometry c n = d.entry n := fun n hn ↦
    (hs.entry_eq (hs.laid.toOk.lt_eoc hn).2.1).symm.trans (hd.entry_of_isCluster hn)
  have hnext : Stays c v (Vol.nextSlot p.1 p.2) (.ok q) :=
    (h.congr hfat).2 ▸ stays_nextSlot hs h.1
  obtain ⟨v', hrun, hrest⟩ := hnext
  exact ⟨_, v', [], d.hold v'.buf, hrun, hd.rests hclean hrest, rfl, _, rfl⟩

/-- The loop marks the slots up to the entry's. -/
theorem ends_deleteFrom {e : DirEntry} (keep : Bool) {ps : List (ℕ × ℕ)} (hclean : d.dirty = false)
    (hchain : List.IsChain (g.Follows d.entry) (ps ++ [(e.lba, e.index)]))
    (hlast : (e.lba, e.index) ∉ ps) (hdata : ∀ p ∈ ps ++ [(e.lba, e.index)], g.dataLba ≤ p.1)
    {fuel : ℕ} (hfuel : ps.length < fuel) {p : ℕ × ℕ}
    (hp : (ps ++ [(e.lba, e.index)]).head? = some p) :
    Disk.Ends g (Vol.deleteFrom e keep fuel p.1 p.2) d fun r d' ↦ r = .ok () ∧ ∃ b, d' =
      { d with
        area := erased d.area (ps ++ if keep then [] else [(e.lba, e.index)])
        buf := b } := by
  induction ps generalizing d fuel p with
  | nil =>
    obtain ⟨fuel, rfl⟩ := Nat.exists_eq_succ_of_ne_zero (Nat.ne_of_gt hfuel)
    cases hp
    rw [Vol.deleteFrom]
    simp only [and_self, decide_true, Bool.true_and, if_true]
    cases keep with
    | true => exact ends_pure ⟨rfl, d.buf, rfl⟩
    | false =>
      have hlba : g.dataLba ≤ e.lba := hdata (e.lba, e.index) (by simp)
      refine (returns_readBuf d (.inr hlba)).bind
        ((returns_mapBuf _ fun b ↦ splice b (e.index * slotLen) [deleted]).bind
          ((returns_writeBuf _ (.inr hlba)).bind (ends_pure ?_)))
      refine ⟨rfl, splice (d.area e.lba) (e.index * slotLen) [deleted], ?_⟩
      change _ = { d with area := erased d.area [(e.lba, e.index)], buf := _ }
      rw [erased_cons, erased_nil]
      rfl
  | cons q qs ih =>
    obtain ⟨fuel, rfl⟩ := Nat.exists_eq_succ_of_ne_zero (Nat.ne_of_gt (Nat.zero_lt_of_lt hfuel))
    cases hp
    have hne : ¬(q.1 = e.lba ∧ q.2 = e.index) := fun heq ↦
      hlast (List.mem_cons.mpr (.inl (Prod.ext heq.1 heq.2).symm))
    have hlba : g.dataLba ≤ q.1 := hdata q (by simp)
    rw [List.cons_append, List.isChain_cons] at hchain
    obtain ⟨r, hr⟩ : ∃ r, (qs ++ [(e.lba, e.index)]).head? = some r := by
      cases qs with
      | nil => exact ⟨_, rfl⟩
      | cons r qs => exact ⟨r, rfl⟩
    rw [Vol.deleteFrom]
    simp only [hne, decide_false, Bool.false_and, Bool.false_eq_true, if_false]
    refine (returns_readBuf d (.inr hlba)).bind
      ((returns_mapBuf _ fun b ↦ splice b (q.2 * slotLen) [deleted]).bind
        ((returns_writeBuf _ (.inr hlba)).bind ?_))
    -- the disk with this slot marked
    let d₁ : Disk := { d with
      area := spliced d.area q.1 q.2 [deleted]
      buf := splice (d.area q.1) (q.2 * slotLen) [deleted] }
    change Disk.Ends g _ d₁ _
    have hnext : Looks g (Vol.nextSlot q.1 q.2) d₁ (.ok r) :=
      looks_nextSlot (d := d₁) hclean (hchain.1 r hr)
    refine hnext.bind ?_ ?_
    swap
    · rintro err d' ⟨herr, -⟩
      cases herr
    rintro _ d₂ ⟨hr', b, rfl⟩
    cases hr'
    refine (ih (d := d₁.hold b) hclean hchain.2 (fun hmem ↦ hlast (List.mem_cons_of_mem q hmem))
      (fun p hp ↦ hdata p (List.mem_cons_of_mem q hp)) (by simpa using hfuel) hr).mono ?_
    rintro x d' ⟨rfl, b', rfl⟩
    refine ⟨rfl, b', ?_⟩
    rw [List.cons_append, erased_cons]
    rfl

/-- **`delete_slots` marks the slots of the entry**, and of its long name. -/
theorem Disk.Sits.ends_deleteSlots {first last : ℕ} {e : DirEntry} {long : Option (List Byte)}
    {pb pr pa : List (ℕ × ℕ)} (h : d.Sits g first e long pb pr pa) (hg : g.Laid)
    (hclean : d.dirty = false) (hlast : (d.chain g first).2 = .ok last) (keep : Bool) :
    Disk.Ends g (Vol.deleteSlots e keep) d fun r d' ↦ r = .ok () ∧ ∃ b, d' =
      { d with
        area := erased d.area (pr ++ if keep then [] else [(e.lba, e.index)])
        buf := b } := by
  have hsplit := h.split
  obtain ⟨hlinks, -, hclusters⟩ := isChain_chainFrom g d.entry g.clusterEnd first
  have hpos : pb ++ ((pr ++ [(e.lba, e.index)]) ++ pa) =
      (d.chain g first).1.flatMap (clusterPositions g) := by
    rw [Disk.positions] at hsplit
    simp [hsplit]
  have hall := follows_chain hclusters hlinks
  change List.IsChain _ ((d.chain g first).1.flatMap _) at hall
  rw [← hpos] at hall
  have hlen := congrArg List.length hpos
  have hle := length_chainFrom_le g d.entry g.clusterEnd first
  change (d.chain g first).1.length ≤ _ at hle
  rw [length_chain] at hlen
  simp only [List.length_append, List.length_singleton] at hlen
  have hmul := Nat.mul_le_mul_right (g.clusterSectors * slotsPerSector) hle
  refine ends_gets fun c v hd ↦ ?_
  rw [id, hd.geometry]
  refine ends_deleteFrom keep hclean (List.isChain_append.mp (List.isChain_append.mp hall).2.1).1
    (h.apart hg hlast).2.2 (fun p hp ↦ ?_) ?_ h.start
  · refine (Disk.position_apart hg hlast ?_).1
    rw [Disk.positions, ← hpos]
    exact List.mem_append_right _ (List.mem_append_left _ hp)
  · rw [Nat.mul_assoc]
    omega

end Vux9k

import Vux9k.Fat.Confined
import Vux9k.Fat.Mount

/-!
# FSInfo

`begin_change` marks the counts of the FSInfo sector unknown before the first change of the FAT, and
remembers in `fsinfo_done` that it has.  It remembers it before it has done it: after a read or a
write of FSInfo that failed, the next call goes on to change the FAT, and the counts are wrong from
then on.  As long as the card answers for the FSInfo sector, they are never wrong.
-/

set_option autoImplicit false

namespace Vux9k

/-! ## Calls -/

/-- The entry is in the data of the volume, and so are its long-name slots. -/
abbrev Placed (g : Geometry) : DirEntry → Prop := Within (g.dataLba ≤ ·)

namespace Call

/-- The entry is one the volume has given out: the root, or one found in a directory. -/
def Given (g : Geometry) (call : Call) : Prop :=
  ∀ e ∈ call.entry, e = .root g.root ∨ Placed g e

/-- One call after the other, whatever they return. -/
def runAll : List Call → Vol Unit
  | [] => pure ()
  | call :: calls => do
    let _ ← Vol.attempt call.run
    runAll calls

end Call

/-! ## The FSInfo sector -/

/-- There is a valid FSInfo sector between the boot sector and the FAT. -/
structure HasFsinfo (g : Geometry) (c : Card) : Prop where
  after : g.partLba < g.fsinfoLba
  before : g.fsinfoLba < g.fatLba
  lead : le32 (c g.fsinfoLba) 0 = fsinfoLead
  struct : le32 (c g.fsinfoLba) 484 = fsinfoStruct

/-- The free count and the next-free hint are unknown. -/
def FsinfoUnknown (g : Geometry) (c : Card) : Prop :=
  le32 (c g.fsinfoLba) 488 = 0xFFFFFFFF ∧ le32 (c g.fsinfoLba) 492 = 0xFFFFFFFF

/-- Some entry of some copy of the FAT has changed. -/
def FatChanged (g : Geometry) (c₀ c : Card) : Prop :=
  ∃ k < g.numFats, ∃ n < g.clusterEnd,
    word (c (g.fatLba + k * g.fatSectors + n / 128)) (n % 128 * 4) ≠
    word (c₀ (g.fatLba + k * g.fatSectors + n / 128)) (n % 128 * 4)

/-- The card does not fail at the FSInfo sector. -/
def FsinfoAnswered (g : Geometry) : Prog.Event FatOp FatOp.Ans → Prop
  | ⟨.read lba, r⟩ => lba = g.fsinfoLba → r ≠ none
  | ⟨.write lba _, b⟩ => lba = g.fsinfoLba → b = true

/-! ## Before and after the mark -/

variable {g : Geometry} {c₀ c : Card} {v : Volume}

/-- Nothing has been changed yet. -/
structure Untouched (g : Geometry) (c₀ c : Card) (v : Volume) : Prop where
  geometry : v.toGeometry = g
  todo : v.fsinfoDone = false
  clean : v.fatDirty = false
  hint : 2 ≤ v.nextFree
  card : c = c₀

/-- The counts are marked. -/
structure Marked (g : Geometry) (c : Card) (v : Volume) : Prop where
  geometry : v.toGeometry = g
  hint : 2 ≤ v.nextFree
  done : v.fsinfoDone = true
  unknown : FsinfoUnknown g c

/-- Nothing has been changed, or the counts are marked. -/
def Truthful (g : Geometry) (c₀ c : Card) (v : Volume) : Prop :=
  Untouched g c₀ c v ∨ Marked g c v

/-- The same of the card. -/
def TruthfulCard (g : Geometry) (c₀ c : Card) : Prop := c = c₀ ∨ FsinfoUnknown g c

/-- A card that may fail, but not at the FSInfo sector. -/
abbrev fsinfoDevice (g : Geometry) : CardEnv := Prog.Env.limit device (FsinfoAnswered g)

theorem Truthful.geometry (h : Truthful g c₀ c v) : v.toGeometry = g :=
  h.elim Untouched.geometry Marked.geometry

theorem Truthful.card (h : Truthful g c₀ c v) : TruthfulCard g c₀ c :=
  h.imp Untouched.card Marked.unknown

theorem Marked.write (hg : g.fsinfoLba < g.fatLba) {lba : ℕ} {s : Sector} {b : Bool} {c' : Card}
    (h : Marked g c v) (hlba : g.fatLba ≤ lba) (hw : fsinfoDevice g c (.write lba s) b c') :
    Marked g c' v := by
  obtain ⟨rfl, -⟩ := hw
  cases b with
  | false => exact h
  | true =>
    refine ⟨h.geometry, h.hint, h.done, ?_⟩
    rw [FsinfoUnknown, if_pos rfl, Function.update_of_ne (by omega)]
    exact h.unknown

theorem meets_flushFat (hg : g.fsinfoLba < g.fatLba) (h : Marked g c v) :
    (Vol.flushFat v).Meets (fsinfoDevice g) (TruthfulCard g c₀)
      (fun r c' ↦ Marked g c' r.2 ∧ (r.1 = .ok () → r.2.fatDirty = false)) c := by
  change ((if v.fatDirty then _ else _ : Vol Unit) v).Meets _ _ _ _
  have hfat : g.fatLba ≤ v.fatLba := (congrArg Geometry.fatLba h.geometry).ge
  split
  swap
  next hd => exact ⟨h, fun _ ↦ Bool.eq_false_of_not_eq_true hd⟩
  intro b c₁ hw
  have h₁ := h.write hg (hfat.trans (Nat.le_add_right _ _)) hw
  refine ⟨.inr h₁.unknown, ?_⟩
  cases b with
  | false => exact ⟨h₁, nofun⟩
  | true =>
    change ((if v.numFats = 2 then _ else _ : Vol Unit) v).Meets _ _ _ _
    split
    swap
    · exact ⟨⟨h₁.geometry, h₁.hint, h₁.done, h₁.unknown⟩, fun _ ↦ rfl⟩
    intro b c₂ hw
    have hcopy : g.fatLba ≤ v.fatLba + v.fatSectors + v.fatCached := by omega
    have h₂ := h₁.write hg hcopy hw
    refine ⟨.inr h₂.unknown, ?_⟩
    cases b with
    | false => exact ⟨h₂, nofun⟩
    | true => exact ⟨⟨h₂.geometry, h₂.hint, h₂.done, h₂.unknown⟩, fun _ ↦ rfl⟩

/-- Anything that is not before the FAT, with no bound on the data. -/
def beyondFat (g : Geometry) : Extent g where
  fat _ := True
  data lba := g.dataLba ≤ lba
  fat_lt _ := trivial
  fat_data _ := trivial
  data_cluster _ _ := (g.dataLba_le_clusterLba _).trans (Nat.le_add_right _ _)
  data_succ h _ := h.trans (Nat.le_succ _)

theorem writable_marked (c₀ : Card) (hg : g.fsinfoLba < g.fatLba) (hdata : g.fatLba ≤ g.dataLba) :
    Writable (fsinfoDevice g) (TruthfulCard g c₀) (beyondFat g) (Marked g) where
  geometry h := h.geometry
  safe h := .inr h.unknown
  reads _ h := h.1.2
  buf _ h := ⟨h.geometry, h.hint, h.done, h.unknown⟩
  cache _ _ h _ := ⟨h.geometry, h.hint, h.done, h.unknown⟩
  flush h := meets_flushFat hg h
  hint h := h.hint
  write h hlba := h.write hg (hdata.trans hlba)
  dirty _ h _ := ⟨h.geometry, h.hint, h.done, h.unknown⟩
  nextFree _ hn h := ⟨h.geometry, hn, h.done, h.unknown⟩

theorem stable_truthful (c₀ : Card) (hg : g.fsinfoLba < g.fatLba) :
    Stable (fsinfoDevice g) (TruthfulCard g c₀) (beyondFat g) (Truthful g c₀) where
  geometry h := h.geometry
  safe h := h.card
  reads _ h := h.1.2
  buf _ h := h.imp (fun h ↦ ⟨h.geometry, h.todo, h.clean, h.hint, h.card⟩)
    fun h ↦ ⟨h.geometry, h.hint, h.done, h.unknown⟩
  cache _ _ h _ := h.imp (fun h ↦ ⟨h.geometry, h.todo, h.clean, h.hint, h.card⟩)
    fun h ↦ ⟨h.geometry, h.hint, h.done, h.unknown⟩
  flush := by
    rintro c v (h | h)
    · change ((if v.fatDirty then _ else _ : Vol Unit) v).Meets _ _ _ _
      rw [if_neg (by rw [h.clean]; exact Bool.false_ne_true)]
      exact ⟨.inl h, fun _ ↦ h.clean⟩
    · exact (meets_flushFat hg h).mono fun _ _ hr ↦ ⟨.inr hr.1, hr.2⟩

theorem unknown_splice (s : Sector) (c : Card) :
    FsinfoUnknown g
      (Function.update c g.fsinfoLba (splice s 488 (List.replicate 8 0xFF#8))) := by
  have hbyte : ∀ j < 8, splice s 488 (List.replicate 8 0xFF#8) (488 + j) = 0xFF#8 := by
    intro j hj
    rw [splice, if_pos (by rw [List.length_replicate]; omega), Nat.add_sub_cancel_left]
    interval_cases j <;> rfl
  rw [FsinfoUnknown, Function.update_self]
  refine ⟨?_, ?_⟩
  · rw [le32, word, hbyte 0 (by decide), hbyte 1 (by decide), hbyte 2 (by decide),
      hbyte 3 (by decide)]
    decide
  · rw [le32, word, hbyte 4 (by decide), hbyte 5 (by decide), hbyte 6 (by decide),
      hbyte 7 (by decide)]
    decide

/-- **`begin_change` marks the counts**, if the card answers. -/
theorem meets_beginChange (hfs : HasFsinfo g c₀) (h : Truthful g c₀ c v) :
    (Vol.beginChange v).Meets (fsinfoDevice g) (TruthfulCard g c₀)
      (fun r c' ↦ r.1 = .ok () ∧ Marked g c' r.2) c := by
  change ((if v.fsinfoDone then _ else _ : Vol Unit) v).Meets _ _ _ _
  rcases h with h | h
  swap
  · rw [if_pos h.done]
    exact ⟨rfl, h⟩
  rw [if_neg (by rw [h.todo]; exact Bool.false_ne_true)]
  have hgeom := h.geometry
  have hhint := h.hint
  obtain rfl := h.card
  change ((if v.fsinfoLba ≤ v.partLba ∨ v.fatLba ≤ v.fsinfoLba then _ else _ :
    Vol Unit) _).Meets _ _ _ _
  have hafter := hfs.after
  have hbefore := hfs.before
  rw [if_neg (by rw [hgeom]; omega)]
  intro r c₁ hr
  obtain ⟨⟨hs, rfl⟩, hok⟩ := hr
  refine ⟨.inl rfl, ?_⟩
  cases r with
  | none => exact absurd rfl (hok (congrArg Geometry.fsinfoLba hgeom))
  | some s =>
    obtain rfl : s = c₁ v.fsinfoLba := hs s rfl
    change ((if le32 (c₁ v.fsinfoLba) 0 ≠ fsinfoLead ∨
      le32 (c₁ v.fsinfoLba) 484 ≠ fsinfoStruct then _ else _ : Vol Unit) _).Meets _ _ _ _
    rw [if_neg (by rw [hgeom, hfs.lead, hfs.struct]; simp)]
    intro b c' hw
    obtain ⟨rfl, hok⟩ := hw
    have hb : b = true := hok (congrArg Geometry.fsinfoLba hgeom)
    subst hb
    have hmark : FsinfoUnknown g (Function.update c₁ v.fsinfoLba
        (splice (c₁ v.fsinfoLba) 488 (List.replicate 8 0xFF#8))) := by
      rw [hgeom]
      exact unknown_splice _ c₁
    exact ⟨.inr hmark, rfl, hgeom, hhint, rfl, hmark⟩

/-- The methods keep the counts truthful. -/
theorem confined_truthful (hfs : HasFsinfo g c₀) (hdata : g.fatLba ≤ g.dataLba) :
    Confined (fsinfoDevice g) (TruthfulCard g c₀) (beyondFat g) (Truthful g c₀) (Marked g) where
  look := stable_truthful c₀ hfs.before
  change := writable_marked c₀ hfs.before hdata
  weaken h := .inr h
  begin h := (meets_beginChange hfs h).mono fun _ _ hr ↦ ⟨.inr hr.2, fun _ ↦ hr.2⟩

theorem keeps_runAll (hfs : HasFsinfo g c₀) (hdata : g.fatLba ≤ g.dataLba) {calls : List Call}
    (hcalls : ∀ call ∈ calls, call.Given g) :
    Keeps (fsinfoDevice g) (TruthfulCard g c₀) (Truthful g c₀) (Call.runAll calls)
      fun _ ↦ True := by
  induction calls with
  | nil => exact keeps_pure trivial
  | cons call calls ih =>
    have hcall := (confined_truthful hfs hdata).call (hcalls call List.mem_cons_self)
    refine hcall.attempt.bind fun _ _ ↦ ?_
    exact ih fun call' h ↦ hcalls call' (List.mem_cons_of_mem call h)

/-- **FSInfo never lies as long as the card answers for it**: at every moment of every sequence of
calls, whatever else fails, the counts are marked unknown if some entry of the FAT has changed since
the volume was mounted. -/
theorem fsinfo_truthful {c₀ c : Card} {v : Volume} {ws : List Wr} {calls : List Call}
    {es : List (Prog.Event FatOp FatOp.Ans)} {q : FatProg (Except FatError Unit × Volume)}
    (hmount : onCard mount c₀ = (.ok v, ws)) (hfs : HasFsinfo v.toGeometry c₀)
    (hcalls : ∀ call ∈ calls, call.Given v.toGeometry) (hpath : (Call.runAll calls v).Path es q)
    (hans : Prog.Answers device c₀ es c) (hok : ∀ e ∈ es, FsinfoAnswered v.toGeometry e)
    (hchanged : FatChanged v.toGeometry c₀ c) : FsinfoUnknown v.toGeometry c := by
  obtain ⟨-, hfresh⟩ := fresh_mount hmount
  have hdata : v.fatLba ≤ v.dataLba := (Nat.le_add_right _ _).trans hfresh.laid.data
  have hstart : Truthful v.toGeometry c₀ c₀ v :=
    .inl ⟨rfl, hfresh.fsinfoDone, hfresh.dirty, hfresh.nextFree.ge, rfl⟩
  have hrun := (keeps_runAll hfs hdata hcalls c₀ v hstart).run hpath (hans.limit hok) (.inl rfl)
  refine hrun.1.resolve_left ?_
  rintro rfl
  obtain ⟨k, -, n, -, hne⟩ := hchanged
  exact hne rfl

/-! ## A card that fails at the FSInfo sector -/

/-- The program on a card that fails at the operations `fails`, counted from `n` on: its events, and
the card in the end. -/
def onFailing {α : Type} (fails : ℕ → Bool) :
    FatProg α → Card → ℕ → List (Prog.Event FatOp FatOp.Ans) × Card
  | .ret _, c, _ => ([], c)
  | .ask (.read lba) k, c, n =>
    let r := if fails n then none else some (c lba)
    let rest := onFailing fails (k r) c (n + 1)
    (⟨.read lba, r⟩ :: rest.1, rest.2)
  | .ask (.write lba s) k, c, n =>
    let rest :=
      onFailing fails (k (!fails n)) (if fails n then c else Function.update c lba s) (n + 1)
    (⟨.write lba s, !fails n⟩ :: rest.1, rest.2)

theorem onFailing_run {α : Type} (fails : ℕ → Bool) (p : FatProg α) (c : Card) (n : ℕ) :
    (∃ a, p.Path (onFailing fails p c n).1 (.ret a)) ∧
      Prog.Answers device c (onFailing fails p c n).1 (onFailing fails p c n).2 := by
  induction p generalizing c n with
  | ret a => exact ⟨⟨a, .nil _⟩, .nil c⟩
  | ask o k ih =>
    cases o with
    | read lba =>
      obtain ⟨⟨a, hpath⟩, hans⟩ := ih (if fails n then none else some (c lba)) c (n + 1)
      refine ⟨⟨a, .cons hpath⟩, .cons ⟨fun s hs ↦ ?_, rfl⟩ hans⟩
      split at hs
      · cases hs
      · exact (Option.some.inj hs).symm
    | write lba s =>
      obtain ⟨⟨a, hpath⟩, hans⟩ := ih (!fails n) (if fails n then c else Function.update c lba s)
        (n + 1)
      refine ⟨⟨a, .cons hpath⟩, .cons ?_ hans⟩
      change _ = if (!fails n) = true then _ else _
      cases fails n with
      | true => rfl
      | false => rfl

theorem onFailing_answered {α : Type} (g : Geometry) (p : FatProg α) (c : Card) (n : ℕ) :
    ∀ e ∈ (onFailing (fun _ ↦ false) p c n).1, FsinfoAnswered g e := by
  induction p generalizing c n with
  | ret a => exact nofun
  | ask o k ih =>
    intro e he
    cases o with
    | read lba =>
      rcases List.mem_cons.mp he with rfl | he
      · exact fun _ ↦ Option.some_ne_none _
      · exact ih _ _ _ e he
    | write lba s =>
      rcases List.mem_cons.mp he with rfl | he
      · exact fun _ ↦ rfl
      · exact ih _ _ _ e he

/-- A card that is zero but for these bytes. -/
def sparse (bytes : List (ℕ × ℕ × Byte)) : Card := fun lba j ↦
  ((bytes.find? fun b ↦ b.1 = lba && b.2.1 = j).map fun b ↦ b.2.2).getD 0#8

/-- A card with an empty volume of two clusters, whose FSInfo sector says that one is free. -/
def smallCard : Card := sparse
  [(0, 450, 0x0C#8), (0, 454, 1#8), (0, 510, 0x55#8), (0, 511, 0xAA#8),
    (1, 12, 2#8), (1, 13, 1#8), (1, 14, 2#8), (1, 16, 1#8), (1, 19, 5#8), (1, 36, 1#8),
    (1, 44, 2#8),
    (1, 48, 1#8), (1, 510, 0x55#8), (1, 511, 0xAA#8),
    (2, 0, 0x52#8), (2, 1, 0x52#8), (2, 2, 0x61#8), (2, 3, 0x41#8), (2, 484, 0x72#8),
    (2, 485, 0x72#8), (2, 486, 0x41#8), (2, 487, 0x61#8), (2, 488, 1#8), (2, 492, 3#8),
    (3, 8, 0xFF#8), (3, 9, 0xFF#8), (3, 10, 0xFF#8), (3, 11, 0x0F#8)]

/-- The volume on it. -/
def smallVolume : Volume where
  partLba := 1
  fatLba := 3
  fatSectors := 1
  numFats := 1
  dataLba := 4
  clusterShift := 0
  clusterEnd := 4
  root := 2
  fsinfoLba := 2
  buf := smallCard 1
  fatBuf := fun _ ↦ 0#8
  fatCached := noSector
  fatDirty := false
  nextFree := 2
  fsinfoDone := false

theorem mount_small : onCard mount smallCard = (.ok smallVolume, []) := by
  rfl

/-- The same file created twice. -/
def createTwice : List Call :=
  List.replicate 2 (.create (.root 2) (.ofFn fun _ ↦ 0x41#8) [0x2A#8])

/-- **FSInfo lies after its mark has failed**: the first call returns the card's error, and the
second takes a cluster while the counts stay as they were. -/
theorem fsinfo_lies_after_failed_mark :
    ¬∀ (c₀ c : Card) (v : Volume) (ws : List Wr) (calls : List Call)
      (es : List (Prog.Event FatOp FatOp.Ans)) (q : FatProg (Except FatError Unit × Volume)),
      onCard mount c₀ = (.ok v, ws) → HasFsinfo v.toGeometry c₀ →
      (∀ call ∈ calls, call.Given v.toGeometry) → (Call.runAll calls v).Path es q →
      Prog.Answers device c₀ es c → FatChanged v.toGeometry c₀ c →
      FsinfoUnknown v.toGeometry c := by
  intro h
  -- the third operation is the write of the FSInfo sector
  obtain ⟨⟨a, hpath⟩, hans⟩ :=
    onFailing_run (fun n ↦ n = 2) (Call.runAll createTwice smallVolume) smallCard 0
  have hlie := h smallCard _ smallVolume [] createTwice _ _ mount_small
    ⟨by decide, by decide, by decide, by decide⟩ ?_ hpath hans ?_
  · revert hlie
    rw [FsinfoUnknown]
    decide
  · intro call hcall
    obtain rfl := List.eq_of_mem_replicate hcall
    exact nofun
  · exact ⟨0, by decide, 3, by decide, by decide +kernel⟩

theorem fsinfo_truthful_small :
    FatChanged smallVolume.toGeometry smallCard
      (onFailing (fun _ ↦ false) (Call.runAll createTwice smallVolume) smallCard 0).2 ∧
    FsinfoUnknown smallVolume.toGeometry
      (onFailing (fun _ ↦ false) (Call.runAll createTwice smallVolume) smallCard 0).2 := by
  obtain ⟨⟨a, hpath⟩, hans⟩ :=
    onFailing_run (fun _ ↦ false) (Call.runAll createTwice smallVolume) smallCard 0
  have hchanged : FatChanged smallVolume.toGeometry smallCard
      (onFailing (fun _ ↦ false) (Call.runAll createTwice smallVolume) smallCard 0).2 :=
    ⟨0, by decide, 3, by decide, by decide⟩
  refine ⟨hchanged, fsinfo_truthful mount_small
    ⟨by decide, by decide, by decide, by decide⟩ ?_ hpath hans
    (onFailing_answered _ _ _ _) hchanged⟩
  intro call hcall
  obtain rfl := List.eq_of_mem_replicate hcall
  exact nofun

end Vux9k

import Vux9k.Fat.Inside

/-!
# The copies of the FAT

`flush_fat` writes the cached sector to both copies, one after the other, and nothing else writes to
the FAT.  So the copies differ in at most the sector that is being written, wherever the power is
cut.
-/

set_option autoImplicit false

namespace Vux9k

variable {g : Geometry}

/-- Sector `i` of the second copy is that of the first, if there is one. -/
def SameCopy (g : Geometry) (c : Card) (i : ℕ) : Prop :=
  g.numFats = 2 → c (g.fatLba + g.fatSectors + i) = c (g.fatLba + i)

/-- The copies of the FAT are the same. -/
def CopiesAgree (g : Geometry) (c : Card) : Prop := ∀ i < g.fatSectors, SameCopy g c i

/-- They are the same but perhaps for one sector. -/
def CopiesNearlyAgree (g : Geometry) (c : Card) : Prop :=
  ∃ k, ∀ i < g.fatSectors, i ≠ k → SameCopy g c i

/-- The write is made. -/
def Written : FatEvent → Prop
  | ⟨.read _, _⟩ => True
  | ⟨.write _ _, b⟩ => b = true

/-- A card whose reads may fail, but not its writes. -/
abbrev writingDevice : CardEnv := Prog.Env.limit device Written

theorem CopiesAgree.nearly {c : Card} (h : CopiesAgree g c) : CopiesNearlyAgree g c :=
  ⟨0, fun i hi _ ↦ h i hi⟩

theorem sameCopy_update {c : Card} {lba i : ℕ} (s : Sector) (h : SameCopy g c i)
    (hfirst : lba ≠ g.fatLba + i) (hsecond : lba ≠ g.fatLba + g.fatSectors + i) :
    SameCopy g (Function.update c lba s) i := by
  intro htwo
  rw [Function.update_of_ne (Ne.symm hsecond), Function.update_of_ne (Ne.symm hfirst)]
  exact h htwo

/-- A write outside the FAT. -/
theorem CopiesAgree.update {c : Card} (h : CopiesAgree g c) {lba : ℕ} (s : Sector)
    (hout : lba < g.fatLba ∨ g.fatLba + g.numFats * g.fatSectors ≤ lba) :
    CopiesAgree g (Function.update c lba s) := by
  intro i hi htwo
  have hsize : g.numFats * g.fatSectors = g.fatSectors + g.fatSectors := by
    rw [htwo]
    omega
  exact sameCopy_update s (h i hi) (by omega) (by omega) htwo

/-- The volume, and the copies on its card. -/
structure Mirrored (g : Geometry) (c : Card) (v : Volume) : Prop extends Guarded g v where
  copies : CopiesAgree g c

theorem Mirrored.flush {c : Card} {v : Volume} (h : Mirrored g c v) :
    (Vol.flushFat v).Meets writingDevice (CopiesNearlyAgree g)
      (fun r c' ↦ Mirrored g c' r.2 ∧ (r.1 = .ok () → r.2.fatDirty = false)) c := by
  have hgeom := h.geometry
  subst hgeom
  change ((if v.fatDirty then _ else _ : Vol Unit) v).Meets _ _ _ _
  split
  swap
  next hd => exact ⟨h, fun _ ↦ Bool.eq_false_of_not_eq_true hd⟩
  next hd =>
  have hcached : v.fatCached < v.fatSectors := h.cached hd
  intro b c₁ hw
  obtain ⟨hc₁, rfl⟩ := hw
  rw [show c₁ = Function.update c (v.fatLba + v.fatCached) v.fatBuf from hc₁]
  have hothers : ∀ i < v.fatSectors, i ≠ v.fatCached →
      SameCopy v.toGeometry (Function.update c (v.fatLba + v.fatCached) v.fatBuf) i := by
    intro i hi hne
    exact sameCopy_update _ (h.copies i hi) (by omega) (by omega)
  refine ⟨⟨v.fatCached, hothers⟩, ?_⟩
  change ((if v.numFats = 2 then _ else _ : Vol Unit) v).Meets _ _ _ _
  split
  swap
  next hone =>
    have hcopies : CopiesAgree v.toGeometry
        (Function.update c (v.fatLba + v.fatCached) v.fatBuf) :=
      fun i hi htwo ↦ absurd htwo hone
    exact ⟨⟨⟨rfl, h.hint, by simp⟩, hcopies⟩, fun _ ↦ rfl⟩
  intro b c₂ hw
  obtain ⟨hc₂, rfl⟩ := hw
  have hcopies : CopiesAgree v.toGeometry c₂ := by
    rw [show c₂ = Function.update (Function.update c (v.fatLba + v.fatCached) v.fatBuf)
      (v.fatLba + v.fatSectors + v.fatCached) v.fatBuf from hc₂]
    intro i hi
    by_cases hne : i = v.fatCached
    · intro _
      rw [hne, Function.update_self, Function.update_of_ne (by omega), Function.update_self]
    · exact sameCopy_update _ (hothers i hi hne) (by omega) (by omega)
  exact ⟨hcopies.nearly, ⟨⟨rfl, h.hint, by simp⟩, hcopies⟩, fun _ ↦ rfl⟩

/-- A write to a sector that is not in the FAT. -/
theorem Mirrored.write {c : Card} {v : Volume} (h : Mirrored g c v) {lba : ℕ}
    (hout : lba < g.fatLba ∨ g.fatLba + g.numFats * g.fatSectors ≤ lba) {s : Sector} {b : Bool}
    {c' : Card} (hw : writingDevice c (.write lba s) b c') : Mirrored g c' v := by
  obtain ⟨hc', rfl⟩ := hw
  rw [show c' = Function.update c lba s from hc']
  exact ⟨h.toGuarded, h.copies.update s hout⟩

theorem Mirrored.begin :
    Keeps writingDevice (CopiesNearlyAgree g) (Mirrored g) Vol.beginChange fun _ ↦ True := by
  intro c v h
  have hgeom := h.geometry
  subst hgeom
  have hdone : Mirrored v.toGeometry c { v with fsinfoDone := true } :=
    ⟨⟨rfl, h.hint, h.cached⟩, h.copies⟩
  change ((if v.fsinfoDone then _ else _ : Vol Unit) v).Meets _ _ _ _
  split
  · exact ⟨h, fun _ _ ↦ trivial⟩
  change ((if v.fsinfoLba ≤ v.partLba ∨ v.fatLba ≤ v.fsinfoLba then _ else _ :
    Vol Unit) _).Meets _ _ _ _
  split
  · exact ⟨hdone, fun _ _ ↦ trivial⟩
  next hbetween =>
  simp only [not_or, not_le] at hbetween
  intro r c₁ hr
  obtain ⟨⟨-, rfl⟩, -⟩ := hr
  refine ⟨h.copies.nearly, ?_⟩
  cases r with
  | none => exact ⟨hdone, by simp⟩
  | some s =>
    change ((if le32 s 0 ≠ fsinfoLead ∨ le32 s 484 ≠ fsinfoStruct then _ else _ : Vol Unit) _).Meets
      _ _ _ _
    split
    · exact ⟨⟨⟨rfl, h.hint, h.cached⟩, h.copies⟩, fun _ _ ↦ trivial⟩
    intro b c₂ hw
    have h₂ := h.write (.inl hbetween.2) hw
    obtain rfl : b = true := hw.2
    exact ⟨h₂.copies.nearly, ⟨⟨rfl, h.hint, h.cached⟩, h₂.copies⟩, fun _ _ ↦ trivial⟩

theorem writable_mirrored (hg : g.Laid) :
    Writable writingDevice (CopiesNearlyAgree g) (g.extent hg) (Mirrored g) where
  geometry h := h.geometry
  safe h := h.copies.nearly
  reads _ hr := hr.1.2
  buf _ h := ⟨⟨h.geometry, h.hint, h.cached⟩, h.copies⟩
  cache _ _ h hclean :=
    ⟨⟨h.geometry, h.hint, fun hd ↦ absurd (hd.symm.trans hclean) (by simp)⟩, h.copies⟩
  flush h := h.flush
  hint h := h.hint
  write h hin hw := h.write (.inr (hg.data.trans hin.1)) hw
  dirty _ h hcached := ⟨⟨h.geometry, h.hint, fun _ ↦ hcached⟩, h.copies⟩
  nextFree _ hn h := ⟨⟨h.geometry, hn, h.cached⟩, h.copies⟩

/-- **The copies of the FAT stay the same**: on any card that mounts and whose copies are the same,
they differ in at most one sector at every moment of every run of a client (wherever the power is
cut), and are the same again when a method has returned, as long as no write fails. -/
theorem copies_agree {c₀ c : Card} {v : Volume} {ws : List Wr} {client : Client}
    {es : List FatEvent} {q : FatProg (Except FatError Unit × Volume)}
    (hmount : onCard mount c₀ = (.ok v, ws)) (hcopies : CopiesAgree v.toGeometry c₀)
    (hclient : client.Honest (· = .root v.root)) (hpath : (client.run v).Path es q)
    (hans : Prog.Answers device c₀ es c) (hwritten : ∀ e ∈ es, Written e) :
    CopiesNearlyAgree v.toGeometry c ∧
      ∀ r, q = .ret r → CopiesAgree v.toGeometry c := by
  obtain ⟨-, hfresh⟩ := fresh_mount hmount
  have hconfined := (writable_mirrored hfresh.laid).confined Mirrored.begin
  have hrun := hconfined.client (fun e he ↦ .inl he) hclient c₀ v ⟨hfresh.guarded, hcopies⟩
  obtain ⟨hnear, hrest⟩ := hrun.run hpath (hans.limit hwritten) hcopies.nearly
  refine ⟨hnear, ?_⟩
  rintro r rfl
  exact hrest.1.copies

/-- `smallCard` with a second copy of the FAT. -/
def mirrorCard : Card := sparse
  [(0, 450, 0x0C#8), (0, 454, 1#8), (0, 510, 0x55#8), (0, 511, 0xAA#8),
    (1, 12, 2#8), (1, 13, 1#8), (1, 14, 2#8), (1, 16, 2#8), (1, 19, 6#8), (1, 36, 1#8),
    (1, 44, 2#8),
    (1, 48, 1#8), (1, 510, 0x55#8), (1, 511, 0xAA#8),
    (3, 8, 0xFF#8), (3, 9, 0xFF#8), (3, 10, 0xFF#8), (3, 11, 0x0F#8),
    (4, 8, 0xFF#8), (4, 9, 0xFF#8), (4, 10, 0xFF#8), (4, 11, 0x0F#8)]

/-- The volume on it. -/
def mirrorVolume : Volume := { smallVolume with numFats := 2, dataLba := 5, buf := mirrorCard 1 }

theorem mount_mirror : onCard mount mirrorCard = (.ok mirrorVolume, []) := by
  rfl

theorem onFailing_written {α : Type} (p : FatProg α) (c : Card) (n : ℕ) :
    ∀ e ∈ (onFailing (fun _ ↦ false) p c n).1, Written e := by
  induction p generalizing c n with
  | ret a => exact fun e he ↦ absurd he List.not_mem_nil
  | ask o k ih =>
    intro e he
    cases o with
    | read lba =>
      rcases List.mem_cons.mp he with rfl | he
      · trivial
      · exact ih _ _ _ e he
    | write lba s =>
      rcases List.mem_cons.mp he with rfl | he
      · rfl
      · exact ih _ _ _ e he

theorem copies_mirror : CopiesAgree mirrorVolume.toGeometry mirrorCard := by
  rintro i hi -
  obtain rfl : i = 0 := Nat.lt_one_iff.mp hi
  funext j
  change sparse _ 4 j = sparse _ 3 j
  simp only [sparse, List.find?, Nat.reduceEqDiff, decide_false, decide_true,
    Bool.false_and, Bool.true_and]
  generalize decide (8 = j) = at8
  generalize decide (9 = j) = at9
  generalize decide (10 = j) = at10
  generalize decide (11 = j) = at11
  cases at8 <;> cases at9 <;> cases at10 <;> cases at11 <;> rfl

theorem copies_agree_mirror :
    CopiesNearlyAgree mirrorVolume.toGeometry
        (onFailing (fun _ ↦ false) (createFindRemove.run mirrorVolume) mirrorCard 0).2 ∧
      CopiesAgree mirrorVolume.toGeometry
        (onFailing (fun _ ↦ false) (createFindRemove.run mirrorVolume) mirrorCard 0).2 := by
  obtain ⟨⟨a, hpath⟩, hans⟩ :=
    onFailing_run (fun _ ↦ false) (createFindRemove.run mirrorVolume) mirrorCard 0
  have hrun := copies_agree mount_mirror copies_mirror honest_createFindRemove hpath hans
    (onFailing_written _ _ _)
  exact ⟨hrun.1, hrun.2 a rfl⟩

end Vux9k

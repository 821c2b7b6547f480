import Vux9k.Fat.Fsinfo

/-!
# No way out of the volume

A volume may be on a card with anything on it: looping or crossed chains, garbage in the
directories. And a card may answer a read with any data, or fail.  Whatever it does, the methods
read and write only FSInfo, the FAT and the clusters: their bounds rest on the checks that `mount`
has made and on those that they make themselves, never on what the card holds.
-/

set_option autoImplicit false

namespace Vux9k

/-! ## Sectors -/

/-- The sector of an operation. -/
def FatOp.lba : FatOp → ℕ
  | .read lba => lba
  | .write lba _ => lba

namespace Geometry

/-- A sector of a cluster. -/
def InData (g : Geometry) (lba : ℕ) : Prop :=
  g.dataLba ≤ lba ∧ lba < g.dataLba + (g.clusterEnd - 2) * g.clusterSectors

/-- A sector of a copy of the FAT. -/
def InFat (g : Geometry) (lba : ℕ) : Prop :=
  g.fatLba ≤ lba ∧ lba < g.fatLba + g.numFats * g.fatSectors

/-- The FSInfo sector, if it is between the boot sector and the FAT. -/
def IsFsinfo (g : Geometry) (lba : ℕ) : Prop :=
  lba = g.fsinfoLba ∧ g.partLba < g.fsinfoLba ∧ g.fsinfoLba < g.fatLba

/-- A sector that the methods may touch. -/
def Inside (g : Geometry) (lba : ℕ) : Prop := g.IsFsinfo lba ∨ g.InFat lba ∨ g.InData lba

variable {g : Geometry} {n s i : ℕ}

theorem inData_clusterLba (hn : g.isCluster n = true) (hs : s < g.clusterSectors) :
    g.InData (g.clusterLba n + s) := by
  simp only [isCluster, Bool.and_eq_true, decide_eq_true_eq] at hn
  have hle : (n - 2 + 1) * g.clusterSectors ≤ (g.clusterEnd - 2) * g.clusterSectors :=
    Nat.mul_le_mul_right _ (by omega)
  rw [Nat.add_mul, Nat.one_mul] at hle
  rw [g.clusterLba_eq]
  exact ⟨by omega, by omega⟩

theorem inFat_first (hg : g.Laid) (hi : i < g.fatSectors) : g.InFat (g.fatLba + i) := by
  refine ⟨Nat.le_add_right _ _, ?_⟩
  rcases hg.fats with h | h <;> rw [h] <;> omega

theorem inFat_second (h : g.numFats = 2) (hi : i < g.fatSectors) :
    g.InFat (g.fatLba + g.fatSectors + i) := ⟨by omega, by rw [h]; omega⟩

/-- The sector after one of the data, in the same cluster. -/
theorem InData.succ {lba : ℕ} (h : g.InData lba)
    (hs : (lba - g.dataLba + 1) % g.clusterSectors ≠ 0) :
    g.InData (lba + 1) := by
  refine ⟨h.1.trans (Nat.le_succ lba), ?_⟩
  by_contra hlt
  have heq : lba - g.dataLba + 1 = (g.clusterEnd - 2) * g.clusterSectors := by
    have := h.2
    have := h.1
    omega
  rw [heq, Nat.mul_mod_left] at hs
  exact hs rfl

/-- The cluster of a sector of the data. -/
theorem InData.isCluster {lba : ℕ} (h : g.InData lba) :
    g.isCluster ((lba - g.dataLba) >>> g.clusterShift + 2) = true := by
  have hlt : (lba - g.dataLba) / g.clusterSectors < g.clusterEnd - 2 := by
    rw [Nat.div_lt_iff_lt_mul g.clusterSectors_pos]
    have := h.1
    have := h.2
    omega
  rw [Geometry.clusterSectors, Nat.one_shiftLeft, ← Nat.shiftRight_eq_div_pow] at hlt
  simp only [Geometry.isCluster, Bool.and_eq_true, decide_eq_true_eq]
  generalize (lba - g.dataLba) >>> g.clusterShift = k at hlt ⊢
  omega

/-- The sectors of the FAT and of the clusters. -/
def extent (hg : g.Laid) : Extent g where
  fat i := i < g.fatSectors
  data := g.InData
  fat_lt := hg.sector_lt
  fat_data h := by
    have hn := h.isCluster
    simp only [isCluster, Bool.and_eq_true, decide_eq_true_eq] at hn
    exact hg.sector_lt hn.2
  data_cluster := inData_clusterLba
  data_succ h := h.succ

theorem inside_of_touches (hg : g.Laid) {lba : ℕ} (h : (extent hg).Touches lba) :
    g.Inside lba := by
  rcases h with ⟨i, hi, rfl⟩ | h
  · exact .inr (.inl (inFat_first hg hi))
  · exact .inr (.inr h)

end Geometry

variable {α : Type} {g : Geometry}

/-! ## Whatever the card answers -/

/-- Any answer will do: the card stays as it is, but an operation outside may leave any card. -/
def anyAnswer (g : Geometry) : CardEnv := fun c o _ c' ↦ g.Inside o.lba → c' = c

theorem inside_of_meets {p : FatProg α} {c : Card} {P : α → Card → Prop}
    (h : p.Meets (anyAnswer g) (· = c) P c) {es : List FatEvent} {q : FatProg α}
    (hpath : p.Path es q) : ∀ e ∈ es, g.Inside e.1.lba := by
  induction hpath with
  | nil p => simp
  | @cons o k r es q hp ih =>
    intro e he
    rcases List.mem_cons.mp he with rfl | he
    · by_contra hout
      -- another card would not be this one
      have hne := (h r (fun l j ↦ c l j + 1#8) fun hin ↦ absurd hin hout).1
      have hbyte : c 0 0 + 1#8 = c 0 0 := congrFun (congrFun hne 0) 0
      exact absurd hbyte (by simp)
    · exact ih (h r c fun _ ↦ rfl).2 e he

/-- What holds of the volume, whatever it has been answered. -/
structure Guarded (g : Geometry) (v : Volume) : Prop where
  geometry : v.toGeometry = g
  hint : 2 ≤ v.nextFree
  cached : v.fatDirty = true → v.fatCached < g.fatSectors

theorem Guarded.flush (hg : g.Laid) {c : Card} {v : Volume} (h : Guarded g v) :
    (Vol.flushFat v).Meets (anyAnswer g) (· = c)
      (fun r c' ↦ (c' = c ∧ Guarded g r.2) ∧ (r.1 = .ok () → r.2.fatDirty = false)) c := by
  change ((if v.fatDirty then _ else _ : Vol Unit) v).Meets _ _ _ _
  split
  swap
  next hd => exact ⟨⟨rfl, h⟩, fun _ ↦ Bool.eq_false_of_not_eq_true hd⟩
  next hd =>
  have hgeom := h.geometry
  subst hgeom
  have hcached : v.fatCached < v.fatSectors := h.cached hd
  have hfirst : v.toGeometry.Inside (v.fatLba + v.fatCached) :=
    .inr (.inl (Geometry.inFat_first hg hcached))
  intro b c₁ hw
  obtain rfl := hw hfirst
  refine ⟨rfl, ?_⟩
  cases b with
  | false => exact ⟨⟨rfl, h⟩, by simp⟩
  | true =>
    change ((if v.numFats = 2 then _ else _ : Vol Unit) v).Meets _ _ _ _
    split
    swap
    · exact ⟨⟨rfl, rfl, h.hint, by simp⟩, fun _ ↦ rfl⟩
    next htwo =>
    have hsecond : v.toGeometry.Inside (v.fatLba + v.fatSectors + v.fatCached) :=
      .inr (.inl (Geometry.inFat_second htwo hcached))
    intro b c₂ hw
    obtain rfl := hw hsecond
    refine ⟨rfl, ?_⟩
    cases b with
    | false => exact ⟨⟨rfl, h⟩, by simp⟩
    | true => exact ⟨⟨rfl, rfl, h.hint, by simp⟩, fun _ ↦ rfl⟩

theorem Guarded.begin (c : Card) :
    Keeps (anyAnswer g) (· = c) (fun c' v ↦ c' = c ∧ Guarded g v) Vol.beginChange
      fun _ ↦ True := by
  rintro c' v ⟨rfl, h⟩
  have hgeom := h.geometry
  subst hgeom
  change ((if v.fsinfoDone then _ else _ : Vol Unit) v).Meets _ _ _ _
  split
  · exact ⟨⟨rfl, h⟩, fun _ _ ↦ trivial⟩
  change ((if v.fsinfoLba ≤ v.partLba ∨ v.fatLba ≤ v.fsinfoLba then _ else _ :
    Vol Unit) _).Meets _ _ _ _
  split
  · exact ⟨⟨rfl, rfl, h.hint, h.cached⟩, fun _ _ ↦ trivial⟩
  next hbetween =>
  simp only [not_or, not_le] at hbetween
  have hfsinfo : v.toGeometry.Inside v.fsinfoLba := .inl ⟨rfl, hbetween.1, hbetween.2⟩
  intro r c₁ hr
  obtain rfl := hr hfsinfo
  refine ⟨rfl, ?_⟩
  cases r with
  | none => exact ⟨⟨rfl, rfl, h.hint, h.cached⟩, by simp⟩
  | some s =>
    change ((if le32 s 0 ≠ fsinfoLead ∨ le32 s 484 ≠ fsinfoStruct then _ else _ : Vol Unit) _).Meets
      _ _ _ _
    split
    · exact ⟨⟨rfl, rfl, h.hint, h.cached⟩, fun _ _ ↦ trivial⟩
    intro b c₂ hw
    obtain rfl := hw hfsinfo
    refine ⟨rfl, ?_⟩
    cases b with
    | false => exact ⟨⟨rfl, rfl, h.hint, h.cached⟩, by simp⟩
    | true => exact ⟨⟨rfl, rfl, h.hint, h.cached⟩, fun _ _ ↦ trivial⟩

theorem writable_guarded (hg : g.Laid) (c : Card) :
    Writable (anyAnswer g) (· = c) (g.extent hg) fun c' v ↦ c' = c ∧ Guarded g v where
  geometry h := h.2.geometry
  safe h := h.1
  reads hin hr := hr (Geometry.inside_of_touches hg hin)
  buf _ h := ⟨h.1, h.2.geometry, h.2.hint, h.2.cached⟩
  cache _ _ h hclean :=
    ⟨h.1, h.2.geometry, h.2.hint, fun hd ↦ absurd (hd.symm.trans hclean) (by simp)⟩
  flush := by
    rintro c' v ⟨rfl, h⟩
    exact h.flush hg
  hint h := h.2.hint
  write h hin hw := ⟨(hw (.inr (.inr hin))).trans h.1, h.2⟩
  dirty _ h hcached := ⟨h.1, h.2.geometry, h.2.hint, fun _ ↦ hcached⟩
  nextFree _ hn h := ⟨h.1, h.2.geometry, hn, h.2.cached⟩

theorem Fresh.guarded {v : Volume} (h : Fresh v) : Guarded v.toGeometry v where
  geometry := rfl
  hint := h.nextFree.ge
  cached hd := absurd (hd.symm.trans h.dirty) (by simp)

/-- Sectors that no write goes to stay as they are. -/
theorem answers_untouched {c c' : Card} {es : List FatEvent} (h : Prog.Answers device c es c')
    {lba : ℕ} (hlba : ∀ e ∈ es, e.1.lba ≠ lba) : c' lba = c lba := by
  induction h with
  | nil c => rfl
  | @cons c c₁ c₂ o r es hr _ ih =>
    rw [ih fun e he ↦ hlba e (List.mem_cons_of_mem _ he)]
    have hne := hlba _ List.mem_cons_self
    cases o with
    | read l => rw [hr.2]
    | write l s =>
      rw [show c₁ = if r then Function.update c l s else c from hr]
      split
      · exact Function.update_of_ne (Ne.symm hne) s c
      · rfl

/-- **No card contents and no errors lead a client of the volume outside it**: on any card that
mounts, whatever the card answers, every sector that is read or written is FSInfo, in the FAT or in
a cluster, and so no other sector changes. -/
theorem clients_stay_inside {c₀ c : Card} {v : Volume} {ws : List Wr} {client : Client}
    {es : List FatEvent} {q : FatProg (Except FatError Unit × Volume)}
    (hmount : onCard mount c₀ = (.ok v, ws)) (hclient : client.Honest (· = .root v.root))
    (hpath : (client.run v).Path es q) :
    (∀ e ∈ es, v.toGeometry.Inside e.1.lba) ∧
      (Prog.Answers device c₀ es c → ∀ lba, ¬v.toGeometry.Inside lba → c lba = c₀ lba) := by
  obtain ⟨-, hfresh⟩ := fresh_mount hmount
  have hconfined := (writable_guarded hfresh.laid c₀).confined (Guarded.begin c₀)
  have hrun := hconfined.client (fun e he ↦ .inl he) hclient c₀ v ⟨rfl, hfresh.guarded⟩
  have hin := inside_of_meets (hrun.mono fun _ _ hr ↦ hr) hpath
  refine ⟨hin, fun hans lba hout ↦ answers_untouched hans fun e he heq ↦ hout ?_⟩
  rw [← heq]
  exact hin e he

/-- The next call, once a file has been found. -/
def Client.removeFound : Except FatError (Option DirEntry) → Client
  | .ok (some e) => .change (.remove e) fun _ ↦ .done
  | _ => .done

/-- A file is created, looked for and removed. -/
def createFindRemove : Client :=
  .change (.create (.root 2) (.ofFn fun _ ↦ 0x41#8) [0x2A#8]) fun _ ↦
    .find (.root 2) (fun _ ↦ true) .removeFound

theorem honest_createFindRemove : createFindRemove.Honest (· = .root 2) := by
  refine ⟨by simp [Call.entry], fun _ r ↦ ?_⟩
  rcases r with e | _ | e
  · trivial
  · trivial
  · refine ⟨?_, fun _ ↦ trivial⟩
    rintro e' ⟨⟩
    exact .inr rfl

theorem clients_stay_inside_small :
    let run := onFailing (fun n ↦ n = 20) (createFindRemove.run smallVolume) smallCard 0
    (∀ e ∈ run.1, smallVolume.toGeometry.Inside e.1.lba) ∧
      (Prog.Answers device smallCard run.1 run.2 → ∀ lba, ¬smallVolume.toGeometry.Inside lba →
        run.2 lba = smallCard lba) := by
  obtain ⟨⟨a, hpath⟩, -⟩ :=
    onFailing_run (fun n ↦ n = 20) (createFindRemove.run smallVolume) smallCard 0
  exact clients_stay_inside mount_small honest_createFindRemove hpath

end Vux9k

import Vux9k.Fat.Folders

/-!
# Files replaced

`replace` of `fw_common/src/fat/write.rs`: the new file is made under another name, then the old one
is removed, and the new one renamed.  A full card leaves the old file as it was.
-/

set_option autoImplicit false

namespace Vux9k

variable {g : Geometry} {d d' : Disk} {t t' : Table} {lost : Set ℕ}

/-! ## A name taken out -/

namespace Table

variable {need : List Byte → ℕ} {i n n' : ℕ} {name old new : ShortName}

theorem set_item_eq {x : Option Item} (h : t.item i name = x) : t.set i name x = t := by
  rw [set]
  refine congrArg (Table.mk t.dirs) (funext fun k ↦ funext fun m ↦ ?_)
  split
  · rename_i hkm
    rw [hkm.1, hkm.2, h]
  · rfl

theorem set_set (x y : Option Item) : (t.set i name x).set i name y = t.set i name y := by
  rw [set, set, set]
  refine congrArg (Table.mk t.dirs) (funext fun k ↦ funext fun m ↦ ?_)
  dsimp only
  split
  · rfl
  · rfl

theorem without_eq (h : t.Without need n i name t' n') : t' = t.set i name none := by
  cases h with
  | none h => exact (set_item_eq h).symm
  | file h => rfl

theorem item_without (h : t.Without need n i name t' n') : t'.item i name = none := by
  rw [without_eq h, set_item_self]

theorem item_without_of_ne (h : t.Without need n i old t' n') (hne : new ≠ old) :
    t'.item i new = t.item i new := by
  rw [without_eq h, set_item_of_ne fun h ↦ hne h.2]

/-- What is taken out does not depend on another name. -/
theorem without_of_set (hne : name ≠ new) {x : Option Item}
    (h : (t.set i new x).Without need n i name t' n') :
    t.Without need n i name (t.set i name none) n' := by
  have hitem : (t.set i new x).item i name = t.item i name := set_item_of_ne fun h ↦ hne h.2
  cases h with
  | none h =>
    rw [hitem] at h
    rw [set_item_eq h]
    exact .none h
  | file h =>
    rw [hitem] at h
    exact .file h

/-- The new file, first under one name and then under the other. -/
theorem set_swapped (hne : name ≠ new) {x : Option Item} (hnew : t.item i new = none) :
    (((t.set i new x).set i name none).set i new none).set i name x =
      (t.set i name none).set i name x := by
  have hswap : (t.set i new x).set i name none = (t.set i name none).set i new x :=
    set_comm fun h ↦ hne h.2.symm
  have hitem : (t.set i name none).item i new = none := by
    rwa [set_item_of_ne fun h ↦ hne h.2.symm]
  rw [hswap, set_set, set_item_eq hitem]

end Table

/-! ## `replace` -/

theorem replaceTmp_proper : replaceTmp.Proper := by
  refine ⟨?_, ?_⟩
  · rw [ShortName.Shown]
    decide
  · rw [ShortName.Plain]
    decide

/-- `if let Some(entry) = self.find(dir, name)? { self.remove(&entry)?; }` -/
def Vol.clear (dir : DirEntry) (name : ShortName) : Vol Unit :=
  Vol.find dir name >>= fun o ↦ o.elim (pure ()) Vol.remove

/-- `replace` step by step. -/
theorem Vol.replace_eq (dir : DirEntry) (name : ShortName) (data : List Byte) :
    Vol.replace dir name data = Vol.find dir name >>= fun found ↦
      if (found.map DirEntry.isDir).getD false then Vol.throw .wrongType
      else Vol.clear dir replaceTmp >>= fun _ ↦
        if name = replaceTmp then Vol.create dir name data
        else Vol.create dir replaceTmp data >>= fun new ↦ Vol.clear dir name >>= fun _ ↦
          Vol.rename dir new name >>= fun _ ↦ pure { new with name := name } := by
  rw [Vol.replace]
  simp only [Vol.clear, Vol.bind_assoc]
  refine congrArg (Vol.find dir name >>= ·) (funext fun found ↦ ?_)
  refine if_congr Iff.rfl rfl (congrArg (Vol.find dir replaceTmp >>= ·) (funext fun stale ↦ ?_))
  rcases stale with _ | e
  rotate_left
  · refine congrArg (Vol.remove e >>= ·) (funext fun _ ↦ ?_)
    refine if_congr Iff.rfl rfl
      (congrArg (Vol.create dir replaceTmp data >>= ·) (funext fun new ↦ ?_))
    refine congrArg (Vol.find dir name >>= ·) (funext fun old ↦ ?_)
    cases old with
    | none => rfl
    | some e => rfl
  · refine if_congr Iff.rfl rfl
      (congrArg (Vol.create dir replaceTmp data >>= ·) (funext fun new ↦ ?_))
    refine congrArg (Vol.find dir name >>= ·) (funext fun old ↦ ?_)
    cases old with
    | none => rfl
    | some e => rfl

section Models

variable {i : ℕ}

/-- An entry listed, as `create` returns it. -/
theorem Disk.Has.of_listed {e : DirEntry} {x : Item} (h : d.Has g t i e x)
    (hown : e.lfnLba = e.lba ∧ e.lfnIndex = e.index) (hitem : t'.item i e.name = some x)
    (hstay : ∀ y ∈ d.entries g i, y.1.name = e.name → y ∈ d'.entries g i) : d'.Has g t' i e x := by
  obtain ⟨long, pb, pr, pa, hsits⟩ := h.sits
  obtain ⟨lba, index, hlisted⟩ := hsits.listed
  have hmem := hstay ({ e with lfnLba := lba, lfnIndex := index }, long) (by simp [hlisted]) rfl
  obtain ⟨qb, qr, qa, hsits'⟩ := exists_sits hmem
  have hself : ({ e with lfnLba := e.lba, lfnIndex := e.index } : DirEntry) = e := by
    obtain ⟨hlba, hindex⟩ := hown
    cases e
    simp_all only
  have hsits₂ := hsits'.own
  rw [hself] at hsits₂
  exact ⟨⟨long, _, _, _, hsits₂⟩, h.stands, hitem, h.plain⟩

/-- The file under a name is removed, if there is one. -/
theorem Disk.Models.ends_clear (hm : d.Models g t lost) (hg : g.Laid) {dir : DirEntry}
    (hdir : dir.isDir = true) (hi : dir.cluster ∈ t.dirs) {name : ShortName} (hname : name.Plain) :
    Disk.Ends g (Vol.clear dir name) d fun r d' ↦
      (r = .error .wrongType ∧ (∃ b, d' = d.hold b) ∧
        ∃ j, t.item dir.cluster name = some (.dir j)) ∨
        r = .ok () ∧ ∃ t', t.Without g.need (d.free g).card dir.cluster name t' (d'.free g).card ∧
          d'.Models g t' lost ∧
            ∀ y ∈ d.entries g dir.cluster, y.1.name ≠ name → y ∈ d'.entries g dir.cluster := by
  refine (hm.ends_find hdir hi hname).bind ?_ ?_
  swap
  · rintro err d' ⟨-, ⟨-, herr⟩ | ⟨_, _, _, _, herr⟩⟩
    · cases herr
    · cases herr
  rintro o _ ⟨⟨b, rfl⟩, ⟨hnone, ho⟩ | ⟨e, x, he, rfl, ho⟩⟩
  · cases ho
    exact ends_pure (.inr ⟨rfl, t, .none hnone, hm.hold hg b, fun _ hy _ ↦ hy⟩)
  cases ho
  have he := he.kept hm hg hi (.refl _ b)
  change Disk.Ends g (Vol.remove e) (d.hold b) _
  cases x with
  | dir j =>
    rw [Vol.remove, if_pos he.stands.1]
    exact ends_throw (.inl ⟨rfl, ⟨b, rfl⟩, j, he.item⟩)
  | file j contents =>
    refine ((hm.hold hg b).ends_removeFile hg hi he).mono ?_
    rintro r d' ⟨rfl, hm', hcard, hstay⟩
    refine .inr ⟨rfl, _, ?_, hm', hstay⟩
    rw [hcard]
    exact .file he.item

/-- The new file gets the old one's name. -/
theorem Disk.Created.ends_rename {d₁ d₂ : Disk} {t₂ : Table} (hg : g.Laid) {dir e : DirEntry}
    (hdir : dir.isDir = true) (hi : dir.cluster ∈ t.dirs) {name : ShortName} (hname : name.Proper)
    (hne : name ≠ replaceTmp) {data : List Byte}
    (h : d.Created g t lost dir.cluster replaceTmp data e d₁) {n n₂ : ℕ}
    (hold : (t.set dir.cluster replaceTmp (some (.file e.cluster data))).Without g.need n
      dir.cluster
      name t₂ n₂) (hm : d₂.Models g t₂ lost)
    (hstay : ∀ y ∈ d₁.entries g dir.cluster, y.1.name ≠ name → y ∈ d₂.entries g dir.cluster) :
    Disk.Ends g (Vol.rename dir e name) d₂ fun r d' ↦ r = .ok () ∧
      (d'.free g).card = (d₂.free g).card ∧
      d'.Models g ((t.set dir.cluster name none).set dir.cluster name
        (some (.file e.cluster data))) lost := by
  have hnamed := h.named
  have hhas := h.has
  have hitem : t₂.item dir.cluster e.name = some (.file e.cluster data) := by
    rw [hnamed, Table.item_without_of_ne hold (Ne.symm hne), Table.set_item_self]
  have hi₂ : dir.cluster ∈ t₂.dirs := by
    rw [Table.without_eq hold]
    exact hi
  have hhas₂ := hhas.of_listed h.own hitem fun y hy hyname ↦ hstay y hy (by
    rw [hyname, hnamed]
    exact Ne.symm hne)
  refine (hm.ends_rename hg hdir hi₂ hhas₂ hname).mono ?_
  rintro r d' ⟨t₃, hstep, hm₃, -⟩
  generalize hcard : (d'.free g).card = n₃ at hstep ⊢
  cases hstep with
  | renameDir h' =>
    rw [hitem] at h'
    cases h'
  | renameTaken h' hnew => exact absurd (Table.item_without hold) hnew
  | renamed h' hnew =>
    rw [hitem] at h'
    cases h'
    refine ⟨rfl, rfl, ?_⟩
    rw [hnamed, Table.without_eq hold, Table.set_swapped hne h.unused] at hm₃
    exact hm₃

/-- **`replace` puts a file under a name**, in place of the one that was there; on a full card the
old one is as it was. -/
theorem Disk.Models.ends_replace (hm : d.Models g t lost) (hg : g.Laid) {dir : DirEntry}
    (hdir : dir.isDir = true) (hi : dir.cluster ∈ t.dirs) {name : ShortName} (hname : name.Proper)
    {data : List Byte} (hdata : data.length < 2 ^ 32) :
    Disk.Ends g (Vol.replace dir name data) d fun r d' ↦
      d.Steps g t lost (.replace dir.cluster name data) (r.map fun _ ↦ ()) d' := by
  rw [Vol.replace_eq]
  refine (hm.ends_find hdir hi hname.plain).bind ?_ ?_
  swap
  · rintro err d' ⟨-, ⟨-, herr⟩ | ⟨_, _, _, _, herr⟩⟩
    · cases herr
    · cases herr
  rintro o _ ⟨⟨b, rfl⟩, hfound⟩
  have hm := hm.hold hg b
  by_cases hj : ∃ j, t.item dir.cluster name = some (.dir j)
  · -- a directory is not replaced
    obtain ⟨j, hj⟩ := hj
    obtain ⟨hnone, -⟩ | ⟨e, x, he, hename, ho⟩ := hfound
    · rw [hj] at hnone
      cases hnone
    cases ho
    have hx : x = .dir j := by
      have := he.item
      rw [hename, hj] at this
      exact (Option.some.inj this).symm
    subst hx
    rw [if_pos (by rw [Option.map_some, Option.getD_some]; exact he.stands.1)]
    exact ends_throw ⟨t, .replaceDir hj, hm, fun _ _ h ↦ h.elim⟩
  have hfile : (o.map DirEntry.isDir).getD false = false := by
    obtain ⟨-, ho⟩ | ⟨e, x, he, hename, ho⟩ := hfound
    · cases ho
      rfl
    · cases ho
      cases x with
      | dir j => exact absurd ⟨j, hename ▸ he.item⟩ hj
      | file j contents => exact he.stands.1
  rw [hfile, if_neg Bool.false_ne_true]
  have hj := not_exists.mp hj
  refine (hm.ends_clear hg hdir hi replaceTmp_proper.plain).bind ?_ ?_
  swap
  · rintro err _ (⟨herr, ⟨b', rfl⟩, j, htemp⟩ | ⟨herr, -⟩)
    · cases herr
      exact ⟨t, .replaceTemp hj htemp, hm.hold hg b', fun _ _ h ↦ h.elim⟩
    · cases herr
  rintro _ d₁ (⟨herr, -⟩ | ⟨-, t₁, hwithout, hm₁, -⟩)
  · cases herr
  have hi₁ : dir.cluster ∈ t₁.dirs := by
    rw [Table.without_eq hwithout]
    exact hi
  have hnone := Table.item_without hwithout
  -- a full card stops here, with the old file still there
  have hfull :
      ∀ {name' err d'}, d₁.Steps g t₁ lost (.create dir.cluster name' data) (.error err) d' →
      t₁.item dir.cluster name' = none →
      d.Steps g t lost (.replace dir.cluster name data) (.error err) d' := by
    rintro name' err d' ⟨t', hstep, hm', -⟩ hnone'
    generalize hcard : (d'.free g).card = n' at hstep
    cases hstep with
    | createTaken h => exact absurd hnone' h
    | createFull h hn =>
      refine ⟨t₁, ?_, hm', fun _ _ h ↦ h.elim⟩
      rw [hcard]
      exact .replaceFull hj hwithout (d₁.growth_le g _) hn
  refine ends_ite (fun heq ↦ ?_) fun hne ↦ ?_
  · subst heq
    refine (hm₁.ends_create hg hdir hi₁ hname hdata).mono ?_
    rintro _ d' (⟨err, rfl, hsteps⟩ | ⟨e, rfl, hcreated⟩)
    · exact hfull hsteps hnone
    · exact .of_ok (.replaced hj hwithout (d₁.growth_le g _) hcreated.card (.none hnone))
        hcreated.models
  refine (hm₁.ends_create hg hdir hi₁ replaceTmp_proper hdata).bind ?_ ?_
  swap
  · rintro err d' (⟨err', herr, hsteps⟩ | ⟨e, herr, -⟩)
    · cases herr
      exact hfull hsteps hnone
    · cases herr
  rintro e d₂ (⟨err, herr, -⟩ | ⟨e', he', hcreated⟩)
  · cases herr
  cases he'
  refine (hcreated.models.ends_clear hg hdir hi₁ hname.plain).bind ?_ ?_
  swap
  · rintro err _ (⟨-, -, j, hdirItem⟩ | ⟨herr, -⟩)
    · rw [Table.set_item_of_ne fun h ↦ hne h.2, Table.item_without_of_ne hwithout hne] at hdirItem
      exact absurd hdirItem (hj j)
    · cases herr
  rintro _ d₃ (⟨herr, -⟩ | ⟨-, t₃, hold, hm₃, hstay⟩)
  · cases herr
  refine (hcreated.ends_rename hg hdir hi₁ hname hne hold hm₃ hstay).bind ?_ ?_
  swap
  · rintro err d' ⟨herr, -⟩
    cases herr
  rintro _ d₄ ⟨-, hcard₄, hm₄⟩
  refine ends_pure (.of_ok ?_ hm₄)
  rw [hcard₄]
  exact .replaced hj hwithout (d₁.growth_le g _) hcreated.card (Table.without_of_set hne hold)

end Models

end Vux9k

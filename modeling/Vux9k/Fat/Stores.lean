import Vux9k.Fat.Create
import Vux9k.Fat.Fsinfo

/-!
# What a change leaves of the card

The results about the disk, said of the card and the volume: what a file holds is what `read_to`
returns, and files and directories whose chains a change does not touch are as they were.
-/

set_option autoImplicit false

namespace Vux9k

open Vol (Slot)

variable {c c' : Card} {v v' : Volume}

/-! ## The disk of a card -/

/-- What the volume on the card amounts to. -/
def diskOf (c : Card) (v : Volume) : Disk := ⟨v.raw c, c, v.buf, v.fatDirty⟩

/-- Where the search for a free cluster starts is in the volume, or just behind it. -/
def Volume.HintOk (v : Volume) : Prop := 2 ≤ v.nextFree ∧ v.nextFree ≤ v.clusterEnd

theorem Settled.depicts (h : Settled c v) (hhint : v.HintOk) :
    Depicts v.toGeometry (diskOf c v) c v :=
  ⟨h.sound, rfl, fun hne ↦ (h.cached hne).1, fun _ _ ↦ rfl, fun _ _ ↦ rfl, rfl, id, hhint⟩

/-- The clusters of a chain. -/
def chainOf (c : Card) (v : Volume) (first : ℕ) : List ℕ :=
  (chainFrom v.toGeometry (v.entry c) v.clusterEnd first).1

section Depicts

variable {g : Geometry} {d d' : Disk}

/-- The FAT on the card, when nothing waits in the cache. -/
theorem Depicts.fatAt_eq (hd : Depicts g d c v) (hclean : d.dirty = false) {n : ℕ}
    (hn : g.isCluster n = true) : fatAt g c n = d.entry n := by
  have hlt : n < v.clusterEnd := by
    rw [hd.geometry]
    exact (hd.laid.toOk.lt_eoc hn).2.1
  rw [← hd.entry_of_isCluster hn, (hd.settled hclean).entry_eq hlt, hd.geometry]

theorem Depicts.clusterData_eq (hd : Depicts g d c v) (n : ℕ) :
    clusterData g c n = clusterData g d.area n := by
  refine clusterData_congr fun s _ ↦ hd.area _ (.inr ?_)
  exact (g.dataLba_le_clusterLba n).trans (Nat.le_add_right _ _)

/-- **A file on the card holds what its chain on the disk holds.** -/
theorem Depicts.hasContents_iff (hd : Depicts g d c v) (hclean : d.dirty = false) {f : DirEntry}
    {contents : List Byte} : HasContents g c f contents ↔
      f.isDir = false ∧ f.size = contents.length ∧ d.Holds g f.cluster contents := by
  have hchain : ∀ ns, IsChain g (fatAt g c) ns ↔ IsChain g d.entry ns := fun ns ↦
    ⟨fun h ↦ h.congr fun n hn ↦ (hd.fatAt_eq hclean (h.isCluster_of_mem n hn)).symm,
      fun h ↦ h.congr fun n hn ↦ hd.fatAt_eq hclean (h.isCluster_of_mem n hn)⟩
  have hdata : clusterData g c = clusterData g d.area := funext hd.clusterData_eq
  constructor
  · rintro ⟨h₁, h₂, h₃, h₄⟩
    simp only [hchain, hdata] at h₄
    exact ⟨h₁, h₂, h₃, h₄⟩
  · rintro ⟨h₁, h₂, h₃, h₄⟩
    refine ⟨h₁, h₂, h₃, ?_⟩
    simp only [hchain, hdata]
    exact h₄

end Depicts

/-! ## Reading back -/

theorem foldl_append_chunks (data : List Byte) :
    (chunks sectorLen data).foldl (fun got x ↦ got ++ x) [] = data := by
  have hfold : ∀ (xs : List (List Byte)) (acc : List Byte),
      xs.foldl (fun got x ↦ got ++ x) acc = acc ++ xs.flatten := by
    intro xs
    induction xs with
    | nil => simp
    | cons x xs ih => simp [ih]
  rw [hfold, List.nil_append, flatten_chunks (by decide)]

/-- **`read_to` returns what the file holds.** -/
theorem reads_readTo (hg : v.toGeometry.Ok) (h : Clean c v) {file : DirEntry} {contents : List Byte}
    (hfile : HasContents v.toGeometry c file contents) {len : ℕ} (hlen : contents.length ≤ len) :
    Reads c v (Vol.readTo file len) (.ok contents) := by
  rw [Vol.readTo, if_neg (by rw [hfile.size]; omega)]
  refine (reads_forEachSector hg h hfile []).bind fun v' hv' ↦ ?_
  dsimp only
  rw [foldl_append_chunks]
  exact reads_pure hv'.clean contents

theorem Settled.toClean (h : Settled c v) : Clean c v := ⟨h.clean, fun hne ↦ (h.cached hne).2⟩

end Vux9k

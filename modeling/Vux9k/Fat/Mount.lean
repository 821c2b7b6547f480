import Vux9k.Fat.View

/-!
# Mounting a volume

`Volume::mount` of `fw_common/src/fat/mod.rs`: the first partition of the card's MBR, if its boot
sector describes a FAT32 volume with which nothing can go wrong later.
-/

set_option autoImplicit false

namespace Vux9k

/-- `[0x55, 0xAA]` at the end of a sector. -/
def hasSignature (s : Sector) : Bool := s 510 = 0x55#8 && s 511 = 0xAA#8

/-- `is_power_of_two`. -/
def isPowerOfTwo (n : ℕ) : Bool := n ≠ 0 && n &&& (n - 1) = 0

/-- The LBA of the first partition in the MBR. -/
def partitionLba (mbr : Sector) : Except FatError ℕ :=
  if mbr 450 = 0x00#8 then .error .noPartition
  else if mbr 450 = 0x0B#8 ∨ mbr 450 = 0x0C#8 then .ok (le32 mbr 454)
  else .error .notFat32

/-- `TotSec16` when it fits, else `TotSec32`. -/
def totalSectors (b : Sector) : ℕ := if le16 b 19 = 0 then le32 b 32 else le16 b 19

/-- What `mount` makes of the boot sector `b` of the partition at `partLba`. -/
def volumeOf (partLba : ℕ) (b : Sector) : Except FatError Volume :=
  if ¬hasSignature b then .error .noSignature
  else
    let bytesPerSector := le16 b 11
    let clusterSectors := (b 13).toNat
    let reserved := le16 b 14
    let numFats := (b 16).toNat
    if le16 b 22 ≠ 0 ∨ le16 b 17 ≠ 0 then .error .notFat32
    else
      let total := totalSectors b
      let fatSectors := le32 b 36
      if bytesPerSector ≠ sectorLen ∨ ¬isPowerOfTwo clusterSectors ∨ reserved = 0 ∨
          ¬(1 ≤ numFats ∧ numFats ≤ 2) ∨ fatSectors = 0 then .error .badBpb
      else
        let clusterShift := clusterSectors.log2
        let meta' := reserved + fatSectors <<< (numFats - 1)
        if total ≤ meta' then .error .badBpb
        else
          let clusters := (total - meta') >>> clusterShift
          if maxClusters < clusters ∨ b 40 &&& 0x80#8 ≠ 0#8 then .error .badBpb
          else if fatSectors <<< 7 < clusters + 2 ∨ 0xFFFFFFFF < partLba + total then .error .badBpb
          else
            let v : Volume :=
              { partLba := partLba
                fatLba := partLba + reserved
                fatSectors := fatSectors
                numFats := numFats
                dataLba := partLba + meta'
                clusterShift := clusterShift
                clusterEnd := clusters + 2
                root := le32 b 44
                -- the one sum here that nothing keeps below `2 ^ 32`
                fsinfoLba := (partLba + le16 b 48) % 2 ^ 32
                buf := b
                fatBuf := fun _ ↦ 0#8
                fatCached := noSector
                fatDirty := false
                nextFree := 2
                fsinfoDone := false }
            if v.isCluster v.root then .ok v else .error .badBpb

/-- `mount`. -/
def mount : FatProg (Except FatError Volume) :=
  .ask (.read 0) fun
    | none => .ret (.error (.io 0))
    | some mbr =>
      if ¬hasSignature mbr then .ret (.error .noSignature)
      else
        match partitionLba mbr with
        | .error e => .ret (.error e)
        | .ok partLba =>
          .ask (.read partLba) fun
            | none => .ret (.error (.io partLba))
            | some b => .ret (volumeOf partLba b)

/-- A volume nothing has been done with yet. -/
structure Fresh (v : Volume) : Prop where
  laid : v.toGeometry.Laid
  root : v.isCluster v.root = true
  cached : v.fatCached = noSector
  dirty : v.fatDirty = false
  nextFree : v.nextFree = 2
  fsinfoDone : v.fsinfoDone = false

theorem fresh_volumeOf {partLba : ℕ} {b : Sector} {v : Volume} (h : volumeOf partLba b = .ok v) :
    Fresh v := by
  unfold volumeOf at h
  split at h
  · cases h
  dsimp only at h
  split at h
  · cases h
  split at h
  · cases h
  rename_i hbpb
  simp only [not_or, not_not] at hbpb
  obtain ⟨-, -, -, hfats, -⟩ := hbpb
  split at h
  · cases h
  split at h
  · cases h
  rename_i hclusters
  split at h
  · cases h
  rename_i hentries
  split at h
  swap
  · cases h
  rename_i hroot
  cases h
  simp only [not_or, not_lt] at hclusters hentries
  refine ⟨⟨⟨?_⟩, ?_, ?_, ?_, ?_⟩, hroot, rfl, rfl, rfl, rfl⟩
  · exact Nat.add_le_add_right hclusters.1 2
  · change (b 16).toNat = 1 ∨ (b 16).toNat = 2
    omega
  · exact hentries.1.trans_eq (Nat.shiftLeft_eq (le32 b 36) 7)
  · have := (word b 36).isLt
    change (word b 36).toNat ≤ noSector
    unfold noSector
    omega
  · change partLba + le16 b 14 + (b 16).toNat * le32 b 36 ≤
      partLba + (le16 b 14 + le32 b 36 <<< ((b 16).toNat - 1))
    obtain hn | hn : (b 16).toNat = 1 ∨ (b 16).toNat = 2 := by omega
    · rw [hn, Nat.sub_self, Nat.shiftLeft_zero]
      omega
    · rw [hn, Nat.shiftLeft_eq]
      omega

/-- **A mounted volume is laid out as its methods rely on**, and has written nothing. -/
theorem fresh_mount {c : Card} {v : Volume} {ws : List Wr} (h : onCard mount c = (.ok v, ws)) :
    ws = [] ∧ Fresh v := by
  rw [mount, onCard] at h
  dsimp only at h
  split at h
  · cases h
  cases hpart : partitionLba (c 0) with
  | error e =>
    rw [hpart] at h
    cases h
  | ok partLba =>
    rw [hpart] at h
    simp only [onCard, Prod.mk.injEq] at h
    exact ⟨h.2.symm, fresh_volumeOf h.1⟩

end Vux9k

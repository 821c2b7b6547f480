import Vux9k.Fat.Mount

/-!
# The arithmetic of `mount`

`Volume::mount` computes with fields that anyone may have written.  `volumeOfChecked` is
`volumeOf` with every sum, difference and shift looked at: it has no result where one of them does
not fit its type.  `BpbOk` are the checks that come before the volume is put together, as conditions
on the fields; with them every result fits (`volumeOfChecked_eq`) but the LBA of FSInfo, and the
geometry is what the rest of the code relies on (`Geometry.Placed`).
-/

set_option autoImplicit false

namespace Vux9k

/-! ## Sums that fit -/

/-- `a + b` of two `u32`. -/
def addU32 (a b : ℕ) : Option ℕ := if a + b < 2 ^ 32 then some (a + b) else none

/-- `a - b` of two `u32`. -/
def subU32 (a b : ℕ) : Option ℕ := if b ≤ a then some (a - b) else none

/-- `a << n` of a `u32`, no bit lost. -/
def shlU32 (a n : ℕ) : Option ℕ := if n < 32 ∧ a <<< n < 2 ^ 32 then some (a <<< n) else none

/-- `a >> n` of a `u32`. -/
def shrU32 (a n : ℕ) : Option ℕ := if n < 32 then some (a >>> n) else none

/-- `a + b` of two `u64`. -/
def addU64 (a b : ℕ) : Option ℕ := if a + b < 2 ^ 64 then some (a + b) else none

/-- `a << n` of a `u64`, no bit lost. -/
def shlU64 (a n : ℕ) : Option ℕ := if n < 64 ∧ a <<< n < 2 ^ 64 then some (a <<< n) else none

/-! ## `mount`, looked at -/

/-- `volumeOf`, none where a sum, a difference or a shift does not fit. -/
def volumeOfChecked (partLba : ℕ) (b : Sector) : Option (Except FatError Volume) :=
  if ¬hasSignature b then some (.error .noSignature)
  else
    let bytesPerSector := le16 b 11
    let clusterSectors := (b 13).toNat
    let reserved := le16 b 14
    let numFats := (b 16).toNat
    if le16 b 22 ≠ 0 ∨ le16 b 17 ≠ 0 then some (.error .notFat32)
    else
      let total := totalSectors b
      let fatSectors := le32 b 36
      if bytesPerSector ≠ sectorLen ∨ ¬isPowerOfTwo clusterSectors ∨ reserved = 0 ∨
          ¬(1 ≤ numFats ∧ numFats ≤ 2) ∨ fatSectors = 0 then some (.error .badBpb)
      else do
        let clusterShift := clusterSectors.log2
        let copies ← shlU64 fatSectors (← subU32 numFats 1)
        let meta' ← addU64 reserved copies
        if total ≤ meta' then some (.error .badBpb)
        else do
          let clusters ← shrU32 (← subU32 total (meta' % 2 ^ 32)) clusterShift
          if maxClusters < clusters ∨ b 40 &&& 0x80#8 ≠ 0#8 then some (.error .badBpb)
          else do
            let entries ← shlU64 fatSectors 7
            let ends ← addU64 partLba total
            if entries < (← addU64 clusters 2) ∨ 0xFFFFFFFF < ends then some (.error .badBpb)
            else do
              let v : Volume :=
                { partLba := partLba
                  fatLba := ← addU32 partLba reserved
                  fatSectors := fatSectors
                  numFats := numFats
                  dataLba := ← addU32 partLba (meta' % 2 ^ 32)
                  clusterShift := clusterShift
                  clusterEnd := ← addU32 clusters 2
                  root := le32 b 44
                  fsinfoLba := ← addU32 partLba (le16 b 48)
                  buf := b
                  fatBuf := fun _ ↦ 0#8
                  fatCached := noSector
                  fatDirty := false
                  nextFree := 2
                  fsinfoDone := false }
              some (if v.isCluster v.root then .ok v else .error .badBpb)

/-- What `mount` makes of the MBR and the boot sector. -/
def mountResult (mbr b : Sector) : Except FatError Volume :=
  if ¬hasSignature mbr then .error .noSignature
  else
    match partitionLba mbr with
    | .error e => .error e
    | .ok partLba => volumeOf partLba b

/-- The same, none where something does not fit. -/
def mountChecked (mbr b : Sector) : Option (Except FatError Volume) :=
  if ¬hasSignature mbr then some (.error .noSignature)
  else
    match partitionLba mbr with
    | .error e => some (.error e)
    | .ok partLba => volumeOfChecked partLba b

/-- `mount` reads the two sectors, and no more. -/
theorem onCard_mount (c : Card) : ∃ b, onCard mount c = (mountResult (c 0) b, []) ∧
    ∀ partLba, partitionLba (c 0) = .ok partLba → b = c partLba := by
  rw [mount, onCard]
  simp only [mountResult]
  by_cases hsig : ¬hasSignature (c 0)
  · cases hpart : partitionLba (c 0) with
    | error e => exact ⟨c 0, by rw [if_pos hsig, if_pos hsig]; rfl, by simp⟩
    | ok partLba =>
      refine ⟨c partLba, by rw [if_pos hsig, if_pos hsig]; rfl, ?_⟩
      rintro _ ⟨⟩
      rfl
  · cases hpart : partitionLba (c 0) with
    | error e => exact ⟨c 0, by rw [if_neg hsig, if_neg hsig]; rfl, by simp⟩
    | ok partLba =>
      refine ⟨c partLba, by rw [if_neg hsig, if_neg hsig]; rfl, ?_⟩
      rintro _ ⟨⟩
      rfl

/-! ## The checks -/

/-- `meta`: the sectors before the data area. -/
def metaSectors (b : Sector) : ℕ := le16 b 14 + le32 b 36 <<< ((b 16).toNat - 1)

/-- `clusters`. -/
def clusterCount (b : Sector) : ℕ := (totalSectors b - metaSectors b) >>> (b 13).toNat.log2

/-- What `mount` asks of the boot sector of a partition before it puts the volume together. -/
structure BpbOk (partLba : ℕ) (b : Sector) : Prop where
  signature : hasSignature b = true
  fatSz16 : le16 b 22 = 0
  rootEntries : le16 b 17 = 0
  bytes : le16 b 11 = sectorLen
  cluster : isPowerOfTwo (b 13).toNat = true
  reserved : le16 b 14 ≠ 0
  fats : 1 ≤ (b 16).toNat ∧ (b 16).toNat ≤ 2
  fatSectors : le32 b 36 ≠ 0
  fits : metaSectors b < totalSectors b
  clusters : clusterCount b ≤ maxClusters
  mirrored : b 40 &&& 0x80#8 = 0#8
  entries : clusterCount b + 2 ≤ le32 b 36 <<< 7
  ends : partLba + totalSectors b ≤ 0xFFFFFFFF

/-- The volume that is put together then. -/
def bpbVolume (partLba : ℕ) (b : Sector) : Volume where
  partLba := partLba
  fatLba := partLba + le16 b 14
  fatSectors := le32 b 36
  numFats := (b 16).toNat
  dataLba := partLba + metaSectors b
  clusterShift := (b 13).toNat.log2
  clusterEnd := clusterCount b + 2
  root := le32 b 44
  fsinfoLba := (partLba + le16 b 48) % 2 ^ 32
  buf := b
  fatBuf := fun _ ↦ 0#8
  fatCached := noSector
  fatDirty := false
  nextFree := 2
  fsinfoDone := false

theorem le16_lt (b : Sector) (i : ℕ) : le16 b i < 2 ^ 16 := by
  have h1 : (b i).toNat < 2 ^ 16 := (b i).isLt.trans (by decide)
  have h2 : (b (i + 1)).toNat <<< 8 < 2 ^ 16 := by
    have := (b (i + 1)).isLt
    rw [Nat.shiftLeft_eq]
    omega
  exact Nat.or_lt_two_pow h1 h2

theorem le32_lt (b : Sector) (i : ℕ) : le32 b i < 2 ^ 32 := (word b i).isLt

theorem totalSectors_lt (b : Sector) : totalSectors b < 2 ^ 32 := by
  rw [totalSectors]
  split
  · exact le32_lt b 32
  · exact (le16_lt b 19).trans (by decide)

section

variable {partLba : ℕ} {b : Sector}

/-- **With the checks, the volume is put together.** -/
theorem volumeOf_of_ok (h : BpbOk partLba b) : volumeOf partLba b =
    if (bpbVolume partLba b).isCluster (le32 b 44) then .ok (bpbVolume partLba b)
    else .error .badBpb := by
  have hbpb : ¬(le16 b 11 ≠ sectorLen ∨ ¬isPowerOfTwo (b 13).toNat ∨ le16 b 14 = 0 ∨
      ¬(1 ≤ (b 16).toNat ∧ (b 16).toNat ≤ 2) ∨ le32 b 36 = 0) := by
    simp only [not_or, not_not]
    exact ⟨h.bytes, h.cluster, h.reserved, h.fats, h.fatSectors⟩
  have hclusters := h.clusters
  have hentries := h.entries
  have hends := h.ends
  have hmirror : ¬(maxClusters < clusterCount b ∨ b 40 &&& 0x80#8 ≠ 0#8) := by
    simp only [not_or, not_not]
    exact ⟨by omega, h.mirrored⟩
  rw [volumeOf, if_neg (by rw [h.signature]; simp)]
  dsimp only
  rw [if_neg (by rw [h.fatSz16, h.rootEntries]; simp), if_neg hbpb, ← metaSectors,
    if_neg (not_le.mpr h.fits), ← clusterCount, if_neg hmirror, if_neg (by omega)]
  rfl

theorem log2_lt (x : Byte) : x.toNat.log2 < 8 := by
  have hx : x.toNat < 2 ^ 8 := x.isLt
  rcases Nat.eq_zero_or_pos x.toNat with h0 | hpos
  · rw [h0]
    decide
  · exact (Nat.log2_lt hpos.ne').mpr hx

/-- The first sums fit because there are one or two FATs of less than `2 ^ 32` sectors. -/
theorem metaSectors_fits (hfats : 1 ≤ (b 16).toNat ∧ (b 16).toNat ≤ 2) :
    subU32 (b 16).toNat 1 = some ((b 16).toNat - 1) ∧
      shlU64 (le32 b 36) ((b 16).toNat - 1) = some (le32 b 36 <<< ((b 16).toNat - 1)) ∧
      addU64 (le16 b 14) (le32 b 36 <<< ((b 16).toNat - 1)) = some (metaSectors b) := by
  have hfat := le32_lt b 36
  have hres := le16_lt b 14
  have hshl : le32 b 36 <<< ((b 16).toNat - 1) < 2 ^ 33 := by
    obtain hn | hn : (b 16).toNat = 1 ∨ (b 16).toNat = 2 := by omega
    · rw [hn, Nat.shiftLeft_eq]
      omega
    · rw [hn, Nat.shiftLeft_eq]
      omega
  exact ⟨if_pos hfats.1, if_pos (by omega), if_pos (by omega)⟩

/-- The number of clusters, once there is room for any. -/
theorem clusterCount_fits (hfits : metaSectors b < totalSectors b) :
    subU32 (totalSectors b) (metaSectors b % 2 ^ 32) = some (totalSectors b - metaSectors b) ∧
      shrU32 (totalSectors b - metaSectors b) (b 13).toNat.log2 = some (clusterCount b) := by
  have htotal := totalSectors_lt b
  have hmod : metaSectors b % 2 ^ 32 = metaSectors b := Nat.mod_eq_of_lt (by omega)
  have hlog := log2_lt (b 13)
  rw [hmod]
  exact ⟨if_pos hfits.le, if_pos (by omega)⟩

/-- The bounds that are compared. -/
theorem bounds_fit (hpart : partLba < 2 ^ 32) (hclusters : clusterCount b ≤ maxClusters) :
    shlU64 (le32 b 36) 7 = some (le32 b 36 <<< 7) ∧
      addU64 partLba (totalSectors b) = some (partLba + totalSectors b) ∧
      addU64 (clusterCount b) 2 = some (clusterCount b + 2) := by
  have hfat := le32_lt b 36
  have htotal := totalSectors_lt b
  have hmax : maxClusters = 0x0FFFFFF5 := rfl
  refine ⟨if_pos ⟨by decide, ?_⟩, if_pos (by omega), if_pos (by omega)⟩
  rw [Nat.shiftLeft_eq]
  omega

/-- The LBAs of the volume fit because the partition does; FSInfo's offset is not looked at. -/
theorem lbas_fit (h : BpbOk partLba b) :
    addU32 partLba (le16 b 14) = some (partLba + le16 b 14) ∧
      addU32 partLba (metaSectors b % 2 ^ 32) = some (partLba + metaSectors b) ∧
      addU32 (clusterCount b) 2 = some (clusterCount b + 2) := by
  have hends := h.ends
  have hfits := h.fits
  have hclusters := h.clusters
  have hmax : maxClusters = 0x0FFFFFF5 := rfl
  have hres : le16 b 14 ≤ metaSectors b := Nat.le_add_right _ _
  have hmod : metaSectors b % 2 ^ 32 = metaSectors b := Nat.mod_eq_of_lt (by omega)
  rw [hmod]
  exact ⟨if_pos (by omega), if_pos (by omega), if_pos (by omega)⟩

/-- **What fits**: everything, unless the checks pass and FSInfo is said to be above the 32-bit
LBAs. -/
theorem volumeOfChecked_eq (hpart : partLba < 2 ^ 32) :
    (¬BpbOk partLba b → volumeOfChecked partLba b = some (volumeOf partLba b)) ∧
    (BpbOk partLba b → volumeOfChecked partLba b =
      (addU32 partLba (le16 b 48)).map fun _ ↦ volumeOf partLba b) := by
  by_cases hsig : ¬hasSignature b
  · refine ⟨fun _ ↦ ?_, fun h ↦ absurd h.signature hsig⟩
    rw [volumeOfChecked, volumeOf, if_pos hsig, if_pos hsig]
  by_cases hold : le16 b 22 ≠ 0 ∨ le16 b 17 ≠ 0
  · refine ⟨fun _ ↦ ?_, fun h ↦ absurd hold (by simp [h.fatSz16, h.rootEntries])⟩
    rw [volumeOfChecked, volumeOf, if_neg hsig, if_neg hsig]
    dsimp only
    rw [if_pos hold, if_pos hold]
  by_cases hbpb : le16 b 11 ≠ sectorLen ∨ ¬isPowerOfTwo (b 13).toNat ∨ le16 b 14 = 0 ∨
      ¬(1 ≤ (b 16).toNat ∧ (b 16).toNat ≤ 2) ∨ le32 b 36 = 0
  · refine ⟨fun _ ↦ ?_, fun h ↦ absurd hbpb (by
      simp [h.bytes, h.cluster, h.reserved, h.fats, h.fatSectors])⟩
    rw [volumeOfChecked, volumeOf, if_neg hsig, if_neg hsig]
    dsimp only
    rw [if_neg hold, if_neg hold, if_pos hbpb, if_pos hbpb]
  have hfields := hbpb
  simp only [not_or, not_not] at hfields
  obtain ⟨hbytes, hcluster, hreserved, hfats, hfat⟩ := hfields
  obtain ⟨hsub, hshl, hadd⟩ := metaSectors_fits hfats
  -- up to here the two go together; what is left of each
  rw [volumeOfChecked, volumeOf, if_neg hsig, if_neg hsig]
  dsimp only
  rw [if_neg hold, if_neg hold, if_neg hbpb, if_neg hbpb, ← metaSectors]
  simp only [hsub, hshl, hadd, Option.bind_eq_bind, Option.bind_some]
  by_cases hfits : totalSectors b ≤ metaSectors b
  · refine ⟨fun _ ↦ ?_, fun h ↦ absurd h.fits (not_lt.mpr hfits)⟩
    rw [if_pos hfits, if_pos hfits]
  rw [if_neg hfits, if_neg hfits, ← clusterCount]
  rw [not_le] at hfits
  obtain ⟨hfree, hshr⟩ := clusterCount_fits hfits
  simp only [hfree, hshr, Option.bind_some]
  by_cases hmirror : maxClusters < clusterCount b ∨ b 40 &&& 0x80#8 ≠ 0#8
  · refine ⟨fun _ ↦ ?_, fun h ↦ absurd hmirror ?_⟩
    · rw [if_pos hmirror, if_pos hmirror]
    · rw [not_or, not_lt, not_not]
      exact ⟨h.clusters, h.mirrored⟩
  rw [if_neg hmirror, if_neg hmirror]
  rw [not_or, not_lt, not_not] at hmirror
  obtain ⟨hentries, hends, hend⟩ := bounds_fit hpart hmirror.1
  simp only [hentries, hends, hend, Option.bind_some]
  by_cases hroom : le32 b 36 <<< 7 < clusterCount b + 2 ∨ 0xFFFFFFFF < partLba + totalSectors b
  · refine ⟨fun _ ↦ ?_, fun h ↦ absurd hroom ?_⟩
    · rw [if_pos hroom, if_pos hroom]
    · rw [not_or, not_lt, not_lt]
      exact ⟨h.entries, h.ends⟩
  rw [if_neg hroom, if_neg hroom]
  rw [not_or, not_lt, not_lt] at hroom
  rw [not_not] at hsig
  rw [not_or, not_not, not_not] at hold
  have hok : BpbOk partLba b := ⟨hsig, hold.1, hold.2, hbytes, hcluster, hreserved, hfats, hfat,
    hfits, hmirror.1, hmirror.2, hroom.1, hroom.2⟩
  obtain ⟨hres, hdata, hclus⟩ := lbas_fit hok
  refine ⟨fun h ↦ absurd hok h, fun _ ↦ ?_⟩
  simp only [hres, hdata, hclus, Option.bind_some]
  by_cases hinfo : partLba + le16 b 48 < 2 ^ 32
  · rw [addU32, if_pos hinfo, Nat.mod_eq_of_lt hinfo]
    rfl
  · rw [addU32, if_neg hinfo]
    rfl

/-- Only a boot sector that passes gives a volume. -/
theorem ok_of_volumeOf {v : Volume} (h : volumeOf partLba b = .ok v) :
    BpbOk partLba b ∧ v = bpbVolume partLba b := by
  have hok : BpbOk partLba b := by
    rw [volumeOf] at h
    split at h
    · cases h
    rename_i hsig
    dsimp only at h
    split at h
    · cases h
    rename_i hold
    split at h
    · cases h
    rename_i hbpb
    rw [← metaSectors] at h
    split at h
    · cases h
    rename_i hfits
    rw [← clusterCount] at h
    split at h
    · cases h
    rename_i hmirror
    split at h
    · cases h
    rename_i hroom
    simp only [not_or, not_not, not_lt, not_le] at hsig hold hbpb hfits hmirror hroom
    obtain ⟨hbytes, hcluster, hreserved, hfats, hfat⟩ := hbpb
    exact ⟨hsig, hold.1, hold.2, hbytes, hcluster, hreserved, hfats, hfat, hfits, hmirror.1,
      hmirror.2, hroom.1, hroom.2⟩
  refine ⟨hok, ?_⟩
  rw [volumeOf_of_ok hok] at h
  split at h
  · cases h
    rfl
  · cases h

end

/-! ## The geometry -/

/-- `cluster_lba`, none where something does not fit. -/
def Geometry.clusterLbaChecked (g : Geometry) (c : ℕ) : Option ℕ := do
  addU32 g.dataLba (← shlU32 (← subU32 c 2) g.clusterShift)

/-- What a cluster of the volume may be used for. -/
structure Geometry.HasCluster (g : Geometry) (ends c : ℕ) : Prop where
  /-- It has an entry in every copy of the FAT. -/
  entry : c >>> 7 < g.fatSectors ∧ (c &&& 127) <<< 2 + 4 ≤ sectorLen
  /-- Its sectors are the data area's. -/
  sectors : g.dataLba ≤ g.clusterLba c ∧ g.clusterLba c + g.clusterSectors ≤ ends
  /-- It is neither the bad-cluster mark nor an end of chain. -/
  number : c < 0x0FFFFFF7 ∧ c < eocMin
  /-- `cluster_lba` has a result. -/
  lba : g.clusterLbaChecked c = some (g.clusterLba c)

/-- The volume lies in its partition of `total` sectors. -/
structure Geometry.Placed (g : Geometry) (total : ℕ) : Prop where
  fats : g.numFats = 1 ∨ g.numFats = 2
  /-- The boot sector is before the first FAT. -/
  boot : g.partLba < g.fatLba
  /-- The copies of the FAT, the `i`-th from `fatLba + i * fatSectors`, end where the data
  begins. -/
  data : g.fatLba + g.numFats * g.fatSectors ≤ g.dataLba
  ends : g.dataLba < g.partLba + total ∧ g.partLba + total < 2 ^ 32
  clusters : ∀ c, g.isCluster c = true → g.HasCluster (g.partLba + total) c

section

variable {partLba : ℕ} {b : Sector}

/-- The clusters are what fits into the data area. -/
theorem clusterCount_shiftLeft_le : clusterCount b <<< (b 13).toNat.log2 ≤
    totalSectors b - metaSectors b := by
  rw [clusterCount, Nat.shiftLeft_eq, Nat.shiftRight_eq_div_pow]
  exact Nat.div_mul_le_self _ _

theorem isCluster_bpbVolume {c : ℕ} (hc : (bpbVolume partLba b).isCluster c = true) :
    2 ≤ c ∧ c < clusterCount b + 2 := by
  rw [Geometry.isCluster, Bool.and_eq_true, decide_eq_true_eq, decide_eq_true_eq] at hc
  exact hc

/-- A cluster ends inside the partition. -/
theorem clusterLba_le (h : BpbOk partLba b) {c : ℕ}
    (hc : (bpbVolume partLba b).isCluster c = true) :
    partLba + metaSectors b + (c - 2) <<< (b 13).toNat.log2 + 1 <<< (b 13).toNat.log2 ≤
      partLba + totalSectors b := by
  have hrange := isCluster_bpbVolume hc
  have hfits := h.fits
  have hall := @clusterCount_shiftLeft_le b
  have hmul : (c - 2 + 1) * 2 ^ (b 13).toNat.log2 ≤ clusterCount b * 2 ^ (b 13).toNat.log2 :=
    Nat.mul_le_mul_right _ (by omega)
  rw [Nat.shiftLeft_eq] at hall
  rw [Nat.shiftLeft_eq, Nat.shiftLeft_eq]
  rw [Nat.add_mul] at hmul
  generalize 2 ^ (b 13).toNat.log2 = k at hall hmul ⊢
  omega

theorem hasCluster_of_ok (h : BpbOk partLba b) {c : ℕ}
    (hc : (bpbVolume partLba b).isCluster c = true) :
    (bpbVolume partLba b).HasCluster (partLba + totalSectors b) c := by
  have hle := clusterLba_le h hc
  have hends := h.ends
  have hentries := h.entries
  have hclusters := h.clusters
  have hmax : maxClusters = 0x0FFFFFF5 := rfl
  have hlog := log2_lt (b 13)
  have hrange := isCluster_bpbVolume hc
  refine ⟨⟨?_, ?_⟩, ⟨Nat.le_add_right _ _, hle⟩, ⟨by omega, ?_⟩, ?_⟩
  · change c >>> 7 < le32 b 36
    rw [Nat.shiftLeft_eq] at hentries
    rw [Nat.shiftRight_eq_div_pow]
    omega
  · have hand : c &&& 127 ≤ 127 := Nat.and_le_right
    rw [Nat.shiftLeft_eq, sectorLen]
    omega
  · rw [eocMin]
    omega
  · have hlba : partLba + metaSectors b + (c - 2) <<< (b 13).toNat.log2 < 2 ^ 32 := by
      have := (Nat.le_add_right _ _).trans hle
      omega
    have hshl : shlU32 (c - 2) (b 13).toNat.log2 = some ((c - 2) <<< (b 13).toNat.log2) :=
      if_pos ⟨by omega, (Nat.le_add_left _ _).trans_lt hlba⟩
    have hsub : subU32 c 2 = some (c - 2) := if_pos hrange.1
    have hadd : addU32 (partLba + metaSectors b) ((c - 2) <<< (b 13).toNat.log2) =
        some (partLba + metaSectors b + (c - 2) <<< (b 13).toNat.log2) := if_pos hlba
    rw [Geometry.clusterLbaChecked, hsub]
    simp only [bpbVolume, Option.bind_eq_bind, Option.bind_some, hshl, hadd]
    rfl

/-- **With the checks, the volume lies in its partition.** -/
theorem placed_of_ok (h : BpbOk partLba b) :
    (bpbVolume partLba b).Placed (totalSectors b) := by
  have hfits := h.fits
  have hends := h.ends
  have hreserved := h.reserved
  refine ⟨?_, ?_, ?_, ⟨?_, ?_⟩, fun c hc ↦ hasCluster_of_ok h hc⟩
  · change (b 16).toNat = 1 ∨ (b 16).toNat = 2
    have := h.fats
    omega
  · change partLba < partLba + le16 b 14
    omega
  · change partLba + le16 b 14 + (b 16).toNat * le32 b 36 ≤ partLba + metaSectors b
    rw [metaSectors]
    obtain hn | hn : (b 16).toNat = 1 ∨ (b 16).toNat = 2 := by
      have := h.fats
      omega
    · rw [hn, Nat.sub_self, Nat.shiftLeft_zero]
      omega
    · rw [hn, Nat.shiftLeft_eq]
      omega
  · change partLba + metaSectors b < partLba + totalSectors b
    omega
  · change partLba + totalSectors b < 2 ^ 32
    omega

end

/-! ## Every MBR and boot sector -/

/-- Nothing in `mount` overflows, and the volume it makes lies in its partition. -/
def MountSafe (mbr b : Sector) : Prop :=
  mountChecked mbr b ≠ none ∧
    ∀ v, mountResult mbr b = .ok v → v.toGeometry.Placed (totalSectors b)

theorem partitionLba_lt {mbr : Sector} {p : ℕ} (h : partitionLba mbr = .ok p) : p < 2 ^ 32 := by
  rw [partitionLba] at h
  split at h
  · cases h
  split at h
  · cases h
    exact le32_lt mbr 454
  · cases h

/-- The geometry is sound whatever the sectors hold. -/
theorem placed_of_mountResult {mbr b : Sector} {v : Volume} (h : mountResult mbr b = .ok v) :
    v.toGeometry.Placed (totalSectors b) := by
  rw [mountResult] at h
  split at h
  · cases h
  cases hpart : partitionLba mbr with
  | error e =>
    rw [hpart] at h
    cases h
  | ok partLba =>
    rw [hpart] at h
    obtain ⟨hok, rfl⟩ := ok_of_volumeOf h
    exact placed_of_ok hok

/-- **`mount` is safe but for one sum**: on every MBR and boot sector nothing overflows and the
volume lies in its partition, if and only if a boot sector that passes the checks has its FSInfo
sector on the card's 32-bit LBAs too. -/
theorem mountSafe_iff (mbr b : Sector) : MountSafe mbr b ↔
    ∀ partLba, hasSignature mbr = true → partitionLba mbr = .ok partLba → BpbOk partLba b →
      partLba + le16 b 48 < 2 ^ 32 := by
  have hplaced : ∀ v, mountResult mbr b = .ok v → v.toGeometry.Placed (totalSectors b) :=
    fun _ ↦ placed_of_mountResult
  rw [MountSafe, mountChecked]
  by_cases hsig : hasSignature mbr = true
  swap
  · rw [if_pos hsig]
    exact ⟨fun _ _ h ↦ absurd h hsig, fun _ ↦ ⟨by simp, hplaced⟩⟩
  rw [if_neg (not_not.mpr hsig)]
  cases hpart : partitionLba mbr with
  | error e => exact ⟨fun _ _ _ h ↦ (by cases h), fun _ ↦ ⟨by simp, hplaced⟩⟩
  | ok partLba =>
    obtain ⟨hbad, hgood⟩ := volumeOfChecked_eq (b := b) (partitionLba_lt hpart)
    constructor
    · rintro ⟨hsome, -⟩ _ - ⟨⟩ hok
      by_contra hinfo
      refine hsome ?_
      change volumeOfChecked partLba b = none
      rw [hgood hok, addU32, if_neg hinfo]
      rfl
    · intro h
      refine ⟨?_, hplaced⟩
      change volumeOfChecked partLba b ≠ none
      by_cases hok : BpbOk partLba b
      · rw [hgood hok, addU32, if_pos (h partLba hsig rfl hok)]
        simp
      · rw [hbad hok]
        simp

/-- An MBR with one partition, at the end of the 32-bit LBAs. -/
def lateMbr : Sector := fun i ↦
  if i = 450 then 0x0C#8 else if i = 455 ∨ i = 456 ∨ i = 457 then 0xFF#8
  else if i = 510 then 0x55#8 else if i = 511 then 0xAA#8 else 0#8

/-- The boot sector of a hundred sectors, with FSInfo at sector 512. -/
def lateBoot : Sector := fun i ↦
  if i = 12 then 2#8 else if i = 13 ∨ i = 14 ∨ i = 16 then 1#8 else if i = 19 then 100#8
  else if i = 36 then 1#8 else if i = 44 ∨ i = 49 then 2#8
  else if i = 510 then 0x55#8 else if i = 511 then 0xAA#8 else 0#8

/-- FSInfo of this volume would be at `0x100000100`. -/
theorem mountSafe_not_late : ¬MountSafe lateMbr lateBoot := by
  rw [MountSafe, not_and_or]
  left
  rw [not_not]
  decide

end Vux9k

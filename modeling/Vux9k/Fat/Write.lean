import Vux9k.Fat.Dir

/-!
# Changes of the file system

`fw_common/src/fat/write.rs`, with all features: files created, renamed, removed, moved and
replaced, directories made and removed.
-/

set_option autoImplicit false

namespace Vux9k

/-- `ATTR_ARCHIVE`. -/
def attrArchive : Byte := 0x20#8

/-- `DATE_1980`, little-endian. -/
def date1980 : List Byte := [0x21#8, 0#8]

/-- `FSINFO_LEAD`. -/
def fsinfoLead : ℕ := 0x41615252

/-- `FSINFO_STRUCT`. -/
def fsinfoStruct : ℕ := 0x61417272

/-- The two bytes of a `u16`. -/
def leBytes16 (n : ℕ) : List Byte := [BitVec.ofNat 8 n, BitVec.ofNat 8 (n >>> 8)]

/-- `entry_bytes`: a new directory entry. -/
def entryBytes (name : ShortName) (attr : Byte) (first size : ℕ) : List Byte :=
  name.1 ++ [attr] ++ [0#8, 0#8, 0#8, 0#8] ++ date1980 ++ date1980 ++ leBytes16 (first >>> 16) ++
    [0#8, 0#8] ++ date1980 ++ leBytes16 first ++ leBytes (BitVec.ofNat 32 size)

/-- `DOT`. -/
def dot : ShortName := ⟨[0x2E#8] ++ List.replicate 10 0x20#8, rfl⟩

/-- `DOTDOT`. -/
def dotDot : ShortName := ⟨[0x2E#8, 0x2E#8] ++ List.replicate 9 0x20#8, rfl⟩

/-- `REPLACE_TMP`, `~PUT    TMP`. -/
def replaceTmp : ShortName :=
  ⟨[0x7E#8, 0x50#8, 0x55#8, 0x54#8, 0x20#8, 0x20#8, 0x20#8, 0x20#8, 0x54#8, 0x4D#8, 0x50#8], rfl⟩

namespace Vol

/-! ## The FAT -/

/-- The FAT sector `s` with cluster `c`'s entry set; the top four bits are kept. -/
def setEntry (s : Sector) (c value : ℕ) : Sector :=
  splice s (c % 128 * 4)
    (leBytes ((word s (c % 128 * 4) &&& ~~~entryMask) ||| BitVec.ofNat 32 value))

/-- `set_fat`. -/
def setFat (c value : ℕ) : Vol Unit := do
  loadFat (c / 128)
  modify fun v ↦ { v with fatBuf := setEntry v.fatBuf c value, fatDirty := true }

/-- `begin_change`. -/
def beginChange : Vol Unit := do
  let v ← gets id
  if v.fsinfoDone then pure ()
  else
    modify fun v ↦ { v with fsinfoDone := true }
    if v.fsinfoLba ≤ v.partLba ∨ v.fatLba ≤ v.fsinfoLba then pure ()
    else
      let s ← readBuf v.fsinfoLba
      if le32 s 0 ≠ fsinfoLead ∨ le32 s 484 ≠ fsinfoStruct then pure ()
      else
        modify fun v ↦ { v with buf := splice v.buf 488 (List.replicate 8 0xFF#8) }
        writeBuf v.fsinfoLba

/-- The search of `alloc_cluster` from `c` on, for `n` clusters. -/
def allocFrom (prev : Option ℕ) : ℕ → ℕ → Vol ℕ
  | 0, _ => throw .diskFull
  | n + 1, c => do
    let v ← gets id
    let c := if v.clusterEnd ≤ c then 2 else c
    if (← fatEntry c) = 0 then
      setFat c entryMask.toNat
      match prev with
      | some p => setFat p c
      | none => pure ()
      modify fun v ↦ { v with nextFree := c + 1 }
      pure c
    else allocFrom prev n (c + 1)

/-- `alloc_cluster`. -/
def allocCluster (prev : Option ℕ) : Vol ℕ := do
  let v ← gets id
  allocFrom prev (v.clusterEnd - 2) v.nextFree

/-- `free_chain`; a cluster that has been freed ends the loop, so it has at most `fuel` rounds. -/
def freeFrom : ℕ → ℕ → Vol Unit
  | 0, c => throw (.badChain c)
  | fuel + 1, c => do
    let v ← gets id
    if ¬v.isCluster c then throw (.badChain c)
    else
      let next ← fatEntry c
      setFat c 0
      if eocMin ≤ next then flushFat else freeFrom fuel next

/-- `free_chain`. -/
def freeChain (first : ℕ) : Vol Unit := do
  let v ← gets id
  freeFrom v.clusterEnd first

/-! ## Slots -/

/-- `next_slot`. -/
def nextSlot (lba index : ℕ) : Vol (ℕ × ℕ) :=
  if index + 1 < slotsPerSector then pure (lba, index + 1)
  else do
    let v ← gets id
    let rel := lba - v.dataLba
    if (rel + 1) % v.clusterSectors ≠ 0 then pure (lba + 1, 0)
    else
      let c := rel >>> v.clusterShift + 2
      match ← nextCluster c with
      | none => throw (.badChain c)
      | some next => pure (v.clusterLba next, 0)

/-- The loop of `delete_slots` from slot `(lba, index)` on. -/
def deleteFrom (entry : DirEntry) (keep : Bool) : ℕ → ℕ → ℕ → Vol Unit
  | 0, _, _ => throw (.badChain 0)
  | fuel + 1, lba, index => do
    let last := decide (lba = entry.lba ∧ index = entry.index)
    if last && keep then pure ()
    else
      let _ ← readBuf lba
      modify fun v ↦ { v with buf := splice v.buf (index * slotLen) [deleted] }
      writeBuf lba
      if last then pure ()
      else
        let (lba, index) ← nextSlot lba index
        deleteFrom entry keep fuel lba index

/-- `delete_slots`; a directory has no more slots than the volume. -/
def deleteSlots (entry : DirEntry) (keep : Bool) : Vol Unit := do
  let v ← gets id
  deleteFrom entry keep (v.clusterEnd * v.clusterSectors * slotsPerSector) entry.lfnLba
    entry.lfnIndex

/-- Zeros (or whatever is in `buf`) to the sectors `s..` of a cluster. -/
def writeSectors (lba : ℕ) : ℕ → ℕ → Vol Unit
  | 0, _ => pure ()
  | n + 1, s => do
    writeBuf (lba + s)
    writeSectors lba n (s + 1)

/-- `free_slot`. -/
def freeSlot (dir : DirEntry) : Vol (ℕ × ℕ) := do
  match ← walkSlots dir.cluster (fun _ _ _ e ↦ (decide (e 0 = 0#8 ∨ e 0 = deleted), ())) () with
  | (.inl slot, _) => pure slot
  | (.inr last, _) =>
    let new ← allocCluster (some last)
    modify fun v ↦ { v with buf := fun _ ↦ 0#8 }
    let v ← gets id
    writeSectors (v.clusterLba new) v.clusterSectors 0
    flushFat
    pure (v.clusterLba new, 0)

/-- `write_entry`. -/
def writeEntry (lba index : ℕ) (raw : List Byte) : Vol Unit := do
  let _ ← readBuf lba
  modify fun v ↦ { v with buf := splice v.buf (index * slotLen) raw }
  writeBuf lba

/-! ## Files -/

/-- The sectors of one cluster of `write_chain`. -/
def writeData (lba : ℕ) : List (List Byte) → Vol Unit
  | [] => pure ()
  | chunk :: chunks => do
    modify fun v ↦ { v with buf := ofBytes chunk }
    writeBuf lba
    writeData (lba + 1) chunks

/-- The loop of `write_chain`; `first` and `prev` are what its closure changes. -/
def writeClusters : List (List Byte) → ℕ → Option ℕ → Vol (Except FatError Unit × ℕ)
  | [], first, _ => do pure (← attempt flushFat, first)
  | cluster :: rest, first, prev => do
    match ← attempt (allocCluster prev) with
    | .error e => pure (.error e, first)
    | .ok c =>
      let first := if first = 0 then c else first
      let v ← gets id
      match ← attempt (writeData (v.clusterLba c) (chunks sectorLen cluster)) with
      | .error e => pure (.error e, first)
      | .ok () => writeClusters rest first (some c)

/-- `write_chain`. -/
def writeChain (data : List Byte) : Vol ℕ := do
  let v ← gets id
  match ← writeClusters (chunks v.clusterBytes data) 0 none with
  | (.ok (), first) => pure first
  | (.error e, first) =>
    if first ≠ 0 then
      let _ ← attempt (freeChain first)
    throw e

/-- `create`. -/
def create (dir : DirEntry) (name : ShortName) (data : List Byte) : Vol DirEntry := do
  if (← find dir name).isSome then throw .exists
  else
    beginChange
    let first ← writeChain data
    match ← attempt (freeSlot dir) with
    | .error e =>
      if first ≠ 0 then
        let _ ← attempt (freeChain first)
      throw e
    | .ok (lba, index) =>
      writeEntry lba index (entryBytes name attrArchive first (data.length % 2 ^ 32))
      pure { name := name, attr := attrArchive, cluster := first, size := data.length % 2 ^ 32,
             lba := lba, index := index, lfnLba := lba, lfnIndex := index }

/-- `rename`. -/
def rename (dir entry : DirEntry) (name : ShortName) : Vol Unit := do
  if entry.isDir then throw .wrongType
  else if (← find dir name).isSome then throw .exists
  else
    beginChange
    deleteSlots entry true
    let _ ← readBuf entry.lba
    modify fun v ↦ { v with buf := splice v.buf (entry.index * slotLen) name.1 }
    writeBuf entry.lba

/-- `remove`. -/
def remove (entry : DirEntry) : Vol Unit := do
  if entry.isDir then throw .wrongType
  else
    beginChange
    deleteSlots entry false
    if entry.cluster ≠ 0 then freeChain entry.cluster

/-! ## Directories -/

/-- The part of `mkdir` whose failure gives the cluster back. -/
def fillDir (parent : DirEntry) (name : ShortName) (c up : ℕ) : Vol (ℕ × ℕ) := do
  modify fun v ↦ { v with buf := fun _ ↦ 0#8 }
  let v ← gets id
  let lba := v.clusterLba c
  writeSectors lba (v.clusterSectors - 1) 1
  modify fun v ↦ { v with
    buf := splice (splice v.buf 0 (entryBytes dot attrDir c 0)) slotLen
      (entryBytes dotDot attrDir up 0) }
  writeBuf lba
  flushFat
  let (lba, index) ← freeSlot parent
  writeEntry lba index (entryBytes name attrDir c 0)
  pure (lba, index)

/-- `mkdir`. -/
def mkdir (parent : DirEntry) (name : ShortName) : Vol DirEntry := do
  if ¬parent.isDir then throw .wrongType
  else if (← find parent name).isSome then throw .exists
  else
    beginChange
    let c ← allocCluster none
    let v ← gets id
    let up := if parent.cluster = v.root then 0 else parent.cluster
    match ← attempt (fillDir parent name c up) with
    | .ok (lba, index) =>
      pure { name := name, attr := attrDir, cluster := c, size := 0,
             lba := lba, index := index, lfnLba := lba, lfnIndex := index }
    | .error e =>
      let _ ← attempt (freeChain c)
      throw e

/-- `rmdir`. -/
def rmdir (entry : DirEntry) : Vol Unit := do
  if ¬entry.isDir then throw .wrongType
  else if entry.lba = 0 ∨ entry.name.1.head? = some 0x2E#8 then throw .badName
  else if (← findEntry entry fun e ↦ e.name ≠ dot && e.name ≠ dotDot).isSome then throw .notEmpty
  else
    beginChange
    deleteSlots entry false
    freeChain entry.cluster

/-- `replace`. -/
def replace (dir : DirEntry) (name : ShortName) (data : List Byte) : Vol DirEntry := do
  if ((← find dir name).map DirEntry.isDir).getD false then throw .wrongType
  else
    match ← find dir replaceTmp with
    | some stale => remove stale
    | none => pure ()
    if name = replaceTmp then create dir name data
    else
      let new ← create dir replaceTmp data
      match ← find dir name with
      | some old => remove old
      | none => pure ()
      rename dir new name
      pure { new with name := name }

/-- `move_to`. -/
def moveTo (srcDir entry dstDir : DirEntry) (name : ShortName) : Vol DirEntry := do
  if entry.isDir || !dstDir.isDir then throw .wrongType
  else if srcDir.cluster = dstDir.cluster then
    rename srcDir entry name
    pure { entry with name := name, lfnLba := entry.lba, lfnIndex := entry.index }
  else if (← find dstDir name).isSome then throw .exists
  else
    beginChange
    let s ← readBuf entry.lba
    -- the entry as it is, under the new name
    let raw := name.1 ++ (bytesOf (slotOf s entry.index) slotLen).drop 11
    let (lba, index) ← freeSlot dstDir
    writeEntry lba index raw
    deleteSlots entry false
    pure { entry with name := name, lba := lba, index := index, lfnLba := lba, lfnIndex := index }

/-! ## Free clusters -/

/-- The free entries among the `n` that start at byte `at`. -/
def freeIn (s : Sector) : ℕ → ℕ → ℕ
  | _, 0 => 0
  | pos, n + 1 =>
    (if s pos ||| s (pos + 1) ||| s (pos + 2) ||| s (pos + 3) &&& 0x0F#8 = 0#8 then 1 else 0) +
      freeIn s (pos + 4) n

/-- The loop of `free_clusters` from cluster `c` on. -/
def countFrom : ℕ → ℕ → ℕ → Vol ℕ
  | 0, _, n => pure n
  | fuel + 1, c, n => do
    let v ← gets id
    if c < v.clusterEnd then
      loadFat (c / 128)
      let s ← gets Volume.fatBuf
      let stop := min ((c ||| 127) + 1) v.clusterEnd
      countFrom fuel stop (n + freeIn s (c % 128 * 4) (stop - c))
    else pure n

/-- `free_clusters`; every round ends at a later cluster. -/
def freeClusters : Vol ℕ := do
  let v ← gets id
  countFrom v.clusterEnd 2 0

end Vol

end Vux9k

import Vux9k.Fat.Volume

/-!
# Directories

`fw_common/src/fat/dir.rs`: slots of 32 bytes in a cluster chain, searched from the first.
-/

set_option autoImplicit false

namespace Vux9k

/-- Slots of a sector, `SECTOR / ENTRY`. -/
def slotsPerSector : ℕ := 16

/-- `ENTRY`. -/
def slotLen : ℕ := 32

/-- Slot `i` of a sector. -/
def slotOf (s : Sector) (i : ℕ) : ℕ → Byte := fun j ↦ s (i * slotLen + j)

/-- `checksum` of an 8.3 name. -/
def checksum (name : List Byte) : Byte := name.foldl (fun sum c ↦ sum.rotateRight 1 + c) 0#8

namespace Vol

variable {σ : Type}

/-- The slots `i..` of a sector: whether `f` stopped at one, and at which. -/
def scanSlots (f : σ → ℕ → ℕ → (ℕ → Byte) → Bool × σ) (s : Sector) (lba : ℕ) :
    ℕ → ℕ → σ → Option ℕ × σ
  | 0, _, st => (none, st)
  | n + 1, i, st =>
    let (stop, st) := f st lba i (slotOf s i)
    if stop then (some i, st) else scanSlots f s lba n (i + 1) st

/-- The sectors `s..` of a cluster. -/
def walkSectors (f : σ → ℕ → ℕ → (ℕ → Byte) → Bool × σ) (lba : ℕ) :
    ℕ → ℕ → σ → Vol (Option (ℕ × ℕ) × σ)
  | 0, _, st => pure (none, st)
  | n + 1, s, st => do
    let buf ← readBuf (lba + s)
    match scanSlots f buf (lba + s) slotsPerSector 0 st with
    | (some i, st) => pure (some (lba + s, i), st)
    | (none, st) => walkSectors f lba n (s + 1) st

/-- The clusters from `c` on, at most `n` of them. -/
def walkClusters (f : σ → ℕ → ℕ → (ℕ → Byte) → Bool × σ) : ℕ → ℕ → σ → Vol ((ℕ × ℕ ⊕ ℕ) × σ)
  | 0, c, _ => throw (.badChain c)
  | n + 1, c, st => do
    let v ← gets id
    if ¬v.isCluster c then throw (.badChain c)
    else
      match ← walkSectors f (v.clusterLba c) v.clusterSectors 0 st with
      | (some slot, st) => pure (.inl slot, st)
      | (none, st) =>
        match ← nextCluster c with
        | some next => walkClusters f n next st
        | none => pure (.inr c, st)

/-- `walk_slots`: the slot at which `f` stops, or else the chain's last cluster; `st` is what the
closure has captured. -/
def walkSlots (first : ℕ) (f : σ → ℕ → ℕ → (ℕ → Byte) → Bool × σ) (st : σ) :
    Vol ((ℕ × ℕ ⊕ ℕ) × σ) := do
  let v ← gets id
  walkClusters f v.clusterEnd first st

/-- What the closure of `find_entry` captures: the long-name run before the next entry (where it
starts, and its checksum), and the entry found. -/
structure Search : Type where
  lfn : Option (ℕ × ℕ × Byte)
  found : Option DirEntry

/-- The closure of `find_entry`. -/
def searchSlot (f : DirEntry → Bool) (st : Search) (lba i : ℕ) (e : ℕ → Byte) : Bool × Search :=
  if e 0 = 0#8 then (true, st)
  else if e 0 = deleted then (false, { st with lfn := none })
  else if e 11 = attrLfn then
    -- a run starts at its last part (bit 6) and shares one checksum
    if e 0 &&& 0x40#8 ≠ 0#8 ∨ ∀ l ∈ st.lfn, l.2.2 ≠ e 13 then
      (false, { st with lfn := some (lba, i, e 13) })
    else (false, st)
  else
    let run := st.lfn.filter fun l ↦ l.2.2 = checksum (ShortName.ofFn e).1
    let st := { st with lfn := none }
    if e 11 &&& attrVolume ≠ 0#8 then (false, st)
    else
      let entry := DirEntry.parse e lba i (run.map fun l ↦ (l.1, l.2.1))
      if f entry then (true, { st with found := some entry }) else (false, st)

/-- `find_entry`. -/
def findEntry (dir : DirEntry) (f : DirEntry → Bool) : Vol (Option DirEntry) :=
  if ¬dir.isDir then throw .wrongType
  else do
    let (_, st) ← walkSlots dir.cluster (searchSlot f) ⟨none, none⟩
    pure st.found

/-- `find`. -/
def find (dir : DirEntry) (name : ShortName) : Vol (Option DirEntry) :=
  findEntry dir fun e ↦ e.name = name

end Vol

end Vux9k

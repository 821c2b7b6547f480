import Mathlib.Data.Nat.Bits
import Mathlib.Logic.Function.Basic
import Vux9k.Firmware.Bytes
import Vux9k.Lib.Prog

/-!
# A FAT32 volume

`fw_common/src/fat/mod.rs`: a volume on a card that is read and written a sector at a time, with one
buffer for data and directories and a write-back cache of one FAT sector.

A method of `Volume` is a `Vol` program: it may fail, changes the volume's fields, and asks the card
(`FatOp`) for what it needs.  What the card answers is left open, so that the same definitions serve
for a card that works, one that fails, and one that loses power in the middle.
-/

set_option autoImplicit false

namespace Vux9k

/-! ## The card -/

/-- A sector: its bytes `0..512` (the others are nobody's). -/
abbrev Sector := ℕ → Byte

/-- `BlockDevice`. -/
inductive FatOp : Type
  | read (lba : ℕ)
  | write (lba : ℕ) (buf : Sector)

/-- The sector, unless the card failed; whether the card wrote it. -/
@[reducible]
def FatOp.Ans : FatOp → Type
  | .read _ => Option Sector
  | .write _ _ => Bool

/-- `FatError`. -/
inductive FatError : Type
  | io (lba : ℕ)
  | noSignature
  | noPartition
  | notFat32
  | badBpb
  | badChain (c : ℕ)
  | badName
  | notFound
  | wrongType
  | tooBig
  | exists
  | diskFull
  | verify
  | notEmpty
  deriving DecidableEq

/-! ## Bytes of a sector -/

/-- `le16`. -/
def le16 (b : ℕ → Byte) (i : ℕ) : ℕ := (b i).toNat ||| (b (i + 1)).toNat <<< 8

/-- The word at `i`. -/
def word (b : ℕ → Byte) (i : ℕ) : Word := leWord (b i) (b (i + 1)) (b (i + 2)) (b (i + 3))

/-- `le32`. -/
def le32 (b : ℕ → Byte) (i : ℕ) : ℕ := (word b i).toNat

/-- `buf[i..i + n].copy_from_slice(bs)`, for `n` bytes. -/
def splice (s : Sector) (i : ℕ) (bs : List Byte) : Sector := fun j ↦
  if i ≤ j ∧ j < i + bs.length then bs.getD (j - i) 0#8 else s j

/-- The first `n` bytes. -/
def bytesOf (s : Sector) (n : ℕ) : List Byte := (List.range n).map s

/-- Some bytes at the start of a sector of zeros. -/
def ofBytes (bs : List Byte) : Sector := fun j ↦ bs.getD j 0#8

/-! ## The volume -/

/-- `SECTOR`. -/
def sectorLen : ℕ := 512

/-- `EOC_MIN`. -/
def eocMin : ℕ := 0x0FFFFFF8

/-- `ENTRY_MASK`. -/
def entryMask : Word := 0x0FFFFFFF#32

/-- `MAX_CLUSTERS`. -/
def maxClusters : ℕ := 0x0FFFFFF5

/-- What `mount` finds out about the volume, and nothing changes. -/
structure Geometry : Type where
  partLba : ℕ
  fatLba : ℕ
  fatSectors : ℕ
  numFats : ℕ
  dataLba : ℕ
  clusterShift : ℕ
  clusterEnd : ℕ
  root : ℕ
  fsinfoLba : ℕ
  deriving DecidableEq

/-- `Volume`, without its device.  `fatCached` is `u32::MAX` when no sector is cached. -/
structure Volume : Type extends Geometry where
  buf : Sector
  fatBuf : Sector
  fatCached : ℕ
  fatDirty : Bool
  nextFree : ℕ
  fsinfoDone : Bool

/-- `u32::MAX`, no FAT sector. -/
def noSector : ℕ := 0xFFFFFFFF

namespace Geometry

/-- `is_cluster`. -/
def isCluster (g : Geometry) (c : ℕ) : Bool := 2 ≤ c && c < g.clusterEnd

/-- `cluster_lba`. -/
def clusterLba (g : Geometry) (c : ℕ) : ℕ := g.dataLba + (c - 2) <<< g.clusterShift

/-- Sectors of a cluster. -/
def clusterSectors (g : Geometry) : ℕ := 1 <<< g.clusterShift

/-- `cluster_bytes`. -/
def clusterBytes (g : Geometry) : ℕ := sectorLen <<< g.clusterShift

end Geometry

/-! ## Methods of the volume -/

/-- Programs that ask the card. -/
abbrev FatProg := Prog FatOp FatOp.Ans

/-- A method of `Volume`: it changes the volume, even if it fails. -/
def Vol (α : Type) : Type := Volume → FatProg (Except FatError α × Volume)

namespace Vol

variable {α β : Type}

/-- `?`. -/
protected def bind (m : Vol α) (f : α → Vol β) : Vol β := fun v ↦
  m v >>= fun
    | (.ok a, v') => f a v'
    | (.error e, v') => .ret (.error e, v')

instance : Monad Vol where
  pure a := fun v ↦ .ret (.ok a, v)
  bind := Vol.bind

/-- `return Err(e)`. -/
def throw (e : FatError) : Vol α := fun v ↦ .ret (.error e, v)

/-- A field of the volume. -/
def gets (f : Volume → α) : Vol α := fun v ↦ .ret (.ok (f v), v)

/-- A change of fields. -/
def modify (f : Volume → Volume) : Vol Unit := fun v ↦ .ret (.ok (), f v)

/-- The outcome of a method, as a value: what is done with `let _ =` or `match`. -/
def attempt (m : Vol α) : Vol (Except FatError α) := fun v ↦
  m v >>= fun r ↦ .ret (.ok r.1, r.2)

/-- `read`. -/
def read (lba : ℕ) : Vol Sector := fun v ↦
  .ask (.read lba) fun
    | some s => .ret (.ok s, v)
    | none => .ret (.error (.io lba), v)

/-- `dev.write`, and `Io` if it fails. -/
def write (lba : ℕ) (s : Sector) : Vol Unit := fun v ↦
  .ask (.write lba s) fun
    | true => .ret (.ok (), v)
    | false => .ret (.error (.io lba), v)

/-- `read` into `buf`. -/
def readBuf (lba : ℕ) : Vol Sector := do
  let s ← read lba
  modify fun v ↦ { v with buf := s }
  pure s

/-- `write_sector` of `buf`. -/
def writeBuf (lba : ℕ) : Vol Unit := do
  let s ← gets Volume.buf
  write lba s

/-- `write_sector` of `fat_buf`. -/
def writeFat (lba : ℕ) : Vol Unit := do
  let s ← gets Volume.fatBuf
  write lba s

/-- `flush_fat`: the cached sector to every copy of the FAT, if it changed. -/
def flushFat : Vol Unit := do
  let v ← gets id
  if v.fatDirty then
    writeFat (v.fatLba + v.fatCached)
    if v.numFats = 2 then writeFat (v.fatLba + v.fatSectors + v.fatCached)
    modify fun v ↦ { v with fatDirty := false }

/-- `load_fat`: FAT sector `index` into `fat_buf`. -/
def loadFat (index : ℕ) : Vol Unit := do
  let v ← gets id
  if v.fatCached ≠ index then
    flushFat
    modify fun v ↦ { v with fatCached := noSector }
    let s ← read (v.fatLba + index)
    modify fun v ↦ { v with fatBuf := s, fatCached := index }

/-- The 28 bits of cluster `c`'s entry in its FAT sector. -/
def entryIn (s : Sector) (c : ℕ) : ℕ := (word s (c % 128 * 4) &&& entryMask).toNat

/-- `fat_entry`. -/
def fatEntry (c : ℕ) : Vol ℕ := do
  loadFat (c / 128)
  let s ← gets Volume.fatBuf
  pure (entryIn s c)

/-- `next_cluster`. -/
def nextCluster (c : ℕ) : Vol (Option ℕ) := do
  let e ← fatEntry c
  let v ← gets id
  if eocMin ≤ e then pure none
  else if v.isCluster e then pure (some e)
  else throw (.badChain c)

end Vol

/-! ## Directory entries -/

/-- `ATTR_VOLUME`. -/
def attrVolume : Byte := 0x08#8

/-- `ATTR_DIR`. -/
def attrDir : Byte := 0x10#8

/-- `ATTR_LFN`. -/
def attrLfn : Byte := 0x0F#8

/-- `DELETED`. -/
def deleted : Byte := 0xE5#8

/-- An 8.3 name, space-padded, without the dot. -/
abbrev ShortName := { l : List Byte // l.length = 11 }

/-- `DirEntry`. -/
structure DirEntry : Type where
  name : ShortName
  attr : Byte
  cluster : ℕ
  size : ℕ
  lba : ℕ
  index : ℕ
  lfnLba : ℕ
  lfnIndex : ℕ
  deriving DecidableEq

/-- The eleven bytes of a name. -/
def ShortName.ofFn (f : ℕ → Byte) : ShortName := ⟨(List.range 11).map f, by simp⟩

namespace DirEntry

/-- `DirEntry::root`. -/
def root (cluster : ℕ) : DirEntry where
  name := .ofFn fun _ ↦ 0x20#8
  attr := attrDir
  cluster := cluster
  size := 0
  lba := 0
  index := 0
  lfnLba := 0
  lfnIndex := 0

/-- `DirEntry::parse` of the slot `e`. -/
def parse (e : ℕ → Byte) (lba index : ℕ) (lfn : Option (ℕ × ℕ)) : DirEntry where
  name := .ofFn e
  attr := e 11
  cluster := le16 e 20 <<< 16 ||| le16 e 26
  size := le32 e 28
  lba := lba
  index := index
  lfnLba := (lfn.map Prod.fst).getD lba
  lfnIndex := (lfn.map Prod.snd).getD index

/-- `is_dir`. -/
def isDir (d : DirEntry) : Bool := d.attr &&& attrDir ≠ 0#8

end DirEntry

namespace Vol

/-! ## Files -/

variable {σ : Type}

/-- The sectors `s..` of a cluster: what is left of the file after them, and what the closure has
captured, which a failure of the card does not undo. -/
def eachSector (f : σ → List Byte → σ) (lba : ℕ) : ℕ → ℕ → ℕ → σ → Vol (Except FatError ℕ × σ)
  | 0, _, rest, st => pure (.ok rest, st)
  | n + 1, s, rest, st => do
    match ← attempt (readBuf (lba + s)) with
    | .error e => pure (.error e, st)
    | .ok buf =>
      let k := min rest sectorLen
      let st := f st (bytesOf buf k)
      if rest - k = 0 then pure (.ok 0, st) else eachSector f lba n (s + 1) (rest - k) st

/-- The clusters of a file; every round takes at least a byte off `rest`. -/
def eachCluster (f : σ → List Byte → σ) : ℕ → ℕ → ℕ → σ → Vol (Except FatError Unit × σ)
  | 0, c, _, st => pure (.error (.badChain c), st)
  | fuel + 1, c, rest, st => do
    let v ← gets id
    if ¬v.isCluster c then pure (.error (.badChain c), st)
    else
      let (r, st) ← eachSector f (v.clusterLba c) v.clusterSectors 0 rest st
      match r with
      | .error e => pure (.error e, st)
      | .ok rest =>
        match ← attempt (nextCluster c) with
        | .error e => pure (.error e, st)
        | .ok next =>
          if rest = 0 then
            match next with
            | none => pure (.ok (), st)
            | some _ => pure (.error (.badChain c), st)
          else
            match next with
            | none => pure (.error (.badChain c), st)
            | some next => eachCluster f fuel next rest st

/-- `for_each_sector`: `f` gets each sector of the file, cut to its size; `st` is what the closure
has captured. -/
def forEachSector (file : DirEntry) (f : σ → List Byte → σ) (st : σ) :
    Vol (Except FatError Unit × σ) :=
  if file.isDir then pure (.error .wrongType, st)
  else if file.size = 0 then
    if file.cluster = 0 then pure (.ok (), st) else pure (.error (.badChain file.cluster), st)
  else eachCluster f file.size file.cluster file.size st

/-- `read_to`, into `len` bytes: the file's bytes. -/
def readTo (file : DirEntry) (len : ℕ) : Vol (List Byte) :=
  if len < file.size then throw .tooBig
  else do
    match ← forEachSector file (fun got data ↦ got ++ data) [] with
    | (.ok (), got) => pure got
    | (.error e, _) => throw e

end Vol

end Vux9k

import Mathlib.Data.Nat.Notation
import Vux9k.Fat.Dir

/-!
# Long names

`fw_common/src/fat/names.rs`: directories listed with the long names their entries carry, and
entries looked up by either name.

`list` and `find_entry` hand a directory's entries to a closure of their caller.  What that closure
has captured is kept when the walk fails, so these are the definitions to say which entries it has
been shown: `visitSlots` is `walk_slots` in that form, and `findEntryWith` is `find_entry`.
-/

set_option autoImplicit false

namespace Vux9k

/-! ## 8.3 names -/

/-- `to_ascii_uppercase`. -/
def toAsciiUppercase (c : Byte) : Byte :=
  if 0x61#8 ≤ c ∧ c ≤ 0x7A#8 then c - 0x20#8 else c

/-- The characters of an 8.3 name besides letters and digits, ``!#$%&'()-@^_`{}~``. -/
def shortPunctuation : List Byte :=
  [0x21#8, 0x23#8, 0x24#8, 0x25#8, 0x26#8, 0x27#8, 0x28#8, 0x29#8, 0x2D#8, 0x40#8, 0x5E#8, 0x5F#8,
    0x60#8, 0x7B#8, 0x7D#8, 0x7E#8]

/-- A character of an 8.3 name, in upper case. -/
def isShortChar (c : Byte) : Bool :=
  (0x41#8 ≤ c && c ≤ 0x5A#8) || (0x30#8 ≤ c && c ≤ 0x39#8) || c ∈ shortPunctuation

/-- `name` cut at its last dot: what is before it, and what is after it if there is one. -/
def splitDot (name : List Byte) : List Byte × Option (List Byte) :=
  let after := name.reverse.takeWhile (· ≠ 0x2E#8)
  if after.length = name.length then (name, none)
  else (name.take (name.length - after.length - 1), some after.reverse)

/-- Filled up with spaces to `n` characters. -/
def padTo (n : ℕ) (l : List Byte) : List Byte := l ++ List.replicate (n - l.length) 0x20#8

/-- `short_name`. -/
def shortName (name : List Byte) : Option ShortName :=
  let (base, rest) := splitDot name
  let ext := rest.getD []
  if h : base = [] ∨ 8 < base.length ∨ 3 < ext.length ∨ rest = some [] then none
  else if (base ++ ext).all fun c ↦ isShortChar (toAsciiUppercase c) then
    some ⟨padTo 8 (base.map toAsciiUppercase) ++ padTo 3 (ext.map toAsciiUppercase), by
      simp only [not_or, not_lt] at h
      simp only [padTo, List.length_append, List.length_map, List.length_replicate]
      omega⟩
  else none

/-- `eq_ignore_ascii_case`. -/
def eqIgnoreAsciiCase (a b : List Byte) : Bool :=
  a.map toAsciiUppercase = b.map toAsciiUppercase

/-! ## The buffer of a long name -/

/-- `LONG_NAME_MAX`. -/
def longNameMax : ℕ := 260

/-- `PARTS`. -/
def longParts : ℕ := 20

/-- `CHARS`. -/
def charOffsets : List ℕ := [1, 3, 5, 7, 9, 14, 16, 18, 20, 22, 24, 28, 30]

/-- `times13`. -/
def times13 (n : ℕ) : ℕ := n <<< 3 + n <<< 2 + n

/-- `[0u8; LONG_NAME_MAX]`, and whether it has been indexed past its end, where the program
stops. -/
structure NameBuf : Type where
  bytes : ℕ → Byte
  overrun : Bool

namespace NameBuf

/-- `[0u8; LONG_NAME_MAX]`. -/
def zeros : NameBuf := ⟨fun _ ↦ 0#8, false⟩

/-- `name[i] = c`. -/
def set (b : NameBuf) (i : ℕ) (c : Byte) : NameBuf :=
  if i < longNameMax then { b with bytes := Function.update b.bytes i c }
  else { b with overrun := true }

/-- `&name[..n]`. -/
def take (b : NameBuf) (n : ℕ) : List Byte := bytesOf b.bytes n

end NameBuf

/-- A UTF-16 character as a byte: `?` when it is none of ASCII's printable ones. -/
def asciiChar (c : ℕ) : Byte := if 0x20 ≤ c ∧ c ≤ 0x7E then BitVec.ofNat 8 c else 0x3F#8

/-- The loop of `list` over the characters of a part, at offsets `ats`, which go to the buffer from
index `k` on; a zero ends the name. -/
def decodeChars (e : ℕ → Byte) : List ℕ → ℕ → ℕ × NameBuf → ℕ × NameBuf
  | [], _, r => r
  | off :: ats, k, (len, name) =>
    let c := le16 e off
    decodeChars e ats (k + 1) (if c = 0 then min len k else len, name.set k (asciiChar c))

namespace Vol

variable {σ τ : Type}

/-! ## The walk, when it fails as well -/

/-- `walkSectors`, with what the closure has captured also when the card fails. -/
def visitSectors (f : σ → ℕ → ℕ → (ℕ → Byte) → Bool × σ) (lba : ℕ) :
    ℕ → ℕ → σ → Vol (Except FatError (Option (ℕ × ℕ)) × σ)
  | 0, _, st => pure (.ok none, st)
  | n + 1, s, st => do
    match ← attempt (readBuf (lba + s)) with
    | .error e => pure (.error e, st)
    | .ok buf =>
      match scanSlots f buf (lba + s) slotsPerSector 0 st with
      | (some i, st) => pure (.ok (some (lba + s, i)), st)
      | (none, st) => visitSectors f lba n (s + 1) st

/-- `walkClusters`, in the same way. -/
def visitClusters (f : σ → ℕ → ℕ → (ℕ → Byte) → Bool × σ) :
    ℕ → ℕ → σ → Vol (Except FatError (ℕ × ℕ ⊕ ℕ) × σ)
  | 0, c, st => pure (.error (.badChain c), st)
  | n + 1, c, st => do
    let v ← gets id
    if ¬v.isCluster c then pure (.error (.badChain c), st)
    else
      let (r, st) ← visitSectors f (v.clusterLba c) v.clusterSectors 0 st
      match r with
      | .error e => pure (.error e, st)
      | .ok (some slot) => pure (.ok (.inl slot), st)
      | .ok none =>
        match ← attempt (nextCluster c) with
        | .error e => pure (.error e, st)
        | .ok (some next) => visitClusters f n next st
        | .ok none => pure (.ok (.inr c), st)

/-- `walk_slots`, with what the closure has captured also when the walk fails. -/
def visitSlots (first : ℕ) (f : σ → ℕ → ℕ → (ℕ → Byte) → Bool × σ) (st : σ) :
    Vol (Except FatError (ℕ × ℕ ⊕ ℕ) × σ) := do
  let v ← gets id
  visitClusters f v.clusterEnd first st

/-! ## `find_entry` -/

/-- What the closure of `find_entry` captures, with what its caller's closure has: `seen`. -/
structure Seek (τ : Type) : Type extends Search where
  seen : τ

/-- The closure of `find_entry`, for a caller's closure that changes what it has captured. -/
def seekSlot (f : τ → DirEntry → Bool × τ) (st : Seek τ) (lba i : ℕ) (e : ℕ → Byte) :
    Bool × Seek τ :=
  if e 0 = 0#8 then (true, st)
  else if e 0 = deleted then (false, { st with lfn := none })
  else if e 11 = attrLfn then
    if e 0 &&& 0x40#8 ≠ 0#8 ∨ ∀ l ∈ st.lfn, l.2.2 ≠ e 13 then
      (false, { st with lfn := some (lba, i, e 13) })
    else (false, st)
  else
    let run := st.lfn.filter fun l ↦ l.2.2 = checksum (ShortName.ofFn e).1
    let st := { st with lfn := none }
    if e 11 &&& attrVolume ≠ 0#8 then (false, st)
    else
      let entry := DirEntry.parse e lba i (run.map fun l ↦ (l.1, l.2.1))
      match f st.seen entry with
      | (true, seen) => (true, { st with found := some entry, seen := seen })
      | (false, seen) => (false, { st with seen := seen })

/-- `find_entry`, with what the caller's closure has captured in the end. -/
def findEntryWith (dir : DirEntry) (f : τ → DirEntry → Bool × τ) (seen : τ) :
    Vol (Except FatError (Option DirEntry) × τ) :=
  if ¬dir.isDir then pure (.error .wrongType, seen)
  else do
    match ← visitSlots dir.cluster (seekSlot f) ⟨⟨none, none⟩, seen⟩ with
    | (.ok _, st) => pure (.ok st.found, st.seen)
    | (.error e, st) => pure (.error e, st.seen)

/-! ## `list` -/

/-- What the closure of `list` captures: the buffer, the long-name run before the next entry as
`find_entry` tracks it, the name it spells so far (its length, and the part expected next), the
entry found, and what its caller's closure has captured. -/
structure Listing (τ : Type) : Type where
  name : NameBuf
  run : Option (ℕ × ℕ × Byte)
  long : Option (ℕ × ℕ)
  found : Option DirEntry
  seen : τ

/-- The long-name slot `e` of part `part`, when the name so far is `long`. -/
def addPart (e : ℕ → Byte) (part : ℕ) (long : Option (ℕ × ℕ)) (name : NameBuf) :
    Option (ℕ × ℕ) × NameBuf :=
  match long.filter fun l ↦ part ≠ 0 ∧ l.2 = part with
  | none => (none, name)
  | some (len, _) =>
    let r := decodeChars e charOffsets (times13 (part - 1)) (len, name)
    (some (r.1, part - 1), r.2)

/-- A long-name slot in the closure of `list`. -/
def Listing.addSlot (st : Listing τ) (lba i : ℕ) (e : ℕ → Byte) : Listing τ :=
  let part := (e 0 &&& 0x1F#8).toNat
  let starts : Bool := e 0 &&& 0x40#8 ≠ 0#8
  let st :=
    if starts ∨ ∀ r ∈ st.run, r.2.2 ≠ e 13 then
      { st with
        run := some (lba, i, e 13)
        -- a name starts at its last part (bit 6), the longest it can be
        long := if starts ∧ 1 ≤ part ∧ part ≤ longParts then some (times13 part, part) else none }
    else st
  let r := addPart e part st.long st.name
  { st with long := r.1, name := r.2 }

/-- The long name of an entry: the run `r` has its checksum, and all its parts have come. -/
def longNameOf (r : Option (ℕ × ℕ × Byte)) (long : Option (ℕ × ℕ)) (name : NameBuf) :
    Option (List Byte) :=
  match r, long with
  | some _, some (len, 0) => if 0 < len then some (name.take len) else none
  | _, _ => none

/-- The closure of `list`. -/
def listSlot (f : τ → DirEntry → Option (List Byte) → Bool × τ) (st : Listing τ) (lba i : ℕ)
    (e : ℕ → Byte) : Bool × Listing τ :=
  if e 0 = 0#8 then (true, st)
  else if e 0 = deleted then (false, { st with run := none, long := none })
  else if e 11 = attrLfn then (false, st.addSlot lba i e)
  else
    let r := st.run.filter fun r ↦ r.2.2 = checksum (ShortName.ofFn e).1
    let l := st.long
    let st := { st with run := none, long := none }
    if e 11 &&& attrVolume ≠ 0#8 then (false, st)
    else
      let entry := DirEntry.parse e lba i (r.map fun r ↦ (r.1, r.2.1))
      match f st.seen entry (longNameOf r l st.name) with
      | (true, seen) => (true, { st with found := some entry, seen := seen })
      | (false, seen) => (false, { st with seen := seen })

/-- `list`, with what the caller's closure has captured in the end. -/
def list (dir : DirEntry) (f : τ → DirEntry → Option (List Byte) → Bool × τ) (seen : τ) :
    Vol (Except FatError (Option DirEntry) × τ) :=
  if ¬dir.isDir then pure (.error .wrongType, seen)
  else do
    match ← visitSlots dir.cluster (listSlot f) ⟨.zeros, none, none, none, seen⟩ with
    | (.ok _, st) => pure (.ok st.found, st.seen)
    | (.error e, st) => pure (.error e, st.seen)

/-- The closure `lookup` gives to `list`. -/
def longMatches (part : List Byte) (long : Option (List Byte)) : Bool :=
  (long.map (eqIgnoreAsciiCase · part)).getD false

/-- The second half of `lookup`: by long name. -/
def lookupLong (dir : DirEntry) (part : List Byte) : Vol DirEntry := do
  match ← list dir (fun _ _ long ↦ (longMatches part long, ())) () with
  | (.ok (some e), _) => pure e
  | (.ok none, _) => throw .notFound
  | (.error e, _) => throw e

/-- `lookup`. -/
def lookup (dir : DirEntry) (part : List Byte) : Vol DirEntry :=
  match shortName part with
  | none => lookupLong dir part
  | some short => do
    match ← find dir short with
    | some e => pure e
    | none => lookupLong dir part

end Vol

end Vux9k

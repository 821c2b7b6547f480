import Vux9k.Fat.Write
import Vux9k.Firmware.Fmt
import Vux9k.Firmware.Image

/-!
# The second stage on the card

`fw_common/src/fat/stage2.rs`: `\VUX9K\STAGE2.BIN`, with the previous one as `STAGE2.OLD`; which of
them the first stage starts, and how a new one is installed.
-/

set_option autoImplicit false

namespace Vux9k

/-- `DIR`. -/
def stage2Dir : ShortName := ⟨str "VUX9K      ", by decide⟩

/-- `BIN`. -/
def stage2Bin : ShortName := ⟨str "STAGE2  BIN", by decide⟩

/-- `OLD`. -/
def stage2Old : ShortName := ⟨str "STAGE2  OLD", by decide⟩

/-- `NEW`. -/
def stage2New : ShortName := ⟨str "STAGE2  NEW", by decide⟩

/-- `Which`. -/
inductive Which : Type
  | bin
  | old
  deriving DecidableEq

/-- What `load` has been called with: an address and the bytes that go there. -/
abbrev Loads := List (ℕ × List Byte)

/-- What the closure of `load_accepted` captures. -/
structure Load : Type where
  header : Option (Except BootError ImageHeader)
  crc : Word
  offset : ℕ
  loads : Loads

/-- The closure of `load_accepted`, for a file of `size` bytes. -/
def loadSector (window : Window) (accept : ImageHeader → Except BootError Unit) (size : ℕ)
    (st : Load) (data : List Byte) : Load :=
  let header := st.header.getD (acceptHeader window accept size data)
  let payload := if st.header.isNone then data.drop (min headerLen data.length) else data
  match header with
  | .ok h =>
    { header := some header
      crc := crc32Update payload st.crc
      offset := st.offset + payload.length
      loads := st.loads ++ [(h.loadAddr + st.offset, payload)] }
  | .error _ => { st with header := some header }

namespace Vol

/-- `load_accepted`, with what has been given to `load` before and after. -/
def loadAccepted (file : DirEntry) (window : Window) (loads : Loads)
    (accept : ImageHeader → Except BootError Unit) :
    Vol (Except BootError ImageHeader × Loads) := do
  let (r, st) ← forEachSector file (loadSector window accept file.size)
    ⟨none, 0xFFFFFFFF#32, 0, loads⟩
  let result : Except BootError ImageHeader := do
    r.mapError .fat
    let h ← st.header.getD (.error .notV4)
    if (st.crc ^^^ 0xFFFFFFFF#32).toNat ≠ h.crc32 then .error .crc else pure h
  pure (result, st.loads)

/-- `load_file`. -/
def loadFile (file : DirEntry) (window : Window) (loads : Loads) :
    Vol (Except BootError ImageHeader × Loads) :=
  loadAccepted file window loads fun _ ↦ .ok ()

/-- `stage2::dir`. -/
def dir : Vol DirEntry := do
  let v ← gets id
  match ← find (.root v.root) stage2Dir with
  | some d => if d.isDir then pure d else throw .wrongType
  | none => throw .notFound

/-- `find_file`. -/
def findFile (name : ShortName) : Vol DirEntry := do
  let d ← dir
  match ← find d name with
  | some f => pure f
  | none => throw .notFound

/-- `try_one` of `select_boot`. -/
def tryOne (window : Window) (accept : ImageHeader → Except BootError Unit) (name : ShortName)
    (loads : Loads) : Vol (Except BootError ImageHeader × Loads) := do
  match ← attempt (findFile name) with
  | .error e => pure (.error (.fat e), loads)
  | .ok file => loadAccepted file window loads accept

/-- `select_boot`. -/
def selectBoot (window : Window) (accept : ImageHeader → Except BootError Unit) (loads : Loads) :
    Vol (Except (BootError × BootError) (Which × ImageHeader) × Loads) := do
  match ← tryOne window accept stage2Bin loads with
  | (.ok h, loads) => pure (.ok (.bin, h), loads)
  | (.error bin, loads) =>
    match ← tryOne window accept stage2Old loads with
    | (.ok h, loads) => pure (.ok (.old, h), loads)
    | (.error old, loads) => pure (.error (bin, old), loads)

end Vol

/-- The checks of `install`, before it touches the card. -/
def installCheck (window : Window) (image : List Byte) : Except BootError ImageHeader :=
  match ImageHeader.parse image with
  | none => .error .notV4
  | some h => do
    if h.size + headerLen ≠ image.length then .error .sizeMismatch
    (h.check window).mapError .image
    checkStage2 h
    if !h.crcMatches (image.drop headerLen) then .error .crc
    pure h

namespace Vol

/-- The directory to install into, which is made if there is none. -/
def installDir : Vol DirEntry := do
  match ← attempt dir with
  | .error .notFound =>
    let v ← gets id
    mkdir (.root v.root) stage2Dir
  | .error e => throw e
  | .ok d => pure d

/-- The rest of `install`. -/
def installImage (window : Window) (image : List Byte) : Vol Unit := do
  let dir ← installDir
  match ← find dir stage2New with
  | some stale => remove stale
  | none => pure ()
  let new ← create dir stage2New image
  let (r, back, len) ← forEachSector new
    (fun st d ↦ (crc32Update d st.1, st.2 + d.length)) (0xFFFFFFFF#32, 0)
  match r with
  | .error e => throw e
  | .ok () => pure ()
  if len ≠ image.length ∨ back ≠ crc32Update image 0xFFFFFFFF#32 then throw .verify
  match ← find dir stage2Bin with
  | some bin =>
    let (loaded, _) ← loadFile bin window []
    match loaded with
    | .ok _ =>
      match ← find dir stage2Old with
      | some old => remove old
      | none => pure ()
      rename dir bin stage2Old
    | .error _ => remove bin
  | none => pure ()
  rename dir new stage2Bin

/-- `install`. -/
def install (window : Window) (image : List Byte) : Vol (Except BootError Unit) :=
  match installCheck window image with
  | .error e => pure (.error e)
  | .ok _ => do
    match ← attempt (installImage window image) with
    | .error e => pure (.error (.fat e))
    | .ok () => pure (.ok ())

end Vol

end Vux9k

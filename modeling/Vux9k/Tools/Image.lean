import Vux9k.Firmware.BootPaths
import Vux9k.Lib.LittleEndian

/-!
# Files built by the host

`build_vux9_v4_image` of `tools/vux_tool.py` writes the 64-byte header and the payload that the
firmware reads; the tool has a parser of its own for what it reads back.  Both sides agree on the
layout only because both follow it: the tool as a `struct` format, field after field, the firmware
by offsets.
-/

set_option autoImplicit false

namespace Vux9k

namespace Tool

/-! ## `struct` -/

/-- `struct.pack("<I", v)`, none for a `struct.error`. -/
def packI (v : ℕ) : Option (List Byte) := if v < 2 ^ 32 then some (LittleEndian.ofNat 4 v) else none

/-- `struct.pack("<H", v)`. -/
def packH (v : ℕ) : Option (List Byte) := if v < 2 ^ 16 then some (LittleEndian.ofNat 2 v) else none

/-- The number an `I` takes off `data`, and what is left. -/
def unpackI (data : List Byte) : ℕ × List Byte := (LittleEndian.toNat (data.take 4), data.drop 4)

/-- The number an `H` takes off. -/
def unpackH (data : List Byte) : ℕ × List Byte := (LittleEndian.toNat (data.take 2), data.drop 2)

/-! ## The header -/

/-- `ImageHeader`. -/
structure ImageHeader : Type where
  mode : ℕ
  size : ℕ
  crc32 : ℕ
  name : List Byte
  version : ℕ
  loadAddr : ℕ
  entryPoint : ℕ
  deriving DecidableEq

/-- `b.ljust(n, b"\x00")`. -/
def ljustZero (n : ℕ) (b : List Byte) : List Byte := b ++ List.replicate (n - b.length) 0#8

namespace ImageHeader

/-- `pack`, in the order of `HEADER_FORMAT`. -/
def pack (h : ImageHeader) (magic headerVersion reserved : ℕ) : Option (List Byte) := do
  let magic ← packI magic
  let headerVersion ← packH headerVersion
  let reserved ← packH reserved
  let mode ← packI h.mode
  let size ← packI h.size
  let loadAddr ← packI h.loadAddr
  let entryPoint ← packI h.entryPoint
  let crc32 ← packI h.crc32
  let version ← packI h.version
  pure (magic ++ (headerVersion ++ (reserved ++ (mode ++ (size ++ (loadAddr ++ (entryPoint ++
    (crc32 ++ (version ++ ljustZero 32 (h.name.take 32))))))))))

/-- `parse`. -/
def parse (data : List Byte) : Option ImageHeader :=
  if data.length < headerLen then none
  else
    let (magic, data) := unpackI data
    let (hver, data) := unpackH data
    let (reserved, data) := unpackH data
    let (mode, data) := unpackI data
    let (size, data) := unpackI data
    let (load, data) := unpackI data
    let (entry, data) := unpackI data
    let (crc, data) := unpackI data
    let (ver, data) := unpackI data
    let name := data.take 32
    if magic ≠ vuxMagic ∨ hver ≠ headerVersionV4 ∨ reserved ≠ 0 then none
    else some ⟨mode, size, crc, name, ver, load, entry⟩

/-- The same fields in the firmware's header. -/
def toFirmware (h : ImageHeader) : Vux9k.ImageHeader where
  mode := h.mode
  size := h.size
  loadAddr := h.loadAddr
  entryPoint := h.entryPoint
  crc32 := h.crc32
  version := h.version
  name := h.name

end ImageHeader

/-! ## The file -/

/-- `pack_hack`: two big-endian instructions a little-endian word, the first in the low half. -/
def packHack (payload : List Byte) : List Byte :=
  (chunks 4 payload).flatMap fun chunk ↦
    let chunk := ljustZero 4 chunk
    let instr0 : Word := (chunk.getD 0 0#8).setWidth 32 <<< 8 ||| (chunk.getD 1 0#8).setWidth 32
    let instr1 : Word := (chunk.getD 2 0#8).setWidth 32 <<< 8 ||| (chunk.getD 3 0#8).setWidth 32
    leBytes (instr1 <<< 16 ||| instr0)

/-- `s.encode("ascii", errors="replace")`. -/
def encodeAscii (s : List Char) : List Byte :=
  s.map fun c ↦ if c.toNat < 128 then BitVec.ofNat 8 c.toNat else 0x3F#8

/-- `mode_val`. -/
def modeVal (mode : String) : ℕ := if mode = "hack" then modeHack else modeRiscv

/-- The payload of the file: a Hack binary is packed. -/
def filePayload (mode : String) (payload : List Byte) : List Byte :=
  if modeVal mode = modeHack then packHack payload else payload

/-- `name or default_name or ""`. -/
def fileName (name : List Char) (defaultName : Option (List Char)) : List Char :=
  if name ≠ [] then name else defaultName.getD []

/-- The header of the file. -/
def fileHeader (payload : List Byte) (defaultName : Option (List Char)) (name : List Char)
    (mode : String) (version : ℕ) (loadAddr entryPoint crcOverride : Option ℕ) : ImageHeader :=
  let payload := filePayload mode payload
  let loadAddr := loadAddr.getD (if modeVal mode = modeRiscv then 0x80000000 else 0)
  { mode := modeVal mode
    size := payload.length
    crc32 := crcOverride.getD (crc32 payload).toNat
    name := encodeAscii (fileName name defaultName)
    version
    loadAddr
    entryPoint := entryPoint.getD loadAddr }

/-- `build_vux9_v4_image`, for a payload that has been read; `defaultName` is the file's. -/
def buildVux9V4Image (payload : List Byte) (defaultName : Option (List Char)) (name : List Char)
    (mode : String) (version : ℕ) (loadAddr entryPoint crcOverride magicOverride : Option ℕ) :
    Option (List Byte × ImageHeader) := do
  let header := fileHeader payload defaultName name mode version loadAddr entryPoint crcOverride
  let packed ← header.pack (magicOverride.getD vuxMagic) headerVersionV4 0
  pure (packed ++ filePayload mode payload, header)

/-! ## One layout -/

theorem toNat_leBytes (w : Word) : LittleEndian.toNat (leBytes w) = w.toNat := by
  have hof : leBytes w = LittleEndian.ofNat 4 w.toNat := by
    simp only [leBytes, LittleEndian.ofNat, List.cons.injEq, and_true]
    refine ⟨?_, ?_, ?_, ?_⟩ <;>
    · apply BitVec.eq_of_toNat_eq
      simp only [BitVec.toNat_setWidth, BitVec.toNat_ushiftRight, BitVec.toNat_ofNat,
        Nat.shiftRight_eq_div_pow, Nat.div_div_eq_div_mul, Nat.reducePow, Nat.reduceMul]
  rw [hof, LittleEndian.toNat_ofNat (n := 4) w.isLt]

/-- The firmware's `le32` at an offset is the tool's `I` there. -/
theorem toNat_take_drop_four {data : List Byte} {i : ℕ} (h : i + 4 ≤ data.length) :
    LittleEndian.toNat ((data.drop i).take 4) = le32 (fun j ↦ data.getD j 0#8) i := by
  have hget : ∀ k, data.getD (i + k) 0#8 = (data.drop i).getD k 0#8 := by
    intro k
    rw [List.getD_eq_getElem?_getD, List.getD_eq_getElem?_getD, List.getElem?_drop]
  have hlen : 4 ≤ (data.drop i).length := by
    rw [List.length_drop]
    omega
  rw [le32, word, show data.getD i 0#8 = _ from hget 0, hget 1, hget 2, hget 3]
  obtain ⟨b₀, rest, hd⟩ := List.exists_cons_of_length_pos (by omega : 0 < (data.drop i).length)
  rw [hd, List.length_cons] at hlen
  obtain ⟨b₁, rest, rfl⟩ := List.exists_cons_of_length_pos (by omega : 0 < rest.length)
  rw [List.length_cons] at hlen
  obtain ⟨b₂, rest, rfl⟩ := List.exists_cons_of_length_pos (by omega : 0 < rest.length)
  rw [List.length_cons] at hlen
  obtain ⟨b₃, rest, rfl⟩ := List.exists_cons_of_length_pos (by omega : 0 < rest.length)
  rw [hd, ← toNat_leBytes]
  exact congrArg LittleEndian.toNat (leBytes_leWord b₀ b₁ b₂ b₃).symm

/-- And `le16` is `H`. -/
theorem toNat_take_drop_two {data : List Byte} {i : ℕ} (h : i + 2 ≤ data.length) :
    LittleEndian.toNat ((data.drop i).take 2) = le16 (fun j ↦ data.getD j 0#8) i := by
  have hget : ∀ k, data.getD (i + k) 0#8 = (data.drop i).getD k 0#8 := by
    intro k
    rw [List.getD_eq_getElem?_getD, List.getD_eq_getElem?_getD, List.getElem?_drop]
  have hlen : 2 ≤ (data.drop i).length := by
    rw [List.length_drop]
    omega
  rw [le16, show data.getD i 0#8 = _ from hget 0, hget 1]
  obtain ⟨b₀, rest, hd⟩ := List.exists_cons_of_length_pos (by omega : 0 < (data.drop i).length)
  rw [hd, List.length_cons] at hlen
  obtain ⟨b₁, rest, rfl⟩ := List.exists_cons_of_length_pos (by omega : 0 < rest.length)
  have hb : b₀.toNat < 2 ^ 8 := b₀.isLt
  rw [hd]
  change b₀.toNat + 256 * (b₁.toNat + 256 * 0) = b₀.toNat ||| b₁.toNat <<< 8
  rw [Nat.or_comm, ← Nat.shiftLeft_add_eq_or_of_lt hb, Nat.shiftLeft_eq]
  omega

/-- **The two parsers are one**: they accept the same bytes and read the same fields. -/
theorem parse_eq (data : List Byte) :
    (ImageHeader.parse data).map ImageHeader.toFirmware = Vux9k.ImageHeader.parse data := by
  rw [ImageHeader.parse, Vux9k.ImageHeader.parse]
  by_cases hlen : data.length < headerLen
  · simp only [if_pos hlen, if_pos (Or.inl hlen), Option.map_none]
  · have hlen' : 64 ≤ data.length := not_lt.mp hlen
    have hzero : data.take 4 = (data.drop 0).take 4 := rfl
    simp only [if_neg hlen, unpackI, unpackH, List.drop_drop, Nat.reduceAdd]
    rw [hzero, toNat_take_drop_four (by omega), toNat_take_drop_two (by omega),
      toNat_take_drop_two (by omega), toNat_take_drop_four (by omega),
      toNat_take_drop_four (by omega), toNat_take_drop_four (by omega),
      toNat_take_drop_four (by omega), toNat_take_drop_four (by omega),
      toNat_take_drop_four (by omega)]
    simp only [hlen, false_or]
    split
    · rfl
    · rfl

/-! ## What is built is read back -/

/-- What the header must fit for `struct.pack` to take it. -/
structure ImageHeader.Fits (h : ImageHeader) : Prop where
  mode : h.mode < 2 ^ 32
  size : h.size < 2 ^ 32
  crc32 : h.crc32 < 2 ^ 32
  version : h.version < 2 ^ 32
  loadAddr : h.loadAddr < 2 ^ 32
  entryPoint : h.entryPoint < 2 ^ 32

/-- The header as it is read back, with its 32 bytes of name. -/
def ImageHeader.stored (h : ImageHeader) : ImageHeader :=
  { h with name := ljustZero 32 (h.name.take 32) }

theorem length_ljustZero {n : ℕ} {b : List Byte} (h : b.length ≤ n) :
    (ljustZero n b).length = n := by
  rw [ljustZero, List.length_append, List.length_replicate]
  omega

theorem unpackI_append {v : ℕ} (h : v < 2 ^ 32) (rest : List Byte) :
    unpackI (LittleEndian.ofNat 4 v ++ rest) = (v, rest) := by
  rw [unpackI, LittleEndian.toNat_take_append (n := 4) h,
    List.drop_left' (LittleEndian.length_ofNat 4 v)]

theorem unpackH_append {v : ℕ} (h : v < 2 ^ 16) (rest : List Byte) :
    unpackH (LittleEndian.ofNat 2 v ++ rest) = (v, rest) := by
  rw [unpackH, LittleEndian.toNat_take_append (n := 2) h,
    List.drop_left' (LittleEndian.length_ofNat 2 v)]

/-- The bytes of a v4 header whose fields fit. -/
def ImageHeader.bytes (h : ImageHeader) : List Byte :=
  LittleEndian.ofNat 4 vuxMagic ++ (LittleEndian.ofNat 2 headerVersionV4 ++
    (LittleEndian.ofNat 2 0 ++ (LittleEndian.ofNat 4 h.mode ++ (LittleEndian.ofNat 4 h.size ++
      (LittleEndian.ofNat 4 h.loadAddr ++ (LittleEndian.ofNat 4 h.entryPoint ++
        (LittleEndian.ofNat 4 h.crc32 ++ (LittleEndian.ofNat 4 h.version ++
          ljustZero 32 (h.name.take 32)))))))))

theorem length_storedName (h : ImageHeader) : (ljustZero 32 (h.name.take 32)).length = 32 :=
  length_ljustZero (List.length_take_le 32 _)

theorem ImageHeader.length_bytes (h : ImageHeader) : h.bytes.length = headerLen := by
  simp only [ImageHeader.bytes, List.length_append, LittleEndian.length_ofNat, length_storedName]
  rfl

theorem pack_of_fits {h : ImageHeader} (hfits : h.Fits) :
    h.pack vuxMagic headerVersionV4 0 = some h.bytes := by
  have hI : ∀ {v}, v < 2 ^ 32 → packI v = some (LittleEndian.ofNat 4 v) := fun hv ↦ if_pos hv
  have hH : ∀ {v}, v < 2 ^ 16 → packH v = some (LittleEndian.ofNat 2 v) := fun hv ↦ if_pos hv
  rw [ImageHeader.pack, hI (by decide), hH (by decide), hH (by decide), hI hfits.mode,
    hI hfits.size,
    hI hfits.loadAddr, hI hfits.entryPoint, hI hfits.crc32, hI hfits.version]
  rfl

/-- A payload of 4 GiB or more is refused by `struct.pack`. -/
theorem pack_of_size {h : ImageHeader} (hsize : 2 ^ 32 ≤ h.size) (magic version reserved : ℕ) :
    h.pack magic version reserved = none := by
  have hnone : packI h.size = none := if_neg (by omega)
  rw [ImageHeader.pack, hnone]
  cases packI magic with
  | none => rfl
  | some _ =>
    cases packH version with
    | none => rfl
    | some _ =>
      cases packH reserved with
      | none => rfl
      | some _ => cases packI h.mode <;> rfl

/-- **The header comes back**, whatever follows it. -/
theorem parse_bytes {h : ImageHeader} (hfits : h.Fits) (payload : List Byte) :
    ImageHeader.parse (h.bytes ++ payload) = some h.stored := by
  have hmagic : vuxMagic < 2 ^ 32 := by decide
  have hver : headerVersionV4 < 2 ^ 16 := by decide
  rw [ImageHeader.parse, if_neg (by
    rw [List.length_append, h.length_bytes]
    omega), ImageHeader.bytes]
  simp only [List.append_assoc, unpackI_append hmagic, unpackH_append hver,
    unpackH_append (show 0 < 2 ^ 16 by decide), unpackI_append hfits.mode,
    unpackI_append hfits.size, unpackI_append hfits.loadAddr, unpackI_append hfits.entryPoint,
    unpackI_append hfits.crc32, unpackI_append hfits.version,
    List.take_left' (length_storedName h), ne_eq, not_true, or_false, if_false]
  rfl

/-- What `load_file` does with a file whose header is good but for the window. -/
theorem loadResult_of_parse (window : Window) {file : List Byte} {h : Vux9k.ImageHeader}
    (hparse : Vux9k.ImageHeader.parse file = some h) (hsize : h.size + headerLen = file.length)
    (hcrc : (crc32 (file.drop headerLen)).toNat = h.crc32) :
    (h.check window = .ok () → loadResult window (fun _ ↦ .ok ()) file [] =
      (.ok h, payloadLoads h file)) ∧
    ∀ e, h.check window = .error e →
      loadResult window (fun _ ↦ .ok ()) file [] = (.error (.image e), []) := by
  refine ⟨fun hcheck ↦ ?_, fun e hcheck ↦ ?_⟩
  · have hacc : acceptHeader window (fun _ ↦ .ok ()) file.length file = .ok h := by
      rw [acceptHeader, hparse]
      dsimp only
      rw [if_neg (not_not.mpr hsize), hcheck]
      rfl
    rw [loadResult, hacc]
    dsimp only
    rw [if_pos hcrc, List.nil_append]
  · have hacc : acceptHeader window (fun _ ↦ .ok ()) file.length file = .error (.image e) := by
      rw [acceptHeader, hparse]
      dsimp only
      rw [if_neg (not_not.mpr hsize), hcheck]
      rfl
    rw [loadResult, hacc]

/-- **`load_file` on a card file** with a good header and CRC: the window's check decides, and the
payload is delivered in order. -/
theorem reads_loadFile_of_parse {c : Card} {v : Volume} (hg : v.toGeometry.Ok) (hv : Clean c v)
    {entry : DirEntry} {file : List Byte} (hfile : HasContents v.toGeometry c entry file)
    {h : Vux9k.ImageHeader} (hparse : Vux9k.ImageHeader.parse file = some h)
    (hsize : h.size + headerLen = file.length)
    (hcrc : (crc32 (file.drop headerLen)).toNat = h.crc32) (window : Window) : ∃ r loads,
      Reads c v (Vol.loadFile entry window []) (.ok (r, loads)) ∧
        (r = .ok h ↔ h.check window = .ok ()) ∧
        ((∃ h', r = .ok h') → r = .ok h ∧ Covers h.loadAddr (file.drop headerLen) loads ∧
          (window.base + window.len ≤ 2 ^ 32 → ∀ a bs, (a, bs) ∈ loads →
            a + bs.length ≤ 2 ^ 32)) := by
  have hreads := reads_loadAccepted hg hv hfile window [] fun _ ↦ .ok ()
  obtain ⟨hok, herr⟩ := loadResult_of_parse window hparse hsize hcrc
  cases hcheck : h.check window with
  | error e =>
    rw [herr e hcheck] at hreads
    refine ⟨_, _, hreads, by simp, ?_⟩
    rintro ⟨h', hh'⟩
    cases hh'
  | ok u =>
    rw [hok hcheck] at hreads
    obtain ⟨-, -, -, hend⟩ := check_ok hcheck
    refine ⟨_, _, hreads, by simp, fun _ ↦ ⟨rfl, ?_, ?_⟩⟩
    · rw [← flatten_payloadPieces]
      exact covers_loadsAt _ _
    · intro hwindow a bs hmem
      have hhigh := (loadsAt_bounds hmem).2
      rw [flatten_payloadPieces, List.length_drop] at hhigh
      omega

section

variable (payload : List Byte) (defaultName : Option (List Char)) (name : List Char) (mode : String)
  (version : Word) (loadAddr entryPoint : Option Word)

/-- What a file that is built without overrides says of itself. -/
def builtHeader : ImageHeader where
  mode := modeVal mode
  size := (filePayload mode payload).length
  crc32 := (crc32 (filePayload mode payload)).toNat
  name := ljustZero 32 ((encodeAscii (fileName name defaultName)).take 32)
  version := version.toNat
  loadAddr := (loadAddr.getD (if modeVal mode = modeRiscv then 0x80000000#32 else 0#32)).toNat
  entryPoint := (entryPoint.getD
    (loadAddr.getD (if modeVal mode = modeRiscv then 0x80000000#32 else 0#32))).toNat

/-- `build_vux9_v4_image` without overrides. -/
def build : Option (List Byte × ImageHeader) :=
  buildVux9V4Image payload defaultName name mode version.toNat (loadAddr.map BitVec.toNat)
    (entryPoint.map BitVec.toNat) none none

theorem stored_fileHeader :
    (fileHeader payload defaultName name mode version.toNat (loadAddr.map BitVec.toNat)
      (entryPoint.map BitVec.toNat) none).stored =
      builtHeader payload defaultName name mode version loadAddr entryPoint := by
  have hbase : (if modeVal mode = modeRiscv then 0x80000000#32 else 0#32 : Word).toNat =
      if modeVal mode = modeRiscv then 0x80000000 else 0 := by
    split <;> rfl
  cases loadAddr <;> cases entryPoint <;>
    simp [fileHeader, ImageHeader.stored, builtHeader, hbase]

/-- The tool's numbers fit, but for the length of a large payload. -/
theorem fits_fileHeader (hsize : (filePayload mode payload).length < 2 ^ 32) :
    (fileHeader payload defaultName name mode version.toNat (loadAddr.map BitVec.toNat)
      (entryPoint.map BitVec.toNat) none).Fits := by
  have hmode : modeVal mode < 2 ^ 32 := by
    rw [modeVal]
    split <;> decide
  have heq := stored_fileHeader payload defaultName name mode version loadAddr entryPoint
  refine ⟨hmode, hsize, BitVec.isLt _, version.isLt, ?_, ?_⟩
  · have hload := congrArg ImageHeader.loadAddr heq
    exact hload ▸ BitVec.isLt _
  · have hentry := congrArg ImageHeader.entryPoint heq
    exact hentry ▸ BitVec.isLt _

/-- The file, if its payload is not too long for the header. -/
theorem build_of_lt (hsize : (filePayload mode payload).length < 2 ^ 32) : ∃ h : ImageHeader,
    h.Fits ∧ h.stored = builtHeader payload defaultName name mode version loadAddr entryPoint ∧
      build payload defaultName name mode version loadAddr entryPoint =
        some (h.bytes ++ filePayload mode payload, h) := by
  have hfits := fits_fileHeader payload defaultName name mode version loadAddr entryPoint hsize
  refine ⟨_, hfits, stored_fileHeader .., ?_⟩
  rw [build, buildVux9V4Image, Option.getD_none, pack_of_fits hfits]
  rfl

theorem build_of_le (hsize : 2 ^ 32 ≤ (filePayload mode payload).length) :
    build payload defaultName name mode version loadAddr entryPoint = none := by
  rw [build, buildVux9V4Image, Option.getD_none, pack_of_size hsize]
  rfl

/-- **The files the tool builds are the files the firmware reads.**  A file is built unless its
payload is too long for the header; both parsers read the given fields from it, as they read the
same from any bytes; and from a card, `load_file` succeeds just when the header passes the window's
check, having delivered the payload at consecutive addresses. -/
theorem built_files_load :
    ((∃ file h, build payload defaultName name mode version loadAddr entryPoint = some (file, h)) ↔
      (filePayload mode payload).length < 2 ^ 32) ∧
    (∀ data, (ImageHeader.parse data).map ImageHeader.toFirmware = Vux9k.ImageHeader.parse data) ∧
    ∀ file h', build payload defaultName name mode version loadAddr entryPoint = some (file, h') →
      ∃ h, h = builtHeader payload defaultName name mode version loadAddr entryPoint ∧
        ImageHeader.parse file = some h ∧ Vux9k.ImageHeader.parse file = some h.toFirmware ∧
        ∀ (c : Card) (v : Volume) (entry : DirEntry) (window : Window), v.toGeometry.Ok →
        Clean c v →
          HasContents v.toGeometry c entry file → ∃ r loads,
            Reads c v (Vol.loadFile entry window []) (.ok (r, loads)) ∧
              (r = .ok h.toFirmware ↔ h.toFirmware.check window = .ok ()) ∧
              ((∃ h'', r = .ok h'') → r = .ok h.toFirmware ∧
                Covers h.loadAddr (filePayload mode payload) loads ∧
                (window.base + window.len ≤ 2 ^ 32 →
                  ∀ a bs, (a, bs) ∈ loads → a + bs.length ≤ 2 ^ 32)) := by
  rcases Nat.lt_or_ge (filePayload mode payload).length (2 ^ 32) with hsize | hsize
  swap
  · rw [build_of_le payload defaultName name mode version loadAddr entryPoint hsize]
    refine ⟨⟨?_, fun h ↦ absurd h (by omega)⟩, parse_eq, ?_⟩
    · rintro ⟨_, _, ⟨⟩⟩
    · rintro _ _ ⟨⟩
  obtain ⟨h, hfits, hstored, hbuild⟩ :=
    build_of_lt payload defaultName name mode version loadAddr entryPoint hsize
  rw [hbuild]
  refine ⟨⟨fun _ ↦ hsize, fun _ ↦ ⟨_, _, rfl⟩⟩, parse_eq, ?_⟩
  rintro _ _ ⟨⟩
  have hparse := parse_bytes hfits (filePayload mode payload)
  have hfw : Vux9k.ImageHeader.parse (h.bytes ++ filePayload mode payload) =
      some h.stored.toFirmware := by
    rw [← parse_eq, hparse, Option.map_some]
  have hdrop : (h.bytes ++ filePayload mode payload).drop headerLen = filePayload mode payload :=
    List.drop_left' h.length_bytes
  have hlen : h.stored.toFirmware.size + headerLen =
      (h.bytes ++ filePayload mode payload).length := by
    rw [hstored, List.length_append, h.length_bytes, Nat.add_comm]
    rfl
  have hcrc : (crc32 ((h.bytes ++ filePayload mode payload).drop headerLen)).toNat =
      h.stored.toFirmware.crc32 := by
    rw [hdrop, hstored]
    rfl
  refine ⟨h.stored, hstored, hparse, hfw, fun c v entry window hg hv hfile ↦ ?_⟩
  have hload := reads_loadFile_of_parse hg hv hfile hfw hlen hcrc window
  rwa [hdrop] at hload

end

/-- A Hack program of one instruction. -/
def hackFile : List Byte :=
  (build [0x12#8, 0x34#8] (some "answer".toList) [] "hack" 7#32 none none).elim [] Prod.fst

/-- A card with it as its only file. -/
def hackCard : Card := fun lba ↦ if lba = 2 then ofBytes hackFile else fun _ ↦ 0xFF#8

/-- It is found packed, at the start of the segment. -/
theorem built_files_load_hack : ∃ h loads,
    Vux9k.ImageHeader.parse hackFile = some h ∧ h.name = ljustZero 32 (str "answer") ∧
      Reads hackCard oneByteVolume
        (Vol.loadFile { oneByteEntry with size := 68 } ⟨0, 0x10000⟩ []) (.ok (.ok h, loads)) ∧
      Covers 0 [0x34#8, 0x12#8, 0#8, 0#8] loads := by
  have hfile : HasContents oneByteVolume.toGeometry hackCard { oneByteEntry with size := 68 }
      hackFile :=
    ⟨by decide, by decide +kernel, by decide +kernel, fun _ ↦ ⟨[], ⟨by decide, by decide⟩,
      by decide +kernel, by decide +kernel, by decide +kernel⟩⟩
  have hbuild : (build [0x12#8, 0x34#8] (some "answer".toList) [] "hack" 7#32 none none).map
      Prod.fst = some hackFile := by
    decide +kernel
  obtain ⟨⟨file, h'⟩, hb, hfst⟩ := Option.map_eq_some_iff.mp hbuild
  dsimp only at hfst
  rw [hfst] at hb
  obtain ⟨h, hh, -, hparse, hload⟩ := (built_files_load _ _ _ _ _ _ _).2.2 _ _ hb
  obtain ⟨r, loads, hreads, hiff, hok⟩ := hload hackCard oneByteVolume _ ⟨0, 0x10000⟩ ⟨by decide⟩
    ⟨rfl, fun h ↦ absurd rfl h⟩ hfile
  have hcheck : h.toFirmware.check ⟨0, 0x10000⟩ = .ok () := by
    rw [hh]
    decide
  obtain rfl := hiff.mpr hcheck
  obtain ⟨-, hcovers, -⟩ := hok ⟨_, rfl⟩
  have haddr : h.loadAddr = 0 := by
    rw [hh]
    decide
  have hpack : filePayload "hack" [0x12#8, 0x34#8] = [0x34#8, 0x12#8, 0#8, 0#8] := by
    decide
  rw [haddr, hpack] at hcovers
  exact ⟨_, loads, hparse, by rw [hh]; decide, hreads, hcovers⟩

end Tool

end Vux9k

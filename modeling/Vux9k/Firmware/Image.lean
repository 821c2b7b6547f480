import Vux9k.Fat.Volume
import Vux9k.Firmware.Crc

/-!
# The files the first stage starts

The 64-byte VUX9 v4 header (`fw_common/src/header.rs`) and what is asked of it: that the payload
fits where it is to load (`check`), and that the first stage may start it (`checkStage2`, of
`fw_common/src/boot.rs`).

Three paths load such a file, each with its own code.  `acceptHeader` and `accepted` say once what
they are meant to accept.
-/

set_option autoImplicit false

namespace Vux9k

/-- `VUX_MAGIC`. -/
def vuxMagic : ℕ := 0x56555839

/-- `HEADER_LEN`. -/
def headerLen : ℕ := 64

/-- `MODE_HACK`. -/
def modeHack : ℕ := 0

/-- `MODE_RISCV`. -/
def modeRiscv : ℕ := 1

/-- `HEADER_VERSION_V4`. -/
def headerVersionV4 : ℕ := 4

/-- `ImageHeader`. -/
structure ImageHeader : Type where
  mode : ℕ
  size : ℕ
  loadAddr : ℕ
  entryPoint : ℕ
  crc32 : ℕ
  version : ℕ
  name : List Byte
  deriving DecidableEq

/-- `ImageError`. -/
inductive ImageError : Type
  | badMode (mode : ℕ)
  | empty
  | outOfWindow
  | badEntry (e : ℕ)
  deriving DecidableEq

/-- `BootError`. -/
inductive BootError : Type
  | fat (e : FatError)
  | notV4
  | sizeMismatch
  | image (e : ImageError)
  | crc
  | tooOld (version : ℕ)
  deriving DecidableEq

/-- `Window`: where a payload may load. -/
structure Window : Type where
  base : ℕ
  len : ℕ

/-- `STAGE2_WINDOW`, the top megabyte of the PSRAM. -/
def stage2Window : Window := ⟨0x80700000, 0x100000⟩

/-- `RAM_BOOT_MAX`. -/
def ramBootMax : ℕ := headerLen + 0x100000

/-- `MIN_STAGE2_VERSION`. -/
def minStage2Version : ℕ := 10

namespace ImageHeader

/-- `ImageHeader::parse`. -/
def parse (b : List Byte) : Option ImageHeader :=
  let s := fun i ↦ b.getD i 0#8
  if b.length < headerLen ∨ le32 s 0 ≠ vuxMagic ∨ le16 s 4 ≠ headerVersionV4 ∨ le16 s 6 ≠ 0 then
    none
  else some
    { mode := le32 s 8
      size := le32 s 12
      loadAddr := le32 s 16
      entryPoint := le32 s 20
      crc32 := le32 s 24
      version := le32 s 28
      name := (b.drop 32).take 32 }

/-- `ImageHeader::check`. -/
def check (h : ImageHeader) (window : Window) : Except ImageError Unit :=
  if h.mode ≠ modeRiscv ∧ h.mode ≠ modeHack then .error (.badMode h.mode)
  else if h.size = 0 then .error .empty
  else if h.loadAddr < window.base ∨ window.len < h.size ∨
      window.len - h.size < h.loadAddr - window.base then .error .outOfWindow
  else if h.mode = modeRiscv ∧ (h.entryPoint < h.loadAddr ∨
      h.size ≤ h.entryPoint - h.loadAddr ∨ h.entryPoint % 4 ≠ 0) then
        .error (.badEntry h.entryPoint)
  else .ok ()

/-- `ImageHeader::crc_matches`. -/
def crcMatches (h : ImageHeader) (payload : List Byte) : Bool :=
  payload.length = h.size &&
    (crc32Update payload 0xFFFFFFFF#32 ^^^ 0xFFFFFFFF#32).toNat = h.crc32

end ImageHeader

/-- `check_stage2`. -/
def checkStage2 (h : ImageHeader) : Except BootError Unit :=
  if h.mode ≠ modeRiscv then .error (.image (.badMode h.mode))
  else if h.version < minStage2Version then .error (.tooOld h.version)
  else .ok ()

/-- The checks of a header at the start of a file of `len` bytes, `accept`'s the last of them. -/
def acceptHeader (window : Window) (accept : ImageHeader → Except BootError Unit) (len : ℕ)
    (b : List Byte) : Except BootError ImageHeader :=
  match ImageHeader.parse b with
  | none => .error .notV4
  | some h =>
    if h.size + headerLen ≠ len then .error .sizeMismatch
    else do
      (h.check window).mapError .image
      accept h
      pure h

/-- What the three paths are meant to accept: a whole file, header and CRC. -/
def accepted (window : Window) (file : List Byte) : Except BootError ImageHeader := do
  let h ← acceptHeader window checkStage2 file.length file
  if h.crcMatches (file.drop headerLen) then pure h else .error .crc

end Vux9k

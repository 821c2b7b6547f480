import Vux9k.Fat.Stage2
import Vux9k.Firmware.Upload

/-!
# RAM boot

`RamBoot` of `fw_common/src/boot.rs` is the sink that takes a file over transfer v2 straight to its
load address; `Dev.serve` runs the device's side of the transfer against a sink and what a host
sends.
-/

set_option autoImplicit false

namespace Vux9k

/-- `UploadSink`. -/
structure UploadSink (σ : Type) : Type where
  begin : σ → ℕ → Bool × σ
  block : σ → ℕ → List Byte → Bool × σ
  finish : σ → Bool → Bool × σ

/-- `RamBoot`, with what its `write` has been called with. -/
structure RamBoot : Type where
  window : Window
  writes : Loads
  len : ℕ
  header : Option ImageHeader
  addr : ℕ
  crc : Word
  done : Bool
  error : Option BootError

namespace RamBoot

/-- `RamBoot::new`. -/
def new (window : Window) : RamBoot where
  window := window
  writes := []
  len := 0
  header := none
  addr := 0
  crc := 0xFFFFFFFF#32
  done := false
  error := none

/-- `RamBoot::header`. -/
def bootHeader (r : RamBoot) : Option ImageHeader := if r.done then r.header else none

/-- `fail`. -/
def fail (r : RamBoot) (e : BootError) : Bool × RamBoot := (false, { r with error := some e })

/-- `begin`. -/
def begin (r : RamBoot) (len : ℕ) : Bool × RamBoot :=
  let r := { r with len }
  if len ≤ headerLen then r.fail .notV4 else (true, r)

/-- What `block` does with the payload. -/
def store (r : RamBoot) (payload : List Byte) : Bool × RamBoot :=
  (true, { r with
    writes := r.writes ++ [(r.addr, payload)]
    crc := crc32Update payload r.crc
    addr := r.addr + payload.length })

/-- `block`. -/
def block (r : RamBoot) (index : ℕ) (data : List Byte) : Bool × RamBoot :=
  if index = 0 then
    match ImageHeader.parse data with
    | none => r.fail .notV4
    | some h =>
      if h.size + headerLen ≠ r.len then r.fail .sizeMismatch
      else
        match h.check r.window with
        | .error e => r.fail (.image e)
        | .ok () =>
          match checkStage2 h with
          | .error e => r.fail e
          | .ok () => store { r with header := some h, addr := h.loadAddr } (data.drop headerLen)
  else store r data

/-- `finish`. -/
def finish (r : RamBoot) (ok : Bool) : Bool × RamBoot :=
  if !ok then (true, r)
  else
    match r.header with
    | none => r.fail .crc
    | some h =>
      if (r.crc ^^^ 0xFFFFFFFF#32).toNat = h.crc32 then (true, { r with done := true })
      else r.fail .crc

/-- The sink. -/
def sink : UploadSink RamBoot := ⟨begin, block, finish⟩

end RamBoot

namespace Dev

variable {α σ : Type}

/-- A program of the device against a sink and a host whose bytes all arrive in time. -/
def serve (sink : UploadSink σ) : Dev α → List Byte → σ → α × σ
  | .ret a, _, s => (a, s)
  | .ask (.put _) k, input, s => serve sink (k ()) input s
  | .ask .drain k, input, s => serve sink (k ()) input s
  | .ask .recv k, input, s => serve sink (k input.head?) input.tail s
  | .ask (.begin len) k, input, s => serve sink (k (sink.begin s len).1) input (sink.begin s len).2
  | .ask (.block index data) k, input, s =>
    serve sink (k (sink.block s index data).1) input (sink.block s index data).2
  | .ask (.finish ok) k, input, s => serve sink (k (sink.finish s ok).1) input (sink.finish s ok).2

end Dev

end Vux9k

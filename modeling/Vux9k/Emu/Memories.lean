import Vux9k.Emu.Soc
import Vux9k.Fat.Volume

/-!
# The emulator's memories

What `fetch` of `emu/crates/vux9k_emu/src/soc.rs` reads from, and how programs get there.  The
caches of the emulator say how long an access takes and hold no data, so the word of a fetch is
always the memory's.
-/

set_option autoImplicit false

namespace Vux9k.Emu

/-- `XMEM_WORDS`. -/
def xmemWords : ℕ := 1 <<< 21

/-- `XMEM_BYTES`. -/
def xmemBytes : ℕ := xmemWords * 4

/-- `XMEM_BASE`. -/
def xmemBase : Word := 0x80000000#32

/-- `HACK_I_BASE`. -/
def hackIBase : Word := 0x80000000#32

/-- `HACK_I_BYTES`. -/
def hackIBytes : ℕ := 0x10000

/-- The ROM and the PSRAM; the profiles without a PSRAM have an empty one. -/
structure Memories : Type where
  rom : ℕ → Word
  romMask : Word
  xmem : ℕ → Word
  hasXmem : Bool

/-- `xmem_index`. -/
def xmemIndex (addr : Word) : ℕ := (addr >>> 2).toNat &&& (xmemWords - 1)

/-- Why an image is not loaded, with what the message says. -/
inductive LoadError : Type
  | hackSegment (len offset : ℕ)
  | oddLength (len : ℕ)
  | noPsram
  | outsidePsram (len : ℕ) (addr : Word)
  deriving DecidableEq

namespace Memories

variable (m : Memories)

/-- `in_xmem`. -/
def inXmem (addr : Word) : Bool := addr >>> 28 = 0x8#32 && m.hasXmem

/-- The word of `fetch`. -/
def fetch (riscvMode : Bool) (pc : Word) : Word :=
  let win : Option Word :=
    if riscvMode then if m.inXmem pc then some pc else none
    else if m.hasXmem then some (hackIBase ||| (pc &&& 0xFFFF#32)) else none
  match win with
  | some addr => m.xmem (xmemIndex addr)
  | none => m.rom ((pc >>> 2) &&& m.romMask).toNat

end Memories

/-- `xmem[i + n] = v` for each of the words. -/
def storeWords (xmem : ℕ → Word) : ℕ → List Word → ℕ → Word
  | _, [] => xmem
  | i, w :: ws => storeWords (Function.update xmem i w) (i + 1) ws

/-- The little-endian words of some bytes, filled up with zeros. -/
def wordsOf (bytes : List Byte) : List Word :=
  (chunks 4 bytes).map fun chunk ↦ word (fun i ↦ chunk.getD i 0#8) 0

/-- `load_xmem`. -/
def Memories.loadXmem (m : Memories) (addr : Word) (bytes : List Byte) :
    Except LoadError Memories :=
  let offset := (addr - xmemBase).toNat
  if !m.inXmem addr ∨ addr.toNat % 4 ≠ 0 ∨ xmemBytes < offset + bytes.length then
    .error (.outsidePsram bytes.length addr)
  else .ok { m with xmem := storeWords m.xmem (offset / 4) (wordsOf bytes) }

/-- `instrs` of `load_hack`. -/
def hackInstrs (bytes : List Byte) : List Word :=
  (chunks 2 bytes).map fun c ↦ (c.getD 0 0#8 ++ c.getD 1 0#8 : BitVec 16).setWidth 32

/-- `words` of `load_hack`. -/
def hackWords (bytes : List Byte) : List Byte :=
  (chunks 2 (hackInstrs bytes)).flatMap fun p ↦
    leBytes (p.getD 0 0#32 ||| (p[1]? : Option Word).elim 0#32 fun i ↦ i <<< 16)

/-- `load_hack`. -/
def Soc.loadHack (s : Soc Memories) (bytes : List Byte) (offset : Word) :
    Except LoadError (Soc Memories) :=
  if bytes = [] ∨ offset.toNat % 4 ≠ 0 ∨ hackIBytes < offset.toNat + bytes.length then
    .error (.hackSegment bytes.length offset.toNat)
  else if bytes.length % 2 ≠ 0 then .error (.oddLength bytes.length)
  else if !s.mem.hasXmem then .error .noPsram
  else do
    let mem ← s.mem.loadXmem (hackIBase + offset) (hackWords bytes)
    pure { s with mem, pc := 0#32, riscvMode := false }

/-! ## Words in memory -/

theorem storeWords_of_not_mem {xmem : ℕ → Word} {i j : ℕ} {ws : List Word}
    (h : ¬ (i ≤ j ∧ j < i + ws.length)) : storeWords xmem i ws j = xmem j := by
  induction ws generalizing xmem i with
  | nil => rfl
  | cons w ws ih =>
    rw [List.length_cons] at h
    rw [storeWords, ih (by omega), Function.update_of_ne (by omega)]

/-- The words are there. -/
theorem storeWords_get {xmem : ℕ → Word} {i j : ℕ} {ws : List Word} {w : Word}
    (h : ws[j]? = some w) : storeWords xmem i ws (i + j) = w := by
  induction ws generalizing xmem i j with
  | nil => simp at h
  | cons v ws ih =>
    rw [storeWords]
    cases j with
    | zero =>
      obtain rfl : v = w := by simpa using h
      change storeWords _ (i + 1) ws i = v
      rw [storeWords_of_not_mem (by omega), Function.update_self]
    | succ j =>
      rw [← Nat.add_assoc, Nat.add_right_comm]
      exact ih (by simpa using h)

theorem chunks_leBytes (w : Word) (rest : List Byte) :
    chunks 4 (leBytes w ++ rest) = leBytes w :: chunks 4 rest := by
  rw [chunks_of_ne_nil (by decide) (by simp [leBytes])]
  rfl

/-- Bytes of words are the words again. -/
theorem wordsOf_flatMap_leBytes (ws : List Word) : wordsOf (ws.flatMap leBytes) = ws := by
  induction ws with
  | nil => rfl
  | cons w ws ih =>
    rw [List.flatMap_cons, wordsOf, chunks_leBytes, List.map_cons, ← wordsOf, ih]
    congr 1
    exact leWord_leBytes w

end Vux9k.Emu

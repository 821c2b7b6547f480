import Vux9k.Emu.Memories
import Vux9k.Lockstep.Hack
import Vux9k.Rtl.Window
import Vux9k.Tools.Image

/-!
# A Hack program from the host to the CPUs

A Hack binary has big-endian instructions of 16 bits; the CPU fetches little-endian words of 32,
with the earlier instruction in the low half.  `pack_hack` of the host and `load_hack` of the
emulator each do the packing, the emulator's `step_hack` and the RTL's `h_instr_16` the unpacking,
through segments that they cut out of the window in their own ways.  All meet in `packedWord`: the
word at `4 * j` has the instructions `2 * j` and `2 * j + 1`.
-/

set_option autoImplicit false

namespace Vux9k

open Emu (wordsOf hackInstrs hackWords storeWords xmemIndex)
open Tool (packHack ljustZero)

/-- Instruction `k` of a Hack binary. -/
def hackInstr (bytes : List Byte) (k : ℕ) : BitVec 16 :=
  bytes.getD (2 * k) 0#8 ++ bytes.getD (2 * k + 1) 0#8

/-- The word with instructions `2 * j` and `2 * j + 1`. -/
def packedWord (bytes : List Byte) (j : ℕ) : Word :=
  (hackInstr bytes (2 * j + 1)).setWidth 32 <<< 16 ||| (hackInstr bytes (2 * j)).setWidth 32

/-! ## Packing -/

/-- Piece `j` of a slice. -/
theorem getElem?_chunks {α : Type} {n : ℕ} (hn : 0 < n) (l : List α) (j : ℕ) :
    (chunks n l)[j]? = if n * j < l.length then some ((l.drop (n * j)).take n) else none := by
  induction l using chunks_induction hn generalizing j with
  | nil => simp
  | step l hne ih =>
    have hpos : 0 < l.length := List.length_pos_iff.mpr hne
    rw [chunks_of_ne_nil hn hne]
    cases j with
    | zero => simp [hpos]
    | succ j =>
      rw [List.getElem?_cons_succ, ih, List.length_drop, List.drop_drop, Nat.mul_succ,
        Nat.add_comm n]
      refine if_congr ?_ rfl rfl
      omega

theorem getD_take_drop (bytes : List Byte) {i n k : ℕ} (hk : k < n) :
    ((bytes.drop i).take n).getD k 0#8 = bytes.getD (i + k) 0#8 := by
  rw [List.getD_eq_getElem?_getD, List.getD_eq_getElem?_getD, List.getElem?_take_of_lt hk,
    List.getElem?_drop]

theorem getD_ljustZero (n k : ℕ) (b : List Byte) : (ljustZero n b).getD k 0#8 = b.getD k 0#8 := by
  rw [ljustZero, List.getD_eq_getElem?_getD, List.getD_eq_getElem?_getD, List.getElem?_append]
  split
  · rfl
  next h =>
    rw [List.getElem?_eq_none (Nat.le_of_not_lt h), List.getElem?_replicate]
    split <;> rfl

theorem be_word (a b : Byte) :
    (a.setWidth 32 <<< 8 ||| b.setWidth 32 : Word) = (a ++ b : BitVec 16).setWidth 32 := by
  apply BitVec.eq_of_getLsbD_eq
  intro i hi
  simp only [BitVec.getLsbD_or, BitVec.getLsbD_shiftLeft, BitVec.getLsbD_setWidth,
    BitVec.getLsbD_append]
  by_cases h8 : i < 8
  · simp [h8, hi]
  · simp [h8, hi, BitVec.getLsbD_of_ge b i (by omega), show i - 8 < 32 by omega]

/-- The words that `pack_hack` makes. -/
theorem packHack_eq_flatMap (bytes : List Byte) : packHack bytes = ((chunks 4 bytes).map fun chunk ↦
    ((chunk.getD 2 0#8 ++ chunk.getD 3 0#8 : BitVec 16).setWidth 32 <<< 16 |||
      (chunk.getD 0 0#8 ++ chunk.getD 1 0#8 : BitVec 16).setWidth 32 : Word)).flatMap leBytes := by
  rw [packHack, List.flatMap_map]
  simp only [getD_ljustZero, be_word]

theorem flatMap_wordsOf_packHack (bytes : List Byte) :
    (wordsOf (packHack bytes)).flatMap leBytes = packHack bytes := by
  conv_lhs => rw [packHack_eq_flatMap, Emu.wordsOf_flatMap_leBytes]
  exact (packHack_eq_flatMap bytes).symm

theorem getElem?_wordsOf_packHack (bytes : List Byte) (j : ℕ) : (wordsOf (packHack bytes))[j]? =
    if 4 * j < bytes.length then some (packedWord bytes j) else none := by
  rw [packHack_eq_flatMap, Emu.wordsOf_flatMap_leBytes, List.getElem?_map,
    getElem?_chunks (by decide)]
  split
  · rw [Option.map_some, getD_take_drop bytes (by decide), getD_take_drop bytes (by decide),
      getD_take_drop bytes (by decide), getD_take_drop bytes (by decide), packedWord, hackInstr,
      hackInstr, show 2 * (2 * j + 1) = 4 * j + 2 by omega, show 2 * (2 * j) = 4 * j by omega]
    rfl
  · rfl

theorem getElem?_hackInstrs (bytes : List Byte) (k : ℕ) : (hackInstrs bytes)[k]? =
    if 2 * k < bytes.length then some ((hackInstr bytes k).setWidth 32) else none := by
  rw [hackInstrs, List.getElem?_map, getElem?_chunks (by decide)]
  split
  · rw [Option.map_some, getD_take_drop bytes (by decide), getD_take_drop bytes (by decide),
      hackInstr]
    rfl
  · rfl

theorem lt_length_hackInstrs (bytes : List Byte) (k : ℕ) :
    k < (hackInstrs bytes).length ↔ 2 * k < bytes.length := by
  have h := getElem?_hackInstrs bytes k
  by_cases hk : 2 * k < bytes.length
  · rw [if_pos hk] at h
    obtain ⟨hlt, -⟩ := List.getElem?_eq_some_iff.mp h
    exact iff_of_true hlt hk
  · rw [if_neg hk] at h
    exact iff_of_false (Nat.not_lt.mpr (List.getElem?_eq_none_iff.mp h)) hk

theorem hackInstr_of_le {bytes : List Byte} {k : ℕ} (h : bytes.length ≤ 2 * k) :
    hackInstr bytes k = 0#16 := by
  rw [hackInstr, List.getD_eq_getElem?_getD, List.getD_eq_getElem?_getD,
    List.getElem?_eq_none h, List.getElem?_eq_none (by omega)]
  rfl

/-- **The two packings are one.** -/
theorem hackWords_eq (bytes : List Byte) : hackWords bytes = packHack bytes := by
  have hwords : ((chunks 2 (hackInstrs bytes)).map fun p ↦
      p.getD 0 0#32 ||| (p[1]? : Option Word).elim 0#32 fun i ↦ i <<< 16) =
        wordsOf (packHack bytes) := by
    apply List.ext_getElem?
    intro j
    rw [List.getElem?_map, getElem?_chunks (by decide), getElem?_wordsOf_packHack,
      if_congr (lt_length_hackInstrs bytes (2 * j)) rfl rfl, show 2 * (2 * j) = 4 * j by omega]
    split
    next hj =>
      have hfirst : (hackInstrs bytes)[2 * j]? = some ((hackInstr bytes (2 * j)).setWidth 32) := by
        rw [getElem?_hackInstrs, if_pos (by omega)]
      rw [Option.map_some, List.getD_eq_getElem?_getD, List.getElem?_take_of_lt (by decide),
        List.getElem?_take_of_lt (by decide), List.getElem?_drop, List.getElem?_drop, Nat.add_zero,
        hfirst, Option.getD_some, getElem?_hackInstrs, packedWord]
      -- the second half of the last word may be missing
      by_cases hlast : 2 * (2 * j + 1) < bytes.length
      · rw [if_pos hlast, Option.elim_some, BitVec.or_comm]
      · rw [if_neg hlast, Option.elim_none, hackInstr_of_le (not_lt.mp hlast)]
        simp
    next => rfl
  rw [← flatMap_wordsOf_packHack, ← hwords, List.flatMap_map, hackWords]

/-! ## Unpacking -/

theorem packedWord_low (bytes : List Byte) (j : ℕ) :
    (packedWord bytes j).extractLsb' 0 16 = hackInstr bytes (2 * j) := by
  apply BitVec.eq_of_getLsbD_eq
  intro i hi
  simp [packedWord, hi, show i < 32 by omega]

theorem packedWord_high (bytes : List Byte) (j : ℕ) :
    (packedWord bytes j).extractLsb' 16 16 = hackInstr bytes (2 * j + 1) := by
  apply BitVec.eq_of_getLsbD_eq
  intro i hi
  simp [packedWord, hi, show 16 + i < 32 by omega]

/-- The half of a word that an instruction is, by bit 1 of the `pc`. -/
theorem packedWord_half {bytes : List Byte} {pc : Word} {offset k : ℕ} (halign : offset % 4 = 0)
    (hpc : pc.toNat = offset + 2 * k) :
    (if pc.getLsbD 1 then (packedWord bytes (k / 2)).extractLsb' 16 16
      else (packedWord bytes (k / 2)).extractLsb' 0 16) = hackInstr bytes k := by
  have hbit : pc.getLsbD 1 = decide (k % 2 = 1) := by
    rw [BitVec.getLsbD, Nat.testBit_eq_decide_div_mod_eq, hpc]
    congr 1
    rw [eq_iff_iff]
    omega
  rw [hbit]
  by_cases hk : k % 2 = 1
  · rw [if_pos (by simpa using hk), packedWord_high]
    congr 1
    omega
  · rw [if_neg (by simpa using hk), packedWord_low]
    congr 1
    omega

/-! ## The segment -/

/-- The emulator's word of a Hack `pc`. -/
theorem xmemIndex_hack {pc : Word} (h : pc.toNat < 0x10000) :
    xmemIndex (Emu.hackIBase ||| (pc &&& 0xFFFF#32)) = pc.toNat / 4 := by
  have hand : (pc &&& 0xFFFF#32).toNat = pc.toNat := by
    rw [BitVec.toNat_and, show (0xFFFF#32).toNat = 2 ^ 16 - 1 from rfl,
      Nat.and_two_pow_sub_one_eq_mod]
    omega
  have hor : (Emu.hackIBase ||| (pc &&& 0xFFFF#32)).toNat = 1 <<< 31 + pc.toNat := by
    rw [BitVec.toNat_or, hand, Nat.shiftLeft_add_eq_or_of_lt (by omega)]
    rfl
  rw [xmemIndex, BitVec.toNat_ushiftRight, hor, show Emu.xmemWords - 1 = 2 ^ 21 - 1 from rfl,
    Nat.and_two_pow_sub_one_eq_mod, Nat.shiftRight_eq_div_pow]
  omega

/-- The RTL's word of a Hack `pc`. -/
theorem fetchWord_hack {i : Rtl.WinIn} (hmode : i.activeMode = false)
    (h : i.fetchAddr.toNat < 0x10000) : i.fetchWord.toNat = i.fetchAddr.toNat / 4 := by
  have hlow : (i.fetchAddr.extractLsb' 0 16).toNat = i.fetchAddr.toNat := by
    rw [BitVec.extractLsb'_toNat, Nat.shiftRight_zero]
    omega
  have happ : (0x8000#16 ++ i.fetchAddr.extractLsb' 0 16 : Word).toNat =
      0x8000 <<< 16 + i.fetchAddr.toNat := by
    rw [BitVec.toNat_append, hlow, Nat.shiftLeft_add_eq_or_of_lt (by omega)]
    rfl
  rw [Rtl.WinIn.fetchWord, Rtl.WinIn.winFetchAddr, hmode, if_neg (by simp),
    BitVec.extractLsb'_toNat, happ, Nat.shiftRight_eq_div_pow]
  omega

theorem length_flatMap_leBytes (ws : List Word) : (ws.flatMap leBytes).length = 4 * ws.length := by
  induction ws with
  | nil => rfl
  | cons w ws ih =>
    rw [List.flatMap_cons, List.length_append, ih, leBytes_length, List.length_cons]
    omega

theorem length_packHack_le (bytes : List Byte) : (packHack bytes).length ≤ bytes.length + 3 := by
  have hlen : (packHack bytes).length = 4 * (wordsOf (packHack bytes)).length := by
    conv_lhs => rw [← flatMap_wordsOf_packHack]
    exact length_flatMap_leBytes _
  rcases Nat.eq_zero_or_pos (wordsOf (packHack bytes)).length with h0 | hpos
  · omega
  · have hlast := getElem?_wordsOf_packHack bytes ((wordsOf (packHack bytes)).length - 1)
    by_cases hlt : 4 * ((wordsOf (packHack bytes)).length - 1) < bytes.length
    · omega
    · rw [if_neg hlt, List.getElem?_eq_none_iff] at hlast
      omega

/-- The words of a Hack image fit the PSRAM. -/
theorem loadXmem_hack {m : Emu.Memories} {bytes : List Byte} {offset : Word}
    (hpsram : m.hasXmem = true) (halign : offset.toNat % 4 = 0)
    (hfits : offset.toNat + bytes.length ≤ 0x10000) :
    m.loadXmem (Emu.hackIBase + offset) (packHack bytes) = .ok { m with
      xmem := storeWords m.xmem (offset.toNat / 4) (wordsOf (packHack bytes)) } := by
  have haddr : (Emu.hackIBase + offset).toNat = 0x80000000 + offset.toNat := by
    rw [BitVec.toNat_add, show Emu.hackIBase.toNat = 0x80000000 from rfl]
    omega
  have hoffset : (Emu.hackIBase + offset - Emu.xmemBase).toNat = offset.toNat := by
    rw [show Emu.xmemBase = Emu.hackIBase from rfl, BitVec.add_comm, BitVec.add_sub_cancel]
  have hin : m.inXmem (Emu.hackIBase + offset) = true := by
    have hregion : (Emu.hackIBase + offset) >>> 28 = 0x8#32 := by
      apply BitVec.eq_of_toNat_eq
      rw [BitVec.toNat_ushiftRight, haddr, Nat.shiftRight_eq_div_pow]
      change _ = 8
      omega
    rw [Emu.Memories.inXmem, hregion, hpsram]
    rfl
  have hlen := length_packHack_le bytes
  have hbytes : Emu.xmemBytes = 0x800000 := rfl
  rw [Emu.Memories.loadXmem, hoffset, if_neg]
  rw [hin, haddr, hbytes]
  simp only [Bool.not_true, Bool.false_eq_true, false_or, not_or, not_not, not_lt]
  omega

/-- **Hack instructions arrive in order.**  `load_hack` puts the words of `pack_hack` into the
segment, and from a memory that has them there both CPUs execute, at `offset + 2 * k`, instruction
`k` of the binary. -/
theorem hack_instructions_in_order {bytes : List Byte} {offset : Word}
    (heven : bytes.length % 2 = 0) (halign : offset.toNat % 4 = 0)
    (hfits : offset.toNat + bytes.length ≤ 0x10000) :
    (∀ s : Emu.Soc Emu.Memories, s.mem.hasXmem = true → bytes ≠ [] →
      s.loadHack bytes offset = .ok { s with
        mem := { s.mem with
          xmem := storeWords s.mem.xmem (offset.toNat / 4) (wordsOf (packHack bytes)) }
        pc := 0#32
        riscvMode := false } ∧
      ∀ j w, (wordsOf (packHack bytes))[j]? = some w →
        storeWords s.mem.xmem (offset.toNat / 4) (wordsOf (packHack bytes))
          (offset.toNat / 4 + j) = w) ∧
    (∀ m : Emu.Memories, m.hasXmem = true →
      (∀ j w, (wordsOf (packHack bytes))[j]? = some w → m.xmem (offset.toNat / 4 + j) = w) →
      ∀ k < bytes.length / 2, Emu.Soc.hackIns (offset + BitVec.ofNat 32 (2 * k))
        (m.fetch false (offset + BitVec.ofNat 32 (2 * k))) = hackInstr bytes k) ∧
    (∀ mem : Rtl.PWord → Word,
      (∀ j w, (wordsOf (packHack bytes))[j]? = some w →
        mem (BitVec.ofNat 21 (offset.toNat / 4 + j)) = w) →
      ∀ k < bytes.length / 2, ∀ (cpu : Rtl.Cpu) (i : Rtl.WinIn), i.activeMode = false →
        cpu.pcReg = offset + BitVec.ofNat 32 (2 * k) → i.fetchAddr = cpu.pcReg →
        cpu.irReg = mem i.fetchWord → cpu.hackOp = Rtl.hackTranslator (hackInstr bytes k)) := by
  have hpc : ∀ k < bytes.length / 2,
      (offset + BitVec.ofNat 32 (2 * k)).toNat = offset.toNat + 2 * k := by
    intro k hk
    rw [BitVec.toNat_add, BitVec.toNat_ofNat]
    omega
  have hword : ∀ k < bytes.length / 2,
      (wordsOf (packHack bytes))[k / 2]? = some (packedWord bytes (k / 2)) := by
    intro k hk
    rw [getElem?_wordsOf_packHack, if_pos (by omega)]
  refine ⟨?_, ?_, ?_⟩
  · intro s hpsram hne
    have hseg : ¬(bytes = [] ∨ offset.toNat % 4 ≠ 0 ∨
        Emu.hackIBytes < offset.toNat + bytes.length) := by
      rintro (h | h | h)
      · exact hne h
      · exact h halign
      · have : Emu.hackIBytes = 0x10000 := rfl
        omega
    refine ⟨?_, fun j w hw ↦ Emu.storeWords_get hw⟩
    rw [Emu.Soc.loadHack, if_neg hseg, if_neg (not_not.mpr heven), hpsram, if_neg (by simp),
      hackWords_eq, loadXmem_hack hpsram halign hfits]
    rfl
  · intro m hpsram hmem k hk
    have hlt : (offset + BitVec.ofNat 32 (2 * k)).toNat < 0x10000 := by
      rw [hpc k hk]
      omega
    have hfetch : m.fetch false (offset + BitVec.ofNat 32 (2 * k)) = packedWord bytes (k / 2) := by
      rw [Emu.Memories.fetch, if_neg (by simp), if_pos hpsram]
      dsimp only
      rw [xmemIndex_hack hlt, hpc k hk, ← hmem _ _ (hword k hk)]
      congr 1
      omega
    rw [emu_hackIns, hfetch, packedWord_half halign (hpc k hk)]
  · intro mem hmem k hk cpu i hmode hreg haddr hir
    have hlt : i.fetchAddr.toNat < 0x10000 := by
      rw [haddr, hreg, hpc k hk]
      omega
    have hidx : i.fetchWord = BitVec.ofNat 21 (offset.toNat / 4 + k / 2) := by
      apply BitVec.eq_of_toNat_eq
      rw [fetchWord_hack hmode hlt, haddr, hreg, hpc k hk, BitVec.toNat_ofNat]
      omega
    rw [Rtl.Cpu.hackOp, hir, hidx, hmem _ _ (hword k hk), hreg,
      packedWord_half halign (hpc k hk)]

/-- Three instructions. -/
def threeInstrs : List Byte := [0x12#8, 0x34#8, 0x56#8, 0x78#8, 0x9A#8, 0xBC#8]

/-- The words of a memory that has them from word 2 on. -/
theorem three_at {f : ℕ → Word} (h2 : f 2 = 0x56781234#32) (h3 : f 3 = 0x9ABC#32) (j : ℕ) (w : Word)
    (hw : [0x56781234#32, 0x9ABC#32][j]? = some w) : f (2 + j) = w := by
  rcases j with _ | _ | j
  · exact h2.trans (by simpa using hw)
  · exact h3.trans (by simpa using hw)
  · simp at hw

/-- Three instructions at 8: the last word has one of them, which both CPUs execute at 12. -/
theorem hack_instructions_in_order_three :
    wordsOf (packHack threeInstrs) = [0x56781234#32, 0x9ABC#32] ∧
      (∀ s : Emu.Soc Emu.Memories, s.mem.hasXmem = true → ∃ s',
        s.loadHack threeInstrs 8#32 = .ok s' ∧ s'.pc = 0#32 ∧ s'.riscvMode = false ∧
          s'.mem.xmem 2 = 0x56781234#32 ∧ s'.mem.xmem 3 = 0x9ABC#32) ∧
      (∀ m : Emu.Memories, m.hasXmem = true → m.xmem 2 = 0x56781234#32 → m.xmem 3 = 0x9ABC#32 →
        Emu.Soc.hackIns 12#32 (m.fetch false 12#32) = 0x9ABC#16) ∧
      ∀ mem : Rtl.PWord → Word, mem 2#21 = 0x56781234#32 → mem 3#21 = 0x9ABC#32 →
        ∀ (cpu : Rtl.Cpu) (i : Rtl.WinIn), i.activeMode = false → cpu.pcReg = 12#32 →
          i.fetchAddr = cpu.pcReg → cpu.irReg = mem i.fetchWord →
            cpu.hackOp = Rtl.hackTranslator 0x9ABC#16 := by
  have hwords : wordsOf (packHack threeInstrs) = [0x56781234#32, 0x9ABC#32] := by decide
  obtain ⟨hload, hemu, hrtl⟩ := @hack_instructions_in_order threeInstrs 8#32 (by decide) (by decide)
    (by decide)
  rw [hwords] at hload hemu hrtl
  refine ⟨hwords, fun s hpsram ↦ ?_, fun m hpsram h2 h3 ↦ ?_, fun mem h2 h3 ↦ ?_⟩
  · obtain ⟨hok, hget⟩ := hload s hpsram (by decide)
    exact ⟨_, hok, rfl, rfl, hget 0 _ rfl, hget 1 _ rfl⟩
  · exact hemu m hpsram (three_at h2 h3) 2 (by decide)
  · exact hrtl mem (three_at (f := fun k ↦ mem (BitVec.ofNat 21 k)) h2 h3) 2 (by decide)

end Vux9k

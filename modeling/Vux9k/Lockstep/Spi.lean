import Vux9k.Emu.Spi
import Vux9k.Rtl.Spi

/-!
# The emulator's SPI master is the RTL's

One operation of the CPU in each cycle at most, at any address and while a transfer runs too: what
the emulator computes from the cycle of the last write is what `sdcard_spi` counted up to.
-/

set_option autoImplicit false

namespace Vux9k

open Emu (SdSpi Xfer)
open Rtl (SdcardSpi SpiIn)
open Rtl.SdcardSpi (run During)

/-! ## The closed forms -/

/-- The edges in cycle `j` of half period `h`. -/
theorem edges_half {x : Xfer} {h j : ℕ} (hh : h < 16) (hj : j < x.half) :
    x.edges (x.edge + 1 + (x.half * h + j)) = (h + 1) / 2 := by
  have hpos : 0 < x.half := by omega
  unfold Xfer.edges
  rw [Nat.add_sub_cancel_left]
  rcases Nat.eq_zero_or_pos h with rfl | h0
  · rw [Nat.mul_zero, Nat.zero_add]
    exact if_pos hj
  · have hle : x.half ≤ x.half * h := Nat.le_mul_of_pos_right _ h0
    have hsub : x.half * h + j - x.half = x.half * (h - 1) + j := by
      rw [Nat.mul_sub, Nat.mul_one]
      omega
    have hdiv : (x.half * (h - 1) + j) / (2 * x.half) = (h - 1) / 2 := by
      rw [Nat.mul_comm 2, ← Nat.div_div_eq_div_mul, Nat.mul_add_div hpos, Nat.div_eq_of_lt hj,
        Nat.add_zero]
    dsimp only
    rw [if_neg (by omega), hsub, hdiv]
    omega

/-- The edges after the transfer. -/
theorem edges_after {x : Xfer} {c : ℕ} (hpos : 0 < x.half) (hc : x.edge + 16 * x.half < c) :
    x.edges c = 8 := by
  have hdiv : 7 ≤ (c - (x.edge + 1) - x.half) / (2 * x.half) :=
    (Nat.le_div_iff_mul_le (by omega)).mpr (by omega)
  unfold Xfer.edges
  dsimp only
  rw [if_neg (by omega)]
  omega

/-- The register with `n` bits of the answer shifted in, as `sdspi.rs` computes it. -/
def merged (prev miso : Byte) (n : ℕ) : Byte :=
  ((prev.setWidth 32 <<< n ||| miso.setWidth 32 >>> (8 - n) : Word) &&& 0xFF#32).setWidth 8

theorem getLsbD_merged (prev miso : Byte) {n b : ℕ} (hn : n ≤ 8) (hb : b < 8) :
    (merged prev miso n).getLsbD b =
      if b < n then miso.getLsbD (8 - n + b) else prev.getLsbD (b - n) := by
  have hmask : (0xFF#32).getLsbD b = true := by
    interval_cases b <;> rfl
  unfold merged
  simp only [BitVec.getLsbD_setWidth, BitVec.getLsbD_and, BitVec.getLsbD_or,
    BitVec.getLsbD_shiftLeft, BitVec.getLsbD_ushiftRight, hmask, hb, decide_true, Bool.true_and,
    Bool.and_true]
  by_cases hbn : b < n
  · simp [hbn, show b < 32 by omega, show 8 - n + b < 32 by omega]
  · simp [hbn, show b < 32 by omega, show b - n < 32 by omega,
      BitVec.getLsbD_of_ge miso (8 - n + b) (by omega)]

/-- Shifting the bits in one by one makes the same register. -/
theorem taken_eq_merged {bit : ℕ → Bool} {prev miso : Byte}
    (hbit : ∀ i < 8, bit i = miso.getLsbD (7 - i)) {n : ℕ} (hn : n ≤ 8) :
    SdcardSpi.taken bit prev n = merged prev miso n := by
  induction n with
  | zero =>
    apply BitVec.eq_of_getLsbD_eq
    intro b hb
    rw [getLsbD_merged prev miso hn hb, if_neg (by omega)]
    rfl
  | succ n ih =>
    apply BitVec.eq_of_getLsbD_eq
    intro b hb
    rw [getLsbD_merged prev miso hn hb, SdcardSpi.taken, ih (by omega), BitVec.getLsbD_append]
    rcases Nat.eq_zero_or_pos b with rfl | hpos
    · rw [if_pos (by decide), hbit n (by omega), if_pos (by omega),
        show 8 - (n + 1) + 0 = 7 - n by omega]
      simp
    · rw [if_neg (by omega), BitVec.getLsbD_extractLsb', zero_add,
        decide_eq_true (by omega : b - 1 < 7), Bool.true_and,
        getLsbD_merged prev miso (by omega) (by omega)]
      by_cases hbn : b < n + 1
      · rw [if_pos (by omega), if_pos hbn, show 8 - n + (b - 1) = 8 - (n + 1) + b by omega]
      · rw [if_neg (by omega), if_neg hbn, show b - 1 - n = b - (n + 1) by omega]

/-! ## Writes -/

section

variable {e : SdSpi} {c : ℕ}

theorem xfer_write (h : e.busy c = false) (addr data : Word) :
    (e.write addr data c).xfer = if (addr &&& 0xF#32).toNat = 0x0 then
      some ⟨c, e.div, e.shiftRx c, (e.answer (data.setWidth 8)).1⟩ else e.xfer := by
  unfold SdSpi.write
  rw [h, if_neg (by decide)]
  split <;> simp_all

theorem csN_write (h : e.busy c = false) (addr data : Word) :
    (e.write addr data c).csN =
      if (addr &&& 0xF#32).toNat = 0x4 then data.getLsbD 0 else e.csN := by
  have hbit : decide (data &&& 1#32 ≠ 0#32) = data.getLsbD 0 := by
    rw [BitVec.and_one_eq_setWidth_ofBool_getLsbD]
    cases data.getLsbD 0 <;> rfl
  unfold SdSpi.write
  rw [h, if_neg (by decide), ← hbit]
  split <;> simp_all

theorem div_write (h : e.busy c = false) (addr data : Word) :
    (e.write addr data c).div =
      if (addr &&& 0xF#32).toNat = 0xC then max (data &&& 0xFF#32).toNat 3 else e.div := by
  unfold SdSpi.write
  rw [h, if_neg (by decide)]
  split <;> simp_all [SdSpi.minHalfPeriod]

theorem halfPeriod_toNat (data : Word) :
    (Rtl.SdcardSpi.halfPeriod data).toNat = max (data &&& 0xFF#32).toNat 3 := by
  have hbyte : (data &&& 0xFF#32).toNat = (data.extractLsb' 0 8).toNat := by
    rw [BitVec.toNat_and, BitVec.extractLsb'_toNat, Nat.shiftRight_zero]
    exact Nat.and_two_pow_sub_one_eq_mod _ 8
  rw [hbyte, Rtl.SdcardSpi.halfPeriod]
  split
  · rename_i hlt
    exact (max_eq_right (Nat.le_of_lt hlt)).symm
  · rename_i hlt
    exact (max_eq_left (Nat.le_of_not_lt hlt)).symm

end

/-! ## Operations -/

/-- An operation of the CPU. -/
inductive SpiAccess : Type
  | read (addr : Word)
  | write (addr data : Word)

namespace SpiAccess

/-- The operation as `sdcard_spi` sees it; in a cycle without one there is some address. -/
def input (idle : BitVec 4) (miso : Bool) : Option SpiAccess → SpiIn
  | none => ⟨idle, 0#32, false, miso⟩
  | some (.read addr) => ⟨addr.extractLsb' 0 4, 0#32, false, miso⟩
  | some (.write addr data) => ⟨addr.extractLsb' 0 4, data, true, miso⟩

/-- The operation in the emulator: only a write changes anything. -/
def apply (s : SdSpi) (c : ℕ) : Option SpiAccess → SdSpi
  | some (.write addr data) => s.write addr data c
  | _ => s

end SpiAccess

theorem spi_offset (addr : Word) : (addr &&& 0xF#32).toNat = (addr.extractLsb' 0 4).toNat := by
  have hmask : addr &&& 0xF#32 = (addr.extractLsb' 0 4).setWidth 32 := by
    apply BitVec.eq_of_getLsbD_eq
    intro j hj
    simp only [BitVec.getLsbD_and, BitVec.getLsbD_setWidth, BitVec.getLsbD_extractLsb']
    interval_cases j <;> simp
  rw [hmask, BitVec.toNat_setWidth]
  have := (addr.extractLsb' 0 4).isLt
  omega

section

variable (ops : ℕ → Option SpiAccess) (idle : ℕ → BitVec 4) (miso : ℕ → Bool)
  (card : Option Sd.Card) (logEnabled : Bool)

/-- What `sdcard_spi` is put in each cycle. -/
def spiInputs (k : ℕ) : SpiIn := SpiAccess.input (idle k) (miso k) (ops k)

/-- The emulator after the operations of the first `n` cycles. -/
def spiAfter : ℕ → SdSpi
  | 0 => .default card logEnabled
  | n + 1 => SpiAccess.apply (spiAfter n) n (ops n)

/-- The synchronised MISO is, at the rising edges of every transfer, the byte that the card
answers. -/
def CardOnMiso : Prop :=
  ∀ w, (run (spiInputs ops idle miso) w).Starts (spiInputs ops idle miso w) → ∀ i < 8,
    SdcardSpi.sampled (spiInputs ops idle miso) w (spiAfter ops card logEnabled w).div i =
      ((spiAfter ops card logEnabled w).answer
        ((spiInputs ops idle miso w).dataIn.extractLsb' 0 8)).1.getLsbD (7 - i)

end

/-! ## The two in step -/

/-- The transfer that the emulator remembers is one of the RTL's. -/
structure Follows (inp : ℕ → SpiIn) (c : ℕ) (x : Xfer) : Prop where
  edge : x.edge < c
  starts : (run inp x.edge).Starts (inp x.edge)
  half : (run inp x.edge).clkDiv.toNat = x.half
  prev : x.prev = (run inp x.edge).shiftRx
  miso : ∀ i < 8, SdcardSpi.sampled inp x.edge x.half i = x.miso.getLsbD (7 - i)
  rest : x.edge + 16 * x.half < c →
    (run inp c).Resting ∧ (run inp c).shiftRx = merged x.prev x.miso 8

/-- The state of the emulator for cycle `c` and that of the RTL in it. -/
structure SpiAgrees (inp : ℕ → SpiIn) (c : ℕ) (e : SdSpi) : Prop where
  csN : e.csN = (run inp c).csNReg
  div : e.div = (run inp c).clkDiv.toNat
  none : e.xfer = none → (run inp c).Resting ∧ (run inp c).shiftRx = 0xFF#8
  some : ∀ x, e.xfer = some x → Follows inp c x

theorem Follows.half_pos {inp : ℕ → SpiIn} {c : ℕ} {x : Xfer} (h : Follows inp c x) :
    0 < x.half := by
  have := (Rtl.SdcardSpi.inv_run inp x.edge).clkDiv
  rw [h.half] at this
  omega

/-- A cycle within the transfer. -/
theorem Follows.during {inp : ℕ → SpiIn} {c : ℕ} {x : Xfer} (h : Follows inp c x)
    (hc : c ≤ x.edge + 16 * x.half) :
    ∃ k j, k < 16 ∧ j < x.half ∧ c = x.edge + 1 + (x.half * k + j) ∧
      During inp x.edge x.half k j := by
  obtain ⟨k, j, hk, hj, hcycle⟩ := Rtl.SdcardSpi.exists_half h.edge hc
  exact ⟨k, j, hk, hj, hcycle, Rtl.SdcardSpi.during h.half h.starts hk hj⟩

namespace SpiAgrees

variable {inp : ℕ → SpiIn} {c : ℕ} {e : SdSpi}

theorem busy (h : SpiAgrees inp c e) : e.busy c = (run inp c).busy := by
  unfold SdSpi.busy
  split
  · rename_i hx
    exact (h.none hx).1.busy.symm
  · rename_i x hx
    have hf := h.some x hx
    rw [SdSpi.transfer, decide_eq_true hf.edge, Bool.true_and]
    by_cases hc : c ≤ x.edge + 16 * x.half
    · obtain ⟨k, j, -, -, hcycle, hd⟩ := hf.during hc
      rw [decide_eq_true hc, hcycle, hd.shifting.busy]
    · rw [decide_eq_false hc, (hf.rest (by omega)).1.busy]

theorem shiftRx (h : SpiAgrees inp c e) : e.shiftRx c = (run inp c).shiftRx := by
  unfold SdSpi.shiftRx
  split
  · rename_i hx
    exact (h.none hx).2.symm
  · rename_i x hx
    have hf := h.some x hx
    change merged x.prev x.miso (x.edges c) = _
    by_cases hc : c ≤ x.edge + 16 * x.half
    · obtain ⟨k, j, hk, hj, hcycle, hd⟩ := hf.during hc
      rw [hcycle, edges_half hk hj, hd.shiftRx, ← hf.prev, taken_eq_merged hf.miso (by omega)]
    · rw [edges_after hf.half_pos (by omega), (hf.rest (by omega)).2]

/-- What a read of the address gives. -/
theorem read (h : SpiAgrees inp c e) (addr : Word) :
    e.read addr c = (run inp c).read (addr.extractLsb' 0 4) := by
  have hdiv : BitVec.ofNat 32 e.div = (run inp c).clkDiv.setWidth 32 := by
    rw [h.div]
    exact BitVec.eq_of_toNat_eq (by simp)
  have hread : e.read addr c = e.read addr c := rfl
  conv_rhs at hread => rw [SdSpi.read, spi_offset, h.shiftRx, h.csN, h.busy, hdiv]
  exact hread

/-- A transfer goes on. -/
theorem next_busy (h : SpiAgrees inp c e) (hbusy : (run inp c).busy = true) :
    SpiAgrees inp (c + 1) e := by
  cases hx : e.xfer with
  | none =>
    rw [(h.none hx).1.busy] at hbusy
    cases hbusy
  | some x =>
    have hf := h.some x hx
    have hc : c ≤ x.edge + 16 * x.half := by
      by_contra hc
      rw [(hf.rest (by omega)).1.busy] at hbusy
      cases hbusy
    obtain ⟨k, j, -, -, hcycle, hd⟩ := hf.during hc
    have hkept : Rtl.SdcardSpi.Kept (run inp c) (run inp (c + 1)) := by
      have hsh := hd.shifting
      rw [← hcycle] at hsh
      exact (hsh.tick (i := inp c)).2
    refine ⟨h.csN.trans hkept.csNReg.symm, by rw [h.div, hkept.clkDiv], ?_, ?_⟩
    · intro hnone
      rw [hx] at hnone
      cases hnone
    · intro y hy
      obtain rfl : x = y := Option.some.inj (hx.symm.trans hy)
      refine { hf with edge := Nat.lt_succ_of_lt hf.edge, rest := fun hlt ↦ ?_ }
      have hafter := Rtl.SdcardSpi.after hf.half hf.starts
      rw [show x.edge + 1 + 16 * x.half = c + 1 by omega] at hafter
      refine ⟨hafter.1, ?_⟩
      rw [hafter.2.2, ← hf.prev, taken_eq_merged hf.miso le_rfl]

/-- A cycle without a transfer that starts none. -/
theorem next_rest (h : SpiAgrees inp c e) (hbusy : (run inp c).busy = false)
    (hi : ¬(run inp c).Starts (inp c)) {e' : SdSpi} (hx : e'.xfer = e.xfer)
    (hcs : e'.csN = (run inp (c + 1)).csNReg) (hdiv : e'.div = (run inp (c + 1)).clkDiv.toNat) :
    SpiAgrees inp (c + 1) e' := by
  obtain ⟨hrest, hrx⟩ := ((Rtl.SdcardSpi.inv_run inp c).resting hbusy).tick hi
  refine ⟨hcs, hdiv, fun hnone ↦ ?_, fun x hsome ↦ ?_⟩
  · rw [hx] at hnone
    exact ⟨hrest, hrx.trans (h.none hnone).2⟩
  · rw [hx] at hsome
    have hf := h.some x hsome
    have hover : x.edge + 16 * x.half < c := by
      by_contra hc
      obtain ⟨k, j, -, -, hcycle, hd⟩ := hf.during (by omega)
      rw [hcycle, hd.shifting.busy] at hbusy
      cases hbusy
    exact { hf with
      edge := Nat.lt_succ_of_lt hf.edge
      rest := fun _ ↦ ⟨hrest, hrx.trans (hf.rest hover).2⟩ }

/-- A write starts a transfer. -/
theorem next_start (h : SpiAgrees inp c e) {addr data : Word} {b : Bool}
    (hin : inp c = ⟨addr.extractLsb' 0 4, data, true, b⟩) (hi : (run inp c).Starts (inp c))
    (hmiso : ∀ i < 8, SdcardSpi.sampled inp c e.div i =
      (e.answer (data.extractLsb' 0 8)).1.getLsbD (7 - i)) :
    SpiAgrees inp (c + 1) (e.write addr data c) := by
  have hpos := (Rtl.SdcardSpi.inv_run inp c).clkDiv
  obtain ⟨-, hkept, hrx⟩ := Rtl.SdcardSpi.tick_start hi (by omega)
  have hbyte : data.extractLsb' 0 8 = data.setWidth 8 :=
    BitVec.eq_of_toNat_eq (by simp [BitVec.extractLsb'_toNat])
  have haddr : (addr &&& 0xF#32).toNat = 0 := by
    have haddr := hi.2.1
    rw [hin] at haddr
    rw [spi_offset]
    exact congrArg BitVec.toNat haddr
  have hidle : e.busy c = false := h.busy.trans hi.2.2
  have hxfer := xfer_write hidle addr data
  rw [if_pos haddr] at hxfer
  refine ⟨?_, ?_, fun hnone ↦ ?_, fun x hsome ↦ ?_⟩
  · rw [csN_write hidle, haddr, if_neg (by decide), h.csN]
    exact hkept.csNReg.symm
  · rw [div_write hidle, haddr, if_neg (by decide), h.div]
    exact congrArg BitVec.toNat hkept.clkDiv.symm
  · rw [hxfer] at hnone
    cases hnone
  · rw [hxfer] at hsome
    obtain rfl := Option.some.inj hsome
    refine ⟨Nat.lt_succ_self c, hi, h.div.symm, h.shiftRx, ?_, ?_⟩
    · rw [← hbyte]
      exact hmiso
    · intro hlt
      have := h.div
      dsimp only at hlt
      omega

/-- A write of another register. -/
theorem next_setting (h : SpiAgrees inp c e) {addr data : Word} {b : Bool}
    (hin : inp c = ⟨addr.extractLsb' 0 4, data, true, b⟩) (hbusy : (run inp c).busy = false)
    (hi : ¬(run inp c).Starts (inp c)) : SpiAgrees inp (c + 1) (e.write addr data c) := by
  have hidle : e.busy c = false := h.busy.trans hbusy
  have haddr : (addr.extractLsb' 0 4).toNat ≠ 0 := by
    intro h0
    exact hi ⟨by rw [hin], by rw [hin]; exact BitVec.eq_of_toNat_eq h0, hbusy⟩
  have hcs : (run inp (c + 1)).csNReg =
      ((run inp c).write (addr.extractLsb' 0 4) data).csNReg := by
    change ((run inp c).work (inp c)).csNReg = _
    simp [Rtl.SdcardSpi.work, hin, hbusy]
  have hdiv : (run inp (c + 1)).clkDiv =
      ((run inp c).write (addr.extractLsb' 0 4) data).clkDiv := by
    change ((run inp c).work (inp c)).clkDiv = _
    simp [Rtl.SdcardSpi.work, hin, hbusy]
  rw [Rtl.SdcardSpi.csNReg_write] at hcs
  rw [Rtl.SdcardSpi.clkDiv_write] at hdiv
  refine h.next_rest hbusy hi ?_ ?_ ?_
  · rw [xfer_write hidle, spi_offset, if_neg haddr]
  · rw [csN_write hidle, spi_offset, hcs, h.csN]
  · rw [div_write hidle, spi_offset, hdiv, h.div, apply_ite BitVec.toNat, halfPeriod_toNat]

/-- A cycle without a write. -/
theorem next_quiet (h : SpiAgrees inp c e) (hwe : (inp c).we = false) :
    SpiAgrees inp (c + 1) e := by
  cases hbusy : (run inp c).busy with
  | true => exact h.next_busy hbusy
  | false =>
    have hwork : (run inp c).work (inp c) = run inp c := by
      simp [Rtl.SdcardSpi.work, hwe, hbusy]
    refine h.next_rest hbusy (fun hi ↦ ?_) rfl ?_ ?_
    · rw [hi.1] at hwe
      cases hwe
    · change _ = ((run inp c).work (inp c)).csNReg
      rw [hwork, h.csN]
    · change _ = ((run inp c).work (inp c)).clkDiv.toNat
      rw [hwork, h.div]

/-- A write while busy is none in the emulator either. -/
theorem write_busy (h : SpiAgrees inp c e) (hbusy : (run inp c).busy = true) (addr data : Word) :
    e.write addr data c = e := by
  rw [SdSpi.write, h.busy, if_pos hbusy]

/-- A cycle with a write. -/
theorem next_write (h : SpiAgrees inp c e) {addr data : Word} {b : Bool}
    (hin : inp c = ⟨addr.extractLsb' 0 4, data, true, b⟩)
    (hmiso : (run inp c).Starts (inp c) → ∀ i < 8, SdcardSpi.sampled inp c e.div i =
      (e.answer (data.extractLsb' 0 8)).1.getLsbD (7 - i)) :
    SpiAgrees inp (c + 1) (e.write addr data c) := by
  cases hbusy : (run inp c).busy with
  | true =>
    rw [h.write_busy hbusy]
    exact h.next_busy hbusy
  | false =>
    by_cases hi : (run inp c).Starts (inp c)
    · exact h.next_start hin hi (hmiso hi)
    · exact h.next_setting hin hbusy hi

end SpiAgrees

section

variable {ops : ℕ → Option SpiAccess} {idle : ℕ → BitVec 4} {miso : ℕ → Bool}
  {card : Option Sd.Card} {logEnabled : Bool}

/-- **Every cycle.** -/
theorem spiAgrees_after (hcard : CardOnMiso ops idle miso card logEnabled) (n : ℕ) :
    SpiAgrees (spiInputs ops idle miso) n (spiAfter ops card logEnabled n) := by
  induction n with
  | zero => exact ⟨rfl, rfl, fun _ ↦ ⟨⟨rfl, rfl, rfl⟩, rfl⟩, by rintro x ⟨⟩⟩
  | succ n ih =>
    have hn := hcard n
    rw [spiAfter]
    rcases hop : ops n with _ | ⟨addr⟩ | ⟨addr, data⟩
    · exact ih.next_quiet (by rw [spiInputs, hop]; rfl)
    · exact ih.next_quiet (by rw [spiInputs, hop]; rfl)
    · have hin : spiInputs ops idle miso n = ⟨addr.extractLsb' 0 4, data, true, miso n⟩ := by
        rw [spiInputs, hop]
        rfl
      refine ih.next_write hin fun hi ↦ ?_
      have hanswer := hn hi
      rw [hin] at hanswer
      exact hanswer

/-- **The emulator's SPI master is `sdcard_spi`.**  After any operations in the cycles before `c`,
if MISO brings what the card answers: the registers and what a read of them gives are the RTL's;
every write of a byte that is taken sends it in eight pulses of the half period that is set, and the
clock rests otherwise; and a write while busy changes nothing on either side. -/
theorem sdspi_matches_sdcard_spi (hcard : CardOnMiso ops idle miso card logEnabled) (c : ℕ)
    {inp : ℕ → SpiIn} (hinp : spiInputs ops idle miso = inp) {e : SdSpi}
    (he : spiAfter ops card logEnabled c = e) :
    (e.busy c = (run inp c).busy ∧ e.shiftRx c = (run inp c).shiftRx ∧
      e.csN = (run inp c).csNReg ∧ e.div = (run inp c).clkDiv.toNat) ∧
    (∀ addr, ops c = some (.read addr) → e.read addr c = (run inp (c + 1)).dataOut) ∧
    ((run inp c).Starts (inp c) →
      Rtl.SdcardSpi.Pulses inp c e.div ((inp c).dataIn.extractLsb' 0 8)) ∧
    ((run inp c).busy = false → (run inp c).sclkReg = false) ∧
    ((run inp c).busy = true →
      run inp (c + 1) = (run inp c).tick { inp c with we := false } ∧
      ∀ addr data, e.write addr data c = e) := by
  have h := spiAgrees_after hcard c
  rw [hinp, he] at h
  refine ⟨⟨h.busy, h.shiftRx, h.csN, h.div⟩, ?_, ?_,
    fun hbusy ↦ ((Rtl.SdcardSpi.inv_run inp c).resting hbusy).sclk,
    fun hbusy ↦ ⟨Rtl.SdcardSpi.tick_of_busy hbusy _, h.write_busy hbusy⟩⟩
  · intro addr hop
    rw [h.read]
    change _ = (run inp c).read (inp c).addr
    rw [← hinp, spiInputs, hop]
    rfl
  · exact fun hi ↦ Rtl.SdcardSpi.pulses h.div.symm hi

/-- The fastest clock is set, the card selected and a byte sent: a second byte is refused, and the
answer is read while it comes in. -/
def spiOps : ℕ → Option SpiAccess
  | 0 => some (.write 0x4000200C#32 1#32)
  | 1 => some (.write 0x40002004#32 0#32)
  | 2 => some (.write 0x40002000#32 0xA5#32)
  | 9 => some (.write 0x40002000#32 0x00#32)
  | 20 => some (.read 0x40002000#32)
  | _ => none

/-- Without a card MISO is high all the time. -/
theorem cardOnMiso_empty (ops : ℕ → Option SpiAccess) (idle : ℕ → BitVec 4) (logEnabled : Bool) :
    CardOnMiso ops idle (fun _ ↦ true) none logEnabled := by
  have hcard : ∀ n, (spiAfter ops none logEnabled n).card = none := by
    intro n
    induction n with
    | zero => rfl
    | succ n ih =>
      rw [spiAfter]
      rcases ops n with _ | ⟨addr⟩ | ⟨addr, data⟩
      · exact ih
      · exact ih
      · change (SdSpi.write _ addr data n).card = none
        unfold SdSpi.write
        split
        · exact ih
        · split <;> simp [SdSpi.answer, ih]
  have hmiso : ∀ n, (run (spiInputs ops idle fun _ ↦ true) n).misoSync0 = true ∧
      (run (spiInputs ops idle fun _ ↦ true) n).misoSync1 = true := by
    intro n
    induction n with
    | zero => exact ⟨rfl, rfl⟩
    | succ n ih =>
      refine ⟨?_, ih.1⟩
      change (spiInputs ops idle (fun _ ↦ true) n).spiMiso = true
      rw [spiInputs]
      rcases ops n with _ | ⟨addr⟩ | ⟨addr, data⟩ <;> rfl
  intro w _ i hi
  have hanswer : ∀ mosi, ((spiAfter ops none logEnabled w).answer mosi).1 = 0xFF#8 := by
    intro mosi
    rw [SdSpi.answer, hcard]
  rw [SdcardSpi.sampled, (hmiso _).2, hanswer]
  interval_cases i <;> rfl

theorem sdspi_matches_sdcard_spi_empty :
    (spiAfter spiOps none false 20).shiftRx 20 =
        (run (spiInputs spiOps (fun _ ↦ 0#4) fun _ ↦ true) 20).shiftRx ∧
      (spiAfter spiOps none false 20).busy 20 = true ∧
      Rtl.SdcardSpi.Pulses (spiInputs spiOps (fun _ ↦ 0#4) fun _ ↦ true) 2 3 0xA5#8 := by
  have hcard := cardOnMiso_empty spiOps (fun _ ↦ 0#4) false
  obtain ⟨⟨hbusy, hrx, -⟩, -⟩ := sdspi_matches_sdcard_spi hcard 20 rfl rfl
  obtain ⟨-, -, hpulses, -⟩ := sdspi_matches_sdcard_spi hcard 2 rfl rfl
  exact ⟨hrx, hbusy.trans (by decide +kernel), hpulses ⟨rfl, rfl, by decide +kernel⟩⟩

end

end Vux9k

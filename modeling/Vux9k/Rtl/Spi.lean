import Vux9k.Firmware.Bytes

/-!
# The SPI master, cycle by cycle

`soc/sdcard_spi.veryl`.  A transfer takes sixteen half periods of SCLK: the clock is low in the even
ones and high in the odd ones, MISO is sampled at the end of an even one, and MOSI changes at the
end of an odd one.
-/

set_option autoImplicit false

namespace Vux9k.Rtl

/-- `sdcard_spi`. -/
structure SdcardSpi : Type where
  csNReg : Bool
  sclkReg : Bool
  mosiReg : Bool
  shiftTx : BitVec 8
  shiftRx : BitVec 8
  busy : Bool
  clkDiv : BitVec 8
  clkCnt : BitVec 8
  bitIdx : BitVec 4
  spiPhase : Bool
  dataOut : Word
  misoSync0 : Bool
  misoSync1 : Bool

/-- What is put to it in a cycle. -/
structure SpiIn : Type where
  addr : BitVec 4
  dataIn : Word
  we : Bool
  spiMiso : Bool

namespace SdcardSpi

/-- `SD_CLK_DIV_HALF`. -/
def clkDivHalf : BitVec 8 := 23#8

/-- `SD_CLK_DIV_MIN`. -/
def clkDivMin : BitVec 8 := 3#8

/-- After a reset. -/
def reset : SdcardSpi where
  csNReg := true
  sclkReg := false
  mosiReg := true
  shiftTx := 0xFF#8
  shiftRx := 0xFF#8
  busy := false
  clkDiv := clkDivHalf
  clkCnt := 0#8
  bitIdx := 0#4
  spiPhase := false
  dataOut := 0#32
  misoSync0 := true
  misoSync1 := true

/-- What the next `data_out` is. -/
def read (s : SdcardSpi) (addr : BitVec 4) : Word :=
  match addr.toNat with
  | 0x0 => s.shiftRx.setWidth 32
  | 0x4 => (BitVec.ofBool s.csNReg).setWidth 32
  | 0x8 => (BitVec.ofBool s.busy).setWidth 32
  | 0xC => s.clkDiv.setWidth 32
  | _ => 0#32

/-- A write while there is no transfer. -/
def write (s : SdcardSpi) (addr : BitVec 4) (dataIn : Word) : SdcardSpi :=
  match addr.toNat with
  | 0x0 =>
    { s with
      shiftTx := dataIn.extractLsb' 0 8
      mosiReg := dataIn.getLsbD 7
      busy := true
      clkCnt := 0#8
      bitIdx := 0#4
      spiPhase := false
      sclkReg := false }
  | 0x4 => { s with csNReg := dataIn.getLsbD 0 }
  | 0xC =>
    { s with clkDiv := if dataIn.extractLsb' 0 8 < clkDivMin then clkDivMin
        else dataIn.extractLsb' 0 8 }
  | _ => s

/-- The rising edge: MISO is sampled. -/
def rise (s : SdcardSpi) : SdcardSpi :=
  { s with
    clkCnt := 0#8
    sclkReg := true
    shiftRx := s.shiftRx.extractLsb' 0 7 ++ BitVec.ofBool s.misoSync1
    spiPhase := true }

/-- The falling edge: the next bit goes to MOSI, or the transfer ends. -/
def fall (s : SdcardSpi) : SdcardSpi :=
  let s' := { s with clkCnt := 0#8, sclkReg := false, spiPhase := false }
  if s.bitIdx = 7#4 then { s' with busy := false, mosiReg := true }
  else
    { s' with
      bitIdx := s.bitIdx + 1#4
      shiftTx := s.shiftTx.extractLsb' 0 7 ++ 1#1
      mosiReg := s.shiftTx.getLsbD 6 }

/-- A cycle of a transfer. -/
def shift (s : SdcardSpi) : SdcardSpi :=
  if s.clkCnt = s.clkDiv - 1#8 then
    if s.spiPhase then s.fall else s.rise
  else { s with clkCnt := s.clkCnt + 1#8 }

/-- What the write or the transfer makes of the state in a cycle. -/
def work (s : SdcardSpi) (i : SpiIn) : SdcardSpi :=
  if i.we && !s.busy then s.write i.addr i.dataIn
  else if s.busy then s.shift
  else s

/-- A clock edge. -/
def tick (s : SdcardSpi) (i : SpiIn) : SdcardSpi :=
  { s.work i with
    misoSync0 := i.spiMiso
    misoSync1 := s.misoSync0
    dataOut := s.read i.addr }

/-- The state in cycle `n` after the reset. -/
def run (inp : ℕ → SpiIn) : ℕ → SdcardSpi
  | 0 => reset
  | n + 1 => (run inp n).tick (inp n)

/-- A write while busy is none. -/
theorem tick_of_busy {s : SdcardSpi} (h : s.busy = true) (i : SpiIn) :
    s.tick i = s.tick { i with we := false } := by
  simp [tick, work, h]

/-! ## A transfer -/

variable {s : SdcardSpi} {i : SpiIn} {byte : Byte} {h j : ℕ}

/-- No transfer: the clock is low and MOSI high. -/
structure Resting (s : SdcardSpi) : Prop where
  busy : s.busy = false
  sclk : s.sclkReg = false
  mosi : s.mosiReg = true

/-- Cycle `j` of half period `h` in a transfer of `byte`. -/
structure Shifting (s : SdcardSpi) (byte : Byte) (h j : ℕ) : Prop where
  busy : s.busy = true
  half : h < 16
  cycle : j < s.clkDiv.toNat
  clkCnt : s.clkCnt.toNat = j
  phase : s.spiPhase = decide (h % 2 = 1)
  sclk : s.sclkReg = decide (h % 2 = 1)
  bitIdx : s.bitIdx.toNat = h / 2
  mosi : s.mosiReg = byte.getLsbD (7 - h / 2)
  shiftTx : ∀ b, h / 2 ≤ b → b < 8 → s.shiftTx.getLsbD b = byte.getLsbD (b - h / 2)

/-- The registers that a transfer leaves alone. -/
structure Kept (s s' : SdcardSpi) : Prop where
  csNReg : s'.csNReg = s.csNReg
  clkDiv : s'.clkDiv = s.clkDiv

theorem Kept.trans {s s' s'' : SdcardSpi} (h : Kept s s') (h' : Kept s' s'') : Kept s s'' :=
  ⟨h'.csNReg.trans h.csNReg, h'.clkDiv.trans h.clkDiv⟩

theorem tick_of_shifting (hs : s.busy = true) :
    s.tick i = { s.shift with
      misoSync0 := i.spiMiso, misoSync1 := s.misoSync0, dataOut := s.read i.addr } := by
  simp [tick, work, hs]

theorem Shifting.last_iff (hs : s.Shifting byte h j) :
    s.clkCnt = s.clkDiv - 1#8 ↔ j + 1 = s.clkDiv.toNat := by
  have hcnt := hs.clkCnt
  have hj := hs.cycle
  have hlt := s.clkDiv.isLt
  have hsub : (s.clkDiv - 1#8).toNat = s.clkDiv.toNat - 1 := by
    rw [BitVec.toNat_sub_of_le]
    · rfl
    · change 1 ≤ s.clkDiv.toNat
      omega
  rw [← BitVec.toNat_inj, hsub, hcnt]
  omega

/-- A cycle within a half period. -/
theorem Shifting.tick_within (hs : s.Shifting byte h j) (hj : j + 1 < s.clkDiv.toNat) :
    (s.tick i).Shifting byte h (j + 1) ∧ Kept s (s.tick i) ∧ (s.tick i).shiftRx = s.shiftRx := by
  have hlast : ¬s.clkCnt = s.clkDiv - 1#8 := fun h ↦ absurd (hs.last_iff.mp h) (by omega)
  rw [tick_of_shifting hs.busy, shift, if_neg hlast]
  refine ⟨⟨hs.busy, hs.half, hj, ?_, hs.phase, hs.sclk, hs.bitIdx, hs.mosi, hs.shiftTx⟩,
    ⟨rfl, rfl⟩, rfl⟩
  have hcnt := hs.clkCnt
  have hlt := s.clkDiv.isLt
  change (s.clkCnt + 1#8).toNat = j + 1
  rw [BitVec.toNat_add_of_lt, hcnt]
  · rfl
  · change s.clkCnt.toNat + 1 < 2 ^ 8
    omega

/-- The end of a half period with the clock low. -/
theorem Shifting.tick_rise (hs : s.Shifting byte h j) (hj : j + 1 = s.clkDiv.toNat)
    (heven : h % 2 = 0) :
    (s.tick i).Shifting byte (h + 1) 0 ∧ Kept s (s.tick i) ∧
      (s.tick i).shiftRx = s.shiftRx.extractLsb' 0 7 ++ BitVec.ofBool s.misoSync1 := by
  have hphase : s.spiPhase = false := by rw [hs.phase, heven]; rfl
  have hhalf : (h + 1) / 2 = h / 2 := by omega
  have hodd : decide ((h + 1) % 2 = 1) = true := decide_eq_true (by omega)
  rw [tick_of_shifting hs.busy, shift, if_pos (hs.last_iff.mpr hj), hphase]
  refine ⟨⟨hs.busy, ?_, ?_, rfl, hodd.symm, hodd.symm, ?_, ?_, ?_⟩, ⟨rfl, rfl⟩, rfl⟩
  · have := hs.half
    omega
  · change 0 < s.clkDiv.toNat
    omega
  · rw [hhalf]
    exact hs.bitIdx
  · rw [hhalf]
    exact hs.mosi
  · rw [hhalf]
    exact hs.shiftTx

theorem Shifting.phase_odd (hs : s.Shifting byte h j) (hodd : h % 2 = 1) : s.spiPhase = true := by
  rw [hs.phase]
  exact decide_eq_true hodd

/-- The end of a half period with the clock high. -/
theorem Shifting.tick_fall (hs : s.Shifting byte h j) (hj : j + 1 = s.clkDiv.toNat)
    (hodd : h % 2 = 1) (hh : h + 1 < 16) :
    (s.tick i).Shifting byte (h + 1) 0 ∧ Kept s (s.tick i) ∧ (s.tick i).shiftRx = s.shiftRx := by
  have hbit := hs.bitIdx
  have hidx : ¬s.bitIdx = 7#4 := by
    rw [← BitVec.toNat_inj, hbit]
    change ¬h / 2 = 7
    omega
  have heven : decide ((h + 1) % 2 = 1) = false := decide_eq_false (by omega)
  have hhalf : (h + 1) / 2 = h / 2 + 1 := by omega
  rw [tick_of_shifting hs.busy, shift, if_pos (hs.last_iff.mpr hj), hs.phase_odd hodd, if_pos rfl,
    fall, if_neg hidx]
  refine ⟨⟨hs.busy, hh, ?_, rfl, heven.symm, heven.symm, ?_, ?_, ?_⟩, ⟨rfl, rfl⟩, rfl⟩
  · change 0 < s.clkDiv.toNat
    omega
  · change (s.bitIdx + 1#4).toNat = _
    rw [BitVec.toNat_add_of_lt, hbit, hhalf]
    · rfl
    · change s.bitIdx.toNat + 1 < 2 ^ 4
      omega
  · change s.shiftTx.getLsbD 6 = _
    rw [hs.shiftTx 6 (by omega) (by omega), hhalf, show 6 - h / 2 = 7 - (h / 2 + 1) by omega]
  · intro b hb hb8
    rw [hhalf] at hb ⊢
    change (s.shiftTx.extractLsb' 0 7 ++ 1#1).getLsbD b = _
    rw [BitVec.getLsbD_append, if_neg (by omega), BitVec.getLsbD_extractLsb', zero_add,
      decide_eq_true (by omega : b - 1 < 7), Bool.true_and,
      hs.shiftTx (b - 1) (by omega) (by omega),
      show b - 1 - h / 2 = b - (h / 2 + 1) by omega]

/-- The end of the last half period. -/
theorem Shifting.tick_last (hs : s.Shifting byte 15 j) (hj : j + 1 = s.clkDiv.toNat) :
    (s.tick i).Resting ∧ Kept s (s.tick i) ∧ (s.tick i).shiftRx = s.shiftRx := by
  have hidx : s.bitIdx = 7#4 := BitVec.eq_of_toNat_eq hs.bitIdx
  rw [tick_of_shifting hs.busy, shift, if_pos (hs.last_iff.mpr hj), hs.phase_odd rfl, if_pos rfl,
    fall, if_pos hidx]
  exact ⟨⟨rfl, rfl, rfl⟩, ⟨rfl, rfl⟩, rfl⟩

/-- The cycle writes the data register, and the write is taken. -/
def Starts (s : SdcardSpi) (i : SpiIn) : Prop := i.we = true ∧ i.addr = 0x0#4 ∧ s.busy = false

/-- The write of a byte starts its transfer. -/
theorem tick_start (hi : s.Starts i) (hdiv : 0 < s.clkDiv.toNat) :
    (s.tick i).Shifting (i.dataIn.extractLsb' 0 8) 0 0 ∧ Kept s (s.tick i) ∧
      (s.tick i).shiftRx = s.shiftRx := by
  obtain ⟨hwe, haddr, hbusy⟩ := hi
  have hwork : s.work i = s.write 0x0#4 i.dataIn := by simp [work, hwe, hbusy, haddr]
  rw [tick, hwork]
  refine ⟨⟨rfl, by decide, hdiv, rfl, rfl, rfl, rfl, ?_, fun _ _ _ ↦ rfl⟩, ⟨rfl, rfl⟩, rfl⟩
  change i.dataIn.getLsbD 7 = (i.dataIn.extractLsb' 0 8).getLsbD 7
  simp

/-- Any other cycle without a transfer. -/
theorem Resting.tick (hs : s.Resting) (hi : ¬s.Starts i) :
    (s.tick i).Resting ∧ (s.tick i).shiftRx = s.shiftRx := by
  have hwrite : i.we = true → i.addr ≠ 0x0#4 := fun hwe haddr ↦ hi ⟨hwe, haddr, hs.busy⟩
  obtain ⟨hbusy, hsclk, hmosi⟩ := hs
  unfold SdcardSpi.tick work
  rw [hbusy]
  cases hwe : i.we with
  | false => exact ⟨⟨hbusy, hsclk, hmosi⟩, rfl⟩
  | true =>
    have haddr : i.addr.toNat ≠ 0 := by
      intro h0
      exact hwrite hwe (BitVec.eq_of_toNat_eq h0)
    simp only [Bool.not_false, Bool.and_self, if_true]
    unfold write
    split
    · exact absurd ‹_› haddr
    all_goals exact ⟨⟨hbusy, hsclk, hmosi⟩, rfl⟩

/-! ## Runs -/

/-- What holds in every cycle. -/
structure Inv (s : SdcardSpi) : Prop where
  clkDiv : 3 ≤ s.clkDiv.toNat
  phase : s.Resting ∨ ∃ byte h j, s.Shifting byte h j

theorem Inv.resting (hs : s.Inv) (hbusy : s.busy = false) : s.Resting := by
  rcases hs.phase with h | ⟨byte, h, j, hsh⟩
  · exact h
  · rw [hsh.busy] at hbusy
    cases hbusy

/-- A cycle of a transfer, whichever it is. -/
theorem Shifting.tick (hs : s.Shifting byte h j) :
    ((s.tick i).Resting ∨ ∃ h' j', (s.tick i).Shifting byte h' j') ∧ Kept s (s.tick i) := by
  have hj := hs.cycle
  have hh := hs.half
  by_cases hlast : j + 1 < s.clkDiv.toNat
  · obtain ⟨hnext, hkept, -⟩ := hs.tick_within (i := i) hlast
    exact ⟨.inr ⟨h, j + 1, hnext⟩, hkept⟩
  · have hend : j + 1 = s.clkDiv.toNat := by omega
    rcases Nat.mod_two_eq_zero_or_one h with heven | hodd
    · obtain ⟨hnext, hkept, -⟩ := hs.tick_rise (i := i) hend heven
      exact ⟨.inr ⟨h + 1, 0, hnext⟩, hkept⟩
    · by_cases h15 : h = 15
      · subst h15
        obtain ⟨hnext, hkept, -⟩ := hs.tick_last (i := i) hend
        exact ⟨.inl hnext, hkept⟩
      · obtain ⟨hnext, hkept, -⟩ := hs.tick_fall (i := i) hend hodd (by omega)
        exact ⟨.inr ⟨h + 1, 0, hnext⟩, hkept⟩

/-- What a write of the half period sets: a setting below the least is the least. -/
def halfPeriod (dataIn : Word) : BitVec 8 :=
  if dataIn.extractLsb' 0 8 < clkDivMin then clkDivMin else dataIn.extractLsb' 0 8

theorem clkDivMin_le_halfPeriod (dataIn : Word) : 3 ≤ (halfPeriod dataIn).toNat := by
  unfold halfPeriod
  split
  · exact le_rfl
  · rename_i hlt
    exact Nat.le_of_not_lt hlt

theorem clkDiv_write (s : SdcardSpi) (addr : BitVec 4) (dataIn : Word) :
    (s.write addr dataIn).clkDiv = if addr.toNat = 0xC then halfPeriod dataIn else s.clkDiv := by
  unfold write
  split <;> simp_all [halfPeriod]

theorem csNReg_write (s : SdcardSpi) (addr : BitVec 4) (dataIn : Word) :
    (s.write addr dataIn).csNReg = if addr.toNat = 0x4 then dataIn.getLsbD 0 else s.csNReg := by
  unfold write
  split <;> simp_all

theorem Inv.tick (hs : s.Inv) (i : SpiIn) : (s.tick i).Inv := by
  rcases hs.phase with hrest | ⟨byte, h, j, hsh⟩
  · by_cases hi : s.Starts i
    · obtain ⟨hnext, hkept, -⟩ := tick_start hi (by have := hs.clkDiv; omega)
      exact ⟨hkept.clkDiv ▸ hs.clkDiv, .inr ⟨_, 0, 0, hnext⟩⟩
    · refine ⟨?_, .inl (hrest.tick hi).1⟩
      unfold SdcardSpi.tick work
      rw [hrest.busy]
      cases i.we with
      | true =>
        change 3 ≤ (s.write i.addr i.dataIn).clkDiv.toNat
        rw [clkDiv_write]
        split
        · exact clkDivMin_le_halfPeriod i.dataIn
        · exact hs.clkDiv
      | false => exact hs.clkDiv
  · obtain ⟨hnext, hkept⟩ := hsh.tick (i := i)
    refine ⟨hkept.clkDiv ▸ hs.clkDiv, ?_⟩
    rcases hnext with hrest | ⟨h', j', hsh'⟩
    · exact .inl hrest
    · exact .inr ⟨byte, h', j', hsh'⟩

theorem inv_run (inp : ℕ → SpiIn) (n : ℕ) : (run inp n).Inv := by
  induction n with
  | zero => exact ⟨show 3 ≤ clkDivHalf.toNat by decide, .inl ⟨rfl, rfl, rfl⟩⟩
  | succ n ih => exact ih.tick (inp n)

/-- A register after the bits `bit 0`, …, `bit (n - 1)` were shifted in. -/
def taken (bit : ℕ → Bool) (prev : Byte) : ℕ → Byte
  | 0 => prev
  | n + 1 => (taken bit prev n).extractLsb' 0 7 ++ BitVec.ofBool (bit n)

section

variable {inp : ℕ → SpiIn} {w d : ℕ}

/-- What MISO is at each rising edge of a transfer that was written in cycle `w`. -/
def sampled (inp : ℕ → SpiIn) (w d i : ℕ) : Bool := (run inp (w + d * (2 * i + 1))).misoSync1

/-- Cycle `j` of half period `h`, with the bits that were taken. -/
structure During (inp : ℕ → SpiIn) (w d h j : ℕ) : Prop where
  shifting : (run inp (w + 1 + (d * h + j))).Shifting ((inp w).dataIn.extractLsb' 0 8) h j
  kept : Kept (run inp w) (run inp (w + 1 + (d * h + j)))
  shiftRx : (run inp (w + 1 + (d * h + j))).shiftRx =
    taken (sampled inp w d) (run inp w).shiftRx ((h + 1) / 2)

theorem During.within {h j : ℕ} (hd : (run inp w).clkDiv.toNat = d) (hs : During inp w d h j)
    (hj : j + 1 < d) : During inp w d h (j + 1) := by
  obtain ⟨hnext, hkept, hrx⟩ := hs.shifting.tick_within (i := inp (w + 1 + (d * h + j)))
    (by rw [hs.kept.clkDiv, hd]; exact hj)
  exact ⟨hnext, hs.kept.trans hkept, hrx.trans hs.shiftRx⟩

/-- From the last cycle of a half period to the next one. -/
theorem During.over {h j : ℕ} (hd : (run inp w).clkDiv.toNat = d) (hs : During inp w d h j)
    (hj : j + 1 = d) (hh : h + 1 < 16) : During inp w d (h + 1) 0 := by
  have hend : j + 1 = (run inp (w + 1 + (d * h + j))).clkDiv.toNat := by rw [hs.kept.clkDiv, hd, hj]
  have hcycle : w + 1 + (d * (h + 1) + 0) = w + 1 + (d * h + j) + 1 := by
    rw [Nat.mul_succ]
    omega
  rcases Nat.mod_two_eq_zero_or_one h with heven | hodd
  · obtain ⟨hnext, hkept, hrx⟩ := hs.shifting.tick_rise (i := inp (w + 1 + (d * h + j))) hend heven
    have hsample : (run inp (w + 1 + (d * h + j))).misoSync1 = sampled inp w d (h / 2) := by
      have hw : w + 1 + (d * h + j) = w + d * (2 * (h / 2) + 1) := by
        rw [show 2 * (h / 2) = h by omega, Nat.mul_succ]
        omega
      rw [hw]
      rfl
    refine ⟨?_, ?_, ?_⟩
    · rw [hcycle]
      exact hnext
    · rw [hcycle]
      exact hs.kept.trans hkept
    · rw [hcycle, show (h + 1 + 1) / 2 = h / 2 + 1 by omega, taken, ← hsample,
        show h / 2 = (h + 1) / 2 by omega, ← hs.shiftRx]
      exact hrx
  · obtain ⟨hnext, hkept, hrx⟩ :=
      hs.shifting.tick_fall (i := inp (w + 1 + (d * h + j))) hend hodd hh
    refine ⟨?_, ?_, ?_⟩
    · rw [hcycle]
      exact hnext
    · rw [hcycle]
      exact hs.kept.trans hkept
    · rw [hcycle, show (h + 1 + 1) / 2 = (h + 1) / 2 by omega, ← hs.shiftRx]
      exact hrx

/-- **A whole transfer**, half period by half period and cycle by cycle. -/
theorem during (hd : (run inp w).clkDiv.toNat = d) (hw : (run inp w).Starts (inp w)) {h j : ℕ}
    (hh : h < 16) (hj : j < d) : During inp w d h j := by
  have hin : ∀ h, During inp w d h 0 → ∀ j, j < d → During inp w d h j := by
    intro h h0 j
    induction j with
    | zero => exact fun _ ↦ h0
    | succ j ih => exact fun hj ↦ (ih (by omega)).within hd hj
  have hpos : 0 < d := by omega
  have hfirst : ∀ h, h < 16 → During inp w d h 0 := by
    intro h
    induction h with
    | zero =>
      intro _
      obtain ⟨hnext, hkept, hrx⟩ := tick_start hw (hd ▸ hpos)
      exact ⟨hnext, hkept, hrx⟩
    | succ h ih => exact fun hh ↦ (hin h (ih (by omega)) (d - 1) (by omega)).over hd (by omega) hh
  exact hin h (hfirst h hh) j hj

/-- The cycle after the transfer. -/
theorem after (hd : (run inp w).clkDiv.toNat = d) (hw : (run inp w).Starts (inp w)) :
    (run inp (w + 1 + 16 * d)).Resting ∧ Kept (run inp w) (run inp (w + 1 + 16 * d)) ∧
      (run inp (w + 1 + 16 * d)).shiftRx = taken (sampled inp w d) (run inp w).shiftRx 8 := by
  have hpos := (inv_run inp w).clkDiv
  have hlast : During inp w d 15 (d - 1) := during hd hw (by decide) (by omega)
  obtain ⟨hnext, hkept, hrx⟩ := hlast.shifting.tick_last (i := inp (w + 1 + (d * 15 + (d - 1))))
    (by rw [hlast.kept.clkDiv, hd]; omega)
  have hcycle : w + 1 + 16 * d = w + 1 + (d * 15 + (d - 1)) + 1 := by omega
  rw [hcycle]
  exact ⟨hnext, hlast.kept.trans hkept, hrx.trans hlast.shiftRx⟩

/-- Every cycle of a transfer is one of a half period. -/
theorem exists_half {w d c : ℕ} (hwc : w < c) (hc : c ≤ w + 16 * d) :
    ∃ h j, h < 16 ∧ j < d ∧ c = w + 1 + (d * h + j) := by
  have hpos : 0 < d := by
    by_contra h0
    rw [Nat.eq_zero_of_not_pos h0] at hc
    omega
  refine ⟨(c - w - 1) / d, (c - w - 1) % d, Nat.div_lt_of_lt_mul (by rw [Nat.mul_comm]; omega),
    Nat.mod_lt _ hpos, ?_⟩
  rw [Nat.div_add_mod]
  omega

/-! ## The waveform -/

/-- The pulses of a transfer of `byte`, written in cycle `w` with the half period `d`. -/
structure Pulses (inp : ℕ → SpiIn) (w d : ℕ) (byte : Byte) : Prop where
  /-- SCLK is low for a half period before each pulse. -/
  low : ∀ i < 8, ∀ c, w + d * (2 * i) < c → c ≤ w + d * (2 * i + 1) →
    (run inp c).sclkReg = false
  /-- Each pulse lasts a half period. -/
  high : ∀ i < 8, ∀ c, w + d * (2 * i + 1) < c → c ≤ w + d * (2 * i + 2) →
    (run inp c).sclkReg = true
  /-- MOSI has bit `7 - i` for a half period before the rising edge and one after it. -/
  mosi : ∀ i < 8, ∀ c, w + d * (2 * i) < c → c ≤ w + d * (2 * i + 2) →
    (run inp c).mosiReg = byte.getLsbD (7 - i)
  /-- The rising edges. -/
  edges : ∀ c, w ≤ c → c ≤ w + 16 * d →
    ((run inp c).sclkReg = false ∧ (run inp (c + 1)).sclkReg = true ↔
      ∃ i < 8, c = w + d * (2 * i + 1))
  /-- The transfer is over, with SCLK low. -/
  ends : (run inp (w + 16 * d + 1)).busy = false ∧ (run inp (w + 16 * d + 1)).sclkReg = false

theorem exists_cycle {w d c h : ℕ} (hlow : w + d * h < c) (hhigh : c ≤ w + d * (h + 1)) :
    ∃ j < d, c = w + 1 + (d * h + j) := by
  rw [Nat.mul_succ] at hhigh
  exact ⟨c - (w + 1 + d * h), by omega, by omega⟩

theorem rising_iff (hd : (run inp w).clkDiv.toNat = d) (hw : (run inp w).Starts (inp w)) {c : ℕ}
    (hwc : w ≤ c) (hc : c ≤ w + 16 * d) :
    (run inp c).sclkReg = false ∧ (run inp (c + 1)).sclkReg = true ↔
      ∃ i < 8, c = w + d * (2 * i + 1) := by
  have hpos := hd ▸ (inv_run inp w).clkDiv
  rcases Nat.eq_or_lt_of_le hwc with rfl | hlt
  · have hfirst := (during hd hw (h := 0) (j := 0) (by decide) (by omega)).shifting.sclk
    change (run inp (w + 1)).sclkReg = false at hfirst
    rw [hfirst]
    constructor
    · rintro ⟨-, ⟨⟩⟩
    · rintro ⟨i, -, hi⟩
      have : 0 < d * (2 * i + 1) := Nat.mul_pos (by omega) (by omega)
      omega
  · obtain ⟨h, j, hh, hj, rfl⟩ := exists_half hlt hc
    have hsclk := (during hd hw hh hj).shifting.sclk
    by_cases hlast : j + 1 < d
    · have hsame := (during hd hw hh hlast).shifting.sclk
      change (run inp (w + 1 + (d * h + j) + 1)).sclkReg = _ at hsame
      rw [hsclk, hsame]
      constructor
      · rintro ⟨hf, ht⟩
        rw [ht] at hf
        cases hf
      · rintro ⟨i, -, hi⟩
        have hmod := congrArg (· % d) (show d * h + (j + 1) = d * (2 * i + 1) by omega)
        simp only [Nat.mul_add_mod, Nat.mul_mod_right] at hmod
        rw [Nat.mod_eq_of_lt hlast] at hmod
        omega
    · have hcycle : w + 1 + (d * h + j) = w + d * (h + 1) := by
        rw [Nat.mul_succ]
        omega
      have hedge : (∃ i < 8, w + 1 + (d * h + j) = w + d * (2 * i + 1)) ↔ h % 2 = 0 := by
        rw [hcycle]
        constructor
        · rintro ⟨i, -, hi⟩
          have := Nat.eq_of_mul_eq_mul_left (by omega : 0 < d) (by omega :
            d * (h + 1) = d * (2 * i + 1))
          omega
        · intro heven
          exact ⟨h / 2, by omega, by rw [show 2 * (h / 2) = h by omega]⟩
      rw [hedge, hsclk, decide_eq_false_iff_not]
      by_cases h15 : h + 1 < 16
      · have hnext := (during hd hw h15 (j := 0) (by omega)).shifting.sclk
        rw [show w + 1 + (d * (h + 1) + 0) = w + 1 + (d * h + j) + 1 by omega] at hnext
        rw [hnext, decide_eq_true_iff]
        omega
      · have hnext := (after hd hw).1.sclk
        rw [show w + 1 + 16 * d = w + 1 + (d * h + j) + 1 by
          rw [hcycle, show h + 1 = 16 by omega]; omega] at hnext
        rw [hnext]
        have : h % 2 = 1 := by omega
        simp [this]

/-- **Eight pulses.**  Every write of a byte that is taken sends it, the most significant bit
first. -/
theorem pulses (hd : (run inp w).clkDiv.toNat = d) (hw : (run inp w).Starts (inp w)) :
    Pulses inp w d ((inp w).dataIn.extractLsb' 0 8) where
  low i hi c hlow hhigh := by
    obtain ⟨j, hj, rfl⟩ := exists_cycle hlow hhigh
    rw [(during hd hw (by omega) hj).shifting.sclk]
    exact decide_eq_false (by omega)
  high i hi c hlow hhigh := by
    obtain ⟨j, hj, rfl⟩ := exists_cycle hlow hhigh
    rw [(during hd hw (by omega) hj).shifting.sclk]
    exact decide_eq_true (by omega)
  mosi i hi c hlow hhigh := by
    rcases Nat.lt_or_ge (w + d * (2 * i + 1)) c with hc | hc
    · obtain ⟨j, hj, rfl⟩ := exists_cycle hc hhigh
      rw [(during hd hw (by omega) hj).shifting.mosi, show (2 * i + 1) / 2 = i by omega]
    · obtain ⟨j, hj, rfl⟩ := exists_cycle hlow hc
      rw [(during hd hw (by omega) hj).shifting.mosi, show 2 * i / 2 = i by omega]
  edges c hwc hc := rising_iff hd hw hwc hc
  ends := by
    have h := (after hd hw).1
    rw [show w + 16 * d + 1 = w + 1 + 16 * d by omega]
    exact ⟨h.busy, h.sclk⟩

end

end SdcardSpi

end Vux9k.Rtl

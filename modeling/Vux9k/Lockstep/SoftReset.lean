import Vux9k.Emu.Gpio
import Vux9k.Lockstep.Mmio
import Vux9k.Rtl.SoftReset

/-!
# The ISA changes only as the loader asked

The GPIO registers of the RTL and of the emulator over the same writes: a key makes both start again
at the same cycle, in the same ISA.
-/

set_option autoImplicit false

namespace Vux9k

open Rtl (SocTop SocIn Cpu)
open Rtl.SocTop (run Reachable)
open Emu (SoftReset Soc)

/-! ## The same writes in the emulator -/

/-- The address that the emulator's `Gpio` gets: a Hack address is mapped to an RV32 one. -/
def gpioAddr (c : Cpu) : Word :=
  if c.isRiscvMode then c.dataWaddr else Emu.hackMmio (c.dataWaddr &&& 0xFFFF#32)

/-- The emulator's GPIO after the write of a cycle, if there is one, and the soft reset that the
instruction of the write ends with. -/
def gpioStep (s : SocTop) (c : ℕ) (g : Emu.Gpio) : Option SoftReset × Emu.Gpio :=
  if s.gpioWe then (g.write (gpioAddr s.cpu) s.cpu.dataOut c).takeSoftReset else (none, g)

/-- The emulator's GPIO after the writes of the first `n` cycles. -/
def gpioAfter (inp : ℕ → SocIn) (s : SocTop) : ℕ → Emu.Gpio
  | 0 => .default
  | n + 1 => (gpioStep (run inp s n) n (gpioAfter inp s n)).2

variable {s : SocTop} {i : SocIn} {inp : ℕ → SocIn} {n : ℕ}

theorem hackMmio_low (a : Word) (h : a.extractLsb' 2 2 ≠ 0b00#2) :
    Emu.hackMmio (a &&& 0xFFFF#32) &&& 0xF#32 = (a.extractLsb' 0 4).setWidth 32 := by
  rw [extract_nibble] at h
  rw [hackMmio_nibble]
  generalize a.extractLsb' 0 4 = low at h ⊢
  revert low
  decide

/-- The address bits that the emulator decodes. -/
theorem gpioAddr_low (h : s.gpioWe = true) :
    gpioAddr s.cpu &&& 0xF#32 = (s.cpu.dataWaddr.extractLsb' 0 4).setWidth 32 := by
  have hsel : Rtl.decode (!s.cpu.isRiscvMode) s.cpu.dataWaddr = some .gpio := by
    rw [SocTop.gpioWe, Bool.and_eq_true, decide_eq_true_eq] at h
    exact h.2
  unfold gpioAddr
  cases hmode : s.cpu.isRiscvMode with
  | true =>
    rw [if_pos rfl]
    apply BitVec.eq_of_getLsbD_eq
    intro j hj
    have hF : 0xF#32 = (BitVec.allOnes 4).setWidth 32 := rfl
    rw [hF]
    simp only [BitVec.getLsbD_and, BitVec.getLsbD_setWidth, BitVec.getLsbD_allOnes,
      BitVec.getLsbD_extractLsb', zero_add, hj, decide_true, Bool.true_and]
    exact Bool.and_comm _ _
  | false =>
    rw [if_neg Bool.false_ne_true]
    refine hackMmio_low _ fun hlow ↦ ?_
    rw [hmode, Bool.not_false, Rtl.decode, if_pos rfl, if_pos hlow] at hsel
    split_ifs at hsel <;> cases hsel

/-! ## The registers on both sides -/

/-- What the two have in common: the emulator takes back the valid bit as soon as the key is
written, the RTL when the pulse ends. -/
structure GpioAgrees (s : SocTop) (g : Emu.Gpio) : Prop where
  pending : g.pending = none
  modeRv32 : g.modeRv32 = s.gpio.modeRv32
  modeValid : g.modeValid = if s.gpio.cpuSoftRst then false else s.gpio.modeValid

theorem getLsbD_eight (v : Word) : decide (v &&& 0x100#32 ≠ 0#32) = v.getLsbD 8 := by
  have h : v &&& 0x100#32 = (BitVec.ofBool (v.getLsbD 8)).setWidth 32 <<< 8 := by
    apply BitVec.eq_of_getLsbD_eq
    intro j hj
    simp only [BitVec.getLsbD_and, BitVec.getLsbD_shiftLeft, BitVec.getLsbD_setWidth]
    interval_cases j <;> simp
  rw [h]
  cases v.getLsbD 8 <;> rfl

theorem getLsbD_zero (v : Word) : decide (v &&& 1#32 ≠ 0#32) = v.getLsbD 0 := by
  rw [BitVec.and_one_eq_setWidth_ofBool_getLsbD]
  cases v.getLsbD 0 <;> rfl

/-- A write of a key. -/
theorem gpioStep_key {g : Emu.Gpio} (h : GpioAgrees s g) (hinv : s.Inv)
    (hkey : s.keyWritten = true) (c : ℕ) : (gpioStep s c g).1 = some
      { release := c + 16, mode := if s.gpio.modeValid then some s.gpio.modeRv32 else none } := by
  have hsoft := SocTop.cpuSoftRst_of_keyWritten hinv hkey
  have hvalid := h.modeValid
  rw [hsoft, if_neg Bool.false_ne_true] at hvalid
  simp only [SocTop.keyWritten, Bool.and_eq_true, Bool.or_eq_true, decide_eq_true_eq] at hkey
  obtain ⟨⟨hwe, haddr⟩, hdata⟩ := hkey
  rw [gpioStep, if_pos hwe, Emu.Gpio.write, gpioAddr_low hwe, haddr]
  change (if _ then _ else g : Emu.Gpio).pending = _
  rw [if_pos hdata, hvalid, h.modeRv32]
  rfl

/-- What a write does to the two fields. -/
theorem write_modes (g : Emu.Gpio) (addr v : Word) (c : ℕ) {a : BitVec 4}
    (ha : addr &&& 0xF#32 = a.setWidth 32) :
    (g.write addr v c).modeRv32 = (if a = 0x8#4 then v.getLsbD 0 else g.modeRv32) ∧
      (g.write addr v c).modeValid = if a = 0x8#4 then v.getLsbD 8
        else if a = 0xC#4 ∧ (v = 0x5A5AA55A#32 ∨ v = 0x0000A55A#32) then false
        else g.modeValid := by
  have hnat : (addr &&& 0xF#32).toNat = a.toNat := by
    rw [ha, BitVec.toNat_setWidth]
    have := a.isLt
    omega
  have hcase : ∀ k : ℕ, k < 16 → (a.toNat = k ↔ a = BitVec.ofNat 4 k) := by
    intro k hk
    rw [← BitVec.toNat_inj, BitVec.toNat_ofNat, Nat.mod_eq_of_lt hk]
  unfold Emu.Gpio.write
  rw [hnat]
  split
  · rename_i h0
    obtain rfl := (hcase 0 (by decide)).mp h0
    exact ⟨rfl, rfl⟩
  · rename_i h8
    obtain rfl := (hcase 8 (by decide)).mp h8
    exact ⟨getLsbD_zero v, getLsbD_eight v⟩
  · rename_i hC
    obtain rfl := (hcase 12 (by decide)).mp hC
    split
    · rename_i hkey
      exact ⟨rfl, by simp [hkey]⟩
    · rename_i hkey
      exact ⟨rfl, by simp [hkey]⟩
  · rename_i h0 h8 hC
    rw [if_neg (mt (hcase 8 (by decide)).mpr h8), if_neg (mt (hcase 8 (by decide)).mpr h8),
      if_neg fun h ↦ hC ((hcase 12 (by decide)).mpr h.1)]
    exact ⟨rfl, rfl⟩

theorem GpioAgrees.tick {g : Emu.Gpio} (h : GpioAgrees s g) (hinv : s.Inv) (c : ℕ) :
    GpioAgrees (s.tick i) (gpioStep s c g).2 := by
  by_cases hsoft : s.gpio.cpuSoftRst = true
  · -- in the pulse nothing is written
    have hwe := hinv.gpioWe_of_softRst hsoft
    have hpos := SocTop.cpuSoftRst_iff.mp hsoft
    have hvalid := h.modeValid
    rw [if_pos hsoft] at hvalid
    rw [gpioStep, if_neg (by simp [hwe])]
    refine ⟨h.pending, ?_, ?_⟩
    · rw [SocTop.tick_gpio_quiet hwe, if_pos (by omega)]
      exact h.modeRv32
    · rw [hvalid]
      split
      · rfl
      · rename_i hend
        rw [SocTop.cpuSoftRst_iff, SocTop.tick_gpio_quiet hwe, if_pos (by omega)] at hend
        rw [SocTop.tick_gpio_quiet hwe, if_pos (by omega)]
        dsimp only at hend ⊢
        rw [if_pos (by omega)]
  · have hzero : s.gpio.rstPulseCnt = 0 := by
      by_contra hne
      exact hsoft (SocTop.cpuSoftRst_iff.mpr (Nat.pos_of_ne_zero hne))
    have hvalid := h.modeValid
    rw [if_neg hsoft] at hvalid
    cases hwe : s.gpioWe with
    | false =>
      have htick : (s.tick i).gpio = s.gpio := by
        rw [SocTop.tick_gpio_quiet hwe, if_neg (by simp [hzero])]
      rw [gpioStep, if_neg (by simp [hwe])]
      exact ⟨h.pending, by rw [htick]; exact h.modeRv32, by rw [htick]; exact h.modeValid⟩
    | true =>
      obtain ⟨hrv32', hvalid'⟩ := write_modes g (gpioAddr s.cpu) s.cpu.dataOut c (gpioAddr_low hwe)
      have htick : (s.tick i).gpio =
          s.gpio.tick (s.cpu.dataWaddr.extractLsb' 0 4) s.cpu.dataOut true := by
        rw [SocTop.tick_gpio, if_pos (SocTop.memWrite_of_gpioWe hwe), hwe]
      rw [gpioStep, if_pos hwe]
      refine ⟨rfl, ?_, ?_⟩
      · refine hrv32'.trans ?_
        rw [htick, Rtl.Gpio.tick, if_pos rfl, h.modeRv32]
        split
        · rfl
        · split <;> rfl
      · refine hvalid'.trans ?_
        rw [htick, Rtl.Gpio.tick, if_pos rfl, hvalid]
        split
        · simp [Rtl.Gpio.cpuSoftRst, hzero]
        · split
          · rfl
          · rfl

theorem gpioAgrees_run (hs : Reachable s) (h : GpioAgrees s .default) (n : ℕ) :
    GpioAgrees (run inp s n) (gpioAfter inp s n) := by
  induction n with
  | zero => exact h
  | succ n ih => exact ih.tick (hs.run inp n).inv n

/-- **The ISA changes only as the loader asked.**  In every run from the power-on reset: the ISA
changes only in a soft reset; a soft reset is the 15 cycles after the write of a key, in which no
GPIO register is written; then the CPU is in FETCH at address 0, in Hack exactly if register 0x8
held that when the key was written, and the register is not valid any more, so that the next soft
reset without a write of it starts RV32.  The emulator's `Gpio`, given each write of the RTL in the
cycle in which the RTL makes it, gives its `soft_reset` the same ISA and the cycle of that FETCH. -/
theorem isa_as_loader_asked (registers : BitVec 5 → Word) (txMem rxMem : BitVec 5 → Byte)
    (inp : ℕ → SocIn) {s : SocTop} (hs : s = SocTop.reset registers txMem rxMem) :
    (∀ n, (run inp s (n + 1)).cpu.isRiscvMode ≠ (run inp s n).cpu.isRiscvMode →
      (run inp s n).gpio.cpuSoftRst = true) ∧
    (∀ n, (run inp s n).gpio.cpuSoftRst = true →
      ∃ k, k < n ∧ n < k + 16 ∧ (run inp s k).keyWritten = true) ∧
    (∀ n, (run inp s n).keyWritten = true →
      (run inp s n).gpio.cpuSoftRst = false ∧
        (∀ k, n < k → k < n + 16 → (run inp s k).gpio.cpuSoftRst = true ∧
          (run inp s k).gpioWe = false) ∧
        (run inp s (n + 16)).gpio.cpuSoftRst = false ∧
        (run inp s (n + 16)).cpu.state = .fetch ∧ (run inp s (n + 16)).cpu.pcReg = 0#32 ∧
        ((run inp s (n + 16)).cpu.isRiscvMode = false ↔
          (run inp s n).gpio.modeValid = true ∧ (run inp s n).gpio.modeRv32 = false) ∧
        (run inp s (n + 16)).gpio.modeValid = false ∧
        (∀ m, n < m → (run inp s m).keyWritten = true →
          (∀ k, n < k → k < m → (run inp s k).modeWritten = false) →
          (run inp s (m + 16)).cpu.isRiscvMode = true) ∧
        ∃ sr, (gpioStep (run inp s n) n (gpioAfter inp s n)).1 = some sr ∧
          ∀ {σ : Type} (uart : ℕ → σ → σ) (e : Soc σ),
            (e.softReset uart sr).cycle = n + 16 ∧
            (e.softReset uart sr).pc = (run inp s (n + 16)).cpu.pcReg ∧
            (e.softReset uart sr).riscvMode = (run inp s (n + 16)).cpu.isRiscvMode) := by
  have hr : Reachable s := hs ▸ .reset registers txMem rxMem
  have hagrees : GpioAgrees s .default := by
    rw [hs]
    exact ⟨rfl, rfl, rfl⟩
  refine ⟨fun n hne ↦ ?_, fun n ↦ SocTop.key_of_softReset registers txMem rxMem hs, fun n hkey ↦ ?_⟩
  · by_contra hsoft
    exact hne (SocTop.isRiscvMode_of_running (Bool.eq_false_of_not_eq_true hsoft))
  obtain ⟨hbefore, hpulse, hlow, hstate, hpc, hmode, hvalid⟩ := SocTop.softReset_of_key hr hkey
  refine ⟨hbefore, hpulse, hlow, hstate, hpc, ?_, hvalid, fun m hnm hkey' hno ↦ ?_, ?_⟩
  · rw [hmode]
    cases (run inp s n).gpio.modeValid <;> simp
  · obtain ⟨-, -, -, -, -, hmode', -⟩ := SocTop.softReset_of_key hr hkey'
    -- the second key comes after the pulse of the first
    have hafter : n + 16 ≤ m := by
      by_contra hlt
      obtain ⟨-, hwe⟩ := hpulse m hnm (by omega)
      rw [SocTop.keyWritten, hwe] at hkey'
      cases hkey'
    have hinvalid := SocTop.modeValid_of_no_write hafter hvalid fun k hk hkm ↦ hno k (by omega) hkm
    rw [hmode', hinvalid, if_neg Bool.false_ne_true]
  · refine ⟨_, gpioStep_key (gpioAgrees_run hr hagrees n) (hr.run inp n).inv hkey n, ?_⟩
    intro σ uart e
    refine ⟨rfl, hpc.symm, ?_⟩
    rw [hmode]
    change Option.getD _ true = _
    cases (run inp s n).gpio.modeValid <;> rfl

/-- The instruction `sw x1, 12(x2)`, again and again. -/
def keyInputs (k : ℕ) : SocIn := { SocTop.sbInputs k with instrIn := 0x00112623#32 }

/-- After a power-on reset with a key in `x1` and the GPIO's address elsewhere. -/
def keyStart : SocTop :=
  SocTop.reset (fun r ↦ if r = 1#5 then 0x5A5AA55A#32 else 0x40003000#32) (fun _ ↦ 0#8) fun _ ↦ 0#8

theorem isa_as_loader_asked_sw :
    (run keyInputs keyStart 18).cpu.state = .fetch ∧ (run keyInputs keyStart 18).cpu.pcReg = 0#32 ∧
      (run keyInputs keyStart 18).cpu.isRiscvMode = true := by
  obtain ⟨-, -, hkey⟩ := @isa_as_loader_asked _ _ _ keyInputs keyStart rfl
  obtain ⟨-, -, -, hstate, hpc, hmode, -⟩ := hkey 2 (by decide)
  refine ⟨hstate, hpc, ?_⟩
  by_contra hhack
  have hvalid := (hmode.mp (Bool.eq_false_of_not_eq_true hhack)).1
  exact absurd hvalid (by decide)

end Vux9k

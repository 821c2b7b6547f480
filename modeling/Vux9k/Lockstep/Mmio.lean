import Vux9k.Emu.Mmio
import Vux9k.Lockstep.Hack
import Vux9k.Rtl.UartAccess

/-!
# The cycles of the MMIO accesses

The emulator passes to a peripheral the cycle of each access; in the RTL the cycle is that of a
state of `unified_cpu`.  Both are lists of accesses here, and an instruction makes the same list on
both sides but for the store of a read-modify-write, which the emulator makes a cycle late.
-/

set_option autoImplicit false

namespace Vux9k

open Emu (Peripheral Peripherals Outside Logged MmioAccess Soc Bus Retire)
open Rtl (SocTop SocIn Cpu CpuIn Device)

/-! ## The emulator's accesses -/

section

variable {π : Type} (p : Peripherals π)

/-- The cycle that an instruction fetched in `t` reads a peripheral in. -/
def readCycle (t : ℕ) : Peripheral → ℕ
  | .uart => t + 2
  | _ => t + 1

theorem log_mmioRead (addr : Word) (t : ℕ) (s : Outside (Logged π)) :
    (p.logged.mmioRead addr t s).2.periph.log =
      s.periph.log ++ (Emu.pageOf addr).toList.map fun d ↦ .read d (readCycle t d) := by
  unfold Peripherals.mmioRead Emu.pageOf
  split
  · rfl
  · rfl
  · rfl
  · exact (List.append_nil _).symm

theorem log_mmioWrite (addr data : Word) (edge : ℕ) (s : Outside (Logged π)) :
    (p.logged.mmioWrite addr data edge s).periph.log =
      s.periph.log ++ (Emu.pageOf addr).toList.map (.write · edge) := by
  unfold Peripherals.mmioWrite Emu.pageOf
  split
  · rfl
  · rfl
  · rfl
  · exact (List.append_nil _).symm

theorem log_rvLoadWait (addr : Word) (s : Outside (Logged π)) :
    (Peripherals.rvLoadWait addr s).2.periph = s.periph := rfl

theorem log_rvReadWord (addr : Word) (t : ℕ) (s : Outside (Logged π)) :
    (p.logged.rvReadWord addr t s).2.periph.log =
      s.periph.log ++ (Emu.rvPeripheral addr).toList.map fun d ↦ .read d (readCycle t d) := by
  unfold Peripherals.rvReadWord Emu.rvPeripheral
  generalize (addr >>> 28).toNat = region
  rcases region with _ | _ | _ | _ | _ | region
  · exact (List.append_nil _).symm
  · exact (List.append_nil _).symm
  · rfl
  · exact (List.append_nil _).symm
  · exact log_mmioRead p addr t s
  · exact (List.append_nil _).symm

theorem log_rvWrite (addr data : Word) (be : BitVec 4) (t : ℕ) (s : Outside (Logged π)) :
    (p.logged.rvWrite addr data be t s).2.periph.log =
      s.periph.log ++ (Emu.rvPeripheral addr).toList.map (.write · (t + 2)) := by
  unfold Peripherals.rvWrite Emu.rvPeripheral
  split
  · rfl
  · exact log_mmioWrite p addr data (t + 2) s
  · exact (List.append_nil _).symm

theorem log_hackRead (a : Word) (t : ℕ) (s : Outside (Logged π)) :
    (p.logged.hackRead a t s).2.periph.log =
      s.periph.log ++ (Emu.hackPeripheral a).toList.map fun d ↦ .read d (readCycle t d) := by
  unfold Peripherals.hackRead Emu.hackPeripheral
  dsimp only
  split
  · exact log_mmioRead p _ t s
  · exact (List.append_nil _).symm

theorem log_hackWrite (a v : Word) (edge : ℕ) (s : Outside (Logged π)) :
    (p.logged.hackWrite a v edge s).2.periph.log =
      s.periph.log ++ (Emu.hackPeripheral a).toList.map (.write · edge) := by
  unfold Peripherals.hackWrite Emu.hackPeripheral
  dsimp only
  split
  · exact log_mmioWrite p _ v edge s
  · exact (List.append_nil _).symm

end

/-! ### An RV32 instruction -/

section

variable {σ : Type} (e : Soc σ) (i : Word) (irq : Option Word)

/-- The address of a load, a store or an A-extension instruction. -/
def rvAddr : Word :=
  match Emu.op i with
  | .load => e.regs (Emu.rs1 i) + Emu.immI i
  | .store => e.regs (Emu.rs1 i) + Emu.immS i
  | _ => e.regs (Emu.rs1 i)

/-- The instruction is executed: there is no interrupt, and it is legal. -/
def rvExecutes : Bool :=
  irq.isNone && !Emu.rvIllegal i ⟨e.mExt, e.csr.user, e.csr.mstatus &&& Emu.mstatusTw ≠ 0#32⟩

/-- It reads data. -/
def rvReads : Bool :=
  rvExecutes e i irq &&
    match Emu.op i with
    | .load => !Emu.misaligned (rvAddr e i) (Emu.funct3 i)
    | .amo => rvAddr e i &&& 3#32 = 0#32 && Emu.amoOp i ≠ some .sc
    | _ => false

/-- It stores. -/
def rvStores : Bool :=
  rvExecutes e i irq &&
    match Emu.op i with
    | .store => !Emu.misaligned (rvAddr e i) (Emu.funct3 i)
    | .amo => rvAddr e i &&& 3#32 = 0#32 && Emu.amoOp i ≠ some .lr &&
        (Emu.amoOp i ≠ some .sc || e.reservation = some (rvAddr e i))
    | _ => false

end

/-! ## What an address selects -/

/-- What the emulator calls a block of the RTL that is a peripheral. -/
def peripheralOf : Device → Option Peripheral
  | .uart => some .uart
  | .timer => some .clint
  | .sd => some .sd
  | .gpio => some .gpio
  | .rom | .xmem => none

theorem toNat_region (addr : Word) : (addr >>> 28).toNat = (addr.extractLsb' 28 4).toNat := by
  simp only [BitVec.toNat_ushiftRight, BitVec.extractLsb'_toNat]
  have := addr.isLt
  omega

theorem toNat_page (addr : Word) :
    (addr >>> 12 &&& 0xF#32).toNat = (addr.extractLsb' 12 4).toNat := by
  simp only [BitVec.toNat_and, BitVec.toNat_ushiftRight, BitVec.extractLsb'_toNat,
    BitVec.toNat_ofNat]
  exact Nat.and_two_pow_sub_one_eq_mod _ 4

/-- The decoder's RV32 map is the emulator's. -/
theorem decode_rv (addr : Word) :
    (Rtl.decode false addr).bind peripheralOf = Emu.rvPeripheral addr := by
  unfold Rtl.decode Emu.rvPeripheral Emu.pageOf
  rw [if_neg Bool.false_ne_true, toNat_region, toNat_page]
  generalize addr.extractLsb' 28 4 = region
  generalize addr.extractLsb' 12 4 = page
  revert region page
  decide

theorem and_nibble (a : Word) (m : BitVec 4) :
    a &&& 0xFFFF#32 &&& m.setWidth 32 = (a.extractLsb' 0 4 &&& m).setWidth 32 := by
  apply BitVec.eq_of_getLsbD_eq
  intro j hj
  simp only [BitVec.getLsbD_and, BitVec.getLsbD_setWidth, BitVec.getLsbD_extractLsb', zero_add]
  by_cases h4 : j < 4
  · interval_cases j <;> simp
  · simp [BitVec.getLsbD_of_ge m j (by omega)]

theorem extract_nibble (a : Word) : a.extractLsb' 2 2 = (a.extractLsb' 0 4).extractLsb' 2 2 := by
  apply BitVec.eq_of_getLsbD_eq
  intro j hj
  interval_cases j <;> simp

/-- Only the last four bits of an address of the area matter. -/
theorem hackMmio_nibble (a : Word) :
    Emu.hackMmio (a &&& 0xFFFF#32) = Emu.hackMmio ((a.extractLsb' 0 4).setWidth 32) := by
  have h3 : a &&& 0xFFFF#32 &&& 3#32 = (a.extractLsb' 0 4 &&& 3#4).setWidth 32 := and_nibble a 3#4
  have hC : a &&& 0xFFFF#32 &&& 0xC#32 = (a.extractLsb' 0 4 &&& 0xC#4).setWidth 32 :=
    and_nibble a 0xC#4
  have hF : a &&& 0xFFFF#32 &&& 0xF#32 = (a.extractLsb' 0 4 &&& 0xF#4).setWidth 32 :=
    and_nibble a 0xF#4
  rw [Emu.hackMmio, h3, hC, hF]
  generalize a.extractLsb' 0 4 = low
  revert low
  decide

theorem pageOf_hackMmio (a : Word) : Emu.pageOf (Emu.hackMmio (a &&& 0xFFFF#32)) =
    if a.extractLsb' 2 2 = 0b00#2 then some .uart else some .gpio := by
  rw [hackMmio_nibble, extract_nibble]
  generalize a.extractLsb' 0 4 = low
  revert low
  decide

theorem hackInMmio_eq (a : Word) :
    Emu.hackInMmio (a &&& 0xFFFF#32) = decide (a.extractLsb' 4 12 = 0x600#12) := by
  have ha : (a &&& 0xFFFF#32).toNat = a.toNat % 2 ^ 16 := by
    rw [BitVec.toNat_and]
    exact Nat.and_two_pow_sub_one_eq_mod _ 16
  rw [Emu.hackInMmio, ha, ← Bool.decide_and, decide_eq_decide, ← BitVec.toNat_inj,
    BitVec.extractLsb'_toNat, Nat.shiftRight_eq_div_pow, BitVec.toNat_ofNat]
  omega

/-- The decoder's Hack map is the emulator's. -/
theorem decode_hack (a : Word) : (Rtl.decode true a).bind peripheralOf = Emu.hackPeripheral a := by
  unfold Rtl.decode Emu.hackPeripheral
  dsimp only
  rw [if_pos rfl, hackInMmio_eq, pageOf_hackMmio]
  simp only [decide_eq_true_eq]
  split
  · split <;> rfl
  · split <;> rfl

/-! ## The accesses of an instruction -/

section

variable {π : Type} (p : Peripherals π) (e : Soc (Outside (Logged π))) (i : Word)
  (irq : Option Word)

theorem writeRd_mem {σ : Type} (s : Soc σ) (rd : BitVec 5) (v : Word) (r : Retire) :
    (s.writeRd rd v r).1.mem = s.mem := by
  unfold Soc.writeRd
  split <;> rfl

theorem execCsr_log (r : Retire) :
    (e.execCsr p.logged.bus i r).2.1.mem.periph.log = e.mem.periph.log := by
  unfold Soc.execCsr
  dsimp only
  rw [writeRd_mem]
  split
  · split <;> rfl
  · rfl

/-- The accesses of an instruction fetched in `t`, at an address. -/
def accessesAt (d : Option Peripheral) (reads stores : Bool) (t edge : ℕ) : List MmioAccess :=
  d.toList.flatMap fun d ↦
    (if reads then [.read d (readCycle t d)] else []) ++ if stores then [.write d edge] else []

theorem accessesAt_none (d : Option Peripheral) (t edge : ℕ) :
    accessesAt d false false t edge = [] := by
  cases d <;> rfl

theorem inXmem_of_peripheral {addr : Word} {d : Peripheral} (h : Emu.rvPeripheral addr = some d)
    (m : Emu.Memories) : m.inXmem addr = false := by
  rw [Emu.Memories.inXmem, Bool.and_eq_false_iff]
  refine .inl (decide_eq_false fun h8 ↦ ?_)
  rw [Emu.rvPeripheral, h8] at h
  cases h

theorem loadWait_of_peripheral {addr : Word} {d : Peripheral} (h : Emu.rvPeripheral addr = some d)
    (s : Outside (Logged π)) : Peripherals.rvLoadWait addr s = (0, s) := by
  rw [Peripherals.rvLoadWait, Emu.Window.rvLoadWait, inXmem_of_peripheral h,
    if_neg Bool.false_ne_true]

theorem writeWait_of_peripheral {addr : Word} {d : Peripheral} (h : Emu.rvPeripheral addr = some d)
    (data : Word) (be : BitVec 4) (t : ℕ) (s : Outside (Logged π)) :
    (p.logged.rvWrite addr data be t s).1 = 0 := by
  unfold Peripherals.rvWrite
  split
  · rfl
  · rfl
  · rw [Emu.Window.rvWrite, inXmem_of_peripheral h, if_neg Bool.false_ne_true]

theorem log_read (addr : Word) (t edge : ℕ) (s : Outside (Logged π)) :
    (p.logged.rvReadWord addr t (Peripherals.rvLoadWait addr s).2).2.periph.log =
      s.periph.log ++ accessesAt (Emu.rvPeripheral addr) true false t edge := by
  rw [log_rvReadWord, log_rvLoadWait]
  cases Emu.rvPeripheral addr <;> rfl

theorem log_write (addr data : Word) (be : BitVec 4) (t : ℕ) (s : Outside (Logged π)) :
    (p.logged.rvWrite addr data be t s).2.periph.log =
      s.periph.log ++ accessesAt (Emu.rvPeripheral addr) false true t (t + 2) := by
  rw [log_rvWrite]
  cases Emu.rvPeripheral addr <;> rfl

/-- The accesses of a read-modify-write: the read does not wait, but `rv_write` adds its two cycles
to the cycle after it. -/
theorem log_rmw (addr : Word) (new : Word → Word) (t : ℕ) (s : Outside (Logged π)) :
    (p.logged.rvWrite addr (new (p.logged.rvReadWord addr t (Peripherals.rvLoadWait addr s).2).1)
        0b1111#4 (t + (3 + (Peripherals.rvLoadWait addr s).1))
        (p.logged.rvReadWord addr t (Peripherals.rvLoadWait addr s).2).2).2.periph.log =
      s.periph.log ++ accessesAt (Emu.rvPeripheral addr) true true t (t + 5) := by
  rw [log_rvWrite, log_rvReadWord, log_rvLoadWait]
  cases h : Emu.rvPeripheral addr with
  | none => simp [accessesAt]
  | some d =>
    rw [loadWait_of_peripheral h]
    simp [accessesAt]

theorem misaligned_of_execAmo {σ : Type} (bus : Bus σ) (e : Soc σ) (i : Word) (r : Retire)
    {cause : Word}
    (h : e.execAmo bus i r = .inl cause) : e.regs (Emu.rs1 i) &&& 3#32 ≠ 0#32 := by
  intro hal
  unfold Soc.execAmo at h
  dsimp only at h
  rw [if_neg (by simpa using hal)] at h
  repeat' split at h
  all_goals cases h

theorem log_execAmo (r : Retire) {q : Soc (Outside (Logged π)) × Retire}
    (h : e.execAmo p.logged.bus i r = .inr q) : e.regs (Emu.rs1 i) &&& 3#32 = 0#32 ∧
    q.1.mem.periph.log = e.mem.periph.log ++
      accessesAt (Emu.rvPeripheral (e.regs (Emu.rs1 i))) (Emu.amoOp i ≠ some .sc)
        (Emu.amoOp i ≠ some .lr &&
          (Emu.amoOp i ≠ some .sc || e.reservation = some (e.regs (Emu.rs1 i)))) e.cycle
        (if Emu.amoOp i = some .sc then e.cycle + 2 else e.cycle + 5) := by
  unfold Soc.execAmo at h
  dsimp only at h
  split at h
  · cases h
  rename_i hal
  refine ⟨by simpa using hal, ?_⟩
  set addr := e.regs (Emu.rs1 i)
  have hrmw := fun new ↦ log_rmw p addr new e.cycle e.mem
  rcases hop : Emu.amoOp i with _ | a <;> rw [hop] at h
  · cases h
    rw [writeRd_mem]
    exact hrmw fun old ↦ Emu.amoValue _ old (e.regs (Emu.rs2 i))
  · cases a with
    | sc =>
      by_cases hres : e.reservation = some addr
      · rw [if_pos hres] at h
        cases h
        rw [writeRd_mem]
        refine (log_write p addr (e.regs (Emu.rs2 i)) 0b1111#4 e.cycle e.mem).trans ?_
        simp [hres]
      · rw [if_neg hres] at h
        cases h
        rw [writeRd_mem]
        simp [hres, accessesAt_none]
    | lr =>
      cases h
      rw [writeRd_mem]
      exact log_read p addr e.cycle (e.cycle + 5) e.mem
    | _ =>
      cases h
      rw [writeRd_mem]
      exact hrmw fun old ↦ Emu.amoValue _ old (e.regs (Emu.rs2 i))

theorem retire_mem {σ : Type} (s : Soc σ) (next : Word) (counts : Bool) (r : Retire) :
    (s.retire next counts r).1.mem = s.mem := rfl

/-- **The accesses of `step_rv`.** -/
theorem log_stepRv : (e.stepRv p.logged.bus i irq .default).1.mem.periph.log =
    e.mem.periph.log ++ accessesAt (Emu.rvPeripheral (rvAddr e i)) (rvReads e i irq)
      (rvStores e i irq) e.cycle (if rvReads e i irq then e.cycle + 5 else e.cycle + 2) := by
  have hquiet : rvReads e i irq = false → rvStores e i irq = false →
      ∀ m : Outside (Logged π), m.periph.log = e.mem.periph.log → m.periph.log =
        e.mem.periph.log ++ accessesAt (Emu.rvPeripheral (rvAddr e i)) (rvReads e i irq)
          (rvStores e i irq) e.cycle (if rvReads e i irq then e.cycle + 5 else e.cycle + 2) := by
    intro hr hs m hm
    rw [hr, hs, accessesAt_none, List.append_nil, hm]
  unfold Soc.stepRv
  cases irq with
  | some cause => exact hquiet rfl rfl _ rfl
  | none =>
    dsimp only
    cases hill : Emu.rvIllegal i ⟨e.mExt, e.csr.user, e.csr.mstatus &&& Emu.mstatusTw ≠ 0#32⟩ with
    | true =>
      rw [if_pos rfl]
      have hexec : rvExecutes e i none = false := by rw [rvExecutes, hill]; rfl
      exact hquiet (by simp [rvReads, hexec]) (by simp [rvStores, hexec]) _ rfl
    | false =>
      rw [if_neg Bool.false_ne_true]
      have hexec : rvExecutes e i none = true := by rw [rvExecutes, hill]; rfl
      cases hop : Emu.op i with
      | load =>
        have haddr : rvAddr e i = e.regs (Emu.rs1 i) + Emu.immI i := by rw [rvAddr, hop]
        have hstores : rvStores e i none = false := by
          rw [rvStores, hop, Bool.and_false]
        have hreads : rvReads e i none = !Emu.misaligned (rvAddr e i) (Emu.funct3 i) := by
          rw [rvReads, hexec, hop, Bool.true_and]
        dsimp only
        rw [← haddr]
        split
        · rename_i hmis
          exact hquiet (by rw [hreads, hmis]; rfl) hstores _ rfl
        · rename_i hmis
          rw [retire_mem, writeRd_mem, hreads, hstores, Bool.eq_false_of_not_eq_true hmis]
          exact log_read p (rvAddr e i) e.cycle (e.cycle + 5) e.mem
      | store =>
        have haddr : rvAddr e i = e.regs (Emu.rs1 i) + Emu.immS i := by rw [rvAddr, hop]
        have hreads : rvReads e i none = false := by
          rw [rvReads, hop, Bool.and_false]
        have hstores : rvStores e i none = !Emu.misaligned (rvAddr e i) (Emu.funct3 i) := by
          rw [rvStores, hexec, hop, Bool.true_and]
        dsimp only
        rw [← haddr]
        split
        · rename_i hmis
          exact hquiet hreads (by rw [hstores, hmis]; rfl) _ rfl
        · rename_i hmis
          rw [retire_mem, hreads, hstores, Bool.eq_false_of_not_eq_true hmis]
          exact log_write p (rvAddr e i) _ _ e.cycle e.mem
      | amo =>
        have haddr : rvAddr e i = e.regs (Emu.rs1 i) := by rw [rvAddr, hop]
        dsimp only
        split
        · rename_i cause hamo
          have hmis := misaligned_of_execAmo _ e i _ hamo
          rw [← haddr] at hmis
          exact hquiet (by simp [rvReads, hop, hmis]) (by simp [rvStores, hop, hmis]) _ rfl
        · rename_i q r hamo
          obtain ⟨hal, hlog⟩ := log_execAmo p e i _ hamo
          rw [← haddr] at hal hlog
          have hreads : rvReads e i none = decide (Emu.amoOp i ≠ some .sc) := by
            rw [rvReads, hexec, hop, hal]
            rfl
          have hstores : rvStores e i none = (decide (Emu.amoOp i ≠ some .lr) &&
              (decide (Emu.amoOp i ≠ some .sc) || decide (e.reservation = some (rvAddr e i)))) := by
            rw [rvStores, hexec, hop, hal]
            rfl
          rw [retire_mem, hreads, hstores]
          refine hlog.trans ?_
          by_cases hsc : Emu.amoOp i = some .sc
          · simp [hsc]
          · simp [hsc]
      | system =>
        dsimp only
        refine hquiet (by rw [rvReads, hop, Bool.and_false]) (by rw [rvStores, hop, Bool.and_false])
          _ ?_
        repeat' split
        all_goals first
          | rfl
          | exact execCsr_log p e i _
      | _ =>
        dsimp only
        refine hquiet (by rw [rvReads, hop, Bool.and_false]) (by rw [rvStores, hop, Bool.and_false])
          _ ?_
        repeat' split
        all_goals first
          | rfl
          | rw [retire_mem, writeRd_mem]

theorem cycles_execAmo (r : Retire) {d : Peripheral}
    (hd : Emu.rvPeripheral (e.regs (Emu.rs1 i)) = some d) {q : Soc (Outside (Logged π)) × Retire}
    (h : e.execAmo p.logged.bus i r = .inr q) : q.2.cycles =
      if Emu.amoOp i = some .sc then
        if e.reservation = some (e.regs (Emu.rs1 i)) then 3 else 2
      else if Emu.amoOp i = some .lr then 3
      else 5 := by
  unfold Soc.execAmo at h
  dsimp only at h
  split at h
  · cases h
  set addr := e.regs (Emu.rs1 i)
  have hload : (p.logged.bus.loadWait addr e.mem).1 = 0 := by
    change (Peripherals.rvLoadWait addr e.mem).1 = 0
    rw [loadWait_of_peripheral hd]
  have hstore : ∀ data t s, (p.logged.bus.write addr data 0b1111#4 t s).1 = 0 := fun data t s ↦
    writeWait_of_peripheral p hd data _ t s
  rcases hop : Emu.amoOp i with _ | a <;> rw [hop] at h
  · cases h
    rw [(writeRd_snd _ _ _ _).2.1]
    dsimp only
    rw [hload, hstore]
    rfl
  · cases a with
    | sc =>
      by_cases hres : e.reservation = some addr
      · rw [if_pos hres] at h
        cases h
        rw [(writeRd_snd _ _ _ _).2.1, if_pos rfl, if_pos hres]
        dsimp only
        rw [hstore]
      · rw [if_neg hres] at h
        cases h
        rw [(writeRd_snd _ _ _ _).2.1, if_pos rfl, if_neg hres]
    | lr =>
      cases h
      rw [(writeRd_snd _ _ _ _).2.1]
      dsimp only
      rw [hload]
      rfl
    | _ =>
      cases h
      rw [(writeRd_snd _ _ _ _).2.1]
      dsimp only
      rw [hload, hstore]
      rfl

/-- An access of a peripheral waits for nothing. -/
theorem cycles_stepRv {d : Peripheral} (hd : Emu.rvPeripheral (rvAddr e i) = some d)
    (h : rvReads e i irq = true ∨ rvStores e i irq = true) :
    (e.stepRv p.logged.bus i irq .default).2.cycles =
      if rvReads e i irq && rvStores e i irq then 5 else 3 := by
  have hexec : rvExecutes e i irq = true := by
    by_contra hexec
    simp [rvReads, rvStores, hexec] at h
  obtain ⟨hirq, hill⟩ := Bool.and_eq_true_iff.mp hexec
  obtain rfl := Option.isNone_iff_eq_none.mp hirq
  rw [Bool.not_eq_true'] at hill
  unfold Soc.stepRv
  dsimp only
  rw [if_neg (by rw [hill]; exact Bool.false_ne_true)]
  cases hop : Emu.op i with
  | load =>
    have haddr : rvAddr e i = e.regs (Emu.rs1 i) + Emu.immI i := by rw [rvAddr, hop]
    have hmis : Emu.misaligned (rvAddr e i) (Emu.funct3 i) = false := by
      simpa [rvReads, rvStores, hexec, hop] using h
    dsimp only
    rw [← haddr, hmis, if_neg Bool.false_ne_true, retire_writeRd, (writeRd_snd _ _ _ _).2.1]
    change 3 + (Peripherals.rvLoadWait (rvAddr e i) e.mem).1 = _
    rw [loadWait_of_peripheral hd]
    simp [rvStores, hop]
  | store =>
    have haddr : rvAddr e i = e.regs (Emu.rs1 i) + Emu.immS i := by rw [rvAddr, hop]
    have hmis : Emu.misaligned (rvAddr e i) (Emu.funct3 i) = false := by
      simpa [rvReads, rvStores, hexec, hop] using h
    dsimp only
    rw [← haddr, hmis, if_neg Bool.false_ne_true]
    change 3 + (p.logged.rvWrite (rvAddr e i) _ _ _ _).1 = _
    rw [writeWait_of_peripheral p hd]
    simp [rvReads, hop]
  | amo =>
    have haddr : rvAddr e i = e.regs (Emu.rs1 i) := by rw [rvAddr, hop]
    have hal : rvAddr e i &&& 3#32 = 0#32 := by
      by_contra hal
      simp [rvReads, rvStores, hexec, hop, hal] at h
    have hreads : rvReads e i none = decide (Emu.amoOp i ≠ some .sc) := by
      rw [rvReads, hexec, hop, hal]
      rfl
    have hstores : rvStores e i none = (decide (Emu.amoOp i ≠ some .lr) &&
        (decide (Emu.amoOp i ≠ some .sc) || decide (e.reservation = some (rvAddr e i)))) := by
      rw [rvStores, hexec, hop, hal]
      rfl
    rw [hreads, hstores] at h ⊢
    rw [haddr] at hd hal h ⊢
    dsimp only
    rcases hamo : e.execAmo p.logged.bus i { Retire.default with cycles := 2 } with cause | q
    · exact absurd hal (misaligned_of_execAmo _ e i _ hamo)
    · have hcycles := cycles_execAmo p e i _ hd hamo
      refine hcycles.trans ?_
      by_cases hsc : Emu.amoOp i = some .sc
      · have hres : e.reservation = some (e.regs (Emu.rs1 i)) := by simpa [hsc] using h
        simp [hsc, hres]
      · by_cases hlr : Emu.amoOp i = some .lr
        · simp [hlr]
        · simp [hsc, hlr]
  | _ => simp [rvReads, rvStores, hop] at h

/-! ### A Hack instruction -/

theorem hackRead_of_peripheral {a : Word} {d : Peripheral} (h : Emu.hackPeripheral a = some d)
    (t : ℕ)
    (s : Outside (Logged π)) : (p.logged.hackRead a t s).1.2 = 0 := by
  unfold Emu.hackPeripheral at h
  unfold Peripherals.hackRead
  dsimp only at h ⊢
  split
  · rfl
  · rename_i hm
    rw [if_neg hm] at h
    cases h

theorem hackWrite_of_peripheral {a : Word} {d : Peripheral} (h : Emu.hackPeripheral a = some d)
    (v : Word) (edge : ℕ) (s : Outside (Logged π)) : (p.logged.hackWrite a v edge s).1 = 0 := by
  unfold Emu.hackPeripheral at h
  unfold Peripherals.hackWrite
  dsimp only at h ⊢
  split
  · rfl
  · rename_i hm
    rw [if_neg hm] at h
    cases h

/-- **The accesses of `step_hack`**, and how long it takes if it has any. -/
theorem log_stepHack {op : Rtl.HackOp} (hop : op = Rtl.hackTranslator (Soc.hackIns e.pc i)) :
    (e.stepHack p.logged.bus i .default).1.mem.periph.log =
      e.mem.periph.log ++ accessesAt (Emu.hackPeripheral (e.regs 1#5)) op.useMem op.weMem e.cycle
        (if op.useMem then e.cycle + 3 else e.cycle + 1) ∧
    ((Emu.hackPeripheral (e.regs 1#5)).isSome = true →
      (e.stepHack p.logged.bus i .default).2.cycles =
      2 + (if op.useMem then 2 else 0) + if op.weRegA && op.weRegD then 1 else 0) := by
  obtain ⟨y, w, mem, hread⟩ : ∃ y w mem, (if op.useMem then
      p.logged.bus.hackRead (e.regs 1#5) e.cycle e.mem else ((e.regs 1#5, 0), e.mem)) =
        ((y, w), mem) := ⟨_, _, _, rfl⟩
  obtain ⟨v, mem', hwrite⟩ : ∃ v mem', (if op.weMem then p.logged.bus.hackWrite (e.regs 1#5)
      (hackAlu op (e.regs 2#5) y) (if op.useMem then e.cycle + 3 + w else e.cycle + 1) mem
        else (0, mem)) = (v, mem') := ⟨_, _, rfl⟩
  obtain ⟨hstate, -, hcycles⟩ := stepHack_eq p.logged.bus e i hop hread rfl hwrite
  have hmem : mem.periph.log = e.mem.periph.log ++ (Emu.hackPeripheral (e.regs 1#5)).toList.flatMap
      fun d ↦ if op.useMem then [.read d (readCycle e.cycle d)] else [] := by
    cases hu : op.useMem with
    | false =>
      rw [hu, if_neg Bool.false_ne_true] at hread
      cases hread
      simp
    | true =>
      rw [hu, if_pos rfl] at hread
      have hlog := log_hackRead p (e.regs 1#5) e.cycle e.mem
      rw [show p.logged.hackRead (e.regs 1#5) e.cycle e.mem = _ from hread] at hlog
      rw [hlog]
      cases Emu.hackPeripheral (e.regs 1#5) <;> rfl
  have hwait : (Emu.hackPeripheral (e.regs 1#5)).isSome = true → w = 0 ∧ v = 0 := by
    intro hd
    obtain ⟨d, hd⟩ := Option.isSome_iff_exists.mp hd
    constructor
    · have hw := congrArg (fun q ↦ q.1.2) hread
      cases hu : op.useMem with
      | false =>
        rw [hu, if_neg Bool.false_ne_true] at hw
        exact hw.symm
      | true =>
        rw [hu, if_pos rfl] at hw
        exact hw.symm.trans (hackRead_of_peripheral p hd e.cycle e.mem)
    · have hv := congrArg Prod.fst hwrite
      cases hm : op.weMem with
      | false =>
        rw [hm, if_neg Bool.false_ne_true] at hv
        exact hv.symm
      | true =>
        rw [hm, if_pos rfl] at hv
        exact hv.symm.trans (hackWrite_of_peripheral p hd _ _ _)
  refine ⟨?_, fun hd ↦ ?_⟩
  · rw [hstate]
    change mem'.periph.log = _
    cases hd : Emu.hackPeripheral (e.regs 1#5) with
    | none =>
      rw [hd] at hmem
      have hmem' : mem'.periph.log = mem.periph.log := by
        cases hm : op.weMem with
        | false =>
          rw [hm, if_neg Bool.false_ne_true] at hwrite
          cases hwrite
          rfl
        | true =>
          rw [hm, if_pos rfl] at hwrite
          have hlog := log_hackWrite p (e.regs 1#5) (hackAlu op (e.regs 2#5) y)
            (if op.useMem then e.cycle + 3 + w else e.cycle + 1) mem
          rw [show p.logged.hackWrite (e.regs 1#5) _ _ mem = _ from hwrite, hd] at hlog
          simpa using hlog
      rw [hmem', hmem]
      rfl
    | some d =>
      obtain ⟨rfl, -⟩ := hwait (by rw [hd]; rfl)
      rw [hd] at hmem
      cases hm : op.weMem with
      | false =>
        rw [hm, if_neg Bool.false_ne_true] at hwrite
        cases hwrite
        rw [hmem]
        simp [accessesAt]
      | true =>
        rw [hm, if_pos rfl] at hwrite
        have hlog := log_hackWrite p (e.regs 1#5) (hackAlu op (e.regs 2#5) y)
          (if op.useMem then e.cycle + 3 + 0 else e.cycle + 1) mem
        rw [show p.logged.hackWrite (e.regs 1#5) _ _ mem = _ from hwrite, hd, hmem] at hlog
        rw [hlog]
        simp [accessesAt]
  · obtain ⟨rfl, rfl⟩ := hwait hd
    rw [hcycles]
    cases op.useMem <;> rfl

end

end Vux9k

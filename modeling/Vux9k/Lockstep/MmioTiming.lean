import Vux9k.Lockstep.MmioCycles
import Vux9k.Rtl.SoftReset

/-!
# The cycles of the RTL's MMIO accesses, one by one

Which cycle an instruction reads a peripheral in, and which one it writes it in, follow from the
states of the CPU: MEM_WAIT for what RV32 loads and stores, MEM_WAIT after AMO_CALC for the store of
a read-modify-write, EXECUTE or HACK_WB for what Hack writes.
-/

set_option autoImplicit false

namespace Vux9k

open Emu (Peripheral MmioAccess)
open Rtl (SocTop SocIn Cpu CpuIn Device)
open Rtl.SocTop (run Reachable Instruction)

section

variable {inp : ℕ → SocIn} {s : SocTop} {m n : ℕ}

/-- The inputs that the CPU has in a run of `soc_top`. -/
def cpuInputs (inp : ℕ → SocIn) (s : SocTop) (k : ℕ) : CpuIn := (run inp s k).cpuIn (inp k)

theorem cpu_run (inp : ℕ → SocIn) (s : SocTop) (a k : ℕ) : (run inp s (a + k)).cpu =
    Cpu.run (fun k ↦ cpuInputs inp s (a + k)) (run inp s a).cpu k := by
  induction k with
  | zero => rfl
  | succ k ih =>
    rw [← Nat.add_assoc, run, SocTop.tick_cpu, ih]
    rfl

theorem softRst_of_running (inp : ℕ → SocIn) (hs : Reachable s) {k : ℕ}
    (hf : (run inp s k).cpu.state ≠ .fetch)
    (hd : (run inp s k).cpu.state ≠ .hackWrD) : (cpuInputs inp s k).softRst = false := by
  by_contra hsoft
  rw [Bool.not_eq_false] at hsoft
  rcases (hs.run inp k).inv.softRst hsoft with h | h
  · exact hf h
  · exact hd h

/-- A peripheral keeps no one waiting. -/
theorem ready_of_selects (h : Instruction inp s m n) {d : Peripheral}
    (hd : selects (run inp s (m + 1)).cpu = some d) {k : ℕ} (hmk : m < k) (hkn : k < n)
    (haddr : (run inp s k).cpu.dataWaddr = (run inp s (m + 1)).cpu.dataAddr) :
    (run inp s k).dataReady (inp k) = true := by
  have hwsel : ((run inp s k).wsel).bind peripheralOf = some d := by
    rw [SocTop.wsel, haddr, h.isRiscvMode hmk hkn]
    exact hd
  obtain ⟨dev, hdev, hof⟩ := Option.bind_eq_some_iff.mp hwsel
  refine SocTop.dataReady_of_wsel hdev ?_
  rintro rfl
  cases hof

/-- An instruction's accesses, if it reads two cycles after its last FETCH and stores in cycle
`w`. -/
theorem mmioIn_eq (h : Instruction inp s m n) (hs : Reachable s)
    (hfetch : ∀ k ≤ m, (run inp s k).cpu.state = .fetch) {w : ℕ} {d : Peripheral}
    (hd : selects (run inp s (m + 1)).cpu = some d)
    (hread : (run inp s (m + 1)).cpu.dataRead = true →
      m + 2 < n ∧ (run inp s (m + 2)).memReadReq (inp (m + 2)) = true)
    (hstore : (run inp s (m + 1)).cpu.dataStore = true → m < w ∧ w < n ∧
      (run inp s w).cpu.memWrite = true ∧ (run inp s w).dataReady (inp w) = true)
    (hlater : (run inp s (m + 1)).cpu.dataRead = true → m + 2 < w) :
    mmioIn inp s n = accessesAt (some d) (run inp s (m + 1)).cpu.dataRead
      (run inp s (m + 1)).cpu.dataStore m w := by
  have hreads : ∀ k, m < k → k < n → mmioReads (run inp s k) (inp k) k =
      if (run inp s (m + 1)).cpu.dataRead && k = m + 2 then [.read d (readCycle m d)] else [] := by
    intro k hmk hkn
    rw [mmioReads_eq h hs hmk hkn, hd]
    cases hx : (run inp s (m + 1)).cpu.dataRead with
    | false =>
      rw [(h.reads hs).1 hx k hmk hkn]
      rfl
    | true =>
      obtain ⟨r, -, -, -, -, huniq⟩ := (h.reads hs).2 hx
      obtain ⟨hlt, hreq⟩ := hread hx
      by_cases hk : k = m + 2
      · subst hk
        rw [hreq]
        cases d <;> simp [sampled, readCycle]
      · have hno : (run inp s k).memReadReq (inp k) = false := by
          refine Bool.eq_false_of_not_eq_true fun hk' ↦ hk ?_
          rw [huniq k hmk hkn hk', huniq (m + 2) (by omega) hlt hreq]
        rw [hno]
        simp [hk]
  have hwrites : ∀ k, m < k → k < n → mmioWrites (run inp s k) k =
      if (run inp s (m + 1)).cpu.dataStore && k = w then [.write d w] else [] := by
    intro k hmk hkn
    rw [mmioWrites_eq h hs hmk hkn, hd]
    cases hx : (run inp s (m + 1)).cpu.dataStore with
    | false =>
      rw [(h.stores hs).1 hx k hmk hkn]
      rfl
    | true =>
      obtain ⟨r, -, -, -, -, -, huniq⟩ := (h.stores hs).2 hx
      obtain ⟨hmw, hwn, hwe, hready⟩ := hstore hx
      by_cases hk : k = w
      · subst hk
        rw [hwe, hready]
        simp
      · have hno : ((run inp s k).cpu.memWrite && (run inp s k).dataReady (inp k)) = false := by
          refine Bool.eq_false_of_not_eq_true fun hk' ↦ hk ?_
          rw [huniq k hmk hkn hk', huniq w hmw hwn (by rw [hwe, hready]; rfl)]
        rw [hno]
        simp [hk]
  have hquiet : ∀ k < n, ¬((run inp s (m + 1)).cpu.dataRead = true ∧ k = m + 2) →
      ¬((run inp s (m + 1)).cpu.dataStore = true ∧ k = w) →
      mmioReads (run inp s k) (inp k) k ++ mmioWrites (run inp s k) k = [] := by
    intro k hkn hr hw
    rcases Nat.lt_or_ge m k with hmk | hkm
    · rw [hreads k hmk hkn, hwrites k hmk hkn, if_neg (by simpa using hr),
        if_neg (by simpa using hw)]
      rfl
    · exact quiet_fetch_cycle hs (hfetch k hkm)
  have hlt := h.lt
  cases hr : (run inp s (m + 1)).cpu.dataRead with
  | false =>
    rw [hr] at hreads hquiet
    cases hw : (run inp s (m + 1)).cpu.dataStore with
    | false =>
      rw [hw] at hquiet
      rw [mmioIn_of_quiet (Nat.zero_le n) fun k _ hk ↦ hquiet k hk (by simp) (by simp)]
      rfl
    | true =>
      obtain ⟨hmw, hwn, -, -⟩ := hstore hw
      rw [hw] at hquiet hwrites
      rw [mmioIn_one hwn fun k hk hkw ↦ hquiet k hk (by simp) (by simp [hkw]), hreads w hmw hwn,
        hwrites w hmw hwn]
      simp [accessesAt]
  | true =>
    obtain ⟨hrn, -⟩ := hread hr
    have hrw := hlater hr
    rw [hr] at hreads hquiet
    cases hw : (run inp s (m + 1)).cpu.dataStore with
    | false =>
      rw [hw] at hquiet hwrites
      rw [mmioIn_one hrn fun k hk hkr ↦ hquiet k hk (by simp [hkr]) (by simp),
        hreads _ (by omega) hrn, hwrites _ (by omega) hrn]
      simp [accessesAt]
    | true =>
      obtain ⟨hmw, hwn, -, -⟩ := hstore hw
      rw [hw] at hquiet hwrites
      rw [mmioIn_two hrw hwn fun k hk hkr hkw ↦ hquiet k hk (by simp [hkr]) (by simp [hkw]),
        hreads _ (by omega) hrn, hwrites _ (by omega) hrn, hreads w hmw hwn, hwrites w hmw hwn]
      have hne : m + 2 ≠ w := by omega
      simp [accessesAt, hne, hne.symm]

/-- The last cycle of an instruction. -/
theorem end_of_fetch (h : Instruction inp s m n) {k : ℕ} (hmk : m < k) (hkn : k < n)
    (hf : (run inp s (k + 1)).cpu.state = .fetch) : n = k + 1 := by
  by_contra hne
  exact h.running (k + 1) (by omega) (by omega) hf

theorem lt_of_running (h : Instruction inp s m n) {k : ℕ} (hkn : k < n)
    (hf : (run inp s (k + 1)).cpu.state ≠ .fetch) : k + 1 < n := by
  by_contra hge
  rw [show k + 1 = n by omega] at hf
  exact hf h.ended

/-! ### RV32 -/

section

variable (h : Instruction inp s m n) (hs : Reachable s) {d : Peripheral}
  (hd : selects (run inp s (m + 1)).cpu = some d) {x : Cpu} (hxe : (run inp s (m + 1)).cpu = x)
  (hx : x.Executing) (ht : x.trap = .none)
include h hs hd hxe hx ht

/-- A load, and the load of an A-extension instruction. -/
theorem loads_in (hop : Rtl.opcode x.irReg = .load ∨
      (Rtl.opcode x.irReg = .amo ∧ x.amoIsSc = false)) :
    m + 2 < n ∧ (run inp s (m + 2)).cpu = x.loadWait ∧
      (run inp s (m + 2)).dataReady (inp (m + 2)) = true ∧
      (run inp s (m + 2)).memReadReq (inp (m + 2)) = true := by
  have hlt := h.lt
  have hsoft := softRst_of_running inp hs (k := m + 1) (by rw [h.execute]; rintro ⟨⟩)
    (by rw [h.execute]; rintro ⟨⟩)
  have hcpu : (run inp s (m + 2)).cpu = x.loadWait := by
    rw [← hx.tick_load hsoft ht hop, ← hxe]
    rfl
  have hr : x.loadWait.isRiscvMode = true := hx.riscv
  have hn : m + 2 < n := lt_of_running h hlt (by rw [hcpu]; rintro ⟨⟩)
  have hready := ready_of_selects h hd (k := m + 2) (by omega) hn (by
    rw [hcpu, hxe, Cpu.dataWaddr, Cpu.dataAddr, if_pos hx.riscv, if_pos hr]
    rfl)
  refine ⟨hn, hcpu, hready, ?_⟩
  rw [SocTop.memReadReq, Cpu.memReadReq, hcpu, if_pos hr,
    show ((run inp s (m + 2)).cpuIn (inp (m + 2))).dataReady = true from hready]
  rfl

/-- A load or an LR ends after it. -/
theorem load_ends (hop : Rtl.opcode x.irReg = .load ∨
      (Rtl.opcode x.irReg = .amo ∧ x.amoIsSc = false)) (hrmw : x.rvAmoRmw = false) : n = m + 3 := by
  obtain ⟨hn, hcpu, hready, -⟩ := loads_in h hs hd hxe hx ht hop
  have hr : x.loadWait.isRiscvMode = true := hx.riscv
  have hsoft := softRst_of_running inp hs (k := m + 2) (by rw [hcpu]; rintro ⟨⟩)
    (by rw [hcpu]; rintro ⟨⟩)
  refine end_of_fetch h (by omega) hn ?_
  have htick := Cpu.tick_mem_done (i := cpuInputs inp s (m + 2)) hr rfl hsoft hready
    (by rw [show x.loadWait.rvAmoRmw = false from hrmw]; rfl)
  rw [run, SocTop.tick_cpu, hcpu]
  exact congrArg Cpu.state htick

/-- A store, and a store-conditional with its reservation. -/
theorem stores_in (hop : Rtl.opcode x.irReg = .store ∨
      (Rtl.opcode x.irReg = .amo ∧ x.amoIsSc = true ∧ x.amoScOk = true)) :
    n = m + 3 ∧ (run inp s (m + 2)).cpu.memWrite = true ∧
      (run inp s (m + 2)).dataReady (inp (m + 2)) = true := by
  have hlt := h.lt
  have hsoft := softRst_of_running inp hs (k := m + 1) (by rw [h.execute]; rintro ⟨⟩)
    (by rw [h.execute]; rintro ⟨⟩)
  have hcpu : (run inp s (m + 2)).cpu = x.storeWait := by
    rw [← hx.tick_store hsoft ht hop, ← hxe]
    rfl
  have hr : x.storeWait.isRiscvMode = true := hx.riscv
  have hn : m + 2 < n := lt_of_running h hlt (by rw [hcpu]; rintro ⟨⟩)
  have hready := ready_of_selects h hd (k := m + 2) (by omega) hn (by
    rw [hcpu, hxe, Cpu.dataWaddr, Cpu.dataAddr, if_pos hx.riscv, if_pos hr]
    rfl)
  have hsoft' := softRst_of_running inp hs (k := m + 2) (by rw [hcpu]; rintro ⟨⟩)
    (by rw [hcpu]; rintro ⟨⟩)
  refine ⟨end_of_fetch h (by omega) hn ?_, ?_, hready⟩
  · have htick := Cpu.tick_mem_done (i := cpuInputs inp s (m + 2)) hr rfl hsoft' hready
      (Bool.and_false _)
    rw [run, SocTop.tick_cpu, hcpu]
    exact congrArg Cpu.state htick
  · rw [hcpu, Cpu.memWrite, if_pos hr]
    rfl

/-- The store of a read-modify-write comes after AMO_CALC. -/
theorem rmw_stores_in (hop : Rtl.opcode x.irReg = .amo) (hlr : x.amoIsLr = false)
    (hsc : x.amoIsSc = false) : n = m + 5 ∧ (run inp s (m + 4)).cpu.memWrite = true ∧
      (run inp s (m + 4)).dataReady (inp (m + 4)) = true := by
  obtain ⟨hn, hcpu, hready, -⟩ := loads_in h hs hd hxe hx ht (.inr ⟨hop, hsc⟩)
  have hw : Cpu.Waits (fun k ↦ cpuInputs inp s (m + 1 + (1 + k))) 0 :=
    ⟨fun k hk ↦ absurd hk (Nat.not_lt_zero k), hready⟩
  have hrmw : x.rvAmoRmw = true := by
    simp [Cpu.rvAmoRmw, Cpu.rvAmo, hop, hlr, hsc]
  have hsoft₁ := softRst_of_running inp hs (k := m + 1) (by rw [h.execute]; rintro ⟨⟩)
    (by rw [h.execute]; rintro ⟨⟩)
  have hsoft₂ := softRst_of_running inp hs (k := m + 2) (by rw [hcpu]; rintro ⟨⟩)
    (by rw [hcpu]; rintro ⟨⟩)
  have hcalc : (run inp s (m + 3)).cpu = x.amoLoaded 0 (cpuInputs inp s (m + 2)).dataIn := by
    rw [run, SocTop.tick_cpu, hcpu]
    refine (Cpu.tick_amo_loaded (y := x.loadWait) hx.riscv rfl hsoft₂ hready hrmw rfl rfl).trans ?_
    rfl
  have hsoft₃ := softRst_of_running inp hs (k := m + 3) (by rw [hcalc]; rintro ⟨⟩)
    (by rw [hcalc]; rintro ⟨⟩)
  obtain ⟨-, -, hstoring⟩ :=
    @Cpu.Executing.run_amo x hx (fun k ↦ cpuInputs inp s (m + 1 + k)) 0 ht hop hlr hsc hw
    (by
      intro k hk
      obtain rfl | rfl | rfl : k = 0 ∨ k = 1 ∨ k = 2 := by omega
      · exact hsoft₁
      · exact hsoft₂
      · exact hsoft₃)
  have hcpu₄ : (run inp s (m + 4)).cpu = x.amoStoring 0 (cpuInputs inp s (m + 2)).dataIn := by
    rw [show m + 4 = m + 1 + 3 by omega, cpu_run, hxe]
    exact hstoring
  set y := x.amoStoring 0 (cpuInputs inp s (m + 2)).dataIn
  have hr : y.isRiscvMode = true := hx.riscv
  have hn₃ : m + 3 < n := lt_of_running h hn (by rw [hcalc]; rintro ⟨⟩)
  have hn₄ : m + 4 < n := lt_of_running h hn₃ (by rw [hcpu₄]; rintro ⟨⟩)
  have hready₄ := ready_of_selects h hd (k := m + 4) (by omega) hn₄ (by
    rw [hcpu₄, hxe, Cpu.dataWaddr, Cpu.dataAddr, if_pos hx.riscv, if_pos hr]
    rfl)
  have hsoft₄ := softRst_of_running inp hs (k := m + 4) (by rw [hcpu₄]; rintro ⟨⟩)
    (by rw [hcpu₄]; rintro ⟨⟩)
  refine ⟨end_of_fetch h (by omega) hn₄ ?_, ?_, hready₄⟩
  · have htick := Cpu.tick_mem_done (i := cpuInputs inp s (m + 4)) hr rfl hsoft₄ hready₄
      (Bool.and_false _)
    rw [run, SocTop.tick_cpu, hcpu₄]
    exact congrArg Cpu.state htick
  · rw [hcpu₄, Cpu.memWrite, if_pos hr]
    rfl

end

section

variable {x : Cpu}

theorem kind_of_dataRead (hr : x.isRiscvMode = true) (h : x.dataRead = true) :
    x.trap = .none ∧ (Rtl.opcode x.irReg = .load ∨
      (Rtl.opcode x.irReg = .amo ∧ x.amoIsSc = false)) := by
  simpa [Cpu.dataRead, hr, Cpu.rvAmo] using h

theorem kind_of_dataStore (hr : x.isRiscvMode = true) (h : x.dataStore = true) :
    x.trap = .none ∧ (Rtl.opcode x.irReg = .store ∨ (Rtl.opcode x.irReg = .amo ∧
      x.amoIsLr = false ∧ (x.amoIsSc = false ∨ x.amoScOk = true))) := by
  simpa [Cpu.dataStore, hr, Cpu.rvAmo, and_assoc] using h

/-- **The cycles of an RV32 instruction's accesses of a peripheral**, and its length. -/
theorem mmioIn_rv (h : Instruction inp s m n) (hs : Reachable s)
    (hfetch : ∀ k ≤ m, (run inp s k).cpu.state = .fetch) {d : Peripheral}
    (hd : selects (run inp s (m + 1)).cpu = some d) (hxe : (run inp s (m + 1)).cpu = x)
    (hx : x.Executing) : mmioIn inp s n = accessesAt (some d) x.dataRead x.dataStore m
        (if x.dataRead then m + 4 else m + 2) ∧
      (x.dataRead = true ∨ x.dataStore = true →
        n = m + if x.dataRead && x.dataStore then 5 else 3) := by
  have hr := hx.riscv
  have hboth : x.dataRead = true → x.dataStore = true → Rtl.opcode x.irReg = .amo ∧
      x.amoIsLr = false ∧ x.amoIsSc = false := by
    intro hread hstore
    rcases (kind_of_dataRead hr hread).2 with hload | ⟨hamo, hsc⟩
    · rcases (kind_of_dataStore hr hstore).2 with hst | ⟨hamo, -⟩
      · exact absurd (hload.symm.trans hst) (by rintro ⟨⟩)
      · exact absurd (hload.symm.trans hamo) (by rintro ⟨⟩)
    · rcases (kind_of_dataStore hr hstore).2 with hst | ⟨-, hlr, -⟩
      · exact absurd (hamo.symm.trans hst) (by rintro ⟨⟩)
      · exact ⟨hamo, hlr, hsc⟩
  have honly : x.dataRead = false → x.dataStore = true → n = m + 3 ∧
      (run inp s (m + 2)).cpu.memWrite = true ∧
      (run inp s (m + 2)).dataReady (inp (m + 2)) = true := by
    intro hread hstore
    obtain ⟨ht, hkind⟩ := kind_of_dataStore hr hstore
    refine stores_in h hs hd hxe hx ht (hkind.imp id ?_)
    rintro ⟨hamo, -, hok⟩
    have hsc : x.amoIsSc = true := by
      by_contra hsc
      simp [Cpu.dataRead, hr, ht, Cpu.rvAmo, hamo, hsc] at hread
    exact ⟨hamo, hsc, hok.resolve_left (by simp [hsc])⟩
  have hrmw : x.dataRead = true → x.dataStore = true → n = m + 5 ∧
      (run inp s (m + 4)).cpu.memWrite = true ∧
      (run inp s (m + 4)).dataReady (inp (m + 4)) = true := by
    intro hread hstore
    obtain ⟨hamo, hlr, hsc⟩ := hboth hread hstore
    exact rmw_stores_in h hs hd hxe hx (kind_of_dataRead hr hread).1 hamo hlr hsc
  constructor
  · rw [← hxe]
    refine mmioIn_eq h hs hfetch hd ?_ ?_ ?_
    · intro hread
      rw [hxe] at hread
      obtain ⟨ht, hkind⟩ := kind_of_dataRead hr hread
      obtain ⟨hn, -, -, hreq⟩ := loads_in h hs hd hxe hx ht hkind
      exact ⟨hn, hreq⟩
    · intro hstore
      rw [hxe] at hstore ⊢
      cases hread : x.dataRead with
      | false =>
        obtain ⟨hn, hwe, hready⟩ := honly hread hstore
        rw [if_neg Bool.false_ne_true]
        exact ⟨by omega, by omega, hwe, hready⟩
      | true =>
        obtain ⟨hn, hwe, hready⟩ := hrmw hread hstore
        rw [if_pos rfl]
        exact ⟨by omega, by omega, hwe, hready⟩
    · intro hread
      rw [if_pos hread]
      omega
  · intro hacc
    cases hread : x.dataRead with
    | false => exact (honly hread (hacc.resolve_left (by simp [hread]))).1
    | true =>
      cases hstore : x.dataStore with
      | true => exact (hrmw hread hstore).1
      | false =>
        obtain ⟨ht, hkind⟩ := kind_of_dataRead hr hread
        refine load_ends h hs hd hxe hx ht hkind ?_
        by_contra hno
        rw [Bool.not_eq_false] at hno
        simp only [Cpu.rvAmoRmw, Cpu.rvAmo, Bool.and_eq_true, decide_eq_true_eq,
          Bool.not_eq_true'] at hno
        simp [Cpu.dataStore, hr, ht, Cpu.rvAmo, hno] at hstore

end

/-! ### Hack -/

section

variable {x y : Cpu} {d : Peripheral}

/-- From the cycle that a Hack instruction ends in, but for a D after A. -/
theorem hack_ends_in (h : Instruction inp s m n) (hs : Reachable s)
    (hd : selects (run inp s (m + 1)).cpu = some d) {k : ℕ} (hmk : m < k) (hkn : k < n)
    (hy : (run inp s k).cpu = y) (hend : y.Ending)
    (haddr : y.rs2Data = (run inp s (m + 1)).cpu.dataAddr) :
    y.memWrite = y.hackOp.weMem ∧ (run inp s k).dataReady (inp k) = true ∧
      n = k + 1 + if y.hackOp.weRegA && y.hackOp.weRegD then 1 else 0 := by
  have hstate : y.state ≠ .fetch ∧ y.state ≠ .hackWrD := by
    rcases hend.cases with ⟨-, hst, -⟩ | ⟨-, hst⟩ <;> simp [hst]
  have hsoft := softRst_of_running inp hs (k := k) (by rw [hy]; exact hstate.1)
    (by rw [hy]; exact hstate.2)
  have hready := ready_of_selects h hd hmk hkn (by
    rw [hy, Cpu.dataWaddr, hend.hack, if_neg Bool.false_ne_true, haddr])
  refine ⟨hend.memWrite, hready, ?_⟩
  have hnext : (run inp s (k + 1)).cpu.state = if y.hackDualDest then .hackWrD else .fetch := by
    rw [run, SocTop.tick_cpu, hy]
    exact congrArg Cpu.state (hend.tick_end (i := cpuInputs inp s k) hsoft fun _ ↦ hready)
  have hdual : y.hackDualDest = (y.hackOp.weRegA && y.hackOp.weRegD) := by
    rw [Cpu.hackDualDest, hend.hack]
    rfl
  rw [← hdual]
  cases hw : y.hackDualDest with
  | false => exact end_of_fetch h hmk hkn (by rw [hnext, hw]; rfl)
  | true =>
    rw [hw, if_pos rfl] at hnext
    have hlt : k + 1 < n := lt_of_running h hkn (by rw [hnext]; rintro ⟨⟩)
    refine end_of_fetch h (by omega) hlt ?_
    -- a soft reset that M has asked for leads to FETCH as well
    rw [run, SocTop.tick_cpu]
    cases hreset : (cpuInputs inp s (k + 1)).softRst with
    | true => exact Cpu.state_of_softRst hreset
    | false =>
      refine congrArg Cpu.state (Cpu.tick_hackWrD ?_ hnext hreset)
      rw [h.isRiscvMode (by omega) hlt, ← h.isRiscvMode hmk hkn, hy]
      exact hend.hack

/-- **The cycles of a Hack instruction's accesses of a peripheral**, and its length. -/
theorem mmioIn_hack (h : Instruction inp s m n) (hs : Reachable s)
    (hfetch : ∀ k ≤ m, (run inp s k).cpu.state = .fetch)
    (hd : selects (run inp s (m + 1)).cpu = some d) (hxe : (run inp s (m + 1)).cpu = x)
    (hr : x.isRiscvMode = false) :
    mmioIn inp s n = accessesAt (some d) x.hackOp.useMem x.hackOp.weMem
        m (if x.hackOp.useMem then m + 3 else m + 1) ∧
      n = m + (2 + (if x.hackOp.useMem then 2 else 0) +
        if x.hackOp.weRegA && x.hackOp.weRegD then 1 else 0) := by
  have hlt := h.lt
  have hst : x.state = .execute := hxe ▸ h.execute
  have haddr : (run inp s (m + 1)).cpu.dataAddr = x.rs2Data := by
    rw [hxe, Cpu.dataAddr, hr, if_neg Bool.false_ne_true]
  have hreads : (run inp s (m + 1)).cpu.dataRead = x.hackOp.useMem := by
    rw [hxe, Cpu.dataRead_hack hr]
  have hstores : (run inp s (m + 1)).cpu.dataStore = x.hackOp.weMem := by
    rw [hxe, Cpu.dataStore_hack hr]
  rw [← hreads, ← hstores]
  cases hu : x.hackOp.useMem with
  | false =>
    obtain ⟨hwe, hready, hn⟩ := hack_ends_in h hs hd (k := m + 1) (by omega) hlt hxe
      ⟨hr, by rw [hu, if_neg Bool.false_ne_true]; exact hst⟩ haddr.symm
    rw [hu] at hreads
    rw [hreads, if_neg Bool.false_ne_true, if_neg Bool.false_ne_true]
    refine ⟨?_, by omega⟩
    rw [← hreads]
    refine mmioIn_eq h hs hfetch hd (fun hread ↦ ?_) (fun hstore ↦ ?_) fun hread ↦ ?_
    · rw [hreads] at hread
      cases hread
    · exact ⟨by omega, hlt, by rw [hxe, hwe, ← hstores, hstore], hready⟩
    · rw [hreads] at hread
      cases hread
  | true =>
    have hsoft := softRst_of_running inp hs (k := m + 1) (by rw [h.execute]; rintro ⟨⟩)
      (by rw [h.execute]; rintro ⟨⟩)
    have hcpu : (run inp s (m + 2)).cpu = x.hackReading := by
      rw [← Cpu.hack_tick_execute hr hst hu hsoft, ← hxe]
      rfl
    have hn : m + 2 < n := lt_of_running h hlt (by rw [hcpu]; rintro ⟨⟩)
    have hready := ready_of_selects h hd (k := m + 2) (by omega) hn (by
      rw [haddr, hcpu, Cpu.dataWaddr,
        show x.hackReading.isRiscvMode = false from hr, if_neg Bool.false_ne_true]
      rfl)
    have hreq : (run inp s (m + 2)).memReadReq (inp (m + 2)) = true := by
      rw [SocTop.memReadReq, Cpu.memReadReq, hcpu,
        show x.hackReading.isRiscvMode = false from hr, if_neg Bool.false_ne_true,
        show ((run inp s (m + 2)).cpuIn (inp (m + 2))).dataReady = true from hready]
      rfl
    have hsoft₂ := softRst_of_running inp hs (k := m + 2) (by rw [hcpu]; rintro ⟨⟩)
      (by rw [hcpu]; rintro ⟨⟩)
    obtain ⟨y, hy⟩ : ∃ y, y = x.hackLoaded 0 (cpuInputs inp s (m + 2)).dataIn := ⟨_, rfl⟩
    have hcpu₃ : (run inp s (m + 3)).cpu = y := by
      rw [run, SocTop.tick_cpu, hcpu, hy]
      exact Cpu.hack_mem_ready (x := x.hackReading) hr rfl hsoft₂ hready
    have hop : y.hackOp = x.hackOp := by
      rw [hy]
      rfl
    have hn₃ : m + 3 < n := lt_of_running h hn (by rw [hcpu₃, hy]; rintro ⟨⟩)
    obtain ⟨hwe, hready₃, hlen⟩ := hack_ends_in h hs hd (k := m + 3) (by omega) hn₃ hcpu₃
      (by
        refine ⟨by rw [hy]; exact hr, ?_⟩
        rw [hop, hu, if_pos rfl, hy]
        exact ⟨rfl, rfl⟩)
      (by rw [haddr, hy]; rfl)
    rw [hop] at hwe hlen
    rw [hu] at hreads
    rw [hreads, if_pos rfl, if_pos rfl]
    refine ⟨?_, by omega⟩
    rw [← hreads]
    refine mmioIn_eq h hs hfetch hd (fun _ ↦ ⟨hn, hreq⟩) (fun hstore ↦ ?_) fun _ ↦ by omega
    exact ⟨by omega, hn₃, by rw [hcpu₃, hwe, ← hstores, hstore], hready₃⟩

end

end

end Vux9k

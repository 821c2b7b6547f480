import Vux9k.Rtl.Access
import Vux9k.Rtl.Soc

/-!
# Reading and writing the UART's data register

A read of RXTX takes a byte out of the RX FIFO and a store puts one into the TX FIFO, so it matters
that an instruction does either once.  The FIFO is popped a cycle after the address was decoded,
from the registered select and index; `Inv` says that these are still the instruction's when it
takes the word.
-/

set_option autoImplicit false

namespace Vux9k.Rtl

/-! ## One token -/

/-- Something that is there until it is used, and used by the time the run is over: it is used once,
with the value it had at first. -/
theorem token_once {β : Type} {T : ℕ → Option β} {P : ℕ → Prop} {a b : ℕ}
    (huse : ∀ k, a ≤ k → k < b → P k → (T k).isSome = true ∧ T (k + 1) = none)
    (hkeep : ∀ k, a ≤ k → k < b → ¬P k → T (k + 1) = T k) (hend : T b = none) (hab : a ≤ b) :
    (T a = none → ∀ k, a ≤ k → k < b → ¬P k) ∧
      ∀ v, T a = some v → ∃ r, a ≤ r ∧ r < b ∧ P r ∧ T r = some v ∧
        ∀ k, a ≤ k → k < b → P k → k = r := by
  have hnone : ∀ c, a ≤ c → c ≤ b → T c = none → ∀ k, c ≤ k → k < b → ¬P k ∧ T (k + 1) = none := by
    intro c hac hcb hc k hck
    induction k, hck using Nat.le_induction with
    | base =>
      intro hlt
      have hun : ¬P c := fun hu ↦ by simpa [hc] using (huse c hac hlt hu).1
      exact ⟨hun, (hkeep c hac hlt hun).trans hc⟩
    | succ k hck ih =>
      intro hlt
      obtain ⟨-, hk⟩ := ih (by omega)
      have hun : ¬P (k + 1) := fun hu ↦ by simpa [hk] using (huse (k + 1) (by omega) hlt hu).1
      exact ⟨hun, (hkeep (k + 1) (by omega) hlt hun).trans hk⟩
  refine ⟨fun h k hak hkb ↦ (hnone a le_rfl hab h k hak hkb).1, fun v hv ↦ ?_⟩
  -- up to its first use it keeps its value
  have hkept : ∀ c, a ≤ c → c ≤ b → (∀ k, a ≤ k → k < c → ¬P k) → T c = some v := by
    intro c hac
    induction c, hac using Nat.le_induction with
    | base => exact fun _ _ ↦ hv
    | succ c hac ih =>
      intro hcb hno
      rw [hkeep c hac (by omega) (hno c hac (by omega))]
      exact ih (by omega) fun k hak hkc ↦ hno k hak (by omega)
  classical
  have hex : ∃ r, a ≤ r ∧ r < b ∧ P r := by
    by_contra hno
    push Not at hno
    have := hkept b hab le_rfl fun k hak hkb ↦ hno k hak hkb
    rw [hend] at this
    cases this
  obtain ⟨⟨har, hrb, hur⟩, hfirst⟩ := Nat.find_spec hex, fun k hk ↦ Nat.find_min hex (m := k) hk
  set r := Nat.find hex
  refine ⟨r, har, hrb, hur, hkept r har hrb.le fun k hak hkr hu ↦ hfirst k hkr ⟨hak, by omega, hu⟩,
    fun k hak hkb hu ↦ ?_⟩
  rcases Nat.lt_trichotomy k r with hlt | heq | hgt
  · exact absurd ⟨hak, hkb, hu⟩ (hfirst k hlt)
  · exact heq
  · exact absurd hu (hnone (r + 1) (by omega) (by omega) (huse r har hrb hur).2 k hgt hkb).1

namespace SocTop

/-! ## The invariant -/

/-- The read address is that of the data register. -/
def selectsRxtx (c : Cpu) : Bool :=
  decode (!c.isRiscvMode) c.dataAddr = some .uart &&
    uartIdx (!c.isRiscvMode) (c.dataAddr.extractLsb' 0 8) = rxtx

/-- What holds between two clock edges. -/
structure Inv (s : SocTop) : Prop where
  requests : s.cpu.Requests
  selected : s.cpu.state = .memWait → s.cpu.readTarget ≠ none → s.last = s.sel ∧
    s.regs.lastSel = decide (s.sel = some .uart) ∧
    s.regs.lastIdx = uartIdx (!s.cpu.isRiscvMode) (s.cpu.dataAddr.extractLsb' 0 8)
  softRst : s.gpio.cpuSoftRst = true → s.cpu.state = .fetch ∨ s.cpu.state = .hackWrD
  txFifo : s.uart.txFifo.Wf
  rxFifo : s.uart.rxFifo.Wf

variable {s : SocTop} {i : SocIn}

theorem tick_cpu : (s.tick i).cpu = s.cpu.tick (s.cpuIn i) := rfl

theorem Inv.reset (registers : BitVec 5 → Word) (txMem rxMem : BitVec 5 → Byte) :
    (SocTop.reset registers txMem rxMem).Inv where
  requests := .powerOn registers
  selected := nofun
  softRst := nofun
  txFifo := .reset txMem
  rxFifo := .reset rxMem

/-- A store that is not to the window does not wait. -/
theorem dataReady_of_wsel {d : Device} (h : s.wsel = some d) (hd : d ≠ .xmem) :
    s.dataReady i = true := by
  simp [dataReady, h, hd]

/-- One clock edge of an instruction. -/
theorem Inv.accessStep (h : s.Inv) (hs : s.cpu.state ≠ .fetch) :
    Cpu.AccessStep (s.cpuIn i) s.cpu (s.tick i).cpu := by
  cases hsoft : s.gpio.cpuSoftRst with
  | false => exact Cpu.accessStep_tick h.requests hs hsoft
  | true =>
    have hwr := (h.softRst hsoft).resolve_left hs
    have hfetch : (s.tick i).cpu.state = .fetch := Cpu.state_of_softRst hsoft
    obtain ⟨-, hstore⟩ := h.requests.idle (by simp [hwr])
    refine Cpu.accessStep_quiet (by simp [Cpu.memReadReq, hwr]) ?_ ?_ ?_
    · simp [Cpu.memWrite, hwr, hstore]
    · simp [Cpu.readTarget, hwr, hfetch]
    · simp [Cpu.storeTarget, hwr, hfetch]

theorem Inv.tick (h : s.Inv) (i : SocIn) : (s.tick i).Inv where
  requests := h.requests.tick _
  selected := by
    intro hstate htarget
    have hs : s.cpu.state ≠ .fetch := by
      intro hfetch
      rcases Cpu.state_of_fetch (i := s.cpuIn i) hfetch with hf | he
      · exact absurd (hf.symm.trans hstate) nofun
      · exact absurd (he.symm.trans hstate) nofun
    have hsoft : s.gpio.cpuSoftRst = false := by
      by_contra hsoft
      rw [Bool.not_eq_false] at hsoft
      exact absurd ((Cpu.state_of_softRst hsoft).symm.trans hstate) nofun
    have hstep := h.accessStep (i := i) hs
    have hreq : s.cpu.memReadReq (s.cpuIn i) = false := by
      by_contra hreq
      exact htarget (hstep.read (by simpa using hreq)).2
    have hsame := hstep.noRead hreq
    obtain ⟨a, ha⟩ := Option.ne_none_iff_exists'.mp htarget
    have haddr : (s.tick i).cpu.dataAddr = s.cpu.dataAddr :=
      (Cpu.eq_dataAddr_of_readTarget ha).symm.trans
        (Cpu.eq_dataAddr_of_readTarget (hsame.symm.trans ha))
    have hmode : (s.tick i).cpu.isRiscvMode = s.cpu.isRiscvMode :=
      Cpu.tick_isRiscvMode_of_running hsoft
    have hsel : (s.tick i).sel = s.sel := by
      rw [sel, sel, haddr, hmode]
    rw [hsel, haddr, hmode]
    exact ⟨rfl, rfl, rfl⟩
  softRst := by
    intro hsoft
    by_cases hnow : s.gpio.cpuSoftRst = true
    · exact .inl (Cpu.state_of_softRst hnow)
    by_cases hwe : (s.cpu.memWrite && decide (s.wsel = some .gpio)) = true
    · rw [Bool.and_eq_true, decide_eq_true_iff] at hwe
      exact Cpu.state_of_store h.requests hwe.1 (dataReady_of_wsel hwe.2 nofun)
    · refine absurd ?_ hnow
      change Gpio.cpuSoftRst (Gpio.tick _ _ _ _) = true at hsoft
      rw [Gpio.tick, if_neg hwe] at hsoft
      split at hsoft
      next hne => simpa [Gpio.cpuSoftRst] using hne
      · exact hsoft
  txFifo := h.txFifo.tick _ _ _
  rxFifo := h.rxFifo.tick _ _ _

theorem Reachable.inv (h : Reachable s) : s.Inv := by
  induction h with
  | reset registers txMem rxMem => exact .reset registers txMem rxMem
  | tick i _ ih => exact ih.tick i

/-! ## What happens in a cycle -/

section

variable (s : SocTop) (i : SocIn)

/-- The byte that leaves the RX FIFO. -/
def popped : Option Byte :=
  if s.uart.rxRe (s.uartIn i).re then some s.uart.rxFifo.rdata else none

/-- The byte that the receiver puts into the RX FIFO. -/
def accepted : Option Byte := if s.uart.rxWe then some s.uart.rx.data else none

/-- The byte that a store puts into the TX FIFO. -/
def pushed : Option Byte := if s.uart.txWe (s.uartIn i).we then some (s.uartIn i).wdata else none

/-- The head of the RX FIFO. -/
def rxHead : Option Byte := s.uart.rxFifo.contents.head?

/-- The byte the CPU takes in a read of RXTX with RXEMPTY 0. -/
def received : Option Byte :=
  if s.memReadReq i && selectsRxtx s.cpu && !s.uart.rxFifo.empty then
    some ((s.cpuDataIn i).extractLsb' 0 8)
  else none

end

theorem memReadReq_state (h : s.memReadReq i = true) :
    s.cpu.state = .memWait ∧ s.cpu.readTarget ≠ none := by
  simp only [memReadReq, Cpu.memReadReq, Bool.and_eq_true, decide_eq_true_eq] at h
  refine ⟨h.1.1, ?_⟩
  have hload := h.2
  unfold Cpu.readTarget
  rw [h.1.1]
  cases hmode : s.cpu.isRiscvMode with
  | false => simp
  | true =>
    rw [hmode, if_pos rfl] at hload
    simp [hload]

/-- The pop strobe: the CPU takes a word, and its address is that of RXTX. -/
theorem Inv.rxPop (h : s.Inv) : (s.uartIn i).re = (s.memReadReq i && selectsRxtx s.cpu) := by
  change (s.memReadReq i && s.regs.lastSel && decide (s.regs.lastIdx = rxtx)) = _
  cases hreq : s.memReadReq i with
  | false => rfl
  | true =>
    obtain ⟨hstate, htarget⟩ := memReadReq_state hreq
    obtain ⟨-, hsel, hidx⟩ := h.selected hstate htarget
    rw [hsel, hidx]
    rfl

theorem rxHead_eq : s.rxHead = if s.uart.rxFifo.empty then none else some s.uart.rxFifo.rdata := by
  unfold rxHead
  cases hempty : s.uart.rxFifo.empty with
  | true => simp [Fifo.empty_iff.mp hempty]
  | false => simp [Fifo.contents_eq_cons hempty]

/-- **A pop**: when the CPU takes the word of RXTX, the head leaves the FIFO. -/
theorem Inv.popped (h : s.Inv) :
    s.popped i = if s.memReadReq i && selectsRxtx s.cpu then s.rxHead else none := by
  rw [SocTop.popped, h.rxPop, Uart.rxRe, rxHead_eq]
  cases s.memReadReq i && selectsRxtx s.cpu <;> cases s.uart.rxFifo.empty <;> rfl

/-- The word it takes is that byte. -/
theorem Inv.cpuDataIn (h : s.Inv) (hreq : s.memReadReq i = true)
    (hsel : selectsRxtx s.cpu = true) : s.cpuDataIn i = (s.rxHead.getD 0#8).setWidth 32 := by
  obtain ⟨hstate, htarget⟩ := memReadReq_state hreq
  obtain ⟨hlast, hlastSel, hlastIdx⟩ := h.selected hstate htarget
  rw [selectsRxtx, Bool.and_eq_true, decide_eq_true_iff, decide_eq_true_iff] at hsel
  have huart : s.sel = some .uart := hsel.1
  have hidx : s.regs.lastIdx = 0#6 := hlastIdx.trans hsel.2
  rw [SocTop.cpuDataIn, hlast, huart, UartRegs.rdata, hlastSel, huart, UartRegs.word, hidx,
    rxHead_eq]
  cases s.uart.rxFifo.empty <;> simp

theorem extractLsb'_setWidth (b : Byte) : (b.setWidth 32).extractLsb' 0 8 = b := by
  apply BitVec.eq_of_getLsbD_eq
  intro k hk
  simp only [BitVec.getLsbD_extractLsb', BitVec.getLsbD_setWidth, Nat.zero_add, hk, decide_true,
    Bool.true_and, Bool.and_eq_right_iff_imp, decide_eq_true_eq]
  omega

/-- So it receives what is popped. -/
theorem Inv.received (h : s.Inv) : s.received i = s.popped i := by
  rw [SocTop.received, h.popped]
  cases hreq : s.memReadReq i && selectsRxtx s.cpu with
  | false => simp
  | true =>
    rw [Bool.and_eq_true] at hreq
    rw [h.cpuDataIn hreq.1 hreq.2, rxHead_eq]
    cases s.uart.rxFifo.empty with
    | true => rfl
    | false =>
      simp only [Bool.not_false, Bool.and_true, if_true, Bool.false_eq_true, if_false,
        Option.getD_some, Option.some.injEq]
      exact extractLsb'_setWidth s.uart.rxFifo.rdata

/-- The queue of the RX FIFO. -/
theorem Inv.rxContents (h : s.Inv) (i : SocIn) :
    s.uart.rxFifo.contents ++ s.accepted.toList =
      (s.popped i).toList ++ (s.tick i).uart.rxFifo.contents := by
  change _ = _ ++ (s.uart.rxFifo.tick s.uart.rx.data s.uart.rxWe
    (s.uart.rxRe (s.uartIn i).re)).contents
  rw [Fifo.contents_tick h.rxFifo]
  have hread :
      s.uart.rxFifo.doRead (s.uart.rxRe (s.uartIn i).re) = s.uart.rxRe (s.uartIn i).re := by
    rw [Fifo.doRead_eq, Uart.rxRe, Bool.and_assoc, Bool.and_self]
  have hwrite : s.uart.rxFifo.doWrite s.uart.rxWe (s.uart.rxRe (s.uartIn i).re) = s.uart.rxWe := by
    have hfull : (decide (s.uart.rxFifo.count ≠ 2 ^ 5)) = !s.uart.rxFifo.full := by
      simp [Fifo.full]
    rw [Fifo.doWrite, hread, Uart.rxWe, hfull]
    cases s.uart.rx.rdy <;> cases s.uart.rxFifo.full <;> simp
  rw [hread, hwrite, SocTop.popped, SocTop.accepted]
  have hw : (if s.uart.rxWe then some s.uart.rx.data else none).toList =
      if s.uart.rxWe then [s.uart.rx.data] else [] := by
    cases s.uart.rxWe <;> rfl
  rw [hw]
  cases hre : s.uart.rxRe (s.uartIn i).re with
  | false => rfl
  | true =>
    have hne : s.uart.rxFifo.empty = false := by
      rw [Uart.rxRe, Bool.and_eq_true, Bool.not_eq_true'] at hre
      exact hre.2
    rw [Fifo.contents_eq_cons hne]
    rfl

/-! ## Instructions -/

/-- The bytes of the cycles `m..n`. -/
def log (f : ℕ → Option Byte) (m n : ℕ) : List Byte := (List.range' m (n - m)).filterMap f

theorem log_eq_nil {f : ℕ → Option Byte} {m n : ℕ} (h : ∀ k, m ≤ k → k < n → f k = none) :
    log f m n = [] := by
  refine List.filterMap_eq_nil_iff.mpr fun k hk ↦ ?_
  rw [List.mem_range'_1] at hk
  exact h k hk.1 (by omega)

theorem log_eq_toList {f : ℕ → Option Byte} {m n r : ℕ} (hm : m ≤ r) (hn : r < n)
    (h : ∀ k, m ≤ k → k < n → k ≠ r → f k = none) : log f m n = (f r).toList := by
  have hrange : List.range' m (n - m) =
      List.range' m (r - m) ++ (r :: List.range' (r + 1) (n - (r + 1))) := by
    rw [show n - m = (r - m) + (n - (r + 1) + 1) by omega, ← List.range'_append_1,
      Nat.add_sub_cancel' hm, List.range'_succ]
  have hbefore : (List.range' m (r - m)).filterMap f = [] := by
    refine List.filterMap_eq_nil_iff.mpr fun k hk ↦ ?_
    rw [List.mem_range'_1] at hk
    exact h k hk.1 (by omega) (by omega)
  have hafter : (List.range' (r + 1) (n - (r + 1))).filterMap f = [] := by
    refine List.filterMap_eq_nil_iff.mpr fun k hk ↦ ?_
    rw [List.mem_range'_1] at hk
    exact h k (by omega) (by omega) (by omega)
  rw [log, hrange, List.filterMap_append, hbefore, List.nil_append, List.filterMap_cons, hafter]
  cases f r <;> rfl

theorem log_succ (f : ℕ → Option Byte) (n : ℕ) :
    log f 0 (n + 1) = log f 0 n ++ (f n).toList := by
  rw [log, log, Nat.sub_zero, Nat.sub_zero, List.range'_1_concat, List.filterMap_append,
    Nat.zero_add]
  cases h : f n <;> simp [h]

variable {inp : ℕ → SocIn} {m n : ℕ}

/-- An instruction: from the last cycle of its fetch to the FETCH of the next. -/
structure Instruction (inp : ℕ → SocIn) (s : SocTop) (m n : ℕ) : Prop where
  fetch : (run inp s m).cpu.state = .fetch
  lt : m + 1 < n
  running : ∀ k, m < k → k < n → (run inp s k).cpu.state ≠ .fetch
  ended : (run inp s n).cpu.state = .fetch

/-- What there is to do for it is decided in its EXECUTE. -/
theorem Instruction.execute (h : Instruction inp s m n) :
    (run inp s (m + 1)).cpu.state = .execute :=
  (Cpu.state_of_fetch h.fetch).resolve_left (h.running (m + 1) (by omega) h.lt)

/-- The ISA does not change in it. -/
theorem Instruction.isRiscvMode (h : Instruction inp s m n) {k : ℕ} (hmk : m < k) (hkn : k < n) :
    (run inp s k).cpu.isRiscvMode = (run inp s (m + 1)).cpu.isRiscvMode := by
  induction k, hmk using Nat.le_induction with
  | base => rfl
  | succ k hmk ih =>
    rw [← ih (by omega)]
    refine Cpu.tick_isRiscvMode_of_running (i := (run inp s k).cpuIn (inp k)) ?_
    by_contra hsoft
    rw [Bool.not_eq_false] at hsoft
    exact h.running (k + 1) (by omega) hkn (Cpu.state_of_softRst hsoft)

/-- **It reads once**, if it reads at all, and at the address it had in EXECUTE. -/
theorem Instruction.reads (h : Instruction inp s m n) (hs : Reachable s) :
    ((run inp s (m + 1)).cpu.dataRead = false →
      ∀ k, m < k → k < n → (run inp s k).memReadReq (inp k) = false) ∧
    ((run inp s (m + 1)).cpu.dataRead = true → ∃ r, m < r ∧ r < n ∧
      (run inp s r).memReadReq (inp r) = true ∧
      (run inp s r).cpu.dataAddr = (run inp s (m + 1)).cpu.dataAddr ∧
      ∀ k, m < k → k < n → (run inp s k).memReadReq (inp k) = true → k = r) := by
  have hstep : ∀ k, m + 1 ≤ k → k < n →
      Cpu.AccessStep ((run inp s k).cpuIn (inp k)) (run inp s k).cpu (run inp s (k + 1)).cpu :=
    fun k hmk hkn ↦ (hs.run inp k).inv.accessStep (h.running k hmk hkn)
  obtain ⟨hnone, hsome⟩ := token_once (T := fun k ↦ (run inp s k).cpu.readTarget)
    (P := fun k ↦ (run inp s k).memReadReq (inp k) = true)
    (fun k hmk hkn hu ↦ by
      obtain ⟨h1, h2⟩ := (hstep k hmk hkn).read hu
      exact ⟨by rw [h1]; rfl, h2⟩)
    (fun k hmk hkn hu ↦ (hstep k hmk hkn).noRead (Bool.eq_false_of_not_eq_true hu))
    (by simp [Cpu.readTarget, h.ended]) h.lt.le
  rw [Cpu.readTarget_execute h.execute] at hnone hsome
  refine ⟨fun hd k hmk hkn ↦ ?_, fun hd ↦ ?_⟩
  · simpa using hnone (by simp [hd]) k hmk hkn
  · obtain ⟨r, hmr, hrn, hur, htarget, huniq⟩ := hsome _ (if_pos hd)
    exact ⟨r, hmr, hrn, hur, (Cpu.eq_dataAddr_of_readTarget htarget).symm, huniq⟩

/-- **It stores once**, if it stores at all, and at the address it had in EXECUTE. -/
theorem Instruction.stores (h : Instruction inp s m n) (hs : Reachable s) :
    ((run inp s (m + 1)).cpu.dataStore = false → ∀ k, m < k → k < n →
      ((run inp s k).cpu.memWrite && (run inp s k).dataReady (inp k)) = false) ∧
    ((run inp s (m + 1)).cpu.dataStore = true → ∃ r, m < r ∧ r < n ∧
      (run inp s r).cpu.memWrite = true ∧ (run inp s r).dataReady (inp r) = true ∧
      (run inp s r).cpu.dataWaddr = (run inp s (m + 1)).cpu.dataAddr ∧
      ∀ k, m < k → k < n →
        ((run inp s k).cpu.memWrite && (run inp s k).dataReady (inp k)) = true → k = r) := by
  have hstep : ∀ k, m + 1 ≤ k → k < n →
      Cpu.AccessStep ((run inp s k).cpuIn (inp k)) (run inp s k).cpu (run inp s (k + 1)).cpu :=
    fun k hmk hkn ↦ (hs.run inp k).inv.accessStep (h.running k hmk hkn)
  obtain ⟨hnone, hsome⟩ := token_once (T := fun k ↦ (run inp s k).cpu.storeTarget)
    (P := fun k ↦ ((run inp s k).cpu.memWrite && (run inp s k).dataReady (inp k)) = true)
    (fun k hmk hkn hu ↦ by
      obtain ⟨h1, h2⟩ := (hstep k hmk hkn).store hu
      exact ⟨by rw [h1]; rfl, h2⟩)
    (fun k hmk hkn hu ↦ (hstep k hmk hkn).noStore (Bool.eq_false_of_not_eq_true hu))
    (by simp [Cpu.storeTarget, h.ended]) h.lt.le
  rw [Cpu.storeTarget_execute h.execute] at hnone hsome
  refine ⟨fun hd k hmk hkn ↦ ?_, fun hd ↦ ?_⟩
  · exact Bool.eq_false_of_not_eq_true (hnone (by simp [hd]) k hmk hkn)
  · obtain ⟨r, hmr, hrn, hur, htarget, huniq⟩ := hsome _ (if_pos hd)
    have hwaddr := ((hstep r hmr hrn).store hur).1.symm.trans htarget
    rw [Bool.and_eq_true] at hur
    exact ⟨r, hmr, hrn, hur.1, hur.2, Option.some.inj hwaddr, huniq⟩

/-- The push strobe: a store completes, and its address is that of RXTX. -/
theorem txPush_eq : (s.uartIn i).we = (s.cpu.memWrite && s.dataReady i &&
    (decode (!s.cpu.isRiscvMode) s.cpu.dataWaddr = some .uart &&
      uartIdx (!s.cpu.isRiscvMode) (s.cpu.dataWaddr.extractLsb' 0 8) = rxtx)) := by
  change (s.cpu.memWrite && decide (s.wsel = some .uart) && decide _) = _
  by_cases hsel : s.wsel = some .uart
  · rw [dataReady_of_wsel hsel nofun, Bool.and_true, Bool.and_assoc]
    rfl
  · have hdecode : ¬decode (!s.cpu.isRiscvMode) s.cpu.dataWaddr = some .uart := hsel
    simp [hsel, hdecode]

/-- In FETCH nothing is read or stored. -/
theorem Inv.quiet_fetch (h : s.Inv) (hs : s.cpu.state = .fetch) :
    s.memReadReq i = false ∧ s.cpu.memWrite = false := by
  refine ⟨by simp [memReadReq, Cpu.memReadReq, hs], ?_⟩
  simp [Cpu.memWrite, hs, (h.requests.idle (by simp [hs])).2]

/-- The bytes that leave the RX FIFO in a run. -/
def poppedIn (inp : ℕ → SocIn) (s : SocTop) : ℕ → ℕ → List Byte :=
  log fun k ↦ (run inp s k).popped (inp k)

/-- The bytes that stores put into the TX FIFO. -/
def pushedIn (inp : ℕ → SocIn) (s : SocTop) : ℕ → ℕ → List Byte :=
  log fun k ↦ (run inp s k).pushed (inp k)

/-- The bytes that the receiver puts into the RX FIFO. -/
def acceptedIn (inp : ℕ → SocIn) (s : SocTop) : ℕ → ℕ → List Byte :=
  log fun k ↦ (run inp s k).accepted

/-- The bytes that the program reads from RXTX with RXEMPTY 0. -/
def receivedIn (inp : ℕ → SocIn) (s : SocTop) : ℕ → ℕ → List Byte :=
  log fun k ↦ (run inp s k).received (inp k)

theorem Instruction.poppedIn_of_read (h : Instruction inp s m n) (hs : Reachable s)
    (hread : (run inp s (m + 1)).cpu.dataRead = true)
    (hsel : selectsRxtx (run inp s (m + 1)).cpu = true) :
    ∃ r, m < r ∧ r < n ∧ (run inp s r).memReadReq (inp r) = true ∧
      poppedIn inp s m n = (run inp s r).rxHead.toList ∧
      (run inp s r).cpuDataIn (inp r) = ((run inp s r).rxHead.getD 0#8).setWidth 32 := by
  obtain ⟨r, hmr, hrn, hreq, haddr, huniq⟩ := (h.reads hs).2 hread
  have hselr : selectsRxtx (run inp s r).cpu = true := by
    rw [← hsel, selectsRxtx, selectsRxtx, haddr, h.isRiscvMode hmr hrn]
  have hinv := fun k ↦ (hs.run inp k).inv
  refine ⟨r, hmr, hrn, hreq, ?_, (hinv r).cpuDataIn hreq hselr⟩
  have hpop : (run inp s r).popped (inp r) = (run inp s r).rxHead := by
    rw [(hinv r).popped, hreq, hselr]
    rfl
  rw [← hpop]
  refine log_eq_toList hmr.le hrn fun k hmk hkn hne ↦ ?_
  have hreqk : (run inp s k).memReadReq (inp k) = false := by
    rcases Nat.eq_or_lt_of_le hmk with rfl | hlt
    · exact ((hinv _).quiet_fetch h.fetch).1
    · exact Bool.eq_false_of_not_eq_true fun hk ↦ hne (huniq k hlt hkn hk)
  rw [(hinv k).popped, hreqk]
  rfl

theorem Instruction.poppedIn_eq_nil (h : Instruction inp s m n) (hs : Reachable s)
    (hno : ¬((run inp s (m + 1)).cpu.dataRead = true ∧
      selectsRxtx (run inp s (m + 1)).cpu = true)) : poppedIn inp s m n = [] := by
  have hinv := fun k ↦ (hs.run inp k).inv
  refine log_eq_nil fun k hmk hkn ↦ ?_
  rw [(hinv k).popped, if_neg]
  rcases Nat.eq_or_lt_of_le hmk with rfl | hlt
  · simp [((hinv _).quiet_fetch h.fetch).1]
  rw [Bool.and_eq_true]
  rintro ⟨hreq, hsel⟩
  by_cases hread : (run inp s (m + 1)).cpu.dataRead = true
  · obtain ⟨r, hmr, hrn, -, haddr, huniq⟩ := (h.reads hs).2 hread
    obtain rfl := huniq k hlt hkn hreq
    refine hno ⟨hread, ?_⟩
    rw [← hsel, selectsRxtx, selectsRxtx, haddr, h.isRiscvMode hmr hrn]
  · have hno' := (h.reads hs).1 (Bool.eq_false_of_not_eq_true hread) k hlt hkn
    exact absurd (hno'.symm.trans hreq) nofun

/-- The store of an instruction goes to RXTX if the address it had in EXECUTE does. -/
theorem Instruction.wselects (h : Instruction inp s m n) {r : ℕ} (hmr : m < r) (hrn : r < n)
    (haddr : (run inp s r).cpu.dataWaddr = (run inp s (m + 1)).cpu.dataAddr) :
    (decode (!(run inp s r).cpu.isRiscvMode) (run inp s r).cpu.dataWaddr = some .uart &&
      uartIdx (!(run inp s r).cpu.isRiscvMode)
        ((run inp s r).cpu.dataWaddr.extractLsb' 0 8) = rxtx) =
      selectsRxtx (run inp s (m + 1)).cpu := by
  rw [haddr, h.isRiscvMode hmr hrn]
  rfl

theorem Instruction.pushedIn_of_store (h : Instruction inp s m n) (hs : Reachable s)
    (hstore : (run inp s (m + 1)).cpu.dataStore = true)
    (hsel : selectsRxtx (run inp s (m + 1)).cpu = true) :
    ∃ r, m < r ∧ r < n ∧ (run inp s r).cpu.memWrite = true ∧
      pushedIn inp s m n = if (run inp s r).uart.txFifo.full then []
        else [(run inp s r).cpu.dataOut.extractLsb' 0 8] := by
  obtain ⟨r, hmr, hrn, hwe, hready, haddr, huniq⟩ := (h.stores hs).2 hstore
  have hinv := fun k ↦ (hs.run inp k).inv
  have hwsel := (h.wselects hmr hrn haddr).trans hsel
  refine ⟨r, hmr, hrn, hwe, ?_⟩
  have hpush : (run inp s r).pushed (inp r) = if (run inp s r).uart.txFifo.full then none
      else some ((run inp s r).cpu.dataOut.extractLsb' 0 8) := by
    rw [SocTop.pushed, txPush_eq, hwe, hready, hwsel, Uart.txWe]
    cases (run inp s r).uart.txFifo.full <;> rfl
  have hlist : pushedIn inp s m n = ((run inp s r).pushed (inp r)).toList := by
    refine log_eq_toList hmr.le hrn fun k hmk hkn hne ↦ ?_
    have hwek : ((run inp s k).cpu.memWrite && (run inp s k).dataReady (inp k)) = false := by
      rcases Nat.eq_or_lt_of_le hmk with rfl | hlt
      · rw [((hinv _).quiet_fetch (i := inp m) h.fetch).2, Bool.false_and]
      · exact Bool.eq_false_of_not_eq_true fun hk ↦ hne (huniq k hlt hkn hk)
    rw [SocTop.pushed, txPush_eq, hwek, Bool.false_and]
    rfl
  rw [hlist, hpush]
  cases (run inp s r).uart.txFifo.full <;> rfl

theorem Instruction.pushedIn_eq_nil (h : Instruction inp s m n) (hs : Reachable s)
    (hno : ¬((run inp s (m + 1)).cpu.dataStore = true ∧
      selectsRxtx (run inp s (m + 1)).cpu = true)) : pushedIn inp s m n = [] := by
  have hinv := fun k ↦ (hs.run inp k).inv
  refine log_eq_nil fun k hmk hkn ↦ ?_
  have hwe : ((run inp s k).uartIn (inp k)).we = false := by
    rcases Nat.eq_or_lt_of_le hmk with rfl | hlt
    · rw [txPush_eq, ((hinv _).quiet_fetch (i := inp m) h.fetch).2]
      rfl
    by_contra hwe
    rw [Bool.not_eq_false, txPush_eq, Bool.and_eq_true] at hwe
    by_cases hstore : (run inp s (m + 1)).cpu.dataStore = true
    · obtain ⟨r, hmr, hrn, -, -, haddr, huniq⟩ := (h.stores hs).2 hstore
      obtain rfl := huniq k hlt hkn hwe.1
      exact hno ⟨hstore, (h.wselects hmr hrn haddr).symm.trans hwe.2⟩
    · have hno' := (h.stores hs).1 (Bool.eq_false_of_not_eq_true hstore) k hlt hkn
      exact absurd (hno'.symm.trans hwe.1) nofun
  rw [SocTop.pushed, hwe]
  rfl

/-! ## Every run -/

/-- The bytes accepted are those popped and those still in the FIFO. -/
theorem acceptedIn_eq (registers : BitVec 5 → Word) (txMem rxMem : BitVec 5 → Byte)
    (inp : ℕ → SocIn) (n : ℕ) :
    acceptedIn inp (reset registers txMem rxMem) 0 n =
      poppedIn inp (reset registers txMem rxMem) 0 n ++
        (run inp (reset registers txMem rxMem) n).uart.rxFifo.contents := by
  induction n with
  | zero => rfl
  | succ n ih =>
    have hinv := (Reachable.reset registers txMem rxMem).run inp n |>.inv
    rw [acceptedIn, log_succ, ← acceptedIn, ih, poppedIn, log_succ, ← poppedIn, List.append_assoc,
      hinv.rxContents (inp n), List.append_assoc]
    rfl

theorem receivedIn_eq (hs : Reachable s) (n : ℕ) : receivedIn inp s 0 n = poppedIn inp s 0 n := by
  induction n with
  | zero => rfl
  | succ n ih =>
    rw [receivedIn, log_succ, ← receivedIn, ih, poppedIn, log_succ, (hs.run inp n).inv.received]

/-- **The UART's data register is accessed exactly once.**  In every run: an instruction that reads
RXTX pops the head of the RX FIFO, if there is one, in one cycle, and gets it (else 0); one that
stores to RXTX pushes its byte in one cycle unless the TX FIFO is full; no other instruction, no
instruction that traps, and no cycle of a fetch pops or pushes.  So what the program reads with
RXEMPTY 0 is what the RX FIFO has accepted, in order. -/
theorem uart_exactly_once (registers : BitVec 5 → Word) (txMem rxMem : BitVec 5 → Byte)
    (inp : ℕ → SocIn) {s : SocTop} (hs : s = reset registers txMem rxMem) :
    (∀ m n, Instruction inp s m n →
      ((run inp s (m + 1)).cpu.dataRead = true → selectsRxtx (run inp s (m + 1)).cpu = true →
        ∃ r, m < r ∧ r < n ∧ (run inp s r).memReadReq (inp r) = true ∧
          poppedIn inp s m n = (run inp s r).rxHead.toList ∧
          (run inp s r).cpuDataIn (inp r) = ((run inp s r).rxHead.getD 0#8).setWidth 32) ∧
      (¬((run inp s (m + 1)).cpu.dataRead = true ∧
        selectsRxtx (run inp s (m + 1)).cpu = true) → poppedIn inp s m n = []) ∧
      ((run inp s (m + 1)).cpu.dataStore = true → selectsRxtx (run inp s (m + 1)).cpu = true →
        ∃ r, m < r ∧ r < n ∧ (run inp s r).cpu.memWrite = true ∧
          pushedIn inp s m n = if (run inp s r).uart.txFifo.full then []
            else [(run inp s r).cpu.dataOut.extractLsb' 0 8]) ∧
      (¬((run inp s (m + 1)).cpu.dataStore = true ∧
        selectsRxtx (run inp s (m + 1)).cpu = true) → pushedIn inp s m n = []) ∧
      ((run inp s (m + 1)).cpu.trap ≠ .none →
        poppedIn inp s m n = [] ∧ pushedIn inp s m n = [])) ∧
    (∀ n, (run inp s n).cpu.state = .fetch →
      (run inp s n).popped (inp n) = none ∧ (run inp s n).pushed (inp n) = none) ∧
    ∀ n, acceptedIn inp s 0 n = receivedIn inp s 0 n ++ (run inp s n).uart.rxFifo.contents := by
  have hr : Reachable s := hs ▸ .reset registers txMem rxMem
  refine ⟨fun m n h ↦ ⟨h.poppedIn_of_read hr, h.poppedIn_eq_nil hr, h.pushedIn_of_store hr,
    h.pushedIn_eq_nil hr, fun htrap ↦ ⟨h.poppedIn_eq_nil hr ?_, h.pushedIn_eq_nil hr ?_⟩⟩,
    fun n hfetch ↦ ?_, fun n ↦ ?_⟩
  · rintro ⟨hread, -⟩
    simp [Cpu.dataRead, htrap] at hread
  · rintro ⟨hstore, -⟩
    simp [Cpu.dataStore, htrap] at hstore
  · obtain ⟨hreq, hwe⟩ := ((hr.run inp n).inv).quiet_fetch (i := inp n) hfetch
    rw [(hr.run inp n).inv.popped, hreq, SocTop.pushed, txPush_eq, hwe]
    exact ⟨rfl, rfl⟩
  · rw [receivedIn_eq hr, hs]
    exact acceptedIn_eq registers txMem rxMem inp n

/-- The instruction `sb x1, 0(x2)`, again and again. -/
def sbInputs (_ : ℕ) : SocIn where
  instrIn := 0x00110023#32
  instrReady := true
  hit := false
  dataOut _ := 0#32
  timerIrq := false
  msip := false
  mtime := 0#64
  uartRx := true

/-- After a power-on reset with a letter in `x1` and the UART's address elsewhere. -/
def sbStart : SocTop :=
  reset (fun r ↦ if r = 1#5 then 0x41#32 else 0x40000000#32) (fun _ ↦ 0#8) fun _ ↦ 0#8

theorem uart_exactly_once_sb : pushedIn sbInputs sbStart 0 3 = [0x41#8] := by
  have hinstr : Instruction sbInputs sbStart 0 3 := by
    refine ⟨rfl, by decide, fun k h0 h3 ↦ ?_, by decide⟩
    interval_cases k <;> decide
  obtain ⟨-, -, hstore, -, -⟩ := (uart_exactly_once _ _ _ sbInputs (s := sbStart) rfl).1 0 3 hinstr
  obtain ⟨r, h0, h3, hwe, hpush⟩ := hstore (by decide) (by decide)
  rw [hpush]
  interval_cases r
  · exact absurd hwe (by decide)
  · decide

end SocTop

end Vux9k.Rtl

import Vux9k.Rtl.Soc

/-!
# A serial line

What is on the line between a transmitter and a receiver, cycle by cycle: nothing, or a cycle of the
ten bits of a byte.  `uart_tx` puts the bytes that it loads on the line, ten bit times each;
`uart_rx` takes a byte off the line in the middle of its stop bit, whatever the phase of its own
timer was before the start bit.
-/

set_option autoImplicit false

namespace Vux9k.Rtl

/-- A byte's start bit, data and stop bit, the first bit lowest. -/
def frameBits (b : Byte) : BitVec 10 := (1#1 ++ b) ++ 0#1

theorem frameBits_start (b : Byte) : (frameBits b).getLsbD 0 = false :=
  BitVec.getLsbD_append.trans (if_pos Nat.zero_lt_one)

theorem frameBits_data (b : Byte) {q : ℕ} (hq : q < 8) :
    (frameBits b).getLsbD (q + 1) = b.getLsbD q :=
  (BitVec.getLsbD_append.trans (if_neg (by omega))).trans
    (BitVec.getLsbD_append.trans (if_pos hq))

theorem frameBits_stop (b : Byte) : (frameBits b).getLsbD 9 = true :=
  (BitVec.getLsbD_append.trans (if_neg (by omega))).trans
    (BitVec.getLsbD_append.trans (if_neg (by omega)))

theorem extract_frameBits (b : Byte) : (frameBits b).extractLsb' 1 8 = b := by
  refine BitVec.eq_of_getLsbD_eq fun q hq ↦ ?_
  rw [BitVec.getLsbD_extractLsb', decide_eq_true hq, Bool.true_and, Nat.add_comm,
    frameBits_data b hq]

/-- The line in a cycle: nothing, or cycle `t` of a byte. -/
inductive Line : Type
  | idle
  | frame (b : Byte) (t : ℕ)
  deriving DecidableEq

namespace Line

/-- Its level. -/
def level : Line → Bool
  | idle => true
  | frame b t => (frameBits b).getLsbD (t / 156)

/-- The line in the next cycle, in which the byte of `start` begins, if there is one. -/
def next (g : Line) : Option Byte → Line
  | some b => frame b 0
  | none =>
    match g with
    | idle => idle
    | frame b t => if t + 1 < 1560 then frame b (t + 1) else idle

/-- A byte may begin in the next cycle. -/
def Free : Line → Prop
  | idle => True
  | frame _ t => t = 1559

/-- The byte that is delivered in this cycle, in the middle of its stop bit. -/
def delivers : Line → Option Byte
  | frame b 1485 => some b
  | _ => none

end Line

/-! ## The receiver -/

/-- The two flops of `uart_rx`, behind the line. -/
def Heard (r : UartRx) : Line → Prop
  | .idle => r.rxdSync0 = true ∧ r.rxdSync1 = true
  | .frame b t =>
    r.rxdSync0 = (decide (t < 1) || (frameBits b).getLsbD ((t - 1) / 156)) ∧
      r.rxdSync1 = (decide (t < 2) || (frameBits b).getLsbD ((t - 2) / 156))

/-- What `uart_rx` is at, by the cycle of the byte on the line. -/
structure Hears (r : UartRx) (b : Byte) (t : ℕ) : Prop where
  lt : t < 1560
  start : t < 3 → r.state = .idle
  mid : 3 ≤ t → t < 82 → r.state = .waitForMidBit ∧ r.regClkcnt = 81 - t
  bits : 82 ≤ t → t < 1486 → r.state = .receiving ∧ r.regBitcnt = (t - 82) / 156 ∧
    r.regCounter = 155 - (t - 82) % 156 ∧
    ∀ q < (t - 82) / 156, r.sregs.getLsbD (8 - (t - 82) / 156 + q) = b.getLsbD q
  stop : 1486 ≤ t → r.state = .idle

/-- The receiver of a line. -/
def RxAt (r : UartRx) : Line → Prop
  | .idle => r.state = .idle
  | .frame b t => Hears r b t

section

variable {r : UartRx} {b : Byte} {t : ℕ}

/-- Between two bytes the line is high. -/
theorem level_of_free {g : Line} (h : g.Free) : g.level = true := by
  cases g with
  | idle => rfl
  | frame b t =>
    obtain rfl : t = 1559 := h
    exact frameBits_stop b

theorem Heard.start {g : Line} (h : Heard r g) (hg : g.Free) (l : Bool) (hl : l = true) :
    (r.tick 156 l).rxdSync0 = true ∧ (r.tick 156 l).rxdSync1 = true := by
  refine ⟨hl, ?_⟩
  change r.rxdSync0 = true
  cases g with
  | idle => exact h.1
  | frame b t =>
    obtain rfl : t = 1559 := hg
    exact h.1.trans (frameBits_stop b)

theorem Heard.tick {g : Line} (h : Heard r g) (ht : ∀ b t, g = .frame b t → t < 1560)
    (start : Option Byte) (hs : start ≠ none → g.Free) :
    Heard (r.tick 156 g.level) (g.next start) := by
  cases start with
  | some b =>
    have hg := hs (by simp)
    exact h.start hg _ (level_of_free hg)
  | none =>
    cases g with
    | idle => exact ⟨rfl, h.1⟩
    | frame b t =>
      rw [Line.next]
      split
      · refine ⟨?_, ?_⟩
        · simp [UartRx.tick, Line.level]
        · change r.rxdSync0 = _
          rw [h.1]
          exact congrArg (· || _) (decide_eq_decide.mpr (by omega))
      · have hlt := ht b t rfl
        have hg : (Line.frame b t).Free := by
          change t = 1559
          omega
        exact h.start hg _ (level_of_free hg)

/-- The shift register of `uart_rx` after it took in a bit. -/
theorem getLsbD_shift (c : Bool) (x : BitVec 8) {i : ℕ} (hi : i < 8) :
    (BitVec.ofBool c ++ x.extractLsb' 1 7 : BitVec 8).getLsbD i =
      if i < 7 then x.getLsbD (i + 1) else c := by
  refine BitVec.getLsbD_append.trans ?_
  split
  · next h => rw [BitVec.getLsbD_extractLsb', decide_eq_true h, Bool.true_and, Nat.add_comm]
  · obtain rfl : i = 7 := by omega
    exact BitVec.getLsbD_ofBool c 0

/-- The receiver of a byte's bits: an alarm samples one of them in its middle. -/
theorem Hears.bits_tick (h : Hears r b t) (hh : Heard r (.frame b t)) (h82 : 82 ≤ t)
    (h1485 : t < 1485) (l : Bool) :
    (r.tick 156 l).state = .receiving ∧ (r.tick 156 l).regBitcnt = (t + 1 - 82) / 156 ∧
      (r.tick 156 l).regCounter = 155 - (t + 1 - 82) % 156 ∧
      ∀ q < (t + 1 - 82) / 156,
        (r.tick 156 l).sregs.getLsbD (8 - (t + 1 - 82) / 156 + q) = b.getLsbD q := by
  obtain ⟨hst, hbit, hcnt, hdata⟩ := h.bits h82 (by omega)
  have hclr : r.timerClr = false := by simp [UartRx.timerClr, hst]
  by_cases hce : (t - 82) % 156 = 155
  · have hce' : r.sregCe = true := by simp [UartRx.sregCe, hcnt, hce]
    have h8 : r.regBitcnt ≠ 8 := by omega
    have hs : r.rxdSync1 = b.getLsbD ((t - 82) / 156) := by
      rw [hh.2, decide_eq_false (by omega), Bool.false_or, ← frameBits_data b (by omega)]
      congr 1
      omega
    rw [show (t + 1 - 82) / 156 = (t - 82) / 156 + 1 by omega, show (t + 1 - 82) % 156 = 0 by omega]
    refine ⟨by simp [UartRx.tick, UartRx.nextState, hst, h8], ?_, ?_, fun q hlt ↦ ?_⟩
    · simp only [UartRx.tick, UartRx.nextBitcnt, hst, hce', Bool.true_and]
      rw [if_pos (decide_eq_true h8), hbit]
    · simp [UartRx.tick, hclr, hce']
    · simp only [UartRx.tick, hce', if_true, hs]
      rw [getLsbD_shift _ _ (by omega)]
      by_cases hq : q = (t - 82) / 156
      · rw [if_neg (by omega), hq]
      · rw [if_pos (by omega), ← hdata q (by omega)]
        congr 1
        omega
  · have hce' : r.sregCe = false := by
      rw [UartRx.sregCe, hcnt, decide_eq_false]
      omega
    rw [show (t + 1 - 82) / 156 = (t - 82) / 156 by omega,
      show (t + 1 - 82) % 156 = (t - 82) % 156 + 1 by omega]
    refine ⟨by simp [UartRx.tick, UartRx.nextState, hst, hce'], ?_, ?_, ?_⟩
    · simp [UartRx.tick, UartRx.nextBitcnt, hst, hce', hbit]
    · simp only [UartRx.tick, hclr, hce', hcnt, Bool.or_false, Bool.false_eq_true, if_false]
      omega
    · simpa [UartRx.tick, hce'] using hdata

/-- While it is at a byte, the receiver keeps to its time. -/
theorem Hears.tick (h : Hears r b t) (hh : Heard r (.frame b t)) (ht : t + 1 < 1560) (l : Bool) :
    Hears (r.tick 156 l) b (t + 1) := by
  have hsync := hh.2
  refine ⟨ht, fun h3 ↦ ?_, fun h3 h82 ↦ ?_, fun h82 h1486 ↦ ?_, fun h1486 ↦ ?_⟩
  · -- The start bit is not through the flops.
    have hs : r.rxdSync1 = true := by rw [hsync, decide_eq_true (by omega), Bool.true_or]
    simp [UartRx.tick, UartRx.nextState, h.start (by omega), hs]
  · by_cases h2 : t = 2
    · subst h2
      have hs : r.rxdSync1 = false := by rw [hsync]; exact frameBits_start b
      simp [UartRx.tick, UartRx.nextState, UartRx.nextClkcnt, h.start (by omega), hs]
    · obtain ⟨hst, hc⟩ := h.mid (by omega) (by omega)
      have hne : r.regClkcnt ≠ 0 := by omega
      refine ⟨by simp [UartRx.tick, UartRx.nextState, hst, hne], ?_⟩
      simp only [UartRx.tick, UartRx.nextClkcnt, hst, if_neg hne]
      omega
  · by_cases h81 : t = 81
    · subst h81
      obtain ⟨hst, hc⟩ := h.mid (by omega) (by omega)
      have hs : r.rxdSync1 = false := by rw [hsync]; exact frameBits_start b
      have hclr : r.timerClr = true := by simp [UartRx.timerClr, hst, hc, hs]
      simp [UartRx.tick, UartRx.nextState, UartRx.nextBitcnt, hst, hc, hs, hclr]
    · exact h.bits_tick hh (by omega) (by omega) l
  · by_cases h1485 : t = 1485
    · subst h1485
      obtain ⟨hst, hbit, hcnt, -⟩ := h.bits (by omega) (by omega)
      simp [UartRx.tick, UartRx.nextState, UartRx.sregCe, hst, hbit, hcnt]
    · have hst := h.stop (by omega)
      have hs : r.rxdSync1 = true := by
        rw [hsync, decide_eq_false (by omega), Bool.false_or, ← frameBits_stop b]
        congr 1
        omega
      simp [UartRx.tick, UartRx.nextState, hst, hs]

/-- **The receiver follows the line.** -/
theorem RxAt.tick {g : Line} (h : RxAt r g) (hh : Heard r g) (start : Option Byte)
    (hs : start ≠ none → g.Free) : RxAt (r.tick 156 g.level) (g.next start) := by
  have hidle : g.Free → (r.tick 156 g.level).state = .idle := by
    intro hg
    cases g with
    | idle => simp [UartRx.tick, UartRx.nextState, show r.state = .idle from h, hh.2]
    | frame b t =>
      obtain rfl : t = 1559 := hg
      have hsync : r.rxdSync1 = true := hh.2.trans (frameBits_stop b)
      simp [UartRx.tick, UartRx.nextState, h.stop (by omega), hsync]
  cases start with
  | some b =>
    have hg := hidle (hs (by simp))
    exact ⟨by omega, fun _ ↦ hg, fun h3 ↦ absurd h3 (by omega), fun h82 ↦ absurd h82 (by omega),
      fun h1486 ↦ absurd h1486 (by omega)⟩
  | none =>
    cases g with
    | idle => exact hidle trivial
    | frame b t =>
      rw [Line.next]
      have hlt := Hears.lt h
      split
      · next ht => exact Hears.tick h hh ht _
      · exact hidle (show t = 1559 by omega)

/-- A byte is ready in the middle of its stop bit, without an error, and at no other time. -/
theorem RxAt.rdy {g : Line} (h : RxAt r g) (hh : Heard r g) :
    (if r.rdy then some r.data else none) = g.delivers ∧ r.frameErr = false := by
  cases g with
  | idle =>
    have hr : r.rdy = false := by simp [UartRx.rdy, show r.state = .idle from h]
    rw [UartRx.frameErr, hr]
    exact ⟨rfl, rfl⟩
  | frame b t =>
    by_cases h1485 : t = 1485
    · subst h1485
      obtain ⟨hst, hbit, hcnt, hdata⟩ := h.bits (by omega) (by omega)
      have hr : r.rdy = true := by simp [UartRx.rdy, UartRx.sregCe, hst, hbit, hcnt]
      have hb : r.data = b := BitVec.eq_of_getLsbD_eq fun q hq ↦ by
        simpa [UartRx.data] using hdata q hq
      have hsync : r.rxdSync1 = true := hh.2.trans (frameBits_stop b)
      rw [UartRx.frameErr, hr, hb, hsync]
      exact ⟨rfl, rfl⟩
    · have hr : r.rdy = false := by
        have hlt := Hears.lt h
        by_cases h82 : 82 ≤ t ∧ t < 1486
        · obtain ⟨hst, hbit, hcnt, -⟩ := h.bits h82.1 h82.2
          refine Bool.eq_false_of_not_eq_true fun hr ↦ h1485 ?_
          simp only [UartRx.rdy, UartRx.sregCe, hst, hbit, hcnt, Bool.and_eq_true,
            decide_eq_true_eq] at hr
          omega
        · have hst : r.state ≠ .receiving := by
            rcases Nat.lt_or_ge t 3 with h3 | h3
            · rw [h.start h3]
              simp
            · rcases Nat.lt_or_ge t 82 with h82' | h82'
              · rw [(h.mid h3 h82').1]
                simp
              · rw [h.stop (by omega)]
                simp
          simp [UartRx.rdy, hst]
      rw [UartRx.frameErr, hr]
      refine ⟨?_, rfl⟩
      rw [Line.delivers]
      · rfl
      · rintro _ ⟨⟩
        exact h1485 rfl

end

/-! ## The transmitter -/

/-- The byte that `uart_tx` has taken and not begun. -/
def UartTx.pending (s : UartTx) : Option Byte :=
  if s.state = .set then some (s.regUartframe.extractLsb' 1 8) else none

/-- The byte that it begins in the next cycle. -/
def UartTx.starts (s : UartTx) : Option Byte := if s.sregCe then s.pending else none

/-- What `uart_tx` is at, by the cycle of the byte on the line. -/
structure Sends (s : UartTx) (b : Byte) (t : ℕ) : Prop where
  lt : t < 1560
  counter : s.regCounter = 155 - t % 156
  bits : ∀ i < 10, s.sregs.getLsbD i =
    (decide (10 ≤ i + t / 156) || (frameBits b).getLsbD (i + t / 156))
  sending : t < 1405 → s.state = .sending ∧ s.regSentcnt = t / 156
  stop : 1405 ≤ t → (s.state = .idle ∨ s.state = .set) ∧ s.regSentcnt = 0

/-- The transmitter of a line. -/
def TxAt (s : UartTx) : Line → Prop
  | .idle => s.sregs = 0x3FF#10 ∧ s.regSentcnt = 0 ∧ s.regCounter < 156 ∧ s.state ≠ .sending
  | .frame b t => Sends s b t

/-- What it holds for the next byte. -/
structure Loaded (s : UartTx) : Prop where
  rst : s.state = .rst → s.regUartframe = 0x3FF#10
  set : s.state = .set → s.regUartframe = frameBits (s.regUartframe.extractLsb' 1 8)

section

variable {s : UartTx} {b : Byte} {t : ℕ}

theorem TxAt.txd {g : Line} (h : TxAt s g) : s.txd = g.level := by
  cases g with
  | idle =>
    rw [UartTx.txd, h.1]
    rfl
  | frame b t =>
    have hlt := Sends.lt h
    rw [UartTx.txd, h.bits 0 (by omega), Nat.zero_add, decide_eq_false (by omega), Bool.false_or]
    rfl

theorem TxAt.free {g : Line} (h : TxAt s g) (hs : s.starts ≠ none) : g.Free := by
  cases g with
  | idle => trivial
  | frame b t =>
    rw [UartTx.starts, UartTx.pending] at hs
    have hlt := Sends.lt h
    have hc := Sends.counter h
    split at hs
    · next hce =>
      split at hs
      · next hset =>
        have h0 : s.regCounter = 0 := by simpa [UartTx.sregCe] using hce
        have h1405 : ¬ t < 1405 := by
          intro hlt'
          have := (h.sending hlt').1
          rw [hset] at this
          cases this
        change t = 1559
        omega
      · exact absurd rfl hs
    · exact absurd rfl hs

theorem Loaded.tick (h : Loaded s) (data : Byte) {we : Bool} (hwe : we = true → s.state = .idle) :
    Loaded (s.tick 156 data we) := by
  have hsame : s.state ≠ .idle → (s.tick 156 data we).regUartframe = s.regUartframe := by
    intro hne
    exact if_neg fun hw ↦ hne (hwe hw)
  constructor
  · intro hr
    have hst : s.state = .rst := by
      change s.nextState we = .rst at hr
      cases hst : s.state with
      | rst => rfl
      | idle => cases we <;> simp [UartTx.nextState, hst] at hr
      | set => cases hc : s.sregCe <;> simp [UartTx.nextState, hst, hc] at hr
      | sending => by_cases hc : s.regSentcnt = 9 <;> simp [UartTx.nextState, hst, hc] at hr
    rw [hsame (by rw [hst]; simp), h.rst hst]
  · intro hr
    change s.nextState we = .set at hr
    cases hst : s.state with
    | rst => cases hc : s.sregCe <;> simp [UartTx.nextState, hst, hc] at hr
    | sending => by_cases hc : s.regSentcnt = 9 <;> simp [UartTx.nextState, hst, hc] at hr
    | set =>
      rw [hsame (by rw [hst]; simp)]
      exact h.set hst
    | idle =>
      cases hw : we with
      | false => simp [UartTx.nextState, hst, hw] at hr
      | true => exact (congrArg frameBits (extract_frameBits data)).symm

/-- The shift register of `uart_tx` after it let out a bit. -/
theorem getLsbD_shiftOut (x : BitVec 10) {i : ℕ} (hi : i < 10) :
    (1#1 ++ x.extractLsb' 1 9 : BitVec 10).getLsbD i = (decide (i = 9) || x.getLsbD (i + 1)) := by
  refine BitVec.getLsbD_append.trans ?_
  split
  · next h =>
    rw [BitVec.getLsbD_extractLsb', decide_eq_true h, Bool.true_and, Nat.add_comm,
      decide_eq_false (by omega), Bool.false_or]
  · obtain rfl : i = 9 := by omega
    rfl

theorem sregs_shifted (hce : s.sregCe = true) (hset : s.sregSet = false) (data : Byte) (we : Bool) :
    (s.tick 156 data we).sregs = 1#1 ++ s.sregs.extractLsb' 1 9 := by
  simp [UartTx.tick, hce, hset]

/-- While it is at a byte, the transmitter keeps to its time. -/
theorem Sends.tick (h : Sends s b t) (ht : t + 1 < 1560) (data : Byte) (we : Bool) :
    Sends (s.tick 156 data we) b (t + 1) := by
  obtain ⟨-, hc, hbits, hsend, hstop⟩ := h
  have hce : s.sregCe = decide (t % 156 = 155) := by
    rw [UartTx.sregCe, hc]
    exact decide_eq_decide.mpr (by omega)
  have hset : s.sregSet = false := by
    refine Bool.eq_false_of_not_eq_true fun hset ↦ ?_
    rw [UartTx.sregSet, Bool.and_eq_true, hce, decide_eq_true_iff] at hset
    rcases Nat.lt_or_ge t 1405 with hlt | hge
    · simp [(hsend hlt).1] at hset
    · omega
  refine ⟨ht, ?_, fun i hi ↦ ?_, fun hlt ↦ ?_, fun hge ↦ ?_⟩
  · simp only [UartTx.tick, hce, hc, decide_eq_true_eq]
    split <;> omega
  · by_cases h155 : t % 156 = 155
    · rw [sregs_shifted (by rw [hce, decide_eq_true h155]) hset, getLsbD_shiftOut _ hi,
        show (t + 1) / 156 = t / 156 + 1 by omega]
      by_cases h9 : i = 9
      · rw [decide_eq_true h9, decide_eq_true (by omega), Bool.true_or, Bool.true_or]
      · rw [decide_eq_false h9, Bool.false_or, hbits (i + 1) (by omega), Nat.add_right_comm,
          Nat.add_assoc]
    · have hq : (t + 1) / 156 = t / 156 := by omega
      have hce' : s.sregCe = false := by rw [hce, decide_eq_false h155]
      rw [hq, ← hbits i hi]
      simp [UartTx.tick, hce']
  · obtain ⟨hst, hcnt⟩ := hsend (by omega)
    have h9 : s.regSentcnt ≠ 9 := by omega
    refine ⟨by simp [UartTx.tick, UartTx.nextState, hst, h9], ?_⟩
    simp only [UartTx.tick, UartTx.nextSentcnt, hst, hce, hcnt, decide_eq_true_eq]
    split_ifs <;> omega
  · by_cases h1404 : t = 1404
    · subst h1404
      obtain ⟨hst, hcnt⟩ := hsend (by omega)
      simp [UartTx.tick, UartTx.nextState, UartTx.nextSentcnt, hst, hcnt]
    · obtain ⟨hst, hcnt⟩ := hstop (by omega)
      have hce' : s.sregCe = false := by
        rw [hce, decide_eq_false]
        omega
      rcases hst with hst | hst
      · cases we <;> simp [UartTx.tick, UartTx.nextState, UartTx.nextSentcnt, hst, hcnt]
      · simp [UartTx.tick, UartTx.nextState, UartTx.nextSentcnt, hst, hcnt, hce']

/-- The byte that it begins. -/
theorem starts_eq_some (hl : Loaded s) (h : s.starts = some b) :
    s.state = .set ∧ s.sregCe = true ∧ s.regUartframe = frameBits b := by
  rw [UartTx.starts, UartTx.pending] at h
  split at h
  · next hce =>
    split at h
    · next hset =>
      refine ⟨hset, hce, ?_⟩
      rw [hl.set hset, Option.some.inj h]
    · cases h
  · cases h

theorem starts_eq_none (h : s.starts = none) (hce : s.sregCe = true) : s.state ≠ .set := by
  intro hset
  rw [UartTx.starts, UartTx.pending, if_pos hce, if_pos hset] at h
  cases h

theorem eq_ones {x : BitVec 10} (h : ∀ i < 10, x.getLsbD i = true) : x = 0x3FF#10 := by
  refine BitVec.eq_of_getLsbD_eq fun i hi ↦ ?_
  rw [h i hi]
  have hones : ∀ i : Fin 10, (0x3FF#10 : BitVec 10).getLsbD i = true := by decide
  exact (hones ⟨i, hi⟩).symm

/-- **The transmitter puts what it loads on the line.** -/
theorem TxAt.tick {g : Line} (h : TxAt s g) (hl : Loaded s) (data : Byte) (we : Bool) :
    TxAt (s.tick 156 data we) (g.next s.starts) := by
  cases hs : s.starts with
  | some d =>
    obtain ⟨hst, hce, hf⟩ := starts_eq_some hl hs
    have hcnt : s.regSentcnt = 0 := by
      cases g with
      | idle => exact h.2.1
      | frame b t =>
        obtain rfl : t = 1559 := TxAt.free h (by rw [hs]; simp)
        exact (h.stop (by omega)).2
    refine ⟨by omega, by simp [UartTx.tick, hce], fun i hi ↦ ?_, fun _ ↦ ?_,
      fun hge ↦ absurd hge (by omega)⟩
    · rw [Nat.zero_div, Nat.add_zero, decide_eq_false (by omega), Bool.false_or]
      simp [UartTx.tick, UartTx.sregSet, hce, hst, hf]
    · simp [UartTx.tick, UartTx.nextState, UartTx.nextSentcnt, hst, hce, hcnt]
  | none =>
    cases g with
    | idle =>
      obtain ⟨hones, hcnt, hlt, hst⟩ := h
      have hstate : s.nextState we ≠ .sending ∧ s.nextSentcnt = 0 := by
        cases hst' : s.state with
        | rst => cases hc : s.sregCe <;> simp [UartTx.nextState, UartTx.nextSentcnt, hst', hc, hcnt]
        | idle => cases we <;> simp [UartTx.nextState, UartTx.nextSentcnt, hst', hcnt]
        | set =>
          have hce : s.sregCe = false := Bool.eq_false_of_not_eq_true fun hce ↦
            starts_eq_none hs hce hst'
          simp [UartTx.nextState, UartTx.nextSentcnt, hst', hce, hcnt]
        | sending => exact absurd hst' hst
      refine ⟨?_, hstate.2, ?_, hstate.1⟩
      · cases hce : s.sregCe with
        | false =>
          rw [← hones]
          simp [UartTx.tick, hce]
        | true =>
          cases hset : s.sregSet with
          | true =>
            have hrst : s.state = .rst := by
              rw [UartTx.sregSet, hce, Bool.and_true, Bool.or_eq_true, decide_eq_true_iff,
                decide_eq_true_iff] at hset
              exact hset.resolve_right (starts_eq_none hs hce)
            rw [← hl.rst hrst]
            simp [UartTx.tick, hce, hset]
          | false =>
            rw [sregs_shifted hce hset, hones]
            decide
      · simp only [UartTx.tick]
        split <;> omega
    | frame b t =>
      rw [Line.next]
      have hlt := Sends.lt h
      split
      · next ht => exact Sends.tick h ht data we
      · -- The stop bit is over, and no byte was waiting.
        obtain rfl : t = 1559 := by omega
        obtain ⟨-, hc, hbits, -, hstop⟩ := h
        obtain ⟨hst, hcnt⟩ := hstop (by omega)
        have hce : s.sregCe = true := by simp [UartTx.sregCe, hc]
        have hidle : s.state = .idle := hst.resolve_right (starts_eq_none hs hce)
        have hset : s.sregSet = false := by simp [UartTx.sregSet, hidle]
        refine ⟨eq_ones fun i hi ↦ ?_, ?_, ?_, ?_⟩
        · rw [sregs_shifted hce hset, getLsbD_shiftOut _ hi]
          by_cases h9 : i = 9
          · rw [decide_eq_true h9, Bool.true_or]
          · rw [hbits (i + 1) (by omega), decide_eq_true (show 10 ≤ i + 1 + 1559 / 156 by omega),
              Bool.true_or, Bool.or_true]
        · simp [UartTx.tick, UartTx.nextSentcnt, hidle, hcnt]
        · simp [UartTx.tick, hce]
        · cases we <;> simp [UartTx.tick, UartTx.nextState, hidle]

end

end Vux9k.Rtl

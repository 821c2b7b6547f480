import Vux9k.Rtl.SerialLine

/-!
# A serial round trip

`txd` of one `uart_controller` wired to `rxd` of another: what is pushed into the one's TX FIFO
comes out of the other's receiver, byte for byte and in order.
-/

set_option autoImplicit false

namespace Vux9k.Rtl

/-- A controller after `n` cycles. -/
def Uart.run (inp : ℕ → UartIn) (u : Uart) : ℕ → Uart
  | 0 => u
  | n + 1 => (run inp u n).tick uartCnt (inp n)

/-- Two controllers, the second one's `rxd` wired to the first one's `txd`. -/
structure Link : Type where
  sender : Uart
  receiver : Uart

/-- The inputs of the two; the receiver's `rxd` is the sender's `txd`. -/
structure LinkIn : Type where
  sender : UartIn
  receiver : UartIn

namespace Link

/-- The receiver's inputs. -/
def rxIn (l : Link) (i : LinkIn) : UartIn := { i.receiver with rxd := l.sender.tx.txd }

/-- A clock edge. -/
def tick (l : Link) (i : LinkIn) : Link :=
  ⟨l.sender.tick uartCnt i.sender, l.receiver.tick uartCnt (l.rxIn i)⟩

section

variable (inp : ℕ → LinkIn) (l : Link)

/-- The two after `n` cycles. -/
def run : ℕ → Link
  | 0 => l
  | n + 1 => (run n).tick (inp n)

/-- The line between them: a byte is on it for ten bit times, from the cycle after it is loaded. -/
def line : ℕ → Line
  | 0 => .idle
  | n + 1 => (line n).next (run inp l n).sender.tx.starts

/-- The bytes pushed into the sender's TX FIFO. -/
def pushed : ℕ → List Byte
  | 0 => []
  | n + 1 => pushed n ++
      if (run inp l n).sender.txWe (inp n).sender.we then [(inp n).sender.wdata] else []

/-- The bytes that the receiver's `rdy` pulses deliver. -/
def delivered : ℕ → List Byte
  | 0 => []
  | n + 1 => delivered n ++
      if (run inp l n).receiver.rx.rdy then [(run inp l n).receiver.rx.data] else []

/-- The bytes read out of the receiver's RX FIFO. -/
def popped : ℕ → List Byte
  | 0 => []
  | n + 1 => popped n ++
      if (run inp l n).receiver.rxRe (inp n).receiver.re then [(run inp l n).receiver.rxFifo.rdata]
      else []

/-- Both are out of reset, each for as long as it likes: nothing was pushed yet, and the line was
high. -/
structure Ready : Prop where
  sender : ∃ txMem rxMem p i, (∀ k < p, (i k : UartIn).we = false) ∧
    l.sender = Uart.run i (.reset uartCnt txMem rxMem) p
  receiver : ∃ txMem rxMem q i, (∀ k < q, (i k : UartIn).rxd = true) ∧
    l.receiver = Uart.run i (.reset uartCnt txMem rxMem) q

end

end Link

/-! ## What is on its way -/

/-- The byte on the line that is not delivered yet. -/
def Line.carries : Line → List Byte
  | .idle => []
  | .frame b t => if t ≤ 1485 then [b] else []

theorem Line.carries_of_free {g : Line} (h : g.Free) : g.carries = [] := by
  cases g with
  | idle => rfl
  | frame b t =>
    obtain rfl : t = 1559 := h
    rfl

/-- What leaves the line is delivered. -/
theorem Line.carries_next {g : Line} (start : Option Byte) (hs : start ≠ none → g.Free) :
    g.carries ++ start.toList = g.delivers.toList ++ (g.next start).carries := by
  cases start with
  | some b =>
    have hg := hs (by simp)
    have hd : g.delivers = none := by
      cases g with
      | idle => rfl
      | frame b t =>
        obtain rfl : t = 1559 := hg
        rfl
    rw [carries_of_free hg, hd]
    rfl
  | none =>
    cases g with
    | idle => rfl
    | frame b t =>
      rw [Line.next, Option.toList_none, List.append_nil]
      by_cases h1485 : t = 1485
      · subst h1485
        rfl
      · have hd : (Line.frame b t).delivers = none := by
          rw [Line.delivers]
          rintro _ ⟨⟩
          exact h1485 rfl
        rw [hd, Option.toList_none, List.nil_append]
        split
        · simp only [carries]
          exact if_congr (by omega) rfl rfl
        · simp only [carries]
          rw [if_neg (by omega)]

/-- A byte that is taken waits for the timer's alarm. -/
theorem UartTx.pending_tick (s : UartTx) (data : Byte) {we : Bool}
    (hwe : we = true → s.state = .idle) :
    s.pending.toList ++ (if we then [data] else []) =
      s.starts.toList ++ (s.tick 156 data we).pending.toList := by
  have hnone : ∀ st, s.state = st → st ≠ .set → s.pending = none ∧ s.starts = none := by
    intro st hst hne
    have hp : s.pending = none := if_neg (by rwa [hst])
    rw [starts, hp]
    exact ⟨rfl, ite_self none⟩
  have hnext : s.nextState we ≠ .set → (s.tick 156 data we).pending = none := fun h ↦ if_neg h
  cases hst : s.state with
  | rst =>
    have hw : we = false := Bool.eq_false_of_not_eq_true fun hw ↦ by cases hst.symm.trans (hwe hw)
    obtain ⟨hp, hs⟩ := hnone _ hst (by simp)
    rw [hp, hs, hw, ← hw, hnext]
    · simp [hw]
    · cases hc : s.sregCe <;> simp [nextState, hst, hc]
  | idle =>
    obtain ⟨hp, hs⟩ := hnone _ hst (by simp)
    rw [hp, hs]
    cases we with
    | false => rw [hnext (by simp [nextState, hst])]; rfl
    | true =>
      have hpend : (s.tick 156 data true).pending = some data := by
        refine (if_pos (by simp [tick, nextState, hst])).trans (congrArg some ?_)
        exact extract_frameBits data
      rw [hpend]
      rfl
  | set =>
    have hw : we = false := Bool.eq_false_of_not_eq_true fun hw ↦ by cases hst.symm.trans (hwe hw)
    subst hw
    cases hc : s.sregCe with
    | true =>
      rw [hnext (by simp [nextState, hst, hc]), starts, if_pos hc]
      simp
    | false =>
      have hpend : (s.tick 156 data false).pending = s.pending := by
        rw [pending, pending, if_pos hst, if_pos (by simp [tick, nextState, hst, hc])]
        rfl
      rw [hpend, starts, hc, if_neg Bool.false_ne_true]
      simp
  | sending =>
    have hw : we = false := Bool.eq_false_of_not_eq_true fun hw ↦ by cases hst.symm.trans (hwe hw)
    obtain ⟨hp, hs⟩ := hnone _ hst (by simp)
    rw [hp, hs, hnext]
    · simp [hw]
    · by_cases hc : s.regSentcnt = 9 <;> simp [nextState, hst, hc]

/-! ## The sender -/

/-- The bytes that the sender still has: on the line, taken, or in its FIFO. -/
def Uart.owes (u : Uart) (g : Line) : List Byte :=
  g.carries ++ u.tx.pending.toList ++ u.txFifo.contents

/-- A sender at a line. -/
structure SenderAt (u : Uart) (g : Line) : Prop where
  tx : TxAt u.tx g
  loaded : Loaded u.tx
  fifo : u.txFifo.Wf

section

variable {u : Uart} {g : Line}

theorem Uart.idle_of_txRe (h : u.txRe = true) : u.tx.state = .idle := by
  have h' : u.txFifo.empty = false ∧ u.tx.state = .idle := by simpa [txRe, UartTx.busy] using h
  exact h'.2

theorem SenderAt.tick (h : SenderAt u g) (i : UartIn) :
    SenderAt (u.tick 156 i) (g.next u.tx.starts) where
  tx := h.tx.tick h.loaded _ _
  loaded := h.loaded.tick _ u.idle_of_txRe
  fifo := h.fifo.tick _ _ _

/-- **A byte that is pushed is owed until it is delivered.** -/
theorem SenderAt.owes_tick (h : SenderAt u g) (i : UartIn) :
    u.owes g ++ (if u.txWe i.we then [i.wdata] else []) =
      g.delivers.toList ++ (u.tick 156 i).owes (g.next u.tx.starts) := by
  have hline := Line.carries_next u.tx.starts h.tx.free
  have hpend := u.tx.pending_tick u.txFifo.rdata u.idle_of_txRe
  have hfifo := Fifo.contents_tick h.fifo i.wdata (u.txWe i.we) u.txRe
  have hread : u.txFifo.doRead u.txRe = u.txRe := by
    rw [Fifo.doRead_eq, Uart.txRe]
    cases u.txFifo.empty <;> simp
  have hwrite : u.txFifo.doWrite (u.txWe i.we) u.txRe = u.txWe i.we := by
    cases hw : u.txWe i.we with
    | false => rfl
    | true =>
      have hfull : u.txFifo.full = false := by
        rw [Uart.txWe, Bool.and_eq_true, Bool.not_eq_true'] at hw
        exact hw.2
      have hcount : u.txFifo.count ≠ 2 ^ 5 := by simpa [Fifo.full] using hfull
      rw [Fifo.doWrite, decide_eq_true hcount]
      rfl
  have hhead : u.txFifo.contents = (if u.txRe then [u.txFifo.rdata] else []) ++
      if u.txRe then u.txFifo.contents.tail else u.txFifo.contents := by
    cases hre : u.txRe with
    | false => rfl
    | true =>
      have hne : u.txFifo.empty = false := by
        rw [Uart.txRe, Bool.and_eq_true, Bool.not_eq_true'] at hre
        exact hre.1
      rw [Fifo.contents_eq_cons hne]
      rfl
  rw [hread, hwrite] at hfifo
  change _ =
    _ ++ ((g.next u.tx.starts).carries ++ (u.tx.tick 156 u.txFifo.rdata u.txRe).pending.toList ++
    (u.txFifo.tick i.wdata (u.txWe i.we) u.txRe).contents)
  rw [hfifo, Uart.owes]
  nth_rewrite 1 [hhead]
  calc g.carries ++ u.tx.pending.toList ++ ((if u.txRe then [u.txFifo.rdata] else []) ++
        if u.txRe then u.txFifo.contents.tail else u.txFifo.contents) ++
        (if u.txWe i.we then [i.wdata] else [])
      = g.carries ++ (u.tx.pending.toList ++ if u.txRe then [u.txFifo.rdata] else []) ++
        ((if u.txRe then u.txFifo.contents.tail else u.txFifo.contents) ++
          if u.txWe i.we then [i.wdata] else []) := by simp only [List.append_assoc]
    _ = g.carries ++ u.tx.starts.toList ++
        (u.tx.tick 156 u.txFifo.rdata u.txRe).pending.toList ++
        ((if u.txRe then u.txFifo.contents.tail else u.txFifo.contents) ++
          if u.txWe i.we then [i.wdata] else []) := by rw [hpend]; simp only [List.append_assoc]
    _ = _ := by rw [hline]; simp only [List.append_assoc]

/-- The cycles until the byte on the line is delivered. -/
def Line.untilDelivery : Line → ℕ
  | .idle => 0
  | .frame _ t => 1486 - t

/-- The cycles until the next delivery while the line carries no byte, at most. -/
def UartTx.untilDelivery (s : UartTx) : ℕ :=
  match s.state with
  | .set => 1488 + s.regCounter
  | .idle => 1700
  | .rst => 1702 + s.regCounter
  | .sending => 0

/-- The cycles until the next delivery of a sender that owes a byte, at most. -/
def Uart.remaining (u : Uart) (g : Line) : ℕ :=
  if g.carries = [] then u.tx.untilDelivery else g.untilDelivery

theorem TxAt.regCounter_lt {s : UartTx} (h : TxAt s g) : s.regCounter < 156 := by
  cases g with
  | idle => exact h.2.2.1
  | frame b t =>
    have hc := Sends.counter h
    omega

theorem TxAt.not_sending {s : UartTx} (h : TxAt s g) (hg : g.carries = []) :
    s.state ≠ .sending := by
  cases g with
  | idle => exact h.2.2.2
  | frame b t =>
    have ht : ¬ t ≤ 1485 := by
      intro hle
      rw [Line.carries, if_pos hle] at hg
      cases hg
    rcases (h.stop (by omega)).1 with hst | hst
    · rw [hst]
      simp
    · rw [hst]
      simp

/-- A line that carries nothing carries nothing in the next cycle, unless a byte begins. -/
theorem Line.carries_next_nil (hg : g.carries = []) : (g.next none).carries = [] := by
  cases g with
  | idle => rfl
  | frame b t =>
    have ht : ¬ t ≤ 1485 := by
      intro hle
      rw [Line.carries, if_pos hle] at hg
      cases hg
    rw [Line.next]
    split
    · exact if_neg (by omega)
    · rfl

theorem SenderAt.untilDelivery_lt (h : SenderAt u g) (hg : g.carries = []) (ho : u.owes g ≠ [])
    (hs : u.tx.starts = none) (i : UartIn) :
    (u.tick 156 i).tx.untilDelivery < u.tx.untilDelivery := by
  have hlt := TxAt.regCounter_lt (h.tick i).tx
  cases hst : u.tx.state with
  | rst =>
    cases hc : u.tx.sregCe with
    | true =>
      simp only [UartTx.untilDelivery, Uart.tick, UartTx.tick, UartTx.nextState, hst, hc, if_true]
      omega
    | false =>
      have hne : u.tx.regCounter ≠ 0 := by simpa [UartTx.sregCe] using hc
      simp only [UartTx.untilDelivery, Uart.tick, UartTx.tick, UartTx.nextState, hst, hc,
        Bool.false_eq_true, if_false]
      omega
  | idle =>
    have hp : u.tx.pending = none := if_neg (by rw [hst]; simp)
    have hne : u.txFifo.empty = false := by
      refine Bool.eq_false_of_not_eq_true fun he ↦ ho ?_
      rw [Uart.owes, hg, hp, Fifo.empty_iff.mp he]
      rfl
    have hre : u.txRe = true := by simp [Uart.txRe, UartTx.busy, hne, hst]
    have hset : (u.tick 156 i).tx.state = .set := by
      simp [Uart.tick, UartTx.tick, UartTx.nextState, hst, hre]
    rw [UartTx.untilDelivery, UartTx.untilDelivery, hset, hst]
    simp only
    omega
  | set =>
    have hc : u.tx.sregCe = false := Bool.eq_false_of_not_eq_true fun hc ↦
      starts_eq_none hs hc hst
    have hne : u.tx.regCounter ≠ 0 := by simpa [UartTx.sregCe] using hc
    simp only [UartTx.untilDelivery, Uart.tick, UartTx.tick, UartTx.nextState, hst, hc,
      Bool.false_eq_true, if_false]
    omega
  | sending => exact absurd hst (h.tx.not_sending hg)

/-- **Every cycle without a delivery brings the next one nearer.** -/
theorem SenderAt.remaining_lt (h : SenderAt u g) (ho : u.owes g ≠ []) (hd : g.delivers = none)
    (i : UartIn) : (u.tick 156 i).remaining (g.next u.tx.starts) < u.remaining g := by
  by_cases hg : g.carries = []
  · rw [Uart.remaining, Uart.remaining, if_pos hg]
    cases hs : u.tx.starts with
    | some d =>
      obtain ⟨hst, -, -⟩ := starts_eq_some h.loaded hs
      have hset : u.tx.untilDelivery = 1488 + u.tx.regCounter := by rw [UartTx.untilDelivery, hst]
      rw [hset]
      change 1486 < 1488 + u.tx.regCounter
      omega
    | none =>
      rw [if_pos (Line.carries_next_nil hg)]
      exact h.untilDelivery_lt hg ho hs i
  · have hs : u.tx.starts = none := by
      by_contra hs
      exact hg (Line.carries_of_free (h.tx.free hs))
    rw [Uart.remaining, Uart.remaining, if_neg hg, hs]
    cases g with
    | idle => exact absurd rfl hg
    | frame b t =>
      have ht : t ≤ 1485 := by
        by_contra hgt
        exact hg (if_neg hgt)
      have hne : t ≠ 1485 := by
        rintro rfl
        cases hd
      have hnext : (Line.frame b t).next none = .frame b (t + 1) := if_pos (by omega)
      have hc : (Line.frame b (t + 1)).carries ≠ [] := by
        rw [Line.carries, if_pos (by omega)]
        simp
      rw [hnext, if_neg hc]
      change 1486 - (t + 1) < 1486 - t
      omega

end

/-! ## The receiver -/

/-- A receiver at a line. -/
structure ReceiverAt (u : Uart) (g : Line) : Prop where
  rx : RxAt u.rx g
  heard : Heard u.rx g
  fifo : u.rxFifo.Wf

section

variable {u : Uart} {g : Line}

theorem ReceiverAt.tick (h : ReceiverAt u g) (i : UartIn) (hi : i.rxd = g.level)
    (start : Option Byte) (hs : start ≠ none → g.Free) :
    ReceiverAt (u.tick 156 i) (g.next start) := by
  have hlt : ∀ b t, g = .frame b t → t < 1560 := by
    rintro b t rfl
    exact Hears.lt h.rx
  have hrx : (u.tick 156 i).rx = u.rx.tick 156 g.level := by
    rw [← hi]
    rfl
  exact ⟨hrx ▸ h.rx.tick h.heard start hs, hrx ▸ h.heard.tick hlt start hs, h.fifo.tick _ _ _⟩

/-- A byte that is delivered while the FIFO has room is read out of it later. -/
theorem ReceiverAt.fifo_tick (h : ReceiverAt u g) (i : UartIn)
    (hroom : u.rx.rdy = true → u.rxFifo.full = false) :
    u.rxFifo.contents ++ (if u.rx.rdy then [u.rx.data] else []) =
      (if u.rxRe i.re then [u.rxFifo.rdata] else []) ++ (u.tick 156 i).rxFifo.contents := by
  have hfifo := Fifo.contents_tick h.fifo u.rx.data u.rxWe (u.rxRe i.re)
  have hread : u.rxFifo.doRead (u.rxRe i.re) = u.rxRe i.re := by
    rw [Fifo.doRead_eq, Uart.rxRe]
    cases u.rxFifo.empty <;> simp
  have hwe : u.rxWe = u.rx.rdy := by
    rw [Uart.rxWe]
    cases hr : u.rx.rdy with
    | false => rfl
    | true => rw [hroom hr]; rfl
  have hwrite : u.rxFifo.doWrite u.rxWe (u.rxRe i.re) = u.rx.rdy := by
    rw [hwe]
    cases hr : u.rx.rdy with
    | false => rfl
    | true =>
      have hcount : u.rxFifo.count ≠ 2 ^ 5 := by simpa [Fifo.full] using hroom hr
      rw [Fifo.doWrite, decide_eq_true hcount]
      rfl
  rw [hread, hwrite] at hfifo
  change _ = _ ++ (u.rxFifo.tick u.rx.data u.rxWe (u.rxRe i.re)).contents
  rw [hfifo, ← List.append_assoc]
  congr 1
  cases hre : u.rxRe i.re with
  | false => rfl
  | true =>
    have hne : u.rxFifo.empty = false := by
      rw [Uart.rxRe, Bool.and_eq_true, Bool.not_eq_true'] at hre
      exact hre.2
    rw [Fifo.contents_eq_cons hne]
    rfl

end

/-! ## Out of reset -/

theorem senderAt_reset (txMem rxMem : BitVec 5 → Byte) :
    SenderAt (.reset uartCnt txMem rxMem) .idle where
  tx := ⟨rfl, rfl, show 155 < 156 by decide, show TxState.rst ≠ .sending by decide⟩
  loaded := ⟨fun _ ↦ rfl, fun h ↦ by cases h⟩
  fifo := .reset txMem

/-- A sender that nothing is pushed into stays as it is out of reset. -/
theorem senderAt_quiet {txMem rxMem : BitVec 5 → Byte} {i : ℕ → UartIn} {p : ℕ}
    (hi : ∀ k < p, (i k).we = false) :
    SenderAt (Uart.run i (.reset uartCnt txMem rxMem) p) .idle ∧
      (Uart.run i (.reset uartCnt txMem rxMem) p).owes .idle = [] := by
  induction p with
  | zero => exact ⟨senderAt_reset txMem rxMem, rfl⟩
  | succ p ih =>
    obtain ⟨h, ho⟩ := ih fun k hk ↦ hi k (by omega)
    have ho' := h.owes_tick (i p)
    rw [ho, Uart.txWe, hi p (by omega)] at ho'
    have hs : (Uart.run i (.reset uartCnt txMem rxMem) p).tx.starts = none := by
      rw [Uart.owes] at ho
      have hp : (Uart.run i (.reset uartCnt txMem rxMem) p).tx.pending = none := by
        simpa [Line.carries] using (List.append_eq_nil_iff.mp ho).1
      rw [UartTx.starts, hp, ite_self]
    have ht := h.tick (i p)
    rw [hs] at ho' ht
    exact ⟨ht, ho'.symm⟩

theorem receiverAt_reset (txMem rxMem : BitVec 5 → Byte) :
    ReceiverAt (.reset uartCnt txMem rxMem) .idle where
  rx := rfl
  heard := ⟨rfl, rfl⟩
  fifo := .reset rxMem

/-- A receiver of a high line receives nothing. -/
theorem receiverAt_quiet {txMem rxMem : BitVec 5 → Byte} {i : ℕ → UartIn} {q : ℕ}
    (hi : ∀ k < q, (i k).rxd = true) :
    ReceiverAt (Uart.run i (.reset uartCnt txMem rxMem) q) .idle ∧
      (Uart.run i (.reset uartCnt txMem rxMem) q).rxFifo.contents = [] := by
  induction q with
  | zero => exact ⟨receiverAt_reset txMem rxMem, rfl⟩
  | succ q ih =>
    obtain ⟨h, hc⟩ := ih fun k hk ↦ hi k (by omega)
    have hrdy : (Uart.run i (.reset uartCnt txMem rxMem) q).rx.rdy = false := by
      simp [UartRx.rdy, show _ = RxState.idle from h.rx]
    have hf := h.fifo_tick (i q) fun hr ↦ by rw [hrdy] at hr; cases hr
    rw [hc, hrdy] at hf
    refine ⟨h.tick (i q) (hi q (by omega)) none fun hs ↦ absurd rfl hs, ?_⟩
    exact (List.append_eq_nil_iff.mp hf.symm).2

/-! ## Runs -/

namespace Link

variable {l : Link} (inp : ℕ → LinkIn)

/-- The two are at one line. -/
theorem Ready.at_line (h : l.Ready) (n : ℕ) :
    SenderAt (run inp l n).sender (line inp l n) ∧
      ReceiverAt (run inp l n).receiver (line inp l n) := by
  induction n with
  | zero =>
    obtain ⟨txMem, rxMem, p, i, hi, hl⟩ := h.sender
    obtain ⟨txMem', rxMem', q, j, hj, hl'⟩ := h.receiver
    refine ⟨?_, ?_⟩
    · change SenderAt l.sender .idle
      rw [hl]
      exact (senderAt_quiet hi).1
    · change ReceiverAt l.receiver .idle
      rw [hl']
      exact (receiverAt_quiet hj).1
  | succ n ih =>
    exact ⟨ih.1.tick _, ih.2.tick _ ih.1.tx.txd _ ih.1.tx.free⟩

/-- What the receiver delivers is what the line delivers. -/
theorem Ready.delivers (h : l.Ready) (n : ℕ) :
    delivered inp l (n + 1) = delivered inp l n ++ (line inp l n).delivers.toList := by
  obtain ⟨-, hr⟩ := h.at_line inp n
  rw [delivered, ← (hr.rx.rdy hr.heard).1]
  cases (run inp l n).receiver.rx.rdy <;> rfl

/-- What is pushed is delivered or still owed. -/
theorem Ready.pushed_eq (h : l.Ready) (n : ℕ) :
    pushed inp l n = delivered inp l n ++ (run inp l n).sender.owes (line inp l n) := by
  induction n with
  | zero =>
    obtain ⟨txMem, rxMem, p, i, hi, hl⟩ := h.sender
    change [] = [] ++ l.sender.owes .idle
    rw [hl, (senderAt_quiet hi).2]
    rfl
  | succ n ih =>
    have ho := (h.at_line inp n).1.owes_tick (inp n).sender
    rw [pushed, ih, h.delivers inp, List.append_assoc, ho, List.append_assoc]
    rfl

theorem pushed_le {m n : ℕ} (hmn : m ≤ n) : pushed inp l m <+: pushed inp l n := by
  induction n, hmn using Nat.le_induction with
  | base => exact List.prefix_rfl
  | succ n _ ih => exact ih.trans (List.prefix_append _ _)

/-- While a byte is owed, one is delivered some time. -/
theorem Ready.next_delivery (h : l.Ready) (n : ℕ)
    (ho : (run inp l n).sender.owes (line inp l n) ≠ []) :
    ∃ m, n < m ∧ (delivered inp l n).length < (delivered inp l m).length := by
  induction hr : (run inp l n).sender.remaining (line inp l n) using Nat.strongRecOn
    generalizing n with
  | ind r ih =>
    obtain ⟨hs, -⟩ := h.at_line inp n
    cases hd : (line inp l n).delivers with
    | some b =>
      refine ⟨n + 1, by omega, ?_⟩
      rw [h.delivers inp, hd]
      simp
    | none =>
      have hlt := hs.remaining_lt ho hd (inp n).sender
      have ho' := hs.owes_tick (inp n).sender
      rw [hd] at ho'
      have hne : (run inp l (n + 1)).sender.owes (line inp l (n + 1)) ≠ [] := by
        change ((run inp l n).sender.tick 156 (inp n).sender).owes _ ≠ []
        intro hc
        change (run inp l n).sender.owes (line inp l n) ++ _ = [] ++ _ at ho'
        rw [List.nil_append] at ho'
        rw [line] at hc
        rw [hc] at ho'
        exact ho (List.append_eq_nil_iff.mp ho').1
      rw [hr] at hlt
      obtain ⟨m, hm, hlen⟩ := ih _ hlt (n + 1) hne rfl
      refine ⟨m, by omega, ?_⟩
      have hsame : delivered inp l (n + 1) = delivered inp l n := by
        rw [h.delivers inp, hd]
        exact List.append_nil _
      rwa [hsame] at hlen

/-- What is pushed is delivered some time. -/
theorem Ready.all_delivered (h : l.Ready) (n : ℕ) :
    ∃ m, n ≤ m ∧ pushed inp l n <+: delivered inp l m := by
  have hlen : ∀ k m, n ≤ m → (pushed inp l n).length ≤ (delivered inp l m).length + k →
      ∃ m', m ≤ m' ∧ (pushed inp l n).length ≤ (delivered inp l m').length := by
    intro k
    induction k with
    | zero => exact fun m _ hle ↦ ⟨m, le_rfl, hle⟩
    | succ k ih =>
      intro m hm hle
      by_cases hdone : (pushed inp l n).length ≤ (delivered inp l m).length
      · exact ⟨m, le_rfl, hdone⟩
      · have ho : (run inp l m).sender.owes (line inp l m) ≠ [] := by
          intro ho
          have hp := h.pushed_eq inp m
          rw [ho, List.append_nil] at hp
          have := (pushed_le (l := l) inp hm).length_le
          rw [hp] at this
          exact hdone this
        obtain ⟨m₁, hm₁, hlt⟩ := h.next_delivery inp m ho
        obtain ⟨m₂, hm₂, hle₂⟩ := ih m₁ (by omega) (by omega)
        exact ⟨m₂, by omega, hle₂⟩
  obtain ⟨m, hm, hle⟩ := hlen (pushed inp l n).length n le_rfl (by omega)
  have hd : delivered inp l m <+: pushed inp l m := by
    rw [h.pushed_eq inp]
    exact List.prefix_append _ _
  exact ⟨m, hm, List.prefix_of_prefix_length_le (pushed_le inp hm) hd hle⟩

/-- What is delivered while the RX FIFO has room is read out of it, or still in it. -/
theorem Ready.popped_eq (h : l.Ready) {n : ℕ}
    (hroom : ∀ k < n, (run inp l k).receiver.rx.rdy = true →
      (run inp l k).receiver.rxFifo.full = false) :
    popped inp l n ++ (run inp l n).receiver.rxFifo.contents = delivered inp l n := by
  induction n with
  | zero =>
    obtain ⟨txMem, rxMem, q, i, hi, hl⟩ := h.receiver
    change [] ++ l.receiver.rxFifo.contents = []
    rw [hl, (receiverAt_quiet hi).2]
    rfl
  | succ n ih =>
    have hf := (h.at_line inp n).2.fifo_tick ((run inp l n).rxIn (inp n)) (hroom n (by omega))
    rw [delivered, ← ih fun k hk ↦ hroom k (by omega), List.append_assoc, hf, popped,
      List.append_assoc]
    rfl

/-- **A serial round trip.**  Whatever is pushed into the sender's TX FIFO, and whenever, the
receiver's `rdy` pulses deliver it, byte for byte and in order, each without an error; the line is
high while no byte is on it; and what the receiver's RX FIFO has room for is read out of it. -/
theorem serial_round_trip (l : Link) (hl : l.Ready) (inp : ℕ → LinkIn) (n : ℕ) :
    delivered inp l n <+: pushed inp l n ∧
    (∃ m, n ≤ m ∧ pushed inp l n <+: delivered inp l m) ∧
    (run inp l n).receiver.rx.frameErr = false ∧
    (line inp l n = .idle → (run inp l n).sender.tx.txd = true) ∧
    ((∀ k < n, (run inp l k).receiver.rx.rdy = true →
        (run inp l k).receiver.rxFifo.full = false) →
      popped inp l n ++ (run inp l n).receiver.rxFifo.contents = delivered inp l n) := by
  obtain ⟨hs, hr⟩ := hl.at_line inp n
  refine ⟨?_, hl.all_delivered inp n, (hr.rx.rdy hr.heard).2, fun hg ↦ ?_, hl.popped_eq inp⟩
  · rw [hl.pushed_eq inp]
    exact List.prefix_append _ _
  · rw [hs.tx.txd, hg]
    rfl

/-- Two controllers out of reset. -/
def resetLink : Link :=
  ⟨.reset uartCnt (fun _ ↦ 0#8) fun _ ↦ 0#8, .reset uartCnt (fun _ ↦ 0#8) fun _ ↦ 0#8⟩

/-- `A`, pushed in the first cycle. -/
def pushA (n : ℕ) : LinkIn := ⟨⟨0x41#8, n = 0, false, true⟩, ⟨0#8, false, false, true⟩⟩

theorem serial_round_trip_A : ∃ m, [0x41#8] <+: delivered pushA resetLink m := by
  have hl : resetLink.Ready :=
    ⟨⟨_, _, 0, fun _ ↦ ⟨0#8, false, false, true⟩, by simp, rfl⟩,
      ⟨_, _, 0, fun _ ↦ ⟨0#8, false, false, true⟩, by simp, rfl⟩⟩
  obtain ⟨-, ⟨m, -, hm⟩, -⟩ := serial_round_trip resetLink hl pushA 1
  exact ⟨m, hm⟩

end Link

end Vux9k.Rtl

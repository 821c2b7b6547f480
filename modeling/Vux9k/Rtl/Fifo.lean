import Vux9k.Rtl.Uart

/-!
# `fifo_sync` is a bounded queue

`soc/uart/fifo_sync.veryl` with all its parameters: the fill level is a counter of `COUNT_WIDTH`
bits, which wraps around like the addresses.  `Fifo` has it as a number; `FifoSync.toFifo` relates
the two, as long as the counter can hold the depth.  Over both stands the queue of a given capacity,
`Queue`.
-/

set_option autoImplicit false

namespace Vux9k.Rtl

/-! ## The queue -/

/-- What is put to the FIFO in a cycle. -/
structure FifoIn (α : Type) : Type where
  wdata : α
  we : Bool
  re : Bool

namespace Queue

variable {α : Type} (capacity : ℕ)

/-- A read takes the head, if there is one. -/
def takes (q : List α) (i : FifoIn α) : Bool := i.re && !q.isEmpty

/-- A write is accepted, unless the queue is full and nothing is taken. -/
def accepts (q : List α) (i : FifoIn α) : Bool := i.we && (q.length ≠ capacity || takes q i)

/-- One cycle. -/
def next (q : List α) (i : FifoIn α) : List α :=
  (if takes q i then q.tail else q) ++ if accepts capacity q i then [i.wdata] else []

/-- The queue after `n` cycles. -/
def run (inp : ℕ → FifoIn α) : ℕ → List α
  | 0 => []
  | n + 1 => next capacity (run inp n) (inp n)

end Queue

/-! ## The module -/

/-- `fifo_sync`, with `WIDTH`, `LOG_DEPTH` and `COUNT_WIDTH`. -/
structure FifoSync (width logDepth countWidth : ℕ) : Type where
  mem : BitVec logDepth → BitVec width
  waddr : BitVec logDepth
  raddr : BitVec logDepth
  count : BitVec countWidth

namespace FifoSync

variable {width logDepth countWidth : ℕ}

/-- After a reset; the memory keeps what it holds. -/
def reset (mem : BitVec logDepth → BitVec width) : FifoSync width logDepth countWidth :=
  ⟨mem, BitVec.ofNat logDepth 0, BitVec.ofNat logDepth 0, BitVec.ofNat countWidth 0⟩

variable (f : FifoSync width logDepth countWidth)

/-- `DEPTH_COUNT`. -/
def depthCount (logDepth countWidth : ℕ) : BitVec countWidth :=
  BitVec.ofNat countWidth (1 <<< logDepth)

/-- `full`. -/
def full : Bool := f.count = depthCount logDepth countWidth

/-- `empty`. -/
def empty : Bool := f.count = BitVec.ofNat countWidth 0

/-- `rdata`. -/
def rdata : BitVec width := f.mem f.raddr

variable (i : FifoIn (BitVec width))

/-- `do_read`. -/
def doRead : Bool := i.re && f.count ≠ BitVec.ofNat countWidth 0

/-- `do_write`. -/
def doWrite : Bool := i.we && (f.count ≠ depthCount logDepth countWidth || f.doRead i)

/-- A clock edge. -/
def tick : FifoSync width logDepth countWidth where
  mem := if f.doWrite i then Function.update f.mem f.waddr i.wdata else f.mem
  waddr := if f.doWrite i then f.waddr + BitVec.ofNat logDepth 1 else f.waddr
  raddr := if f.doRead i then f.raddr + BitVec.ofNat logDepth 1 else f.raddr
  count := if f.doWrite i && !f.doRead i then f.count + BitVec.ofNat countWidth 1
    else if f.doRead i && !f.doWrite i then f.count - BitVec.ofNat countWidth 1
    else f.count

/-- The state after `n` cycles. -/
def run (inp : ℕ → FifoIn (BitVec width)) (f : FifoSync width logDepth countWidth) :
    ℕ → FifoSync width logDepth countWidth
  | 0 => f
  | n + 1 => (run inp f n).tick (inp n)

/-- The words that the first `n` cycles write. -/
def accepted (inp : ℕ → FifoIn (BitVec width)) (f : FifoSync width logDepth countWidth) :
    ℕ → List (BitVec width)
  | 0 => []
  | n + 1 => accepted inp f n ++ if (run inp f n).doWrite (inp n) then [(inp n).wdata] else []

/-- The words that the first `n` cycles read: what `rdata` shows. -/
def taken (inp : ℕ → FifoIn (BitVec width)) (f : FifoSync width logDepth countWidth) :
    ℕ → List (BitVec width)
  | 0 => []
  | n + 1 => taken inp f n ++ if (run inp f n).doRead (inp n) then [(run inp f n).rdata] else []

/-! ## The fill level as a number -/

/-- The FIFO with the fill level as a number. -/
def toFifo : Fifo (BitVec width) logDepth := ⟨f.mem, f.waddr, f.raddr, f.count.toNat⟩

variable {f i}

theorem toNat_depthCount (h : logDepth < countWidth) :
    (depthCount logDepth countWidth).toNat = 2 ^ logDepth := by
  rw [depthCount, BitVec.toNat_ofNat, Nat.one_shiftLeft]
  exact Nat.mod_eq_of_lt (Nat.pow_lt_pow_right Nat.one_lt_two h)

theorem count_eq_zero : f.count = BitVec.ofNat countWidth 0 ↔ f.toFifo.count = 0 := by
  rw [← BitVec.toNat_inj, BitVec.toNat_zero]
  rfl

theorem count_eq_depth (h : logDepth < countWidth) :
    f.count = depthCount logDepth countWidth ↔ f.toFifo.count = 2 ^ logDepth := by
  rw [← BitVec.toNat_inj, toNat_depthCount h]
  rfl

theorem full_toFifo (h : logDepth < countWidth) : f.full = f.toFifo.full :=
  decide_eq_decide.mpr (count_eq_depth h)

theorem empty_toFifo : f.empty = f.toFifo.empty := decide_eq_decide.mpr count_eq_zero

theorem doRead_toFifo : f.doRead i = f.toFifo.doRead i.re := by
  rw [doRead, Fifo.doRead, decide_eq_decide.mpr (not_congr count_eq_zero)]

theorem doWrite_toFifo (h : logDepth < countWidth) : f.doWrite i = f.toFifo.doWrite i.we i.re := by
  rw [doWrite, Fifo.doWrite, decide_eq_decide.mpr (not_congr (count_eq_depth h)), doRead_toFifo]

/-- The counter neither overflows nor runs below zero. -/
theorem toFifo_tick (h : logDepth < countWidth) (hwf : f.toFifo.Wf) :
    (f.tick i).toFifo = f.toFifo.tick i.wdata i.we i.re := by
  have hle : f.count.toNat ≤ 2 ^ logDepth := hwf.le
  have hlt : 2 ^ logDepth < 2 ^ countWidth := Nat.pow_lt_pow_right Nat.one_lt_two h
  have hone : 1 < 2 ^ countWidth := Nat.one_lt_two_pow (by omega)
  have hsucc : f.toFifo.doWrite i.we i.re = true → f.toFifo.doRead i.re = false →
      (f.count + BitVec.ofNat countWidth 1).toNat = f.count.toNat + 1 := by
    intro hw hr
    have hne : f.count.toNat ≠ 2 ^ logDepth := by
      rw [Fifo.doWrite, hr, Bool.or_false, Bool.and_eq_true, decide_eq_true_iff] at hw
      exact hw.2
    rw [BitVec.toNat_add, BitVec.toNat_ofNat, Nat.mod_eq_of_lt hone]
    exact Nat.mod_eq_of_lt (by omega)
  have hpred :
      f.toFifo.doRead i.re = true →
      (f.count - BitVec.ofNat countWidth 1).toNat = f.count.toNat - 1 := by
    intro hr
    have hne : f.count.toNat ≠ 0 := by
      rw [Fifo.doRead, Bool.and_eq_true, decide_eq_true_iff] at hr
      exact hr.2
    rw [BitVec.toNat_sub_of_le, BitVec.toNat_ofNat, Nat.mod_eq_of_lt hone]
    rw [BitVec.le_def, BitVec.toNat_ofNat, Nat.mod_eq_of_lt hone]
    omega
  unfold tick Fifo.tick
  rw [doRead_toFifo, doWrite_toFifo h]
  cases hr : f.toFifo.doRead i.re with
  | false =>
    cases hw : f.toFifo.doWrite i.we i.re with
    | false => rfl
    | true => exact congrArg (Fifo.mk _ _ _) (hsucc hw hr)
  | true =>
    cases hw : f.toFifo.doWrite i.we i.re with
    | false => exact congrArg (Fifo.mk _ _ _) (hpred hr)
    | true => rfl

/-! ## The refinement -/

/-- The FIFO holds the queue. -/
structure Holds (f : FifoSync width logDepth countWidth) (q : List (BitVec width)) : Prop where
  wf : f.toFifo.Wf
  contents : f.toFifo.contents = q

variable {q : List (BitVec width)}

theorem Holds.length (h : f.Holds q) : q.length = f.toFifo.count := by
  rw [← h.contents, Fifo.contents, length_ringList]

theorem Holds.empty (h : f.Holds q) : f.empty = true ↔ q = [] := by
  rw [empty_toFifo, Fifo.empty_iff, h.contents]

theorem Holds.full (hc : logDepth < countWidth) (h : f.Holds q) :
    f.full = true ↔ q.length = 2 ^ logDepth := by
  rw [full_toFifo hc, Fifo.full_iff, h.contents]

theorem Holds.rdata (h : f.Holds q) (hq : q ≠ []) : q = f.rdata :: q.tail := by
  have hempty : f.toFifo.empty = false := by
    rw [← Bool.not_eq_true, Fifo.empty_iff, h.contents]
    exact hq
  have hcons := Fifo.contents_eq_cons hempty
  rw [h.contents] at hcons
  rw [hcons]
  rfl

theorem Holds.doRead (h : f.Holds q) : f.doRead i = Queue.takes q i := by
  rw [doRead_toFifo, Fifo.doRead_eq, Queue.takes]
  congr 2
  rw [Bool.eq_iff_iff, Fifo.empty_iff, h.contents, List.isEmpty_iff]

theorem Holds.doWrite (hc : logDepth < countWidth) (h : f.Holds q) :
    f.doWrite i = Queue.accepts (2 ^ logDepth) q i := by
  rw [doWrite_toFifo hc, Fifo.doWrite, Queue.accepts, ← h.length, ← doRead_toFifo, h.doRead]

/-- **A clock edge of the FIFO is a step of the queue.** -/
theorem Holds.tick (hc : logDepth < countWidth) (h : f.Holds q) :
    (f.tick i).Holds (Queue.next (2 ^ logDepth) q i) where
  wf := by
    rw [toFifo_tick hc h.wf]
    exact h.wf.tick i.wdata i.we i.re
  contents := by
    rw [toFifo_tick hc h.wf, Fifo.contents_tick h.wf, ← doRead_toFifo, ← doWrite_toFifo hc,
      h.doRead,
      h.doWrite hc, h.contents, Queue.next]

theorem holds_reset (mem : BitVec logDepth → BitVec width) :
    Holds (reset mem : FifoSync width logDepth countWidth) [] where
  wf := by
    have hzero : (reset mem : FifoSync width logDepth countWidth).toFifo = Fifo.reset mem := by
      rw [toFifo, reset, Fifo.reset, BitVec.toNat_zero]
    rw [hzero]
    exact .reset mem
  contents := by
    rw [Fifo.contents, toFifo, reset, BitVec.toNat_zero]
    rfl

variable (inp : ℕ → FifoIn (BitVec width))

theorem holds_run (hc : logDepth < countWidth) (mem : BitVec logDepth → BitVec width) (n : ℕ) :
    (run inp (reset mem : FifoSync width logDepth countWidth) n).Holds
      (Queue.run (2 ^ logDepth) inp n) := by
  induction n with
  | zero => exact holds_reset mem
  | succ n ih => exact ih.tick hc

/-- What has been written is what has been read, and after it what is still there. -/
theorem accepted_eq (hc : logDepth < countWidth) (mem : BitVec logDepth → BitVec width) (n : ℕ) :
    accepted inp (reset mem : FifoSync width logDepth countWidth) n =
      taken inp (reset mem : FifoSync width logDepth countWidth) n ++
        Queue.run (2 ^ logDepth) inp n := by
  induction n with
  | zero => rfl
  | succ n ih =>
    have h : (run inp (reset mem : FifoSync width logDepth countWidth) n).Holds
        (Queue.run (2 ^ logDepth) inp n) := holds_run inp hc mem n
    rw [accepted, taken, ih, Queue.run, Queue.next, h.doRead, h.doWrite hc, List.append_assoc,
      List.append_assoc]
    cases ht : Queue.takes (Queue.run (2 ^ logDepth) inp n) (inp n) with
    | false => rfl
    | true =>
      have hq : Queue.run (2 ^ logDepth) inp n ≠ [] := by
        intro hq
        rw [Queue.takes, hq, List.isEmpty_nil, Bool.not_true, Bool.and_false] at ht
        cases ht
      rw [if_pos rfl, if_pos rfl, ← List.append_assoc [_] (Queue.run (2 ^ logDepth) inp n).tail,
        List.singleton_append, ← h.rdata hq]

/-- **`fifo_sync` is a queue of `2 ^ LOG_DEPTH` words**, whatever is put to it from reset on: it
reads the head if there is one, it writes unless it is full and nothing is read, `rdata` is the
head, `empty` and `full` are exact, and the words written come out once each and in order. -/
theorem fifo_sync_is_queue (hc : logDepth < countWidth) (mem : BitVec logDepth → BitVec width)
    (n : ℕ)
    {f : FifoSync width logDepth countWidth} (hf : run inp (reset mem) n = f)
    {q : List (BitVec width)} (hq : Queue.run (2 ^ logDepth) inp n = q) :
    q.length ≤ 2 ^ logDepth ∧ (f.empty = true ↔ q = []) ∧
    (f.full = true ↔ q.length = 2 ^ logDepth) ∧
      (q ≠ [] → q.head? = some f.rdata) ∧
      f.doRead (inp n) = Queue.takes q (inp n) ∧
      f.doWrite (inp n) = Queue.accepts (2 ^ logDepth) q (inp n) ∧
      accepted inp (reset mem : FifoSync width logDepth countWidth) n =
        taken inp (reset mem : FifoSync width logDepth countWidth) n ++ q := by
  have h : f.Holds q := by
    rw [← hf, ← hq]
    exact holds_run inp hc mem n
  have haccepted := @accepted_eq width logDepth countWidth inp hc mem n
  rw [hq] at haccepted
  refine ⟨?_, h.empty, h.full hc, fun hne ↦ ?_, h.doRead, h.doWrite hc, haccepted⟩
  · rw [h.length]
    exact h.wf.le
  · rw [h.rdata hne]
    rfl

/-- A FIFO of two words to which a word is written in every cycle, and read from the third on. -/
def steadyInputs (n : ℕ) : FifoIn (BitVec 8) := ⟨BitVec.ofNat 8 n, true, decide (2 ≤ n)⟩

theorem fifo_sync_is_queue_steady :
    accepted steadyInputs (reset (fun _ ↦ 0#8) : FifoSync 8 1 2) 5 = [0#8, 1#8, 2#8, 3#8, 4#8] ∧
      taken steadyInputs (reset (fun _ ↦ 0#8) : FifoSync 8 1 2) 5 ++ [3#8, 4#8] =
        [0#8, 1#8, 2#8, 3#8, 4#8] := by
  obtain ⟨-, -, -, -, -, -, haccepted⟩ := @fifo_sync_is_queue 8 1 2 steadyInputs
    (by decide) (fun _ ↦ 0#8) 5 _ rfl [3#8, 4#8] (by decide)
  have hwords : accepted steadyInputs (reset (fun _ ↦ 0#8) : FifoSync 8 1 2) 5 =
      [0#8, 1#8, 2#8, 3#8, 4#8] := by decide
  exact ⟨hwords, haccepted.symm.trans hwords⟩

end FifoSync

end Vux9k.Rtl

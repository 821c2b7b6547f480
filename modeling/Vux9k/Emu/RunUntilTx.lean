import Vux9k.Emu.MachineCalls
import Vux9k.Lib.Search

/-!
# Waiting for the UART's output

`run_until_tx` of `emu/crates/vux9k_emu/src/soc.rs` does not look at the output before every step:
not until the next byte can have arrived, and then only at what is new.  It stops where looking at
all of the output before every step would (`runUntilTx_eq`).
-/

set_option autoImplicit false

namespace Vux9k.Emu.Soc

/-! ## The loops -/

/-- The UART. -/
def uart (s : Soc Machine) : Uart := s.mem.periph.uart

/-- The UART, replaced. -/
def withUart (s : Soc Machine) (uart : Uart) : Soc Machine :=
  s.withMem (s.mem.withPeriph { s.mem.periph with uart })

/-- `uart_received`. -/
def uartReceived (s : Soc Machine) : List Byte × Soc Machine :=
  let uart := s.uart.advance s.cycle
  (uart.txBytes.take (uart.txCompleteBy s.cycle), s.withUart uart)

/-- `uart_send`. -/
def uartSend (s : Soc Machine) (bytes : List Byte) : Soc Machine :=
  s.withUart (s.uart.hostSend bytes s.cycle)

/-- What a round of `run_until_tx` has found, its `searched` and `next_check`, and the machine. -/
structure Look : Type where
  found : Option ℕ
  searched : ℕ
  nextCheck : ℕ
  soc : Soc Machine

/-- A round of `run_until_tx` up to the test of the cycle. -/
def look (needle : List Byte) (fromByte searched nextCheck : ℕ) (s : Soc Machine) : Look :=
  if nextCheck ≤ s.cycle then
    let c := s.cycle
    let (got, s) := s.uartReceived
    let n := got.length
    let start := max (searched - needle.length) fromByte
    { found := if searched < n then
        (position needle (got.drop start)).map fun p ↦ start + p + needle.length else none
      searched := if searched < n then n else searched
      nextCheck := s.uart.nextTxComplete n c
      soc := s }
  else ⟨none, searched, nextCheck, s⟩

/-- The loop of `run_until_tx`: its result, the number of steps and the machine after it. -/
def runUntilTxLoop (needle : List Byte) (fromByte stop : ℕ) :
    ℕ → ℕ → ℕ → ℕ → Soc Machine → Option (Option ℕ × ℕ × Soc Machine)
  | 0, _, _, _, _ => none
  | fuel + 1, searched, nextCheck, steps, s =>
    let l := look needle fromByte searched nextCheck s
    if l.found.isSome then some (l.found, steps, l.soc)
    else if stop ≤ l.soc.cycle then some (none, steps, l.soc)
    else runUntilTxLoop needle fromByte stop fuel l.searched l.nextCheck (steps + 1) l.soc.step.1

/-- `end`. -/
def runEnd (s : Soc Machine) (maxCycles : ℕ) : ℕ := min (s.cycle + maxCycles) (2 ^ 64 - 1)

/-- `run_until_tx`; a step takes a cycle at least, so there are rounds enough. -/
def runUntilTx (needle : List Byte) (fromByte maxCycles : ℕ) (s : Soc Machine) :
    Option (Option ℕ × ℕ × Soc Machine) :=
  runUntilTxLoop needle fromByte (s.runEnd maxCycles) (maxCycles + 1) fromByte 0 0 s

/-- The plain loop: before every step, it looks for the first occurrence in all of the output. -/
def plainLoop (needle : List Byte) (fromByte stop : ℕ) :
    ℕ → ℕ → Soc Machine → Option (Option ℕ × ℕ × Soc Machine)
  | 0, _, _ => none
  | fuel + 1, steps, s =>
    let (got, s) := s.uartReceived
    let found := (position needle (got.drop fromByte)).map fun p ↦ fromByte + p + needle.length
    if found.isSome then some (found, steps, s)
    else if stop ≤ s.cycle then some (none, steps, s)
    else plainLoop needle fromByte stop fuel (steps + 1) s.step.1

/-- The plain loop, with the limit of `run_until_tx`. -/
def plainUntilTx (needle : List Byte) (fromByte maxCycles : ℕ) (s : Soc Machine) :
    Option (Option ℕ × ℕ × Soc Machine) :=
  plainLoop needle fromByte (s.runEnd maxCycles) (maxCycles + 1) 0 s

/-! ## The states a machine can be in -/

/-- What a machine can have come to. -/
inductive Reachable : Soc Machine → Prop
  /-- power-on, with anything in the memories and the socket -/
  | powerOn {s : Soc Machine} (cycle : s.cycle = 0) (uart : s.uart = .default)
      (gpio : s.mem.periph.gpio = .default) : Reachable s
  | step {s : Soc Machine} (h : Reachable s) : Reachable s.step.1
  /-- `host_send`, of bytes for which what it asserts holds -/
  | send {s : Soc Machine} (h : Reachable s) (bytes : List Byte) (c : ℕ) (ok : s.uart.SendOk c) :
      Reachable (s.withUart (s.uart.hostSend bytes c))
  | received {s : Soc Machine} (h : Reachable s) : Reachable s.uartReceived.2
  /-- anything that leaves the clock, the UART and the pending soft reset alone: the button, a card,
  a load, a register that is set from outside -/
  | outside {s s' : Soc Machine} (h : Reachable s) (cycle : s'.cycle = s.cycle)
      (uart : s'.uart = s.uart) (pending : s'.mem.periph.gpio.pending = s.mem.periph.gpio.pending) :
      Reachable s'

/-- The UART has not been advanced past the clock, and no soft reset is left to be taken. -/
structure Ready (s : Soc Machine) : Prop where
  wf : s.uart.Wf
  now : s.uart.now ≤ s.cycle
  pending : s.mem.periph.gpio.pending = none

variable {s : Soc Machine} {y : Machine} {c t k n : ℕ} {base : List (Byte × ℕ)}

/-- The machine itself is one that it cannot be told apart from. -/
theorem Ready.calm (h : s.Ready) (hs : Uart.Since c base s.uart) :
    Machine.Calm c base s.cycle s.mem s.mem :=
  ⟨rfl, rfl, rfl, ⟨rfl, rfl, rfl, rfl, rfl, .refl h.wf h.now, hs⟩, h.pending⟩

theorem ready_of_calm (h : Machine.Calm c base s.cycle s.mem y) : s.Ready :=
  ⟨h.outside.1.periph.uart.wf, h.outside.1.periph.uart.now, h.outside.2⟩

/-- **Every reachable state is ready.** -/
theorem Reachable.ready (h : Reachable s) : s.Ready := by
  induction h with
  | powerOn cycle uart gpio =>
    exact ⟨by rw [uart]; exact Uart.wf_default, by rw [uart, cycle]; exact le_rfl, by
      rw [gpio]; rfl⟩
  | step h ih =>
    obtain ⟨y, -, hcalm, -⟩ := step_same (ih.calm (Uart.Since.refl rfl))
    exact ready_of_calm hcalm
  | send h bytes c ok ih =>
    obtain ⟨hwf, hnow⟩ := ih.wf.hostSend ok bytes
    exact ⟨hwf, hnow.le.trans ih.now, ih.pending⟩
  | received h ih =>
    obtain ⟨-, hwf⟩ := Uart.advance_eq ih.wf ih.now
    exact ⟨hwf, (Uart.advance_now ih.wf ih.now).le, ih.pending⟩
  | outside h cycle uart pending ih =>
    exact ⟨uart ▸ ih.wf, by rw [uart, cycle]; exact ih.now, pending.trans ih.pending⟩

/-- **`uart_send` never fails**: what `host_send` asserts holds in every reachable state. -/
theorem Reachable.uartSend (h : Reachable s) (bytes : List Byte) :
    s.uart.SendOk s.cycle ∧ Reachable (s.uartSend bytes) := by
  have hok : s.uart.SendOk s.cycle :=
    (h.ready.now.trans (Nat.le_max_right _ _)).trans (Nat.le_add_right _ _)
  exact ⟨hok, h.send bytes s.cycle hok⟩

/-- `new` of the `Real` profile, with its ROM and a card in the socket or none. -/
def new (rom : ℕ → Word) (card : Option Sd.Card) : Soc Machine where
  cycle := 0
  regs := fun _ ↦ 0#32
  pc := 0#32
  csr := .default
  riscvMode := true
  mExt := true
  reservation := none
  mcycleWritten := none
  mem := ⟨false, false, none,
    ⟨⟨⟨rom, 0xFFF#32, fun _ ↦ 0#32, true⟩, .default⟩, .default card false⟩⟩

/-- `lui x1, 0x40000`, `addi x2, x0, 'A'`, `sw x2, 0(x1)`, and then `divu x3, x1, x2` again and
again. -/
def writeA : ℕ → Word
  | 0 => 0x400000B7#32
  | 1 => 0x04100113#32
  | 2 => 0x0020A023#32
  | 3 => 0x0220D1B3#32
  | _ => 0xFFDFF06F#32

/-! ## What has arrived -/

/-- The first `k` bytes that have been sent. -/
def seen (u : Uart) (k : ℕ) : List Byte := (u.txOut.map Prod.fst).take k

theorem txCompleteBy_le (u : Uart) (c : ℕ) : u.txCompleteBy c ≤ u.txOut.length :=
  (List.takeWhile_prefix _).length_le

/-- More is complete later. -/
theorem txCompleteBy_mono {u v : Uart} (h : Uart.Since c u.txOut v) (hct : c ≤ t) :
    u.txCompleteBy c ≤ v.txCompleteBy t := by
  obtain ⟨-, new, hout, -⟩ := h
  unfold Uart.txCompleteBy
  rw [hout]
  induction u.txOut with
  | nil => exact Nat.zero_le _
  | cons b bs ih =>
    rw [List.cons_append, List.takeWhile_cons, List.takeWhile_cons]
    split
    case isTrue hb =>
      rw [if_pos (decide_eq_true ((of_decide_eq_true hb).trans hct)), List.length_cons,
        List.length_cons]
      omega
    case isFalse => exact Nat.zero_le _

theorem seen_since {u v : Uart} (h : Uart.Since c u.txOut v) (hk : k ≤ u.txCompleteBy c) :
    seen v k = seen u k := by
  obtain ⟨-, new, hout, -⟩ := h
  have hlen := hk.trans (txCompleteBy_le u c)
  rw [seen, seen, hout, List.map_append, List.take_append_of_le_length (by rwa [List.length_map])]

theorem length_seen {u : Uart} (hk : k ≤ u.txCompleteBy c) : (seen u k).length = k := by
  have hlen := hk.trans (txCompleteBy_le u c)
  rw [seen, List.length_take, List.length_map, Nat.min_eq_left hlen]

theorem uartReceived_eq (h : s.Ready) :
    s.uartReceived.1 =
      seen (s.uart.advance s.cycle) ((s.uart.advance s.cycle).txCompleteBy s.cycle) := by
  obtain ⟨-, hwf⟩ := Uart.advance_eq h.wf h.now
  unfold uartReceived seen
  dsimp only
  rw [hwf.bytes]

/-! ## A round -/

/-- Between two looks: `u` is the UART of the last one, in cycle `c`, when `k` bytes had arrived. -/
structure Looked (needle : List Byte) (fromByte searched nextCheck : ℕ) (u : Uart) (c k : ℕ)
    (s : Soc Machine) (y : Machine) : Prop where
  calm : Machine.Calm c u.txOut s.cycle s.mem y
  arrived : k ≤ u.txCompleteBy c
  searched : searched = max fromByte k
  absent : ∀ j, ¬OccursAt needle ((seen u k).drop fromByte) j
  next : nextCheck = 0 ∨ k = u.txCompleteBy c ∧ nextCheck = u.nextTxComplete k c

namespace Looked

variable {needle : List Byte} {fromByte searched nextCheck : ℕ} {u : Uart}

theorem since (h : Looked needle fromByte searched nextCheck u c k s y) :
    Uart.Since c u.txOut (s.uart.advance s.cycle) :=
  h.calm.outside.1.periph.since.advance h.calm.outside.1.periph.uart.wf
    h.calm.outside.1.periph.uart.now

theorem le (h : Looked needle fromByte searched nextCheck u c k s y) : c ≤ s.cycle :=
  h.calm.outside.1.periph.since.1.trans h.calm.outside.1.periph.uart.now

/-- Both have received the same. -/
theorem received (h : Looked needle fromByte searched nextCheck u c k s y) :
    (s.withMem y).uartReceived.1 = s.uartReceived.1 := by
  have halike := (h.calm.outside.1.periph.uart.advance le_rfl).alike
  have hbytes :
      ((s.withMem y).uart.advance s.cycle).txBytes = (s.uart.advance s.cycle).txBytes := by
    rw [show (s.withMem y).uart.advance s.cycle = y.outside.periph.uart.advance s.cycle from rfl,
      halike]
    rfl
  have hout : ((s.withMem y).uart.advance s.cycle).txOut = (s.uart.advance s.cycle).txOut := by
    rw [show (s.withMem y).uart.advance s.cycle = y.outside.periph.uart.advance s.cycle from rfl,
      halike]
    rfl
  unfold uartReceived Uart.txCompleteBy
  rw [show (s.withMem y).cycle = s.cycle from rfl]
  dsimp only
  rw [hbytes, hout]

/-- No occurrence ends in what has been searched. -/
theorem absent_take (h : Looked needle fromByte searched nextCheck u c k s y) (hne : needle ≠ [])
    (j : ℕ) : ¬OccursAt needle ((s.uartReceived.1.take searched).drop fromByte) j := by
  have hmono := txCompleteBy_mono h.since h.le
  rw [uartReceived_eq (ready_of_calm h.calm), h.searched]
  rcases Nat.le_total fromByte k with hk | hk
  · rw [Nat.max_eq_right hk, seen, List.take_take, Nat.min_eq_left (h.arrived.trans hmono), ← seen,
      seen_since h.since h.arrived]
    exact h.absent j
  · rw [Nat.max_eq_left hk, List.drop_take, Nat.sub_self, List.take_zero]
    intro hocc
    have := hocc.le hne
    have := List.length_pos_iff.mpr hne
    rw [List.length_nil] at *
    omega

/-- **Before `next_check` nothing has arrived.** -/
theorem skipped (h : Looked needle fromByte searched nextCheck u c k s y)
    (hskip : s.cycle < nextCheck) : s.uartReceived.1 = seen u k := by
  obtain ⟨hk, hnext⟩ : k = u.txCompleteBy c ∧ nextCheck = u.nextTxComplete k c := by
    rcases h.next with hzero | hnext
    · omega
    · exact hnext
  have hsame : (s.uart.advance s.cycle).txCompleteBy s.cycle = k := by
    rw [hk]
    exact Uart.txCompleteBy_eq h.since h.le (by rw [← hk, ← hnext]; exact hskip)
  rw [uartReceived_eq (ready_of_calm h.calm), hsame, seen_since h.since h.arrived]

/-- **A search from `searched` finds what a search from `from` does.** -/
theorem found (h : Looked needle fromByte searched nextCheck u c k s y) (hne : needle ≠ []) :
    (if searched < s.uartReceived.1.length then
        (position needle (s.uartReceived.1.drop (max (searched - needle.length) fromByte))).map
          fun p ↦ max (searched - needle.length) fromByte + p + needle.length
      else none) =
      (position needle (s.uartReceived.1.drop fromByte)).map
        fun p ↦ fromByte + p + needle.length := by
  have habsent := h.absent_take hne
  split
  case isTrue =>
    have := congrArg (Option.map (· + needle.length)) (position_overlap hne habsent)
    rw [Option.map_map, Option.map_map] at this
    exact this
  case isFalse hle =>
    rw [List.take_of_length_le (by omega)] at habsent
    rw [(position_eq_none_iff hne).mpr habsent]
    rfl

/-- The plain loop's UART may be advanced. -/
theorem advance_right (h : Looked needle fromByte searched nextCheck u c k s y) :
    ∃ y', (s.withMem y).uartReceived.2 = s.withMem y' ∧
      Looked needle fromByte searched nextCheck u c k s y' :=
  ⟨_, rfl, { h with calm := calm_withPeriph h.calm (h.calm.outside.1.periph.withUart
    h.calm.outside.1.periph.uart.advance_right h.calm.outside.1.periph.since) h.calm.outside.2 }⟩

/-- Both are advanced by a look, and it has nothing found. -/
theorem looked (h : Looked needle fromByte searched nextCheck u c k s y)
    (habsent : ∀ j, ¬OccursAt needle (s.uartReceived.1.drop fromByte) j) :
    ∃ y', (s.withMem y).uartReceived.2 = s.uartReceived.2.withMem y' ∧
      Looked needle fromByte
        (if searched < s.uartReceived.1.length then s.uartReceived.1.length else searched)
        ((s.uart.advance s.cycle).nextTxComplete s.uartReceived.1.length s.cycle)
        (s.uart.advance s.cycle) s.cycle s.uartReceived.1.length s.uartReceived.2 y' := by
  have hmono := txCompleteBy_mono h.since h.le
  have hsync := h.calm.outside.1.periph.uart.advance le_rfl
  have hrec := uartReceived_eq (ready_of_calm h.calm)
  have hlen : s.uartReceived.1.length = (s.uart.advance s.cycle).txCompleteBy s.cycle := by
    rw [hrec, length_seen le_rfl]
  have hk := h.arrived.trans hmono
  have hsame := h.calm.outside.1.periph
  refine ⟨_, rfl, ⟨h.calm.v03, h.calm.isaTest, h.calm.tohost, ⟨h.calm.outside.1.window,
    ⟨hsame.clint, hsame.gpio, hsame.btn, hsame.sd, hsync.from, Uart.Since.refl hsync.now⟩⟩,
    h.calm.outside.2⟩, hlen.le, ?_, ?_, ?_⟩
  · rw [h.searched]
    split <;> omega
  · rw [hlen, ← hrec]
    exact habsent
  · exact .inr ⟨hlen, rfl⟩

/-- **A round finds what the plain loop does.** -/
theorem round (h : Looked needle fromByte searched nextCheck u c k s y) (hne : needle ≠ []) :
    ∃ l y', look needle fromByte searched nextCheck s = l ∧
      (s.withMem y).uartReceived.2 = l.soc.withMem y' ∧ l.soc.cycle = s.cycle ∧
      l.found = (position needle ((s.withMem y).uartReceived.1.drop fromByte)).map
        (fun p ↦ fromByte + p + needle.length) ∧
      (l.found = none → ∃ u' c' k',
        Looked needle fromByte l.searched l.nextCheck u' c' k' l.soc y') := by
  refine ⟨look needle fromByte searched nextCheck s, ?_⟩
  rw [h.received]
  by_cases hcheck : nextCheck ≤ s.cycle
  · have hlook : look needle fromByte searched nextCheck s =
        ⟨(position needle (s.uartReceived.1.drop fromByte)).map
          fun p ↦ fromByte + p + needle.length,
          if searched < s.uartReceived.1.length then s.uartReceived.1.length else searched,
          (s.uart.advance s.cycle).nextTxComplete s.uartReceived.1.length s.cycle,
          s.uartReceived.2⟩ := by
      rw [← h.found hne, look, if_pos hcheck]
      rfl
    rw [hlook]
    cases hpos : position needle (s.uartReceived.1.drop fromByte) with
    | some p => exact ⟨_, rfl, rfl, rfl, rfl, by rintro ⟨⟩⟩
    | none =>
      obtain ⟨y', hy', hlooked⟩ := h.looked ((position_eq_none_iff hne).mp hpos)
      exact ⟨y', rfl, hy', rfl, rfl, fun _ ↦ ⟨_, _, _, hlooked⟩⟩
  · have hlook : look needle fromByte searched nextCheck s = ⟨none, searched, nextCheck, s⟩ := by
      rw [look, if_neg hcheck]
    have hnone : position needle (s.uartReceived.1.drop fromByte) = none := by
      rw [h.skipped (by omega)]
      exact (position_eq_none_iff hne).mpr h.absent
    obtain ⟨y', hy', hlooked⟩ := h.advance_right
    rw [hlook, hnone]
    exact ⟨y', rfl, hy', rfl, rfl, fun _ ↦ ⟨_, _, _, hlooked⟩⟩

/-- A step on both sides. -/
theorem step (h : Looked needle fromByte searched nextCheck u c k s y) :
    ∃ y', (s.withMem y).step.1 = s.step.1.withMem y' ∧ s.cycle < s.step.1.cycle ∧
      Looked needle fromByte searched nextCheck u c k s.step.1 y' := by
  obtain ⟨y', hstep, hcalm, hlt⟩ := step_same h.calm
  exact ⟨y', congrArg Prod.fst hstep, hlt, { h with calm := hcalm }⟩

/-- **The loops stop together.** -/
theorem run (h : Looked needle fromByte searched nextCheck u c k s y) (hne : needle ≠ [])
    {stop fuel : ℕ} (hfuel : stop < s.cycle + fuel) (hpos : 0 < fuel) (steps : ℕ) :
    ∃ result n s' y', runUntilTxLoop needle fromByte stop fuel searched nextCheck steps s =
        some (result, n, s') ∧
      plainLoop needle fromByte stop fuel steps (s.withMem y) =
        some (result, n, s'.withMem y') := by
  induction fuel generalizing searched nextCheck u c k s y steps with
  | zero => omega
  | succ fuel ih =>
    obtain ⟨l, y₁, hlook, hplain, hcycle, hfound, hnext⟩ := h.round hne
    rw [runUntilTxLoop, plainLoop, hlook]
    dsimp only
    rw [← hfound, hplain]
    split
    case isTrue hsome => exact ⟨_, _, _, y₁, rfl, rfl⟩
    case isFalse hnone =>
      rw [show (l.soc.withMem y₁).cycle = l.soc.cycle from rfl]
      split
      case isTrue hstop => exact ⟨none, steps, l.soc, y₁, rfl, rfl⟩
      case isFalse hstop =>
        obtain ⟨u', c', k', hlooked⟩ := hnext (by simpa using hnone)
        obtain ⟨y₂, hstep, hlt, hlooked'⟩ := hlooked.step
        rw [hstep]
        exact ih hlooked' (by omega) (by omega) (steps + 1)

end Looked

/-- **`run_until_tx` misses nothing**: it stops after the same number of steps and with the same
result as the loop that looks for the first occurrence in all of the output before every step. -/
theorem runUntilTx_eq (hs : Reachable s) {needle : List Byte} (hne : needle ≠ [])
    (fromByte maxCycles : ℕ) :
    ∃ result steps s' y, runUntilTx needle fromByte maxCycles s = some (result, steps, s') ∧
      plainUntilTx needle fromByte maxCycles s = some (result, steps, s'.withMem y) := by
  have hcalm := hs.ready.calm (Uart.Since.refl rfl)
  have hlooked : Looked needle fromByte fromByte 0 s.uart s.uart.now 0 s s.mem :=
    ⟨hcalm, Nat.zero_le _, by omega, fun j hocc ↦ by
      have := hocc.le hne
      have := List.length_pos_iff.mpr hne
      simp only [seen, List.take_zero, List.drop_nil, List.length_nil] at *
      omega, .inl rfl⟩
  have hend : s.runEnd maxCycles ≤ s.cycle + maxCycles := Nat.min_le_left _ _
  exact hlooked.run hne (by omega) (Nat.succ_pos _) 0

/-- A program that writes a byte, and a wait for it: the byte is there after 104 steps. -/
theorem runUntilTx_eq_byte :
    ∃ s' y, runUntilTx [0x41#8] 0 10000 (new writeA none) = some (some 1, 104, s') ∧
      plainUntilTx [0x41#8] 0 10000 (new writeA none) = some (some 1, 104, s'.withMem y) := by
  obtain ⟨result, steps, s', y, hrun, hplain⟩ :=
    @runUntilTx_eq (new writeA none) (.powerOn rfl rfl rfl) [0x41#8] (by decide) 0 10000
  have hfound : (runUntilTx [0x41#8] 0 10000 (new writeA none)).map (fun r ↦ (r.1, r.2.1)) =
      some (some 1, 104) := by
    decide +kernel
  rw [hrun] at hfound
  cases hfound
  exact ⟨s', y, hrun, hplain⟩

end Vux9k.Emu.Soc

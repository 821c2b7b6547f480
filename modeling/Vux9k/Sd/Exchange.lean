import Vux9k.Sd.Driver

/-!
# A command and its answer

What `send_cmd` and `deselect` of the driver make of the card, byte by byte.  A card *rests* when it
is idle and has nothing left to send; from there the six bytes of a command reach `Card.command`
as the driver means them, and the wait for R1 takes the first two bytes of the answer, or finds that
there is none.
-/

set_option autoImplicit false

namespace Vux9k.Sd

theorem run_bind {α β : Type} (p : SpiProg α) (f : α → SpiProg β) (b : Bus) :
    Bus.run (p >>= f) b = Bus.run (f (Bus.run p b).1) (Bus.run p b).2 := by
  induction p generalizing b with
  | ret a => rfl
  | ask o k ih => exact ih _ _

/-- A part whose run is known. -/
theorem run_bind_of {α β : Type} {p : SpiProg α} {b b' : Bus} {a : α} (h : Bus.run p b = (a, b'))
    (f : α → SpiProg β) : Bus.run (p >>= f) b = Bus.run (f a) b' := by
  rw [run_bind, h]

theorem run_ret {α : Type} (a : α) (b : Bus) : Bus.run (pure a) b = (a, b) := rfl

theorem run_transfer (m : Byte) (b : Bus) : Bus.run (transfer m) b = b.step (.transfer m) := rfl

namespace Card

/-- The card knows the clock, and strict mode has nothing to say about it. -/
structure Calm (d : ℕ) (c : Card) : Prop where
  clock : c.sclkHz = clkHz / (2 * d)
  slow : c.ready = true ∨ clkHz / (2 * d) ≤ initSclkHz

/-- The card waits for a command. -/
structure Rests (c : Card) : Prop where
  state : c.state = .idle
  resp : c.resp = []

variable {d : ℕ} {c : Card}

theorem Calm.not_fast (h : c.Calm d) :
    ¬(c.strict ∧ ¬c.ready ∧ initSclkHz < c.sclkHz ∧ ¬c.fastReported) := by
  rintro ⟨-, hready, hfast, -⟩
  rw [h.clock] at hfast
  rcases h.slow with hr | hs
  · exact hready hr
  · omega

theorem Calm.clocked_selected (h : c.Calm d) : c.clocked true = c := by
  simp only [clocked, not_true_eq_false, false_and, if_false]
  exact if_neg h.not_fast

theorem Calm.clocked_deselected (h : c.Calm d) (hseen : c.firstCmdSeen = true) :
    c.clocked false = c := by
  simp only [clocked, hseen, not_true_eq_false, and_false, if_false]
  exact if_neg h.not_fast

theorem Calm.tuned (h : c.Calm d) (n : Bool) : (⟨n, d, c⟩ : Bus).tuned = c := by
  rw [Bus.tuned, ← h.clock]

/-! ## One byte -/

/-- A byte that finds an answer waiting. -/
theorem Calm.run_queued (h : c.Calm d) {x : Byte} {q : List Byte} (hq : c.resp = x :: q)
    (m : Byte) :
    Bus.run (transfer m) ⟨false, d, c⟩ = (x, ⟨false, d, { c with resp := q }⟩) := by
  simp only [run_transfer, Bus.step, h.tuned, exchange, Bool.not_false, h.clocked_selected, hq]

/-- A byte that the card takes. -/
theorem Calm.run_taken (h : c.Calm d) (hq : c.resp = []) (m : Byte) :
    Bus.run (transfer m) ⟨false, d, c⟩ = (0xFF#8, ⟨false, d, c.take m⟩) := by
  simp only [run_transfer, Bus.step, h.tuned, exchange, Bool.not_false, h.clocked_selected, hq,
    if_true]

/-- A byte while the card is not selected. -/
theorem Calm.run_idling (h : c.Calm d) (hseen : c.firstCmdSeen = true) (hq : c.resp = [])
    (m : Byte) : Bus.run (transfer m) ⟨true, d, c⟩ = (0xFF#8, ⟨true, d, c⟩) := by
  simp only [run_transfer, Bus.step, h.tuned, exchange, Bool.not_true,
    h.clocked_deselected hseen, hq, Bool.false_eq_true, if_false]

/-- A filling byte starts nothing. -/
theorem take_ff (hs : c.state = .idle ∨ c.state = .resync) : c.take 0xFF#8 = c := by
  rcases hs with hs | hs <;> simp [take, hs]

theorem run_setCs_true (n : Bool) (d : ℕ) (c : Card) :
    Bus.run (Sd.setCs true) ⟨n, d, c⟩ = ((), ⟨false, d, c⟩) := by
  cases n <;> rfl

/-- The chip select goes up: the card drops what it was doing. -/
theorem Calm.run_deselect (h : c.Calm d) (hseen : c.firstCmdSeen = true) (hq : c.resp = []) :
    Bus.run deselect ⟨false, d, c⟩ = ((), ⟨true, d, { c with state := .idle }⟩) := by
  have hcs : Bus.run (Sd.setCs false) ⟨false, d, c⟩ =
      ((), ⟨true, d, { c with state := .idle }⟩) := rfl
  have h' : ({ c with state := .idle } : Card).Calm d := ⟨h.clock, h.slow⟩
  rw [deselect, run_bind_of hcs, run_bind_of (h'.run_idling hseen hq _)]
  rfl

/-! ## A command -/

/-- A byte of a command that is not its last. -/
theorem Calm.run_cmd (h : c.Calm d) (hq : c.resp = []) {buf : List Byte} (hl : buf.length < 5)
    (m : Byte) : Bus.run (transfer m) ⟨false, d, { c with state := .cmd buf }⟩ =
      (0xFF#8, ⟨false, d, { c with state := .cmd (buf ++ [m]) }⟩) := by
  have h' : ({ c with state := .cmd buf } : Card).Calm d := ⟨h.clock, h.slow⟩
  have hne : buf.length + 1 ≠ 6 := by omega
  rw [h'.run_taken hq]
  simp [take, hne]

/-- The last byte of a command. -/
theorem Calm.run_cmd_last (h : c.Calm d) (hrest : c.Rests) (b₀ b₁ b₂ b₃ b₄ m : Byte) :
    Bus.run (transfer m) ⟨false, d, { c with state := .cmd [b₀, b₁, b₂, b₃, b₄] }⟩ =
      (0xFF#8, ⟨false, d, c.command (b₀ &&& 0x3F#8) (beWord b₁ b₂ b₃ b₄)⟩) := by
  have h' : ({ c with state := .cmd [b₀, b₁, b₂, b₃, b₄] } : Card).Calm d := ⟨h.clock, h.slow⟩
  have hidle : ({ c with state := .idle } : Card) = c := by rw [← hrest.state]
  rw [h'.run_taken hrest.resp]
  simp [take, hidle]

theorem take_start (hs : c.state = .idle) {m : Byte} (hm : m &&& 0xC0#8 = 0x40#8) :
    c.take m = { c with state := .cmd [m] } := by
  simp [take, hs, hm]

theorem beWord_bytes (w : Word) :
    beWord ((w >>> 24).setWidth 8) ((w >>> 16).setWidth 8) ((w >>> 8).setWidth 8) (w.setWidth 8) =
      w :=
  leWord_leBytes w

/-- The first byte of a command says that it is one, and which. -/
theorem start_byte {cmd : Byte} (h : cmd.toNat < 64) :
    (0x40#8 ||| cmd) &&& 0xC0#8 = 0x40#8 ∧ (0x40#8 ||| cmd) &&& 0x3F#8 = cmd := by
  have hall : ∀ n < 64, (0x40#8 ||| BitVec.ofNat 8 n) &&& 0xC0#8 = 0x40#8 ∧
      (0x40#8 ||| BitVec.ofNat 8 n) &&& 0x3F#8 = BitVec.ofNat 8 n := by decide
  simpa using hall cmd.toNat h

/-- The six bytes of a command. -/
theorem Calm.run_sendCmd (h : c.Calm d) (hrest : c.Rests) (n : Bool) {cmd : Byte}
    (hcmd : cmd.toNat < 64) (arg : Word) (crc : Byte) :
    Bus.run (sendCmd cmd arg crc) ⟨n, d, c⟩ =
      Bus.run (awaitR1 200) ⟨false, d, c.command cmd arg⟩ := by
  obtain ⟨hstart, hmask⟩ := start_byte hcmd
  have hbyte {buf : List Byte} (hl : buf.length < 5) (m : Byte) := h.run_cmd hrest.resp hl m
  rw [sendCmd, run_bind_of (run_setCs_true n d c), run_bind_of (h.run_taken hrest.resp _),
    take_start hrest.state hstart, run_bind_of (hbyte (by simp) _),
    run_bind_of (hbyte (by simp) _), run_bind_of (hbyte (by simp) _),
    run_bind_of (hbyte (by simp) _)]
  simp only [List.cons_append, List.nil_append]
  rw [run_bind_of (h.run_cmd_last hrest _ _ _ _ _ _), hmask, beWord_bytes]

/-- The answer comes one byte late. -/
theorem Calm.run_awaitR1_answer (h : c.Calm d) {r : Byte} {q : List Byte} (hr : r ≠ 0xFF#8)
    (hq : c.resp = 0xFF#8 :: r :: q) (n : ℕ) :
    Bus.run (awaitR1 (n + 2)) ⟨false, d, c⟩ = (r, ⟨false, d, { c with resp := q }⟩) := by
  have h' : ({ c with resp := r :: q } : Card).Calm d := ⟨h.clock, h.slow⟩
  rw [awaitR1, run_bind_of (h.run_queued hq _), if_neg (by simp), awaitR1,
    run_bind_of (h'.run_queued rfl _), if_pos hr]
  rfl

/-- There is no answer. -/
theorem Calm.run_awaitR1_mute (h : c.Calm d) (hrest : c.Rests) (n : ℕ) :
    Bus.run (awaitR1 n) ⟨false, d, c⟩ = (0xFF#8, ⟨false, d, c⟩) := by
  induction n with
  | zero => rfl
  | succ n ih =>
    rw [awaitR1, run_bind_of (h.run_taken hrest.resp _), if_neg (by simp),
      take_ff (.inl hrest.state), ih]

/-- The bytes that wait are read in order. -/
theorem Calm.run_readBytes (h : c.Calm d) {l q : List Byte} (hq : c.resp = l ++ q) :
    Bus.run (readBytes l.length) ⟨false, d, c⟩ = (l, ⟨false, d, { c with resp := q }⟩) := by
  induction l generalizing c with
  | nil =>
    have hc : ({ c with resp := q } : Card) = c := by
      rw [List.nil_append] at hq
      rw [← hq]
    rw [hc]
    rfl
  | cons x l ih =>
    have h' : ({ c with resp := l ++ q } : Card).Calm d := ⟨h.clock, h.slow⟩
    rw [List.cons_append] at hq
    rw [List.length_cons, readBytes, run_bind_of (h.run_queued hq _), run_bind_of (ih h' rfl)]
    rfl

/-! ## What a command leaves alone -/

/-- The same card, with the same data on it. -/
structure Alike (c c' : Card) : Prop where
  sdhc : c'.sdhc = c.sdhc
  strict : c'.strict = c.strict
  faults : c'.faults = c.faults
  image : c'.image = c.image

theorem Alike.trans {c₁ c₂ c₃ : Card} (h : c₁.Alike c₂) (h' : c₂.Alike c₃) : c₁.Alike c₃ :=
  ⟨h'.sdhc.trans h.sdhc, h'.strict.trans h.strict, h'.faults.trans h.faults,
    h'.image.trans h.image⟩

/-- The card once a command is noted, and before it is answered. -/
def noted (c : Card) (cmd : Byte) (arg : Word) : Card :=
  let c := { c with commands := c.commands ++ [(cmd, arg)] }
  if c.firstCmdSeen then c
  else if c.strict && c.idleClocks < powerUpClocks then
    { c with firstCmdSeen := true, violations := c.violations ++ [.powerUp c.idleClocks cmd] }
  else { c with firstCmdSeen := true }

/-- What no command changes before it is answered. -/
structure Noted (c c' : Card) : Prop extends Alike c c' where
  seen : c'.firstCmdSeen = true
  state : c'.state = c.state
  resp : c'.resp = c.resp
  ready : c'.ready = c.ready
  sclkHz : c'.sclkHz = c.sclkHz
  reads : c'.reads = c.reads

theorem noted_noted (c : Card) (cmd : Byte) (arg : Word) : c.Noted (c.noted cmd arg) := by
  rw [noted]
  split_ifs with h
  · exact ⟨⟨rfl, rfl, rfl, rfl⟩, h, rfl, rfl, rfl, rfl, rfl⟩
  all_goals exact ⟨⟨rfl, rfl, rfl, rfl⟩, rfl, rfl, rfl, rfl, rfl, rfl⟩

theorem command_mute {cmd : Byte} (h : cmd ∈ c.faults.muteCmds) (arg : Word) :
    c.command cmd arg = c.noted cmd arg := by
  rw [← (noted_noted c cmd arg).faults] at h
  exact if_pos (List.contains_iff_mem.mpr h)

theorem command_answered {cmd : Byte} (h : cmd ∉ c.faults.muteCmds) (arg : Word) :
    c.command cmd arg = (c.noted cmd arg).answer cmd arg := by
  rw [← (noted_noted c cmd arg).faults] at h
  exact if_neg (mt List.contains_iff_mem.mp h)

/-- A command that is not answered. -/
theorem Calm.run_sendCmd_mute (h : c.Calm d) (hrest : c.Rests) (n : Bool) {cmd : Byte}
    (hcmd : cmd.toNat < 64) (hm : cmd ∈ c.faults.muteCmds) (arg : Word) (crc : Byte) :
    Bus.run (sendCmd cmd arg crc) ⟨n, d, c⟩ = (0xFF#8, ⟨false, d, c.noted cmd arg⟩) := by
  have hn := noted_noted c cmd arg
  have hcalm : (c.noted cmd arg).Calm d := ⟨hn.sclkHz.trans h.clock, hn.ready ▸ h.slow⟩
  rw [h.run_sendCmd hrest n hcmd, command_mute hm,
    hcalm.run_awaitR1_mute ⟨hn.state.trans hrest.state, hn.resp.trans hrest.resp⟩]

/-- A command that is answered. -/
theorem Calm.run_sendCmd_answered (h : c.Calm d) (hrest : c.Rests) (n : Bool) {cmd : Byte}
    (hcmd : cmd.toNat < 64) (hm : cmd ∉ c.faults.muteCmds) {arg : Word} {r : Byte}
    {q : List Byte} (hr : r ≠ 0xFF#8) {c' : Card} (hc : (c.noted cmd arg).answer cmd arg = c')
    (h' : c'.Calm d) (hq : c'.resp = 0xFF#8 :: r :: q) (crc : Byte) :
    Bus.run (sendCmd cmd arg crc) ⟨n, d, c⟩ = (r, ⟨false, d, { c' with resp := q }⟩) := by
  rw [h.run_sendCmd hrest n hcmd, command_answered hm, hc, h'.run_awaitR1_answer hr hq]

end Card

end Vux9k.Sd

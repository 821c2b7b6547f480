import Vux9k.Sd.Exchange

/-!
# Whether a card takes block addresses

`init` asks a card what it is.  What it then believes depends on two answers only: to CMD8, without
which it takes the card for one of version 1, and to CMD58, without which it takes it for one of
standard capacity.  Either way it goes on, and returns true if the card starts, so a block-addressed
card that leaves one of the two unanswered is given byte addresses.
-/

set_option autoImplicit false

namespace Vux9k.Sd

namespace Card

/-- A sector the card can address. -/
def InRange (c : Card) (l : Word) : Prop := c.sdhc = true ∨ l.toNat < 2 ^ 23

/-- The card answers what makes it leave its idle state: `CMD0`, and then `CMD41`, or `CMD1` if it
does not know `CMD55`. -/
def Starts (c : Card) : Prop :=
  0#8 ∉ c.faults.muteCmds ∧ c.faults.neverReady = false ∧
    (if 55#8 ∈ c.faults.muteCmds then 1#8 else 41#8) ∉ c.faults.muteCmds

instance (c : Card) : Decidable c.Starts := inferInstanceAs (Decidable (_ ∧ _ ∧ _))

/-- The answers that tell the driver the type of the card. -/
def Tells (c : Card) : Prop := 8#8 ∉ c.faults.muteCmds ∧ 58#8 ∉ c.faults.muteCmds

instance (c : Card) : Decidable c.Tells := inferInstanceAs (Decidable (_ ∧ _))

end Card

/-- Every sector number is given to the card as the argument that selects that sector. -/
def Statics.Selects (st : Statics) (c : Card) : Prop :=
  ∀ l : Word, c.InRange l → ∀ cmd : Byte, (c.lba cmd (st.address l)).1 = l

/-! ## Commands with a short answer -/

/-- The card `c₀`, at rest and clocked for identification. -/
structure Waits (c₀ c : Card) : Prop extends c₀.Alike c, c.Rests where
  clock : c.sclkHz = clkHz / (2 * divInit)

variable {c₀ c : Card}

theorem Waits.calm (h : Waits c₀ c) : c.Calm divInit := ⟨h.clock, .inr (by decide)⟩

/-- `R1` of the commands that are answered with nothing else. -/
def r1 (c : Card) (cmd : Byte) : Byte :=
  if c.faults.muteCmds.contains cmd then 0xFF#8
  else match cmd.toNat with
    | 0 => 0x01#8
    | 55 => if c.ready then 0x00#8 else 0x01#8
    | 1 | 41 => if c.faults.neverReady = false then 0x00#8 else 0x01#8
    | _ => 0x00#8

/-- Whether the card is ready after such a command. -/
def readyAfter (c : Card) (cmd : Byte) : Bool :=
  if c.faults.muteCmds.contains cmd then c.ready
  else match cmd.toNat with
    | 0 => false
    | 1 | 41 => !c.faults.neverReady
    | _ => c.ready

theorem r1_mute {cmd : Byte} (h : cmd ∈ c.faults.muteCmds) : r1 c cmd = 0xFF#8 :=
  if_pos (List.contains_iff_mem.mpr h)

theorem r1_answered {cmd : Byte} (h : cmd ∉ c.faults.muteCmds) : r1 c cmd =
    match cmd.toNat with
    | 0 => 0x01#8
    | 55 => if c.ready then 0x00#8 else 0x01#8
    | 1 | 41 => if c.faults.neverReady = false then 0x00#8 else 0x01#8
    | _ => 0x00#8 :=
  if_neg (mt List.contains_iff_mem.mp h)

theorem readyAfter_mute {cmd : Byte} (h : cmd ∈ c.faults.muteCmds) : readyAfter c cmd = c.ready :=
  if_pos (List.contains_iff_mem.mpr h)

theorem readyAfter_answered {cmd : Byte} (h : cmd ∉ c.faults.muteCmds) : readyAfter c cmd =
    match cmd.toNat with
    | 0 => false
    | 1 | 41 => !c.faults.neverReady
    | _ => c.ready :=
  if_neg (mt List.contains_iff_mem.mp h)

/-- The commands that are answered with R1 alone. -/
def shortCmds : List Byte := [0#8, 55#8, 1#8, 41#8, 16#8]

theorem short_lt : ∀ cmd ∈ shortCmds, cmd.toNat < 64 := by decide

/-- The answer to a short command. -/
theorem answer_short {cmd : Byte} (hcmd : cmd ∈ shortCmds) (hm : cmd ∉ c.faults.muteCmds)
    (hr : c.resp = []) (arg : Word) :
    (c.answer cmd arg).resp = [0xFF#8, r1 c cmd] ∧
      (c.answer cmd arg).ready = readyAfter c cmd ∧ c.Alike (c.answer cmd arg) ∧
      (c.answer cmd arg).sclkHz = c.sclkHz ∧
      (c.answer cmd arg).firstCmdSeen = c.firstCmdSeen := by
  simp only [shortCmds, List.mem_cons, List.not_mem_nil, or_false] at hcmd
  rcases hcmd with rfl | rfl | rfl | rfl | rfl
  all_goals
    refine ⟨?_, ?_, ⟨?_, ?_, ?_, ?_⟩, ?_, ?_⟩ <;>
    simp [Card.answer, r1, readyAfter, hm, hr]

theorem r1_ne_ff {cmd : Byte} (hm : cmd ∉ c.faults.muteCmds) : r1 c cmd ≠ 0xFF#8 := by
  rw [r1_answered hm]
  split
  all_goals first | decide | (split_ifs <;> decide)

/-- **A short command**, and the card at rest again after it. -/
theorem Waits.run_command (h : Waits c₀ c) (cmd : Byte) (hcmd : cmd ∈ shortCmds) (arg : Word)
    (crc : Byte) :
    ∃ c', Bus.run (command cmd arg crc) ⟨true, divInit, c⟩ =
        (r1 c cmd, ⟨true, divInit, c'⟩) ∧
      Waits c₀ c' ∧ c'.ready = readyAfter c cmd ∧ c'.firstCmdSeen = true := by
  have hn := c.noted_noted cmd arg
  by_cases hm : cmd ∈ c.faults.muteCmds
  · have hrun := h.calm.run_sendCmd_mute h.toRests true (short_lt cmd hcmd) hm arg crc
    have hcalm : (c.noted cmd arg).Calm divInit := ⟨hn.sclkHz.trans h.clock, .inr (by decide)⟩
    refine ⟨{ c.noted cmd arg with state := .idle }, ?_, ?_, ?_, hn.seen⟩
    · rw [command, run_bind_of hrun,
        run_bind_of (hcalm.run_deselect hn.seen (hn.resp.trans h.resp)), r1_mute hm]
      rfl
    · exact ⟨h.toAlike.trans ⟨hn.sdhc, hn.strict, hn.faults, hn.image⟩,
        ⟨rfl, hn.resp.trans h.resp⟩, hn.sclkHz.trans h.clock⟩
    · rw [readyAfter_mute hm]
      exact hn.ready
  · have hm' : cmd ∉ (c.noted cmd arg).faults.muteCmds := by rwa [hn.faults]
    have hr1 : r1 (c.noted cmd arg) cmd = r1 c cmd := by simp only [r1, hn.faults, hn.ready]
    have hra : readyAfter (c.noted cmd arg) cmd = readyAfter c cmd := by
      simp only [readyAfter, hn.faults, hn.ready]
    obtain ⟨hresp, hready, halike, hclock, hseen⟩ :=
      answer_short hcmd hm' (hn.resp.trans h.resp) arg
    rw [hr1] at hresp
    generalize hc : (c.noted cmd arg).answer cmd arg = c' at hresp hready halike hclock hseen
    have hcalm : c'.Calm divInit := ⟨hclock.trans (hn.sclkHz.trans h.clock), .inr (by decide)⟩
    have hcalm' : ({ c' with resp := [] } : Card).Calm divInit := ⟨hcalm.clock, hcalm.slow⟩
    have hrun := h.calm.run_sendCmd_answered h.toRests true (short_lt cmd hcmd) hm (r1_ne_ff hm)
      hc hcalm hresp crc
    refine ⟨{ c' with resp := [], state := .idle }, ?_, ?_, hready.trans hra,
      hseen.trans hn.seen⟩
    · rw [command, run_bind_of hrun, run_bind_of (hcalm'.run_deselect (hseen.trans hn.seen) rfl)]
      rfl
    · have hall := h.toAlike.trans (hn.toAlike.trans halike)
      exact ⟨⟨hall.sdhc, hall.strict, hall.faults, hall.image⟩, ⟨rfl, rfl⟩, hcalm.clock⟩

/-! ## The loops of `init` -/

theorem Waits.run_goIdle_mute (h : Waits c₀ c) (hm : 0#8 ∈ c₀.faults.muteCmds) (n : ℕ) :
    ∃ c', Bus.run (goIdle n 0xFF#8) ⟨true, divInit, c⟩ = (0xFF#8, ⟨true, divInit, c'⟩) := by
  induction n generalizing c with
  | zero => exact ⟨c, rfl⟩
  | succ n ih =>
    obtain ⟨c', hrun, hc', -, -⟩ := h.run_command 0#8 (by decide) 0#32 0x95#8
    have hr : r1 c 0#8 = 0xFF#8 := r1_mute (by rwa [h.faults])
    rw [hr] at hrun
    rw [goIdle, run_bind_of hrun, if_neg (by decide)]
    exact ih hc'

theorem Waits.run_goIdle (h : Waits c₀ c) (hm : 0#8 ∉ c₀.faults.muteCmds) (n : ℕ) (r : Byte) :
    ∃ c', Bus.run (goIdle (n + 1) r) ⟨true, divInit, c⟩ = (0x01#8, ⟨true, divInit, c'⟩) ∧
      Waits c₀ c' ∧ c'.firstCmdSeen = true := by
  obtain ⟨c', hrun, hc', -, hseen⟩ := h.run_command 0#8 (by decide) 0#32 0x95#8
  have hr : r1 c 0#8 = 0x01#8 := r1_answered (by rwa [h.faults])
  rw [hr] at hrun
  refine ⟨c', ?_, hc', hseen⟩
  rw [goIdle, run_bind_of hrun, if_pos rfl]
  rfl

/-- The command that starts a card. -/
def startCmd (c : Card) : Byte := if 55#8 ∈ c.faults.muteCmds then 1#8 else 41#8

theorem startCmd_cases (c : Card) : startCmd c = 1#8 ∨ startCmd c = 41#8 := by
  rw [startCmd]
  split_ifs
  · exact .inl rfl
  · exact .inr rfl

/-- Whether the loop ends with a ready card. -/
def Turns (c : Card) : Prop := c.faults.neverReady = false ∧ startCmd c ∉ c.faults.muteCmds

theorem r1_start (h : c₀.Alike c) : r1 c (startCmd c₀) = 0x00#8 ↔ Turns c₀ := by
  rw [Turns]
  by_cases hm : startCmd c₀ ∈ c₀.faults.muteCmds
  · rw [r1_mute (by rwa [h.faults])]
    simp [hm]
  · rw [r1_answered (by rwa [h.faults]), h.faults]
    rcases startCmd_cases c₀ with hs | hs <;> rw [hs] at hm ⊢ <;> simp [hm]

theorem readyAfter_start (h : c₀.Alike c) (ht : Turns c₀) :
    readyAfter c (startCmd c₀) = true := by
  rw [readyAfter_answered (by rw [h.faults]; exact ht.2), h.faults]
  rcases startCmd_cases c₀ with hs | hs <;> simp [hs, ht.1]

/-- One round of the `ACMD41` loop. -/
theorem Waits.run_sendOpCond_succ (h : Waits c₀ c) (arg : Word) (n : ℕ) :
    ∃ c' r, Bus.run (sendOpCond arg (n + 1)) ⟨true, divInit, c⟩ =
        Bus.run (if r = 0x00#8 then pure true else sendOpCond arg n) ⟨true, divInit, c'⟩ ∧
      (r = 0x00#8 ↔ Turns c₀) ∧ Waits c₀ c' ∧ c'.firstCmdSeen = true ∧
      (Turns c₀ → c'.ready = true) := by
  obtain ⟨c₁, hrun, h₁, -, -⟩ := h.run_command 55#8 (by decide) 0#32 0x65#8
  by_cases hm : 55#8 ∈ c₀.faults.muteCmds
  · have hs : startCmd c₀ = 1#8 := if_pos hm
    have hr : ¬r1 c 55#8 ≤ 0x01#8 := by
      rw [r1_mute (by rwa [h.faults])]
      decide
    obtain ⟨c₂, hrun₂, h₂, hready, hseen⟩ := h₁.run_command 1#8 (by decide) arg 0xFF#8
    rw [← hs] at hready
    refine ⟨c₂, r1 c₁ 1#8, ?_, hs ▸ r1_start h₁.toAlike, h₂, hseen, fun ht ↦ ?_⟩
    · rw [sendOpCond, run_bind_of hrun]
      dsimp only
      rw [if_neg hr, run_bind_of hrun₂]
    · rw [hready, readyAfter_start h₁.toAlike ht]
  · have hs : startCmd c₀ = 41#8 := if_neg hm
    have hr : r1 c 55#8 ≤ 0x01#8 := by
      rw [r1_answered (by rwa [h.faults])]
      cases c.ready <;> simp
    obtain ⟨c₂, hrun₂, h₂, hready, hseen⟩ := h₁.run_command 41#8 (by decide) arg 0x77#8
    rw [← hs] at hready
    refine ⟨c₂, r1 c₁ 41#8, ?_, hs ▸ r1_start h₁.toAlike, h₂, hseen, fun ht ↦ ?_⟩
    · rw [sendOpCond, run_bind_of hrun]
      dsimp only
      rw [if_pos hr, run_bind_of hrun₂]
    · rw [hready, readyAfter_start h₁.toAlike ht]

theorem Waits.run_sendOpCond_not (h : Waits c₀ c) (ht : ¬Turns c₀) (arg : Word) (n : ℕ) :
    ∃ c', Bus.run (sendOpCond arg n) ⟨true, divInit, c⟩ = (false, ⟨true, divInit, c'⟩) := by
  induction n generalizing c with
  | zero => exact ⟨c, rfl⟩
  | succ n ih =>
    obtain ⟨c', r, hrun, hr, hc', -, -⟩ := h.run_sendOpCond_succ arg n
    rw [hrun, if_neg (mt hr.mp ht)]
    exact ih hc'

theorem Waits.run_sendOpCond (h : Waits c₀ c) (ht : Turns c₀) (arg : Word) (n : ℕ) :
    ∃ c', Bus.run (sendOpCond arg (n + 1)) ⟨true, divInit, c⟩ = (true, ⟨true, divInit, c'⟩) ∧
      Waits c₀ c' ∧ c'.firstCmdSeen = true ∧ c'.ready = true := by
  obtain ⟨c', r, hrun, hr, hc', hseen, hready⟩ := h.run_sendOpCond_succ arg n
  refine ⟨c', ?_, hc', hseen, hready ht⟩
  rw [hrun, if_pos (hr.mpr ht)]
  rfl

/-! ## The two answers that matter -/

/-- `CMD8` and `CMD58`: an answer with four bytes after R1. -/
theorem Waits.run_long (h : Waits c₀ c) {cmd : Byte} (hcmd : cmd.toNat < 64)
    (hm : cmd ∉ c₀.faults.muteCmds) {arg : Word} {r : Byte} {l : List Byte} (hr : r ≠ 0xFF#8)
    (hl : l.length = 4)
    (ha : (c.noted cmd arg).answer cmd arg =
      { c.noted cmd arg with resp := (c.noted cmd arg).resp ++ 0xFF#8 :: r :: l })
    (crc : Byte) {β : Type} (f : List Byte → β) :
    ∃ c' c'', Bus.run (sendCmd cmd arg crc) ⟨true, divInit, c⟩ = (r, ⟨false, divInit, c'⟩) ∧
      Bus.run (do let ocr ← readBytes 4; deselect; pure (f ocr)) ⟨false, divInit, c'⟩ =
        (f l, ⟨true, divInit, c''⟩) ∧
      Waits c₀ c'' ∧ c''.ready = c.ready ∧ c''.firstCmdSeen = true := by
  have hn := c.noted_noted cmd arg
  have hcalm (q : List Byte) : ({ c.noted cmd arg with resp := q } : Card).Calm divInit :=
    ⟨hn.sclkHz.trans h.clock, .inr (by decide)⟩
  rw [hn.resp.trans h.resp, List.nil_append] at ha
  rw [← h.faults] at hm
  have hrun := h.calm.run_sendCmd_answered h.toRests true hcmd hm hr ha (hcalm _) rfl crc
  have hread := (hcalm l).run_readBytes (l := l) (q := []) (List.append_nil l).symm
  rw [hl] at hread
  refine ⟨_, { c.noted cmd arg with resp := [], state := .idle }, hrun, ?_, ?_, hn.ready, hn.seen⟩
  · rw [run_bind_of hread, run_bind_of ((hcalm []).run_deselect hn.seen rfl)]
    rfl
  · have hall := h.toAlike.trans hn.toAlike
    exact ⟨⟨hall.sdhc, hall.strict, hall.faults, hall.image⟩, ⟨rfl, rfl⟩,
      hn.sclkHz.trans h.clock⟩

/-- The same, unanswered. -/
theorem Waits.run_long_mute (h : Waits c₀ c) {cmd : Byte} (hcmd : cmd.toNat < 64)
    (hm : cmd ∈ c₀.faults.muteCmds) (arg : Word) (crc : Byte) :
    ∃ c' c'', Bus.run (sendCmd cmd arg crc) ⟨true, divInit, c⟩ =
        (0xFF#8, ⟨false, divInit, c'⟩) ∧
      Bus.run (do deselect; pure false) ⟨false, divInit, c'⟩ = (false, ⟨true, divInit, c''⟩) ∧
      Waits c₀ c'' ∧ c''.ready = c.ready ∧ c''.firstCmdSeen = true := by
  have hn := c.noted_noted cmd arg
  have hcalm : (c.noted cmd arg).Calm divInit := ⟨hn.sclkHz.trans h.clock, .inr (by decide)⟩
  rw [← h.faults] at hm
  have hrun := h.calm.run_sendCmd_mute h.toRests true hcmd hm arg crc
  refine ⟨_, { c.noted cmd arg with state := .idle }, hrun, ?_, ?_, hn.ready, hn.seen⟩
  · rw [run_bind_of (hcalm.run_deselect hn.seen (hn.resp.trans h.resp))]
    rfl
  · have hall := h.toAlike.trans hn.toAlike
    exact ⟨⟨hall.sdhc, hall.strict, hall.faults, hall.image⟩, ⟨rfl, hn.resp.trans h.resp⟩,
      hn.sclkHz.trans h.clock⟩

/-- A card is of version 2 to the driver if it answers CMD8. -/
theorem Waits.run_sendIfCond (h : Waits c₀ c) :
    ∃ c', Bus.run sendIfCond ⟨true, divInit, c⟩ =
        (decide (8#8 ∉ c₀.faults.muteCmds), ⟨true, divInit, c'⟩) ∧
      Waits c₀ c' ∧ c'.ready = c.ready ∧ c'.firstCmdSeen = true := by
  by_cases hm : 8#8 ∈ c₀.faults.muteCmds
  · obtain ⟨c₁, c', hrun, hrest, hc'⟩ := h.run_long_mute (by decide) hm 0x000001AA#32 0x87#8
    refine ⟨c', ?_, hc'⟩
    rw [sendIfCond, run_bind_of hrun, if_neg (by decide), hrest]
    simp [hm]
  · obtain ⟨c₁, c', hrun, hrest, hc'⟩ := h.run_long (by decide) hm
      (r := 0x01#8) (l := [0x00#8, 0x00#8, 0x01#8, 0xAA#8]) (by decide) rfl rfl 0x87#8
      fun ocr ↦ ocr.getD 2 0#8 = 0x01#8 && ocr.getD 3 0#8 = 0xAA#8
    refine ⟨c', ?_, hc'⟩
    rw [sendIfCond, run_bind_of hrun, if_pos rfl, hrest]
    simp [hm]

/-- A card is block-addressed to the driver if it says so to CMD58. -/
theorem Waits.run_readOcr (h : Waits c₀ c) :
    ∃ c', Bus.run readOcr ⟨true, divInit, c⟩ =
        (decide (58#8 ∉ c₀.faults.muteCmds) && c₀.sdhc, ⟨true, divInit, c'⟩) ∧
      Waits c₀ c' ∧ c'.ready = c.ready ∧ c'.firstCmdSeen = true := by
  by_cases hm : 58#8 ∈ c₀.faults.muteCmds
  · obtain ⟨c₁, c', hrun, hrest, hc'⟩ := h.run_long_mute (by decide) hm 0#32 0xFD#8
    refine ⟨c', ?_, hc'⟩
    rw [readOcr, run_bind_of hrun, if_neg (by decide), hrest]
    simp [hm]
  · have hsdhc : (c.noted 58#8 0#32).sdhc = c₀.sdhc := (c.noted_noted _ _).sdhc.trans h.sdhc
    obtain ⟨c₁, c', hrun, hrest, hc'⟩ := h.run_long (by decide) hm (r := 0x00#8)
      (l := [if c₀.sdhc then 0xC0#8 else 0x80#8, 0xFF#8, 0x80#8, 0x00#8]) (by decide) rfl
      (by rw [← hsdhc]; rfl) 0xFD#8 fun ocr ↦ decide (ocr.getD 0 0#8 &&& 0x40#8 ≠ 0#8)
    refine ⟨c', ?_, hc'⟩
    rw [readOcr, run_bind_of hrun, if_pos rfl, hrest]
    cases c₀.sdhc <;> simp [hm]

/-! ## The whole of `init` -/

/-- The bytes that `init` exchanges with CS high before its first command. -/
def wakeBytes : ℕ := 17

/-- Where `init` finds the card waiting for a command: the card is in the middle of nothing, or is
told so by the CS that goes high, and has no more to send than the bytes before the first command
take. -/
structure Bus.Quiet (b : Bus) : Prop where
  idle : b.csN = true → b.card.state = .idle
  pending : b.card.resp.length ≤ wakeBytes

/-- The card `c₀`, idle and clocked for identification, with `q` still to send. -/
structure Drains (c₀ : Card) (q : List Byte) (c : Card) : Prop extends c₀.Alike c where
  state : c.state = .idle
  resp : c.resp = q
  clock : c.sclkHz = clkHz / (2 * divInit)

/-- A card that is not selected is clocked, and sends what it has. -/
theorem run_idle (h : c.state = .idle) (m : Byte) :
    ∃ x c', Bus.run (transfer m) ⟨true, divInit, c⟩ = (x, ⟨true, divInit, c'⟩) ∧
      Drains c c.resp.tail c' := by
  have hclocked : ∃ k, (⟨true, divInit, c⟩ : Bus).tuned.clocked false =
      { c with sclkHz := clkHz / (2 * divInit), idleClocks := k } := by
    have hslow : ¬initSclkHz < clkHz / (2 * divInit) := by decide
    by_cases hf : c.firstCmdSeen = true
    · exact ⟨c.idleClocks, by simp [Card.clocked, Bus.tuned, hslow, hf]⟩
    · exact ⟨c.idleClocks + 8, by simp [Card.clocked, Bus.tuned, hslow, hf]⟩
  obtain ⟨k, hk⟩ := hclocked
  simp only [run_transfer, Bus.step, Card.exchange, Bool.not_true, hk]
  cases hq : c.resp with
  | nil => exact ⟨_, _, rfl, ⟨rfl, rfl, rfl, rfl⟩, h, rfl, rfl⟩
  | cons x q => exact ⟨_, _, rfl, ⟨rfl, rfl, rfl, rfl⟩, h, rfl, rfl⟩

theorem Drains.run_idleBytes {q : List Byte} (h : Drains c₀ q c) (n : ℕ) :
    ∃ c', Bus.run (idleBytes n) ⟨true, divInit, c⟩ = ((), ⟨true, divInit, c'⟩) ∧
      Drains c₀ (q.drop n) c' := by
  induction n generalizing c q with
  | zero => exact ⟨c, rfl, h⟩
  | succ n ih =>
    obtain ⟨x, c₁, hrun, h₁⟩ := run_idle h.state 0xFF#8
    rw [idleBytes, run_bind_of hrun, ← List.drop_tail, ← h.resp]
    exact ih ⟨h.toAlike.trans h₁.toAlike, h₁.state, h₁.resp, h₁.clock⟩

/-- The card idles as soon as CS is high. -/
theorem Bus.Quiet.run_setCs {b : Bus} (h : b.Quiet) :
    ∃ c, Bus.run (setCs false) ⟨b.csN, divInit, b.card⟩ = ((), ⟨true, divInit, c⟩) ∧
      b.card.Alike c ∧ c.state = .idle ∧ c.resp = b.card.resp := by
  cases hcs : b.csN with
  | true => exact ⟨b.card, rfl, ⟨rfl, rfl, rfl, rfl⟩, h.idle hcs, rfl⟩
  | false => exact ⟨b.card.setCs false, rfl, ⟨rfl, rfl, rfl, rfl⟩, rfl, rfl⟩

/-- The clocks that wake the card, before the first command. -/
theorem Bus.Quiet.run_wake {b : Bus} (h : b.Quiet) :
    ∃ c', Waits b.card c' ∧ ∀ {α : Type} (p : SpiProg α),
      Bus.run (do setClkdiv divInit; deselect; idleBytes 16; p) b =
        Bus.run p ⟨true, divInit, c'⟩ := by
  have hdiv : Bus.run (setClkdiv divInit) b = ((), ⟨b.csN, divInit, b.card⟩) := rfl
  obtain ⟨c₁, hcs, halike, hstate, hresp⟩ := h.run_setCs
  obtain ⟨x, c₂, hidle, h₂⟩ := run_idle hstate 0xFF#8
  obtain ⟨c', hrun, hc'⟩ := h₂.run_idleBytes 16
  have hnone : c₁.resp.tail.drop 16 = [] := by
    rw [hresp, List.drop_tail]
    exact List.drop_eq_nil_of_le h.pending
  refine ⟨c', ⟨halike.trans hc'.toAlike, ⟨hc'.state, hc'.resp.trans hnone⟩, hc'.clock⟩, fun p ↦ ?_⟩
  rw [run_bind_of hdiv, run_bind, deselect, run_bind_of hcs, run_bind_of hidle, run_ret,
    run_bind_of hrun]

/-- What `init` makes of a card that starts. -/
theorem Bus.Quiet.run_init_starts {b : Bus} (h : b.Quiet) (hs : b.card.Starts) (st : Statics) :
    ∃ c', Bus.run (init st) b =
        ((true, ⟨decide b.card.Tells && b.card.sdhc, true⟩), ⟨true, divFast, c'⟩) ∧
      Waits b.card c' ∧ c'.ready = true ∧ c'.firstCmdSeen = true := by
  obtain ⟨c₁, h₁, hwake⟩ := h.run_wake
  obtain ⟨c₂, hidle, h₂, -⟩ := h₁.run_goIdle hs.1 19 0xFF#8
  obtain ⟨c₃, hv2, h₃, -, -⟩ := h₂.run_sendIfCond
  obtain ⟨c₄, hop, h₄, -, hready⟩ := h₃.run_sendOpCond ⟨hs.2.1, hs.2.2⟩
    (if decide (8#8 ∉ b.card.faults.muteCmds) then 0x40000000#32 else 0#32) 999
  obtain ⟨c₅, hocr, h₅, hready₅⟩ : ∃ c₅, Bus.run
      (if decide (8#8 ∉ b.card.faults.muteCmds) then readOcr else pure false)
        ⟨true, divInit, c₄⟩ =
        (decide b.card.Tells && b.card.sdhc, ⟨true, divInit, c₅⟩) ∧ Waits b.card c₅ ∧
        c₅.ready = true := by
    by_cases hm : 8#8 ∈ b.card.faults.muteCmds
    · refine ⟨c₄, ?_, h₄, hready⟩
      simp only [hm, not_true_eq_false, decide_false, Bool.false_eq_true, if_false, Card.Tells,
        false_and, Bool.false_and]
      rfl
    · obtain ⟨c₅, hrun, h₅, hr, -⟩ := h₄.run_readOcr
      refine ⟨c₅, ?_, h₅, hr.trans hready⟩
      simp only [hm, not_false_eq_true, decide_true, if_true, hrun, Card.Tells, true_and]
  obtain ⟨c₆, hlen, h₆, hready₆, hseen⟩ := h₅.run_command 16#8 (by decide) 512#32 0xFF#8
  refine ⟨c₆, ?_, h₆, ?_, hseen⟩
  · rw [init, hwake, run_bind_of hidle, if_neg (by simp), run_bind_of hv2, run_bind_of hop,
      if_neg (by simp)]
    cases hv : decide (8#8 ∉ b.card.faults.muteCmds)
    all_goals
      rw [hv] at hocr
      exact (run_bind_of hocr _).trans (run_bind_of hlen _)
  · rw [hready₆, readyAfter, hready₅]
    split_ifs <;> rfl

/-- `init` returns false for a card that does not start. -/
theorem Bus.Quiet.run_init_not_starts {b : Bus} (h : b.Quiet) (hs : ¬b.card.Starts) (st : Statics) :
    ((Bus.run (init st) b).1).1 = false := by
  obtain ⟨c₁, h₁, hwake⟩ := h.run_wake
  by_cases hm : 0#8 ∈ b.card.faults.muteCmds
  · obtain ⟨c₂, hidle⟩ := h₁.run_goIdle_mute hm 20
    rw [init, hwake, run_bind_of hidle, if_pos (by decide)]
    rfl
  · have ht : ¬Turns b.card := fun ht ↦ hs ⟨hm, ht.1, ht.2⟩
    obtain ⟨c₂, hidle, h₂, -⟩ := h₁.run_goIdle hm 19 0xFF#8
    obtain ⟨c₃, hv2, h₃, -, -⟩ := h₂.run_sendIfCond
    obtain ⟨c₄, hop⟩ := h₃.run_sendOpCond_not ht
      (if decide (8#8 ∉ b.card.faults.muteCmds) then 0x40000000#32 else 0#32) 1000
    rw [init, hwake, run_bind_of hidle, if_neg (by simp), run_bind_of hv2, run_bind_of hop,
      if_pos (by simp)]
    rfl

/-! ## Whether the sectors are the right ones -/

theorem shiftLeft_shiftRight {l : Word} (h : l.toNat < 2 ^ 23) : l <<< 9 >>> 9 = l := by
  apply BitVec.eq_of_toNat_eq
  rw [BitVec.toNat_ushiftRight, BitVec.toNat_shiftLeft, Nat.shiftLeft_eq, Nat.shiftRight_eq_div_pow]
  omega

/-- The driver selects the sectors it means exactly if it is right about the card's type. -/
theorem selects_iff (hstrict : c.strict = true) (st : Statics) :
    st.Selects c ↔ st.isSdhc = c.sdhc := by
  constructor
  · intro h
    by_contra hne
    cases hs : st.isSdhc <;> cases hc : c.sdhc <;> simp only [hs, hc, not_true_eq_false] at hne
    all_goals
      have hone := h 1#32 (.inr (by decide)) 17#8
      simp only [Card.lba, hstrict, Statics.address, hs, hc, not_true_eq_false, if_false,
        Bool.false_eq_true, if_true] at hone
      revert hone
      decide
  · intro h l hl cmd
    rw [Card.lba, if_neg (by simp [hstrict]), Statics.address, h]
    cases hc : c.sdhc
    · have hl' : l.toNat < 2 ^ 23 := by simpa [Card.InRange, hc] using hl
      simpa using shiftLeft_shiftRight hl'
    · simp

end Vux9k.Sd

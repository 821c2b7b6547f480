import Vux9k.Sd.Init

/-!
# Reading and writing blocks

`read_block` and `write_block` against the card, whatever its faults are: the bytes of a command, of
a token, of the data and of what follows it stay in step on both sides, and every way out leaves the
card as it is found, deselected and with nothing to send.
-/

set_option autoImplicit false

namespace Vux9k.Sd

namespace Card

variable {d : ℕ} {c c' : Card}

/-! ## A ready card -/

/-- The card between two exchanges, once it is initialized. -/
structure Serves (d : ℕ) (c : Card) : Prop extends c.Rests where
  clock : c.sclkHz = clkHz / (2 * d)
  ready : c.ready = true
  seen : c.firstCmdSeen = true
  strict : c.strict = true

/-- What an exchange with a ready card leaves alone. -/
structure Same (c c' : Card) : Prop where
  sdhc : c'.sdhc = c.sdhc
  faults : c'.faults = c.faults
  violations : c'.violations = c.violations

theorem Same.trans {c₁ c₂ c₃ : Card} (h : c₁.Same c₂) (h' : c₂.Same c₃) : c₁.Same c₃ :=
  ⟨h'.sdhc.trans h.sdhc, h'.faults.trans h.faults, h'.violations.trans h.violations⟩

theorem Serves.calm (h : c.Serves d) : c.Calm d := ⟨h.clock, .inl h.ready⟩

theorem noted_seen (h : c.firstCmdSeen = true) (cmd : Byte) (arg : Word) :
    c.noted cmd arg = { c with commands := c.commands ++ [(cmd, arg)] } := by
  rw [noted, if_pos h]

/-- An address that strict mode accepts. -/
def Aligned (c : Card) (arg : Word) : Prop := c.sdhc = true ∨ arg.toNat % blockLen = 0

theorem lba_snd (hs : c.strict = true) {arg : Word} (ha : c.Aligned arg) (cmd : Byte) :
    (c.lba cmd arg).2 = c := by
  rw [lba, if_neg (by simp [hs])]
  rcases ha with ha | ha
  · rw [if_pos ha]
  · split_ifs <;> rfl

/-- The sector does not depend on the command. -/
theorem lba_fst_congr (hsdhc : c'.sdhc = c.sdhc) (hstrict : c'.strict = c.strict) (cmd cmd' : Byte)
    (arg : Word) : (c'.lba cmd' arg).1 = (c.lba cmd arg).1 := by
  rw [lba, lba, hsdhc, hstrict]
  split_ifs <;> rfl

theorem sector_length (c : Card) (l : Word) : (c.sector l).length = blockLen := by simp [sector]

theorem sector_congr (h : c'.image = c.image) (l : Word) : c'.sector l = c.sector l := by
  rw [sector, sector, h]

/-! ## Reading -/

/-- A token that does not come. -/
theorem Calm.run_awaitToken_none (h : c.Calm d) (hrest : c.Rests) (n : ℕ) :
    Bus.run (awaitToken n) ⟨false, d, c⟩ = (false, ⟨false, d, c⟩) := by
  induction n with
  | zero => rfl
  | succ n ih =>
    rw [awaitToken, run_bind_of (h.run_taken hrest.resp _), if_neg (by simp),
      take_ff (.inl hrest.state), ih]

/-- A token that comes one byte late. -/
theorem Calm.run_awaitToken (h : c.Calm d) {q : List Byte} (hq : c.resp = 0xFF#8 :: 0xFE#8 :: q)
    (n : ℕ) :
    Bus.run (awaitToken (n + 2)) ⟨false, d, c⟩ = (true, ⟨false, d, { c with resp := q }⟩) := by
  have h' : ({ c with resp := 0xFE#8 :: q } : Card).Calm d := ⟨h.clock, h.slow⟩
  rw [awaitToken, run_bind_of (h.run_queued hq _), if_neg (by simp), awaitToken,
    run_bind_of (h'.run_queued rfl _), if_pos rfl]
  rfl

/-- An error token. -/
theorem Calm.run_awaitToken_error (h : c.Calm d) (hs : c.state = .idle)
    (hq : c.resp = [0xFF#8, 0x08#8]) (n : ℕ) :
    Bus.run (awaitToken (n + 2)) ⟨false, d, c⟩ = (false, ⟨false, d, { c with resp := [] }⟩) := by
  have h' (q : List Byte) : ({ c with resp := q } : Card).Calm d := ⟨h.clock, h.slow⟩
  rw [awaitToken, run_bind_of (h.run_queued hq _), if_neg (by simp), awaitToken,
    run_bind_of ((h' _).run_queued rfl _), if_neg (by decide)]
  exact (h' []).run_awaitToken_none ⟨hs, rfl⟩ n

/-- What a read is answered. -/
theorem answer_read (hs : c.strict = true) (hq : c.resp = []) {addr : Word} (ha : c.Aligned addr) :
    c.answer 17#8 addr = { c with resp := [0xFF#8, 0x00#8, 0xFF#8, 0x08#8] } ∨
      ∃ reads, c.answer 17#8 addr =
        { c with
          reads := reads
          resp := 0xFF#8 :: 0x00#8 :: 0xFF#8 :: 0xFE#8 ::
            (c.sector (c.lba 17#8 addr).1 ++ [0x12#8, 0x34#8]) } := by
  have hans : c.answer 17#8 addr = (c.lba 17#8 addr).2.answerRead (c.lba 17#8 addr).1 := rfl
  rw [hans, lba_snd hs ha, answerRead, hq]
  split_ifs
  · exact .inl rfl
  · refine .inr ⟨Function.update c.reads (c.lba 17#8 addr).1
      (c.reads (c.lba 17#8 addr).1 + 1), ?_⟩
    simp only [List.nil_append, List.cons_append]

/-- **A sector is read as it is**, or not at all. -/
theorem Serves.run_fetchBlock (h : c.Serves d) {addr : Word} (ha : c.Aligned addr) :
    ∃ o c', Bus.run (fetchBlock addr) ⟨true, d, c⟩ = (o, ⟨true, d, c'⟩) ∧ c'.Serves d ∧
      c.Same c' ∧ c'.image = c.image ∧
      ∀ data, o = some data → data = c.sector (c.lba 17#8 addr).1 := by
  set k : Card := { c with commands := c.commands ++ [(17#8, addr)] } with hk
  have hnoted : c.noted 17#8 addr = k := noted_seen h.seen _ _
  have hcalm (q : List Byte) (r : Word → ℕ) : ({ k with resp := q, reads := r } : Card).Calm d :=
    ⟨h.clock, .inl h.ready⟩
  have hend (r : Word → ℕ) : ({ k with resp := [], reads := r, state := .idle } : Card).Serves d :=
    ⟨⟨rfl, rfl⟩, h.clock, h.ready, h.seen, h.strict⟩
  have hdesel (r : Word → ℕ) := (hcalm [] r).run_deselect h.seen rfl
  by_cases hm : 17#8 ∈ c.faults.muteCmds
  · have hrun := h.calm.run_sendCmd_mute h.toRests true (by decide) hm addr 0xFF#8
    rw [hnoted] at hrun
    have hk' : k = { k with resp := [] } := by rw [hk, ← h.resp]
    refine ⟨none, _, ?_, hend k.reads, ⟨rfl, rfl, rfl⟩, rfl, by simp⟩
    rw [fetchBlock, run_bind_of hrun, if_pos (by decide), hk', run_bind_of (hdesel _)]
    rfl
  · have hans := answer_read (c := k) h.strict h.resp ha
    rcases hans with hans | ⟨reads, hans⟩
    · have hrun :=
        h.calm.run_sendCmd_answered h.toRests true (by decide) hm (r := 0x00#8) (by decide)
        (by rw [hnoted]; exact hans) (hcalm _ _) rfl 0xFF#8
      have htoken := (hcalm [0xFF#8, 0x08#8] k.reads).run_awaitToken_error h.state rfl 49998
      refine ⟨none, _, ?_, hend k.reads, ⟨rfl, rfl, rfl⟩, rfl, by simp⟩
      rw [fetchBlock, run_bind_of hrun, if_neg (by decide), run_bind_of htoken, if_pos (by decide),
        run_bind_of (hdesel _)]
      rfl
    · have hrun :=
        h.calm.run_sendCmd_answered h.toRests true (by decide) hm (r := 0x00#8) (by decide)
        (by rw [hnoted]; exact hans) (hcalm _ _) rfl 0xFF#8
      have htoken := (hcalm _ reads).run_awaitToken
        (q := k.sector (k.lba 17#8 addr).1 ++ [0x12#8, 0x34#8]) rfl 49998
      have hdata := (hcalm _ reads).run_readBytes (l := k.sector (k.lba 17#8 addr).1)
        (q := [0x12#8, 0x34#8]) rfl
      rw [sector_length] at hdata
      have hcrc : Bus.run (readBytes 2)
          ⟨false, d, { k with resp := [0x12#8, 0x34#8], reads := reads }⟩ =
          ([0x12#8, 0x34#8], ⟨false, d, { k with resp := [], reads := reads }⟩) :=
        (hcalm _ reads).run_readBytes (l := [0x12#8, 0x34#8]) (q := []) rfl
      refine ⟨some (k.sector (k.lba 17#8 addr).1), _, ?_, hend reads, ⟨rfl, rfl, rfl⟩, rfl, ?_⟩
      · rw [fetchBlock, run_bind_of hrun, if_neg (by decide), run_bind_of htoken,
          if_neg (by decide), run_bind_of hdata, run_bind_of hcrc, run_bind_of (hdesel _)]
        rfl
      · intro data hdata
        have hlba : (k.lba 17#8 addr).1 = (c.lba 17#8 addr).1 :=
          lba_fst_congr (by rfl) (by rfl) _ _ _
        rw [← Option.some_inj.mp hdata, hlba]
        exact sector_congr rfl _

/-! ## Writing -/

/-- A byte of the data that is not its last. -/
theorem take_data (c : Card) (lba : Word) {buf : List Byte} (hl : buf.length < blockLen + 1)
    (m : Byte) : ({ c with state := .data lba buf } : Card).take m =
      { c with state := .data lba (buf ++ [m]) } := by
  have hne : ¬(buf ++ [m]).length = blockLen + 2 := by
    rw [List.length_append, List.length_singleton]
    omega
  simp only [take, hne, if_false]

theorem Calm.run_sendBytes (h : c.Calm d) (hq : c.resp = []) (lba : Word) (buf l : List Byte)
    (hl : buf.length + l.length < blockLen + 2) :
    Bus.run (sendBytes l) ⟨false, d, { c with state := .data lba buf }⟩ =
      ((), ⟨false, d, { c with state := .data lba (buf ++ l) }⟩) := by
  induction l generalizing buf with
  | nil =>
    rw [List.append_nil]
    rfl
  | cons x l ih =>
    have h' : ({ c with state := .data lba buf } : Card).Calm d := ⟨h.clock, h.slow⟩
    rw [List.length_cons] at hl
    rw [sendBytes, run_bind_of (h'.run_taken hq _), take_data c lba (by omega),
      ih _ (by rw [List.length_append, List.length_singleton]; omega), List.append_assoc]
    rfl

/-- The card once it has all of a sector's data. -/
def stored (c : Card) (lba : Word) (data : List Byte) : Card :=
  if c.faults.writeReject then { c with state := .resync, resp := [0x0B#8] }
  else { c.setSector lba data with state := .resync, resp := [0x05#8, 0x3F#8] }

/-- The token, the data and what stands for its checksum. -/
theorem Calm.run_data (h : c.Calm d) (hq : c.resp = []) {lba : Word} (buf : Block) {α : Type}
    (p : SpiProg α) :
    Bus.run (do sendBytes [0xFF#8, 0xFE#8]; sendBytes buf.1; sendBytes [0xFF#8, 0xFF#8]; p)
        ⟨false, d, { c with state := .waitToken lba }⟩ =
      Bus.run p ⟨false, d, c.stored lba buf.1⟩ := by
  have hcalm (s : State) : ({ c with state := s } : Card).Calm d := ⟨h.clock, h.slow⟩
  have htoken : Bus.run (sendBytes [0xFF#8, 0xFE#8])
      ⟨false, d, { c with state := .waitToken lba }⟩ =
      ((), ⟨false, d, { c with state := .data lba [] }⟩) := by
    have hff : ({ c with state := .waitToken lba } : Card).take 0xFF#8 =
        { c with state := .waitToken lba } := rfl
    rw [sendBytes, run_bind_of ((hcalm (.waitToken lba)).run_taken hq _), hff, sendBytes,
      run_bind_of ((hcalm (.waitToken lba)).run_taken hq _)]
    rfl
  have hdata := h.run_sendBytes hq lba [] buf.1 (by rw [buf.2]; simp)
  rw [List.nil_append] at hdata
  have hlast : ({ c with state := .data lba (buf.1 ++ [0xFF#8]) } : Card).take 0xFF#8 =
      c.stored lba buf.1 := by
    have hlen := buf.2
    have htake : (buf.1 ++ [0xFF#8] ++ [0xFF#8]).take blockLen = buf.1 := by
      rw [List.append_assoc, List.take_left' hlen]
    simp only [take, List.length_append, List.length_singleton, hlen, if_true, htake, stored, hq,
      List.nil_append]
    split_ifs <;> rfl
  have hcrc : Bus.run (sendBytes [0xFF#8, 0xFF#8])
      ⟨false, d, { c with state := .data lba buf.1 }⟩ =
      ((), ⟨false, d, c.stored lba buf.1⟩) := by
    rw [sendBytes, run_bind_of ((hcalm (.data lba buf.1)).run_taken hq _),
      take_data c lba (by rw [buf.2]; omega), sendBytes,
      run_bind_of ((hcalm (.data lba (buf.1 ++ [0xFF#8]))).run_taken hq _), hlast]
    rfl
  rw [run_bind_of htoken, run_bind_of hdata, run_bind_of hcrc]

/-- The wait until a sector is programmed: one busy byte. -/
theorem Calm.run_awaitProgrammed (h : c.Calm d) (hs : c.state = .resync) (hq : c.resp = [0x3F#8])
    (n : ℕ) :
    Bus.run (awaitProgrammed (n + 2)) ⟨false, d, c⟩ =
      (true, ⟨false, d, { c with resp := [] }⟩) := by
  have h' : ({ c with resp := [] } : Card).Calm d := ⟨h.clock, h.slow⟩
  have htake : ({ c with resp := [] } : Card).take 0xFF#8 = { c with resp := [] } :=
    take_ff (.inr hs)
  rw [awaitProgrammed, run_bind_of (h.run_queued hq _), if_neg (by decide), awaitProgrammed,
    run_bind_of (h'.run_taken rfl _), if_pos rfl, htake]
  rfl

/-- What a write is answered. -/
theorem answer_write (hs : c.strict = true) (hq : c.resp = []) {addr : Word} (ha : c.Aligned addr) :
    c.answer 24#8 addr =
      { c with resp := [0xFF#8, 0x00#8], state := .waitToken (c.lba 24#8 addr).1 } := by
  have hans : c.answer 24#8 addr =
      { (c.lba 24#8 addr).2 with
        resp := c.resp ++ [0xFF#8, 0x00#8]
        state := .waitToken (c.lba 24#8 addr).1 } := rfl
  rw [hans, lba_snd hs ha, hq, List.nil_append]

/-- The end of `write_block`, once the card has the data: what the card says to it, the wait, and
the sector read back. -/
def confirm (addr : Word) (buf : Block) : SpiProg Bool := do
  let resp ← transfer 0xFF#8
  if resp &&& 0x1F#8 ≠ 0x05#8 then
    deselect
    pure false
  else
    let programmed ← awaitProgrammed 250000
    deselect
    if ¬programmed then pure false
    else
      match ← fetchBlock addr with
      | none => pure false
      | some data => pure (data = buf.1)

theorem writeBlock_eq (st : Statics) (l : Word) (buf : Block) :
    writeBlock st l buf = (do
      let r1 ← sendCmd 24#8 (st.address l) 0xFF#8
      if r1 ≠ 0x00#8 then
        deselect
        pure false
      else
        sendBytes [0xFF#8, 0xFE#8]
        sendBytes buf.1
        sendBytes [0xFF#8, 0xFF#8]
        confirm (st.address l) buf) := rfl

/-- What an exchange for sector `l` may do to a ready card. -/
structure Wrote (d : ℕ) (c : Card) (l : Word) (buf : Block) (r : Bool) (c' : Card) : Prop where
  serves : c'.Serves d
  same : c.Same c'
  image : c'.image = c.image ∨ c'.image = (c.setSector l buf.1).image
  exact : r = true → c'.sector l = buf.1

theorem Serves.run_confirm (h : c.Serves d) {addr l : Word} (ha : c.Aligned addr)
    (hl : (c.lba 17#8 addr).1 = l) (buf : Block) :
    ∃ r c', Bus.run (confirm addr buf) ⟨false, d, c.stored l buf.1⟩ = (r, ⟨true, d, c'⟩) ∧
      c.Wrote d l buf r c' := by
  by_cases hrej : c.faults.writeReject = true
  · have hst : c.stored l buf.1 = { c with state := .resync, resp := [0x0B#8] } := if_pos hrej
    have hcalm (q : List Byte) : ({ c with state := .resync, resp := q } : Card).Calm d :=
      ⟨h.clock, .inl h.ready⟩
    refine ⟨false, { c with resp := [], state := .idle }, ?_,
      ⟨⟨rfl, rfl⟩, h.clock, h.ready, h.seen, h.strict⟩, ⟨rfl, rfl, rfl⟩, .inl rfl, by simp⟩
    rw [hst, confirm, run_bind_of ((hcalm [0x0B#8]).run_queued rfl _), if_pos (by decide),
      run_bind_of ((hcalm []).run_deselect h.seen rfl)]
    rfl
  · have hst : c.stored l buf.1 =
        { c.setSector l buf.1 with state := .resync, resp := [0x05#8, 0x3F#8] } := if_neg hrej
    have hcalm (q : List Byte) :
        ({ c.setSector l buf.1 with state := .resync, resp := q } : Card).Calm d :=
      ⟨h.clock, .inl h.ready⟩
    have hserves : ({ c.setSector l buf.1 with state := .idle, resp := [] } : Card).Serves d :=
      ⟨⟨rfl, rfl⟩, h.clock, h.ready, h.seen, h.strict⟩
    obtain ⟨o, c', hrun, hc', hsame, himage, hdata⟩ := hserves.run_fetchBlock
      (show Card.Aligned _ addr from ha)
    have hlba : (({ c.setSector l buf.1 with state := .idle, resp := [] } : Card).lba 17#8 addr).1 =
        l := (lba_fst_congr (by rfl) (by rfl) _ _ _).trans hl
    rw [hlba] at hdata
    have hrun' : Bus.run (confirm addr buf) ⟨false, d, c.stored l buf.1⟩ =
        Bus.run (match o with
          | none => pure false
          | some data => pure (data = buf.1)) ⟨true, d, c'⟩ := by
      rw [hst, confirm, run_bind_of ((hcalm [0x05#8, 0x3F#8]).run_queued rfl _),
        if_neg (by decide), run_bind_of ((hcalm [0x3F#8]).run_awaitProgrammed rfl rfl 249998),
        run_bind_of ((hcalm []).run_deselect h.seen rfl), if_neg (by simp)]
      exact run_bind_of hrun _
    have hall : c.Same c' := ⟨hsame.sdhc, hsame.faults, hsame.violations⟩
    cases o with
    | none => exact ⟨false, c', hrun', hc', hall, .inr himage, by simp⟩
    | some data =>
      refine ⟨decide (data = buf.1), c', hrun', hc', hall, .inr himage, fun hr ↦ ?_⟩
      rw [sector_congr himage, ← hdata data rfl]
      simpa using hr

/-- **A sector is written, and nothing else**, if it is written at all; and if `write_block` says
so, it is. -/
theorem Serves.run_writeBlock (h : c.Serves d) {st : Statics} {l : Word}
    (ha : c.Aligned (st.address l)) (hl : ∀ cmd, (c.lba cmd (st.address l)).1 = l) (buf : Block) :
    ∃ r c', Bus.run (writeBlock st l buf) ⟨true, d, c⟩ = (r, ⟨true, d, c'⟩) ∧
      c.Wrote d l buf r c' := by
  set addr := st.address l with haddr
  set k : Card := { c with commands := c.commands ++ [(24#8, addr)] } with hk
  have hnoted : c.noted 24#8 addr = k := noted_seen h.seen _ _
  have hks : k.Serves d := ⟨⟨h.state, h.resp⟩, h.clock, h.ready, h.seen, h.strict⟩
  have hlba (cmd : Byte) : (k.lba cmd addr).1 = l :=
    (lba_fst_congr (by rfl) (by rfl) cmd _ _).trans (hl cmd)
  have hcalm (s : State) (q : List Byte) : ({ k with state := s, resp := q } : Card).Calm d :=
    ⟨h.clock, .inl h.ready⟩
  by_cases hm : 24#8 ∈ c.faults.muteCmds
  · have hrun := h.calm.run_sendCmd_mute h.toRests true (by decide) hm addr 0xFF#8
    rw [hnoted] at hrun
    refine ⟨false, { k with state := .idle }, ?_,
      ⟨⟨rfl, h.resp⟩, h.clock, h.ready, h.seen, h.strict⟩, ⟨rfl, rfl, rfl⟩, .inl rfl, by simp⟩
    rw [writeBlock_eq, ← haddr, run_bind_of hrun, if_pos (by decide),
      run_bind_of (hks.calm.run_deselect h.seen h.resp)]
    rfl
  · have hans := answer_write (c := k) h.strict h.resp ha
    rw [hlba] at hans
    have hrun := h.calm.run_sendCmd_answered h.toRests true (by decide) hm (r := 0x00#8)
      (by decide) (by rw [hnoted]; exact hans) (hcalm _ _) rfl 0xFF#8
    have hkc : ({ k with state := .waitToken l, resp := [] } : Card) =
        { k with state := .waitToken l } := by
      rw [hk, h.resp]
    obtain ⟨r, c', hconf, hw⟩ := hks.run_confirm ha (hlba 17#8) buf
    refine ⟨r, c', ?_, hw.serves, ⟨hw.same.sdhc, hw.same.faults, hw.same.violations⟩, hw.image,
      hw.exact⟩
    rw [writeBlock_eq, ← haddr, run_bind_of hrun, if_neg (by decide), hkc,
      hks.calm.run_data h.resp, hconf]

/-- A byte of another sector. -/
theorem sector_setSector {l l' : Word} (h : l' ≠ l) (data : List Byte) :
    (c.setSector l data).sector l' = c.sector l' := by
  have hne : l'.toNat ≠ l.toNat := fun he ↦ h (BitVec.eq_of_toNat_eq he)
  refine List.map_congr_left fun j hj ↦ if_neg ?_
  rw [List.mem_range] at hj
  simp only [blockLen] at hj ⊢
  omega

end Card

/-! ## Any sequence of calls -/

/-- A call of the driver. -/
inductive BlockCall : Type
  | read (l : Word)
  | write (l : Word) (buf : Block)

namespace BlockCall

/-- The sector a call is about. -/
def sector : BlockCall → Word
  | .read l => l
  | .write l _ => l

/-- The call, and whether it returns true; a read that does gives the data too. -/
def perform (st : Statics) : BlockCall → SpiProg (Bool × List Byte)
  | .read l => do
    match ← readBlock st l with
    | none => pure (false, [])
    | some data => pure (true, data)
  | .write l buf => do
    let r ← writeBlock st l buf
    pure (r, [])

/-- What a call that returns true has done to a card. -/
def Done (c : Card) (data : List Byte) : BlockCall → Prop
  | .read l => data = c.sector l
  | .write l buf => c.sector l = buf.1

/-- The sectors a call leaves alone. -/
def Spares (l : Word) : BlockCall → Prop
  | .read _ => True
  | .write l' _ => l ≠ l'

end BlockCall

/-- The calls one after the other. -/
def performAll (st : Statics) : List BlockCall → Bus → Bus
  | [], b => b
  | call :: calls, b => performAll st calls (Bus.run (call.perform st) b).2

/-- The driver and the card between two calls. -/
structure Served (st : Statics) (b : Bus) : Prop where
  csN : b.csN = true
  rests : b.card.Rests
  ready : b.card.ready = true
  seen : b.card.firstCmdSeen = true
  strict : b.card.strict = true
  kind : st.isSdhc = b.card.sdhc

variable {st : Statics} {b : Bus}

/-- Only the exchange of a byte tells the card its clock. -/
theorem run_sendCmd_tuned (n : Bool) (d : ℕ) (c : Card) (cmd : Byte) (arg : Word) (crc : Byte) :
    Bus.run (sendCmd cmd arg crc) ⟨n, d, c⟩ =
      Bus.run (sendCmd cmd arg crc) ⟨n, d, (⟨n, d, c⟩ : Bus).tuned⟩ := by
  cases n <;> rfl

theorem Served.tuned (h : Served st b) : b.tuned.Serves b.div :=
  ⟨⟨h.rests.state, h.rests.resp⟩, rfl, h.ready, h.seen, h.strict⟩

theorem address_aligned {c : Card} (h : st.isSdhc = c.sdhc) (l : Word) :
    c.Aligned (st.address l) := by
  rw [Card.Aligned, Statics.address, h]
  cases c.sdhc
  · right
    have hlt := l.isLt
    simp only [Bool.false_eq_true, if_false, BitVec.toNat_shiftLeft, Nat.shiftLeft_eq, blockLen]
    omega
  · exact .inl rfl

/-- What a call does, and the state it leaves for the next one. -/
structure Exact (st : Statics) (call : BlockCall) (b : Bus) (r : (Bool × List Byte) × Bus) :
    Prop where
  served : Served st r.2
  same : b.card.Same r.2.card
  done : r.1.1 = true → call.Done r.2.card r.1.2
  spares : ∀ l, call.Spares l → r.2.card.sector l = b.card.sector l

theorem run_fetchBlock_tuned (d : ℕ) (c : Card) (addr : Word) :
    Bus.run (fetchBlock addr) ⟨true, d, c⟩ =
      Bus.run (fetchBlock addr) ⟨true, d, (⟨true, d, c⟩ : Bus).tuned⟩ := by
  rw [fetchBlock, run_bind, run_bind, run_sendCmd_tuned]

theorem run_writeBlock_tuned (d : ℕ) (c : Card) (l : Word) (buf : Block) :
    Bus.run (writeBlock st l buf) ⟨true, d, c⟩ =
      Bus.run (writeBlock st l buf) ⟨true, d, (⟨true, d, c⟩ : Bus).tuned⟩ := by
  rw [writeBlock, run_bind, run_bind, run_sendCmd_tuned]

theorem Served.perform_read (h : Served st b) {l : Word} (hl : b.card.InRange l) :
    Exact st (.read l) b (Bus.run (BlockCall.perform st (.read l)) b) := by
  obtain ⟨n, d, c⟩ := b
  obtain rfl : n = true := h.csN
  have hsel := (selects_iff h.strict st).mpr h.kind l hl
  obtain ⟨o, c', hrun, hc', hsame, himage, hdata⟩ :=
    h.tuned.run_fetchBlock (address_aligned h.kind l)
  rw [← run_fetchBlock_tuned] at hrun
  have hlba : ((⟨true, d, c⟩ : Bus).tuned.lba 17#8 (st.address l)).1 = l :=
    (Card.lba_fst_congr (by rfl) (by rfl) 17#8 _ _).trans (hsel 17#8)
  have hserved : Served st ⟨true, d, c'⟩ :=
    ⟨rfl, hc'.toRests, hc'.ready, hc'.seen, hc'.strict, h.kind.trans hsame.sdhc.symm⟩
  have hall : c.Same c' := ⟨hsame.sdhc, hsame.faults, hsame.violations⟩
  have hsector (l : Word) : c'.sector l = c.sector l := Card.sector_congr himage l
  rw [BlockCall.perform, readBlock, run_bind_of hrun]
  cases o with
  | none => exact ⟨hserved, hall, by simp [Bus.run], fun l _ ↦ hsector l⟩
  | some data =>
    refine ⟨hserved, hall, fun _ ↦ ?_, fun l _ ↦ hsector l⟩
    rw [hlba] at hdata
    exact (hdata data rfl).trans (hsector l).symm

theorem Served.perform_write (h : Served st b) {l : Word} (hl : b.card.InRange l) (buf : Block) :
    Exact st (.write l buf) b (Bus.run (BlockCall.perform st (.write l buf)) b) := by
  obtain ⟨n, d, c⟩ := b
  obtain rfl : n = true := h.csN
  have hsel := (selects_iff h.strict st).mpr h.kind l hl
  obtain ⟨r, c', hrun, hw⟩ := h.tuned.run_writeBlock (address_aligned h.kind l)
    (fun cmd ↦ (Card.lba_fst_congr (by rfl) (by rfl) cmd _ _).trans (hsel cmd)) buf
  rw [← run_writeBlock_tuned] at hrun
  rw [BlockCall.perform, run_bind_of hrun]
  refine ⟨⟨rfl, hw.serves.toRests, hw.serves.ready, hw.serves.seen, hw.serves.strict,
    h.kind.trans hw.same.sdhc.symm⟩, ⟨hw.same.sdhc, hw.same.faults, hw.same.violations⟩,
    hw.exact, fun l' hne ↦ ?_⟩
  rcases hw.image with himage | himage
  · exact Card.sector_congr himage l'
  · exact (Card.sector_congr himage l').trans (Card.sector_setSector hne buf.1)

/-- One call. -/
theorem Served.perform (h : Served st b) (call : BlockCall) (hl : b.card.InRange call.sector) :
    Exact st call b (Bus.run (call.perform st) b) := by
  cases call with
  | read l => exact h.perform_read hl
  | write l buf => exact h.perform_write hl buf

/-- Any number of calls. -/
theorem Served.performAll (h : Served st b) {calls : List BlockCall}
    (hl : ∀ call ∈ calls, b.card.InRange call.sector) :
    Served st (performAll st calls b) ∧ b.card.Same (Sd.performAll st calls b).card := by
  induction calls generalizing b with
  | nil => exact ⟨h, rfl, rfl, rfl⟩
  | cons call calls ih =>
    have hex := h.perform call (hl call List.mem_cons_self)
    have hrange (l : Word) (hl : b.card.InRange l) :
        (Bus.run (call.perform st) b).2.card.InRange l := by
      rwa [Card.InRange, hex.same.sdhc]
    obtain ⟨hserved, hsame⟩ := ih hex.served
      fun c hc ↦ hrange _ (hl c (List.mem_cons_of_mem call hc))
    exact ⟨hserved, hex.same.trans hsame⟩

/-- A successful `init` that is right about the card. -/
theorem Bus.Quiet.served {st₀ : Statics} {b₀ : Bus} (h : b₀.Quiet) (hstrict : b₀.card.strict = true)
    (hinit : Bus.run (init st₀) b₀ = ((true, st), b)) (hid : st.isSdhc = b.card.sdhc) :
    Served st b := by
  by_cases hs : b₀.card.Starts
  · obtain ⟨c', hrun, hc', hready, hseen⟩ := h.run_init_starts hs st₀
    rw [hinit] at hrun
    cases hrun
    exact ⟨rfl, hc'.toRests, hready, hseen, hc'.strict.trans hstrict, hid⟩
  · have hfalse := h.run_init_not_starts hs st₀
    rw [hinit] at hfalse
    exact absurd hfalse (by simp)

/-- `Soc::reset`: the master is a new one, and the card stays in its socket as it is. -/
def Bus.reset (b : Bus) : Bus := { b with csN := true, div := divInit }

/-- What a card without faults answers to a read. -/
theorem Card.Serves.answer_read {d : ℕ} {c : Card} (h : c.Serves d) {addr : Word}
    (ha : c.Aligned addr) (hfaults : c.faults = ⟨[], false, false, [], [], false⟩) :
    ∃ reads, c.answer 17#8 addr =
      { c with
        reads := reads
        resp := 0xFF#8 :: 0x00#8 :: 0xFF#8 :: 0xFE#8 ::
          (c.sector (c.lba 17#8 addr).1 ++ [0x12#8, 0x34#8]) } := by
  rcases Card.answer_read h.strict h.resp ha with herror | hdata
  · have hans : c.answer 17#8 addr = (c.lba 17#8 addr).2.answerRead (c.lba 17#8 addr).1 := rfl
    rw [Card.lba_snd h.strict ha, Card.answerRead, hfaults] at hans
    have hresp := congrArg Card.resp (hans.symm.trans herror)
    simp [h.resp] at hresp
  · exact hdata

end Vux9k.Sd

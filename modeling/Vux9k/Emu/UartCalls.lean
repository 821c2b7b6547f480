import Vux9k.Emu.UartLazy

/-!
# Calls of the emulator's UART

Two UARTs are the same from cycle `t` on (`From t`) if all the edges before `t` make them alike,
whatever of these each has already applied.  Every call of a cycle from `t` on gives the same answer
on both, and leaves two that are the same from that cycle on.
-/

set_option autoImplicit false

namespace Vux9k.Emu.Uart

variable {u u' : Uart} {c t : ℕ}

/-- The two cannot be told apart from cycle `t` on. -/
structure From (t : ℕ) (u u' : Uart) : Prop where
  wf : u.Wf
  wf' : u'.Wf
  now : u.now ≤ t
  now' : u'.now ≤ t
  alike : Alike (u.upTo t) (u'.upTo t)

/-- Both have been advanced to cycle `c`. -/
structure Synced (c : ℕ) (u u' : Uart) : Prop where
  wf : u.Wf
  wf' : u'.Wf
  now : u.now = c
  alike : Alike u u'

theorem From.refl (h : u.Wf) (hnow : u.now ≤ t) : From t u u := ⟨h, h, hnow, hnow, .refl _⟩

theorem From.mono (h : From c u u') (hct : c ≤ t) : From t u u' where
  wf := h.wf
  wf' := h.wf'
  now := h.now.trans hct
  now' := h.now'.trans hct
  alike := by
    rw [← upTo_upTo h.now hct, ← upTo_upTo h.now' hct]
    exact h.alike.upTo t

theorem Synced.now' (h : Synced c u u') : u'.now = c := h.alike.now_eq.trans h.now

theorem Synced.from (h : Synced c u u') : From c u u' where
  wf := h.wf
  wf' := h.wf'
  now := h.now.le
  now' := h.now'.le
  alike := by
    rw [upTo_of_le h.now.ge, upTo_of_le h.now'.ge]
    exact h.alike

theorem advance_now (h : u.Wf) (hc : u.now ≤ c) : (u.advance c).now = c :=
  (advance_eq h hc).1.now_eq.trans (upTo_now hc)

/-- **Advancing makes them alike.** -/
theorem From.advance (h : From t u u') (hc : t ≤ c) : Synced c (u.advance c) (u'.advance c) := by
  have hm := h.mono hc
  obtain ⟨ha, hwf⟩ := advance_eq hm.wf hm.now
  obtain ⟨ha', hwf'⟩ := advance_eq hm.wf' hm.now'
  exact ⟨hwf, hwf', advance_now hm.wf hm.now, (ha.symm.trans hm.alike).trans ha'⟩

theorem From.advance_right (h : From t u u') : From t u (u'.advance t) := by
  obtain ⟨ha, hwf⟩ := advance_eq h.wf' h.now'
  have hnow := advance_now h.wf' h.now'
  exact ⟨h.wf, hwf, h.now, hnow.le, by rw [upTo_of_le hnow.ge]; exact h.alike.trans ha⟩

/-! ## Effects of the CPU -/

theorem Wf.queue (h : u.Wf) (op : CpuOp) : (u.queue u.now op).Wf where
  ops o ho := by
    rcases List.mem_append.mp ho with ho | ho
    · exact h.ops o ho
    · rw [List.mem_singleton.mp ho]
      rfl
  push := h.push
  spaced := h.spaced
  free := h.free
  quiet e he := by
    have hle : u.now ≤ e := by
      rcases (nextEdge_iff.mp he).1 with he | he | he
      · exact h.le_edge (.inl he)
      · exact h.le_edge (.inr (.inl he))
      · change ((u.cpuOps ++ [(u.now, op)]).head?.map Prod.fst) = some e at he
        cases hops : u.cpuOps with
        | nil =>
          rw [hops] at he
          exact (Option.some.inj he).le
        | cons o ops =>
          rw [hops] at he
          exact h.le_edge (.inr (.inr (by rw [cpuEdge, hops]; exact he)))
    exact (min_le_right _ _).trans hle
  sent := h.sent
  sorted := h.sorted
  bytes := h.bytes

theorem Synced.queue (h : Synced c u u') (op : CpuOp) :
    Synced c (u.queue c op) (u'.queue c op) where
  wf := h.now ▸ h.wf.queue op
  wf' := h.now' ▸ h.wf'.queue op
  now := h.now
  alike := by
    have halike := h.alike
    unfold Alike at halike ⊢
    rw [halike]
    rfl

theorem Synced.popHead (h : Synced c u u') :
    (u.popHead c).1 = (u'.popHead c).1 ∧ Synced c (u.popHead c).2 (u'.popHead c).2 := by
  have hfifo : u'.rxFifo = u.rxFifo := by rw [h.alike]
  unfold Uart.popHead
  rw [hfifo]
  cases u.rxFifo with
  | nil => exact ⟨rfl, h⟩
  | cons head rest => exact ⟨rfl, h.queue _⟩

/-- **A read.** -/
theorem From.read (h : From t u u') (addr : Word) (hc : t ≤ c) :
    (u.read addr c).1 = (u'.read addr c).1 ∧ From c (u.read addr c).2 (u'.read addr c).2 := by
  have hs := h.advance hc
  have halike := hs.alike
  unfold Uart.read
  generalize hv : u.advance c = v at hs halike
  generalize hv' : u'.advance c = v' at hs halike
  have hfifo : v'.txFifo = v.txFifo := by rw [halike]
  have hrx : v'.rxFifo = v.rxFifo := by rw [halike]
  have hen : v'.evEnable = v.evEnable := by rw [halike]
  have hevents : v'.events = v.events := by rw [events, events, hfifo, hrx]
  have hpending : v'.evPending = v.evPending := by
    rw [evPending, evPending, enabled, enabled, hevents, hen]
  dsimp only
  split
  · exact ⟨hs.popHead.1, hs.popHead.2.from⟩
  · exact ⟨by rw [hfifo], hs.from⟩
  · exact ⟨by rw [hrx], hs.from⟩
  · exact ⟨by rw [hevents], hs.from⟩
  · exact ⟨by rw [hpending], hs.from⟩
  · exact ⟨by rw [hen], hs.from⟩
  · exact ⟨by rw [hfifo], hs.from⟩
  · exact ⟨by rw [hrx], hs.from⟩
  · exact ⟨rfl, hs.from⟩

theorem From.pushTx (h : From t u u') (v : Word) (hc : t ≤ c) :
    From c (u.pushTx v c) (u'.pushTx v c) := by
  have hs := h.advance hc
  have hfifo : (u'.advance c).txFifo = (u.advance c).txFifo := by rw [hs.alike]
  unfold Uart.pushTx
  dsimp only
  rw [hfifo]
  split
  · exact (hs.queue _).from
  · exact hs.from

/-- **A write.** -/
theorem From.write (h : From t u u') (addr v : Word) (hc : t ≤ c) :
    From c (u.write addr v c) (u'.write addr v c) := by
  unfold Uart.write
  split
  · exact h.pushTx v hc
  · exact ((h.advance hc).queue _).from
  · exact h.mono hc

/-- A read of the register view before liteuart's. -/
theorem From.legacyRead (h : From t u u') (addr : Word) (hc : t ≤ c) :
    (u.legacyRead addr c).1 = (u'.legacyRead addr c).1 ∧
      From c (u.legacyRead addr c).2 (u'.legacyRead addr c).2 := by
  have hs := h.advance hc
  have hfifo : (u'.advance c).txFifo = (u.advance c).txFifo := by rw [hs.alike]
  have hrx : (u'.advance c).rxFifo = (u.advance c).rxFifo := by rw [hs.alike]
  unfold Uart.legacyRead
  split
  · exact ⟨hs.popHead.1, hs.popHead.2.from⟩
  · exact ⟨by dsimp only; rw [hfifo, hrx], hs.from⟩

theorem From.legacyWrite (h : From t u u') (addr v : Word) (hc : t ≤ c) :
    From c (u.legacyWrite addr v c) (u'.legacyWrite addr v c) := by
  unfold Uart.legacyWrite
  split
  · exact h.pushTx v hc
  · exact h.mono hc

theorem From.rxPending (h : From t u u') (hc : t ≤ c) :
    (u.rxPending c).1 = (u'.rxPending c).1 ∧ From c (u.rxPending c).2 (u'.rxPending c).2 := by
  have hs := h.advance hc
  have hrx : (u'.advance c).rxFifo = (u.advance c).rxFifo := by rw [hs.alike]
  exact ⟨by rw [Uart.rxPending, Uart.rxPending]; dsimp only; rw [hrx], hs.from⟩

theorem From.softReset (h : From t u u') (hc : t ≤ c) :
    From c (u.softReset c) (u'.softReset c) := ((h.advance hc).queue _).from

theorem From.irq (h : From t u u') (hc : t ≤ c) :
    (u.irq c).1 = (u'.irq c).1 ∧ From c (u.irq c).2 (u'.irq c).2 := by
  have hs := h.advance hc
  have henabled : (u'.advance c).enabled = (u.advance c).enabled := by
    rw [hs.alike]
    rfl
  exact ⟨by rw [Uart.irq, Uart.irq]; dsimp only; rw [henabled], hs.from⟩

/-! ## The host -/

/-- What `host_send` asserts of a byte: it arrives at an edge that is still to come. -/
def SendOk (u : Uart) (c : ℕ) : Prop := u.now ≤ max u.rxLineFree c + rxPushDelay

theorem Wf.sendByte (h : u.Wf) (hc : u.SendOk c) (byte : Byte) : (sendByte c u byte).Wf where
  ops := h.ops
  push f hf := by
    rcases List.mem_append.mp hf with hf | hf
    · exact h.push f hf
    · rw [List.mem_singleton.mp hf]
      exact hc
  spaced := by
    refine List.pairwise_append.mpr ⟨h.spaced, List.pairwise_singleton _ _, fun f hf g hg ↦ ?_⟩
    rw [List.mem_singleton.mp hg]
    exact (h.free f hf).trans (le_max_left _ _)
  free f hf := by
    rcases List.mem_append.mp hf with hf | hf
    · have := h.free f hf
      change _ ≤ max u.rxLineFree c + frame
      omega
    · rw [List.mem_singleton.mp hf]
      exact le_rfl
  quiet e he := by
    change min u.quietUntil (max u.rxLineFree c + rxPushDelay) ≤ e
    rcases (nextEdge_iff.mp he).1 with he | he | he
    · exact (min_le_left _ _).trans (h.quiet_le (.inl he))
    · change ((u.rxLine ++ [(⟨byte, max u.rxLineFree c⟩ : RxFrame)]).head?.map fun f : RxFrame ↦
        f.start + rxPushDelay) = some e at he
      cases hline : u.rxLine with
      | nil =>
        rw [hline] at he
        rw [← Option.some.inj he]
        exact min_le_right _ _
      | cons f rest =>
        rw [hline] at he
        refine (min_le_left _ _).trans (h.quiet_le (.inr (.inl ?_)))
        rw [rxPushEdge, hline]
        exact he
    · exact (min_le_left _ _).trans (h.quiet_le (.inr (.inr he)))
  sent := h.sent
  sorted := h.sorted
  bytes := h.bytes

/-- The assertion holds for the rest of the bytes too. -/
theorem SendOk.sendByte (hc : u.SendOk c) (byte : Byte) : (sendByte c u byte).SendOk c := by
  unfold SendOk at hc ⊢
  change u.now ≤ max (max u.rxLineFree c + frame) c + rxPushDelay
  omega

/-- Bytes that the host sends from cycle `c` on. -/
theorem Wf.hostSend (h : u.Wf) (hc : u.SendOk c) (bytes : List Byte) :
    (u.hostSend bytes c).Wf ∧ (u.hostSend bytes c).now = u.now := by
  unfold Uart.hostSend
  induction bytes generalizing u with
  | nil => exact ⟨h, rfl⟩
  | cons byte bytes ih => exact ih (h.sendByte hc byte) (hc.sendByte byte)

/-! ## What has been sent -/

/-- What has been sent since cycle `c`, when `base` had been, starts two cycles later at the
earliest. -/
def Since (c : ℕ) (base : List (Byte × ℕ)) (u : Uart) : Prop :=
  c ≤ u.now ∧ ∃ new, u.txOut = base ++ new ∧ ∀ b ∈ new, c + 2 ≤ b.2

theorem Since.refl (hc : u.now = c) : Since c u.txOut u := ⟨hc.ge, [], by simp, by simp⟩

variable {base : List (Byte × ℕ)}

theorem Since.tick (h : Since c base u) : Since c base u.tick := by
  obtain ⟨hc, new, hout, hnew⟩ := h
  have hedge := edge_applyEdge u u.now (u.txPopEdge = some u.now) (u.rxPushEdge = some u.now)
  refine ⟨hc.trans (Nat.le_succ _), ?_⟩
  change ∃ new, (u.applyEdge _ _ _).txOut = base ++ new ∧ _
  rw [hedge.txOut]
  split
  · obtain ⟨more, hpop, -, hmore, -⟩ := popTx_txOut u u.now
    refine ⟨new ++ more, by rw [hpop, hout, List.append_assoc], fun b hb ↦ ?_⟩
    rcases List.mem_append.mp hb with hb | hb
    · exact hnew b hb
    · have := (hmore b hb).1
      omega
  · exact ⟨new, hout, hnew⟩

theorem Since.upTo (h : Since c base u) (t : ℕ) : Since c base (u.upTo t) := by
  rw [Uart.upTo]
  induction t - u.now with
  | zero => exact h
  | succ n ih =>
    rw [Function.iterate_succ_apply']
    exact ih.tick

theorem Since.alike (h : Since c base u) (ha : Alike u u') : Since c base u' := by
  rw [ha]
  exact h

theorem Since.advance (h : Since c base u) (hwf : u.Wf) (ht : u.now ≤ t) :
    Since c base (u.advance t) := (h.upTo t).alike (advance_eq hwf ht).1

theorem Since.popHead (h : Since c base u) (t : ℕ) : Since c base (u.popHead t).2 := by
  unfold Uart.popHead
  split
  · exact h
  · exact h

theorem Since.read (h : Since c base u) (hwf : u.Wf) (ht : u.now ≤ t) (addr : Word) :
    Since c base (u.read addr t).2 := by
  have ha := h.advance hwf ht
  unfold Uart.read
  dsimp only
  split
  · exact ha.popHead t
  all_goals exact ha

theorem Since.legacyRead (h : Since c base u) (hwf : u.Wf) (ht : u.now ≤ t) (addr : Word) :
    Since c base (u.legacyRead addr t).2 := by
  have ha := h.advance hwf ht
  unfold Uart.legacyRead
  split
  · exact ha.popHead t
  · exact ha

theorem Since.pushTx (h : Since c base u) (hwf : u.Wf) (ht : u.now ≤ t) (v : Word) :
    Since c base (u.pushTx v t) := by
  have ha := h.advance hwf ht
  unfold Uart.pushTx
  dsimp only
  split
  · exact ha
  · exact ha

theorem Since.write (h : Since c base u) (hwf : u.Wf) (ht : u.now ≤ t) (addr v : Word) :
    Since c base (u.write addr v t) := by
  unfold Uart.write
  split
  · exact h.pushTx hwf ht v
  · exact h.advance hwf ht
  · exact h

theorem Since.legacyWrite (h : Since c base u) (hwf : u.Wf) (ht : u.now ≤ t) (addr v : Word) :
    Since c base (u.legacyWrite addr v t) := by
  unfold Uart.legacyWrite
  split
  · exact h.pushTx hwf ht v
  · exact h

theorem Since.softReset (h : Since c base u) (hwf : u.Wf) (ht : u.now ≤ t) :
    Since c base (u.softReset t) := h.advance hwf ht

/-- The number of frames that are complete. -/
theorem length_takeWhile_eq {α : Type} {p : α → Bool} {l : List α} {n : ℕ}
    (hall : ∀ i, i < n → ∃ a, l[i]? = some a ∧ p a = true)
    (hstop : ∀ a, l[n]? = some a → p a = false) : (l.takeWhile p).length = n := by
  induction l generalizing n with
  | nil =>
    cases n with
    | zero => rfl
    | succ n =>
      obtain ⟨a, ha, -⟩ := hall 0 (by omega)
      cases ha
  | cons x xs ih =>
    cases n with
    | zero =>
      rw [List.takeWhile_cons, hstop x rfl]
      rfl
    | succ n =>
      obtain ⟨a, ha, hp⟩ := hall 0 (by omega)
      obtain rfl := Option.some.inj ha
      rw [List.takeWhile_cons, if_pos hp, List.length_cons,
        ih (fun i hi ↦ hall (i + 1) (by omega)) hstop]

theorem getElem?_of_lt_takeWhile {α : Type} {p : α → Bool} {l : List α} {i : ℕ}
    (hi : i < (l.takeWhile p).length) : ∃ a, l[i]? = some a ∧ p a = true := by
  have hmem := List.getElem_mem hi
  refine ⟨(l.takeWhile p)[i], ?_, List.mem_takeWhile_imp hmem⟩
  obtain ⟨rest, hrest⟩ := List.takeWhile_prefix p (l := l)
  rw [← List.getElem?_eq_getElem hi]
  conv_lhs => rw [← hrest]
  exact List.getElem?_append_left hi

/-- **No byte is complete before `next_tx_complete`.** -/
theorem txCompleteBy_eq (h : Since c u.txOut u') (hct : c ≤ t)
    (ht : t < u.nextTxComplete (u.txCompleteBy c) c) : u'.txCompleteBy t = u.txCompleteBy c := by
  obtain ⟨-, new, hout, hnew⟩ := h
  refine length_takeWhile_eq (fun i hi ↦ ?_) (fun a ha ↦ ?_)
  · obtain ⟨a, ha, hp⟩ := getElem?_of_lt_takeWhile hi
    have hlt : i < u.txOut.length := (List.getElem?_eq_some_iff.mp ha).1
    refine ⟨a, ?_, ?_⟩
    · rw [hout, List.getElem?_append_left hlt]
      exact ha
    · have := of_decide_eq_true hp
      exact decide_eq_true (this.trans hct)
  · rw [hout] at ha
    unfold nextTxComplete at ht
    cases hn : u.txOut[u.txCompleteBy c]? with
    | none =>
      rw [hn] at ht
      rw [List.getElem?_append_right (List.getElem?_eq_none_iff.mp hn)] at ha
      have := hnew a (List.mem_of_getElem? ha)
      exact decide_eq_false (by dsimp only at ht; omega)
    | some b =>
      have hlt : u.txCompleteBy c < u.txOut.length := (List.getElem?_eq_some_iff.mp hn).1
      rw [hn] at ht
      rw [List.getElem?_append_left hlt, hn] at ha
      obtain rfl := Option.some.inj ha
      have := min_le_left (b.2 + frame) (c + 2 + frame)
      exact decide_eq_false (by dsimp only at ht; omega)

end Vux9k.Emu.Uart

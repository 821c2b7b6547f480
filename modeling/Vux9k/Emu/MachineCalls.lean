import Vux9k.Emu.Parametric
import Vux9k.Emu.Periph
import Vux9k.Emu.UartCalls

/-!
# What the CPU can tell of the UART's laziness

Two machines that are the same but for how far their UARTs have been advanced give the same answers
(`related_bus`), so `step` does the same on both (`step_same`).
-/

set_option autoImplicit false

namespace Vux9k.Emu

variable {c t e : ℕ} {base : List (Byte × ℕ)}

/-! ## The peripherals -/

/-- A write of the GPIO asks for no soft reset, or for one whose pulse begins in the next cycle. -/
theorem Gpio.pending_write (g : Gpio) (addr v : Word) (c : ℕ) :
    (g.write addr v c).pending = g.pending ∨
      ∃ sr, (g.write addr v c).pending = some sr ∧ sr.release = c + 16 := by
  unfold Gpio.write
  split
  · exact .inl rfl
  · exact .inl rfl
  · split
    · exact .inr ⟨_, rfl, rfl⟩
    · exact .inl rfl
  · exact .inl rfl

/-- The same peripherals but for how far the UARTs have been advanced; the first has sent `base` up
to cycle `c`. -/
structure Periph.Same (c : ℕ) (base : List (Byte × ℕ)) (t : ℕ) (p q : Periph) : Prop where
  clint : q.clint = p.clint
  gpio : q.gpio = p.gpio
  btn : q.btn = p.btn
  sd : q.sd = p.sd
  uart : Uart.From t p.uart q.uart
  since : Uart.Since c base p.uart

namespace Periph.Same

variable {p q : Periph}

theorem mono (h : Same c base t p q) (hte : t ≤ e) : Same c base e p q :=
  ⟨h.clint, h.gpio, h.btn, h.sd, h.uart.mono hte, h.since⟩

/-- Calls of the UARTs. -/
theorem withUart (h : Same c base t p q) {u v : Uart} (hu : Uart.From e u v)
    (hs : Uart.Since c base u) : Same c base e { p with uart := u } { q with uart := v } :=
  ⟨h.clint, h.gpio, h.btn, h.sd, hu, hs⟩

/-- `meip`. -/
theorem meip (h : Same c base t p q) (v03 : Bool) :
    (q.meip v03 t).1 = (p.meip v03 t).1 ∧
      Same c base t (p.meip v03 t).2 (q.meip v03 t).2 ∧ (p.meip v03 t).2.gpio = p.gpio := by
  have hsince := h.since.advance h.uart.wf h.uart.now
  unfold Periph.meip
  cases v03 with
  | true =>
    obtain ⟨hline, hfrom⟩ := h.uart.rxPending le_rfl
    exact ⟨hline.symm, h.withUart hfrom hsince, rfl⟩
  | false =>
    obtain ⟨hline, hfrom⟩ := h.uart.irq le_rfl
    exact ⟨hline.symm, h.withUart hfrom hsince, rfl⟩

/-- `mip_at`. -/
theorem mipAt (h : Same c base t p q) (v03 : Bool) :
    (q.mipAt v03 t).1 = (p.mipAt v03 t).1 ∧
      Same c base t (p.mipAt v03 t).2 (q.mipAt v03 t).2 ∧ (p.mipAt v03 t).2.gpio = p.gpio := by
  obtain ⟨hline, hsame, hgpio⟩ := h.meip v03
  unfold Periph.mipAt
  dsimp only
  rw [hline, hsame.clint]
  exact ⟨rfl, hsame, hgpio⟩

/-- A read. -/
theorem read (h : Same c base t p q) (v03 : Bool) (d : Peripheral) (addr : Word) (hte : t ≤ e) :
    ((calls v03).read d addr e q).1 = ((calls v03).read d addr e p).1 ∧
      Same c base e ((calls v03).read d addr e p).2 ((calls v03).read d addr e q).2 ∧
      ((calls v03).read d addr e p).2.gpio = p.gpio := by
  have hm := h.mono hte
  cases d with
  | uart =>
    unfold calls
    dsimp only
    cases v03 with
    | true =>
      obtain ⟨hword, hfrom⟩ := h.uart.legacyRead addr hte
      exact ⟨hword.symm, h.withUart hfrom (h.since.legacyRead h.uart.wf (hm.uart.now) addr), rfl⟩
    | false =>
      obtain ⟨hword, hfrom⟩ := h.uart.read addr hte
      exact ⟨hword.symm, h.withUart hfrom (h.since.read h.uart.wf (hm.uart.now) addr), rfl⟩
  | clint => exact ⟨by unfold calls; dsimp only; rw [h.clint], hm, rfl⟩
  | sd => exact ⟨by unfold calls; dsimp only; rw [h.sd], hm, rfl⟩
  | gpio => exact ⟨by unfold calls; dsimp only; rw [h.gpio, h.btn], hm, rfl⟩

/-- A write: it asks for no soft reset, or for one whose pulse begins in the next cycle. -/
theorem write (h : Same c base t p q) (v03 : Bool) (d : Peripheral) (addr data : Word)
    (hte : t ≤ e) :
    Same c base e ((calls v03).write d addr data e p) ((calls v03).write d addr data e q) ∧
      (((calls v03).write d addr data e p).gpio.pending = p.gpio.pending ∨
        ∃ sr, ((calls v03).write d addr data e p).gpio.pending = some sr ∧
        sr.release = e + 16) := by
  have hm := h.mono hte
  cases d with
  | uart =>
    refine ⟨?_, .inl rfl⟩
    unfold calls
    dsimp only
    cases v03 with
    | true =>
      exact h.withUart (h.uart.legacyWrite addr data hte)
        (h.since.legacyWrite h.uart.wf hm.uart.now addr data)
    | false =>
      exact h.withUart (h.uart.write addr data hte) (h.since.write h.uart.wf hm.uart.now addr data)
  | clint =>
    unfold calls
    dsimp only
    split
    · exact ⟨hm, .inl rfl⟩
    · exact ⟨{ hm with clint := by rw [h.clint] }, .inl rfl⟩
  | sd => exact ⟨{ hm with sd := by unfold calls; dsimp only; rw [h.sd] }, .inl rfl⟩
  | gpio =>
    exact ⟨{ hm with gpio := by unfold calls; dsimp only; rw [h.gpio] },
      p.gpio.pending_write addr data e⟩

end Periph.Same

/-! ## The bus of the `Real` profile -/

/-- The same behind the bus, but for how far the UARTs have been advanced. -/
structure Outside.Same (c : ℕ) (base : List (Byte × ℕ)) (t : ℕ) (x y : Outside Periph) : Prop where
  window : y.window = x.window
  periph : Periph.Same c base t x.periph y.periph

/-- And no soft reset is asked for. -/
def Outside.Calm (c : ℕ) (base : List (Byte × ℕ)) (t : ℕ) (x y : Outside Periph) : Prop :=
  Outside.Same c base t x y ∧ x.periph.gpio.pending = none

/-- And a soft reset that is asked for begins in the next cycle. -/
def Outside.Asked (c : ℕ) (base : List (Byte × ℕ)) (t : ℕ) (x y : Outside Periph) : Prop :=
  Outside.Same c base t x y ∧ ∀ sr, x.periph.gpio.pending = some sr → sr.release = t + 16

namespace Outside.Calm

variable {x y : Outside Periph}

theorem mono (h : Calm c base t x y) (hte : t ≤ e) : Calm c base e x y :=
  ⟨⟨h.1.window, h.1.periph.mono hte⟩, h.2⟩

theorem asked (h : Calm c base t x y) : Asked c base t x y :=
  ⟨h.1, fun sr hsr ↦ by rw [h.2] at hsr; cases hsr⟩

/-- An access of the window. -/
theorem window {α : Type} (h : Calm c base t x y) (f : Window → α × Window) :
    (f y.window).1 = (f x.window).1 ∧
      Calm c base t { x with window := (f x.window).2 } { y with window := (f y.window).2 } := by
  rw [h.1.window]
  exact ⟨rfl, ⟨rfl, h.1.periph⟩, h.2⟩

theorem readAt (h : Calm c base t x y) (v03 : Bool) (d : Peripheral) (addr : Word) (hte : t ≤ e) :
    ((Periph.calls v03).readAt d addr e y).1 = ((Periph.calls v03).readAt d addr e x).1 ∧
      Calm c base e ((Periph.calls v03).readAt d addr e x).2
        ((Periph.calls v03).readAt d addr e y).2 := by
  obtain ⟨hword, hsame, hgpio⟩ := h.1.periph.read v03 d addr hte
  exact ⟨hword, ⟨h.1.window, hsame⟩, (congrArg Gpio.pending hgpio).trans h.2⟩

theorem writeAt (h : Calm c base t x y) (v03 : Bool) (d : Peripheral) (addr data : Word)
    (hte : t ≤ e) :
    Asked c base e ((Periph.calls v03).writeAt d addr data e x)
      ((Periph.calls v03).writeAt d addr data e y) := by
  obtain ⟨hsame, hpending⟩ := h.1.periph.write v03 d addr data hte
  refine ⟨⟨h.1.window, hsame⟩, fun sr hsr ↦ ?_⟩
  replace hsr : ((Periph.calls v03).write d addr data e x.periph).gpio.pending = some sr := hsr
  rcases hpending with hp | ⟨sr', hp, hrelease⟩
  · rw [hp, h.2] at hsr
    cases hsr
  · rw [hp] at hsr
    obtain rfl := Option.some.inj hsr
    exact hrelease

theorem mmioRead (h : Calm c base t x y) (v03 : Bool) (addr : Word) :
    ((Periph.calls v03).mmioRead addr t y).1 = ((Periph.calls v03).mmioRead addr t x).1 ∧
      Calm c base (t + 2) ((Periph.calls v03).mmioRead addr t x).2
        ((Periph.calls v03).mmioRead addr t y).2 := by
  have hlater {d : Peripheral} : _ ∧ _ :=
    ⟨(h.readAt v03 d addr (Nat.le_add_right t 1)).1,
      (h.readAt v03 d addr (Nat.le_add_right t 1)).2.mono (Nat.le_succ (t + 1))⟩
  unfold Peripherals.mmioRead
  split
  · exact h.readAt v03 _ _ (Nat.le_add_right _ _)
  · exact hlater
  · exact hlater
  · exact ⟨rfl, h.mono (Nat.le_add_right _ _)⟩

theorem mmioWrite (h : Calm c base t x y) (v03 : Bool) (addr data : Word)
    (hte : t ≤ e) :
    Asked c base e ((Periph.calls v03).mmioWrite addr data e x)
      ((Periph.calls v03).mmioWrite addr data e y) := by
  unfold Peripherals.mmioWrite
  split
  · exact h.writeAt v03 _ _ _ hte
  · exact h.writeAt v03 _ _ _ hte
  · exact h.writeAt v03 _ _ _ hte
  · exact (h.mono hte).asked

end Outside.Calm

/-- The bus of the `Real` profile. -/
theorem related_real (v03 : Bool) :
    Related (Periph.calls v03).bus (Outside.Calm c base) (Outside.Asked c base) where
  mono h hte := h.mono hte
  fetch m pc h := h.window (Window.fetch · m pc)
  loadWait addr h := h.window (Window.rvLoadWait · addr)
  readWord {t x y} addr h := by
    change (Peripherals.rvReadWord _ addr t y).1 = (Peripherals.rvReadWord _ addr t x).1 ∧ _
    unfold Peripherals.bus
    dsimp only
    unfold Peripherals.rvReadWord
    rw [h.1.window]
    split
    · exact ⟨rfl, h.mono (Nat.le_add_right _ _)⟩
    · obtain ⟨hword, hcalm⟩ := h.readAt v03 .clint addr (Nat.le_add_right t 1)
      exact ⟨hword, hcalm.mono (Nat.le_succ (t + 1))⟩
    · exact h.mmioRead v03 addr
    · exact ⟨rfl, h.mono (Nat.le_add_right _ _)⟩
  write {t x y} addr v be h := by
    unfold Peripherals.bus
    dsimp only
    unfold Peripherals.rvWrite
    split
    · exact ⟨rfl, .inr ⟨rfl, h.writeAt v03 _ _ _ (Nat.le_add_right _ _)⟩⟩
    · exact ⟨rfl, .inr ⟨rfl, h.mmioWrite v03 _ _ (Nat.le_add_right _ _)⟩⟩
    · obtain ⟨hwait, hcalm⟩ := h.window (Window.rvWrite · addr v be)
      exact ⟨hwait, .inl hcalm⟩
  hackRead {t x y} a h := by
    unfold Peripherals.bus
    dsimp only
    unfold Peripherals.hackRead
    dsimp only
    split
    · obtain ⟨hword, hcalm⟩ := h.mmioRead v03 (hackMmio (a &&& 0xFFFF#32))
      exact ⟨congrArg (·, 0) hword, hcalm⟩
    · obtain ⟨hword, hcalm⟩ := h.window (Window.hackRead · a)
      exact ⟨hword, hcalm.mono (Nat.le_add_right _ _)⟩
  hackWrite {t x y} a v h := by
    unfold Peripherals.bus
    dsimp only
    unfold Peripherals.hackWrite
    dsimp only
    split
    · exact ⟨rfl, .inr ⟨rfl, h.mmioWrite v03 _ _ le_rfl⟩⟩
    · obtain ⟨hwait, hcalm⟩ := h.window (Window.hackWrite · a v)
      exact ⟨hwait, .inl hcalm⟩
  mipAt h := by
    obtain ⟨hmip, hsame, hgpio⟩ := h.1.periph.mipAt v03
    exact ⟨hmip, ⟨h.1.window, hsame⟩, (congrArg Gpio.pending hgpio).trans h.2⟩
  mtime c' h := congrArg (fun clint : Clint ↦ clint.timer.mtime c') h.1.periph.clint

/-! ## The bus of every profile -/

/-- The same machine but for what is behind the bus of the `Real` profile. -/
structure Machine.Like (R : Outside Periph → Outside Periph → Prop) (m n : Machine) : Prop where
  v03 : n.v03Mmio = m.v03Mmio
  isaTest : n.isaTest = m.isaTest
  tohost : n.tohost = m.tohost
  outside : R m.outside n.outside

/-- The same machine but for how far the UARTs have been advanced. -/
def Machine.Calm (c : ℕ) (base : List (Byte × ℕ)) (t : ℕ) : Machine → Machine → Prop :=
  Machine.Like (Outside.Calm c base t)

/-- And a soft reset that is asked for begins in the next cycle. -/
def Machine.Asked (c : ℕ) (base : List (Byte × ℕ)) (t : ℕ) : Machine → Machine → Prop :=
  Machine.Like (Outside.Asked c base t)

namespace Machine

variable {m n : Machine}

theorem Like.mono {R R' : Outside Periph → Outside Periph → Prop} (h : Like R m n)
    (hR : R m.outside n.outside → R' m.outside n.outside) : Like R' m n :=
  ⟨h.v03, h.isaTest, h.tohost, hR h.outside⟩

/-- An answer of the `Real` profile. -/
theorem Like.lift {α : Type} {R R' : Outside Periph → Outside Periph → Prop} (h : Like R m n)
    {r r' : α × Outside Periph} (hr : r'.1 = r.1 ∧ R' r.2 r'.2) :
    (n.lift r').1 = (m.lift r).1 ∧ Like R' (m.lift r).2 (n.lift r').2 :=
  ⟨hr.1, h.v03, h.isaTest, h.tohost, hr.2⟩

/-- A wait of the `Real` profile, of an access that may be a write of a peripheral. -/
theorem Like.liftWrite (h : Calm c base t m n) {r r' : ℕ × Outside Periph}
    (hr : r'.1 = r.1 ∧
      (Outside.Calm c base t r.2 r'.2 ∨ r.1 = 0 ∧ Outside.Asked c base e r.2 r'.2)) :
    (n.lift r').1 = (m.lift r).1 ∧ (Calm c base t (m.lift r).2 (n.lift r').2 ∨
      (m.lift r).1 = 0 ∧ Asked c base e (m.lift r).2 (n.lift r').2) := by
  obtain ⟨hwait, hcalm | ⟨hzero, hasked⟩⟩ := hr
  · exact ⟨hwait, .inl ⟨h.v03, h.isaTest, h.tohost, hcalm⟩⟩
  · exact ⟨hwait, .inr ⟨hzero, h.v03, h.isaTest, h.tohost, hasked⟩⟩

theorem related_realBus (m : Machine) :
    Related m.realBus (Outside.Calm c base) (Outside.Asked c base) := related_real m.v03Mmio

theorem Calm.inTimerPage (h : Calm c base t m n) (addr : Word) :
    n.inTimerPage addr = m.inTimerPage addr := by
  rw [Machine.inTimerPage, Machine.inTimerPage, h.v03]

theorem Calm.realBus (h : Calm c base t m n) : n.realBus = m.realBus := by
  rw [Machine.realBus, Machine.realBus, h.v03]

theorem Calm.writeTimerPage (h : Calm c base t m n) (addr data : Word) (hte : t ≤ e) (edge : ℕ) :
    Calm c base e (m.writeTimerPage addr data edge) (n.writeTimerPage addr data edge) := by
  have hm := h.mono (Outside.Calm.mono · hte)
  unfold Machine.writeTimerPage
  split
  · refine ⟨h.v03, h.isaTest, h.tohost,
      ⟨hm.outside.1.window, { hm.outside.1.periph with clint := ?_ }⟩,
      h.outside.2⟩
    have hclint : n.periph.clint = m.periph.clint := h.outside.1.periph.clint
    rw [hclint]
    rfl
  · exact hm

/-- **The bus cannot tell how far the UART has been advanced.** -/
theorem related_bus : Related bus (Calm c base) (Asked c base) where
  mono h hte := h.mono (Outside.Calm.mono · hte)
  fetch riscvMode pc h := by
    have hbus := Calm.realBus h
    unfold bus
    dsimp only
    rw [hbus]
    exact h.lift ((related_realBus _).fetch riscvMode pc h.outside)
  loadWait addr h := by
    have hbus := Calm.realBus h
    unfold bus
    dsimp only
    rw [hbus]
    exact h.lift ((related_realBus _).loadWait addr h.outside)
  readWord {t m n} addr h := by
    have hbus := Calm.realBus h
    have hwindow := h.outside.1.window
    have hclint : n.periph.clint = m.periph.clint := h.outside.1.periph.clint
    have hlater := h.mono (Outside.Calm.mono · (Nat.le_add_right t 2))
    unfold bus
    dsimp only
    unfold Machine.rvReadWord
    rw [hbus, hwindow, hclint, h.isaTest, Calm.inTimerPage h]
    split
    · exact ⟨rfl, hlater⟩
    · split
      · exact ⟨rfl, hlater⟩
      · exact h.lift ((related_realBus _).readWord addr h.outside)
  write {t m n} addr v be h := by
    have hbus := Calm.realBus h
    have hwindow := h.outside.1.window
    unfold bus
    dsimp only
    unfold Machine.rvWrite
    rw [hbus, h.isaTest, Calm.inTimerPage h]
    split
    · refine ⟨rfl, .inl ⟨h.v03, h.isaTest, ?_, ⟨?_, h.outside.1.periph⟩, h.outside.2⟩⟩
      · exact congrArg (fun o : Option Word ↦ if addr = tohostAddr ∧ o = none then some v else o)
          h.tohost
      · unfold Machine.isaTestWrite
        dsimp only
        rw [hwindow]
    · split
      · refine ⟨rfl, .inr ⟨rfl, ?_⟩⟩
        exact (Calm.writeTimerPage h addr v (Nat.le_add_right t 2) (t + 2)).mono Outside.Calm.asked
      · exact Like.liftWrite h (m.related_realBus.write addr v be h.outside)
  hackRead a h := by
    have hbus := Calm.realBus h
    unfold bus
    dsimp only
    rw [hbus]
    exact h.lift ((related_realBus _).hackRead a h.outside)
  hackWrite {t m n} a v h := by
    have hbus := Calm.realBus h
    unfold bus
    dsimp only
    rw [hbus]
    exact Like.liftWrite h (m.related_realBus.hackWrite a v h.outside)
  mipAt h := by
    have hbus := Calm.realBus h
    unfold bus
    dsimp only
    rw [hbus]
    exact h.lift ((related_realBus _).mipAt h.outside)
  mtime c' h := by
    have hbus := Calm.realBus h
    unfold bus
    dsimp only
    rw [hbus]
    exact (related_realBus _).mtime c' h.outside

end Machine

/-! ## `step` -/

namespace Soc

variable {s : Soc Machine} {y : Machine}

/-- The peripherals, after a call of these alone. -/
theorem calm_withPeriph {m n : Machine} {p q : Periph} (h : Machine.Calm c base t m n)
    (hsame : Periph.Same c base t p q) (hpending : p.gpio.pending = none) :
    Machine.Calm c base t (m.withPeriph p) (n.withPeriph q) :=
  ⟨h.v03, h.isaTest, h.tohost, ⟨h.outside.1.window, hsame⟩, hpending⟩

theorem sampleLines_same {p q : Periph} (h : Periph.Same c base t p q) (v03 : Bool)
    (enabled : Word) :
    (sampleLines v03 enabled t q).1 = (sampleLines v03 enabled t p).1 ∧
      Periph.Same c base t (sampleLines v03 enabled t p).2 (sampleLines v03 enabled t q).2 ∧
      (sampleLines v03 enabled t p).2.gpio = p.gpio := by
  unfold sampleLines
  dsimp only
  by_cases hon : enabled &&& mipMeip ≠ 0#32
  · obtain ⟨hline, hsame, hgpio⟩ := h.meip v03
    simp only [if_pos hon]
    rw [hline, hsame.clint]
    exact ⟨rfl, hsame, hgpio⟩
  · simp only [if_neg hon]
    rw [h.clint]
    exact ⟨rfl, h, trivial⟩

/-- `sample_interrupt`. -/
theorem sampleInterrupt_same (h : Machine.Calm c base s.cycle s.mem y) :
    ∃ x' y', s.sampleInterrupt = (s.sampleInterrupt.1, s.withMem x') ∧
      (s.withMem y).sampleInterrupt = (s.sampleInterrupt.1, s.withMem y') ∧
      Machine.Calm c base s.cycle x' y' := by
  obtain ⟨hmip, hsame, hgpio⟩ := sampleLines_same h.outside.1.periph s.mem.v03Mmio s.csr.mie
  have hpending : s.mem.periph.gpio.pending = none := h.outside.2
  unfold sampleInterrupt
  rw [show (s.withMem y).csr = s.csr from rfl]
  split
  · exact ⟨s.mem, y, rfl, rfl, h⟩
  · refine ⟨_, _, rfl, ?_, calm_withPeriph h hsame ((congrArg Gpio.pending hgpio).trans hpending)⟩
    have hv03 : (s.withMem y).mem.v03Mmio = s.mem.v03Mmio := h.v03
    dsimp only
    rw [hv03]
    exact Prod.ext (congrArg s.csr.pendingInterrupt hmip) rfl

/-- The instruction. -/
theorem ends_execute (h : Machine.Calm c base s.cycle s.mem y) (word : Word) (r : Retire) :
    Ends (Machine.Calm c base) (Machine.Asked c base) s.cycle (s.execute word r)
      ((s.withMem y).execute word r) := by
  unfold execute
  rw [show (s.withMem y).riscvMode = s.riscvMode from rfl]
  split
  · obtain ⟨x', y', hx, hy, hcalm⟩ := sampleInterrupt_same h
    rw [hx, hy]
    exact ends_stepRv (s := s.withMem x') Machine.related_bus hcalm word _
  · exact ends_stepHack Machine.related_bus h word

/-- The soft reset, if one is asked for. -/
theorem takeSoftReset_same
    (h : Machine.Calm c base s.cycle s.mem y ∨
      ∃ e, Machine.Asked c base e s.mem y ∧ e ≤ s.cycle ∧ s.cycle ≤ e + 3) :
    ∃ y', (s.withMem y).takeSoftReset = s.takeSoftReset.withMem y' ∧
      Machine.Calm c base s.takeSoftReset.cycle s.takeSoftReset.mem y' ∧
      s.cycle ≤ s.takeSoftReset.cycle := by
  obtain ⟨e, hasked, hle, hge⟩ :
    ∃ e, Machine.Asked c base e s.mem y ∧ e ≤ s.cycle ∧ s.cycle ≤ e + 3 := by
    rcases h with h | h
    · exact ⟨s.cycle, h.mono Outside.Calm.asked, le_rfl, by omega⟩
    · exact h
  have hsame : Periph.Same c base e s.mem.periph y.periph := hasked.outside.1.periph
  have hgpio : y.periph.gpio = s.mem.periph.gpio := hsame.gpio
  have hmem : (s.withMem y).mem = y := rfl
  have hrelease : ∀ sr, s.mem.periph.gpio.pending = some sr → sr.release = e + 16 :=
    hasked.outside.2
  unfold takeSoftReset Gpio.takeSoftReset
  rw [hmem, hgpio]
  dsimp only
  cases hpending : s.mem.periph.gpio.pending with
  | none =>
    refine ⟨_, rfl, ⟨hasked.v03, hasked.isaTest, hasked.tohost, ⟨hasked.outside.1.window, ?_⟩, rfl⟩,
      le_rfl⟩
    exact { hsame.mono hle with gpio := rfl }
  | some sr =>
    have hsr := hrelease sr hpending
    refine ⟨_, rfl, ⟨hasked.v03, hasked.isaTest, hasked.tohost, ⟨hasked.outside.1.window, ?_⟩, rfl⟩,
      show s.cycle ≤ sr.release by omega⟩
    have hfrom := (hsame.uart.softReset (show e ≤ sr.release - 1 by omega)).mono
      (show sr.release - 1 ≤ sr.release by omega)
    exact ⟨hsame.clint, rfl, hsame.btn, hsame.sd, hfrom,
      hsame.since.softReset hsame.uart.wf (by have := hsame.uart.now; omega)⟩

/-- The state of the instruction's last FETCH cycle, and the word and the wait of the fetch. -/
def fetched (s : Soc Machine) : (Word × ℕ) × Soc Machine :=
  ((Machine.bus.fetch s.riscvMode s.pc s.mem).1,
    afterWait { s with mem := (Machine.bus.fetch s.riscvMode s.pc s.mem).2 }
      (Machine.bus.fetch s.riscvMode s.pc s.mem).1.2)

/-- The end of `step`, after the instruction. -/
def finish (wait : ℕ) (q : Soc Machine × Retire) : Soc Machine × Retire :=
  ((q.1.endStep q.2.cycles).takeSoftReset, { q.2 with cycles := q.2.cycles + wait })

theorem step_eq (s : Soc Machine) :
    s.step = finish s.fetched.1.2 (s.fetched.2.execute s.fetched.1.1 .default) := rfl

/-- FETCH. -/
theorem fetched_same (h : Machine.Calm c base s.cycle s.mem y) :
    ∃ y', (s.withMem y).fetched = (s.fetched.1, s.fetched.2.withMem y') ∧
      Machine.Calm c base s.fetched.2.cycle s.fetched.2.mem y' ∧ s.cycle ≤ s.fetched.2.cycle := by
  obtain ⟨hfetch, hcalm⟩ := Machine.related_bus.fetch s.riscvMode s.pc h
  refine ⟨_, Prod.ext hfetch ?_, Machine.related_bus.mono hcalm (Nat.le_add_right _ _),
    Nat.le_add_right _ _⟩
  change afterWait _ (Machine.bus.fetch s.riscvMode s.pc y).1.2 = _
  rw [hfetch]
  rfl

/-- **A step does the same, however far the UART has been advanced.** -/
theorem step_same (h : Machine.Calm c base s.cycle s.mem y) :
    ∃ y', (s.withMem y).step = (s.step.1.withMem y', s.step.2) ∧
      Machine.Calm c base s.step.1.cycle s.step.1.mem y' ∧ s.cycle < s.step.1.cycle := by
  obtain ⟨y₁, hfetch, hcalm, hle⟩ := fetched_same h
  obtain ⟨hcpu, hcycle, htwo, hmem⟩ := ends_execute hcalm s.fetched.1.1 .default
  rw [step_eq, step_eq, hfetch]
  dsimp only
  rw [hcpu]
  generalize hq : s.fetched.2.execute s.fetched.1.1 .default = q at hcycle htwo hmem
  have hend : (q.1.endStep q.2.cycles).cycle = s.fetched.2.cycle + q.2.cycles := by
    change q.1.cycle + q.2.cycles = _
    rw [hcycle]
  obtain ⟨y', htake, hcalm', hle'⟩ :=
    takeSoftReset_same (s := q.1.endStep q.2.cycles) (by rw [hend]; exact hmem)
  exact ⟨y', Prod.ext htake rfl, hcalm', by dsimp only [finish]; omega⟩

end Soc

end Vux9k.Emu

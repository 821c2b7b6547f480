import Vux9k.Lib.Inevitable
import Vux9k.Tools.SendUpload

/-!
# Both sides and the line between them

`Sys` is `upload_v2` and `send_upload_v2` with a queue of bytes each way.  `Step` is everything that
can happen: either side goes on, either side's patience ends, the sink answers as it likes, and the
line changes or loses any byte under way.  A byte under way to the device carries its place in what
the host has sent, so that it can be said later which bytes the line has changed; nobody reads it.

`Inv` is what holds after every sequence of such steps.
-/

set_option autoImplicit false

namespace Vux9k

open Relation (ReflTransGen)

/-- The two programs with what they have done so far, and the bytes under way. -/
structure Sys where
  dev : Dev (Option ℕ)
  devLog : List Dev.Event
  host : Host Sent
  hostLog : List Host.Event
  /-- `buf` of `_upload_line`. -/
  buf : List Byte
  /-- What the host has read. -/
  read : List Byte
  /-- Bytes under way to the device, with their places. -/
  up : List (Byte × ℕ)
  /-- What the device has received. -/
  got : List (Byte × ℕ)
  /-- Bytes under way to the host. -/
  down : List Byte

namespace Sys

/-- Before the first step. -/
def start (data : List Byte) (maxLen : ℕ) : Sys where
  dev := Dev.uploadV2 maxLen
  devLog := []
  host := Host.sendUploadV2 data none
  hostLog := []
  buf := []
  read := []
  up := []
  got := []
  down := []

/-- The device goes on with `dev` after the event `e`. -/
def devTo (s : Sys) (e : Dev.Event) (dev : Dev (Option ℕ)) : Sys :=
  { s with dev, devLog := s.devLog ++ [e] }

/-- The host goes on with `host` after the event `e`. -/
def hostTo (s : Sys) (e : Host.Event) (host : Host Sent) : Sys :=
  { s with host, hostLog := s.hostLog ++ [e] }

/-- The host, waiting for a line, reads a byte: one round of `_upload_line`. -/
def feed (s : Sys) (k : Option (List Char) → Host Sent) (b : Byte) : Sys :=
  { s with
    buf := (uploadLineStep s.buf b).1
    read := s.read ++ [b]
    host := match (uploadLineStep s.buf b).2 with
      | none => s.host
      | some l => k (some l)
    hostLog := match (uploadLineStep s.buf b).2 with
      | none => s.hostLog
      | some l => s.hostLog ++ [⟨.line, some l⟩] }

end Sys

/-- What can happen. -/
inductive Act : Type
  | devPut
  | devRecv
  | devTimeout
  | devDrain (n : ℕ)
  | sink (ok : Bool)
  | hostWrite
  | hostRead
  | hostTimeout
  | corruptUp (i : ℕ) (b : Byte)
  | dropUp (i : ℕ)
  | corruptDown (i : ℕ) (b : Byte)
  | dropDown (i : ℕ)

/-- One step of the system.  `drain` takes what has arrived by then, which may be any part of what
is under way. -/
inductive Step : Act → Sys → Sys → Prop
  | devPut {s : Sys} {b k} (h : s.dev = .ask (.put b) k) :
      Step .devPut s { s.devTo ⟨.put b, ()⟩ (k ()) with down := s.down ++ [b] }
  | devRecv {s : Sys} {x k up} (h : s.dev = .ask .recv k) (hup : s.up = x :: up) :
      Step .devRecv s { s.devTo ⟨.recv, some x.1⟩ (k (some x.1)) with up, got := s.got ++ [x] }
  | devTimeout {s : Sys} {k} (h : s.dev = .ask .recv k) :
      Step .devTimeout s (s.devTo ⟨.recv, none⟩ (k none))
  | devDrain {s : Sys} {k} (n : ℕ) (h : s.dev = .ask .drain k) :
      Step (.devDrain n) s { s.devTo ⟨.drain, ()⟩ (k ()) with up := s.up.drop n }
  | sinkBegin {s : Sys} {len k} (ok : Bool) (h : s.dev = .ask (.begin len) k) :
      Step (.sink ok) s (s.devTo ⟨.begin len, ok⟩ (k ok))
  | sinkBlock {s : Sys} {index data k} (ok : Bool) (h : s.dev = .ask (.block index data) k) :
      Step (.sink ok) s (s.devTo ⟨.block index data, ok⟩ (k ok))
  | sinkFinish {s : Sys} {c k} (ok : Bool) (h : s.dev = .ask (.finish c) k) :
      Step (.sink ok) s (s.devTo ⟨.finish c, ok⟩ (k ok))
  | hostWrite {s : Sys} {bs k} (h : s.host = .ask (.write bs) k) :
      Step .hostWrite s { s.hostTo ⟨.write bs, ()⟩ (k ()) with
        up := s.up ++ bs.zipIdx (Host.written s.hostLog).length }
  | hostRead {s : Sys} {b k down} (h : s.host = .ask .line k) (hdown : s.down = b :: down) :
      Step .hostRead s { s.feed k b with down }
  | hostTimeout {s : Sys} {k} (h : s.host = .ask .line k) :
      Step .hostTimeout s (s.hostTo ⟨.line, none⟩ (k none))
  | corruptUp {s : Sys} (i : ℕ) (b : Byte) :
      Step (.corruptUp i b) s { s with up := s.up.modify i fun x ↦ (b, x.2) }
  | dropUp {s : Sys} (i : ℕ) : Step (.dropUp i) s { s with up := s.up.eraseIdx i }
  | corruptDown {s : Sys} (i : ℕ) (b : Byte) :
      Step (.corruptDown i b) s { s with down := s.down.modify i fun _ ↦ b }
  | dropDown {s : Sys} (i : ℕ) : Step (.dropDown i) s { s with down := s.down.eraseIdx i }

/-- A step of a kind that `ok` allows. -/
def StepOf (ok : Sys → Act → Prop) (s s' : Sys) : Prop := ∃ a, ok s a ∧ Step a s s'

/-- What holds whatever happens: each side has done a run of its own program, and the host has
taken just the transfer lines among the bytes it has read. -/
structure Inv (data : List Byte) (maxLen : ℕ) (s : Sys) : Prop where
  devPath : (Dev.uploadV2 maxLen).Path s.devLog s.dev
  hostPath : (Host.sendUploadV2 data none).Path s.hostLog s.host
  taken : Host.taken s.hostLog = transferLines s.read
  lines : ∀ bs, lines (s.read ++ bs) = lines s.read ++ linesFrom s.buf bs
  ins : Dev.ins s.devLog = s.got.map Prod.fst

variable {data : List Byte} {maxLen : ℕ} {s s' : Sys} {a : Act}

theorem Inv.start (data : List Byte) (maxLen : ℕ) : Inv data maxLen (Sys.start data maxLen) where
  devPath := .nil _
  hostPath := .nil _
  taken := rfl
  lines _ := rfl
  ins := rfl

/-- A step of the device. -/
theorem Inv.devTo (hi : Inv data maxLen s) {o : DevOp} {k : o.Ans → Dev (Option ℕ)}
    (h : s.dev = .ask o k) (r : o.Ans) (hr : Dev.received ⟨o, r⟩ = none) :
    Inv data maxLen (s.devTo ⟨o, r⟩ (k r)) where
  devPath := (h ▸ hi.devPath).snoc r
  hostPath := hi.hostPath
  taken := hi.taken
  lines := hi.lines
  ins := by simp [Sys.devTo, hr, hi.ins]

/-- A step of the host that takes no line. -/
theorem Inv.hostTo (hi : Inv data maxLen s) {o : HostOp} {k : o.Ans → Host Sent}
    (h : s.host = .ask o k) (r : o.Ans) (hr : Host.answer ⟨o, r⟩ = none) :
    Inv data maxLen (s.hostTo ⟨o, r⟩ (k r)) where
  devPath := hi.devPath
  hostPath := (h ▸ hi.hostPath).snoc r
  taken := by simp [Sys.hostTo, hr, hi.taken]
  lines := hi.lines
  ins := hi.ins

theorem Inv.feed (hi : Inv data maxLen s) {k : Option (List Char) → Host Sent}
    (h : s.host = .ask .line k) (b : Byte) : Inv data maxLen (s.feed k b) := by
  have hb := hi.lines [b]
  unfold Sys.feed uploadLineStep
  by_cases hnl : b = newline
  · -- the line is complete: it is the one more line of what has been read
    have hline : Vux9k.lines (s.read ++ [b]) = Vux9k.lines s.read ++ [s.buf ++ [b]] := by
      rw [hb, linesFrom, if_pos hnl, linesFrom]
    have hnext : ∀ bs, Vux9k.lines (s.read ++ [b] ++ bs) =
        Vux9k.lines (s.read ++ [b]) ++ linesFrom [] bs := by
      intro bs
      rw [hline, List.append_assoc, hi.lines, List.singleton_append, linesFrom, if_pos hnl]
      simp
    have htrans : transferLines (s.read ++ [b]) =
        transferLines s.read ++ [decodeLine (s.buf ++ [b])].filter isTransferLine := by
      simp [transferLines, hline]
    simp only [if_pos hnl]
    by_cases ht : isTransferLine (decodeLine (s.buf ++ [b])) = true
    · simp only [if_pos ht]
      refine ⟨hi.devPath, (h ▸ hi.hostPath).snoc _, ?_, hnext, hi.ins⟩
      simp [Host.answer, hi.taken, htrans, ht]
    · simp only [if_neg ht]
      refine ⟨hi.devPath, hi.hostPath, ?_, hnext, hi.ins⟩
      simp [hi.taken, htrans, ht]
  · have hline : Vux9k.lines (s.read ++ [b]) = Vux9k.lines s.read := by
      rw [hb, linesFrom, if_neg hnl, linesFrom, List.append_nil]
    simp only [if_neg hnl]
    refine ⟨hi.devPath, hi.hostPath, ?_, fun bs ↦ ?_, hi.ins⟩
    · simp [hi.taken, transferLines, hline]
    · change Vux9k.lines (s.read ++ [b] ++ bs) = Vux9k.lines (s.read ++ [b]) ++ _
      rw [hline, List.append_assoc, hi.lines, List.singleton_append, linesFrom, if_neg hnl]

theorem Inv.step (hi : Inv data maxLen s) (h : Step a s s') : Inv data maxLen s' := by
  cases h with
  | devPut h =>
    have hi' := hi.devTo h () rfl
    exact ⟨hi'.devPath, hi'.hostPath, hi'.taken, hi'.lines, hi'.ins⟩
  | devRecv h hup =>
    refine ⟨(h ▸ hi.devPath).snoc (some _), hi.hostPath, hi.taken, hi.lines, ?_⟩
    simp [Sys.devTo, Dev.received, hi.ins]
  | devTimeout h => exact hi.devTo h none rfl
  | devDrain n h =>
    have hi' := hi.devTo h () rfl
    exact ⟨hi'.devPath, hi'.hostPath, hi'.taken, hi'.lines, hi'.ins⟩
  | sinkBegin ok h => exact hi.devTo h ok rfl
  | sinkBlock ok h => exact hi.devTo h ok rfl
  | sinkFinish ok h => exact hi.devTo h ok rfl
  | hostWrite h =>
    have hi' := hi.hostTo h () rfl
    exact ⟨hi'.devPath, hi'.hostPath, hi'.taken, hi'.lines, hi'.ins⟩
  | hostRead h hdown =>
    rename_i b k down
    have hi' := hi.feed h b
    exact ⟨hi'.devPath, hi'.hostPath, hi'.taken, hi'.lines, hi'.ins⟩
  | hostTimeout h => exact hi.hostTo h none rfl
  | corruptUp i b => exact ⟨hi.devPath, hi.hostPath, hi.taken, hi.lines, hi.ins⟩
  | dropUp i => exact ⟨hi.devPath, hi.hostPath, hi.taken, hi.lines, hi.ins⟩
  | corruptDown i b => exact ⟨hi.devPath, hi.hostPath, hi.taken, hi.lines, hi.ins⟩
  | dropDown i => exact ⟨hi.devPath, hi.hostPath, hi.taken, hi.lines, hi.ins⟩

theorem Inv.run {ok : Sys → Act → Prop}
    (h : ReflTransGen (StepOf ok) (Sys.start data maxLen) s) : Inv data maxLen s := by
  induction h with
  | refl => exact .start data maxLen
  | tail _ h ih =>
    obtain ⟨a, -, ha⟩ := h
    exact ih.step ha

end Vux9k

import Vux9k.Firmware.Fmt
import Vux9k.Lib.Prog

/-!
# Transfer v2, the device's side

`uploadV2` is `upload_v2` of `fw_common/src/upload.rs`: a file over the UART, in 512-byte blocks
with a CRC-32 at the end, into a sink.  The UART (`Host`) and the sink (`UploadSink`) are traits
there; here the program asks them (`DevOp`) and is otherwise a transcription, texts included.

What the exchange can do is said once, for every sequence of answers: `uploadV2_commit` is the only
way in which it can come to tell the sink to commit, and `uploadV2_some` that it returns a length
only after the sink has.
-/

set_option autoImplicit false

namespace Vux9k

/-- What `upload_v2` asks of the UART and of the sink. -/
inductive DevOp : Type
  | put (b : Byte)
  | recv
  | drain
  | begin (len : ℕ)
  | block (index : ℕ) (data : List Byte)
  | finish (ok : Bool)
  deriving DecidableEq

/-- A byte, if one came in time; the sink's `bool`. -/
@[reducible]
def DevOp.Ans : DevOp → Type
  | .put _ => Unit
  | .recv => Option Byte
  | .drain => Unit
  | .begin _ => Bool
  | .block _ _ => Bool
  | .finish _ => Bool

/-- A program of the device. -/
abbrev Dev := Prog DevOp DevOp.Ans

namespace Dev

/-- Print some bytes. -/
def putBytes : List Byte → Dev Unit
  | [] => pure ()
  | b :: bs => .ask (.put b) fun _ ↦ putBytes bs

def putStr (s : String) : Dev Unit := putBytes (str s)

def putDec (n : ℕ) : Dev Unit := putBytes (decBytes n)

def putHex (w : Word) : Dev Unit := putBytes (hexBytes w)

def recv : Dev (Option Byte) := Prog.ask .recv .ret

def drain : Dev Unit := Prog.ask .drain .ret

def begin (len : ℕ) : Dev Bool := Prog.ask (.begin len) .ret

def block (index : ℕ) (data : List Byte) : Dev Bool := Prog.ask (.block index data) .ret

def finish (ok : Bool) : Dev Bool := Prog.ask (.finish ok) .ret

/-- `ready`: ask for something, by number. -/
def ready (what : String) (n : ℕ) : Dev Unit := do
  putStr "[READY-"
  putStr what
  putDec n
  putStr "]\n"

/-- `err`. -/
def err (what : String) : Dev Unit := do
  putStr "[ERR] "
  putStr what

/-- The bytes `i..4` of `recv_u32`, on top of the ones before. -/
def recvU32From : ℕ → ℕ → Word → Dev (Option Word)
  | 0, _, v => pure (some v)
  | n + 1, i, v => do
    match ← recv with
    | none => pure none
    | some b => recvU32From n (i + 1) (v ||| (b.setWidth 32 <<< (8 * i)))

/-- `recv_u32`. -/
def recvU32 : Dev (Option Word) := recvU32From 4 0 0#32

/-- The `for` loop over a block's bytes from number `i` on: the bytes, or the number of the one
that did not come. -/
def recvBlock : ℕ → ℕ → List Byte → Dev (ℕ ⊕ List Byte)
  | 0, _, buf => pure (.inr buf)
  | n + 1, i, buf => do
    match ← recv with
    | none => pure (.inl i)
    | some b => recvBlock n (i + 1) (buf ++ [b])

/-- `BLOCK`. -/
def blockLen : ℕ := 512

/-- The `while rest > 0` loop: the CRC register after the last block, or none after a failure.
Every round takes at least one byte off `rest`, so `rest` rounds are enough. -/
def recvBlocks : ℕ → ℕ → ℕ → Word → Dev (Option Word)
  | 0, _, _, crc => pure (some crc)
  | fuel + 1, index, rest, crc =>
    if rest = 0 then pure (some crc)
    else do
      let n := if rest < blockLen then rest else blockLen
      ready "BLK:" index
      match ← recvBlock n 0 [] with
      | .inl i =>
        err "Timeout at block "
        putDec index
        putStr ", byte "
        putDec i
        putStr "\n"
        let _ ← finish false
        pure none
      | .inr buf =>
        if ← block index buf then
          recvBlocks fuel (index + 1) (rest - n) (crc32Update buf crc)
        else
          err "Store failed at block "
          putDec index
          putStr "\n"
          let _ ← finish false
          pure none

/-- The exchange from the CRC on, with the CRC of what arrived. -/
def recvCrc (len : ℕ) (crc : Word) : Dev (Option ℕ) := do
  putStr "[READY-CRC]\n"
  match ← recvU32 with
  | none =>
    err "CRC timeout\n"
    let _ ← finish false
    pure none
  | some sent =>
    if sent ≠ crc then
      err "CRC mismatch: sent "
      putHex sent
      putStr ", received "
      putHex crc
      putStr "\n"
      let _ ← finish false
      pure none
    else if ← finish true then
      putStr "[OK] "
      putDec len
      putStr " bytes CRC "
      putHex crc
      putStr "\n"
      pure (some len)
    else
      err "Commit failed\n"
      pure none

/-- `upload_v2`: one exchange, accepting at most `maxLen` bytes. -/
def uploadV2 (maxLen : ℕ) : Dev (Option ℕ) := do
  drain
  putStr "[READY-V2]\n"
  match ← recvU32 with
  | none =>
    err "Length timeout\n"
    pure none
  | some w =>
    let len := w.toNat
    if len = 0 ∨ maxLen < len then
      err "Bad length: "
      putDec len
      putStr "\n"
      pure none
    else if ← begin len then
      putStr "[LEN:"
      putDec len
      putStr "]\n"
      match ← recvBlocks len 0 len 0xFFFFFFFF#32 with
      | none => pure none
      | some crc => recvCrc len (crc ^^^ 0xFFFFFFFF#32)
    else
      err "Cannot store "
      putDec len
      putStr " bytes\n"
      pure none

/-! ## Whole lines -/

theorem putBytes_append (a b : List Byte) :
    putBytes (a ++ b) = putBytes a >>= fun _ ↦ putBytes b := by
  induction a with
  | nil => rfl
  | cons x a ih => simp only [List.cons_append, putBytes, ih, Prog.ask_bind]

/-- The line that asks for block `index`. -/
def readyLine (index : ℕ) : List Byte := str "[READY-BLK:" ++ decBytes index ++ str "]\n"

/-- The line that confirms the length. -/
def lenLine (len : ℕ) : List Byte := str "[LEN:" ++ decBytes len ++ str "]\n"

/-- The line that ends a transfer that was committed. -/
def okLine (len : ℕ) (crc : Word) : List Byte :=
  str "[OK] " ++ decBytes len ++ str " bytes CRC " ++ hexBytes crc ++ str "\n"

/-- An error line. -/
def errLine (what : List Byte) : List Byte := str "[ERR] " ++ what ++ str "\n"

/-- A failure after `begin`: its line, and the sink told to discard. -/
def fail {α : Type} (what : List Byte) : Dev (Option α) :=
  putBytes (errLine what) >>= fun _ ↦ .ask (.finish false) fun _ ↦ .ret none

/-- The bytes of a round of the block loop. -/
def blockBytes (rest : ℕ) : ℕ := if rest < blockLen then rest else blockLen

private theorem str_append (a b : String) : str (a ++ b) = str a ++ str b := by
  simp [str]

theorem ready_blk (index : ℕ) : ready "BLK:" index = putBytes (readyLine index) := by
  rw [readyLine, show "[READY-BLK:" = "[READY-" ++ "BLK:" from rfl, str_append]
  simp only [putBytes_append, Prog.bind_assoc]
  rfl

/-- The block loop, a line at a time. -/
theorem recvBlocks_succ (fuel index rest : ℕ) (crc : Word) :
    recvBlocks (fuel + 1) index rest crc =
      if rest = 0 then .ret (some crc)
      else putBytes (readyLine index) >>= fun _ ↦
        recvBlock (blockBytes rest) 0 [] >>= fun
        | .inl i => fail (str "Timeout at block " ++ decBytes index ++ str ", byte " ++ decBytes i)
        | .inr buf => .ask (.block index buf) fun
          | true => recvBlocks fuel (index + 1) (rest - blockBytes rest) (crc32Update buf crc)
          | false => fail (str "Store failed at block " ++ decBytes index) := by
  rw [recvBlocks, ready_blk]
  refine if_congr Iff.rfl rfl (Prog.bind_congr fun _ ↦ Prog.bind_congr fun r ↦ ?_)
  cases r with
  | inl i => simp [fail, errLine, putBytes_append, err, putStr, putDec, finish]
  | inr buf =>
    refine Prog.ask_congr fun r ↦ ?_
    cases r with
    | true => rfl
    | false =>
      change (err "Store failed at block " >>= fun _ ↦ putDec index >>= fun _ ↦ putStr "\n" >>=
        fun _ ↦ finish false >>= fun _ ↦ .ret none) = _
      simp [fail, errLine, putBytes_append, err, putStr, putDec, finish]

/-- After the commit: its line, which depends on the sink. -/
def afterFinish (len : ℕ) (crc : Word) : Bool → Dev (Option ℕ)
  | true => putBytes (okLine len crc) >>= fun _ ↦ .ret (some len)
  | false => putBytes (errLine (str "Commit failed")) >>= fun _ ↦ .ret none

/-- The end of the exchange, a line at a time. -/
theorem recvCrc_eq (len : ℕ) (crc : Word) :
    recvCrc len crc = putBytes (str "[READY-CRC]\n") >>= fun _ ↦ recvU32 >>= fun
      | none => fail (str "CRC timeout")
      | some sent =>
        if sent ≠ crc then
          fail (str "CRC mismatch: sent " ++ hexBytes sent ++ str ", received " ++ hexBytes crc)
        else .ask (.finish true) (afterFinish len crc) := by
  have htime : str "CRC timeout\n" = str "CRC timeout" ++ str "\n" := rfl
  have hcommit : str "Commit failed\n" = str "Commit failed" ++ str "\n" := rfl
  refine Prog.bind_congr fun _ ↦ Prog.bind_congr fun r ↦ ?_
  cases r with
  | none => simp [fail, errLine, putBytes_append, err, putStr, finish, htime]
  | some sent =>
    refine if_congr Iff.rfl ?_ (Prog.ask_congr fun r ↦ ?_)
    · simp [fail, errLine, putBytes_append, err, putStr, putHex, finish]
    · cases r with
      | true =>
        change (putStr "[OK] " >>= fun _ ↦ putDec len >>= fun _ ↦ putStr " bytes CRC " >>= fun _ ↦
          putHex crc >>= fun _ ↦ putStr "\n" >>= fun _ ↦ .ret (some len)) = _
        simp [afterFinish, okLine, putBytes_append, putStr, putDec, putHex]
      | false =>
        change (err "Commit failed\n" >>= fun _ ↦ .ret none) = _
        simp [afterFinish, errLine, putBytes_append, err, putStr, hcommit]

/-- The whole exchange, a line at a time. -/
theorem uploadV2_eq (maxLen : ℕ) :
    uploadV2 maxLen = .ask .drain fun _ ↦ putBytes (str "[READY-V2]\n") >>= fun _ ↦ recvU32 >>= fun
      | none => putBytes (errLine (str "Length timeout")) >>= fun _ ↦ .ret none
      | some w =>
        if w.toNat = 0 ∨ maxLen < w.toNat then
          putBytes (errLine (str "Bad length: " ++ decBytes w.toNat)) >>= fun _ ↦ .ret none
        else .ask (.begin w.toNat) fun
          | true => putBytes (lenLine w.toNat) >>= fun _ ↦
              recvBlocks w.toNat 0 w.toNat 0xFFFFFFFF#32 >>= fun
              | none => .ret none
              | some crc => recvCrc w.toNat (crc ^^^ 0xFFFFFFFF#32)
          | false => putBytes
            (errLine (str "Cannot store " ++ decBytes w.toNat ++ str " bytes")) >>=
              fun _ ↦ .ret none := by
  have htime : str "Length timeout\n" = str "Length timeout" ++ str "\n" := rfl
  have hbytes : str " bytes\n" = str " bytes" ++ str "\n" := rfl
  refine Prog.ask_congr fun _ ↦ Prog.bind_congr (p := putBytes (str "[READY-V2]\n")) fun _ ↦
    Prog.bind_congr (p := recvU32) fun r ↦ ?_
  cases r with
  | none => simp [errLine, putBytes_append, err, putStr, htime]
  | some w =>
    refine if_congr Iff.rfl ?_ (Prog.ask_congr fun r ↦ ?_)
    · simp [errLine, putBytes_append, err, putStr, putDec]
    · cases r with
      | true =>
        change (putStr "[LEN:" >>= fun _ ↦ putDec w.toNat >>= fun _ ↦ putStr "]\n" >>= fun _ ↦
          recvBlocks w.toNat 0 w.toNat 0xFFFFFFFF#32 >>= _) = _
        simp only [lenLine, putBytes_append, Prog.bind_assoc]
        rfl
      | false =>
        change (err "Cannot store " >>= fun _ ↦ putDec w.toNat >>= fun _ ↦ putStr " bytes\n" >>=
          fun _ ↦ .ret none) = _
        simp [errLine, putBytes_append, err, putStr, putDec, hbytes]

/-! ## Events -/

/-- An operation of the device with its answer. -/
abbrev Event := Prog.Event DevOp DevOp.Ans

/-- Bytes printed. -/
def puts (bs : List Byte) : List Event := bs.map fun b ↦ ⟨.put b, ()⟩

/-- Bytes that arrived. -/
def recvs (bs : List Byte) : List Event := bs.map fun b ↦ ⟨.recv, some b⟩

theorem path_putBytes {bs : List Byte} {es : List Event} {u : Unit} :
    (putBytes bs).Path es (.ret u) ↔ es = puts bs := by
  induction bs generalizing es with
  | nil => simp [putBytes, puts, Prog.path_ret]
  | cons b bs ih =>
    rw [putBytes, Prog.path_ask]
    constructor
    · rintro (⟨-, h⟩ | ⟨⟨⟩, es', rfl, h⟩)
      · simp at h
      · rw [ih.mp h]
        rfl
    · rintro rfl
      exact .inr ⟨(), puts bs, rfl, ih.mpr rfl⟩

/-- Nothing but printing. -/
theorem avoids_putBytes {P : DevOp → Prop} (hP : ∀ b, ¬P (.put b)) (bs : List Byte) :
    (putBytes bs).Avoids P := by
  induction bs with
  | nil => exact trivial
  | cons b bs ih => exact ⟨hP b, fun _ ↦ ih⟩

theorem avoids_recvU32From {P : DevOp → Prop} (hP : ¬P .recv) (n i : ℕ) (v : Word) :
    (recvU32From n i v).Avoids P := by
  induction n generalizing i v with
  | zero => exact trivial
  | succ n ih =>
    refine ⟨hP, fun r ↦ ?_⟩
    cases r with
    | none => exact trivial
    | some b => exact ih _ _

theorem path_fail {α : Type} {what : List Byte} {es : List Event} {r : Option α}
    (h : (fail what : Dev (Option α)).Path es (.ret r)) : r = none := by
  obtain ⟨_, _, _, -, -, h⟩ := Prog.path_bind_ret.mp h
  rcases Prog.path_ask.mp h with ⟨-, h⟩ | ⟨_, _, -, h⟩
  · simp at h
  · simpa using (Prog.path_ret.mp h).2

theorem path_recvU32 {es : List Event} {w : Word} (h : recvU32.Path es (.ret (some w))) :
    es = recvs (leBytes w) := by
  have hstep : ∀ {n i : ℕ} {v : Word} {es : List Event},
      (recvU32From (n + 1) i v).Path es (.ret (some w)) → ∃ b es', es = ⟨.recv, some b⟩ :: es' ∧
        (recvU32From n (i + 1) (v ||| (b.setWidth 32 <<< (8 * i)))).Path es' (.ret (some w)) := by
    intro n i v es h
    rcases Prog.path_ask.mp h with ⟨-, h'⟩ | ⟨_ | b, es', rfl, h'⟩
    · simp at h'
    · have hnone := (Prog.path_ret.mp h').2
      simp at hnone
    · exact ⟨b, es', rfl, h'⟩
  obtain ⟨b₀, es₀, rfl, h₀⟩ := hstep h
  obtain ⟨b₁, es₁, rfl, h₁⟩ := hstep h₀
  obtain ⟨b₂, es₂, rfl, h₂⟩ := hstep h₁
  obtain ⟨b₃, es₃, rfl, h₃⟩ := hstep h₂
  obtain ⟨rfl, hw⟩ := Prog.path_ret.mp h₃
  obtain rfl : w = leWord b₀ b₁ b₂ b₃ := by simpa [leWord] using hw
  rw [leBytes_leWord]
  rfl

theorem path_recvBlock {n i : ℕ} {buf out : List Byte} {es : List Event}
    (h : (recvBlock n i buf).Path es (.ret (.inr out))) :
    ∃ data, data.length = n ∧ out = buf ++ data ∧ es = recvs data := by
  induction n generalizing i buf es with
  | zero =>
    obtain ⟨rfl, h'⟩ := Prog.path_ret.mp h
    obtain rfl : out = buf := by simpa using h'
    exact ⟨[], rfl, by simp, rfl⟩
  | succ n ih =>
    rcases Prog.path_ask.mp h with ⟨-, h'⟩ | ⟨_ | b, es', rfl, h'⟩
    · simp at h'
    · have hinl := (Prog.path_ret.mp h').2
      simp at hinl
    · obtain ⟨data, hlen, rfl, rfl⟩ := ih h'
      exact ⟨b :: data, by simp [hlen], by simp, rfl⟩

end Dev

end Vux9k

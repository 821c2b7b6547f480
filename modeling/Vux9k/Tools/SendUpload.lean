import Mathlib.Data.List.DropRight
import Mathlib.Data.List.Flatten
import Vux9k.Firmware.UploadLines

/-!
# Transfer v2, the host's side

`sendUploadV2` is `send_upload_v2` of `tools/vux_tool.py`.  It waits for a line of the device
before everything it sends, so it asks for lines (`HostOp.line`) and writes bytes; how a line comes
about, byte by byte with everything else skipped, is `_upload_line`'s loop, whose body is
`uploadLineStep`.
-/

set_option autoImplicit false

namespace Vux9k

/-! ## `_upload_line` -/

/-- A byte of `bytes.decode("ascii", errors="replace")`. -/
def decodeByte (b : Byte) : Char := if b.toNat < 128 then Char.ofNat b.toNat else '\uFFFD'

/-- What `str.strip` takes off, among the characters that decoding can give. -/
def isSpace (c : Char) : Bool :=
  (9 ≤ c.toNat && c.toNat ≤ 13) || (28 ≤ c.toNat && c.toNat ≤ 32)

/-- `str.strip`. -/
def strip (l : List Char) : List Char :=
  (l.dropWhile isSpace).rdropWhile isSpace

/-- A received line as text. -/
def decodeLine (bs : List Byte) : List Char := strip (bs.map decodeByte)

/-- The lines that are not skipped. -/
def isTransferLine (line : List Char) : Bool :=
  ["[READY", "[LEN:", "[OK]", "[ERR]"].any fun s ↦ s.toList.isPrefixOf line

/-- The loop of `_upload_line` at one more byte: what is left in `buf`, and the line if it is
complete and one of the transfer. -/
def uploadLineStep (buf : List Byte) (b : Byte) : List Byte × Option (List Char) :=
  if b = newline then
    let line := decodeLine (buf ++ [b])
    ([], if isTransferLine line then some line else none)
  else (buf ++ [b], none)

/-- The transfer lines of a stream. -/
def transferLines (bs : List Byte) : List (List Char) :=
  ((lines bs).map decodeLine).filter isTransferLine

theorem decodeByte_eq_iff {b : Byte} {c : Char} (hc : c.toNat < 128) :
    decodeByte b = c ↔ b = charByte c := by
  unfold decodeByte charByte
  split
  next hb =>
    constructor
    · rintro rfl
      have hval : (Char.ofNat b.toNat).toNat = b.toNat := by
        rw [Char.ofNat, dif_pos (.inl (by omega))]
        rfl
      rw [hval, BitVec.ofNat_toNat, BitVec.setWidth_eq]
    · rintro rfl
      rw [BitVec.toNat_ofNat, Nat.mod_eq_of_lt (by omega), Char.ofNat_toNat]
  next hb =>
    constructor
    · rintro rfl
      exact absurd hc (by decide)
    · rintro rfl
      rw [BitVec.toNat_ofNat, Nat.mod_eq_of_lt (by omega)] at hb
      exact absurd hc hb

theorem strip_sublist (l : List Char) : (strip l).Sublist l :=
  (List.rdropWhile_prefix isSpace _).sublist.trans (List.dropWhile_sublist isSpace)

theorem count_decodeLine (raw : List Byte) :
    (decodeLine raw).count ']' ≤ raw.count 0x5D#8 := by
  refine ((strip_sublist _).count_le _).trans ?_
  rw [List.count, List.countP_map, List.count]
  refine List.countP_mono_left fun b _ hb ↦ ?_
  have hdec : decodeByte b = ']' := by simpa using hb
  rw [(decodeByte_eq_iff (by decide)).mp hdec]
  decide

theorem flatten_linesFrom (cur bs : List Byte) : (linesFrom cur bs).flatten <+: cur ++ bs := by
  induction bs generalizing cur with
  | nil => simp [linesFrom]
  | cons b bs ih =>
    rw [linesFrom]
    split
    · rw [List.flatten_cons, List.append_cons cur b bs]
      exact (List.prefix_append_right_inj _).mpr (ih [])
    · rw [List.append_cons cur b bs]
      exact ih _

theorem count_flatten_decodeLine (ls : List (List Byte)) :
    (ls.map decodeLine).flatten.count ']' ≤ ls.flatten.count 0x5D#8 := by
  induction ls with
  | nil => simp
  | cons l ls ih =>
    rw [List.map_cons, List.flatten_cons, List.flatten_cons, List.count_append, List.count_append]
    exact Nat.add_le_add (count_decodeLine l) ih

/-- Two lines with a bracket have come from two brackets. -/
theorem two_le_count {bs : List Byte} {l₁ l₂ : List Char} {ls : List (List Char)}
    (h : transferLines bs = l₁ :: l₂ :: ls) (h₁ : ']' ∈ l₁) (h₂ : ']' ∈ l₂) :
    2 ≤ bs.count 0x5D#8 := by
  have hsub : (transferLines bs).flatten.Sublist ((lines bs).map decodeLine).flatten :=
    List.Sublist.flatten List.filter_sublist
  have hle := (hsub.count_le ']').trans (count_flatten_decodeLine (lines bs))
  have hbs := (flatten_linesFrom [] bs).sublist.count_le (0x5D#8)
  rw [h, List.flatten_cons, List.flatten_cons, List.count_append, List.count_append] at hle
  have := List.count_pos_iff.mpr h₁
  have := List.count_pos_iff.mpr h₂
  rw [List.nil_append] at hbs
  have hlines : lines bs = linesFrom [] bs := rfl
  rw [hlines] at hle
  omega

/-! ## `send_upload_v2` -/

/-- What `send_upload_v2` asks of the port. -/
inductive HostOp : Type
  | line
  | write (bs : List Byte)
  deriving DecidableEq

/-- The next transfer line, unless the deadline passes without one. -/
@[reducible]
def HostOp.Ans : HostOp → Type
  | .line => Option (List Char)
  | .write _ => Unit

/-- A program of the host. -/
abbrev Host := Prog HostOp HostOp.Ans

/-- How `send_upload_v2` can raise: `UploadError` with a line of the device or because none came,
or `struct.error` for a length that is no `u32`. -/
inductive SendError : Type
  | line (l : List Char)
  | noAnswer
  | badLength
  deriving DecidableEq

/-- The line it returns. -/
abbrev Sent := Except SendError (List Char)

namespace Host

/-- `UPLOAD_V2_BLOCK`. -/
def uploadV2Block : ℕ := 512

/-- `_upload_expect`, and then `k` unless it raises. -/
def uploadExpect (want : List Char) (k : List Char → Host Sent) : Host Sent :=
  .ask .line fun
    | none => .ret (.error .noAnswer)
    | some line =>
      if "[ERR]".toList.isPrefixOf line || !want.isPrefixOf line then .ret (.error (.line line))
      else k line

/-- A number in an f-string. -/
def number (n : ℕ) : List Char := Nat.toDigits 10 n

/-- `[LEN:n]`. -/
def wantLen (n : ℕ) : List Char := "[LEN:".toList ++ number n ++ "]".toList

/-- `[READY-BLK:i]`. -/
def wantBlk (i : ℕ) : List Char := "[READY-BLK:".toList ++ number i ++ "]".toList

/-- The `for` loop: `n` blocks of `data` from number `i` on, and then `k`. -/
def sendBlocks (data : List Byte) (k : Host Sent) : ℕ → ℕ → Host Sent
  | 0, _ => k
  | n + 1, i => uploadExpect (wantBlk i) fun _ ↦
      .ask (.write ((data.drop (uploadV2Block * i)).take uploadV2Block)) fun _ ↦
      sendBlocks data k n (i + 1)

/-- `len(range(0, len(data), UPLOAD_V2_BLOCK))`. -/
def blockCount (len : ℕ) : ℕ := (len + (uploadV2Block - 1)) / uploadV2Block

/-- From the CRC on. -/
def sendCrc (crc : Word) : Host Sent :=
  uploadExpect "[READY-CRC]".toList fun _ ↦
  .ask (.write (leBytes crc)) fun _ ↦
  uploadExpect "[OK]".toList fun line ↦ .ret (.ok line)

/-- `send_upload_v2`, without its progress callback. -/
def sendUploadV2 (data : List Byte) (crcOverride : Option Word) : Host Sent :=
  uploadExpect "[READY-V2]".toList fun _ ↦
  if 2 ^ 32 ≤ data.length then .ret (.error .badLength)
  else
    .ask (.write (leBytes (BitVec.ofNat 32 data.length))) fun _ ↦
    uploadExpect (wantLen data.length) fun _ ↦
    sendBlocks data (sendCrc (crcOverride.getD (crc32 data))) (blockCount data.length) 0

/-! ## Every run of the host -/

/-- An operation of the host with its answer. -/
abbrev Event := Prog.Event HostOp HostOp.Ans

/-- What an event writes. -/
def wrote : Event → List Byte
  | ⟨.write bs, _⟩ => bs
  | _ => []

/-- The line an event has been answered with. -/
def answer : Event → Option (List Char)
  | ⟨.line, some l⟩ => some l
  | _ => none

/-- The bytes written. -/
def written (es : List Event) : List Byte := es.flatMap wrote

/-- The transfer lines taken. -/
def taken (es : List Event) : List (List Char) := es.filterMap answer

section

variable (e : Event) (es fs : List Event)

@[simp]
theorem written_nil : written [] = [] := rfl

@[simp]
theorem written_cons : written (e :: es) = wrote e ++ written es := List.flatMap_cons

@[simp]
theorem written_append : written (es ++ fs) = written es ++ written fs := List.flatMap_append

@[simp]
theorem taken_nil : taken [] = [] := rfl

@[simp]
theorem taken_cons : taken (e :: es) = (answer e).toList ++ taken es := by
  cases h : answer e <;> simp [taken, h]

@[simp]
theorem taken_append : taken (es ++ fs) = taken es ++ taken fs := List.filterMap_append

end

variable {es : List Event} {q : Host Sent}

/-- Either the host is stopped here, or it has taken a line that begins with `want`. -/
theorem path_uploadExpect {want : List Char} {k : List Char → Host Sent}
    (h : (uploadExpect want k).Path es q) :
    (written es = [] ∧ ∀ l, q ≠ .ret (.ok l)) ∨
      ∃ l es', want <+: l ∧ es = ⟨.line, some l⟩ :: es' ∧ (k l).Path es' q := by
  rcases Prog.path_ask.mp h with ⟨rfl, rfl⟩ | ⟨_ | l, es', rfl, h'⟩
  · exact .inl ⟨rfl, by simp⟩
  · obtain ⟨rfl, rfl⟩ := Prog.path_ret.mp h'
    exact .inl ⟨rfl, by simp⟩
  · dsimp only at h'
    split at h'
    · obtain ⟨rfl, rfl⟩ := Prog.path_ret.mp h'
      exact .inl ⟨rfl, by simp⟩
    next hok =>
      simp only [Bool.or_eq_true, Bool.not_eq_true', not_or, Bool.not_eq_false,
        List.isPrefixOf_iff_prefix] at hok
      exact .inr ⟨l, es', hok.2, rfl, h'⟩

/-- Writing is one event. -/
theorem path_write {bs : List Byte} {k : Host Sent}
    (h : (Prog.ask (.write bs) fun _ ↦ k : Host Sent).Path es q) :
    (written es = [] ∧ ∀ l, q ≠ .ret (.ok l)) ∨
      ∃ es', es = ⟨.write bs, ()⟩ :: es' ∧ k.Path es' q := by
  rcases Prog.path_ask.mp h with ⟨rfl, rfl⟩ | ⟨⟨⟩, es', rfl, h'⟩
  · exact .inl ⟨rfl, by simp⟩
  · exact .inr ⟨es', rfl, h'⟩

theorem sendCrc_written {crc : Word} (h : (sendCrc crc).Path es q) :
    written es <+: leBytes crc := by
  rcases path_uploadExpect h with ⟨hw, -⟩ | ⟨l, es₁, -, rfl, h₁⟩
  · simp [hw]
  rcases path_write h₁ with ⟨hw, -⟩ | ⟨es₂, rfl, h₂⟩
  · simp [wrote, hw]
  rcases path_uploadExpect h₂ with ⟨hw, -⟩ | ⟨l', es₃, -, rfl, h₃⟩
  · simp [wrote, hw]
  · obtain ⟨rfl, -⟩ := Prog.path_ret.mp h₃
    simp [wrote]

theorem sendBlocks_written {data tail : List Byte} {k : Host Sent}
    (hk : ∀ es, k.Path es q → written es <+: tail) {n i : ℕ}
    (hn : data.length ≤ uploadV2Block * (i + n)) (h : (sendBlocks data k n i).Path es q) :
    written es <+: data.drop (uploadV2Block * i) ++ tail := by
  induction n generalizing i es with
  | zero =>
    rw [Nat.add_zero] at hn
    rw [List.drop_of_length_le hn]
    exact hk es h
  | succ n ih =>
    rcases path_uploadExpect h with ⟨hw, -⟩ | ⟨l, es₁, -, rfl, h₁⟩
    · simp [hw]
    rcases path_write h₁ with ⟨hw, -⟩ | ⟨es₂, rfl, h₂⟩
    · simp [wrote, hw]
    have hrest := ih (i := i + 1) (by rw [Nat.add_assoc, Nat.add_comm 1]; exact hn) h₂
    have hcut : (data.drop (uploadV2Block * i)).take uploadV2Block ++
        data.drop (uploadV2Block * (i + 1)) = data.drop (uploadV2Block * i) := by
      rw [Nat.mul_succ, ← List.drop_drop, List.take_append_drop]
    rw [← hcut, List.append_assoc]
    simp only [written_cons, wrote, List.nil_append, hcut]
    exact (List.prefix_append_right_inj _).mpr hrest

/-- What the host sends, in this order. -/
def stream (data : List Byte) (crc : Word) : List Byte :=
  leBytes (BitVec.ofNat 32 data.length) ++ data ++ leBytes crc

theorem le_blockCount (len : ℕ) : len ≤ uploadV2Block * blockCount len := by
  have := Nat.div_add_mod (len + (uploadV2Block - 1)) uploadV2Block
  have := Nat.mod_lt (len + (uploadV2Block - 1)) (show 0 < uploadV2Block by decide)
  unfold blockCount
  have : 1 ≤ uploadV2Block := by decide
  omega

/-- **The host sends the length, the data and the CRC**, as far as it gets. -/
theorem sendUploadV2_written {data : List Byte} {crcOverride : Option Word}
    (h : (sendUploadV2 data crcOverride).Path es q) :
    written es <+: stream data (crcOverride.getD (crc32 data)) := by
  rcases path_uploadExpect h with ⟨hw, -⟩ | ⟨l, es₁, -, rfl, h₁⟩
  · simp [hw]
  split at h₁
  · obtain ⟨rfl, -⟩ := Prog.path_ret.mp h₁
    simp [wrote]
  rcases path_write h₁ with ⟨hw, -⟩ | ⟨es₂, rfl, h₂⟩
  · simp [wrote, hw]
  rcases path_uploadExpect h₂ with ⟨hw, -⟩ | ⟨l', es₃, -, rfl, h₃⟩
  · simp [wrote, hw, stream]
  have hrest := sendBlocks_written (i := 0) (fun _ ↦ sendCrc_written)
    (by rw [Nat.zero_add]; exact le_blockCount data.length) h₃
  rw [stream, List.append_assoc]
  simpa [wrote, List.prefix_append_right_inj] using hrest

/-- More than the length is sent only after two lines with a closing bracket. -/
theorem two_lines_of_written {data : List Byte} {crcOverride : Option Word}
    (h : (sendUploadV2 data crcOverride).Path es q) (hw : 4 < (written es).length) :
    ∃ l₁ l₂ ls, taken es = l₁ :: l₂ :: ls ∧ ']' ∈ l₁ ∧ ']' ∈ l₂ := by
  rcases path_uploadExpect h with ⟨hw', -⟩ | ⟨l, es₁, hl, rfl, h₁⟩
  · simp [hw'] at hw
  split at h₁
  · obtain ⟨rfl, -⟩ := Prog.path_ret.mp h₁
    simp [wrote] at hw
  rcases path_write h₁ with ⟨hw', -⟩ | ⟨es₂, rfl, h₂⟩
  · simp [wrote, hw'] at hw
  rcases path_uploadExpect h₂ with ⟨hw', -⟩ | ⟨l', es₃, hl', rfl, h₃⟩
  · simp [wrote, hw', leBytes_length] at hw
  refine ⟨l, l', taken es₃, by simp [answer], hl.subset (by decide), hl'.subset ?_⟩
  simp [wantLen]

end Host

end Vux9k

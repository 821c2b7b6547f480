import Mathlib.Data.List.TakeWhile
import Vux9k.Fat.Names
import Vux9k.Firmware.Fmt

/-!
# 8.3 names, three times

`to_short_name` (`fw_common/src/fat/dir.rs`) makes a directory entry's eleven bytes of a name,
`display_name` makes a name of the eleven bytes, and `fat_short_name` (`tools/vux_tool.py`) is the
host's way to the eleven bytes.  An accepted name is a base and an extension (`Is83`), put together
with a dot (`join83`) or filled up with spaces (`pad83`); each of the functions is one of these two
forms of the pair, up to the case of the letters.
-/

set_option autoImplicit false

namespace Vux9k

/-! ## The functions -/

/-- `as_bytes`: UTF-8. -/
def asBytes (s : List Char) : List Byte :=
  s.flatMap fun c ↦ (String.utf8EncodeChar c).map UInt8.toBitVec

/-- `to_short_name`. -/
def toShortName (name : String) : Option ShortName := shortName (asBytes name.toList)

/-- `out[n] = c; n += 1` for the buffer of `display_name`, of which `out` has been written; past its
end the firmware panics. -/
def putName (out : List Byte) (c : Byte) : Option (List Byte) :=
  if out.length < 12 then some (out ++ [c]) else none

/-- The loop of `display_name` from byte `i` on. -/
def displayFrom : ℕ → List Byte → List Byte → Option (List Byte)
  | _, [], out => some out
  | i, c :: cs, out =>
    if c = 0x20#8 then displayFrom (i + 1) cs out
    else do
      let out ← if 8 ≤ i ∧ 0 < out.length ∧ !out.contains 0x2E#8 then putName out 0x2E#8
        else some out
      let out ← putName out c
      displayFrom (i + 1) cs out

/-- `display_name`: what it has written, which is as long as it returns. -/
def displayName (name : ShortName) : Option (List Byte) := displayFrom 0 name.1 []

/-- `s.rpartition(".")`. -/
def rpartitionDot (s : List Char) : List Char × Bool × List Char :=
  let after := s.reverse.takeWhile (· ≠ '.')
  if after.length = s.length then ([], false, s)
  else (s.take (s.length - after.length - 1), true, after.reverse)

/-- `s.ljust(n)`. -/
def ljust (n : ℕ) (s : List Char) : List Char := s ++ List.replicate (n - s.length) ' '

/-- `allowed` of `fat_short_name`. -/
def allowedChars : List Char := "ABCDEFGHIJKLMNOPQRSTUVWXYZ0123456789!#$%&'()-@^_`\x7b\x7d~".toList

/-- `fat_short_name`, none for a `ValueError`. -/
def fatShortName (name : String) : Option (List Byte) :=
  if !name.toList.all fun c ↦ decide (c.toNat < 128) then none
  else
    let (before, dot, after) := rpartitionDot (name.toList.map Char.toUpper)
    let (base, ext) := if !dot then (after, []) else (before, after)
    if ¬(1 ≤ base.length ∧ base.length ≤ 8 ∧ ext.length ≤ 3 ∧ (ext ≠ [] ∨ !dot)) ∨
        !(base ++ ext).all allowedChars.contains then none
    else some (asBytes (ljust 8 base) ++ asBytes (ljust 3 ext))

/-! ## A base and an extension -/

/-- What a base and an extension of an 8.3 name may be. -/
structure Is83 (base ext : List Byte) : Prop where
  base_ne : base ≠ []
  base_le : base.length ≤ 8
  ext_le : ext.length ≤ 3
  chars : ∀ c ∈ base ++ ext, isShortChar (toAsciiUppercase c) = true

/-- The two with a dot between them, if there is an extension. -/
def join83 (base ext : List Byte) : List Byte := if ext = [] then base else base ++ 0x2E#8 :: ext

/-- The eleven bytes of a directory entry. -/
def pad83 (base ext : List Byte) : List Byte :=
  padTo 8 (base.map toAsciiUppercase) ++ padTo 3 (ext.map toAsciiUppercase)

section

variable {α : Type} [DecidableEq α] {sep : α}

theorem takeWhile_reverse_of_not_mem {l : List α} (h : sep ∉ l) :
    l.reverse.takeWhile (· ≠ sep) = l.reverse := by
  rw [List.takeWhile_eq_self_iff]
  intro x hx
  rw [decide_eq_true_iff]
  rintro rfl
  exact h (List.mem_reverse.mp hx)

theorem takeWhile_reverse_append {l r : List α} (h : sep ∉ r) :
    (l ++ sep :: r).reverse.takeWhile (· ≠ sep) = r.reverse := by
  have hr : (l ++ sep :: r).reverse = r.reverse ++ sep :: l.reverse := by simp
  rw [hr, List.takeWhile_append_of_pos, List.takeWhile_cons_of_neg (by simp), List.append_nil]
  intro x hx
  rw [decide_eq_true_iff]
  rintro rfl
  exact h (List.mem_reverse.mp hx)

omit [DecidableEq α] in
/-- The last one of them. -/
theorem exists_last {l : List α} (h : sep ∈ l) : ∃ a b, l = a ++ sep :: b ∧ sep ∉ b := by
  obtain ⟨a, b, hab, ha⟩ := List.eq_append_cons_of_mem (List.mem_reverse.mpr h)
  refine ⟨b.reverse, a.reverse, ?_, by simpa using ha⟩
  rw [← List.reverse_reverse l, hab]
  simp

end

theorem splitDot_of_not_mem {name : List Byte} (h : 0x2E#8 ∉ name) :
    splitDot name = (name, none) := by
  rw [splitDot, takeWhile_reverse_of_not_mem h, List.length_reverse, if_pos rfl]

theorem splitDot_append {base ext : List Byte} (h : 0x2E#8 ∉ ext) :
    splitDot (base ++ 0x2E#8 :: ext) = (base, some ext) := by
  rw [splitDot, takeWhile_reverse_append h, List.length_reverse, List.length_append,
    List.length_cons, List.reverse_reverse]
  rw [if_neg (by omega), List.take_left' (by omega)]

theorem rpartitionDot_of_not_mem {s : List Char} (h : '.' ∉ s) :
    rpartitionDot s = ([], false, s) := by
  rw [rpartitionDot, takeWhile_reverse_of_not_mem h, List.length_reverse, if_pos rfl]

theorem rpartitionDot_append {l r : List Char} (h : '.' ∉ r) :
    rpartitionDot (l ++ '.' :: r) = (l, true, r) := by
  rw [rpartitionDot, takeWhile_reverse_append h, List.length_reverse, List.length_append,
    List.length_cons, List.reverse_reverse]
  rw [if_neg (by omega), List.take_left' (by omega)]

theorem isShortChar_ne {c d : Byte} (h : isShortChar (toAsciiUppercase c) = true)
    (hd : isShortChar (toAsciiUppercase d) = false) : c ≠ d := by
  rintro rfl
  rw [h] at hd
  simp at hd

theorem Is83.dot_not_mem {base ext : List Byte} (h : Is83 base ext) : 0x2E#8 ∉ base ++ ext :=
  fun hmem ↦ isShortChar_ne (h.chars _ hmem) (by decide) rfl

/-- What `short_name` makes of the two sides of the last dot. -/
theorem shortName_of_split {name base : List Byte} {rest : Option (List Byte)}
    (h : splitDot name = (base, rest)) {n : ShortName} : shortName name = some n ↔
      (base ≠ [] ∧ base.length ≤ 8 ∧ (rest.getD []).length ≤ 3 ∧ rest ≠ some []) ∧
      (∀ c ∈ base ++ rest.getD [], isShortChar (toAsciiUppercase c) = true) ∧
      n.1 = padTo 8 (base.map toAsciiUppercase) ++
        padTo 3 ((rest.getD []).map toAsciiUppercase) := by
  rw [shortName]
  simp only [h]
  split
  next hbad =>
    refine iff_of_false (by simp) ?_
    rintro ⟨⟨h0, h8, h3, hr⟩, -⟩
    rcases hbad with hb | hb | hb | hb
    · exact h0 hb
    · omega
    · omega
    · exact hr hb
  next hgood =>
    simp only [not_or, not_lt] at hgood
    split
    next hall =>
      rw [List.all_eq_true] at hall
      rw [Option.some.injEq, Subtype.ext_iff]
      exact ⟨fun he ↦ ⟨hgood, hall, he.symm⟩, fun hn ↦ hn.2.2.symm⟩
    next hall =>
      rw [List.all_eq_true] at hall
      exact iff_of_false (by simp) fun hn ↦ hall hn.2.1
/-- **`short_name` accepts a base and an extension**, and gives their eleven bytes. -/
theorem shortName_eq_some {name : List Byte} {n : ShortName} :
    shortName name = some n ↔ ∃ base ext, Is83 base ext ∧ name = join83 base ext ∧
      n.1 = pad83 base ext := by
  constructor
  · intro h
    by_cases hdot : 0x2E#8 ∈ name
    · obtain ⟨base, ext, rfl, hext⟩ := exists_last hdot
      obtain ⟨⟨hbase, h8, h3, hne⟩, hchars, hn⟩ := (shortName_of_split (splitDot_append hext)).mp h
      have hne' : ext ≠ [] := fun h0 ↦ hne (congrArg some h0)
      exact ⟨base, ext, ⟨hbase, h8, h3, hchars⟩, (if_neg hne').symm, hn⟩
    · obtain ⟨⟨hbase, h8, h3, -⟩, hchars, hn⟩ :=
        (shortName_of_split (splitDot_of_not_mem hdot)).mp h
      exact ⟨name, [], ⟨hbase, h8, h3, hchars⟩, rfl, hn⟩
  · rintro ⟨base, ext, h83, rfl, hn⟩
    have hdot := List.mem_append.not.mp h83.dot_not_mem
    rw [not_or] at hdot
    by_cases hext : ext = []
    · subst hext
      exact (shortName_of_split (splitDot_of_not_mem hdot.1)).mpr
        ⟨⟨h83.base_ne, h83.base_le, h83.ext_le, by simp⟩, h83.chars, hn⟩
    · rw [join83, if_neg hext]
      exact (shortName_of_split (splitDot_append hdot.2)).mpr
        ⟨⟨h83.base_ne, h83.base_le, h83.ext_le, by simpa using hext⟩, h83.chars, hn⟩

/-! ## The name displayed -/

theorem putName_of_lt {out : List Byte} {c : Byte} (h : out.length < 12) :
    putName out c = some (out ++ [c]) := if_pos h

theorem displayFrom_spaces (i k : ℕ) (cs out : List Byte) :
    displayFrom i (List.replicate k 0x20#8 ++ cs) out = displayFrom (i + k) cs out := by
  induction k generalizing i with
  | zero => rfl
  | succ k ih =>
    rw [List.replicate_succ, List.cons_append, displayFrom, if_pos rfl, ih, Nat.add_right_comm,
      Nat.add_assoc]

/-- Characters of the base, or after the dot: they are only copied. -/
theorem displayFrom_append {i : ℕ} {cs out : List Byte} (hcs : 0x20#8 ∉ cs)
    (hlen : out.length + cs.length ≤ 12) (hdot : i + cs.length ≤ 8 ∨ 0x2E#8 ∈ out)
    (rest : List Byte) :
    displayFrom i (cs ++ rest) out = displayFrom (i + cs.length) rest (out ++ cs) := by
  induction cs generalizing i out with
  | nil => simp
  | cons c cs ih =>
    obtain ⟨hc, hcs⟩ := not_or.mp (mt List.mem_cons.mpr hcs)
    rw [List.length_cons] at hlen hdot
    have hno : ¬(8 ≤ i ∧ 0 < out.length ∧ !out.contains 0x2E#8) := by
      rintro ⟨hi, -, hd⟩
      rcases hdot with hdot | hdot
      · omega
      · simp [hdot] at hd
    have hdot' : i + 1 + cs.length ≤ 8 ∨ 0x2E#8 ∈ out ++ [c] := by
      rcases hdot with hdot | hdot
      · exact .inl (by omega)
      · exact .inr (List.mem_append_left _ hdot)
    rw [List.cons_append, displayFrom, if_neg (Ne.symm hc), if_neg hno]
    change (putName out c >>= fun out ↦ displayFrom (i + 1) (cs ++ rest) out) = _
    rw [putName_of_lt (by omega)]
    change displayFrom (i + 1) (cs ++ rest) (out ++ [c]) = _
    rw [ih hcs (by simp; omega) hdot', List.length_cons, List.append_assoc, Nat.add_right_comm,
      Nat.add_assoc]
    rfl

/-- The first character of the extension puts the dot before it. -/
theorem displayFrom_dot {i : ℕ} {c : Byte} {cs out : List Byte} (hi : 8 ≤ i) (hc : c ≠ 0x20#8)
    (hout : out ≠ []) (hdot : 0x2E#8 ∉ out) (hlen : out.length ≤ 10) :
    displayFrom i (c :: cs) out = displayFrom (i + 1) cs (out ++ [0x2E#8, c]) := by
  have hyes : 8 ≤ i ∧ 0 < out.length ∧ !out.contains 0x2E#8 :=
    ⟨hi, List.length_pos_iff.mpr hout, by simpa using hdot⟩
  rw [displayFrom, if_neg hc, if_pos hyes, putName_of_lt (by omega)]
  change (putName (out ++ [0x2E#8]) c >>= fun out ↦ displayFrom (i + 1) cs out) = _
  rw [putName_of_lt (by simp; omega), List.append_assoc]
  rfl

/-- The eleven bytes of an accepted name are displayed as the name, in upper case. -/
theorem displayName_pad83 {base ext : List Byte} (h : Is83 base ext) {n : ShortName}
    (hn : n.1 = pad83 base ext) :
    displayName n = some (join83 (base.map toAsciiUppercase) (ext.map toAsciiUppercase)) := by
  have hspace : ∀ l : List Byte, (∀ c ∈ l, isShortChar (toAsciiUppercase c) = true) →
      0x20#8 ∉ l.map toAsciiUppercase ∧ 0x2E#8 ∉ l.map toAsciiUppercase := by
    intro l hl
    rw [List.mem_map, List.mem_map]
    refine ⟨?_, ?_⟩ <;>
    · rintro ⟨c, hc, he⟩
      have hshort := hl c hc
      rw [he] at hshort
      revert hshort
      decide
  obtain ⟨hb, hbdot⟩ := hspace base fun c hc ↦ h.chars c (List.mem_append_left _ hc)
  obtain ⟨he, -⟩ := hspace ext fun c hc ↦ h.chars c (List.mem_append_right _ hc)
  have hb8 := h.base_le
  have he3 := h.ext_le
  rw [displayName, hn, pad83, padTo, padTo, List.append_assoc,
    displayFrom_append hb (by simp; omega) (.inl (by simp; omega)), displayFrom_spaces,
    List.nil_append, join83]
  cases ext with
  | nil => simp [displayFrom]
  | cons c cs =>
    obtain ⟨hc, hcs⟩ := not_or.mp (mt List.mem_cons.mpr he)
    rw [List.length_cons] at he3
    rw [if_neg (by simp), List.map_cons, List.cons_append, displayFrom_dot (by simp; omega)
      (Ne.symm hc) (by simpa using h.base_ne) hbdot (by simp; omega),
      displayFrom_append hcs (by simp; omega) (.inr (by simp)),
      ← List.append_nil (List.replicate _ _), displayFrom_spaces]
    simp [displayFrom]

/-- **Whatever the eleven bytes are, their name fits the buffer**: a byte of it for each that is not
a space, and a dot once. -/
theorem displayFrom_fits {i : ℕ} {cs out : List Byte} (hi : i + cs.length ≤ 11)
    (hout : out.length ≤ i + if out.contains 0x2E#8 then 1 else 0) :
    ∃ out', displayFrom i cs out = some out' ∧ out'.length ≤ 12 := by
  induction cs generalizing i out with
  | nil =>
    rw [List.length_nil] at hi
    refine ⟨out, rfl, ?_⟩
    split at hout <;> omega
  | cons c cs ih =>
    rw [List.length_cons] at hi
    rw [displayFrom]
    by_cases hc : c = 0x20#8
    · rw [if_pos hc]
      exact ih (by omega) (by omega)
    rw [if_neg hc]
    by_cases hput : 8 ≤ i ∧ 0 < out.length ∧ !out.contains 0x2E#8
    · have hno : out.contains 0x2E#8 = false := by simpa using hput.2.2
      rw [hno, if_neg (by simp)] at hout
      rw [if_pos hput, putName_of_lt (by omega)]
      change ∃ out', (putName (out ++ [0x2E#8]) c >>= fun out ↦ displayFrom (i + 1) cs out) =
        some out'
        ∧ _
      rw [putName_of_lt (by simp; omega)]
      refine ih (by omega) ?_
      simp
      omega
    · rw [if_neg hput]
      change ∃ out', (putName out c >>= fun out ↦ displayFrom (i + 1) cs out) = some out' ∧ _
      rw [putName_of_lt (by split at hout <;> omega)]
      refine ih (by omega) ?_
      by_cases hdot : out.contains 0x2E#8 = true
      · rw [if_pos hdot] at hout
        have : (out ++ [c]).contains 0x2E#8 = true := by simpa using .inl (by simpa using hdot)
        rw [if_pos this, List.length_append, List.length_singleton]
        omega
      · rw [if_neg hdot] at hout
        rw [List.length_append, List.length_singleton]
        omega

/-! ## Characters and bytes -/

/-- An ASCII character. -/
def IsAscii (c : Char) : Prop := c.toNat < 128

instance (c : Char) : Decidable (IsAscii c) := inferInstanceAs (Decidable (_ < _))

theorem asBytes_cons (c : Char) (s : List Char) :
    asBytes (c :: s) = (String.utf8EncodeChar c).map UInt8.toBitVec ++ asBytes s := by
  rw [asBytes, List.flatMap_cons, ← asBytes]

theorem encode_ascii {c : Char} (h : IsAscii c) :
    (String.utf8EncodeChar c).map UInt8.toBitVec = [charByte c] := by
  have h' : c.val.toNat ≤ 0x7F := Nat.le_of_lt_succ h
  rw [String.utf8EncodeChar]
  simp only [if_pos h', List.map_cons, List.map_nil]
  rfl

/-- ASCII is one byte a character. -/
theorem asBytes_ascii {s : List Char} (h : ∀ c ∈ s, IsAscii c) : asBytes s = s.map charByte := by
  induction s with
  | nil => rfl
  | cons c s ih =>
    rw [asBytes_cons, encode_ascii (h c (by simp)), ih fun c hc ↦ h c (List.mem_cons_of_mem _ hc)]
    rfl

theorem encode_not_ascii {c : Char} (h : ¬IsAscii c) :
    ∃ b ∈ (String.utf8EncodeChar c).map UInt8.toBitVec, 0x80 ≤ b.toNat := by
  have h' : ¬c.val.toNat ≤ 0x7F := fun hle ↦ h (Nat.lt_succ_of_le hle)
  have hmem : UInt8.ofNat (c.val.toNat % 0x40 + 0x80) ∈ String.utf8EncodeChar c := by
    rw [String.utf8EncodeChar]
    simp only [if_neg h']
    split
    · simp
    · split <;> simp
  refine ⟨_, List.mem_map_of_mem hmem, ?_⟩
  rw [UInt8.toNat_toBitVec, UInt8.toNat_ofNat']
  omega

/-- A byte that is not ASCII is in no short name. -/
theorem isShortChar_of_high {b : Byte} (h : 0x80 ≤ b.toNat) :
    isShortChar (toAsciiUppercase b) = false := by
  have hall : ∀ n : Fin 256, 0x80 ≤ n.val →
      isShortChar (toAsciiUppercase (BitVec.ofFin n)) = false := by
    decide +kernel
  exact hall b.toFin h

theorem ascii_of_shortName {s : List Char} {n : ShortName} (h : shortName (asBytes s) = some n) :
    ∀ c ∈ s, IsAscii c := by
  obtain ⟨base, ext, h83, hname, -⟩ := shortName_eq_some.mp h
  intro c hc
  by_contra hno
  obtain ⟨b, hb, hhigh⟩ := encode_not_ascii hno
  have hmem : b ∈ join83 base ext := by
    rw [← hname, asBytes, List.mem_flatMap]
    exact ⟨c, hc, hb⟩
  have hne : b ≠ 0x2E#8 := by
    rintro rfl
    revert hhigh
    decide
  have hchar : b ∈ base ++ ext := by
    rw [join83] at hmem
    split at hmem
    next hext => simpa [hext] using hmem
    next =>
      rw [List.mem_append, List.mem_cons] at hmem
      rw [List.mem_append]
      exact hmem.imp_right fun h ↦ h.resolve_left hne
  have hshort := h83.chars b hchar
  rw [isShortChar_of_high hhigh] at hshort
  simp at hshort

/-- What holds for 128 characters holds for ASCII. -/
theorem ascii_forall {P : Char → Prop} (h : ∀ n : Fin 128, P (Char.ofNat n)) {c : Char}
    (hc : IsAscii c) : P c := by
  have hP := h ⟨c.toNat, hc⟩
  rwa [Char.ofNat_toNat] at hP

/-- What case does to an ASCII character and to its byte. -/
structure AsciiCase (c : Char) : Prop where
  isAscii : IsAscii c.toUpper
  dot : c.toUpper = '.' ↔ c = '.'
  byteDot : charByte c = 0x2E#8 ↔ c = '.'
  upper : charByte c.toUpper = toAsciiUppercase (charByte c)
  allowed : allowedChars.contains c.toUpper = isShortChar (toAsciiUppercase (charByte c))
  lowerUpper : toAsciiUppercase (charByte c) = charByte c.toLower.toUpper
  lower : c.toLower = (Char.ofNat (toAsciiUppercase (charByte c)).toNat).toLower

/-- The 128 characters, one by one. -/
theorem asciiCase {c : Char} (hc : IsAscii c) : AsciiCase c := by
  have hall : ∀ n : Fin 128,
      IsAscii (Char.ofNat n).toUpper ∧ ((Char.ofNat n).toUpper = '.' ↔ Char.ofNat n = '.') ∧
      (charByte (Char.ofNat n) = 0x2E#8 ↔ Char.ofNat n = '.') ∧
      charByte (Char.ofNat n).toUpper = toAsciiUppercase (charByte (Char.ofNat n)) ∧
      allowedChars.contains (Char.ofNat n).toUpper =
        isShortChar (toAsciiUppercase (charByte (Char.ofNat n))) ∧
      toAsciiUppercase (charByte (Char.ofNat n)) = charByte (Char.ofNat n).toLower.toUpper ∧
      (Char.ofNat n).toLower =
        (Char.ofNat (toAsciiUppercase (charByte (Char.ofNat n))).toNat).toLower := by
    decide +kernel
  refine ascii_forall (fun n ↦ ?_) hc
  obtain ⟨h₁, h₂, h₃, h₄, h₅, h₆, h₇⟩ := hall n
  exact ⟨h₁, h₂, h₃, h₄, h₅, h₆, h₇⟩

section

variable {c : Char} (hc : IsAscii c)
include hc

theorem isAscii_toUpper : IsAscii c.toUpper := (asciiCase hc).isAscii

theorem toUpper_eq_dot : c.toUpper = '.' ↔ c = '.' := (asciiCase hc).dot

theorem charByte_eq_dot : charByte c = 0x2E#8 ↔ c = '.' := (asciiCase hc).byteDot

theorem charByte_toUpper : charByte c.toUpper = toAsciiUppercase (charByte c) :=
  (asciiCase hc).upper

/-- The two lists of what is allowed are one. -/
theorem allowedChars_toUpper :
    allowedChars.contains c.toUpper = isShortChar (toAsciiUppercase (charByte c)) :=
  (asciiCase hc).allowed

/-- Upper and lower case of a character say the same. -/
theorem uppercase_of_toLower : toAsciiUppercase (charByte c) = charByte c.toLower.toUpper :=
  (asciiCase hc).lowerUpper

theorem toLower_of_uppercase :
    c.toLower = (Char.ofNat (toAsciiUppercase (charByte c)).toNat).toLower := (asciiCase hc).lower

end

/-- Two ASCII strings with the same bytes but for case have the same characters but for case. -/
theorem uppercase_eq_iff {s t : List Char} (hs : ∀ c ∈ s, IsAscii c) (ht : ∀ c ∈ t, IsAscii c) :
    (s.map charByte).map toAsciiUppercase = (t.map charByte).map toAsciiUppercase ↔
      s.map Char.toLower = t.map Char.toLower := by
  have hupper : ∀ {s : List Char}, (∀ c ∈ s, IsAscii c) → (s.map charByte).map toAsciiUppercase =
      (s.map Char.toLower).map (charByte ∘ Char.toUpper) := by
    intro s hs
    rw [List.map_map, List.map_map]
    exact List.map_congr_left fun c hc ↦ uppercase_of_toLower (hs c hc)
  have hlower : ∀ {s : List Char}, (∀ c ∈ s, IsAscii c) → s.map Char.toLower =
      ((s.map charByte).map toAsciiUppercase).map fun b ↦ (Char.ofNat b.toNat).toLower := by
    intro s hs
    rw [List.map_map, List.map_map]
    exact List.map_congr_left fun c hc ↦ toLower_of_uppercase (hs c hc)
  constructor
  · intro h
    rw [hlower hs, h, ← hlower ht]
  · intro h
    rw [hupper hs, h, ← hupper ht]

/-! ## The host's function -/

/-- The padding, in characters and in bytes. -/
theorem asBytes_ljust {s : List Char} (hs : ∀ c ∈ s, IsAscii c) (n : ℕ) :
    asBytes (ljust n (s.map Char.toUpper)) = padTo n ((s.map charByte).map toAsciiUppercase) := by
  have hpad : ∀ c ∈ ljust n (s.map Char.toUpper), IsAscii c := by
    intro c hc
    rw [ljust, List.mem_append, List.mem_map, List.mem_replicate] at hc
    rcases hc with ⟨d, hd, rfl⟩ | ⟨-, rfl⟩
    · exact isAscii_toUpper (hs d hd)
    · decide
  have hmap : (s.map Char.toUpper).map charByte = (s.map charByte).map toAsciiUppercase := by
    rw [List.map_map, List.map_map]
    exact List.map_congr_left fun c hc ↦ charByte_toUpper (hs c hc)
  rw [asBytes_ascii hpad, ljust, padTo, List.map_append, hmap, List.map_replicate]
  simp [charByte]

theorem all_allowedChars {s : List Char} (hs : ∀ c ∈ s, IsAscii c) :
    (s.map Char.toUpper).all allowedChars.contains = true ↔
      ∀ c ∈ s.map charByte, isShortChar (toAsciiUppercase c) = true := by
  rw [List.all_eq_true, List.forall_mem_map, List.forall_mem_map]
  refine forall₂_congr fun c hc ↦ ?_
  rw [allowedChars_toUpper (hs c hc)]

/-- A name of characters as the two sides of its last dot, if it has one. -/
structure Splits (name : String) (base ext : List Char) (dot : Bool) : Prop where
  ascii : ∀ c ∈ base ++ ext, IsAscii c
  eq : name.toList = if dot then base ++ '.' :: ext else base
  no_dot : '.' ∉ if dot then ext else base
  no_ext : dot = false → ext = []

theorem exists_splits {name : String} (h : ∀ c ∈ name.toList, IsAscii c) :
    ∃ base ext dot, Splits name base ext dot := by
  by_cases hdot : '.' ∈ name.toList
  · obtain ⟨base, ext, heq, hext⟩ := exists_last hdot
    refine ⟨base, ext, true, fun c hc ↦ h c ?_, heq, hext, by simp⟩
    rw [heq, List.mem_append, List.mem_cons]
    exact (List.mem_append.mp hc).imp_right .inr
  · exact ⟨name.toList, [], false, by simpa using h, rfl, hdot, fun _ ↦ rfl⟩

section

variable {name : String} {base ext : List Char} {dot : Bool}

theorem Splits.isAscii (h : Splits name base ext dot) : ∀ c ∈ name.toList, IsAscii c := by
  intro c hc
  rw [h.eq] at hc
  cases dot with
  | false => exact h.ascii c (List.mem_append_left _ hc)
  | true =>
    rcases List.mem_append.mp hc with hc | hc
    · exact h.ascii c (List.mem_append_left _ hc)
    · rcases List.mem_cons.mp hc with rfl | hc
      · decide
      · exact h.ascii c (List.mem_append_right _ hc)

/-- The firmware cuts the bytes there. -/
theorem Splits.splitDot (h : Splits name base ext dot) : splitDot (asBytes name.toList) =
    (base.map charByte, if dot then some (ext.map charByte) else none) := by
  have hno : ∀ s : List Char, (∀ c ∈ s, IsAscii c) → '.' ∉ s → 0x2E#8 ∉ s.map charByte := by
    intro s hs hdot hmem
    obtain ⟨c, hc, he⟩ := List.mem_map.mp hmem
    rw [(charByte_eq_dot (hs c hc)).mp he] at hc
    exact hdot hc
  have hdot := h.no_dot
  rw [asBytes_ascii h.isAscii, h.eq]
  cases dot with
  | false =>
    rw [if_neg (by simp)] at hdot ⊢
    exact splitDot_of_not_mem (hno _ (fun c hc ↦ h.ascii c (by simp [hc])) hdot)
  | true =>
    rw [if_pos rfl, List.map_append, List.map_cons]
    exact splitDot_append (hno _ (fun c hc ↦ h.ascii c (by simp [hc])) hdot)

/-- The host cuts the characters there. -/
theorem Splits.rpartitionDot (h : Splits name base ext dot) : ∃ before after,
    rpartitionDot (name.toList.map Char.toUpper) = (before, dot, after) ∧
      (if !dot then (after, []) else (before, after)) =
        (base.map Char.toUpper, ext.map Char.toUpper) := by
  have hno : ∀ s : List Char, (∀ c ∈ s, IsAscii c) → '.' ∉ s → '.' ∉ s.map Char.toUpper := by
    intro s hs hdot hmem
    obtain ⟨c, hc, he⟩ := List.mem_map.mp hmem
    rw [(toUpper_eq_dot (hs c hc)).mp he] at hc
    exact hdot hc
  have hdot := h.no_dot
  rw [h.eq]
  cases dot with
  | false =>
    obtain rfl := h.no_ext rfl
    rw [if_neg (by simp)] at hdot ⊢
    exact ⟨_, _, rpartitionDot_of_not_mem (hno _ (fun c hc ↦ h.ascii c (by simp [hc])) hdot), rfl⟩
  | true =>
    rw [if_pos rfl, List.map_append, List.map_cons]
    exact ⟨_, _, rpartitionDot_append (hno _ (fun c hc ↦ h.ascii c (by simp [hc])) hdot), rfl⟩

/-- What `fat_short_name` makes of them. -/
theorem Splits.fatShortName (h : Splits name base ext dot) {bs : List Byte} :
    fatShortName name = some bs ↔
      (base ≠ [] ∧ base.length ≤ 8 ∧ ext.length ≤ 3 ∧ (ext ≠ [] ∨ dot = false)) ∧
      (∀ c ∈ base.map charByte ++ ext.map charByte, isShortChar (toAsciiUppercase c) = true) ∧
      bs = pad83 (base.map charByte) (ext.map charByte) := by
  have hascii : name.toList.all (fun c ↦ decide (c.toNat < 128)) = true := by
    rw [List.all_eq_true]
    exact fun c hc ↦ decide_eq_true (h.isAscii c hc)
  have hbase : ∀ c ∈ base, IsAscii c := fun c hc ↦ h.ascii c (List.mem_append_left _ hc)
  have hext : ∀ c ∈ ext, IsAscii c := fun c hc ↦ h.ascii c (List.mem_append_right _ hc)
  obtain ⟨before, after, hsplit, hpair⟩ := h.rpartitionDot
  have hpos : 1 ≤ base.length ↔ base ≠ [] := List.length_pos_iff
  rw [Vux9k.fatShortName, hascii, if_neg (by simp), hsplit]
  dsimp only
  rw [hpair]
  simp only [List.length_map, ← List.map_append, asBytes_ljust hbase, asBytes_ljust hext,
    ← all_allowedChars h.ascii, pad83, hpos, ne_eq, List.map_eq_nil_iff, Bool.not_eq_eq_eq_not,
    Bool.not_true]
  split
  next hbad =>
    refine iff_of_false (by simp) ?_
    rintro ⟨hcond, hchars, -⟩
    rcases hbad with hbad | hbad
    · exact hbad hcond
    · rw [hchars] at hbad
      simp at hbad
  next hgood =>
    rw [not_or, not_not] at hgood
    rw [Option.some.injEq, eq_comm]
    exact ⟨fun h ↦ ⟨hgood.1, by simpa using hgood.2, h⟩, fun h ↦ h.2.2⟩

end

/-- **The host and the firmware agree on every string.** -/
theorem fatShortName_eq (name : String) :
    fatShortName name = (toShortName name).map Subtype.val := by
  by_cases hascii : ∀ c ∈ name.toList, IsAscii c
  · obtain ⟨base, ext, dot, h⟩ := exists_splits hascii
    have hiff : ∀ bs, fatShortName name = some bs ↔
        ∃ n, toShortName name = some n ∧ n.1 = bs := by
      intro bs
      rw [h.fatShortName, toShortName]
      simp only [shortName_of_split h.splitDot]
      have hgetD : (if dot then some (ext.map charByte) else none).getD [] = ext.map charByte := by
        cases dot with
        | false => simp [h.no_ext rfl]
        | true => rfl
      have hsome : (if dot then some (ext.map charByte) else none) ≠ some [] ↔
          (ext ≠ [] ∨ dot = false) := by
        cases dot <;> simp
      rw [hgetD, ← pad83, hsome]
      simp only [ne_eq, List.map_eq_nil_iff, List.length_map]
      constructor
      · rintro ⟨hcond, hchars, rfl⟩
        have hlen : (pad83 (base.map charByte) (ext.map charByte)).length = 11 := by
          simp only [pad83, padTo, List.length_append, List.length_map, List.length_replicate]
          omega
        exact ⟨⟨_, hlen⟩, ⟨hcond, hchars, rfl⟩, rfl⟩
      · rintro ⟨n, ⟨hcond, hchars, hn⟩, rfl⟩
        exact ⟨hcond, hchars, hn⟩
    ext bs
    rw [Option.map_eq_some_iff]
    exact hiff bs
  · have hnone : toShortName name = none := by
      cases hn : toShortName name with
      | none => rfl
      | some n => exact absurd (ascii_of_shortName hn) hascii
    rw [hnone, Option.map_none, fatShortName, if_pos]
    simp only [not_forall] at hascii
    obtain ⟨c, hc, hno⟩ := hascii
    simp only [Bool.not_eq_eq_eq_not, Bool.not_true, List.all_eq_false, decide_eq_true_eq]
    exact ⟨c, hc, hno⟩

/-! ## There and back -/

@[simp]
theorem toAsciiUppercase_idem (c : Byte) :
    toAsciiUppercase (toAsciiUppercase c) = toAsciiUppercase c := by
  have hall : ∀ n : Fin 256, toAsciiUppercase (toAsciiUppercase (BitVec.ofFin n)) =
      toAsciiUppercase (BitVec.ofFin n) := by
    decide +kernel
  exact hall c.toFin

theorem map_join83 (base ext : List Byte) : (join83 base ext).map toAsciiUppercase =
    join83 (base.map toAsciiUppercase) (ext.map toAsciiUppercase) := by
  have hdot : toAsciiUppercase 0x2E#8 = 0x2E#8 := by decide
  rw [join83, join83]
  by_cases hext : ext = []
  · simp [hext]
  · rw [if_neg hext, if_neg (by simpa using hext), List.map_append, List.map_cons, hdot]

theorem Is83.upper {base ext : List Byte} (h : Is83 base ext) :
    Is83 (base.map toAsciiUppercase) (ext.map toAsciiUppercase) where
  base_ne := by simpa using h.base_ne
  base_le := by simpa using h.base_le
  ext_le := by simpa using h.ext_le
  chars := by
    rw [← List.map_append, List.forall_mem_map]
    intro c hc
    rw [toAsciiUppercase_idem]
    exact h.chars c hc

section

variable {name : List Byte} {n : ShortName} (h : shortName name = some n)
include h

/-- The case of the letters does not matter. -/
theorem shortName_upper : shortName (name.map toAsciiUppercase) = some n := by
  obtain ⟨base, ext, h83, rfl, hn⟩ := shortName_eq_some.mp h
  refine shortName_eq_some.mpr ⟨_, _, h83.upper, map_join83 base ext, ?_⟩
  rw [hn, pad83, pad83]
  simp [Function.comp_def]

/-- **An accepted name is displayed in upper case.** -/
theorem displayName_shortName : displayName n = some (name.map toAsciiUppercase) := by
  obtain ⟨base, ext, h83, rfl, hn⟩ := shortName_eq_some.mp h
  rw [displayName_pad83 h83 hn, map_join83]

end

/-- Names of one entry are one name but for the case. -/
theorem shortName_eq_iff {a b : List Byte} {m n : ShortName} (ha : shortName a = some m)
    (hb : shortName b = some n) : m = n ↔ a.map toAsciiUppercase = b.map toAsciiUppercase := by
  constructor
  · rintro rfl
    exact Option.some.inj ((displayName_shortName ha).symm.trans (displayName_shortName hb))
  · intro h
    have hm := shortName_upper ha
    rw [h, shortName_upper hb] at hm
    exact (Option.some.inj hm).symm

/-- **8.3 names mean the same everywhere.**  The host accepts the strings the firmware accepts, with
the same bytes; the firmware displays them as a name with these bytes, and any eleven bytes in its
buffer; and two accepted strings are the same entry just when they differ in the case of ASCII
letters at most. -/
theorem short_names_agree :
    (∀ name, fatShortName name = (toShortName name).map Subtype.val) ∧
      (∀ name n, toShortName name = some n → (displayName n).bind shortName = some n) ∧
      (∀ n, ∃ out, displayName n = some out ∧ out.length ≤ 12) ∧
      ∀ a b m n, toShortName a = some m → toShortName b = some n →
        (m = n ↔ a.toList.map Char.toLower = b.toList.map Char.toLower) := by
  refine ⟨fatShortName_eq, ?_, ?_, ?_⟩
  · intro name n h
    rw [displayName_shortName h, Option.bind_some]
    exact shortName_upper h
  · intro n
    exact displayFrom_fits (by rw [n.2]) (by simp)
  · intro a b m n ha hb
    have hasciiA := ascii_of_shortName ha
    have hasciiB := ascii_of_shortName hb
    rw [shortName_eq_iff ha hb, asBytes_ascii hasciiA, asBytes_ascii hasciiB,
      uppercase_eq_iff hasciiA hasciiB]

/-- A name in two spellings. -/
theorem short_names_agree_readme : ∃ n, toShortName "ReadMe.txt" = some n ∧
    toShortName "README.TXT" = some n ∧ (displayName n).bind shortName = some n := by
  have hone : toShortName "ReadMe.txt" = some ⟨str "README  TXT", by decide⟩ := by decide
  have htwo : toShortName "README.TXT" = some ⟨str "README  TXT", by decide⟩ := by decide
  exact ⟨_, hone, htwo, short_names_agree.2.1 _ _ hone⟩

end Vux9k

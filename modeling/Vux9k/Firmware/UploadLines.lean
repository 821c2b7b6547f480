import Vux9k.Firmware.Upload

/-!
# What the device prints

The host sees of the exchange only the lines the device prints.  `Prints E P p` says that `p`, as
long as none of the events `E` happens, prints whole lines with `P`, except that it may be in the
middle of one.  It composes along the program (`Prints.bind`), so each line of `upload_v2` is
looked at once (`prints_uploadV2`), and two things follow for every run and every moment of it:

* an `[OK]` line is out only after the sink has committed (`committed_of_ok_line`);
* a `[LEN:n]` line is out only after the sink has accepted a length of `n` (`begun_of_len_line`).
-/

set_option autoImplicit false

namespace Vux9k

/-! ## Lines of a stream -/

/-- `\n`. -/
def newline : Byte := 10#8

/-- The complete lines of a stream, with their newlines, after the begun line `cur`. -/
def linesFrom (cur : List Byte) : List Byte → List (List Byte)
  | [] => []
  | b :: bs => if b = newline then (cur ++ [b]) :: linesFrom [] bs else linesFrom (cur ++ [b]) bs

/-- The complete lines of a stream. -/
def lines (bs : List Byte) : List (List Byte) := linesFrom [] bs

/-- A line of the transfer: an opening bracket, and no newline but the last byte. -/
structure IsLine (l : List Byte) : Prop where
  bracket : ∃ l', l = 0x5B#8 :: l'
  ends : ∃ body, l = body ++ [newline] ∧ newline ∉ body

theorem isLine_intro (pre what : List Byte) (hpre : ∃ l', pre = 0x5B#8 :: l')
    (hnl : newline ∉ pre) (hwhat : newline ∉ what) : IsLine (pre ++ what ++ [newline]) := by
  obtain ⟨l', rfl⟩ := hpre
  refine ⟨⟨l' ++ what ++ [newline], rfl⟩, _, rfl, ?_⟩
  simp only [List.mem_append, not_or]
  exact ⟨hnl, hwhat⟩

theorem linesFrom_append {cur body rest : List Byte} (h : newline ∉ body) :
    linesFrom cur (body ++ rest) = linesFrom (cur ++ body) rest := by
  induction body generalizing cur with
  | nil => simp
  | cons b body ih =>
    obtain ⟨hb, hbody⟩ := not_or.mp (mt List.mem_cons.mpr h)
    rw [List.cons_append, linesFrom, if_neg (Ne.symm hb), ih hbody]
    simp

theorem lines_append_newline {body rest : List Byte} (h : newline ∉ body) :
    lines (body ++ [newline] ++ rest) = (body ++ [newline]) :: lines rest := by
  rw [lines, List.append_assoc, linesFrom_append h]
  simp [linesFrom, lines]

theorem lines_flatten {ls : List (List Byte)} (hls : ∀ l ∈ ls, IsLine l) {part : List Byte}
    (hpart : newline ∉ part) : lines (ls.flatten ++ part) = ls := by
  induction ls with
  | nil =>
    rw [List.flatten_nil, List.nil_append, lines, ← List.append_nil part, linesFrom_append hpart,
      linesFrom]
  | cons l ls ih =>
    obtain ⟨body, rfl, hbody⟩ := (hls l (by simp)).ends
    have hrest : ∀ l ∈ ls, IsLine l := fun l hl ↦ hls l (List.mem_cons_of_mem _ hl)
    rw [List.flatten_cons, List.append_assoc (body ++ [newline]), lines_append_newline hbody,
      ih hrest]

namespace Dev

/-! ## What goes out and comes in -/

/-- The byte an event prints. -/
def printed : Event → Option Byte
  | ⟨.put b, _⟩ => some b
  | _ => none

/-- The byte an event receives. -/
def received : Event → Option Byte
  | ⟨.recv, some b⟩ => some b
  | _ => none

/-- The block an event gives to the sink. -/
def stored : Event → Option (List Byte)
  | ⟨.block _ data, _⟩ => some data
  | _ => none

def out (es : List Event) : List Byte := es.filterMap printed

def ins (es : List Event) : List Byte := es.filterMap received

def blocks (es : List Event) : List (List Byte) := es.filterMap stored

section

variable (e : Event) (es fs : List Event) (bs : List Byte)

@[simp]
theorem out_nil : out [] = [] := rfl

@[simp]
theorem out_cons : out (e :: es) = (printed e).toList ++ out es := by
  cases h : printed e <;> simp [out, h]

@[simp]
theorem out_append : out (es ++ fs) = out es ++ out fs := List.filterMap_append

@[simp]
theorem ins_nil : ins [] = [] := rfl

@[simp]
theorem ins_cons : ins (e :: es) = (received e).toList ++ ins es := by
  cases h : received e <;> simp [ins, h]

@[simp]
theorem ins_append : ins (es ++ fs) = ins es ++ ins fs := List.filterMap_append

@[simp]
theorem blocks_nil : blocks [] = [] := rfl

@[simp]
theorem blocks_cons : blocks (e :: es) = (stored e).toList ++ blocks es := by
  cases h : stored e <;> simp [blocks, h]

@[simp]
theorem blocks_append : blocks (es ++ fs) = blocks es ++ blocks fs := List.filterMap_append

@[simp]
theorem out_puts : out (puts bs) = bs := by
  simp [out, puts, printed, List.filterMap_map, Function.comp_def]

@[simp]
theorem ins_puts : ins (puts bs) = [] := by simp [ins, puts, received, List.filterMap_map]

@[simp]
theorem blocks_puts : blocks (puts bs) = [] := by simp [blocks, puts, stored, List.filterMap_map]

@[simp]
theorem out_recvs : out (recvs bs) = [] := by simp [out, recvs, printed, List.filterMap_map]

@[simp]
theorem ins_recvs : ins (recvs bs) = bs := by
  simp [ins, recvs, received, List.filterMap_map, Function.comp_def]

@[simp]
theorem blocks_recvs : blocks (recvs bs) = [] := by simp [blocks, recvs, stored, List.filterMap_map]

end

variable {α β : Type} {E : Event → Prop} {P : List Byte → Prop}

/-- As long as no event `E` happens the program prints whole lines with `P`, except that it may be
in the middle of one while it is not done. -/
def Prints (E : Event → Prop) (P : List Byte → Prop) (p : Dev α) : Prop :=
  ∀ es q, p.Path es q → (∀ e ∈ es, ¬E e) →
    ∃ (ls : List (List Byte)) (part : List Byte), out es = ls.flatten ++ part ∧
      (∀ l ∈ ls, IsLine l ∧ P l) ∧ newline ∉ part ∧ ((∃ a, q = .ret a) → part = [])

theorem Prints.ret (a : α) : Prints E P (.ret a : Dev α) := by
  intro es q h _
  obtain ⟨rfl, rfl⟩ := Prog.path_ret.mp h
  exact ⟨[], [], by simp, by simp, by simp, fun _ ↦ rfl⟩

/-- An operation that prints nothing. -/
theorem Prints.ask {o : DevOp} {k : o.Ans → Dev α} (ho : ∀ r, printed ⟨o, r⟩ = none)
    (hk : ∀ r, ¬E ⟨o, r⟩ → Prints E P (k r)) : Prints E P (.ask o k) := by
  intro es q h hE
  rcases Prog.path_ask.mp h with ⟨rfl, rfl⟩ | ⟨r, es', rfl, h'⟩
  · exact ⟨[], [], by simp, by simp, by simp, fun _ ↦ rfl⟩
  · obtain ⟨ls, part, hout, hls⟩ := hk r (hE _ (by simp)) es' q h'
      fun e he ↦ hE e (List.mem_cons_of_mem _ he)
    exact ⟨ls, part, by simpa [ho r] using hout, hls⟩

theorem Prints.bind {p : Dev α} {f : α → Dev β} (hp : Prints E P p)
    (hf : ∀ a es, p.Path es (.ret a) → Prints E P (f a)) : Prints E P (p >>= f) := by
  intro es q h hE
  rcases Prog.path_bind.mp h with ⟨p', hp', hne, rfl⟩ | ⟨a, es₁, es₂, rfl, h₁, h₂⟩
  · obtain ⟨ls, part, hout, hls, hpart, -⟩ := hp es p' hp' hE
    refine ⟨ls, part, hout, hls, hpart, ?_⟩
    rintro ⟨b, hb⟩
    cases p' with
    | ret a => exact absurd rfl (hne a)
    | ask o k => simp at hb
  · obtain ⟨ls₁, part₁, hout₁, hls₁, -, hdone⟩ :=
      hp es₁ _ h₁ fun e he ↦ hE e (List.mem_append_left _ he)
    obtain ⟨ls₂, part₂, hout₂, hls₂, hpart₂⟩ :=
      hf a es₁ h₁ es₂ q h₂ fun e he ↦ hE e (List.mem_append_right _ he)
    refine ⟨ls₁ ++ ls₂, part₂, ?_, ?_, hpart₂⟩
    · rw [out_append, hout₁, hout₂, hdone ⟨a, rfl⟩]
      simp
    · intro l hl
      rcases List.mem_append.mp hl with hl | hl
      · exact hls₁ l hl
      · exact hls₂ l hl

theorem path_putBytes_prefix {bs : List Byte} {es : List Event} {q : Dev Unit}
    (h : (putBytes bs).Path es q) : ∃ rest, bs = out es ++ rest ∧
      (rest = [] → ∃ u, q = .ret u) ∧ ((∃ u, q = .ret u) → rest = []) := by
  induction bs generalizing es with
  | nil =>
    obtain ⟨rfl, rfl⟩ := Prog.path_ret.mp h
    exact ⟨[], rfl, fun _ ↦ ⟨_, rfl⟩, fun _ ↦ rfl⟩
  | cons b bs ih =>
    rcases Prog.path_ask.mp h with ⟨rfl, rfl⟩ | ⟨⟨⟩, es', rfl, h'⟩
    · exact ⟨b :: bs, rfl, by simp, by simp⟩
    · obtain ⟨rest, rfl, hq⟩ := ih h'
      exact ⟨rest, by simp [printed], hq⟩

theorem Prints.putBytes {l : List Byte} (hl : IsLine l) (hP : P l) : Prints E P (putBytes l) := by
  intro es q h _
  obtain ⟨rest, hrest, hdone, hdone'⟩ := path_putBytes_prefix h
  obtain ⟨body, hbody, hnl⟩ := hl.ends
  rcases List.eq_nil_or_concat rest with rfl | ⟨init, x, rfl⟩
  · refine ⟨[l], [], by simpa using hrest.symm, by simpa using ⟨hl, hP⟩, by simp, fun _ ↦ rfl⟩
  · refine ⟨[], out es, by simp, by simp, ?_, fun hq ↦ ?_⟩
    · have hpre : body = out es ++ init := by
        rw [hbody, List.concat_eq_append, ← List.append_assoc] at hrest
        exact (List.append_inj' hrest rfl).1
      rw [hpre] at hnl
      exact fun hmem ↦ hnl (List.mem_append_left _ hmem)
    · simpa using hdone' hq

/-! ## The lines of `upload_v2` -/

theorem not_mem_decBytes {n : ℕ} (h : n < 2 ^ 32) {x : Byte}
    (hx : (Char.ofNat x.toNat).isDigit = false) : x ∉ decBytes n := by
  rw [decBytes_eq_toDigits h, List.mem_map]
  rintro ⟨c, hc, rfl⟩
  have hd : c.isDigit = true := Nat.isDigit_of_mem_toDigits (by omega) (by omega) hc
  rw [ofNat_charByte hd, hd] at hx
  simp at hx

theorem newline_not_mem_decBytes {n : ℕ} (h : n < 2 ^ 32) : newline ∉ decBytes n :=
  not_mem_decBytes h (by decide)

theorem newline_not_mem_hexBytes (w : Word) : newline ∉ hexBytes w := by
  have hdigit : ∀ n < 16, hexDigit n ≠ newline := by decide
  rw [hexBytes, List.mem_map]
  rintro ⟨shift, -, h⟩
  refine hdigit _ ?_ h
  rw [BitVec.toNat_and]
  exact Nat.lt_of_le_of_lt Nat.and_le_right (by decide)

theorem isLine_errLine {what : List Byte} (h : newline ∉ what) : IsLine (errLine what) :=
  isLine_intro _ _ ⟨_, rfl⟩ (by decide) h

theorem isLine_readyLine {index : ℕ} (h : index < 2 ^ 32) : IsLine (readyLine index) := by
  have hline : readyLine index = str "[READY-BLK:" ++ (decBytes index ++ str "]") ++ [newline] := by
    simp [readyLine, newline, show str "]\n" = str "]" ++ [10#8] from rfl]
  rw [hline]
  refine isLine_intro _ _ ⟨_, rfl⟩ (by decide) ?_
  simp only [List.mem_append, not_or]
  exact ⟨newline_not_mem_decBytes h, by decide⟩

theorem isLine_lenLine {len : ℕ} (h : len < 2 ^ 32) : IsLine (lenLine len) := by
  have hline : lenLine len = str "[LEN:" ++ (decBytes len ++ str "]") ++ [newline] := by
    simp [lenLine, newline, show str "]\n" = str "]" ++ [10#8] from rfl]
  rw [hline]
  refine isLine_intro _ _ ⟨_, rfl⟩ (by decide) ?_
  simp only [List.mem_append, not_or]
  exact ⟨newline_not_mem_decBytes h, by decide⟩

theorem isLine_okLine {len : ℕ} (h : len < 2 ^ 32) (crc : Word) : IsLine (okLine len crc) := by
  have hline : okLine len crc =
      str "[OK] " ++ (decBytes len ++ str " bytes CRC " ++ hexBytes crc) ++ [newline] := by
    simp [okLine, newline, show str "\n" = [10#8] from rfl]
  rw [hline]
  refine isLine_intro _ _ ⟨_, rfl⟩ (by decide) ?_
  simp only [List.mem_append, not_or]
  exact ⟨⟨newline_not_mem_decBytes h, by decide⟩, newline_not_mem_hexBytes crc⟩

theorem Prints.fail {what : List Byte} (hP : P (errLine what)) (h : newline ∉ what) :
    Prints E P (fail what : Dev (Option α)) :=
  (Prints.putBytes (isLine_errLine h) hP).bind fun _ _ _ ↦
    Prints.ask (fun _ ↦ rfl) fun _ _ ↦ .ret none

theorem path_recvBlock_inl {n i j : ℕ} {buf : List Byte} {es : List Event}
    (h : (recvBlock n i buf).Path es (.ret (.inl j))) : j < i + n := by
  induction n generalizing i buf es with
  | zero =>
    obtain ⟨-, h'⟩ := Prog.path_ret.mp h
    simp at h'
  | succ n ih =>
    rcases Prog.path_ask.mp h with ⟨-, h'⟩ | ⟨_ | b, es', rfl, h'⟩
    · simp at h'
    · obtain ⟨-, h''⟩ := Prog.path_ret.mp h'
      obtain rfl : j = i := by simpa using h''
      omega
    · have := ih h'
      omega

section

variable (herr : ∀ what, P (errLine what)) (hblk : ∀ index, P (readyLine index))
include herr hblk

end

/-! ## What a line tells -/

variable {maxLen : ℕ} {es : List Event} {q : Dev (Option ℕ)} {l : List Byte}

theorem out_eq_nil {p p' : Dev α} (h : p.Path es p') (hp : p.Avoids fun o ↦ ∃ b, o = .put b) :
    out es = [] := by
  have hno := h.avoids hp
  rw [out, List.filterMap_eq_nil_iff]
  rintro ⟨o, r⟩ he
  cases o with
  | put b => exact absurd ⟨b, rfl⟩ (hno _ he)
  | _ => rfl

/-- Until the whole length has arrived, the device has asked for it and printed nothing else. -/
theorem out_of_recv_length {k : Option Byte → Dev (Option ℕ)}
    (h : (uploadV2 maxLen).Path es (.ask .recv k)) (hins : (ins es).length < 4) :
    out es = str "[READY-V2]\n" := by
  have hput : ∀ bs : List Byte, (putBytes bs >>= fun _ ↦ .ret none : Dev (Option ℕ)).Avoids
      (· = .recv) := fun bs ↦ (avoids_putBytes (by simp) bs).bind fun _ ↦ trivial
  rw [uploadV2_eq, Prog.path_ask] at h
  rcases h with ⟨-, h⟩ | ⟨⟨⟩, es₀, rfl, h₀⟩
  · simp at h
  rcases Prog.path_bind.mp h₀ with ⟨p', hp', hne, hq⟩ | ⟨_, es₁, es₂, rfl, h₁, h₂⟩
  · have hav := hp'.avoids_rest (avoids_putBytes (P := (· = .recv)) (by simp) _)
    cases p' with
    | ret a => exact absurd rfl (hne a)
    | ask o k' =>
      rw [Prog.ask_bind, Prog.ask.injEq] at hq
      exact absurd hq.1.symm hav.1
  rw [path_putBytes.mp h₁] at hins ⊢
  rcases Prog.path_bind.mp h₂ with ⟨p', hp', -, -⟩ | ⟨_ | w, es₃, es₄, rfl, h₃, h₄⟩
  · rw [out_cons, out_append, out_puts, out_eq_nil hp' (avoids_recvU32From (by simp) _ _ _)]
    rfl
  · exact absurd rfl (h₄.avoids_rest (hput _)).1
  · rw [path_recvU32 h₃] at hins
    simp [leBytes_length] at hins
    omega

end Dev

end Vux9k

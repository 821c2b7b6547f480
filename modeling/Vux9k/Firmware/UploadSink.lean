import Vux9k.Firmware.UploadLines

/-!
# How the exchange drives its sink

The sink of `upload_v2` sees `begin`, then blocks, then `finish`.  Every exit of the exchange is
looked at once, part by part (`path_recvBlocks_calls` for the loop, `path_recvCrc_calls` for the
end), and `uploadV2_drives_sink` puts together what the sink, the caller and the host see of a whole
exchange: the sink's calls in order, when the last of them is a commit, the result and the last
line.
-/

set_option autoImplicit false

namespace Vux9k

namespace Dev

/-! ## The calls of the sink -/

/-- A call of the sink. -/
def isCall : Event → Bool
  | ⟨.begin _, _⟩ => true
  | ⟨.block _ _, _⟩ => true
  | ⟨.finish _, _⟩ => true
  | _ => false

/-- The calls of the sink with their answers. -/
def calls (es : List Event) : List Event := es.filter isCall

section

variable (e : Event) (es fs : List Event) (bs : List Byte)

@[simp]
theorem calls_nil : calls [] = [] := rfl

@[simp]
theorem calls_cons : calls (e :: es) = if isCall e then e :: calls es else calls es := by
  rw [calls, List.filter_cons, ← calls]

@[simp]
theorem calls_append : calls (es ++ fs) = calls es ++ calls fs := List.filter_append ..

@[simp]
theorem calls_puts : calls (puts bs) = [] := by simp [calls, puts, isCall]

@[simp]
theorem calls_recvs : calls (recvs bs) = [] := by simp [calls, recvs, isCall]

end

/-- The blocks from number `index` on, each with the sink's answer. -/
def blockCalls : ℕ → List (List Byte × Bool) → List Event
  | _, [] => []
  | index, b :: bs => ⟨.block index b.1, b.2⟩ :: blockCalls (index + 1) bs

/-- The bytes of some blocks. -/
def joined (bs : List (List Byte × Bool)) : List Byte := (bs.map Prod.fst).flatten

@[simp]
theorem joined_nil : joined [] = [] := rfl

@[simp]
theorem joined_cons (b : List Byte × Bool) (bs : List (List Byte × Bool)) :
    joined (b :: bs) = b.1 ++ joined bs := by
  rw [joined, List.map_cons, List.flatten_cons, ← joined]

/-- Blocks of `rest` bytes in all, as far as they got: a full one or what is left, and none after
one that was refused. -/
def Delivered : ℕ → List (List Byte × Bool) → Prop
  | _, [] => True
  | rest, b :: bs => 0 < rest ∧ b.1.length = blockBytes rest ∧ (b.2 = false → bs = []) ∧
      Delivered (rest - blockBytes rest) bs

theorem blockBytes_eq_min (rest : ℕ) : blockBytes rest = min blockLen rest := by
  rw [blockBytes]
  split <;> omega

/-- Number `i` begins at byte `512 * i` and is as long as it can be. -/
theorem Delivered.getElem? {rest : ℕ} {bs : List (List Byte × Bool)} (h : Delivered rest bs)
    {i : ℕ} {b : List Byte × Bool} (hb : bs[i]? = some b) :
    blockLen * i < rest ∧ b.1.length = min blockLen (rest - blockLen * i) ∧
      (b.2 = false → i + 1 = bs.length) := by
  induction bs generalizing rest i with
  | nil => simp at hb
  | cons b' bs ih =>
    obtain ⟨hpos, hlen, hrefused, htail⟩ := h
    cases i with
    | zero =>
      obtain rfl : b' = b := by simpa using hb
      refine ⟨by omega, ?_, fun hf ↦ ?_⟩
      · rw [Nat.mul_zero, Nat.sub_zero, hlen, blockBytes_eq_min]
      · rw [hrefused hf]
        rfl
    | succ i =>
      rw [List.getElem?_cons_succ] at hb
      obtain ⟨hi, hblen, hlast⟩ := ih htail hb
      rw [blockBytes_eq_min] at hi hblen
      have hmul : blockLen * (i + 1) = blockLen * i + blockLen := Nat.mul_succ ..
      refine ⟨by omega, by omega, fun hf ↦ ?_⟩
      rw [List.length_cons, hlast hf]

/-! ## The line that ends an exchange -/

/-- An `[OK]` or an `[ERR]` line. -/
def IsEnd (l : List Byte) : Prop := str "[OK] " <+: l ∨ str "[ERR] " <+: l

/-- Whole lines, of which the last one and no other ends the exchange. -/
def EndsOnce (bs : List Byte) : Prop :=
  ∃ init last, lines bs = init ++ [last] ∧ bs = (init ++ [last]).flatten ∧ IsEnd last ∧
    ∀ l ∈ init, ¬IsEnd l

/-- A line that does not end the exchange. -/
def IsStep (l : List Byte) : Prop := IsLine l ∧ ¬IsEnd l

theorem endsOnce_of {ls : List (List Byte)} {last : List Byte} (hls : ∀ l ∈ ls, IsStep l)
    (hlast : IsLine last) (hend : IsEnd last) : EndsOnce (ls.flatten ++ last) := by
  have hline : ∀ l ∈ ls ++ [last], IsLine l := by
    intro l hl
    rcases List.mem_append.mp hl with hl | hl
    · exact (hls l hl).1
    · rw [List.mem_singleton.mp hl]
      exact hlast
  have hflat : ls.flatten ++ last = (ls ++ [last]).flatten := by simp
  refine ⟨ls, last, ?_, hflat, hend, fun l hl ↦ (hls l hl).2⟩
  have h : lines ((ls ++ [last]).flatten ++ []) = ls ++ [last] := lines_flatten hline (by simp)
  rwa [List.append_nil, ← hflat] at h

theorem endsOnce_errLine {ls : List (List Byte)} {what : List Byte} (hls : ∀ l ∈ ls, IsStep l)
    (hwhat : newline ∉ what) : EndsOnce (ls.flatten ++ errLine what) := by
  refine endsOnce_of hls (isLine_errLine hwhat) (.inr ?_)
  rw [errLine, List.append_assoc]
  exact List.prefix_append _ _

theorem isStep_readyLine {index : ℕ} (h : index < 2 ^ 32) : IsStep (readyLine index) := by
  refine ⟨isLine_readyLine h, ?_⟩
  rintro (⟨t, ht⟩ | ⟨t, ht⟩) <;> simp [readyLine, str] at ht

theorem isStep_lenLine {len : ℕ} (h : len < 2 ^ 32) : IsStep (lenLine len) := by
  refine ⟨isLine_lenLine h, ?_⟩
  rintro (⟨t, ht⟩ | ⟨t, ht⟩) <;> simp [lenLine, str] at ht

theorem isStep_readyV2 : IsStep (str "[READY-V2]\n") := by
  refine ⟨isLine_intro (str "[READY-V2]") [] ⟨_, rfl⟩ (by decide) (by decide), ?_⟩
  rintro (⟨t, ht⟩ | ⟨t, ht⟩) <;> simp [str] at ht

theorem isStep_readyCrc : IsStep (str "[READY-CRC]\n") := by
  refine ⟨isLine_intro (str "[READY-CRC]") [] ⟨_, rfl⟩ (by decide) (by decide), ?_⟩
  rintro (⟨t, ht⟩ | ⟨t, ht⟩) <;> simp [str] at ht

/-! ## The parts of the exchange -/

theorem path_tail {bs : List Byte} {es : List Event} {r r' : Option ℕ}
    (h : (putBytes bs >>= fun _ ↦ .ret r').Path es (.ret r)) : r = r' ∧ es = puts bs := by
  obtain ⟨_, es₁, es₂, rfl, h₁, h₂⟩ := Prog.path_bind_ret.mp h
  obtain ⟨rfl, hr⟩ := Prog.path_ret.mp h₂
  rw [path_putBytes.mp h₁, List.append_nil]
  exact ⟨by simpa using hr, rfl⟩

theorem path_fail_events {α : Type} {what : List Byte} {es : List Event} {r : Option α}
    (h : (fail what : Dev (Option α)).Path es (.ret r)) :
    r = none ∧ ∃ a, es = puts (errLine what) ++ [⟨.finish false, a⟩] := by
  refine ⟨path_fail h, ?_⟩
  obtain ⟨_, es₁, es₂, rfl, h₁, h₂⟩ := Prog.path_bind_ret.mp h
  rcases Prog.path_ask.mp h₂ with ⟨-, h'⟩ | ⟨a, es', rfl, h'⟩
  · simp at h'
  · obtain ⟨rfl, -⟩ := Prog.path_ret.mp h'
    exact ⟨a, by rw [path_putBytes.mp h₁]⟩

/-- A byte of a word did not come. -/
theorem path_recvU32_none {es : List Event} (h : recvU32.Path es (.ret none)) :
    ∃ bs, bs.length < 4 ∧ es = recvs bs ++ [⟨.recv, none⟩] := by
  have hfrom : ∀ {n i : ℕ} {v : Word} {es : List Event},
      (recvU32From n i v).Path es (.ret none) →
        ∃ bs, bs.length < n ∧ es = recvs bs ++ [⟨.recv, none⟩] := by
    intro n
    induction n with
    | zero =>
      intro i v es h
      obtain ⟨-, h'⟩ := Prog.path_ret.mp h
      simp at h'
    | succ n ih =>
      intro i v es h
      rcases Prog.path_ask.mp h with ⟨-, h'⟩ | ⟨_ | b, es', rfl, h'⟩
      · simp at h'
      · obtain ⟨rfl, -⟩ := Prog.path_ret.mp h'
        exact ⟨[], by simp, rfl⟩
      · obtain ⟨bs, hlen, rfl⟩ := ih h'
        exact ⟨b :: bs, by simpa using hlen, rfl⟩
  exact hfrom h

/-- A byte of a block did not come. -/
theorem path_recvBlock_timeout {n i j : ℕ} {buf : List Byte} {es : List Event}
    (h : (recvBlock n i buf).Path es (.ret (.inl j))) :
    ∃ bs, bs.length < n ∧ es = recvs bs ++ [⟨.recv, none⟩] := by
  induction n generalizing i buf es with
  | zero =>
    obtain ⟨-, h'⟩ := Prog.path_ret.mp h
    simp at h'
  | succ n ih =>
    rcases Prog.path_ask.mp h with ⟨-, h'⟩ | ⟨_ | b, es', rfl, h'⟩
    · simp at h'
    · obtain ⟨rfl, -⟩ := Prog.path_ret.mp h'
      exact ⟨[], by simp, rfl⟩
    · obtain ⟨bs, hlen, rfl⟩ := ih h'
      exact ⟨b :: bs, by simpa using hlen, rfl⟩

/-- What the block loop has done when it ends with `r`, with the blocks `bs` given to the sink, the
bytes `part` of one that did not all come, and the lines `ls`. -/
def LoopEnds (index rest : ℕ) (crc : Word) (es : List Event) (bs : List (List Byte × Bool))
    (part : List Byte) (ls : List (List Byte)) : Option Word → Prop
  | some c => calls es = blockCalls index bs ∧ out es = ls.flatten ∧ (∀ b ∈ bs, b.2 = true) ∧
      part = [] ∧ (joined bs).length = rest ∧ c = crc32Update (joined bs) crc
  | none => (∃ a, calls es = blockCalls index bs ++ [⟨.finish false, a⟩]) ∧
      (∃ what, newline ∉ what ∧ out es = ls.flatten ++ errLine what) ∧
      ((∃ b ∈ bs, b.2 = false) ∨ (joined bs ++ part).length < rest)

/-- A round of the loop that stored its block, before the others. -/
theorem LoopEnds.cons {index rest : ℕ} {crc : Word} {es : List Event}
    {bs : List (List Byte × Bool)} {part buf : List Byte} {ls : List (List Byte)} {r : Option Word}
    (hbuf : buf.length ≤ rest)
    (h : LoopEnds (index + 1) (rest - buf.length) (crc32Update buf crc) es bs part ls r) :
    LoopEnds index rest crc
      (puts (readyLine index) ++ (recvs buf ++ ⟨.block index buf, true⟩ :: es))
      ((buf, true) :: bs) part (readyLine index :: ls) r := by
  cases r with
  | some c =>
    obtain ⟨hcalls, hout, hall, hpart, hlen, hc⟩ := h
    refine ⟨?_, ?_, ?_, hpart, ?_, ?_⟩
    · simp [isCall, hcalls, blockCalls]
    · simp [printed, hout]
    · simpa using hall
    · simp [hlen]
      omega
    · rw [hc, joined_cons, crc32Update_append]
  | none =>
    obtain ⟨⟨a, hcalls⟩, ⟨what, hwhat, hout⟩, hwhy⟩ := h
    refine ⟨⟨a, ?_⟩, ⟨what, hwhat, ?_⟩, ?_⟩
    · simp [isCall, hcalls, blockCalls]
    · simp [printed, hout]
    · rcases hwhy with ⟨b, hb, hf⟩ | hlt
      · exact .inl ⟨b, List.mem_cons_of_mem _ hb, hf⟩
      · right
        simp only [joined_cons, List.length_append] at hlt ⊢
        omega

/-- **The block loop**: the blocks in order, until all are stored, one is refused or a byte does not
come. -/
theorem path_recvBlocks_calls {fuel index rest : ℕ} {crc : Word} {es : List Event}
    {r : Option Word} (hfuel : rest ≤ fuel) (hindex : index + rest < 2 ^ 32)
    (h : (recvBlocks fuel index rest crc).Path es (.ret r)) :
    ∃ bs part ls, Delivered rest bs ∧ (∀ l ∈ ls, IsStep l) ∧ ins es = joined bs ++ part ∧
      LoopEnds index rest crc es bs part ls r := by
  induction fuel generalizing index rest crc es with
  | zero =>
    obtain ⟨rfl, h'⟩ := Prog.path_ret.mp h
    obtain rfl : r = some crc := by simpa using h'
    exact ⟨[], [], [], trivial, by simp, rfl, rfl, rfl, by simp, rfl, by simp; omega, rfl⟩
  | succ fuel ih =>
    rw [recvBlocks_succ] at h
    split at h
    next hrest =>
      obtain ⟨rfl, h'⟩ := Prog.path_ret.mp h
      obtain rfl : r = some crc := by simpa using h'
      exact ⟨[], [], [], trivial, by simp, rfl, rfl, rfl, by simp, rfl, by simp [hrest], rfl⟩
    next hrest =>
      have hbytes := blockBytes_eq_min rest
      have hblock : blockLen = 512 := rfl
      have hready : ∀ l ∈ [readyLine index], IsStep l := by
        simpa using isStep_readyLine (by omega)
      have hdec := newline_not_mem_decBytes (n := index) (by omega)
      obtain ⟨_, es₁, es₂, rfl, h₁, h₂⟩ := Prog.path_bind_ret.mp h
      obtain rfl := path_putBytes.mp h₁
      obtain ⟨j | buf, es₃, es₄, rfl, h₃, h₄⟩ := Prog.path_bind_ret.mp h₂
      · -- a byte of the block did not come
        obtain ⟨part, hpart, rfl⟩ := path_recvBlock_timeout h₃
        obtain ⟨rfl, a, rfl⟩ := path_fail_events h₄
        have hj := path_recvBlock_inl h₃
        refine ⟨[], part, [readyLine index], trivial, hready, by simp [received],
          ⟨a, by simp [isCall, blockCalls]⟩, ⟨str "Timeout at block " ++ decBytes index ++
            str ", byte " ++ decBytes j, ?_, by simp [printed]⟩, .inr (by simp; omega)⟩
        simp only [List.mem_append, not_or]
        exact ⟨⟨⟨by decide, hdec⟩, by decide⟩, newline_not_mem_decBytes (by omega)⟩
      · obtain ⟨data, hlen, hbuf, rfl⟩ := path_recvBlock h₃
        obtain rfl : buf = data := by simpa using hbuf
        rcases Prog.path_ask.mp h₄ with ⟨-, h'⟩ | ⟨_ | _, es', rfl, h'⟩
        · simp at h'
        · -- the sink refused it
          obtain ⟨rfl, a, rfl⟩ := path_fail_events h'
          refine ⟨[(buf, false)], [], [readyLine index], ⟨by omega, hlen, fun _ ↦ rfl, trivial⟩,
            hready, by simp [received], ⟨a, by simp [isCall, blockCalls]⟩,
            ⟨str "Store failed at block " ++ decBytes index, ?_, by simp [printed]⟩,
            .inl ⟨(buf, false), by simp, rfl⟩⟩
          simp only [List.mem_append, not_or]
          exact ⟨by decide, hdec⟩
        · obtain ⟨bs, part, ls, hdel, hls, hins, hends⟩ := ih (by omega) (by omega) h'
          rw [← hlen] at hends
          refine ⟨(buf, true) :: bs, part, readyLine index :: ls,
            ⟨by omega, hlen, by simp, hdel⟩, ?_, by simp [received, hins], hends.cons (by omega)⟩
          intro l hl
          rcases List.mem_cons.mp hl with rfl | hl
          · exact hready _ (by simp)
          · exact hls l hl

/-- What the end of the exchange does for `len` bytes with the CRC `crc`. -/
theorem path_recvCrc_calls {len : ℕ} {crc : Word} {es : List Event} {r : Option ℕ}
    (hlen : len < 2 ^ 32) (h : (recvCrc len crc).Path es (.ret r)) :
    ∃ ok committed last, calls es = [⟨.finish ok, committed⟩] ∧
      out es = str "[READY-CRC]\n" ++ last ∧ IsLine last ∧ IsEnd last ∧
      (ok = true ↔ ins es = leBytes crc) ∧
      ∀ n, r = some n ↔ n = len ∧ ok = true ∧ committed = true := by
  have herr : ∀ {what}, newline ∉ what → IsLine (errLine what) ∧ IsEnd (errLine what) := by
    intro what hwhat
    refine ⟨isLine_errLine hwhat, .inr ?_⟩
    rw [errLine, List.append_assoc]
    exact List.prefix_append _ _
  rw [recvCrc_eq] at h
  obtain ⟨_, es₁, es₂, rfl, h₁, h₂⟩ := Prog.path_bind_ret.mp h
  obtain rfl := path_putBytes.mp h₁
  obtain ⟨_ | sent, es₃, es₄, rfl, h₃, h₄⟩ := Prog.path_bind_ret.mp h₂
  · -- the word did not come
    obtain ⟨bs, hbs, rfl⟩ := path_recvU32_none h₃
    obtain ⟨rfl, a, rfl⟩ := path_fail_events h₄
    refine ⟨false, a, errLine (str "CRC timeout"), by simp [isCall], by simp [printed],
      (herr (by decide)).1, (herr (by decide)).2, ?_, by simp⟩
    refine iff_of_false (by simp) fun hins ↦ ?_
    have hlen' := congrArg List.length hins
    simp [received, leBytes_length] at hlen'
    omega
  · obtain rfl := path_recvU32 h₃
    dsimp only at h₄
    split at h₄
    next hne =>
      -- the wrong word came
      obtain ⟨rfl, a, rfl⟩ := path_fail_events h₄
      have hwhat : newline ∉ str "CRC mismatch: sent " ++ hexBytes sent ++ str ", received " ++
          hexBytes crc := by
        simp only [List.mem_append, not_or]
        exact ⟨⟨⟨by decide, newline_not_mem_hexBytes _⟩, by decide⟩, newline_not_mem_hexBytes _⟩
      refine ⟨false, a, errLine _, by simp [isCall], by simp [printed], (herr hwhat).1,
        (herr hwhat).2, ?_, by simp⟩
      refine iff_of_false (by simp) fun hins ↦ hne (leBytes_injective ?_)
      simpa [received] using hins
    next heq =>
      obtain rfl : sent = crc := not_not.mp heq
      rcases Prog.path_ask.mp h₄ with ⟨-, h'⟩ | ⟨_ | _, es', rfl, h'⟩
      · simp at h'
      · obtain ⟨rfl, rfl⟩ := path_tail h'
        exact ⟨true, false, errLine (str "Commit failed"), by simp [isCall], by simp [printed],
          (herr (by decide)).1, (herr (by decide)).2, by simp [received], by simp⟩
      · obtain ⟨rfl, rfl⟩ := path_tail h'
        refine ⟨true, true, okLine len sent, by simp [isCall], by simp [printed],
          isLine_okLine hlen sent, .inl ?_, by simp [received], by simp [eq_comm]⟩
        rw [okLine, List.append_assoc, List.append_assoc, List.append_assoc]
        exact List.prefix_append _ _

/-! ## The whole exchange -/

/-- A length that the exchange accepts has arrived. -/
def LengthArrived (maxLen : ℕ) (es : List Event) (w : Word) : Prop :=
  leBytes w <+: ins es ∧ 1 ≤ w.toNat ∧ w.toNat ≤ maxLen

/-- What an exchange with the events `es` and the result `r` did with its sink. -/
structure Driven (maxLen : ℕ) (es : List Event) (r : Option ℕ) : Prop where
  /-- Without a good length there is no call. -/
  idle : (∀ w, ¬LengthArrived maxLen es w) → calls es = [] ∧ r = none
  /-- With one: `begin` once, and if it accepts, the blocks and one `finish`. -/
  driven : ∀ w, LengthArrived maxLen es w →
    calls es = [⟨.begin w.toNat, false⟩] ∧ r = none ∨
    ∃ bs ok committed,
      calls es = ⟨.begin w.toNat, true⟩ :: (blockCalls 0 bs ++ [⟨.finish ok, committed⟩]) ∧
      (∀ i b, bs[i]? = some b → blockLen * i < w.toNat ∧
        b.1.length = min blockLen (w.toNat - blockLen * i) ∧ (b.2 = false → i + 1 = bs.length)) ∧
      joined bs <+: (ins es).drop 4 ∧
      (ok = true ↔ (∃ data crc, data.length = w.toNat ∧ ins es = leBytes w ++ data ++ leBytes crc ∧
        crc = crc32 (joined bs)) ∧ ∀ b ∈ bs, b.2 = true) ∧
      ∀ n, r = some n ↔ n = w.toNat ∧ ok = true ∧ committed = true
  /-- The last line, and no other, says how it ended. -/
  answered : EndsOnce (out es)

theorem LengthArrived.eq {maxLen : ℕ} {es : List Event} {w w' : Word} {tail : List Byte}
    (h : LengthArrived maxLen es w) (hins : ins es = leBytes w' ++ tail) : w = w' := by
  have hpre := h.1
  rw [hins, List.prefix_iff_eq_take, leBytes_length] at hpre
  have htake : (leBytes w' ++ tail).take 4 = leBytes w' := List.take_left' (leBytes_length w')
  exact leBytes_injective (hpre.trans htake)

/-- An exchange whose length is missing or refused by `upload_v2` itself. -/
theorem driven_of_idle {maxLen : ℕ} {es : List Event} {ls : List (List Byte)} {what : List Byte}
    (hls : ∀ l ∈ ls, IsStep l) (hwhat : newline ∉ what) (hno : ∀ w, ¬LengthArrived maxLen es w)
    (hcalls : calls es = []) (hout : out es = ls.flatten ++ errLine what) :
    Driven maxLen es none where
  idle := fun _ ↦ ⟨hcalls, rfl⟩
  driven := fun w hw ↦ absurd hw (hno w)
  answered := by
    rw [hout]
    exact endsOnce_errLine hls hwhat

/-- After `begin` has accepted `w`: the loop and what follows it. -/
theorem path_begun_calls {w : Word} {f : Option Word → Dev (Option ℕ)} {es : List Event}
    {r : Option ℕ} (hnone : f none = .ret none)
    (hsome : ∀ crc, f (some crc) = recvCrc w.toNat (crc ^^^ 0xFFFFFFFF#32))
    (h : (recvBlocks w.toNat 0 w.toNat 0xFFFFFFFF#32 >>= f).Path es (.ret r)) :
    ∃ (bs : List (List Byte × Bool)) (ok committed : Bool) (ls : List (List Byte))
      (last : List Byte), calls es = blockCalls 0 bs ++ [⟨.finish ok, committed⟩] ∧
      Delivered w.toNat bs ∧ joined bs <+: ins es ∧
      (ok = true ↔ (∃ data crc, data.length = w.toNat ∧ ins es = data ++ leBytes crc ∧
        crc = crc32 (joined bs)) ∧ ∀ b ∈ bs, b.2 = true) ∧
      (∀ n, r = some n ↔ n = w.toNat ∧ ok = true ∧ committed = true) ∧
      out es = ls.flatten ++ last ∧ (∀ l ∈ ls, IsStep l) ∧ IsLine last ∧ IsEnd last := by
  obtain ⟨r₁, es₁, es₂, rfl, h₁, h₂⟩ := Prog.path_bind_ret.mp h
  have hw : w.toNat < 2 ^ 32 := w.isLt
  obtain ⟨bs, part, ls, hdel, hls, hins, hends⟩ := path_recvBlocks_calls le_rfl (by omega) h₁
  cases r₁ with
  | none =>
    rw [hnone] at h₂
    obtain ⟨rfl, hr⟩ := Prog.path_ret.mp h₂
    obtain rfl : r = none := by simpa using hr
    obtain ⟨⟨a, hcalls⟩, ⟨what, hwhat, hout⟩, hwhy⟩ := hends
    refine ⟨bs, false, a, ls, errLine what, by simp [hcalls], hdel, ?_, ?_, by simp,
      by simp [hout], hls, isLine_errLine hwhat, .inr ?_⟩
    · simp [hins]
    · refine iff_of_false (by simp) ?_
      rintro ⟨⟨data, crc, hlen, hdata, -⟩, hall⟩
      rcases hwhy with ⟨b, hb, hf⟩ | hlt
      · rw [hall b hb] at hf
        simp at hf
      · rw [List.append_nil, hins] at hdata
        rw [hdata, List.length_append] at hlt
        omega
    · rw [errLine, List.append_assoc]
      exact List.prefix_append _ _
  | some c =>
    obtain ⟨hcalls, hout, hall, rfl, hlen, rfl⟩ := hends
    rw [hsome] at h₂
    obtain ⟨ok, committed, last, hcalls₂, hout₂, hline, hend, hok, hr⟩ := path_recvCrc_calls hw h₂
    refine ⟨bs, ok, committed, ls ++ [str "[READY-CRC]\n"], last, ?_, hdel, ?_, ?_, hr, ?_, ?_,
      hline,
      hend⟩
    · rw [calls_append, hcalls, hcalls₂]
    · rw [ins_append, hins, List.append_nil]
      exact List.prefix_append _ _
    · rw [hok, ins_append, hins, List.append_nil]
      constructor
      · intro hcrc
        exact ⟨⟨joined bs, _, hlen, by rw [hcrc]; rfl, rfl⟩, hall⟩
      · rintro ⟨⟨data, crc, hdata, heq, rfl⟩, -⟩
        exact (List.append_inj heq (hlen.trans hdata.symm)).2
    · rw [out_append, hout, hout₂]
      simp
    · intro l hl
      rcases List.mem_append.mp hl with hl | hl
      · exact hls l hl
      · rw [List.mem_singleton.mp hl]
        exact isStep_readyCrc

/-- **`upload_v2` drives its sink by protocol**, whatever bytes and timeouts come from the host and
whatever the sink answers. -/
theorem uploadV2_drives_sink {maxLen : ℕ} {es : List Event} {r : Option ℕ}
    (h : (uploadV2 maxLen).Path es (.ret r)) : Driven maxLen es r := by
  rw [uploadV2_eq, Prog.path_ask] at h
  rcases h with ⟨-, h⟩ | ⟨⟨⟩, es₀, rfl, h₀⟩
  · simp at h
  obtain ⟨_, es₁, es₂, rfl, h₁, h₂⟩ := Prog.path_bind_ret.mp h₀
  obtain rfl := path_putBytes.mp h₁
  have hfirst : ∀ l ∈ [str "[READY-V2]\n"], IsStep l := by simpa using isStep_readyV2
  obtain ⟨_ | w, es₃, es₄, rfl, h₃, h₄⟩ := Prog.path_bind_ret.mp h₂
  · -- no length
    obtain ⟨bs, hbs, rfl⟩ := path_recvU32_none h₃
    obtain ⟨rfl, rfl⟩ := path_tail h₄
    have hwhat : newline ∉ str "Length timeout" := by decide
    refine driven_of_idle hfirst hwhat ?_ (by simp [isCall]) (by simp [printed])
    rintro w ⟨hpre, -⟩
    have := hpre.length_le
    simp [received, leBytes_length] at this
    omega
  obtain rfl := path_recvU32 h₃
  have hw : w.toNat < 2 ^ 32 := w.isLt
  have hdec := newline_not_mem_decBytes hw
  dsimp only at h₄
  split at h₄
  next hbad =>
    -- one that is not accepted
    obtain ⟨rfl, rfl⟩ := path_tail h₄
    have hwhat : newline ∉ str "Bad length: " ++ decBytes w.toNat := by
      simp only [List.mem_append, not_or]
      exact ⟨by decide, hdec⟩
    refine driven_of_idle hfirst hwhat ?_ (by simp [isCall]) (by simp [printed])
    intro w' hw'
    obtain rfl : w' = w := hw'.eq (by simp [received]; rfl)
    obtain ⟨-, hpos, hmax⟩ := hw'
    omega
  next hgood =>
  rcases Prog.path_ask.mp h₄ with ⟨-, h'⟩ | ⟨_ | _, es₅, rfl, h₅⟩
  · simp at h'
  · -- the sink refuses it
    obtain ⟨rfl, rfl⟩ := path_tail h₅
    refine ⟨fun hno ↦ absurd ?_ (hno w), fun w' hw' ↦ .inl ?_, ?_⟩
    · exact ⟨by simp [received], by omega, by omega⟩
    · obtain rfl : w' = w := hw'.eq (by simp [received]; rfl)
      simp [isCall]
    · have hwhat : newline ∉ str "Cannot store " ++ decBytes w.toNat ++ str " bytes" := by
        simp only [List.mem_append, not_or]
        exact ⟨⟨by decide, hdec⟩, by decide⟩
      simpa [printed] using endsOnce_errLine hfirst hwhat
  · obtain ⟨_, es₆, es₇, rfl, h₆, h₇⟩ := Prog.path_bind_ret.mp h₅
    obtain rfl := path_putBytes.mp h₆
    obtain ⟨bs, ok, committed, ls, last, hcalls, hdel, hjoined, hok, hr, hout, hls, hline, hend⟩ :=
      path_begun_calls rfl (fun _ ↦ rfl) h₇
    have hins : ins (⟨.drain, ()⟩ :: (puts (str "[READY-V2]\n") ++ (recvs (leBytes w) ++
        ⟨.begin w.toNat, true⟩ :: (puts (lenLine w.toNat) ++ es₇)))) = leBytes w ++ ins es₇ := by
      simp [received]
    refine ⟨fun hno ↦ absurd ?_ (hno w), fun w' hw' ↦ ?_, ?_⟩
    · exact ⟨by rw [hins]; exact List.prefix_append _ _, by omega, by omega⟩
    · obtain rfl : w' = w := hw'.eq hins
      refine .inr ⟨bs, ok, committed, by simp [isCall, hcalls], fun i b hb ↦ hdel.getElem? hb,
        ?_, ?_,
        hr⟩
      · rwa [hins, List.drop_left' (leBytes_length w')]
      · rw [hok, hins]
        simp only [List.append_assoc, List.append_cancel_left_eq]
    · have hall : ∀ l ∈ [str "[READY-V2]\n", lenLine w.toNat] ++ ls, IsStep l := by
        intro l hl
        rcases List.mem_append.mp hl with hl | hl
        · rcases List.mem_pair.mp hl with rfl | rfl
          · exact isStep_readyV2
          · exact isStep_lenLine hw
        · exact hls l hl
      have hends := endsOnce_of hall hline hend
      simpa [printed, hout] using hends

/-- One byte, stored and committed. -/
theorem uploadV2_drives_sink_one_byte : ∃ es,
    (uploadV2 1).Path es (.ret (some 1)) ∧ Driven 1 es (some 1) ∧
      calls es = [⟨.begin 1, true⟩, ⟨.block 0 [0x41#8], true⟩, ⟨.finish true, true⟩] := by
  have hloop : (recvBlocks 1 0 1 0xFFFFFFFF#32).Path (puts (readyLine 0) ++ (recvs [0x41#8] ++
      [⟨.block 0 [0x41#8], true⟩])) (.ret (some (crc32Update [0x41#8] 0xFFFFFFFF#32))) := by
    rw [recvBlocks_succ, if_neg (by decide)]
    exact Prog.path_bind_ret.mpr ⟨(), _, _, rfl, path_putBytes.mpr rfl,
      Prog.path_bind_ret.mpr ⟨.inr [0x41#8], _, _, rfl, .cons (.nil _), .cons (.nil _)⟩⟩
  have hend : (recvCrc 1 (crc32 [0x41#8])).Path (puts (str "[READY-CRC]\n") ++
      (recvs (leBytes (crc32 [0x41#8])) ++ ⟨.finish true, true⟩ ::
        (puts (okLine 1 (crc32 [0x41#8])) ++ []))) (.ret (some 1)) := by
    rw [recvCrc_eq]
    refine Prog.path_bind_ret.mpr ⟨(), _, _, rfl, path_putBytes.mpr rfl,
      Prog.path_bind_ret.mpr ⟨some (crc32 [0x41#8]), _, _, rfl, ?_, ?_⟩⟩
    · rw [← leWord_leBytes (crc32 [0x41#8])]
      exact .cons (.cons (.cons (.cons (.nil _))))
    · dsimp only
      rw [if_neg (by simp)]
      exact .cons (Prog.path_bind_ret.mpr ⟨(), _, _, rfl, path_putBytes.mpr rfl, .nil _⟩)
  have hpath : (uploadV2 1).Path (⟨.drain, ()⟩ :: (puts (str "[READY-V2]\n") ++
      (recvs (leBytes 1#32) ++ ⟨.begin 1, true⟩ :: (puts (lenLine 1) ++
        ((puts (readyLine 0) ++ (recvs [0x41#8] ++ [⟨.block 0 [0x41#8], true⟩])) ++
          (puts (str "[READY-CRC]\n") ++ (recvs (leBytes (crc32 [0x41#8])) ++
            ⟨.finish true, true⟩ :: (puts (okLine 1 (crc32 [0x41#8])) ++ []))))))))
      (.ret (some 1)) := by
    rw [uploadV2_eq]
    refine .cons (Prog.path_bind_ret.mpr ⟨(), _, _, rfl, path_putBytes.mpr rfl,
      Prog.path_bind_ret.mpr ⟨some 1#32, _, _, rfl, .cons (.cons (.cons (.cons (.nil _)))), ?_⟩⟩)
    dsimp only
    rw [if_neg (by decide)]
    exact .cons (Prog.path_bind_ret.mpr ⟨(), _, _, rfl, path_putBytes.mpr rfl,
      Prog.path_bind_ret.mpr ⟨_, _, _, rfl, hloop, hend⟩⟩)
  exact ⟨_, hpath, uploadV2_drives_sink hpath, by simp [isCall]⟩

end Dev

end Vux9k

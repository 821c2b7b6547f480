import Vux9k.Fat.Paths

/-!
# The path `pwd` shows

`Path` of `fw_common/src/shell.rs`: the working directory's path as it was typed, in a buffer of
fixed size, to which `join` applies the argument of a `cd`.  A path spells a list of components
(`Spells`); what `join` does to the text is to push and pop these.
-/

set_option autoImplicit false

namespace Vux9k

/-! ## The buffer -/

/-- `PATH_MAX`. -/
def pathMax : ℕ := 96

/-- `Path`, and whether its buffer has been indexed past its end, where the program stops. -/
structure Path : Type where
  buf : ℕ → Byte
  len : ℕ
  overrun : Bool

namespace Path

/-- `Path::root`. -/
def root : Path := ⟨fun i ↦ if i = 0 then 0x2F#8 else 0#8, 1, false⟩

/-- `as_bytes`. -/
def asBytes (p : Path) : List Byte := bytesOf p.buf p.len

/-- `p.buf[i..i + n].copy_from_slice(bs)`, for `n` bytes. -/
def put (p : Path) (i : ℕ) (bs : List Byte) : Path :=
  if i + bs.length ≤ pathMax then { p with buf := splice p.buf i bs }
    else { p with overrun := true }

/-- `rposition` of the last `/`, or 0. -/
def lastSlash (bs : List Byte) : ℕ := (bs.rdropWhile (· ≠ 0x2F#8)).length - 1

/-- A component in `join`. -/
def joinPart (p : Path) (part : List Byte) : Option Path :=
  if part = [] ∨ part = [0x2E#8] then some p
  else if part = [0x2E#8, 0x2E#8] then
    -- back to the separator before the last component (the root stays)
    some { p with len := max (lastSlash p.asBytes) 1 }
  else
    let sep := if 1 < p.len then 1 else 0
    if pathMax < p.len + sep + part.length then none
    else
      let p' := if sep = 1 then p.put p.len [0x2F#8] else p
      some { p'.put (p.len + sep) part with len := p.len + sep + part.length }

/-- `join`. -/
def join (p : Path) (arg : List Byte) : Option Path :=
  (arg.splitOnP isSeparator).foldlM joinPart (if isAbsolute arg then root else p)

end Path

/-! ## Components -/

/-- A component that names an entry. -/
structure IsName (part : List Byte) : Prop where
  ne_nil : part ≠ []
  ne_dot : part ≠ [0x2E#8]
  ne_dots : part ≠ [0x2E#8, 0x2E#8]
  plain : ∀ c ∈ part, isSeparator c = false

/-- The components, each after its separator. -/
def slashed (parts : List (List Byte)) : List Byte := parts.flatMap fun part ↦ 0x2F#8 :: part

/-- The path with these components. -/
def render (parts : List (List Byte)) : List Byte := if parts = [] then [0x2F#8] else slashed parts

/-- The path is in its buffer, and has these components. -/
structure Spells (p : Path) (parts : List (List Byte)) : Prop where
  bytes : p.asBytes = render parts
  fits : p.len ≤ pathMax
  inside : p.overrun = false

/-- What `join` does to the components. -/
def pushPart (parts : List (List Byte)) (part : List Byte) : List (List Byte) :=
  if part = [] ∨ part = [0x2E#8] then parts
  else if part = [0x2E#8, 0x2E#8] then parts.dropLast
  else parts ++ [part]

theorem slashed_append (parts : List (List Byte)) (part : List Byte) :
    slashed (parts ++ [part]) = slashed parts ++ 0x2F#8 :: part := by
  simp [slashed]

theorem render_append (parts : List (List Byte)) (part : List Byte) :
    render (parts ++ [part]) = slashed parts ++ 0x2F#8 :: part := by
  rw [render, if_neg (by simp), slashed_append]

theorem length_render_pos (parts : List (List Byte)) : 0 < (render parts).length := by
  induction parts using List.reverseRec with
  | nil => exact Nat.one_pos
  | append_singleton parts part ih =>
    rw [render_append]
    simp

theorem Spells.len_eq {p : Path} {parts : List (List Byte)} (h : Spells p parts) :
    p.len = (render parts).length := by
  rw [← h.bytes, Path.asBytes, length_bytesOf]

theorem spells_root : Spells .root [] := ⟨rfl, by decide, rfl⟩

/-! ## `..` -/

theorem lastSlash_append {bs part : List Byte} (h : ∀ c ∈ part, isSeparator c = false) :
    Path.lastSlash (bs ++ 0x2F#8 :: part) = bs.length := by
  have hdrop : (bs ++ 0x2F#8 :: part).rdropWhile (· ≠ 0x2F#8) = bs ++ [0x2F#8] := by
    induction part using List.reverseRec with
    | nil => exact List.rdropWhile_concat_neg _ _ _ (by simp)
    | append_singleton part c ih =>
      have hc : c ≠ 0x2F#8 := by
        rintro rfl
        exact absurd (h 0x2F#8 (by simp)) (by decide)
      rw [← List.cons_append, ← List.append_assoc,
        List.rdropWhile_concat_pos _ _ _ (by simpa using hc)]
      exact ih fun c' hc' ↦ h c' (List.mem_append_left _ hc')
  rw [Path.lastSlash, hdrop]
  simp

theorem asBytes_take {p : Path} {n : ℕ} (h : n ≤ p.len) :
    Path.asBytes { p with len := n } = p.asBytes.take n := by
  rw [Path.asBytes, Path.asBytes, take_bytesOf h]

/-- `..` takes the last component away; the root stays. -/
theorem Spells.pop {p : Path} {parts : List (List Byte)} (h : Spells p parts)
    (hparts : ∀ part ∈ parts, IsName part) :
    Spells { p with len := max (Path.lastSlash p.asBytes) 1 } parts.dropLast := by
  have hlen := h.len_eq
  have hfits := h.fits
  induction parts using List.reverseRec with
  | nil =>
    have hone : max (Path.lastSlash p.asBytes) 1 = 1 := by
      rw [h.bytes]
      rfl
    have hlen1 : p.len = 1 := hlen
    rw [hone]
    refine ⟨?_, Nat.le_of_ble_eq_true rfl, h.inside⟩
    rw [asBytes_take (by omega), h.bytes]
    rfl
  | append_singleton parts part _ =>
    have hslash : Path.lastSlash p.asBytes = (slashed parts).length := by
      rw [h.bytes, render_append]
      exact lastSlash_append (hparts part (by simp)).plain
    rw [render_append, List.length_append, List.length_cons] at hlen
    rw [List.dropLast_concat, hslash]
    refine ⟨?_, ?_, h.inside⟩
    · rw [asBytes_take (by omega), h.bytes, render_append]
      by_cases hnil : parts = []
      · subst hnil
        rfl
      · have hpos : 0 < (slashed parts).length := by
          have := length_render_pos parts
          rwa [render, if_neg hnil] at this
        rw [render, if_neg hnil, max_eq_left hpos, List.take_left']
        rfl
    · have hle : max (slashed parts).length 1 ≤ p.len := by omega
      exact hle.trans hfits

/-! ## A name -/

theorem bytesOf_splice (s : Sector) (i : ℕ) (bs : List Byte) :
    bytesOf (splice s i bs) (i + bs.length) = bytesOf s i ++ bs := by
  refine List.ext_getElem (by simp) fun j h₁ h₂ ↦ ?_
  simp only [bytesOf, List.getElem_map, List.getElem_range]
  rw [length_bytesOf] at h₁
  rw [splice]
  by_cases hj : i ≤ j
  · rw [if_pos ⟨hj, h₁⟩, List.getElem_append_right (by simpa using hj)]
    simp [List.getD_eq_getElem?_getD, List.getElem?_eq_getElem (show j - i < bs.length by omega)]
  · rw [if_neg (by omega), List.getElem_append_left (by simpa using hj)]
    simp

theorem Path.put_eq {p : Path} {i : ℕ} {bs : List Byte} (h : i + bs.length ≤ pathMax) :
    p.put i bs = { p with buf := splice p.buf i bs } :=
  if_pos h

/-- Bytes put right behind the path. -/
theorem asBytes_splice (p : Path) (bs : List Byte) (overrun : Bool) :
    Path.asBytes ⟨splice p.buf p.len bs, p.len + bs.length, overrun⟩ = p.asBytes ++ bs :=
  bytesOf_splice p.buf p.len bs

theorem one_lt_length_render {parts : List (List Byte)} (hparts : ∀ part ∈ parts, IsName part)
    (hnil : parts ≠ []) : 1 < (render parts).length := by
  obtain ⟨part, rest, rfl⟩ := List.exists_cons_of_ne_nil hnil
  have hpos := List.length_pos_iff.mpr (hparts part (by simp)).ne_nil
  rw [render, if_neg hnil, slashed, List.flatMap_cons, List.length_append, List.length_cons]
  omega

/-- A name is put behind a separator, if it fits. -/
theorem Spells.push {p q : Path} {parts : List (List Byte)} {part : List Byte} (h : Spells p parts)
    (hparts : ∀ part ∈ parts, IsName part) (hpart : IsName part)
    (hq : p.joinPart part = some q) : Spells q (parts ++ [part]) := by
  have hlen := h.len_eq
  rw [Path.joinPart, if_neg (not_or.mpr ⟨hpart.ne_nil, hpart.ne_dot⟩), if_neg hpart.ne_dots] at hq
  dsimp only at hq
  rcases eq_or_ne parts [] with rfl | hnil
  · -- the root's separator is there already
    have hone : p.len = 1 := hlen
    rw [if_neg (show ¬1 < p.len by omega), if_neg (show ¬(0 : ℕ) = 1 by decide), Nat.add_zero] at hq
    split at hq
    · cases hq
    rename_i hfits
    rw [not_lt] at hfits
    rw [Path.put_eq hfits] at hq
    cases hq
    refine ⟨(asBytes_splice p part _).trans ?_, hfits, h.inside⟩
    rw [h.bytes, render_append]
    rfl
  · have hmore : 1 < p.len := by
      rw [hlen]
      exact one_lt_length_render hparts hnil
    rw [if_pos hmore, if_pos rfl] at hq
    split at hq
    · cases hq
    rename_i hfits
    rw [not_lt] at hfits
    have hsep : p.len + [0x2F#8].length ≤ pathMax := (Nat.le_add_right _ _).trans hfits
    rw [Path.put_eq hsep, Path.put_eq hfits] at hq
    cases hq
    refine ⟨?_, hfits, h.inside⟩
    refine (asBytes_splice ⟨splice p.buf p.len [0x2F#8], p.len + 1, p.overrun⟩ part _).trans ?_
    refine (congrArg (· ++ part) (asBytes_splice p [0x2F#8] _)).trans ?_
    rw [h.bytes, render_append, render, if_neg hnil, List.append_assoc]
    rfl

/-! ## `join` -/

theorem pushPart_names {parts : List (List Byte)} {part : List Byte}
    (hparts : ∀ part ∈ parts, IsName part) (hpart : ∀ c ∈ part, isSeparator c = false) :
    ∀ part' ∈ pushPart parts part, IsName part' := by
  rw [pushPart]
  by_cases hdot : part = [] ∨ part = [0x2E#8]
  · rw [if_pos hdot]
    exact hparts
  rw [if_neg hdot]
  by_cases hdots : part = [0x2E#8, 0x2E#8]
  · rw [if_pos hdots]
    exact fun part' hmem ↦ hparts part' (List.dropLast_subset parts hmem)
  · rw [if_neg hdots]
    intro part' hmem
    rcases List.mem_append.mp hmem with hmem | hmem
    · exact hparts part' hmem
    · rw [List.mem_singleton.mp hmem]
      exact ⟨fun h ↦ hdot (.inl h), fun h ↦ hdot (.inr h), hdots, hpart⟩

/-- **A component of the argument pushes or pops a component of the path**, or is passed over. -/
theorem Spells.joinPart {p q : Path} {parts : List (List Byte)} {part : List Byte}
    (h : Spells p parts) (hparts : ∀ part ∈ parts, IsName part)
    (hpart : ∀ c ∈ part, isSeparator c = false) (hq : p.joinPart part = some q) :
    Spells q (pushPart parts part) := by
  rw [pushPart]
  by_cases hdot : part = [] ∨ part = [0x2E#8]
  · rw [Path.joinPart, if_pos hdot] at hq
    cases hq
    rwa [if_pos hdot]
  rw [if_neg hdot]
  by_cases hdots : part = [0x2E#8, 0x2E#8]
  · rw [Path.joinPart, if_neg hdot, if_pos hdots] at hq
    cases hq
    rw [if_pos hdots]
    exact h.pop hparts
  · rw [if_neg hdots]
    exact h.push hparts ⟨fun h ↦ hdot (.inl h), fun h ↦ hdot (.inr h), hdots, hpart⟩ hq

theorem Spells.foldlM {p q : Path} {parts args : List (List Byte)} (h : Spells p parts)
    (hparts : ∀ part ∈ parts, IsName part)
    (hargs : ∀ part ∈ args, ∀ c ∈ part, isSeparator c = false)
    (hq : args.foldlM Path.joinPart p = some q) :
    Spells q (args.foldl pushPart parts) ∧ ∀ part ∈ args.foldl pushPart parts, IsName part := by
  induction args generalizing p parts with
  | nil =>
    cases hq
    exact ⟨h, hparts⟩
  | cons part args ih =>
    rw [List.foldlM_cons, Option.bind_eq_bind, Option.bind_eq_some_iff] at hq
    obtain ⟨p', hp', hq⟩ := hq
    have hpart := hargs part (by simp)
    exact ih (h.joinPart hparts hpart hp') (pushPart_names hparts hpart)
      (fun part' hmem ↦ hargs part' (List.mem_cons_of_mem part hmem)) hq

/-- The components between the separators have none. -/
theorem not_separator_of_mem_splitOnP {path part : List Byte}
    (h : part ∈ path.splitOnP isSeparator) : ∀ c ∈ part, isSeparator c = false := by
  induction path generalizing part with
  | nil =>
    rw [List.splitOnP_nil, List.mem_singleton] at h
    simp [h]
  | cons x path ih =>
    rw [List.splitOnP_cons_eq_if_modifyHead] at h
    split at h
    · rcases List.mem_cons.mp h with rfl | h
      · simp
      · exact ih h
    · rename_i hx
      obtain ⟨head, tail, hsplit⟩ := List.exists_cons_of_ne_nil
        (List.splitOnP_ne_nil isSeparator path)
      rw [hsplit, List.modifyHead_cons] at h
      rcases List.mem_cons.mp h with rfl | h
      · intro c hc
        rcases List.mem_cons.mp hc with rfl | hc
        · exact Bool.eq_false_of_not_eq_true hx
        · exact ih (by rw [hsplit]; exact List.mem_cons_self) c hc
      · exact ih (by rw [hsplit]; exact List.mem_cons_of_mem head h)

/-- The components of the path after `cd arg`. -/
def joined (parts : List (List Byte)) (arg : List Byte) : List (List Byte) :=
  (arg.splitOnP isSeparator).foldl pushPart (if isAbsolute arg then [] else parts)

/-- **`join` spells what `cd` leads to.** -/
theorem Spells.join {p q : Path} {parts : List (List Byte)} {arg : List Byte} (h : Spells p parts)
    (hparts : ∀ part ∈ parts, IsName part) (hq : p.join arg = some q) :
    Spells q (joined parts arg) ∧ ∀ part ∈ joined parts arg, IsName part := by
  have hargs : ∀ part ∈ arg.splitOnP isSeparator, ∀ c ∈ part, isSeparator c = false :=
    fun _ ↦ not_separator_of_mem_splitOnP
  rw [Path.join] at hq
  rw [joined]
  by_cases habs : isAbsolute arg = true
  · rw [if_pos habs] at hq ⊢
    exact spells_root.foldlM (by simp) hargs hq
  · rw [if_neg habs] at hq ⊢
    exact h.foldlM hparts hargs hq

/-! ## Back to components -/

/-- A path has the components it spells. -/
theorem splitOnP_slashed {part : List Byte} {parts : List (List Byte)}
    (hpart : ∀ c ∈ part, isSeparator c = false)
    (hparts : ∀ part ∈ parts, ∀ c ∈ part, isSeparator c = false) :
    (part ++ slashed parts).splitOnP isSeparator = part :: parts := by
  induction parts generalizing part with
  | nil =>
    rw [slashed, List.flatMap_nil, List.append_nil]
    exact List.splitOnP_eq_singleton hpart
  | cons q parts ih =>
    rw [slashed, List.flatMap_cons, List.cons_append,
      List.splitOnP_append_cons_of_forall_mem hpart 0x2F#8 (by decide)]
    exact congrArg _ (ih (hparts q (by simp)) fun q' hq' ↦ hparts q' (List.mem_cons_of_mem q hq'))

theorem isAbsolute_render (parts : List (List Byte)) : isAbsolute (render parts) = true := by
  cases parts with
  | nil => decide
  | cons part parts =>
    rw [render, if_neg (by simp), slashed, List.flatMap_cons]
    rfl

/-- A path begins with a separator: before its components is an empty one. -/
theorem splitOnP_render {parts : List (List Byte)} (hparts : ∀ part ∈ parts, IsName part) :
    (render parts).splitOnP isSeparator = [] :: if parts = [] then [[]] else parts := by
  by_cases hnil : parts = []
  · subst hnil
    rw [if_pos rfl]
    exact @splitOnP_slashed [] [[]] (by simp) (by simp)
  · rw [if_neg hnil, render, if_neg hnil]
    exact @splitOnP_slashed [] parts (by simp) fun part hmem ↦ (hparts part hmem).plain

end Vux9k

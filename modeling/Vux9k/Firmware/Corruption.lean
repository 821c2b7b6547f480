import Vux9k.Firmware.BootPaths

/-!
# A damaged payload

The CRC of a v4 file is over the payload alone, fed in pieces that the header, the sectors and the
blocks of the transfer cut.  As the pieces are the payload (`flatten_payloadPieces`), burst
detection (`crc32_burst_ne`) carries over to every path that loads or installs a file: a file that
differs from an accepted one inside four consecutive bytes of the payload is refused.
-/

set_option autoImplicit false

namespace Vux9k

/-! ## Two files with one header -/

/-- The checks of the header do not see the payload but for its length. -/
theorem acceptHeader_append {header p p' : List Byte} (hheader : header.length = headerLen)
    (window : Window) (accept : ImageHeader → Except BootError Unit) (len : ℕ) :
    acceptHeader window accept len (header ++ p) =
      acceptHeader window accept len (header ++ p') := by
  have hparse : ∀ q, ImageHeader.parse (header ++ q) = ImageHeader.parse header := by
    intro q
    rw [← parse_take le_rfl (header ++ q), ← hheader, List.take_left]
  rw [acceptHeader, acceptHeader, hparse p, hparse p']

section

variable {window : Window} {accept : ImageHeader → Except BootError Unit}

/-- What is known of a file that is accepted. -/
theorem loadResult_ok {file : List Byte} {loads loads' : Loads} {h : ImageHeader}
    (hr : loadResult window accept file loads = (.ok h, loads')) :
    acceptHeader window accept file.length file = .ok h ∧
      (crc32 (file.drop headerLen)).toNat = h.crc32 := by
  rw [loadResult] at hr
  cases hacc : acceptHeader window accept file.length file with
  | error e =>
    rw [hacc] at hr
    simp at hr
  | ok h' =>
    rw [hacc] at hr
    by_cases hcrc : (crc32 (file.drop headerLen)).toNat = h'.crc32
    · simp only [if_pos hcrc, Prod.mk.injEq, Except.ok.injEq] at hr
      rw [← hr.1]
      exact ⟨rfl, hcrc⟩
    · simp [if_neg hcrc] at hr

theorem loadResult_crc {file : List Byte} {h : ImageHeader} (loads : Loads)
    (hacc : acceptHeader window accept file.length file = .ok h)
    (hcrc : (crc32 (file.drop headerLen)).toNat ≠ h.crc32) :
    loadResult window accept file loads = (.error .crc, loads ++ payloadLoads h file) := by
  rw [loadResult, hacc]
  simp only [if_neg hcrc]

/-- What the other file has: the same header, and not its CRC. -/
theorem acceptHeader_burst {header pre w w' post : List Byte} {h : ImageHeader}
    (hheader : header.length = headerLen) (hlen : w.length = w'.length) (h4 : w.length ≤ 4)
    (hne : w ≠ w')
    (hacc : acceptHeader window accept (header ++ (pre ++ w ++ post)).length
      (header ++ (pre ++ w ++ post)) = .ok h)
    (hcrc : (crc32 ((header ++ (pre ++ w ++ post)).drop headerLen)).toNat = h.crc32) :
    acceptHeader window accept (header ++ (pre ++ w' ++ post)).length
        (header ++ (pre ++ w' ++ post)) = .ok h ∧
      (crc32 ((header ++ (pre ++ w' ++ post)).drop headerLen)).toNat ≠ h.crc32 := by
  have hlength :
      (header ++ (pre ++ w ++ post)).length = (header ++ (pre ++ w' ++ post)).length := by
    simp only [List.length_append, hlen]
  refine ⟨?_, ?_⟩
  · rw [← hlength, acceptHeader_append hheader, hacc]
  · rw [← hheader, List.drop_left] at hcrc ⊢
    intro h'
    exact crc32_burst_ne hlen h4 hne (BitVec.eq_of_toNat_eq (hcrc.trans h'.symm))

end

/-! ## The paths -/

/-- A card file that `load_accepted` takes, with header `h`. -/
def CardAccepts (window : Window) (accept : ImageHeader → Except BootError Unit) (file : List Byte)
    (h : ImageHeader) : Prop :=
  ∃ (c : Card) (v : Volume) (entry : DirEntry) (loads loads' : Loads), v.toGeometry.Ok ∧ Clean c v ∧
    HasContents v.toGeometry c entry file ∧
      Reads c v (Vol.loadAccepted entry window loads accept) (.ok (.ok h, loads'))

theorem Reads.unique {α : Type} {c : Card} {v : Volume} {m : Vol α} {r r' : Except FatError α}
    (h : Reads c v m r) (h' : Reads c v m r') : r = r' := by
  obtain ⟨v₁, hrun, -⟩ := h
  obtain ⟨v₂, hrun', -⟩ := h'
  rw [hrun] at hrun'
  cases hrun'
  rfl

theorem CardAccepts.loadResult {window : Window} {accept : ImageHeader → Except BootError Unit}
    {file : List Byte} {h : ImageHeader} (hacc : CardAccepts window accept file h) :
    acceptHeader window accept file.length file = .ok h ∧
      (crc32 (file.drop headerLen)).toNat = h.crc32 := by
  obtain ⟨c, v, entry, loads, loads', hg, hv, hfile, hreads⟩ := hacc
  have hr := Reads.unique (reads_loadAccepted hg hv hfile window loads accept) hreads
  exact loadResult_ok (Except.ok.inj hr)

theorem ramBoot_accepted {file : List Byte} {h : ImageHeader} (hlen : file.length < 2 ^ 32)
    (hboot : (ramBoot file).bootHeader = some h) :
    acceptHeader stage2Window checkStage2 file.length file = .ok h ∧
      (crc32 (file.drop headerLen)).toNat = h.crc32 := by
  rw [(ramBoot_eq hlen).1] at hboot
  cases hr : loadResult stage2Window checkStage2 file [] with
  | mk r loads =>
    rw [hr] at hboot
    cases r with
    | error e => simp [Except.toOption] at hboot
    | ok h' =>
      obtain rfl : h' = h := by simpa [Except.toOption] using hboot
      exact loadResult_ok hr

/-- A file with a wrong CRC is not installed, whatever the window: the checks do not get past it. -/
theorem install_wrong_crc {file : List Byte} {h : ImageHeader} (window : Window)
    (hparse : ImageHeader.parse file = some h) (hcrc : h.crcMatches (file.drop headerLen) = false) :
    ∃ e, Vol.install window file = pure (.error e) := by
  cases hcheck : installCheck window file with
  | error e => exact ⟨e, by rw [Vol.install, hcheck]⟩
  | ok h' =>
    exfalso
    rw [installCheck, hparse] at hcheck
    by_cases hsize : h.size + headerLen = file.length
    · cases hc : h.check window with
      | error e => simp [hsize, hc, Except.mapError, bind, Except.bind] at hcheck
      | ok u =>
        cases ha : checkStage2 h with
        | error e => simp [hsize, hc, ha, Except.mapError, bind, Except.bind] at hcheck
        | ok u' => simp [hsize, hc, ha, hcrc, Except.mapError, bind, Except.bind] at hcheck
    · simp [hsize, bind, Except.bind] at hcheck

theorem parse_of_acceptHeader {window : Window} {accept : ImageHeader → Except BootError Unit}
    {len : ℕ} {b : List Byte} {h : ImageHeader} (hacc : acceptHeader window accept len b = .ok h) :
    ImageHeader.parse b = some h := by
  rw [acceptHeader] at hacc
  cases hparse : ImageHeader.parse b with
  | none => simp [hparse] at hacc
  | some h' =>
    simp only [hparse] at hacc
    split at hacc
    · cases hacc
    · cases hc : h'.check window with
      | error e => simp [hc, Except.mapError, bind, Except.bind] at hacc
      | ok u =>
        cases ha : accept h' with
        | error e => simp [hc, ha, Except.mapError, bind, Except.bind] at hacc
        | ok u' =>
          simp only [hc, ha, Except.mapError, bind, Except.bind, pure, Except.pure,
            Except.ok.injEq] at hacc
          rw [hacc]

/-- A file with a wrong CRC is not started over the UART. -/
theorem ramBoot_wrong_crc {file : List Byte} {h : ImageHeader} (hlen : file.length < 2 ^ 32)
    (hparse : ImageHeader.parse file = some h)
    (hcrc : (crc32 (file.drop headerLen)).toNat ≠ h.crc32) : (ramBoot file).bootHeader = none := by
  cases hboot : (ramBoot file).bootHeader with
  | none => rfl
  | some h' =>
    obtain ⟨hacc, hcrc'⟩ := ramBoot_accepted hlen hboot
    have hh : some h' = some h := (parse_of_acceptHeader hacc).symm.trans hparse
    exact absurd (Option.some.inj hh ▸ hcrc') hcrc

/-- **A short corruption of a payload is refused.**  Let a card file or a file sent over the UART be
accepted, and let another file have its header and differ from it inside four consecutive bytes of
the payload.  The loader that took the first refuses the second for its CRC; no RAM boot starts it
and no installer takes it, with the same error where the first would have been taken, and the
installer does so without a single access to the card. -/
theorem short_corruption_refused {header pre w w' post : List Byte}
    (hheader : header.length = headerLen) (hlen : w.length = w'.length) (h4 : w.length ≤ 4)
    (hne : w ≠ w') {window : Window} {accept : ImageHeader → Except BootError Unit}
    {h : ImageHeader}
    (hacc : CardAccepts window accept (header ++ (pre ++ w ++ post)) h ∨
      window = stage2Window ∧ accept = checkStage2 ∧
        (header ++ (pre ++ w ++ post)).length < 2 ^ 32 ∧
          (ramBoot (header ++ (pre ++ w ++ post))).bootHeader = some h) :
    (∀ (c : Card) (v : Volume) (entry : DirEntry) (loads : Loads), v.toGeometry.Ok → Clean c v →
      HasContents v.toGeometry c entry (header ++ (pre ++ w' ++ post)) →
        ∃ loads', Reads c v (Vol.loadAccepted entry window loads accept)
          (.ok (.error .crc, loads'))) ∧
      ((header ++ (pre ++ w' ++ post)).length < 2 ^ 32 →
        (ramBoot (header ++ (pre ++ w' ++ post))).bootHeader = none ∧
          (window = stage2Window → accept = checkStage2 →
            (ramBoot (header ++ (pre ++ w' ++ post))).error = some .crc)) ∧
      ImageHeader.parse (header ++ (pre ++ w' ++ post)) = some h ∧
      h.crcMatches (pre ++ w' ++ post) = false ∧
      (∀ window', ∃ e, Vol.install window' (header ++ (pre ++ w' ++ post)) = pure (.error e)) ∧
      (accept = checkStage2 →
        Vol.install window (header ++ (pre ++ w' ++ post)) = pure (.error .crc)) := by
  have hfirst : acceptHeader window accept (header ++ (pre ++ w ++ post)).length
      (header ++ (pre ++ w ++ post)) = .ok h ∧
        (crc32 ((header ++ (pre ++ w ++ post)).drop headerLen)).toNat = h.crc32 := by
    rcases hacc with hcard | ⟨rfl, rfl, hlt, hboot⟩
    · exact hcard.loadResult
    · exact ramBoot_accepted hlt hboot
  obtain ⟨hacc', hcrc'⟩ := acceptHeader_burst hheader hlen h4 hne hfirst.1 hfirst.2
  have hparse' := parse_of_acceptHeader hacc'
  have hmatch : h.crcMatches ((header ++ (pre ++ w' ++ post)).drop headerLen) = false := by
    rw [Bool.eq_false_iff, Ne, crcMatches_iff (acceptHeader_ok hacc').1]
    exact hcrc'
  refine ⟨?_, ?_, hparse', ?_, ?_, ?_⟩
  · intro c v entry loads hg hv hfile
    have hreads := reads_loadAccepted hg hv hfile window loads accept
    rw [loadResult_crc loads hacc' hcrc'] at hreads
    exact ⟨_, hreads⟩
  · intro hlt
    refine ⟨ramBoot_wrong_crc hlt hparse' hcrc', ?_⟩
    rintro rfl rfl
    exact (ramBoot_eq hlt).2.2 h hacc' hcrc'
  · rwa [← hheader, List.drop_left] at hmatch
  · exact fun window' ↦ install_wrong_crc window' hparse' hmatch
  · rintro rfl
    have hcheck : installCheck window (header ++ (pre ++ w' ++ post)) = .error .crc := by
      rw [installCheck_eq, ← loadResult_fst window _ [], loadResult_crc [] hacc' hcrc']
    rw [Vol.install, hcheck]

/-- The header of the smallest file, with the byte after it changed. -/
theorem short_corruption_refused_one_byte : ∃ h : ImageHeader,
    CardAccepts stage2Window checkStage2 oneByteFile h ∧ h.crcMatches [1#8] = true ∧
      h.crcMatches [2#8] = false ∧
      (ramBoot (oneByteFile.take headerLen ++ [2#8])).error = some .crc ∧
        Vol.install stage2Window (oneByteFile.take headerLen ++ [2#8]) = pure (.error .crc) := by
  have hfile : HasContents oneByteVolume.toGeometry oneByteCard oneByteEntry oneByteFile :=
    ⟨by decide, by decide, by decide, fun _ ↦ ⟨[], ⟨by decide, by decide⟩, by decide,
      by decide, by decide +kernel⟩⟩
  have hreads := reads_loadAccepted (c := oneByteCard) (v := oneByteVolume) ⟨by decide⟩
    ⟨rfl, fun h ↦ absurd rfl h⟩ hfile stage2Window [] checkStage2
  have hresult : (loadResult stage2Window checkStage2 oneByteFile []).1 =
      .ok ⟨1, 1, 0x80700000, 0x80700000, 0xA505DF1B, 10, List.replicate 32 0x20#8⟩ := by
    decide
  have hcard : CardAccepts stage2Window checkStage2 oneByteFile
      ⟨1, 1, 0x80700000, 0x80700000, 0xA505DF1B, 10, List.replicate 32 0x20#8⟩ := by
    rw [← Prod.mk.eta (p := loadResult stage2Window checkStage2 oneByteFile []), hresult] at hreads
    exact ⟨_, _, _, _, _, ⟨by decide⟩, ⟨rfl, fun h ↦ absurd rfl h⟩, hfile, hreads⟩
  have hsplit : oneByteFile = oneByteFile.take headerLen ++ ([] ++ [1#8] ++ []) := by
    decide
  obtain ⟨-, hram, -, hmatch, -, hinstall⟩ := @short_corruption_refused
    (oneByteFile.take headerLen) [] [1#8] [2#8] [] (by decide) (by decide) (by decide) (by decide)
    _ _ _ (.inl (hsplit ▸ hcard))
  exact ⟨_, hcard, by decide, hmatch, (hram (by decide)).2 rfl rfl, hinstall rfl⟩

end Vux9k

import Vux9k.Fat.Card
import Vux9k.Firmware.RamBoot
import Vux9k.Tools.SendUpload

/-!
# Three ways to the same image

A second stage comes over the UART into RAM (`RamBoot`), from the card (`load_accepted`) or is
installed on the card (`install`).  Each path has its own code for the same checks; all three accept
what `accepted` says, and the two that load do it with the same writes (`payloadLoads`).
-/

set_option autoImplicit false

namespace Vux9k

/-! ## The header is in the first piece -/

theorem parse_take {n : ℕ} (hn : headerLen ≤ n) (b : List Byte) :
    ImageHeader.parse (b.take n) = ImageHeader.parse b := by
  have hn' : 64 ≤ n := hn
  have hget : ∀ i < n, (b.take n).getD i 0#8 = b.getD i 0#8 := by
    intro i hi
    simp [List.getD_eq_getElem?_getD, hi]
  have h32 : ∀ i, i + 3 < n →
      le32 (fun j ↦ (b.take n).getD j 0#8) i = le32 (fun j ↦ b.getD j 0#8) i := by
    intro i hi
    simp only [le32, word, hget i (by omega), hget (i + 1) (by omega), hget (i + 2) (by omega),
      hget (i + 3) hi]
  have h16 : ∀ i, i + 1 < n →
      le16 (fun j ↦ (b.take n).getD j 0#8) i = le16 (fun j ↦ b.getD j 0#8) i := by
    intro i hi
    simp only [le16, hget i (by omega), hget (i + 1) hi]
  have hlen : (b.take n).length < headerLen ↔ b.length < headerLen := by
    rw [List.length_take]
    omega
  have hname : ((b.take n).drop 32).take 32 = (b.drop 32).take 32 := by
    rw [List.drop_take, List.take_take, min_eq_left (by omega)]
  simp only [ImageHeader.parse, h32 0 (by omega), h32 8 (by omega), h32 12 (by omega),
    h32 16 (by omega), h32 20 (by omega), h32 24 (by omega), h32 28 (by omega), h16 4 (by omega),
    h16 6 (by omega), hlen, hname]

theorem acceptHeader_take (window : Window) (accept : ImageHeader → Except BootError Unit) (len : ℕ)
    (b : List Byte) :
    acceptHeader window accept len (b.take sectorLen) = acceptHeader window accept len b := by
  rw [acceptHeader, parse_take (by decide), ← acceptHeader]

/-! ## What is written where -/

/-- Pieces one after the other from `addr` on. -/
def loadsAt : ℕ → List (List Byte) → Loads
  | _, [] => []
  | addr, p :: ps => (addr, p) :: loadsAt (addr + p.length) ps

/-- The payload of a file, in the pieces in which it arrives. -/
def payloadPieces (file : List Byte) : List (List Byte) :=
  (file.take sectorLen).drop headerLen :: chunks sectorLen (file.drop sectorLen)

/-- The writes that load a file with header `h`. -/
def payloadLoads (h : ImageHeader) (file : List Byte) : Loads :=
  loadsAt h.loadAddr (payloadPieces file)

/-- The writes cover `data` from `addr` on, in order. -/
def Covers : ℕ → List Byte → Loads → Prop
  | _, data, [] => data = []
  | addr, data, (a, bs) :: ls =>
    a = addr ∧ bs = data.take bs.length ∧ Covers (addr + bs.length) (data.drop bs.length) ls

theorem covers_loadsAt (addr : ℕ) (ps : List (List Byte)) :
    Covers addr ps.flatten (loadsAt addr ps) := by
  induction ps generalizing addr with
  | nil => rfl
  | cons p ps ih =>
    refine ⟨rfl, by simp, ?_⟩
    rw [List.flatten_cons, List.drop_left]
    exact ih _

theorem flatten_payloadPieces (file : List Byte) :
    (payloadPieces file).flatten = file.drop headerLen := by
  rw [payloadPieces, List.flatten_cons, flatten_chunks (by decide)]
  rcases Nat.lt_or_ge file.length sectorLen with hlt | hge
  · rw [List.drop_of_length_le hlt.le, List.take_of_length_le hlt.le, List.append_nil]
  · conv_rhs => rw [← List.take_append_drop sectorLen file]
    rw [List.drop_append_of_le_length]
    rw [List.length_take, min_eq_left hge]
    decide

theorem loadsAt_bounds {addr : ℕ} {ps : List (List Byte)} {a : ℕ} {bs : List Byte}
    (h : (a, bs) ∈ loadsAt addr ps) : addr ≤ a ∧ a + bs.length ≤ addr + ps.flatten.length := by
  induction ps generalizing addr with
  | nil => simp [loadsAt] at h
  | cons p ps ih =>
    rw [List.flatten_cons, List.length_append]
    rcases List.mem_cons.mp h with heq | hmem
    · cases heq
      omega
    · have := ih hmem
      omega

/-! ## From the card -/

section

variable {window : Window} {accept : ImageHeader → Except BootError Unit} {size : ℕ}

/-- Once the header is refused, nothing is loaded. -/
theorem foldl_loadSector_error {e : BootError} {st : Load} (hst : st.header = some (.error e))
    (ps : List (List Byte)) : ps.foldl (loadSector window accept size) st = st := by
  induction ps with
  | nil => rfl
  | cons p ps ih =>
    have hstep : loadSector window accept size st p = st := by
      obtain ⟨header, crc, offset, loads⟩ := st
      obtain rfl : header = some (.error e) := hst
      rfl
    rw [List.foldl_cons, hstep, ih]

/-- Once it is accepted, everything is. -/
theorem foldl_loadSector_ok {h : ImageHeader} {st : Load} (hst : st.header = some (.ok h))
    (ps : List (List Byte)) : ps.foldl (loadSector window accept size) st =
      { header := some (.ok h)
        crc := crc32Update ps.flatten st.crc
        offset := st.offset + ps.flatten.length
        loads := st.loads ++ loadsAt (h.loadAddr + st.offset) ps } := by
  induction ps generalizing st with
  | nil => simp [loadsAt, ← hst]
  | cons p ps ih =>
    have hstep : loadSector window accept size st p =
        { header := some (.ok h)
          crc := crc32Update p st.crc
          offset := st.offset + p.length
          loads := st.loads ++ [(h.loadAddr + st.offset, p)] } := by
      simp [loadSector, hst]
    rw [List.foldl_cons, hstep, ih rfl]
    simp [loadsAt, crc32Update_append, Nat.add_assoc]

/-- What is made of the pieces of a file: the first has the header. -/
theorem foldl_loadSector (p : List Byte) (ps : List (List Byte)) (crc : Word) (loads : Loads) :
    (p :: ps).foldl (loadSector window accept size) ⟨none, crc, 0, loads⟩ =
      match acceptHeader window accept size p with
      | .error e => ⟨some (.error e), crc, 0, loads⟩
      | .ok h =>
        { header := some (.ok h)
          crc := crc32Update (p.drop headerLen :: ps).flatten crc
          offset := (p.drop headerLen :: ps).flatten.length
          loads := loads ++ loadsAt h.loadAddr (p.drop headerLen :: ps) } := by
  have hmin : p.drop (min headerLen p.length) = p.drop headerLen := by
    rcases Nat.le_total headerLen p.length with hle | hle
    · rw [min_eq_left hle]
    · rw [min_eq_right hle, List.drop_of_length_le hle, List.drop_length]
  rw [List.foldl_cons]
  cases hacc : acceptHeader window accept size p with
  | error e =>
    have hstep : loadSector window accept size ⟨none, crc, 0, loads⟩ p =
        ⟨some (.error e), crc, 0, loads⟩ := by
      simp [loadSector, hacc]
    rw [hstep, foldl_loadSector_error rfl]
  | ok h =>
    have hstep : loadSector window accept size ⟨none, crc, 0, loads⟩ p =
        ⟨some (.ok h), crc32Update (p.drop headerLen) crc, (p.drop headerLen).length,
          loads ++ [(h.loadAddr, p.drop headerLen)]⟩ := by
      simp only [loadSector, Option.getD_none, Option.isNone_none, if_true, hacc, hmin,
        Nat.zero_add, Nat.add_zero]
    rw [hstep, foldl_loadSector_ok rfl]
    simp [loadsAt, crc32Update_append]

end

/-- What `load_accepted` does with a file of these contents. -/
def loadResult (window : Window) (accept : ImageHeader → Except BootError Unit) (file : List Byte)
    (loads : Loads) : Except BootError ImageHeader × Loads :=
  match acceptHeader window accept file.length file with
  | .error e => (.error e, loads)
  | .ok h => (if (crc32 (file.drop headerLen)).toNat = h.crc32 then .ok h else .error .crc,
      loads ++ payloadLoads h file)

theorem acceptHeader_nil (window : Window) (accept : ImageHeader → Except BootError Unit)
    (len : ℕ) : acceptHeader window accept len [] = .error .notV4 := rfl

/-- **`load_accepted` on a card file.** -/
theorem reads_loadAccepted {c : Card} {v : Volume} (hg : v.toGeometry.Ok) (hv : Clean c v)
    {entry : DirEntry} {file : List Byte} (hfile : HasContents v.toGeometry c entry file)
    (window : Window) (loads : Loads) (accept : ImageHeader → Except BootError Unit) :
    Reads c v (Vol.loadAccepted entry window loads accept)
      (.ok (loadResult window accept file loads)) := by
  refine (reads_forEachSector hg hv hfile _).bind fun v' hv' ↦ ?_
  rw [hfile.size]
  dsimp only
  unfold loadResult
  by_cases hne : file = []
  · subst hne
    rw [acceptHeader_nil]
    exact reads_pure hv'.clean _
  · rw [chunks_of_ne_nil (by decide) hne, foldl_loadSector, acceptHeader_take]
    cases acceptHeader window accept file.length file with
    | error e => exact reads_pure hv'.clean _
    | ok h =>
      have hresult : (if (crc32Update (file.drop headerLen) 0xFFFFFFFF#32 ^^^
          0xFFFFFFFF#32).toNat ≠ h.crc32 then Except.error BootError.crc else .ok h) =
          if (crc32 (file.drop headerLen)).toNat = h.crc32 then .ok h else .error .crc := by
        rw [ite_not]
        rfl
      dsimp only
      rw [← payloadPieces, flatten_payloadPieces, ← payloadLoads, ← hresult]
      exact reads_pure hv'.clean _

/-! ## Over the UART -/

namespace Dev

variable {α σ : Type} {sink : UploadSink σ} {s : σ} {input : List Byte}

theorem serve_putBytes (l : List Byte) (f : Unit → Dev α) :
    serve sink (putBytes l >>= f) input s = serve sink (f ()) input s := by
  induction l with
  | nil => rfl
  | cons b l ih => exact ih

theorem serve_recvU32 (w : Word) (f : Option Word → Dev α) :
    serve sink (recvU32 >>= f) (leBytes w ++ input) s = serve sink (f (some w)) input s := by
  have h := leWord_leBytes w
  conv_rhs => rw [← h]
  rfl

theorem serve_recvBlock {bs : List Byte} {n i : ℕ} {buf : List Byte}
    {f : ℕ ⊕ List Byte → Dev α} (h : bs.length = n) :
    serve sink (recvBlock n i buf >>= f) (bs ++ input) s =
      serve sink (f (.inr (buf ++ bs))) input s := by
  induction bs generalizing n i buf with
  | nil =>
    obtain rfl : n = 0 := h.symm
    rw [List.append_nil]
    rfl
  | cons b bs ih =>
    obtain rfl : n = bs.length + 1 := h.symm
    rw [List.append_cons]
    exact ih rfl

theorem serve_fail (what : List Byte) (f : Option Word → Dev (Option ℕ)) :
    serve sink (fail what >>= f) input s = serve sink (f none) input (sink.finish s false).2 := by
  rw [fail, Prog.bind_assoc, serve_putBytes]
  rfl

/-- The blocks, until the sink refuses one. -/
def feedBlocks (sink : UploadSink σ) : ℕ → List (List Byte) → σ → Bool × σ
  | _, [], s => (true, s)
  | index, b :: bs, s =>
    if (sink.block s index b).1 then feedBlocks sink (index + 1) bs (sink.block s index b).2
    else (false, (sink.finish (sink.block s index b).2 false).2)

theorem serve_recvBlocks {fuel index : ℕ} {crc : Word} {data : List Byte}
    {f : Option Word → Dev (Option ℕ)} (hfuel : data.length ≤ fuel)
    (hnone : f none = .ret none) :
    serve sink (recvBlocks fuel index data.length crc >>= f) (data ++ input) s =
      match feedBlocks sink index (chunks blockLen data) s with
      | (true, s') => serve sink (f (some (crc32Update data crc))) input s'
      | (false, s') => (none, s') := by
  have hpos : 0 < blockLen := by decide
  induction data using chunks_induction hpos generalizing fuel index crc s with
  | nil =>
    cases fuel with
    | zero => rfl
    | succ fuel =>
      rw [recvBlocks_succ, List.length_nil, if_pos rfl]
      rfl
  | step data hne ih =>
    have hlen : 0 < data.length := List.length_pos_iff.mpr hne
    cases fuel with
    | zero => omega
    | succ fuel =>
      have htake : (data.take blockLen).length = blockBytes data.length := by
        rw [List.length_take]
        unfold blockBytes
        split <;> omega
      have hrest : data.length - blockBytes data.length = (data.drop blockLen).length := by
        rw [List.length_drop, ← htake, List.length_take]
        omega
      rw [recvBlocks_succ, if_neg (by omega), Prog.bind_assoc, serve_putBytes, Prog.bind_assoc,
        chunks_of_ne_nil hpos hne, feedBlocks]
      have hin : data ++ input = data.take blockLen ++ (data.drop blockLen ++ input) := by
        rw [← List.append_assoc, List.take_append_drop]
      rw [hin, serve_recvBlock htake, List.nil_append]
      dsimp only
      rw [Prog.ask_bind, serve]
      cases (sink.block s index (data.take blockLen)).1 with
      | true =>
        rw [if_pos rfl]
        dsimp only
        rw [hrest, ih (by simp; omega), ← crc32Update_append, List.take_append_drop]
      | false =>
        rw [if_neg (by simp)]
        dsimp only
        rw [serve_fail, hnone, serve]

/-- What the exchange does with a file whose bytes all arrive. -/
def uploadResult (sink : UploadSink σ) (maxLen : ℕ) (file : List Byte) (s : σ) : Option ℕ × σ :=
  if file.length = 0 ∨ maxLen < file.length then (none, s)
  else
    match sink.begin s file.length with
    | (false, s) => (none, s)
    | (true, s) =>
      match feedBlocks sink 0 (chunks blockLen file) s with
      | (false, s) => (none, s)
      | (true, s) =>
        match sink.finish s true with
        | (false, s) => (none, s)
        | (true, s) => (some file.length, s)

/-- **`upload_v2` with a lossless host** hands the file to the sink in blocks. -/
theorem serve_uploadV2 {file : List Byte} (h : file.length < 2 ^ 32) (maxLen : ℕ) :
    serve sink (uploadV2 maxLen) (Host.stream file (crc32 file)) s =
      uploadResult sink maxLen file s := by
  have hw : (BitVec.ofNat 32 file.length).toNat = file.length := by
    rw [BitVec.toNat_ofNat, Nat.mod_eq_of_lt h]
  rw [uploadV2_eq, serve, serve_putBytes, Host.stream, List.append_assoc, serve_recvU32]
  dsimp only
  rw [hw]
  unfold uploadResult
  split
  · rw [serve_putBytes, serve]
  · rw [serve]
    cases hb : sink.begin s file.length with
    | mk ok s₁ =>
      cases ok with
      | false =>
        dsimp only
        rw [serve_putBytes, serve]
      | true =>
        dsimp only
        rw [serve_putBytes, serve_recvBlocks le_rfl rfl]
        cases hf : feedBlocks sink 0 (chunks blockLen file) s₁ with
        | mk ok s₂ =>
          cases ok with
          | false => rfl
          | true =>
            dsimp only
            have hin : ∀ f : Option Word → Dev (Option ℕ),
                serve sink (recvU32 >>= f) (leBytes (crc32 file)) s₂ =
                  serve sink (f (some (crc32 file))) [] s₂ := by
              intro f
              rw [← List.append_nil (leBytes (crc32 file)), serve_recvU32]
            rw [recvCrc_eq, serve_putBytes, hin]
            dsimp only
            rw [if_neg (by simp [crc32]), serve]
            cases hfin : sink.finish s₂ true with
            | mk ok s₃ =>
              cases ok with
              | false =>
                change serve sink (putBytes _ >>= fun _ ↦ .ret none) _ _ = _
                rw [serve_putBytes, serve]
              | true =>
                change serve sink (putBytes _ >>= fun _ ↦ .ret (some file.length)) _ _ = _
                rw [serve_putBytes, serve]

end Dev

/-! ## The RAM boot's sink -/

theorem acceptHeader_ok {window : Window} {accept : ImageHeader → Except BootError Unit} {len : ℕ}
    {b : List Byte} {h : ImageHeader} (hok : acceptHeader window accept len b = .ok h) :
    h.size + headerLen = len ∧ h.check window = .ok () ∧ accept h = .ok () := by
  unfold acceptHeader at hok
  split at hok
  · simp at hok
  · split at hok
    · simp at hok
    next h' _ hsize =>
      cases hc : h'.check window with
      | error e => simp [hc, Except.mapError, bind, Except.bind] at hok
      | ok u =>
        cases ha : accept h' with
        | error e => simp [hc, ha, Except.mapError, bind, Except.bind] at hok
        | ok u' =>
          obtain rfl : h' = h := by
            simpa [hc, ha, Except.mapError, bind, Except.bind, pure, Except.pure] using hok
          exact ⟨not_not.mp hsize, hc, ha⟩

/-- A header that passes puts the payload inside the window. -/
theorem check_ok {h : ImageHeader} {window : Window} (hok : h.check window = .ok ()) :
    0 < h.size ∧ h.size ≤ window.len ∧ window.base ≤ h.loadAddr ∧
      h.loadAddr + h.size ≤ window.base + window.len := by
  unfold ImageHeader.check at hok
  split at hok
  · simp at hok
  split at hok
  · simp at hok
  split at hok
  · simp at hok
  omega

namespace RamBoot

theorem block_zero (r : RamBoot) (data : List Byte) :
    r.block 0 data = match acceptHeader r.window checkStage2 r.len data with
      | .error e => r.fail e
      | .ok h => store { r with header := some h, addr := h.loadAddr } (data.drop headerLen) := by
  unfold block acceptHeader
  rw [if_pos rfl]
  cases ImageHeader.parse data with
  | none => rfl
  | some h =>
    dsimp only
    split
    · rfl
    · cases h.check r.window with
      | error e => rfl
      | ok u =>
        cases checkStage2 h with
        | error e => simp [Except.mapError, bind, Except.bind]
        | ok u' => simp [Except.mapError, bind, Except.bind, pure, Except.pure]

theorem finish_true {r : RamBoot} {h : ImageHeader} (hh : r.header = some h) :
    r.finish true = if (r.crc ^^^ 0xFFFFFFFF#32).toNat = h.crc32 then
      (true, { r with done := true })
      else r.fail .crc := by
  unfold finish
  rw [hh]
  rfl

/-- Blocks after the first are stored. -/
theorem feedBlocks_rest {index : ℕ} (hi : index ≠ 0) (r : RamBoot) (ps : List (List Byte)) :
    Dev.feedBlocks sink index ps r = (true, { r with
      writes := r.writes ++ loadsAt r.addr ps
      crc := crc32Update ps.flatten r.crc
      addr := r.addr + ps.flatten.length }) := by
  induction ps generalizing index r with
  | nil => simp [Dev.feedBlocks, loadsAt]
  | cons p ps ih =>
    have hblock : sink.block r index p = store r p := if_neg hi
    have hok : (store r p).1 = true := rfl
    rw [Dev.feedBlocks, hblock, if_pos hok, ih (by omega)]
    simp [store, loadsAt, crc32Update_append, Nat.add_assoc]

/-- All blocks: the header decides. -/
theorem feedBlocks_file {file : List Byte} (hne : file ≠ []) {r : RamBoot}
    (hlen : r.len = file.length) :
    Dev.feedBlocks sink 0 (chunks Dev.blockLen file) r =
      match acceptHeader r.window checkStage2 file.length file with
      | .error e => (false, { r with error := some e })
      | .ok h => (true, { r with
          header := some h
          writes := r.writes ++ payloadLoads h file
          crc := crc32Update (file.drop headerLen) r.crc
          addr := h.loadAddr + (file.drop headerLen).length }) := by
  have hblock : sink.block r 0 (file.take Dev.blockLen) = r.block 0 (file.take sectorLen) := rfl
  rw [chunks_of_ne_nil (by decide) hne, Dev.feedBlocks, hblock, block_zero, acceptHeader_take,
    ← hlen]
  cases acceptHeader r.window checkStage2 r.len file with
  | error e => rfl
  | ok h =>
    dsimp only
    have hok : (store { r with header := some h, addr := h.loadAddr }
        ((file.take sectorLen).drop headerLen)).1 = true := rfl
    rw [if_pos hok, feedBlocks_rest (by omega), ← flatten_payloadPieces file, payloadPieces,
      payloadLoads, payloadPieces]
    simp [store, loadsAt, crc32Update_append, Nat.add_assoc, Dev.blockLen, sectorLen]

end RamBoot

/-- A RAM boot of `file`: the sink after the transfer from a lossless host. -/
def ramBoot (file : List Byte) : RamBoot :=
  (Dev.serve RamBoot.sink (Dev.uploadV2 ramBootMax) (Host.stream file (crc32 file))
    (RamBoot.new stage2Window)).2

/-- **What a RAM boot does with a file.** -/
theorem ramBoot_eq {file : List Byte} (hlen : file.length < 2 ^ 32) :
    (ramBoot file).bootHeader = (loadResult stage2Window checkStage2 file []).1.toOption ∧
      (ramBoot file).writes = (loadResult stage2Window checkStage2 file []).2 ∧
      ∀ h, acceptHeader stage2Window checkStage2 file.length file = .ok h →
        (crc32 (file.drop headerLen)).toNat ≠ h.crc32 → (ramBoot file).error = some .crc := by
  rw [ramBoot, Dev.serve_uploadV2 hlen]
  unfold loadResult Dev.uploadResult
  cases hacc : acceptHeader stage2Window checkStage2 file.length file with
  | error e =>
    split
    · exact ⟨rfl, rfl, by simp⟩
    next hfits =>
    have hne : file ≠ [] := fun h0 ↦ hfits (.inl (by simp [h0]))
    by_cases hshort : file.length ≤ headerLen
    · have hbegin : RamBoot.sink.begin (RamBoot.new stage2Window) file.length =
          (false, { RamBoot.new stage2Window with len := file.length, error := some .notV4 }) :=
        if_pos hshort
      rw [hbegin]
      exact ⟨rfl, rfl, by simp⟩
    · have hbegin : RamBoot.sink.begin (RamBoot.new stage2Window) file.length =
          (true, { RamBoot.new stage2Window with len := file.length }) := if_neg hshort
      rw [hbegin]
      dsimp only
      rw [RamBoot.feedBlocks_file hne rfl, show (RamBoot.new stage2Window).window = stage2Window
        from rfl, hacc]
      exact ⟨rfl, rfl, by simp⟩
  | ok h =>
    obtain ⟨hsize, hcheck, -⟩ := acceptHeader_ok hacc
    obtain ⟨hpos, hmax, -, -⟩ := check_ok hcheck
    have hne : file ≠ [] := by
      rintro rfl
      simp [headerLen] at hsize
    have hbegin : RamBoot.sink.begin (RamBoot.new stage2Window) file.length =
        (true, { RamBoot.new stage2Window with len := file.length }) := if_neg (by omega)
    rw [if_neg (by
      have : ramBootMax = headerLen + stage2Window.len := rfl
      have : headerLen = 64 := rfl
      omega), hbegin]
    dsimp only
    rw [RamBoot.feedBlocks_file hne rfl, show (RamBoot.new stage2Window).window = stage2Window
      from rfl, hacc]
    dsimp only
    have hfin : ∀ r : RamBoot, r.header = some h →
        r.crc = crc32Update (file.drop headerLen) 0xFFFFFFFF#32 →
        RamBoot.sink.finish r true =
          if (crc32 (file.drop headerLen)).toNat = h.crc32 then (true, { r with done := true })
          else r.fail .crc := by
      intro r hh hc
      change RamBoot.finish r true = _
      rw [RamBoot.finish_true hh, hc]
      rfl
    rw [hfin _ rfl rfl]
    by_cases hcrc : (crc32 (file.drop headerLen)).toNat = h.crc32
    · rw [if_pos hcrc, if_pos hcrc]
      refine ⟨rfl, rfl, ?_⟩
      rintro _ ⟨⟩ hne
      exact absurd hcrc hne
    · rw [if_neg hcrc, if_neg hcrc]
      exact ⟨rfl, rfl, fun _ _ _ ↦ rfl⟩

/-! ## The three paths -/

theorem crcMatches_iff {h : ImageHeader} {file : List Byte}
    (hsize : h.size + headerLen = file.length) :
    h.crcMatches (file.drop headerLen) = true ↔ (crc32 (file.drop headerLen)).toNat = h.crc32 := by
  have hlen : (file.drop headerLen).length = h.size := by
    rw [List.length_drop]
    omega
  unfold ImageHeader.crcMatches
  rw [hlen, Bool.and_eq_true, decide_eq_true_iff, decide_eq_true_iff]
  exact and_iff_right rfl

/-- The card's path accepts what is meant to be. -/
theorem loadResult_fst (window : Window) (file : List Byte) (loads : Loads) :
    (loadResult window checkStage2 file loads).1 = accepted window file := by
  unfold loadResult accepted
  cases hacc : acceptHeader window checkStage2 file.length file with
  | error e => rfl
  | ok h =>
    have hcrc := crcMatches_iff (acceptHeader_ok hacc).1
    simp only [bind, Except.bind, hcrc]
    rfl

/-- So does the installer, before it touches the card. -/
theorem installCheck_eq (window : Window) (file : List Byte) :
    installCheck window file = accepted window file := by
  unfold installCheck accepted acceptHeader
  cases ImageHeader.parse file with
  | none => rfl
  | some h =>
    by_cases hsize : h.size + headerLen = file.length
    · cases hc : h.check window with
      | error e => simp [hsize, hc, Except.mapError, bind, Except.bind]
      | ok u =>
        cases ha : checkStage2 h with
        | error e => simp [hsize, hc, ha, Except.mapError, bind, Except.bind]
        | ok u' =>
          cases hcrc : h.crcMatches (file.drop headerLen) <;>
            simp [hsize, hc, ha, hcrc, Except.mapError, bind, Except.bind, pure, Except.pure]
    · simp [hsize, bind, Except.bind]

/-- The writes put the payload where the header says, inside the window and below `2 ^ 32`. -/
theorem payloadLoads_inside {file : List Byte} {h : ImageHeader}
    (hacc : acceptHeader stage2Window checkStage2 file.length file = .ok h) :
    (file.drop headerLen).length = h.size ∧ Covers h.loadAddr (file.drop headerLen)
      (payloadLoads h file) ∧ ∀ a bs, (a, bs) ∈ payloadLoads h file →
        stage2Window.base ≤ a ∧ a + bs.length ≤ h.loadAddr + h.size ∧
          a + bs.length ≤ stage2Window.base + stage2Window.len ∧ a + bs.length < 2 ^ 32 := by
  obtain ⟨hsize, hcheck, -⟩ := acceptHeader_ok hacc
  obtain ⟨-, -, hbase, hend⟩ := check_ok hcheck
  have hlen : (file.drop headerLen).length = h.size := by
    rw [List.length_drop]
    omega
  refine ⟨hlen, ?_, ?_⟩
  · rw [← flatten_payloadPieces]
    exact covers_loadsAt _ _
  · intro a bs hmem
    obtain ⟨hlow, hhigh⟩ := loadsAt_bounds hmem
    rw [flatten_payloadPieces, hlen] at hhigh
    have hwindow : stage2Window.base + stage2Window.len < 2 ^ 32 := by decide
    exact ⟨hbase.trans hlow, hhigh, hhigh.trans hend, by omega⟩

/-- **RAM boot, card boot and installer accept the same files.**  A file sent over the UART is
started with header `h` just when it is from the card, and just when the installer would take it;
then both loaders have made the same writes, which put the payload in the window.  A file refused
for its header is not loaded at all. -/
theorem boot_paths_agree {file : List Byte} (hlen : file.length < 2 ^ 32) {c : Card} {v : Volume}
    (hg : v.toGeometry.Ok) (hv : Clean c v) {entry : DirEntry}
    (hfile : HasContents v.toGeometry c entry file) :
    ∃ r loads, Reads c v (Vol.loadAccepted entry stage2Window [] checkStage2) (.ok (r, loads)) ∧
      (∀ h, (ramBoot file).bootHeader = some h ↔ r = .ok h) ∧
      (∀ h, installCheck stage2Window file = .ok h ↔ r = .ok h) ∧
      (∀ e, installCheck stage2Window file = .error e →
        Reads c v (Vol.install stage2Window file) (.ok (.error e))) ∧
      (∀ h, r = .ok h → (ramBoot file).writes = loads ∧ (file.drop headerLen).length = h.size ∧
        Covers h.loadAddr (file.drop headerLen) loads ∧ ∀ a bs, (a, bs) ∈ loads →
          stage2Window.base ≤ a ∧ a + bs.length ≤ h.loadAddr + h.size ∧
            a + bs.length ≤ stage2Window.base + stage2Window.len ∧ a + bs.length < 2 ^ 32) ∧
      (∀ e, r = .error e → e ≠ .crc → (ramBoot file).writes = [] ∧ loads = []) := by
  obtain ⟨hheader, hwrites, -⟩ := ramBoot_eq hlen
  have hfst := loadResult_fst stage2Window file []
  refine ⟨(loadResult stage2Window checkStage2 file []).1,
    (loadResult stage2Window checkStage2 file []).2,
    reads_loadAccepted hg hv hfile stage2Window [] checkStage2, ?_, ?_, ?_, ?_, ?_⟩
  · intro h
    rw [hheader]
    cases (loadResult stage2Window checkStage2 file []).1 <;> simp [Except.toOption]
  · intro h
    rw [installCheck_eq, hfst]
  · intro e he
    unfold Vol.install
    rw [he]
    exact reads_pure hv _
  · intro h hr
    rw [hwrites]
    unfold loadResult at hr ⊢
    cases hacc : acceptHeader stage2Window checkStage2 file.length file with
    | error e => simp [hacc] at hr
    | ok h' =>
      have hh : h' = h := by
        rw [hacc] at hr
        dsimp only at hr
        split at hr
        · exact Except.ok.inj hr
        · cases hr
      subst hh
      dsimp only
      rw [List.nil_append]
      exact ⟨rfl, payloadLoads_inside hacc⟩
  · intro e hr hcrc
    rw [hwrites]
    unfold loadResult at hr ⊢
    cases hacc : acceptHeader stage2Window checkStage2 file.length file with
    | error e' => exact ⟨rfl, rfl⟩
    | ok h =>
      rw [hacc] at hr
      dsimp only at hr
      split at hr
      · cases hr
      · exact absurd (Except.error.inj hr).symm hcrc

/-- The smallest file that boots: a header and one byte. -/
def oneByteFile : List Byte :=
  [0x39#8, 0x58#8, 0x55#8, 0x56#8, 4#8, 0#8, 0#8, 0#8, 1#8, 0#8, 0#8, 0#8, 1#8, 0#8, 0#8, 0#8,
    0#8, 0#8, 0x70#8, 0x80#8, 0#8, 0#8, 0x70#8, 0x80#8, 0x1B#8, 0xDF#8, 0x05#8, 0xA5#8,
    10#8, 0#8, 0#8, 0#8] ++ List.replicate 32 0x20#8 ++ [1#8]

/-- A volume of one cluster and one FAT sector. -/
def oneByteVolume : Volume where
  partLba := 0
  fatLba := 1
  fatSectors := 1
  numFats := 1
  dataLba := 2
  clusterShift := 0
  clusterEnd := 3
  root := 2
  fsinfoLba := 0
  buf := fun _ ↦ 0#8
  fatBuf := fun _ ↦ 0#8
  fatCached := noSector
  fatDirty := false
  nextFree := 2
  fsinfoDone := false

/-- The card it is on, with the file in its cluster. -/
def oneByteCard : Card := fun lba ↦ if lba = 2 then ofBytes oneByteFile else fun _ ↦ 0xFF#8

/-- The file. -/
def oneByteEntry : DirEntry := { DirEntry.root 2 with attr := 0#8, size := 65 }

theorem boot_paths_agree_one_byte : ∃ h loads,
    Reads oneByteCard oneByteVolume (Vol.loadAccepted oneByteEntry stage2Window [] checkStage2)
      (.ok (.ok h, loads)) ∧ (ramBoot oneByteFile).bootHeader = some h ∧
        (ramBoot oneByteFile).writes = loads ∧ h.size = 1 := by
  have hfile : HasContents oneByteVolume.toGeometry oneByteCard oneByteEntry oneByteFile :=
    ⟨by decide, by decide, by decide, fun _ ↦ ⟨[], ⟨by decide, by decide⟩, by decide,
      by decide, by decide +kernel⟩⟩
  have hcheck : installCheck stage2Window oneByteFile =
      .ok ⟨1, 1, 0x80700000, 0x80700000, 0xA505DF1B, 10, List.replicate 32 0x20#8⟩ := by
    decide
  obtain ⟨r, loads, hload, hram, hinstall, -, hsame, -⟩ := boot_paths_agree
    (by decide) (c := oneByteCard) (v := oneByteVolume) ⟨by decide⟩
    ⟨rfl, fun h ↦ absurd rfl h⟩ hfile
  obtain rfl := (hinstall _).mp hcheck
  exact ⟨_, loads, hload, (hram _).mpr rfl, (hsame _ rfl).1, rfl⟩

end Vux9k

import Vux9k.Fat.Answers
import Vux9k.Firmware.BootPaths

/-!
# Starting an application

The second stage's `run` (`stage2/src/launch.rs`, with the decisions of `fw_common/src/launch.rs`).
A file loads while it is read, before it is known to be good and before it is known where it is to
run, so what keeps it away from the second stage is the window it is checked against (`loadWindow`)
and the map of addresses (`staging`); `plan` picks the target from the checked header.  The first
stage picks the second one from the card in the same way, by `select_boot`.
-/

set_option autoImplicit false

namespace Vux9k

/-! ## The map -/

/-- `ROM_BASE`. -/
def romBase : ℕ := 0

/-- `XMEM_BASE`. -/
def xmemBase : ℕ := 0x80000000

/-- `STAGE2_BASE`. -/
def stage2Base : ℕ := 0x80700000

/-- `HACK_I_BASE`. -/
def hackIBase : ℕ := 0x80000000

/-- `HACK_I_BYTES`. -/
def hackIBytes : ℕ := 0x10000

/-- `HACK_D_BASE`. -/
def hackDBase : ℕ := 0x80020000

/-- `HACK_D_WORDS`. -/
def hackDWords : ℕ := 0x6000

/-- `SCRATCH`. -/
def scratch : ℕ := xmemBase

/-- `LOAD_WINDOW`. -/
def loadWindow : Window := ⟨romBase, stage2Base - romBase⟩

/-! ## What runs where -/

/-- `Target`. -/
inductive Target : Type
  | psram
  | hackSeg
  deriving DecidableEq

/-- `Target::window`. -/
def Target.window : Target → Window
  | .psram => ⟨xmemBase, stage2Base - xmemBase⟩
  | .hackSeg => ⟨0, hackIBytes⟩

/-- `plan`. -/
def plan (h : ImageHeader) : Except ImageError Target := do
  let target ← if h.mode = modeRiscv then pure .psram
    else if h.mode = modeHack then pure .hackSeg
    else .error (.badMode h.mode)
  h.check target.window
  if target = .hackSeg ∧ h.loadAddr % 4 ≠ 0 then .error .outOfWindow
  pure target

/-- `staging`. -/
def staging (addr : ℕ) : Option ℕ :=
  if addr < hackIBytes then some (scratch + addr)
  else if xmemBase ≤ addr then some addr
  else none

/-! ## Memory -/

/-- The bytes at the addresses. -/
abbrev Mem := ℕ → Byte

/-- `copy_nonoverlapping` of each of these in turn. -/
def Mem.after (m : Mem) (stores : Loads) : Mem := stores.foldl (fun m s ↦ splice m s.1 s.2) m

/-- `write_word`. -/
def writeWord (m : Mem) (addr : ℕ) (w : Word) : Mem := splice m addr (leBytes w)

/-- The bytes are in memory from `addr` on. -/
def Mem.Holds (m : Mem) (addr : ℕ) (bytes : List Byte) : Prop :=
  ∀ i < bytes.length, m (addr + i) = bytes.getD i 0#8

/-- The closure `run` gives to `load_file`: what it stores of a piece. -/
def stage (load : ℕ × List Byte) : Option (ℕ × List Byte) :=
  (staging load.1).map fun at_ ↦ (at_, load.2)

/-- `start_hack`'s first `if`: the bytes of the payload's last word that are not its own. -/
def maskTail (h : ImageHeader) (m : Mem) : Mem :=
  let finish := scratch + h.loadAddr + h.size
  let rest := finish % 4
  if rest ≠ 0 then
    let at_ := finish - rest
    writeWord m at_ (word m at_ &&& ((1#32 <<< (rest <<< 3)) - 1#32))
  else m

/-- Hack's data segment, all zero. -/
def zeroData (m : Mem) : Mem :=
  (List.range hackDWords).foldl (fun m i ↦ writeWord m (hackDBase + i <<< 2) 0#32) m

/-- What `start_hack` does to memory before the soft reset. -/
def startHack (h : ImageHeader) (m : Mem) : Mem := zeroData (maskTail h m)

/-! ## `run` -/

/-- `Error`, as far as `run` returns it. -/
inductive RunError : Type
  | boot (e : BootError)
  | isDir
  deriving DecidableEq

namespace Vol

/-- `run` of a file the path names: what is started, or why nothing is, and what has been stored
while the file loaded. -/
def run (file : DirEntry) : Vol (Except RunError (Target × ImageHeader) × Loads) :=
  if file.isDir then pure (.error .isDir, [])
  else do
    let (r, loads) ← loadFile file loadWindow []
    let stores := loads.filterMap stage
    match r with
    | .error e => pure (.error (.boot e), stores)
    | .ok h =>
      match plan h with
      | .error e => pure (.error (.boot (.image e)), stores)
      | .ok target => pure (.ok (target, h), stores)

end Vol

/-- Where the payload is when it starts. -/
def Target.home (target : Target) (h : ImageHeader) : ℕ :=
  match target with
  | .psram => h.loadAddr
  | .hackSeg => hackIBase + h.loadAddr

/-- Memory when the application starts. -/
def Target.start (target : Target) (h : ImageHeader) (m : Mem) : Mem :=
  match target with
  | .psram => m
  | .hackSeg => startHack h m

/-! ## Loading, whatever the card answers -/

variable {v v' : Volume} {es : List FatEvent}

theorem length_of_acceptHeader {window : Window} {accept : ImageHeader → Except BootError Unit}
    {len : ℕ} {b : List Byte} {h : ImageHeader} (hok : acceptHeader window accept len b = .ok h) :
    headerLen ≤ b.length := by
  by_contra hlt
  have hparse : ImageHeader.parse b = none := if_pos (.inl (Nat.lt_of_not_le hlt))
  rw [acceptHeader, hparse] at hok
  cases hok

/-- What `load_accepted` has made of a file when it returns. -/
inductive Loaded (window : Window) (accept : ImageHeader → Except BootError Unit) (size : ℕ)
    (r : Except FatError Unit) (loads : Loads) : List (List Byte) →
    Except BootError ImageHeader × Loads → Prop
  | refused (pieces : List (List Byte)) (e : BootError) :
      Loaded window accept size r loads pieces (.error e, loads)
  | begun (p : List Byte) (ps : List (List Byte)) (h : ImageHeader)
      (haccept : acceptHeader window accept size p = .ok h) (result : Except BootError ImageHeader)
      (hresult : ∀ h', result = .ok h' → h' = h ∧ r = .ok () ∧
        (crc32 (p.drop headerLen :: ps).flatten).toNat = h.crc32) :
      Loaded window accept size r loads (p :: ps)
        (result, loads ++ loadsAt h.loadAddr (p.drop headerLen :: ps))

/-- **`load_accepted` on any card.** -/
theorem runs_loadAccepted {file : DirEntry} {window : Window} {loads : Loads}
    {accept : ImageHeader → Except BootError Unit}
    {x : Except FatError (Except BootError ImageHeader × Loads)}
    (h : Runs (Vol.loadAccepted file window loads accept) v es x v') :
    ∃ r pieces y, x = .ok y ∧
      HandsOver (fun _ f st ↦ Vol.forEachSector file f st) v es r pieces v' ∧
      PiecesOf file.size (r.toOption.map fun _ ↦ 0) pieces ∧
      Loaded window accept file.size r loads pieces y := by
  rcases runs_bind h with ⟨y, w, es₁, es₂, rfl, h₁, h₂⟩ | ⟨e, -, h₁⟩
  swap
  · obtain ⟨r, ps, heq, -⟩ := hands_forEachSector v file _ _ _ _ _ _ h₁
    cases heq
  obtain ⟨r, pieces, heq, hand, hpieces⟩ := hands_forEachSector v file _ _ _ _ _ _ h₁
  cases heq
  obtain ⟨rfl, rfl, rfl⟩ := runs_pure.mp h₂
  rw [List.append_nil]
  refine ⟨r, pieces, _, rfl, hand, hpieces, ?_⟩
  cases pieces with
  | nil =>
    cases r with
    | error e => exact .refused [] _
    | ok u => exact .refused [] _
  | cons p ps =>
    rw [foldl_loadSector]
    cases hacc : acceptHeader window accept file.size p with
    | error e =>
      cases r with
      | error e' => exact .refused _ _
      | ok u => exact .refused _ _
    | ok hd =>
      refine .begun p ps hd hacc _ ?_
      intro h' hr
      cases r with
      | error e => cases hr
      | ok u =>
        change (if (crc32 (p.drop headerLen :: ps).flatten).toNat ≠ hd.crc32 then
          Except.error BootError.crc else Except.ok hd) = .ok h' at hr
        split at hr
        · cases hr
        next hcrc =>
          cases hr
          exact ⟨rfl, rfl, not_not.mp hcrc⟩

theorem flatten_drop_header {window : Window} {accept : ImageHeader → Except BootError Unit}
    {len : ℕ} {p : List Byte} {ps : List (List Byte)} {h : ImageHeader}
    (haccept : acceptHeader window accept len p = .ok h) :
    (p :: ps).flatten.drop headerLen = (p.drop headerLen :: ps).flatten := by
  rw [List.flatten_cons, List.flatten_cons,
    List.drop_append_of_le_length (length_of_acceptHeader haccept)]

/-- The payload of a file that was read to its end is as long as the header says. -/
theorem length_payload {window : Window} {accept : ImageHeader → Except BootError Unit}
    {len : ℕ} {p : List Byte} {ps : List (List Byte)} {h : ImageHeader}
    (haccept : acceptHeader window accept len p = .ok h)
    (hpieces : PiecesOf len (some 0) (p :: ps)) :
    (p.drop headerLen :: ps).flatten.length = h.size := by
  have hall := hpieces.all 0 rfl
  have hsize := (acceptHeader_ok haccept).1
  rw [← flatten_drop_header haccept, List.length_drop]
  omega

/-! ## The second stage -/

/-- A payload that may be started: its header is accepted, and it has the length and the checksum
that the header gives. -/
structure Checked (window : Window) (accept : ImageHeader → Except BootError Unit)
    (h : ImageHeader) (payload : List Byte) : Prop where
  check : h.check window = .ok ()
  accepted : accept h = .ok ()
  length : payload.length = h.size
  crc : (crc32 payload).toNat = h.crc32

/-- What `load_accepted` returns a header for is checked, and all of it is where it belongs. -/
theorem Loaded.checked {window : Window} {accept : ImageHeader → Except BootError Unit} {size : ℕ}
    {r : Except FatError Unit} {loads loads' : Loads} {pieces : List (List Byte)} {h : ImageHeader}
    (hloaded : Loaded window accept size r loads pieces (.ok h, loads'))
    (hpieces : PiecesOf size (r.toOption.map fun _ ↦ 0) pieces) :
    ∃ payload loaded, Checked window accept h payload ∧ loads' = loads ++ loaded ∧
      Covers h.loadAddr payload loaded := by
  cases hloaded with
  | begun p ps h₀ haccept result hresult =>
    obtain ⟨rfl, rfl, hcrc⟩ := hresult h rfl
    obtain ⟨-, hcheck, haccepted⟩ := acceptHeader_ok haccept
    exact ⟨_, _, ⟨hcheck, haccepted, length_payload haccept hpieces, hcrc⟩, rfl,
      covers_loadsAt h.loadAddr _⟩

/-- `try_one` on any card. -/
theorem runs_tryOne {window : Window} {accept : ImageHeader → Except BootError Unit}
    {name : ShortName} {loads : Loads}
    {x : Except FatError (Except BootError ImageHeader × Loads)}
    (hrun : Runs (Vol.tryOne window accept name loads) v es x v') :
    ∃ y, x = .ok y ∧ ∀ h, y.1 = .ok h → ∃ payload loaded, Checked window accept h payload ∧
      y.2 = loads ++ loaded ∧ Covers h.loadAddr payload loaded := by
  rcases runs_bind hrun with ⟨found, w, es₁, es₂, rfl, h₁, h₂⟩ | ⟨e, -, h₁⟩
  swap
  · obtain ⟨y, heq, -⟩ := runs_attempt.mp h₁
    cases heq
  cases found with
  | error e =>
    obtain ⟨rfl, rfl, rfl⟩ := runs_pure.mp h₂
    exact ⟨_, rfl, fun h heq ↦ by cases heq⟩
  | ok file =>
    obtain ⟨r, pieces, y, rfl, -, hpieces, hloaded⟩ := runs_loadAccepted h₂
    refine ⟨y, rfl, fun h hy ↦ ?_⟩
    obtain ⟨result, loads'⟩ := y
    obtain rfl : result = .ok h := hy
    exact hloaded.checked hpieces

/-- **The first stage starts what it has checked.**  Whatever the card holds or answers, a header
that `select_boot` returns is of a payload with its length and its checksum, which has been handed
to `load` after anything else; `OLD` is chosen only when `BIN` has been refused. -/
theorem selectBoot_checked {window : Window} {accept : ImageHeader → Except BootError Unit}
    {x : Except FatError (Except (BootError × BootError) (Which × ImageHeader) × Loads)}
    (hrun : Runs (Vol.selectBoot window accept []) v es x v') :
    ∃ r loads, x = .ok (r, loads) ∧ ∀ which h, r = .ok (which, h) →
      ∃ payload before loaded, Checked window accept h payload ∧ loads = before ++ loaded ∧
        Covers h.loadAddr payload loaded ∧ (which = .bin → before = []) ∧
          (which = .old → ∃ e es₁ w,
            Runs (Vol.tryOne window accept stage2Bin []) v es₁ (.ok (.error e, before)) w) := by
  rcases runs_bind hrun with ⟨y, w, es₁, es₂, rfl, h₁, h₂⟩ | ⟨e, -, h₁⟩
  swap
  · obtain ⟨y, heq, -⟩ := runs_tryOne h₁
    cases heq
  obtain ⟨_, heq, hbin⟩ := runs_tryOne h₁
  cases heq
  obtain ⟨bin, before⟩ := y
  cases bin with
  | ok h =>
    obtain ⟨rfl, rfl, rfl⟩ := runs_pure.mp h₂
    refine ⟨_, _, rfl, ?_⟩
    rintro _ _ ⟨⟩
    obtain ⟨payload, loaded, hchecked, hloads, hcovers⟩ := hbin h rfl
    exact ⟨payload, [], loaded, hchecked, hloads, hcovers, fun _ ↦ rfl, fun heq ↦ (by cases heq)⟩
  | error e =>
    rcases runs_bind h₂ with ⟨z, w', es₃, es₄, rfl, h₃, h₄⟩ | ⟨e', -, h₃⟩
    swap
    · obtain ⟨y, heq, -⟩ := runs_tryOne h₃
      cases heq
    obtain ⟨_, heq, hold⟩ := runs_tryOne h₃
    cases heq
    obtain ⟨old, after⟩ := z
    cases old with
    | ok h =>
      obtain ⟨rfl, rfl, rfl⟩ := runs_pure.mp h₄
      refine ⟨_, _, rfl, ?_⟩
      rintro _ _ ⟨⟩
      obtain ⟨payload, loaded, hchecked, hloads, hcovers⟩ := hold h rfl
      exact ⟨payload, before, loaded, hchecked, hloads, hcovers, fun heq ↦ (by cases heq),
        fun _ ↦ ⟨e, es₁, w, h₁⟩⟩
    | error e' =>
      obtain ⟨rfl, rfl, rfl⟩ := runs_pure.mp h₄
      exact ⟨_, _, rfl, fun which h heq ↦ by cases heq⟩

/-! ## Where the pieces go -/

/-- The application area: what `run` may store into. -/
def InArea (addr len : ℕ) : Prop := xmemBase ≤ addr ∧ addr + len ≤ stage2Base

theorem stage_inArea {addr : ℕ} {bs : List Byte} {s : ℕ × List Byte}
    (hs : stage (addr, bs) = some s) (hshort : bs.length ≤ sectorLen)
    (hend : addr + bs.length ≤ stage2Base) : InArea s.1 s.2.length := by
  unfold stage staging at hs
  have hsector : sectorLen = 512 := rfl
  unfold InArea
  unfold stage2Base at hend ⊢
  split at hs
  next hlow =>
    cases hs
    unfold hackIBytes at hlow
    unfold scratch xmemBase
    dsimp only
    omega
  split at hs
  next hhigh =>
    cases hs
    exact ⟨hhigh, hend⟩
  · cases hs

@[simp]
theorem splice_nil (m : Mem) (addr : ℕ) : splice m addr [] = m := by
  funext j
  simp [splice]

theorem splice_of_mem {m : Mem} {addr i : ℕ} {bs : List Byte} (h : i < bs.length) :
    splice m addr bs (addr + i) = bs.getD i 0#8 := by
  simp [splice, h]

theorem splice_of_not_mem {m : Mem} {addr j : ℕ} {bs : List Byte}
    (h : j < addr ∨ addr + bs.length ≤ j) : splice m addr bs j = m j :=
  if_neg (by omega)

/-- Pieces that are all staged `offset` above their addresses make up the whole, and nothing else
changes. -/
theorem after_stage {ps : List (List Byte)} {addr offset limit : ℕ}
    (hstaging : ∀ a, addr ≤ a → a < limit → staging a = some (offset + a))
    (hend : addr + ps.flatten.length ≤ limit) (m : Mem) :
    (m.after ((loadsAt addr ps).filterMap stage)).Holds (offset + addr) ps.flatten ∧
      ∀ j, j < offset + addr ∨ offset + addr + ps.flatten.length ≤ j →
        m.after ((loadsAt addr ps).filterMap stage) j = m j := by
  induction ps generalizing addr m with
  | nil => exact ⟨fun i hi ↦ absurd hi (Nat.not_lt_zero i), fun j _ ↦ rfl⟩
  | cons p ps ih =>
    rw [List.flatten_cons, List.length_append] at hend
    obtain ⟨hrest, hframe⟩ := ih
      (fun a (ha : addr + p.length ≤ a) hlt ↦ hstaging a (Nat.le_of_add_right_le ha) hlt) (by omega)
      (splice m (offset + addr) p)
    have hfirst : m.after ((loadsAt addr (p :: ps)).filterMap stage) =
        Mem.after (splice m (offset + addr) p)
          ((loadsAt (addr + p.length) ps).filterMap stage) := by
      rcases Nat.eq_zero_or_pos p.length with hzero | hpos
      · obtain rfl := List.eq_nil_of_length_eq_zero hzero
        rw [splice_nil, loadsAt, List.filterMap_cons, stage]
        cases staging addr with
        | none => rfl
        | some s => exact congrArg (Mem.after · _) (splice_nil m s)
      · have hs : stage (addr, p) = some (offset + addr, p) := by
          rw [stage, hstaging addr le_rfl (by omega)]
          rfl
        rw [loadsAt, List.filterMap_cons, hs]
        rfl
    rw [hfirst, ← Nat.add_assoc] at *
    refine ⟨?_, ?_⟩
    · intro i hi
      rw [List.flatten_cons, List.length_append] at hi
      rcases Nat.lt_or_ge i p.length with hlt | hge
      · rw [hframe _ (.inl (by omega)), splice_of_mem hlt, List.flatten_cons]
        simp [List.getElem?_append_left hlt]
      · have h := hrest (i - p.length) (by omega)
        rw [Nat.add_assoc, Nat.add_sub_cancel' hge] at h
        rw [h, List.flatten_cons]
        simp [List.getElem?_append_right hge]
    · intro j hj
      rw [List.flatten_cons, List.length_append] at hj
      rw [hframe j (by omega), splice_of_not_mem (by omega)]

/-! ## What `start_hack` leaves alone -/

theorem getD_leBytes {k : ℕ} (hk : k < 4) (w : Word) :
    (leBytes w).getD k 0#8 = (w >>> (8 * k)).setWidth 8 := by
  interval_cases k <;> rfl

theorem getLsbD_tailMask {r j : ℕ} (hr : r < 4) (hj : j < 8 * r) :
    ((1#32 <<< (r <<< 3)) - 1#32).getLsbD j = true := by
  interval_cases r <;> revert j <;> decide

/-- The mask keeps the payload's bytes of the last word. -/
theorem getD_leBytes_masked {r k : ℕ} (hr : r < 4) (hk : k < r) (w : Word) :
    (leBytes (w &&& ((1#32 <<< (r <<< 3)) - 1#32))).getD k 0#8 = (leBytes w).getD k 0#8 := by
  rw [getD_leBytes (by omega), getD_leBytes (by omega)]
  apply BitVec.eq_of_getLsbD_eq
  intro i hi
  have hmask := getLsbD_tailMask hr (show 8 * k + i < 8 * r by omega)
  simp only [BitVec.getLsbD_setWidth, BitVec.getLsbD_ushiftRight, BitVec.getLsbD_and, hmask,
    Bool.and_true]

theorem getD_leBytes_word {k : ℕ} (hk : k < 4) (m : Mem) (addr : ℕ) :
    (leBytes (word m addr)).getD k 0#8 = m (addr + k) := by
  rw [word, leBytes_leWord]
  interval_cases k <;> rfl

theorem maskTail_of_lt {h : ImageHeader} {m : Mem} {j : ℕ}
    (hj : j < scratch + h.loadAddr + h.size) : maskTail h m j = m j := by
  unfold maskTail
  dsimp only
  split
  next hrest =>
    set finish := scratch + h.loadAddr + h.size with hfinish
    have hr : finish % 4 < 4 := Nat.mod_lt _ (by decide)
    rcases Nat.lt_or_ge j (finish - finish % 4) with hlt | hge
    · exact splice_of_not_mem (.inl hlt)
    · obtain ⟨k, rfl⟩ := Nat.exists_eq_add_of_le hge
      have hk : k < finish % 4 := by omega
      rw [writeWord, splice_of_mem (by rw [leBytes_length]; omega), getD_leBytes_masked hr hk,
        getD_leBytes_word (by omega)]
  · rfl

theorem zeroData_of_not_mem {m : Mem} {j : ℕ}
    (hj : j < hackDBase ∨ hackDBase + 4 * hackDWords ≤ j) : zeroData m j = m j := by
  have hloop : ∀ (l : List ℕ) (m : Mem), (∀ i ∈ l, i < hackDWords) →
      l.foldl (fun m i ↦ writeWord m (hackDBase + i <<< 2) 0#32) m j = m j := by
    intro l
    induction l with
    | nil => exact fun m _ ↦ rfl
    | cons i l ih =>
      intro m hl
      have hi := hl i (List.mem_cons_self ..)
      rw [List.foldl_cons, ih _ fun k hk ↦ hl k (List.mem_cons_of_mem _ hk), writeWord,
        splice_of_not_mem]
      rw [leBytes_length, Nat.shiftLeft_eq]
      omega
  exact hloop _ m fun i hi ↦ List.mem_range.mp hi

theorem maskTail_of_ge {h : ImageHeader} {m : Mem} {j : ℕ}
    (hj : scratch + h.loadAddr + h.size + 3 ≤ j) : maskTail h m j = m j := by
  unfold maskTail
  dsimp only
  split
  next hrest =>
    refine splice_of_not_mem (.inr ?_)
    rw [leBytes_length]
    omega
  · rfl

/-! ## `run` -/

theorem plan_ok {h : ImageHeader} {t : Target} (hok : plan h = .ok t) :
    h.check t.window = .ok () ∧ (t = .hackSeg → h.loadAddr % 4 = 0) := by
  have hrest : ∀ t' : Target, (do
      h.check t'.window
      if t' = .hackSeg ∧ h.loadAddr % 4 ≠ 0 then .error .outOfWindow
      pure t') = Except.ok t → h.check t.window = .ok () ∧ (t = .hackSeg → h.loadAddr % 4 = 0) := by
    intro t' ht
    cases hc : h.check t'.window with
    | error e => simp [hc, bind, Except.bind] at ht
    | ok u =>
      by_cases hbad : t' = .hackSeg ∧ h.loadAddr % 4 ≠ 0
      · rw [hc, if_pos hbad] at ht
        cases ht
      · have heq : t' = t := by
          simpa [hc, bind, Except.bind, hbad, pure, Except.pure] using ht
        subst heq
        refine ⟨hc, fun ht' ↦ ?_⟩
        by_contra hne
        exact hbad ⟨ht', hne⟩
  unfold plan at hok
  split at hok
  · exact hrest .psram hok
  split at hok
  · exact hrest .hackSeg hok
  · cases hok

theorem staging_psram {a : ℕ} (h : xmemBase ≤ a) : staging a = some (0 + a) := by
  have hlow : ¬a < hackIBytes := by
    unfold xmemBase at h
    unfold hackIBytes
    omega
  rw [staging, if_neg hlow, if_pos h, Nat.zero_add]

theorem staging_hack {a : ℕ} (h : a < hackIBytes) : staging a = some (hackIBase + a) := if_pos h

/-- The payload of a file that `plan` starts, once it has loaded. -/
theorem holds_home {h : ImageHeader} {t : Target} (hplan : plan h = .ok t)
    {ps : List (List Byte)} (hlen : ps.flatten.length = h.size) (m : Mem) :
    (m.after ((loadsAt h.loadAddr ps).filterMap stage)).Holds (t.home h) ps.flatten := by
  obtain ⟨hcheck, -⟩ := plan_ok hplan
  obtain ⟨-, -, hbase, hend⟩ := check_ok hcheck
  cases t with
  | psram =>
    have hholds := (after_stage (fun a (ha : h.loadAddr ≤ a) (_ : a < h.loadAddr + h.size) ↦
      staging_psram (hbase.trans ha)) (by rw [hlen]) m).1
    rwa [Nat.zero_add] at hholds
  | hackSeg =>
    have hwindow : h.loadAddr + h.size ≤ hackIBytes := by
      rwa [Target.window, Nat.zero_add] at hend
    exact (after_stage (fun a (_ : h.loadAddr ≤ a) (ha : a < h.loadAddr + h.size) ↦
      staging_hack (ha.trans_le hwindow)) (by rw [hlen]) m).1

/-- `start_hack` changes no byte of the payload. -/
theorem start_home {h : ImageHeader} {t : Target} (hplan : plan h = .ok t) (m : Mem) {i : ℕ}
    (hi : i < h.size) : t.start h m (t.home h + i) = m (t.home h + i) := by
  cases t with
  | psram => rfl
  | hackSeg =>
    obtain ⟨-, -, -, hend⟩ := check_ok (plan_ok hplan).1
    have hwindow : h.loadAddr + h.size ≤ hackIBytes := by
      rwa [Target.window, Nat.zero_add] at hend
    have hlow : hackIBase + h.loadAddr + i < hackDBase := by
      unfold hackIBytes at hwindow
      unfold hackIBase hackDBase
      omega
    rw [Target.start, Target.home, startHack, zeroData_of_not_mem (.inl hlow)]
    exact maskTail_of_lt (Nat.add_lt_add_left hi _)

/-- Nor any byte outside the application area. -/
theorem start_frame {h : ImageHeader} {t : Target} (hplan : plan h = .ok t) (m : Mem) {j : ℕ}
    (hj : j < xmemBase ∨ stage2Base ≤ j) : t.start h m j = m j := by
  cases t with
  | psram => rfl
  | hackSeg =>
    obtain ⟨-, -, -, hend⟩ := check_ok (plan_ok hplan).1
    have hwindow : h.loadAddr + h.size ≤ hackIBytes := by
      rwa [Target.window, Nat.zero_add] at hend
    unfold hackIBytes at hwindow
    unfold xmemBase stage2Base at hj
    rw [Target.start, startHack, zeroData_of_not_mem (by unfold hackDBase hackDWords; omega)]
    rcases hj with hj | hj
    · exact maskTail_of_lt (by unfold scratch xmemBase; omega)
    · exact maskTail_of_ge (by unfold scratch xmemBase; omega)

theorem snd_mem_of_mem_loadsAt {addr : ℕ} {ps : List (List Byte)} {l : ℕ × List Byte}
    (hl : l ∈ loadsAt addr ps) : l.2 ∈ ps := by
  induction ps generalizing addr with
  | nil => cases hl
  | cons p ps ih =>
    rcases List.mem_cons.mp hl with rfl | hl
    · exact List.mem_cons_self ..
    · exact List.mem_cons_of_mem _ (ih hl)

/-- The pieces of a file whose header was accepted are addressed below the second stage, so that
`load_addr + at` does not wrap. -/
theorem loadsAt_below {size : ℕ} {left : Option ℕ} {p : List Byte} {ps : List (List Byte)}
    {h : ImageHeader} {accept : ImageHeader → Except BootError Unit}
    (haccept : acceptHeader loadWindow accept size p = .ok h)
    (hpieces : PiecesOf size left (p :: ps)) {l : ℕ × List Byte}
    (hl : l ∈ loadsAt h.loadAddr (p.drop headerLen :: ps)) :
    l.1 + l.2.length ≤ stage2Base ∧ l.2.length ≤ sectorLen := by
  obtain ⟨hsize, hcheck, -⟩ := acceptHeader_ok haccept
  obtain ⟨-, -, -, hend⟩ := check_ok hcheck
  have hp := length_of_acceptHeader haccept
  have hle := hpieces.le
  obtain ⟨-, hhigh⟩ := loadsAt_bounds hl
  have hwindow : loadWindow.base + loadWindow.len = stage2Base := rfl
  rw [List.flatten_cons, List.length_append] at hle hhigh
  rw [List.length_drop] at hhigh
  refine ⟨by omega, ?_⟩
  rcases List.mem_cons.mp (snd_mem_of_mem_loadsAt hl) with heq | hmem
  · have hshort := hpieces.short p (List.mem_cons_self ..)
    rw [heq, List.length_drop]
    omega
  · exact hpieces.short _ (List.mem_cons_of_mem _ hmem)

theorem after_frame {stores : Loads} (harea : ∀ s ∈ stores, InArea s.1 s.2.length) (m : Mem) {j : ℕ}
    (hj : j < xmemBase ∨ stage2Base ≤ j) : m.after stores j = m j := by
  induction stores generalizing m with
  | nil => rfl
  | cons s stores ih =>
    obtain ⟨hlow, hhigh⟩ := harea s (List.mem_cons_self ..)
    have hrest := ih (fun s hs ↦ harea s (List.mem_cons_of_mem _ hs)) (splice m s.1 s.2)
    rw [splice_of_not_mem (by omega)] at hrest
    exact hrest

/-- **`run` keeps to the application area and starts what it has checked.**  Whatever the file and
the card, every piece is stored inside the area; and what is started is the file's payload with its
checksum, at the place the target says, also after the last stores of `start_hack`. -/
theorem run_stores_in_area {file : DirEntry}
    {x : Except FatError (Except RunError (Target × ImageHeader) × Loads)}
    (hrun : Runs (Vol.run file) v es x v') :
    ∃ r stores, x = .ok (r, stores) ∧
      (∀ s ∈ stores, InArea s.1 s.2.length) ∧
      ∀ t h, r = .ok (t, h) → plan h = .ok t ∧
        ∃ contents, Runs (Vol.readTo file file.size) v es (.ok contents) v' ∧
          (contents.drop headerLen).length = h.size ∧
          (crc32 (contents.drop headerLen)).toNat = h.crc32 ∧
          ∀ m : Mem, (m.after stores).Holds (t.home h) (contents.drop headerLen) ∧
            (t.start h (m.after stores)).Holds (t.home h) (contents.drop headerLen) ∧
            ∀ j, j < xmemBase ∨ stage2Base ≤ j → t.start h (m.after stores) j = m j := by
  unfold Vol.run at hrun
  split at hrun
  · obtain ⟨rfl, rfl, rfl⟩ := runs_pure.mp hrun
    exact ⟨_, _, rfl, by simp, nofun⟩
  rcases runs_bind hrun with ⟨y, w, es₁, es₂, rfl, h₁, h₂⟩ | ⟨e, -, h₁⟩
  swap
  · obtain ⟨r, pieces, y, heq, -⟩ := runs_loadAccepted h₁
    cases heq
  obtain ⟨r, pieces, y, heq, hand, hpieces, hloaded⟩ := runs_loadAccepted h₁
  cases heq
  cases hloaded with
  | refused _ e =>
    obtain ⟨rfl, rfl, rfl⟩ := runs_pure.mp h₂
    exact ⟨_, _, rfl, by simp, nofun⟩
  | begun p ps h haccept result hresult =>
    rw [List.nil_append] at h₂
    have harea : ∀ s ∈ (loadsAt h.loadAddr (p.drop headerLen :: ps)).filterMap stage,
        InArea s.1 s.2.length := by
      intro s hs
      obtain ⟨l, hl, hstage⟩ := List.mem_filterMap.mp hs
      obtain ⟨hbelow, hshort⟩ := loadsAt_below haccept hpieces hl
      exact stage_inArea hstage hshort hbelow
    cases result with
    | error e =>
      obtain ⟨rfl, rfl, rfl⟩ := runs_pure.mp h₂
      exact ⟨_, _, rfl, harea, nofun⟩
    | ok h' =>
      obtain ⟨rfl, rfl, hcrc⟩ := hresult h' rfl
      cases hplan : plan h' with
      | error e =>
        simp only [hplan] at h₂
        obtain ⟨rfl, rfl, rfl⟩ := runs_pure.mp h₂
        exact ⟨_, _, rfl, harea, nofun⟩
      | ok t =>
        simp only [hplan] at h₂
        obtain ⟨rfl, rfl, rfl⟩ := runs_pure.mp h₂
        refine ⟨_, _, rfl, harea, ?_⟩
        rintro _ _ ⟨⟩
        have hdrop : (p :: ps).flatten.drop headerLen = _ := flatten_drop_header haccept
        have hlen := length_payload haccept hpieces
        rw [← hdrop] at hcrc
        have hread : Runs (Vol.readTo file file.size) v (es₁ ++ []) (.ok (p :: ps).flatten) v' := by
          rw [Vol.readTo, if_neg (lt_irrefl _)]
          have hrun := hand _ (fun got data ↦ got ++ data) []
          rw [show (fun got data : List Byte ↦ got ++ data) =
            fun got data ↦ got ++ id data from rfl,
            List.foldl_append_eq_append, List.map_id, List.nil_append] at hrun
          exact hrun.bind (runs_pure.mpr ⟨rfl, rfl, rfl⟩)
        refine ⟨hplan, (p :: ps).flatten, hread, by rw [hdrop, hlen], hcrc, fun m ↦ ?_⟩
        have hholds := holds_home hplan hlen m
        rw [hdrop]
        refine ⟨hholds, fun i hi ↦ ?_, fun j hj ↦ ?_⟩
        · rw [start_home hplan _ (hlen ▸ hi)]
          exact hholds i hi
        · rw [start_frame hplan _ hj]
          exact after_frame harea m hj

/-- A Hack program of one byte, for address 4. -/
def hackFile : List Byte :=
  [0x39#8, 0x58#8, 0x55#8, 0x56#8, 4#8, 0#8, 0#8, 0#8, 0#8, 0#8, 0#8, 0#8, 1#8, 0#8, 0#8, 0#8,
    4#8, 0#8, 0#8, 0#8, 0#8, 0#8, 0#8, 0#8, 0x1B#8, 0xDF#8, 0x05#8, 0xA5#8,
    1#8, 0#8, 0#8, 0#8] ++ List.replicate 32 0x20#8 ++ [1#8]

/-- The card it is on, as `oneByteCard`. -/
def hackCard : Card := fun lba ↦ if lba = 2 then ofBytes hackFile else fun _ ↦ 0xFF#8

theorem run_stores_in_area_hack : ∃ es v' stores,
    Runs (Vol.run oneByteEntry) oneByteVolume es
      (.ok (.ok (.hackSeg, ⟨0, 1, 4, 0, 0xA505DF1B, 1, List.replicate 32 0x20#8⟩), stores)) v' ∧
    ∀ m : Mem, startHack ⟨0, 1, 4, 0, 0xA505DF1B, 1, List.replicate 32 0x20#8⟩ (m.after stores)
      0x80000004 = 1#8 := by
  obtain ⟨es, hpath⟩ := exists_path_onCard (Vol.run oneByteEntry oneByteVolume) hackCard
  have hrun : Runs (Vol.run oneByteEntry) oneByteVolume es
      (onCard (Vol.run oneByteEntry oneByteVolume) hackCard).1.1
      (onCard (Vol.run oneByteEntry oneByteVolume) hackCard).1.2 := hpath
  have heq : (onCard (Vol.run oneByteEntry oneByteVolume) hackCard).1.1 =
      .ok (.ok (.hackSeg, ⟨0, 1, 4, 0, 0xA505DF1B, 1, List.replicate 32 0x20#8⟩),
        [(0x80000004, [1#8])]) := by
    decide +kernel
  rw [heq] at hrun
  obtain ⟨r, stores, hx, -, hstart⟩ := run_stores_in_area hrun
  cases hx
  obtain ⟨-, contents, -, hlen, -, hmem⟩ := hstart _ _ rfl
  refine ⟨es, _, _, hrun, fun m ↦ ?_⟩
  obtain ⟨hbefore, hafter, -⟩ := hmem m
  have hpos : 0 < (contents.drop headerLen).length := by
    rw [hlen]
    exact Nat.one_pos
  have hbyte : m.after [(0x80000004, [1#8])] 0x80000004 = 1#8 := by
    simp [Mem.after, splice]
  exact (hafter 0 hpos).trans ((hbefore 0 hpos).symm.trans hbyte)

end Vux9k

import Vux9k.Lockstep.Behind

/-!
# What a power-on reset leaves in the PSRAM

`soc_top` with a loader on the pins of its PSRAM, and the emulator with `load_xmem`: after the same
accesses and the same loaded words, a power-on reset of the emulator leaves the PSRAM that the RTL's
data cache leaves.
-/

set_option autoImplicit false

namespace Vux9k

open Rtl (Access PWord Wb Machine MachineIn Win DTag Dcache)

/-! ## What reaches the window -/

/-- An access of the window, or a word that `load_xmem` writes into the PSRAM past the caches. -/
inductive WindowEvent : Type
  | access (x : Access)
  | written (w : PWord) (v : Word)
  deriving DecidableEq

namespace WindowEvent

/-- What it does to the write-back cache. -/
def onWb (c : Wb) : WindowEvent → Wb
  | access x => c.access x
  | written w v => { c with psram := Function.update c.psram w v }

/-- What it does to the emulator's window. -/
def onEmu (s : Emu.Window) : WindowEvent → Emu.Window
  | access x => (s.access x).2
  | written w v => s.written w.toNat v

/-- It writes the word. -/
def Writes (w : PWord) : WindowEvent → Prop
  | access (.store a _ _) => a = w
  | access _ => False
  | written a _ => a = w

/-- No line of the data cache holds a word that is written past it. -/
def Apart (c : Wb) : WindowEvent → Prop
  | access _ => True
  | written w _ => ¬ c.Holds w

end WindowEvent

/-- Events, one after the other. -/
def wbAfter (c : Wb) (evs : List WindowEvent) : Wb := evs.foldl WindowEvent.onWb c

/-- The emulator's window after them. -/
def emuAfter (s : Emu.Window) (evs : List WindowEvent) : Emu.Window := evs.foldl WindowEvent.onEmu s

/-- No event of a sequence writes a word past a line that holds it. -/
def AllApart (c : Wb) : List WindowEvent → Prop
  | [] => True
  | e :: evs => e.Apart c ∧ AllApart (e.onWb c) evs

theorem allApart_append {c : Wb} {xs ys : List WindowEvent} :
    AllApart c (xs ++ ys) ↔ AllApart c xs ∧ AllApart (wbAfter c xs) ys := by
  induction xs generalizing c with
  | nil => exact ⟨fun h ↦ ⟨trivial, h⟩, fun h ↦ h.2⟩
  | cons x xs ih => exact (and_congr_right fun _ ↦ ih).trans and_assoc.symm

namespace Linked

variable {s : Emu.Window} {c : Wb} {w : PWord}

theorem event (h : Linked s c) {e : WindowEvent} (he : e.Apart c) :
    Linked (e.onEmu s) (e.onWb c) := by
  cases e with
  | access x => exact h.access x
  | written w v => exact h.written he v

theorem events (h : Linked s c) {evs : List WindowEvent} (he : AllApart c evs) :
    Linked (emuAfter s evs) (wbAfter c evs) := by
  induction evs generalizing s c with
  | nil => exact h
  | cons e evs ih => exact ih (h.event he.1) he.2

/-! ### The PSRAM behind the caches -/

/-- An access leaves a word of the PSRAM as it is, or writes back what the memory has. -/
theorem psram_access (h : Linked s c) (x : Access) (w : PWord) :
    (c.access x).psram w = c.psram w ∨ (c.access x).psram w = psramOf s.mem.xmem w := by
  have halloc : ∀ a, (c.allocate a).psram w = c.psram w ∨
      (c.allocate a).psram w = psramOf s.mem.xmem w := by
    intro a
    rw [Wb.allocate]
    split
    · exact .inl rfl
    · by_cases hl : Dcache.line w = Dcache.line a
      · have hw := (h.coherent.evict (Dcache.line a)).2 w hl
        rw [← dark_evict] at hw
        exact .inr hw
      · exact .inl (evict_of_ne hl)
  cases x with
  | fetch a =>
    rw [Wb.access]
    split
    · exact .inl rfl
    · by_cases hp : c.tags (Dcache.line a) = ⟨true, true, Dcache.tag a⟩
      · by_cases hw : Dcache.tag w = Dcache.tag a ∧ Dcache.line w = Dcache.line a
        · have hpw := (h.coherent.probe a).2 w hw.1 hw.2
          rw [← dark_probe] at hpw
          exact .inr hpw
        · left
          change (c.probe a).psram w = _
          rw [Wb.probe, if_pos hp]
          exact (Wb.writeBack_psram _ _ w).trans (if_neg hw)
      · rw [Wb.probe_eq hp]
        exact .inl rfl
  | load a => exact halloc a
  | store a data be => exact halloc a

/-- Behind a line that stays dirty the PSRAM stays as it is. -/
theorem psram_of_dirty (hw : c.tags (Dcache.line w) = ⟨true, true, Dcache.tag w⟩)
    (x : Access) (hx : (c.access x).tags (Dcache.line w) = ⟨true, true, Dcache.tag w⟩) :
    (c.access x).psram w = c.psram w := by
  cases x with
  | fetch a =>
    rw [Wb.access] at hx ⊢
    split at hx
    · next hi => rw [if_pos hi]
    · next hi =>
      rw [if_neg hi]
      change (c.probe a).tags _ = _ at hx
      change (c.probe a).psram w = _
      by_cases hp : c.tags (Dcache.line a) = ⟨true, true, Dcache.tag a⟩
      · rw [probe_tags, if_pos hp] at hx
        rw [Wb.probe, if_pos hp]
        refine writeBack_of_ne fun hl ↦ ?_
        rw [hl, Function.update_self] at hx
        cases hx
      · rw [Wb.probe_eq hp]
  | load a =>
    rw [Wb.access] at hx ⊢
    by_cases hh : c.Holds a
    · rw [Wb.allocate_of_holds hh]
    · rw [allocate_tags, if_neg hh] at hx
      rw [Wb.allocate, if_neg hh]
      refine evict_of_ne fun hl ↦ ?_
      rw [hl, Function.update_self] at hx
      cases hx
  | store a data be =>
    change (c.allocate a).psram w = _
    by_cases hh : c.Holds a
    · rw [Wb.allocate_of_holds hh]
    · rw [Wb.allocate, if_neg hh]
      refine evict_of_ne fun hl ↦ hh ?_
      -- The store's line is the word's, so its tag is the word's and it was there.
      have ht : (⟨true, true, Dcache.tag a⟩ : DTag) = ⟨true, true, Dcache.tag w⟩ := by
        simpa [Wb.access, Wb.merge, hl] using hx
      rw [Wb.Holds, ← hl, hw]
      injection ht with _ _ ht
      exact ⟨rfl, ht.symm⟩

theorem psram_stays {evs : List WindowEvent} (h : Linked s c) (ha : AllApart c evs)
    (hd : ∀ zs, zs <+: evs → (emuAfter s zs).caches.probed w.toNat = true) :
    (wbAfter c evs).psram w = c.psram w := by
  induction evs generalizing s c with
  | nil => rfl
  | cons e evs ih =>
    have h0 := (h.tags.probed_iff w).mp (hd [] List.nil_prefix)
    have h1 := h.event ha.1
    have hd1 := (h1.tags.probed_iff w).mp (hd [e] (by simp))
    have hrest := ih h1 ha.2 fun zs hz ↦ hd (e :: zs) (by simpa using hz)
    refine hrest.trans ?_
    cases e with
    | access x => exact psram_of_dirty h0 x hd1
    | written a v =>
      refine Function.update_of_ne ?_ _ _
      rintro rfl
      exact ha.1 ⟨by rw [h0], by rw [h0]⟩

theorem xmem_event {e : WindowEvent} (he : ¬ e.Writes w) :
    (e.onEmu s).mem.xmem w.toNat = s.mem.xmem w.toNat := by
  have hne : ∀ a : PWord, a ≠ w → w.toNat ≠ a.toNat := fun a hwa hc ↦
    hwa (BitVec.toNat_inj.mp hc).symm
  cases e with
  | access x =>
    cases x with
    | fetch a => rfl
    | load a => rfl
    | store a data be => exact Function.update_of_ne (hne a he) _ _
  | written a v => exact Function.update_of_ne (hne a he) _ _

theorem psram_kept {evs : List WindowEvent} {v : Word} (h : Linked s c) (ha : AllApart c evs)
    (hp : c.psram w = v) (hm : s.mem.xmem w.toNat = v) (hno : ∀ e ∈ evs, ¬ e.Writes w) :
    (wbAfter c evs).psram w = v := by
  induction evs generalizing s c with
  | nil => exact hp
  | cons e evs ih =>
    have he := hno e List.mem_cons_self
    refine ih (h.event ha.1) ha.2 ?_ ((xmem_event he).trans hm)
      fun e' he' ↦ hno e' (List.mem_cons_of_mem _ he')
    cases e with
    | access x =>
      rcases h.psram_access x w with hx | hx
      · exact hx.trans hp
      · exact hx.trans hm
    | written a v' => exact (Function.update_of_ne (fun hc ↦ he hc.symm) _ _).trans hp

/-! ### What the reset keeps -/

/-- What was stored into a line that is not dirty any more is kept. -/
theorem reset_kept (h : Linked s c) (hw : s.caches.probed w.toNat = false) :
    s.reset.mem.xmem w.toNat = s.mem.xmem w.toNat := by
  rw [h.reset_xmem w]
  refine h.clean w fun hc ↦ ?_
  rw [(h.tags.probed_iff w).mpr hc] at hw
  cases hw

/-- What was stored into a line that is still dirty is back at its value from before. -/
theorem reset_back (h : Linked s c) {xs ys : List WindowEvent} (ha : AllApart c (xs ++ ys))
    (hclean : (emuAfter s xs).caches.probed w.toNat = false)
    (hdirty : ∀ zs, zs <+: ys → zs ≠ [] →
      (emuAfter s (xs ++ zs)).caches.probed w.toNat = true) :
    (emuAfter s (xs ++ ys)).reset.mem.xmem w.toNat = (emuAfter s xs).mem.xmem w.toNat := by
  obtain ⟨hxs, hys⟩ := allApart_append.mp ha
  have h1 := h.events hxs
  have hcw : (wbAfter c xs).psram w = psramOf (emuAfter s xs).mem.xmem w :=
    (h1.reset_xmem w).symm.trans (h1.reset_kept hclean)
  rw [(h.events ha).reset_xmem w]
  cases ys with
  | nil =>
    rw [List.append_nil]
    exact hcw
  | cons e ys =>
    have h2 := h1.event hys.1
    have hd2 : ∀ zs, zs <+: ys →
        (emuAfter (e.onEmu (emuAfter s xs)) zs).caches.probed w.toNat = true := by
      intro zs hz
      have hd := hdirty (e :: zs) (by simpa using hz) (by simp)
      rwa [emuAfter, List.foldl_append] at hd
    rw [wbAfter, List.foldl_append]
    refine (h2.psram_stays hys.2 hd2).trans ?_
    cases e with
    | access x =>
      rcases h1.psram_access x w with hx | hx
      · exact hx.trans hcw
      · exact hx
    | written a v =>
      -- A word that is written past the caches makes no line dirty.
      have hd := (h2.tags.probed_iff w).mp (hd2 [] List.nil_prefix)
      rw [(h1.tags.probed_iff w).mpr hd] at hclean
      cases hclean

/-- A word of `load_xmem` is kept. -/
theorem reset_loaded (h : Linked s c) {xs ys : List WindowEvent} {v : Word}
    (ha : AllApart c (xs ++ .written w v :: ys)) (hno : ∀ e ∈ ys, ¬ e.Writes w) :
    (emuAfter s (xs ++ .written w v :: ys)).reset.mem.xmem w.toNat = v := by
  obtain ⟨hxs, hys⟩ := allApart_append.mp ha
  have h1 := (h.events hxs).event hys.1
  rw [(h.events ha).reset_xmem w, wbAfter, List.foldl_append]
  exact h1.psram_kept hys.2 (Function.update_self _ _ _) (Function.update_self _ _ _) hno

end Linked

/-! ## The calls of the emulator -/

namespace Emu

/-- A call of `Soc` that can reach the window: an instruction's fetch, a load or a store of RV32 (an
AMO is a load and a store), a read or a write of Hack, a `load_xmem`, a soft reset. -/
inductive Call : Type
  | fetch (riscvMode : Bool) (pc : Word)
  | rvLoad (addr : Word)
  | rvWrite (addr data : Word) (be : BitVec 4)
  | hackRead (a : Word)
  | hackWrite (a v : Word)
  | loadXmem (addr : Word) (bytes : List Byte)
  | softReset

/-- A call. -/
def Window.call (s : Window) : Call → Window
  | .fetch mode pc => (s.fetch mode pc).2
  | .rvLoad addr => (s.rvLoadWait addr).2
  | .rvWrite addr data be => (s.rvWrite addr data be).2
  | .hackRead a => (s.hackRead a).2
  | .hackWrite a v => (s.hackWrite a v).2
  | .loadXmem addr bytes => (s.loadXmem addr bytes).toOption.getD s
  | .softReset => s

/-- Calls, one after the other. -/
def Window.calls (s : Window) (ks : List Call) : Window := ks.foldl Window.call s

/-- The PSRAM word of an index. -/
def pword (idx : ℕ) : PWord := BitVec.ofNat 21 idx

/-- The words that `load_xmem` writes. -/
def writtenEvents : ℕ → List Word → List WindowEvent
  | _, [] => []
  | i, w :: ws => .written (pword i) w :: writtenEvents (i + 1) ws

/-- What a call asks of the window, if there is one. -/
def Call.events (mem : Memories) : Call → List WindowEvent
  | .fetch mode pc =>
    if mode then if mem.inXmem pc then [.access (.fetch (pword (xmemIndex pc)))] else []
    else if mem.hasXmem then
      [.access (.fetch (pword (xmemIndex (hackIBase ||| (pc &&& 0xFFFF#32)))))]
    else []
  | .rvLoad addr => if mem.inXmem addr then [.access (.load (pword (xmemIndex addr)))] else []
  | .rvWrite addr data be =>
    if mem.inXmem addr then [.access (.store (pword (xmemIndex addr)) data be)] else []
  | .hackRead a =>
    if (a &&& 0xFFFF#32).toNat < 0x6000 && mem.hasXmem then
      [.access (.load (pword (Window.hackDataIndex (a &&& 0xFFFF#32))))]
    else []
  | .hackWrite a v =>
    if (a &&& 0xFFFF#32).toNat < 0x6000 && mem.hasXmem then
      [.access (.store (pword (Window.hackDataIndex (a &&& 0xFFFF#32))) v 0b1111#4)]
    else []
  | .loadXmem addr bytes =>
    if !mem.inXmem addr ∨ addr.toNat % 4 ≠ 0 ∨
        xmemBytes < (addr - xmemBase).toNat + bytes.length then []
    else writtenEvents ((addr - xmemBase).toNat / 4) (wordsOf bytes)
  | .softReset => []

theorem xmemIndex_lt (addr : Word) : xmemIndex addr < 2 ^ 21 :=
  Nat.and_lt_two_pow _ (by decide)

theorem hackDataIndex_lt (a : Word) : Window.hackDataIndex a < 2 ^ 21 := xmemIndex_lt _

theorem toNat_pword {i : ℕ} (hi : i < 2 ^ 21) : (pword i).toNat = i := by
  rw [pword, BitVec.toNat_ofNat, Nat.mod_eq_of_lt hi]

theorem emuAfter_writtenEvents {i : ℕ} {ws : List Word} (s : Window) (hi : i + ws.length ≤ 2 ^ 21) :
    emuAfter s (writtenEvents i ws) = Window.writtenWords i ws s := by
  induction ws generalizing i s with
  | nil => rfl
  | cons w ws ih =>
    rw [List.length_cons] at hi
    rw [writtenEvents, Window.writtenWords, ← ih _ (by omega)]
    change emuAfter (s.written (pword i).toNat w) _ = _
    rw [toNat_pword (by omega)]

/-- The words of a `load_xmem` are within the PSRAM. -/
theorem wordsOf_within {addr : Word} {bytes : List Byte} (ha : addr.toNat % 4 = 0)
    (hl : (addr - xmemBase).toNat + bytes.length ≤ xmemBytes) :
    (addr - xmemBase).toNat / 4 + (wordsOf bytes).length ≤ 2 ^ 21 := by
  have h4 : (addr - xmemBase).toNat % 4 = 0 := by
    have hb : xmemBase.toNat = 0x80000000 := rfl
    have hlt := addr.isLt
    rw [BitVec.toNat_sub, hb]
    omega
  have hx : xmemBytes = 2 ^ 23 := rfl
  have hw := length_chunks_lt (show 0 < 4 by decide) bytes
  rw [wordsOf, List.length_map]
  omega

/-- **A call does what it asks of the window.** -/
theorem Window.call_eq (s : Window) (k : Call) : s.call k = emuAfter s (k.events s.mem) := by
  cases k with
  | fetch mode pc =>
    have hfetch : ∀ addr, (s.fetchWord (xmemIndex addr)).2 =
        emuAfter s [.access (.fetch (pword (xmemIndex addr)))] := by
      intro addr
      change _ = (s.fetchWord (pword (xmemIndex addr)).toNat).2
      rw [toNat_pword (xmemIndex_lt addr)]
    rw [Window.call, Window.fetch, Call.events]
    cases mode with
    | true =>
      simp only [if_pos]
      by_cases hx : s.mem.inXmem pc = true
      · simp only [if_pos hx]
        exact hfetch _
      · simp only [if_neg hx]
        rfl
    | false =>
      simp only [if_neg Bool.false_ne_true]
      by_cases hx : s.mem.hasXmem = true
      · simp only [if_pos hx]
        exact hfetch _
      · simp only [if_neg hx]
        rfl
  | rvLoad addr =>
    rw [Window.call, Window.rvLoadWait, Call.events]
    split
    · change _ = (s.loadWord (pword (xmemIndex addr)).toNat).2
      rw [toNat_pword (xmemIndex_lt addr)]
    · rfl
  | rvWrite addr data be =>
    rw [Window.call, Window.rvWrite, Call.events]
    split
    · change _ = (s.storeWord (pword (xmemIndex addr)).toNat data be).2
      rw [toNat_pword (xmemIndex_lt addr)]
    · rfl
  | hackRead a =>
    rw [Window.call, Window.hackRead, Call.events]
    split
    · change _ = (s.loadWord (pword (hackDataIndex (a &&& 0xFFFF#32))).toNat).2
      rw [toNat_pword (hackDataIndex_lt _)]
    · rfl
  | hackWrite a v =>
    rw [Window.call, Window.hackWrite, Call.events]
    split
    · change _ = (s.storeWord (pword (hackDataIndex (a &&& 0xFFFF#32))).toNat v 0b1111#4).2
      rw [toNat_pword (hackDataIndex_lt _), Window.storeWord, mergeBytes_eq, strobed_all]
    · rfl
  | loadXmem addr bytes =>
    rw [Window.call, Window.loadXmem, Call.events]
    split
    · rfl
    · next hc =>
      rw [not_or, not_or, not_not, not_lt] at hc
      rw [emuAfter_writtenEvents s (wordsOf_within hc.2.1 hc.2.2)]
      rfl
  | softReset => rfl

theorem hasXmem_onEmu (s : Window) (e : WindowEvent) :
    (e.onEmu s).mem.hasXmem = s.mem.hasXmem := by
  cases e with
  | access x => cases x <;> rfl
  | written w v => rfl

theorem hasXmem_emuAfter (s : Window) (evs : List WindowEvent) :
    (emuAfter s evs).mem.hasXmem = s.mem.hasXmem := by
  induction evs generalizing s with
  | nil => rfl
  | cons e evs ih => exact (ih _).trans (hasXmem_onEmu s e)

theorem Call.events_congr {m m' : Memories} (h : m.hasXmem = m'.hasXmem) (k : Call) :
    k.events m = k.events m' := by
  have hx : ∀ addr, m.inXmem addr = m'.inXmem addr := by
    intro addr
    rw [Memories.inXmem, Memories.inXmem, h]
  cases k with
  | fetch mode pc => rw [Call.events, Call.events, hx, h]
  | rvLoad addr => rw [Call.events, Call.events, hx]
  | rvWrite addr data be => rw [Call.events, Call.events, hx]
  | hackRead a => rw [Call.events, Call.events, h]
  | hackWrite a v => rw [Call.events, Call.events, h]
  | loadXmem addr bytes => rw [Call.events, Call.events, hx]
  | softReset => rfl

theorem Window.calls_eq (s : Window) (ks : List Call) :
    s.calls ks = emuAfter s (ks.flatMap (Call.events s.mem)) := by
  induction ks generalizing s with
  | nil => rfl
  | cons k ks ih =>
    have hk : (s.call k).mem.hasXmem = s.mem.hasXmem := by
      rw [Window.call_eq]
      exact hasXmem_emuAfter s _
    have hev : Call.events (s.call k).mem = Call.events s.mem := funext (Call.events_congr hk)
    rw [List.flatMap_cons, emuAfter, List.foldl_append]
    change (s.call k).calls ks = emuAfter (emuAfter s (k.events s.mem)) _
    rw [ih, hev, Window.call_eq]

end Emu

/-! ## The RTL with a loader on its pins -/

/-- The machine after a loader wrote words into its PSRAM. -/
def written (m : Machine) (ws : List (PWord × Word)) : Machine :=
  { m with win := { m.win with ps := { m.win.ps with
      mem := ws.foldl (fun mem p ↦ Function.update mem p.1 p.2) m.win.ps.mem } } }

section

variable (inp : ℕ → MachineIn) (loads : ℕ → List (PWord × Word)) (m : Machine)

/-- The machine after `n` cycles, if the loader writes `loads k` right before cycle `k`. -/
def loadedRun : ℕ → Machine
  | 0 => m
  | n + 1 => (written (loadedRun n) (loads n)).tick (inp n)

/-- The machine in cycle `n`. -/
def loaded (n : ℕ) : Machine := written (loadedRun inp loads m n) (loads n)

/-- The access that waits into cycle `n`. -/
def loadedHeld : ℕ → Option Access
  | 0 => none
  | n + 1 => (loaded inp loads m n).win.waiting ((loaded inp loads m n).winIn (inp n))

/-- What reached the window before cycle `n`. -/
def history : ℕ → List WindowEvent
  | 0 => []
  | n + 1 => history n ++ (loads n).map (fun p ↦ .written p.1 p.2) ++
      ((loaded inp loads m n).win.done ((loaded inp loads m n).winIn (inp n))).toList.map .access

/-- The loader writes while no access waits, and no word that a valid data-cache line holds. -/
def LoadsApart : Prop :=
  ∀ n, ∀ p ∈ loads n, loadedHeld inp loads m n = none ∧
    ¬ (((loadedRun inp loads m n).win.dc.tags (Dcache.line p.1)).valid = true ∧
      ((loadedRun inp loads m n).win.dc.tags (Dcache.line p.1)).tag = Dcache.tag p.1)

end

section

variable {inp : ℕ → MachineIn} {loads : ℕ → List (PWord × Word)} {m : Machine}

theorem wbAfter_written (c : Wb) (ws : List (PWord × Word)) :
    wbAfter c (ws.map fun p ↦ .written p.1 p.2) =
      { c with psram := ws.foldl (fun mem p ↦ Function.update mem p.1 p.2) c.psram } := by
  induction ws generalizing c with
  | nil => rfl
  | cons p ws ih => exact ih _

theorem allApart_written {c : Wb} {ws : List (PWord × Word)} (h : ∀ p ∈ ws, ¬ c.Holds p.1) :
    AllApart c (ws.map fun p ↦ .written p.1 p.2) := by
  induction ws generalizing c with
  | nil => trivial
  | cons p ws ih =>
    exact ⟨h p List.mem_cons_self, ih fun q hq ↦ h q (List.mem_cons_of_mem _ hq)⟩

theorem wbAfter_access (c : Wb) (xs : List Access) :
    wbAfter c (xs.map .access) = c.accesses xs := by
  induction xs generalizing c with
  | nil => rfl
  | cons x xs ih => exact ih _

theorem allApart_access (c : Wb) (xs : List Access) : AllApart c (xs.map .access) := by
  induction xs generalizing c with
  | nil => trivial
  | cons x xs ih => exact ⟨trivial, ih _⟩

/-- The loader is outside of the handshake. -/
theorem bus_written {held : Option Access} (h : m.Bus held) (ws : List (PWord × Word)) :
    (written m ws).Bus held :=
  ⟨h.reach, h.steady, h.pulse, h.fetchIdx, h.dataIdx, h.held⟩

/-- Words that a loader writes while nothing is under way. -/
theorem runs_written {c : Wb} (h : m.win.Runs none .idle c c) (ws : List (PWord × Word)) :
    (written m ws).win.Runs none .idle (wbAfter c (ws.map fun p ↦ .written p.1 p.2))
      (wbAfter c (ws.map fun p ↦ .written p.1 p.2)) := by
  rw [wbAfter_written]
  have hr := h.rel
  have hi := h.inv
  refine ⟨⟨hi.icSwept, hi.dcSwept, hi.icAhead, hi.dcAhead, ?_⟩, ⟨hr.tags, hr.itags, hr.words,
    hr.iwords, ?_, hr.missed, ?_⟩, fun _ ↦ ⟨rfl, rfl⟩, by rintro x ⟨⟩⟩
  · cases hi.at' with
    | idle hi hd hb => exact .idle hi hd ⟨hb.1, hb.2⟩
  · exact congrArg (fun mem ↦ ws.foldl (fun mem p ↦ Function.update mem p.1 p.2) mem) hr.mem
  · intro hs
    cases hi.at' with
    | idle _ hd _ => cases hd.state.symm.trans hs

/-- The machine, the write-back cache and the emulator in cycle `n`, before and after the loader. -/
theorem loaded_runs (hm : m.Booted) (hl : LoadsApart inp loads m) (n : ℕ) :
    (loadedRun inp loads m n).Bus (loadedHeld inp loads m n) ∧
      AllApart m.win.contents (history inp loads m n) ∧
      ∃ p c, (loadedRun inp loads m n).win.Runs (loadedHeld inp loads m n) p c
        (wbAfter m.win.contents (history inp loads m n)) := by
  induction n with
  | zero => exact ⟨hm.bus, trivial, _, _, hm.cleared.1.runs⟩
  | succ n ih =>
    obtain ⟨hb, ha, p, c, hr⟩ := ih
    have hb' := bus_written hb (loads n)
    -- The loader's words.
    obtain ⟨hap, p', c', hr'⟩ : AllApart (wbAfter m.win.contents (history inp loads m n))
          ((loads n).map fun p ↦ .written p.1 p.2) ∧
        ∃ p' c', (loaded inp loads m n).win.Runs (loadedHeld inp loads m n) p' c'
          (wbAfter (wbAfter m.win.contents (history inp loads m n))
            ((loads n).map fun p ↦ .written p.1 p.2)) := by
      cases hws : loads n with
      | nil =>
        refine ⟨trivial, p, c, ?_⟩
        rw [loaded, hws]
        exact hr
      | cons q ws =>
        have hheld := (hl n q (by rw [hws]; exact List.mem_cons_self)).1
        rw [hheld] at hr ⊢
        obtain ⟨rfl, rfl⟩ := hr.idle rfl
        rw [← hws]
        refine ⟨allApart_written fun p hp ↦ ?_, _, _, runs_written hr (loads n)⟩
        have hnot := (hl n p hp).2
        rwa [hr.rel.tags] at hnot
    have ht := hr'.tick (hb'.follows (inp n))
    refine ⟨hb'.tick (inp n), ?_, ?_⟩
    · rw [history, allApart_append, allApart_append]
      exact ⟨⟨ha, hap⟩, allApart_access _ _⟩
    · rw [history, wbAfter, List.foldl_append, List.foldl_append]
      rw [← wbAfter_access] at ht
      exact ⟨_, _, ht⟩

end

/-- **The emulator's power-on reset leaves the PSRAM that the write-back cache leaves.**  The
machine and the emulator start with the same PSRAM and cold caches; the loader writes words that no
valid data line holds; the calls of the emulator ask of its window what reached the machine's.  Then
in every cycle that no access waits into, `reset` leaves the machine's PSRAM, and empty caches, as
does the machine's own power-on reset.  What was stored into a line that is not dirty any more is
kept, what was stored into one that is still dirty is back at its value from before, and a word that
`load_xmem` wrote is kept. -/
theorem power_on_leaves_psram (m : Machine) (hm : m.Booted) (inp : ℕ → MachineIn)
    (loads : ℕ → List (PWord × Word)) (hl : LoadsApart inp loads m) (mem : Emu.Memories)
    (hmem : ∀ w : PWord, mem.xmem w.toNat = m.win.ps.mem w) (n : ℕ)
    (hn : loadedHeld inp loads m n = none) (ks : List Emu.Call)
    (hks : ks.flatMap (Emu.Call.events mem) = history inp loads m n) :
    (∀ w : PWord, ((Emu.Window.mk mem .default).calls ks).reset.mem.xmem w.toNat =
      (loadedRun inp loads m n).win.ps.mem w) ∧
    ((Emu.Window.mk mem .default).calls ks).reset.caches = .default ∧
    (∀ s por k, s.IsReset → s.ps.mem = (loadedRun inp loads m n).win.ps.mem → 512 ≤ k →
      (∀ j < k, Win.Por (por j)) → (Win.run por s k).Cleared ∧
        ∀ w : PWord, ((Emu.Window.mk mem .default).calls ks).reset.mem.xmem w.toNat =
          (Win.run por s k).ps.mem w) ∧
    (∀ w : PWord, ((Emu.Window.mk mem .default).calls ks).caches.probed w.toNat = false →
      ((Emu.Window.mk mem .default).calls ks).reset.mem.xmem w.toNat =
        ((Emu.Window.mk mem .default).calls ks).mem.xmem w.toNat) ∧
    (∀ (w : PWord) (xs ys : List WindowEvent), history inp loads m n = xs ++ ys →
      (emuAfter ⟨mem, .default⟩ xs).caches.probed w.toNat = false →
      (∀ zs, zs <+: ys → zs ≠ [] →
        (emuAfter ⟨mem, .default⟩ (xs ++ zs)).caches.probed w.toNat = true) →
      ((Emu.Window.mk mem .default).calls ks).reset.mem.xmem w.toNat =
        (emuAfter ⟨mem, .default⟩ xs).mem.xmem w.toNat) ∧
    (∀ (w : PWord) (v : Word) (xs ys : List WindowEvent),
      history inp loads m n = xs ++ .written w v :: ys → (∀ e ∈ ys, ¬ e.Writes w) →
      ((Emu.Window.mk mem .default).calls ks).reset.mem.xmem w.toNat = v) := by
  obtain ⟨-, ha, p, c, hr⟩ := loaded_runs hm hl n
  obtain ⟨rfl, rfl⟩ := hr.idle hn
  have hc := hm.cleared.1
  have h0 : Linked ⟨mem, .default⟩ m.win.contents := by
    refine ⟨⟨fun l ↦ ?_, fun l ↦ ?_⟩, ?_, fun w hw ↦ ?_⟩
    · exact (congrArg itagOf (hc.itags l)).symm
    · exact (congrArg dlineOfTag (hc.tags l)).symm
    · have hcoh : m.win.contents.Coherent m.win.contents.psram :=
        Wb.coherent_of_empty hc.tags hc.itags
      rw [show psramOf mem.xmem = m.win.contents.psram from funext hmem]
      exact dark_coherent hcoh rfl rfl rfl
    · cases (hc.tags _).symm.trans hw
  have hn' := h0.events ha
  have hcalls : (Emu.Window.mk mem .default).calls ks =
      emuAfter ⟨mem, .default⟩ (history inp loads m n) := by
    rw [Emu.Window.calls_eq, hks]
  have hxmem : ∀ w : PWord, ((Emu.Window.mk mem .default).calls ks).reset.mem.xmem w.toNat =
      (loadedRun inp loads m n).win.ps.mem w := by
    intro w
    rw [hcalls, hn'.reset_xmem, hr.rel.mem]
    rfl
  refine ⟨hxmem, rfl, fun s por k hs hps hk hp ↦ ?_, fun w hw ↦ ?_, fun w xs ys hh hx hy ↦ ?_,
    fun w v xs ys hh hno ↦ ?_⟩
  · obtain ⟨hcl, hsame⟩ := hs.cleared hk hp
    refine ⟨hcl, fun w ↦ ?_⟩
    rw [hxmem w, hsame, hps]
  · rw [hcalls] at hw ⊢
    exact hn'.reset_kept hw
  · rw [hcalls, hh]
    rw [hh] at ha
    exact h0.reset_back ha hx hy
  · rw [hcalls, hh]
    rw [hh] at ha
    exact h0.reset_loaded ha hno

/-- `lui x1, 0x80000`, then `sw x1, 0(x1)` again and again; the controller answers at once. -/
def storesWindow (n : ℕ) : MachineIn where
  instrData := if n < 2 then 0x800000B7#32 else 0x0010A023#32
  dataOut := fun _ ↦ 0#32
  timerIrq := false
  msip := false
  mtime := 0#64
  uartRx := true
  ctl := ⟨true, true, true, 0#32⟩

theorem psram_bootedMachine : bootedMachine.win.ps.mem = fun _ ↦ 0#32 := by
  have h : (Win.run (fun _ ↦ Win.porIn) (Win.powerOn fun _ ↦ 0#32) 512).ps.mem =
      (Win.powerOn fun _ ↦ 0#32).ps.mem :=
    ((Win.isReset_powerOn _).cleared le_rfl fun _ _ ↦ Win.por_porIn).2
  exact h

/-- A word at 0x80000020, before the first cycle. -/
def oneWord : ℕ → List (PWord × Word)
  | 0 => [(8#21, 0x11#32)]
  | _ + 1 => []

theorem loadsApart_oneWord : LoadsApart storesWindow oneWord bootedMachine := by
  intro n p hp
  cases n with
  | zero =>
    obtain rfl : p = (8#21, 0x11#32) := by simpa [oneWord] using hp
    exact ⟨rfl, by decide +kernel⟩
  | succ n => cases hp

/-- The stored word is lost with its dirty line, the loaded one is kept. -/
theorem power_on_leaves_psram_dirty :
    history storesWindow oneWord bootedMachine 16 =
        [.written 8#21 0x11#32, .access (.store 0#21 0x80000000#32 0b1111#4)] ∧
      ((Emu.Window.mk ⟨fun _ ↦ 0#32, 0#32, fun _ ↦ 0#32, true⟩ .default).calls
        [.loadXmem 0x80000020#32 [0x11#8],
          .rvWrite 0x80000000#32 0x80000000#32 0b1111#4]).reset.mem.xmem 0 = 0#32 ∧
      ((Emu.Window.mk ⟨fun _ ↦ 0#32, 0#32, fun _ ↦ 0#32, true⟩ .default).calls
        [.loadXmem 0x80000020#32 [0x11#8],
          .rvWrite 0x80000000#32 0x80000000#32 0b1111#4]).reset.mem.xmem 8 = 0x11#32 := by
  have hh : history storesWindow oneWord bootedMachine 16 =
      [.written 8#21 0x11#32, .access (.store 0#21 0x80000000#32 0b1111#4)] := by decide +kernel
  have h := power_on_leaves_psram bootedMachine booted_bootedMachine storesWindow oneWord
    loadsApart_oneWord ⟨fun _ ↦ 0#32, 0#32, fun _ ↦ 0#32, true⟩ (fun w ↦ ?_) 16 (by decide +kernel)
    [.loadXmem 0x80000020#32 [0x11#8], .rvWrite 0x80000000#32 0x80000000#32 0b1111#4]
    (by rw [hh]; decide)
  · refine ⟨hh, (h.1 0#21).trans ?_, ?_⟩
    · decide +kernel
    · exact h.2.2.2.2.2 8#21 0x11#32 [] _ hh (by simp [WindowEvent.Writes])
  · rw [psram_bootedMachine]

end Vux9k

import Vux9k.Emu.Caches
import Vux9k.Rtl.Machine
import Vux9k.Rtl.Transparent

/-!
# The emulator's waits are the window's

`Caches` of the emulator follows the tags of the RTL's caches access by access, and an access waits
in the RTL as many cycles as `Caches` says.
-/

set_option autoImplicit false

namespace Vux9k

open Rtl (Access PWord Wb Machine Win ITag DTag Icache Dcache)

/-! ## Lines and tags of a word -/

theorem ilineOf_toNat (w : PWord) :
    Emu.ilineOf w.toNat = ((Icache.line w).toNat, (Icache.tag w).toNat) := by
  have hw : w.toNat < 2 ^ 21 := w.isLt
  rw [Emu.ilineOf, Emu.lineWords, Emu.icacheLines, Icache.line, Icache.tag,
    BitVec.extractLsb'_toNat, BitVec.extractLsb'_toNat, Nat.shiftRight_eq_div_pow,
    Nat.shiftRight_eq_div_pow]
  refine Prod.ext ?_ ?_
  · change w.toNat / 8 % _ = _
    omega
  · change w.toNat / 8 / _ = _
    omega

theorem dlineOf_toNat (w : PWord) :
    Emu.dlineOf w.toNat = ((Dcache.line w).toNat, (Dcache.tag w).toNat) := by
  have hw : w.toNat < 2 ^ 21 := w.isLt
  rw [Emu.dlineOf, Emu.lineWords, Emu.dcacheLines, Dcache.line, Dcache.tag,
    BitVec.extractLsb'_toNat, BitVec.extractLsb'_toNat, Nat.shiftRight_eq_div_pow,
    Nat.shiftRight_eq_div_pow]
  refine Prod.ext ?_ ?_
  · change w.toNat / 8 % _ = _
    omega
  · change w.toNat / 8 / _ = _
    omega

/-- An array indexed by the values of a bit vector. -/
theorem update_toNat {m : ℕ} {α : Type} (f : ℕ → α) (l k : BitVec m) (x : α) :
    Function.update f l.toNat x k.toNat = if k = l then x else f k.toNat := by
  rw [Function.update_apply]
  exact if_congr BitVec.toNat_inj rfl rfl

/-! ## Tags -/

/-- What the emulator has for an instruction-cache tag. -/
def itagOf (t : ITag) : Option ℕ := if t.valid then some t.tag.toNat else none

/-- What the emulator has for a data-cache tag. -/
def dlineOfTag (t : DTag) : Option Emu.DLine :=
  if t.valid then some ⟨t.tag.toNat, t.dirty⟩ else none

/-- The valid tags and the dirty bits of both caches are those of the emulator's. -/
structure TagsAgree (e : Emu.Caches) (itags : BitVec 9 → ITag) (tags : BitVec 6 → DTag) : Prop where
  itag : ∀ l, e.itag l.toNat = itagOf (itags l)
  dline : ∀ l, e.dline l.toNat = dlineOfTag (tags l)

theorem itagOf_eq_some {t : ITag} {n : BitVec 9} : itagOf t = some n.toNat ↔ t = ⟨true, n⟩ := by
  obtain ⟨v, tag⟩ := t
  cases v with
  | false => simp [itagOf]
  | true => simp [itagOf, BitVec.toNat_inj]

theorem dlineOfTag_eq_dirty {t : DTag} {n : BitVec 12} :
    dlineOfTag t = some ⟨n.toNat, true⟩ ↔ t = ⟨true, true, n⟩ := by
  obtain ⟨v, d, tag⟩ := t
  cases v with
  | false => simp [dlineOfTag]
  | true => simp [dlineOfTag, BitVec.toNat_inj, and_comm]

namespace TagsAgree

variable {e : Emu.Caches} {c : Wb} {itags : BitVec 9 → ITag} {tags : BitVec 6 → DTag}

theorem itag_update (h : TagsAgree e itags tags) (l : BitVec 9) (t : ITag) (k : BitVec 9) :
    Function.update e.itag l.toNat (itagOf t) k.toNat = itagOf (Function.update itags l t k) := by
  rw [update_toNat, Function.update_apply, apply_ite itagOf, h.itag]

theorem dline_update (h : TagsAgree e itags tags) (l : BitVec 6) (t : DTag) (k : BitVec 6) :
    Function.update e.dline l.toNat (dlineOfTag t) k.toNat =
      dlineOfTag (Function.update tags l t k) := by
  rw [update_toNat, Function.update_apply, apply_ite dlineOfTag, h.dline]

theorem itag_iff (h : TagsAgree e c.itags c.tags) (w : PWord) :
    e.itag (Icache.line w).toNat = some (Icache.tag w).toNat ↔ c.IHolds w := by
  rw [h.itag, itagOf_eq_some]
  rfl

theorem probed_iff (h : TagsAgree e c.itags c.tags) (w : PWord) :
    e.probed w.toNat = true ↔ c.tags (Dcache.line w) = ⟨true, true, Dcache.tag w⟩ := by
  rw [Emu.Caches.probed, decide_eq_true_iff, dlineOf_toNat, h.dline, dlineOfTag_eq_dirty]

/-- A load or store waits as long as the tags say. -/
theorem wait_eq (h : TagsAgree e c.itags c.tags) (w : PWord) :
    e.wait w.toNat =
      if c.Holds w then 0
      else if c.dirty (Dcache.line w) then Rtl.lineDirty else Rtl.lineFill := by
  rw [Emu.Caches.wait, dlineOf_toNat, h.dline]
  rcases ht : c.tags (Dcache.line w) with ⟨v, d, t⟩
  cases v with
  | false => simp [dlineOfTag, Wb.Holds, Wb.dirty, ht]; rfl
  | true => simp [dlineOfTag, Wb.Holds, Wb.dirty, ht, BitVec.toNat_inj]; rfl

theorem wait_eq_zero (h : TagsAgree e c.itags c.tags) (w : PWord) :
    e.wait w.toNat = 0 ↔ c.Holds w := by
  rw [h.wait_eq]
  by_cases hh : c.Holds w
  · simp [hh]
  · rw [if_neg hh]
    split <;> simp [hh, Rtl.lineDirty, Rtl.lineFill]

end TagsAgree

/-! ## What an access does to the tags -/

section

variable (c : Wb) (w : PWord)

theorem evict_tags (l : BitVec 6) : (c.evict l).tags = c.tags ∧ (c.evict l).itags = c.itags := by
  rw [Wb.evict]
  split <;> exact ⟨rfl, rfl⟩

theorem allocate_itags : (c.allocate w).itags = c.itags := by
  rw [Wb.allocate]
  split
  · rfl
  · exact (evict_tags c _).2

theorem allocate_tags : (c.allocate w).tags =
    if c.Holds w then c.tags
    else Function.update c.tags (Dcache.line w) ⟨true, false, Dcache.tag w⟩ := by
  rw [Wb.allocate]
  split
  · rfl
  · rw [Wb.fill, (evict_tags c _).1]

theorem holds_allocate : (c.allocate w).Holds w := by
  by_cases hh : c.Holds w
  · rwa [Wb.allocate_of_holds hh]
  · rw [Wb.Holds, allocate_tags, if_neg hh, Function.update_self]
    exact ⟨rfl, rfl⟩

theorem probe_itags : (c.probe w).itags = c.itags := by
  rw [Wb.probe]
  split <;> rfl

theorem probe_tags : (c.probe w).tags =
    if c.tags (Dcache.line w) = ⟨true, true, Dcache.tag w⟩ then
      Function.update c.tags (Dcache.line w) ⟨true, false, Dcache.tag w⟩
    else c.tags := by
  rw [Wb.probe]
  split <;> rfl

end

/-- An access, as a call of `Caches::fetch` or `Caches::access`. -/
def Emu.Caches.on (e : Emu.Caches) (mem : ℕ → Word) : Access → ℕ × Emu.Caches
  | .fetch w => e.fetch w.toNat
  | .load w => e.access w.toNat false mem
  | .store w _ _ => e.access w.toNat true mem

namespace TagsAgree

variable {e : Emu.Caches} {c : Wb}

/-- **A fetch waits and leaves the tags as the emulator says.** -/
theorem fetch (h : TagsAgree e c.itags c.tags) (w : PWord) :
    (e.fetch w.toNat).1 = c.wait (.fetch w) ∧
      TagsAgree (e.fetch w.toNat).2 (c.access (.fetch w)).itags (c.access (.fetch w)).tags := by
  simp only [Emu.Caches.fetch, ilineOf_toNat, dlineOf_toNat, Wb.wait, Wb.access, h.itag_iff,
    h.probed_iff]
  by_cases hi : c.IHolds w
  · simp only [if_pos hi]
    exact ⟨trivial, h.itag, h.dline⟩
  · simp only [if_neg hi, Wb.ifill, probe_itags, probe_tags]
    have hitag := h.itag_update (Icache.line w) ⟨true, Icache.tag w⟩
    by_cases hp : c.tags (Dcache.line w) = ⟨true, true, Dcache.tag w⟩
    · simp only [if_pos hp]
      exact ⟨rfl, hitag, h.dline_update (Dcache.line w) ⟨true, false, Dcache.tag w⟩⟩
    · simp only [if_neg hp]
      exact ⟨rfl, hitag, h.dline⟩

/-- The line of a load or a store is there. -/
theorem allocate (h : TagsAgree e c.itags c.tags) (w : PWord) (stats : Emu.CacheStats) :
    TagsAgree { e with dline := e.allocate w.toNat, stats } (c.allocate w).itags
      (c.allocate w).tags := by
  refine ⟨by rw [allocate_itags]; exact h.itag, fun l ↦ ?_⟩
  rw [allocate_tags]
  change e.allocate w.toNat l.toNat = _
  rw [Emu.Caches.allocate, dlineOf_toNat]
  by_cases hh : c.Holds w
  · rw [if_pos hh, if_neg (not_not.mpr ((h.wait_eq_zero w).mpr hh))]
    exact h.dline l
  · rw [if_neg hh, if_pos (mt (h.wait_eq_zero w).mp hh)]
    exact h.dline_update (Dcache.line w) ⟨true, false, Dcache.tag w⟩ l

/-- A store makes its line dirty. -/
theorem markDirty (h : TagsAgree e c.itags c.tags) {w : PWord} (hw : c.Holds w) (mem : ℕ → Word)
    (data : Word) (be : BitVec 4) :
    TagsAgree { e.markDirty w.toNat mem with
        itag := Function.update (e.markDirty w.toNat mem).itag (Emu.ilineOf w.toNat).1 none }
      (c.merge w data be).itags (c.merge w data be).tags := by
  have hline : e.dline (Dcache.line w).toNat =
      some ⟨(Dcache.tag w).toNat, (c.tags (Dcache.line w)).dirty⟩ := by
    rw [h.dline, dlineOfTag, if_pos hw.1, hw.2]
  have hitag : (e.markDirty w.toNat mem).itag = e.itag := by
    rw [Emu.Caches.markDirty]
    split
    · split <;> rfl
    · rfl
  refine ⟨fun l ↦ ?_, fun l ↦ ?_⟩
  · rw [hitag, ilineOf_toNat]
    exact h.itag_update (Icache.line w) .zero l
  · have hd := h.dline_update (Dcache.line w) ⟨true, true, Dcache.tag w⟩ l
    change (e.markDirty w.toNat mem).dline l.toNat =
      dlineOfTag (Function.update c.tags (Dcache.line w) ⟨true, true, Dcache.tag w⟩ l)
    rw [← hd, Emu.Caches.markDirty, dlineOf_toNat, hline]
    cases hdirty : (c.tags (Dcache.line w)).dirty with
    | true =>
      rw [hdirty] at hline
      exact (congrFun (Function.update_eq_self_iff.mpr hline.symm) _).symm
    | false => rfl

/-- **An access waits and leaves the tags as the emulator says.** -/
theorem on (h : TagsAgree e c.itags c.tags) (mem : ℕ → Word) (x : Access) :
    (e.on mem x).1 = c.wait x ∧ TagsAgree (e.on mem x).2 (c.access x).itags (c.access x).tags := by
  cases x with
  | fetch w => exact h.fetch w
  | load w => exact ⟨h.wait_eq w, h.allocate w _⟩
  | store w data be =>
    exact ⟨h.wait_eq w, (h.allocate w _).markDirty (holds_allocate c w) mem data be⟩

end TagsAgree

/-! ## Runs -/

namespace Emu.Window

/-- An access, as a call of the window. -/
def access (s : Window) : Access → ℕ × Window
  | .fetch w => ((s.fetchWord w.toNat).1.2, (s.fetchWord w.toNat).2)
  | .load w => ((s.loadWord w.toNat).1.2, (s.loadWord w.toNat).2)
  | .store w data be => s.storeWord w.toNat data be

/-- Accesses, one after the other. -/
def accesses (s : Window) (xs : List Access) : Window := xs.foldl (fun s x ↦ (s.access x).2) s

theorem access_caches (s : Window) (x : Access) :
    (s.access x).1 = (s.caches.on s.mem.xmem x).1 ∧
      (s.access x).2.caches = (s.caches.on s.mem.xmem x).2 := by
  cases x with
  | fetch w => exact ⟨rfl, rfl⟩
  | load w => exact ⟨rfl, rfl⟩
  | store w data be => exact ⟨rfl, rfl⟩

end Emu.Window

theorem TagsAgree.accesses {s : Emu.Window} {c : Wb} (h : TagsAgree s.caches c.itags c.tags)
    (xs : List Access) :
    TagsAgree (s.accesses xs).caches (c.accesses xs).itags (c.accesses xs).tags := by
  induction xs generalizing s c with
  | nil => exact h
  | cons x xs ih =>
    have hx := (h.on s.mem.xmem x).2
    rw [← (s.access_caches x).2] at hx
    exact ih hx

/-! ## A controller that keeps time -/

section

open Rtl (Burst Psram PsramIn MachineIn)

variable (rest : ℕ → MachineIn) (m : Machine)

variable {rest m}

end

/-- A machine in its first cycle, in front of an empty PSRAM. -/
def bootedMachine : Machine := ⟨.reset (fun _ ↦ 0#32) (fun _ ↦ 0#8) (fun _ ↦ 0#8), Win.bootedWin⟩

theorem booted_bootedMachine : bootedMachine.Booted where
  top := ⟨_, _, _, rfl⟩
  win := ⟨_, _, 512, Win.isReset_powerOn _, le_rfl, fun _ _ ↦ Win.por_porIn, rfl⟩

end Vux9k

import Vux9k.Fat.Device

/-!
# Calls of the methods

A volume may be on a card with anything on it, and the card may fail at any moment.  `Confined` is
what an environment and two conditions have to do with each other so that every call of a method
keeps the first of them, whatever entries and contents it meets: the first is for looking at the
card, and `begin_change` leads from it to the second, under which the card is changed.
-/

set_option autoImplicit false

namespace Vux9k

/-! ## Calls -/

/-- A call of one of the methods that change the volume. -/
inductive Call : Type
  | create (dir : DirEntry) (name : ShortName) (data : List Byte)
  | rename (dir entry : DirEntry) (name : ShortName)
  | remove (entry : DirEntry)
  | mkdir (parent : DirEntry) (name : ShortName)
  | rmdir (entry : DirEntry)
  | replace (dir : DirEntry) (name : ShortName) (data : List Byte)
  | moveTo (srcDir entry dstDir : DirEntry) (name : ShortName)

namespace Call

/-- The method called, without what it returns. -/
def run : Call → Vol Unit
  | .create dir name data => do let _ ← Vol.create dir name data
  | .rename dir entry name => Vol.rename dir entry name
  | .remove entry => Vol.remove entry
  | .mkdir parent name => do let _ ← Vol.mkdir parent name
  | .rmdir entry => Vol.rmdir entry
  | .replace dir name data => do let _ ← Vol.replace dir name data
  | .moveTo srcDir entry dstDir name => do let _ ← Vol.moveTo srcDir entry dstDir name

/-- The entry whose slots the method is to change. -/
def entry : Call → Option DirEntry
  | .rename _ entry _ => some entry
  | .remove entry => some entry
  | .rmdir entry => some entry
  | .moveTo _ entry _ _ => some entry
  | _ => none

end Call

/-! ## What the methods keep -/

/-- The methods keep `J`, and `W` once they have begun a change. -/
structure Confined (env : CardEnv) (I : Card → Prop) {g : Geometry} (X : Extent g)
    (J W : Card → Volume → Prop) : Prop where
  look : Stable env I X J
  change : Writable env I X W
  weaken : ∀ {c v}, W c v → J c v
  begin : ∀ {c v}, J c v → (Vol.beginChange v).Meets env I
    (fun r c' ↦ J c' r.2 ∧ (r.1 = .ok () → W c' r.2)) c

variable {α : Type} {env : CardEnv} {I : Card → Prop} {J W : Card → Volume → Prop} {Q : α → Prop}
  {g : Geometry} {X : Extent g}

/-- A condition that `begin_change` keeps too. -/
theorem Writable.confined (h : Writable env I X J)
    (hbegin : Keeps env I J Vol.beginChange fun _ ↦ True) : Confined env I X J J where
  look := h.toStable
  change := h
  weaken hJ := hJ
  begin hJ := (hbegin _ _ hJ).mono fun _ _ hr ↦ ⟨hr.1, fun _ ↦ hr.1⟩

theorem isDir_root (n : ℕ) : (DirEntry.root n).isDir = true := by
  change decide (attrDir &&& attrDir ≠ 0#8) = true
  decide

section Calls

variable (h : Confined env I X J W)
include h

theorem Confined.begin_bind {m : Vol α} (hm : Keeps env I W m Q) :
    Keeps env I J (Vol.beginChange >>= fun _ ↦ m) Q := by
  refine fun c v hJ ↦ (h.begin hJ).bind fun r c' hr ↦ ?_
  obtain ⟨x, v'⟩ := r
  cases x with
  | error e => exact ⟨hr.1, by simp⟩
  | ok _ => exact (hm c' v' (hr.2 rfl)).mono fun _ _ hr ↦ ⟨h.weaken hr.1, hr.2⟩

theorem Confined.create (dir : DirEntry) (name : ShortName) (data : List Byte) :
    Keeps env I J (Vol.create dir name data) (Within X.data) := by
  refine (h.look.find dir name).bind fun _ _ ↦ keeps_ite (fun _ ↦ keeps_throw _) fun _ ↦ ?_
  refine h.begin_bind ((h.change.writeChain data).bind fun first _ ↦
    (h.change.freeSlot dir).attempt.bind fun r hr ↦ ?_)
  cases r with
  | error e => exact h.change.giveBack first e
  | ok slot =>
    have hslot := hr slot rfl
    exact (h.change.writeEntry hslot _ _).bind fun _ _ ↦ keeps_pure ⟨hslot, hslot⟩

theorem Confined.rename (dir : DirEntry) {entry : DirEntry} (name : ShortName)
    (he : entry.isDir = true ∨ Within X.data entry) :
    Keeps env I J (Vol.rename dir entry name) fun _ ↦ True := by
  refine keeps_ite (fun _ ↦ keeps_throw _) fun hdir ↦ ?_
  have he := he.resolve_left hdir
  refine (h.look.find dir name).bind fun _ _ ↦ keeps_ite (fun _ ↦ keeps_throw _) fun _ ↦ ?_
  exact h.begin_bind ((h.change.deleteSlots he true).bind fun _ _ ↦ h.change.update he.lba _)

theorem Confined.remove {entry : DirEntry} (he : entry.isDir = true ∨ Within X.data entry) :
    Keeps env I J (Vol.remove entry) fun _ ↦ True := by
  refine keeps_ite (fun _ ↦ keeps_throw _) fun hdir ↦ h.begin_bind ?_
  refine (h.change.deleteSlots (he.resolve_left hdir) false).bind fun _ _ ↦ ?_
  exact keeps_ite (fun _ ↦ h.change.freeChain _) fun _ ↦ keeps_pure trivial

theorem Confined.mkdir (parent : DirEntry) (name : ShortName) :
    Keeps env I J (Vol.mkdir parent name) fun _ ↦ True := by
  have hW := h.change
  refine keeps_ite (fun _ ↦ keeps_throw _) fun _ ↦ ?_
  refine (h.look.find parent name).bind fun _ _ ↦ keeps_ite (fun _ ↦ keeps_throw _) fun _ ↦ ?_
  have hnone : ∀ p ∈ (none : Option ℕ), g.isCluster p = true := by simp
  refine h.begin_bind ((hW.allocCluster hnone).bind fun c hc ↦ hW.geom.bind fun v hv ↦ ?_)
  have hfill : ∀ up, Keeps env I W (Vol.fillDir parent name c up) fun _ ↦ True := by
    intro up
    refine (hW.setBuf _).bind fun _ _ ↦ hW.geom.bind fun v hv ↦ ?_
    have hlba : ∀ k < v.clusterSectors, X.data (v.clusterLba c + k) := by
      rw [hv]
      exact fun k hk ↦ X.data_cluster hc hk
    refine (hW.writeSectors _ 1 fun k _ hk ↦ hlba k (by omega)).bind fun _ _ ↦
      (hW.setBuf _).bind fun _ _ ↦ (hW.writeBuf (hlba 0 v.clusterSectors_pos)).bind fun _ _ ↦
        hW.flushFat.bind fun _ _ ↦ ?_
    refine (hW.freeSlot parent).bind fun slot hslot ↦ ?_
    exact (hW.writeEntry hslot _ _).bind fun _ _ ↦ keeps_pure trivial
  refine (hfill _).attempt.bind fun r _ ↦ ?_
  cases r with
  | ok slot => exact keeps_pure trivial
  | error e => exact (hW.freeChain c).attempt.bind fun _ _ ↦ keeps_throw e

theorem Confined.rmdir {entry : DirEntry} (he : entry.lba = 0 ∨ Within X.data entry) :
    Keeps env I J (Vol.rmdir entry) fun _ ↦ True := by
  refine keeps_ite (fun _ ↦ keeps_throw _) fun _ ↦ ?_
  refine keeps_ite (fun _ ↦ keeps_throw _) fun hroot ↦ ?_
  have he := he.resolve_left fun h ↦ hroot (.inl h)
  refine (h.look.findEntry entry _).bind fun _ _ ↦ keeps_ite (fun _ ↦ keeps_throw _) fun _ ↦ ?_
  exact h.begin_bind ((h.change.deleteSlots he false).bind fun _ _ ↦ h.change.freeChain _)

theorem Confined.replace (dir : DirEntry) (name : ShortName) (data : List Byte) :
    Keeps env I J (Vol.replace dir name data) fun _ ↦ True := by
  refine (h.look.find dir name).bind fun _ _ ↦ keeps_ite (fun _ ↦ keeps_throw _) fun _ ↦ ?_
  have hlast : ∀ new, Within X.data new → Keeps env I J (do
      Vol.rename dir new name
      pure { new with name := name }) fun _ ↦ True := fun new hnew ↦
    (h.rename dir name (.inr hnew)).bind fun _ _ ↦ keeps_pure trivial
  refine (h.look.find dir replaceTmp).bind fun stale hstale ↦ ?_
  rcases stale with _ | e
  on_goal 2 => refine (h.remove (.inr (hstale e rfl))).bind fun _ _ ↦ ?_
  all_goals
    refine keeps_ite (fun _ ↦ ?_) fun _ ↦ ?_
    · exact (h.create dir name data).mono fun _ _ ↦ trivial
    refine (h.create dir replaceTmp data).bind fun new hnew ↦ ?_
    refine (h.look.find dir name).bind fun old hold ↦ ?_
    cases old with
    | none => exact hlast new hnew
    | some e => exact (h.remove (.inr (hold e rfl))).bind fun _ _ ↦ hlast new hnew

theorem Confined.moveTo (srcDir dstDir : DirEntry) {entry : DirEntry} (name : ShortName)
    (he : entry.isDir = true ∨ Within X.data entry) :
    Keeps env I J (Vol.moveTo srcDir entry dstDir name) fun _ ↦ True := by
  refine keeps_ite (fun _ ↦ keeps_throw _) fun hdir ↦ ?_
  have hin := he.resolve_left fun h ↦ hdir (by simp [h])
  refine keeps_ite (fun _ ↦ ?_) fun _ ↦ ?_
  · exact (h.rename srcDir name he).bind fun _ _ ↦ keeps_pure trivial
  refine (h.look.find dstDir name).bind fun _ _ ↦ keeps_ite (fun _ ↦ keeps_throw _) fun _ ↦ ?_
  refine h.begin_bind ((h.change.readBuf hin.lba).bind fun s _ ↦
    (h.change.freeSlot dstDir).bind fun slot hslot ↦ ?_)
  exact (h.change.writeEntry hslot _ _).bind fun _ _ ↦
    (h.change.deleteSlots hin false).bind fun _ _ ↦ keeps_pure trivial

/-- The entry is the root, or one found in a directory. -/
def Issued (g : Geometry) (D : ℕ → Prop) (e : DirEntry) : Prop := e = .root g.root ∨ Within D e

theorem Confined.call {call : Call} (hcall : ∀ e ∈ call.entry, Issued g X.data e) :
    Keeps env I J call.run fun _ ↦ True := by
  have hdir : ∀ {e : DirEntry}, Issued g X.data e → e.isDir = true ∨ Within X.data e := by
    rintro e (rfl | he)
    · exact .inl (isDir_root g.root)
    · exact .inr he
  cases call with
  | create dir name data => exact (h.create dir name data).bind fun _ _ ↦ keeps_pure trivial
  | rename dir entry name => exact h.rename dir name (hdir (hcall entry rfl))
  | remove entry => exact h.remove (hdir (hcall entry rfl))
  | mkdir parent name => exact (h.mkdir parent name).bind fun _ _ ↦ keeps_pure trivial
  | rmdir entry => exact h.rmdir ((hcall entry rfl).imp (congrArg DirEntry.lba) id)
  | replace dir name data => exact (h.replace dir name data).bind fun _ _ ↦ keeps_pure trivial
  | moveTo srcDir entry dstDir name =>
    exact (h.moveTo srcDir dstDir name (hdir (hcall entry rfl))).bind fun _ _ ↦ keeps_pure trivial

end Calls

/-! ## Clients -/

/-- A client of a volume: what it calls next may depend on what the calls before have returned. -/
inductive Client : Type
  | done
  | find (dir : DirEntry) (p : DirEntry → Bool) (next : Except FatError (Option DirEntry) → Client)
  | readTo (file : DirEntry) (len : ℕ) (next : Except FatError (List Byte) → Client)
  | freeClusters (next : Except FatError ℕ → Client)
  | change (call : Call) (next : Except FatError Unit → Client)

namespace Client

/-- Its calls, one after the other. -/
def run : Client → Vol Unit
  | .done => pure ()
  | .find dir p next => do
    let r ← Vol.attempt (Vol.findEntry dir p)
    (next r).run
  | .readTo file len next => do
    let r ← Vol.attempt (Vol.readTo file len)
    (next r).run
  | .freeClusters next => do
    let r ← Vol.attempt Vol.freeClusters
    (next r).run
  | .change call next => do
    let r ← Vol.attempt call.run
    (next r).run

/-- It has the slots changed only of entries that it knew or that `find` has returned since. -/
def Honest (known : DirEntry → Prop) : Client → Prop
  | .done => True
  | .find _ _ next => ∀ r, (next r).Honest fun e ↦ known e ∨ r = .ok (some e)
  | .readTo _ _ next => ∀ r, (next r).Honest known
  | .freeClusters next => ∀ r, (next r).Honest known
  | .change call next => (∀ e ∈ call.entry, known e) ∧ ∀ r, (next r).Honest known

end Client

theorem Confined.client (h : Confined env I X J W) {known : DirEntry → Prop}
    (hknown : ∀ e, known e → Issued g X.data e) {client : Client} (hclient : client.Honest known) :
    Keeps env I J client.run fun _ ↦ True := by
  induction client generalizing known with
  | done => exact keeps_pure trivial
  | find dir p next ih =>
    refine (h.look.findEntry dir p).attempt.bind fun r hr ↦ ih r ?_ (hclient r)
    rintro e (he | rfl)
    · exact hknown e he
    · exact .inr (hr _ rfl e rfl)
  | readTo file len next ih =>
    exact (h.look.readTo file len).attempt.bind fun r _ ↦ ih r hknown (hclient r)
  | freeClusters next ih =>
    exact h.look.freeClusters.attempt.bind fun r _ ↦ ih r hknown (hclient r)
  | change call next ih =>
    refine (h.call fun e he ↦ hknown e (hclient.1 e he)).attempt.bind fun r _ ↦ ?_
    exact ih r hknown (hclient.2 r)

end Vux9k

import Vux9k.Fat.Answers
import Vux9k.Fat.Names

/-!
# One walk, two closures

The walk over a directory's slots decides by the volume and the card alone where to go next; the
closure only says where to stop.  So a closure that keeps more than another, and stops where it
stops, makes the same walk (`visitSlots_map`), and a run of the walk is a list of slots, the same
for every closure that stops at the last of them or at none (`Shows`).

`list` and `find_entry` are two such closures.
-/

set_option autoImplicit false

namespace Vux9k

namespace Vol

variable {σ σ' τ α β : Type}

/-! ## Programs of the volume -/

theorem bind_congr {m : Vol α} {f g : α → Vol β} (h : ∀ a, f a = g a) : m >>= f = m >>= g :=
  congrArg (m >>= ·) (funext h)

theorem bind_assoc {γ : Type} (m : Vol α) (f : α → Vol β) (g : β → Vol γ) :
    m >>= f >>= g = m >>= fun a ↦ f a >>= g := by
  funext v
  change (m v >>= _) >>= _ = m v >>= _
  rw [Prog.bind_assoc]
  refine Prog.bind_congr fun r ↦ ?_
  obtain ⟨x, w⟩ := r
  cases x with
  | ok a => rfl
  | error e => rfl

theorem pure_bind (a : α) (f : α → Vol β) : (pure a : Vol α) >>= f = f a := rfl

/-! ## A closure that keeps more -/

section Map

variable {f : σ → ℕ → ℕ → (ℕ → Byte) → Bool × σ} {f' : σ' → ℕ → ℕ → (ℕ → Byte) → Bool × σ'}
  {φ : σ → σ'}

/-- The second closure is the first without what `φ` forgets. -/
def Forgets (f : σ → ℕ → ℕ → (ℕ → Byte) → Bool × σ) (f' : σ' → ℕ → ℕ → (ℕ → Byte) → Bool × σ')
    (φ : σ → σ') : Prop :=
  ∀ st lba i e, f' (φ st) lba i e = ((f st lba i e).1, φ (f st lba i e).2)

theorem Forgets.scanSlots (h : Forgets f f' φ) (s : Sector) (lba n i : ℕ) (st : σ) :
    Vol.scanSlots f' s lba n i (φ st) =
      ((Vol.scanSlots f s lba n i st).1, φ (Vol.scanSlots f s lba n i st).2) := by
  induction n generalizing i st with
  | zero => rfl
  | succ n ih =>
    rw [Vol.scanSlots, Vol.scanSlots, h st lba i]
    obtain ⟨stop, st'⟩ := f st lba i (slotOf s i)
    cases stop with
    | true => rfl
    | false => exact ih (i + 1) st'

theorem Forgets.visitSectors (h : Forgets f f' φ) (lba n s : ℕ) (st : σ) :
    Vol.visitSectors f' lba n s (φ st) =
      Vol.visitSectors f lba n s st >>= fun r ↦ pure (r.1, φ r.2) := by
  induction n generalizing s st with
  | zero => rfl
  | succ n ih =>
    rw [Vol.visitSectors, Vol.visitSectors, bind_assoc]
    refine bind_congr fun y ↦ ?_
    cases y with
    | error e => rfl
    | ok buf =>
      dsimp only
      rw [h.scanSlots]
      obtain ⟨stop, st'⟩ := Vol.scanSlots f buf (lba + s) slotsPerSector 0 st
      cases stop with
      | some i => rfl
      | none => exact ih (s + 1) st'

theorem Forgets.visitClusters (h : Forgets f f' φ) (n c : ℕ) (st : σ) :
    Vol.visitClusters f' n c (φ st) =
      Vol.visitClusters f n c st >>= fun r ↦ pure (r.1, φ r.2) := by
  induction n generalizing c st with
  | zero => rfl
  | succ n ih =>
    rw [Vol.visitClusters, Vol.visitClusters, bind_assoc]
    refine bind_congr fun v ↦ ?_
    by_cases hc : v.isCluster c = true
    swap
    · rw [if_pos hc, if_pos hc]
      rfl
    rw [if_neg (not_not.mpr hc), if_neg (not_not.mpr hc), h.visitSectors, bind_assoc, bind_assoc]
    refine bind_congr fun r ↦ ?_
    obtain ⟨y, st'⟩ := r
    rw [pure_bind]
    rcases y with e | slot | slot
    · rfl
    · dsimp only
      rw [bind_assoc]
      refine bind_congr fun z ↦ ?_
      rcases z with e | next | next
      · rfl
      · rfl
      · exact ih next st'
    · rfl

/-- **A closure that keeps more makes the same walk.** -/
theorem Forgets.visitSlots (h : Forgets f f' φ) (first : ℕ) (st : σ) :
    Vol.visitSlots first f' (φ st) =
      Vol.visitSlots first f st >>= fun r ↦ pure (r.1, φ r.2) := by
  rw [Vol.visitSlots, Vol.visitSlots, bind_assoc]
  exact bind_congr fun v ↦ h.visitClusters v.clusterEnd first st

end Map

/-- The outcome of a walk, when a failure is passed on. -/
def rethrow : Except FatError α × σ → Vol (α × σ)
  | (.ok a, st) => pure (a, st)
  | (.error e, _) => throw e

theorem attempt_bind (m : Vol α) (f : Except FatError α → Vol β) :
    attempt m >>= f = fun v ↦ m v >>= fun r ↦ f r.1 r.2 := by
  funext v
  change (m v >>= _) >>= _ = _
  rw [Prog.bind_assoc]
  rfl

/-- What `?` does with a failure. -/
theorem bind_eq_attempt (m : Vol α) (f : α → Vol β) :
    m >>= f = attempt m >>= fun
      | .ok a => f a
      | .error e => throw e := by
  rw [attempt_bind]
  funext v
  refine Prog.bind_congr fun r ↦ ?_
  obtain ⟨x, w⟩ := r
  cases x with
  | ok a => rfl
  | error e => rfl

theorem walkSectors_eq (f : σ → ℕ → ℕ → (ℕ → Byte) → Bool × σ) (lba n s : ℕ) (st : σ) :
    walkSectors f lba n s st = visitSectors f lba n s st >>= rethrow := by
  induction n generalizing s st with
  | zero => rfl
  | succ n ih =>
    rw [walkSectors, visitSectors, bind_eq_attempt, bind_assoc]
    refine bind_congr fun y ↦ ?_
    cases y with
    | error e => rfl
    | ok buf =>
      dsimp only
      obtain ⟨stop, st'⟩ := scanSlots f buf (lba + s) slotsPerSector 0 st
      cases stop with
      | some i => rfl
      | none => exact ih (s + 1) st'

theorem walkClusters_eq (f : σ → ℕ → ℕ → (ℕ → Byte) → Bool × σ) (n c : ℕ) (st : σ) :
    walkClusters f n c st = visitClusters f n c st >>= rethrow := by
  induction n generalizing c st with
  | zero => rfl
  | succ n ih =>
    rw [walkClusters, visitClusters, bind_assoc]
    refine bind_congr fun v ↦ ?_
    by_cases hc : v.isCluster c = true
    swap
    · rw [if_pos hc, if_pos hc]
      rfl
    rw [if_neg (not_not.mpr hc), if_neg (not_not.mpr hc), walkSectors_eq, bind_assoc, bind_assoc]
    refine bind_congr fun r ↦ ?_
    obtain ⟨y, st'⟩ := r
    rcases y with e | slot | slot
    · rfl
    · dsimp only [rethrow]
      rw [bind_assoc, pure_bind]
      refine (bind_eq_attempt (nextCluster c) _).trans (bind_congr fun z ↦ ?_)
      rcases z with e | next | next
      · rfl
      · rfl
      · exact ih next st'
    · rfl

/-- **`visitSlots` is `walk_slots`**, but for what is left of a walk that fails. -/
theorem walkSlots_eq (first : ℕ) (f : σ → ℕ → ℕ → (ℕ → Byte) → Bool × σ) (st : σ) :
    walkSlots first f st = visitSlots first f st >>= rethrow := by
  rw [walkSlots, visitSlots, bind_assoc]
  exact bind_congr fun v ↦ walkClusters_eq f v.clusterEnd first st

/-! ## What the two closures do with a slot -/

/-- What the closure of `find_entry` has captured when that of `list` has captured `st`. -/
def Listing.forget {τ' : Type} (st : Listing τ) (seen : τ') : Seek τ' := ⟨⟨st.run, st.found⟩, seen⟩

/-- The run before the entry in slot `e`, if it has the entry's checksum. -/
def Listing.runAt (st : Listing τ) (e : ℕ → Byte) : Option (ℕ × ℕ × Byte) :=
  st.run.filter fun r ↦ r.2.2 = checksum (ShortName.ofFn e).1

/-- The entry in slot `e`. -/
def Listing.entryAt (st : Listing τ) (lba i : ℕ) (e : ℕ → Byte) : DirEntry :=
  .parse e lba i ((st.runAt e).map fun r ↦ (r.1, r.2.1))

/-- Its long name. -/
def Listing.longAt (st : Listing τ) (e : ℕ → Byte) : Option (List Byte) :=
  longNameOf (st.runAt e) st.long st.name

/-- Hand the entry `d` to the caller's closure, which says whether to stop. -/
def Listing.offer (st : Listing τ) (d : DirEntry) : Bool × τ → Bool × Listing τ
  | (true, seen) => (true, { st with found := some d, seen := seen })
  | (false, seen) => (false, { st with seen := seen })

/-- In the closure of `find_entry`. -/
def Seek.offer (st : Seek τ) (d : DirEntry) : Bool × τ → Bool × Seek τ
  | (true, seen) => (true, { st with found := some d, seen := seen })
  | (false, seen) => (false, { st with seen := seen })

/-- The two closures at the slot `e`, when that of `list` has captured `st`. -/
inductive SameSlot (st : Listing τ) (lba i : ℕ) (e : ℕ → Byte) : Prop
  | stop (hl : ∀ f, listSlot f st lba i e = (true, st))
      (hs : ∀ (τ' : Type) f (t : τ'), seekSlot f (st.forget t) lba i e = (true, st.forget t))
  | skip (st' : Listing τ) (seen : st'.seen = st.seen) (found : st'.found = st.found)
      (hl : ∀ f, listSlot f st lba i e = (false, st'))
      (hs : ∀ (τ' : Type) f (t : τ'), seekSlot f (st.forget t) lba i e = (false, st'.forget t))
  | entry (st' : Listing τ) (d : DirEntry) (long : Option (List Byte)) (seen : st'.seen = st.seen)
      (found : st'.found = st.found)
      (hl : ∀ f, listSlot f st lba i e = st'.offer d (f st.seen d long))
      (hs : ∀ (τ' : Type) f (t : τ'),
        seekSlot f (st.forget t) lba i e = (st'.forget t).offer d (f t d))

theorem Listing.seen_addSlot (st : Listing τ) (lba i : ℕ) (e : ℕ → Byte) :
    (st.addSlot lba i e).seen = st.seen := by
  dsimp only [Listing.addSlot]
  split <;> rfl

theorem Listing.found_addSlot (st : Listing τ) (lba i : ℕ) (e : ℕ → Byte) :
    (st.addSlot lba i e).found = st.found := by
  dsimp only [Listing.addSlot]
  split <;> rfl

theorem Listing.run_addSlot (st : Listing τ) (lba i : ℕ) (e : ℕ → Byte) :
    (st.addSlot lba i e).run =
      if e 0 &&& 0x40#8 ≠ 0#8 ∨ ∀ r ∈ st.run, r.2.2 ≠ e 13 then some (lba, i, e 13)
      else st.run := by
  dsimp only [Listing.addSlot]
  simp only [decide_eq_true_eq]
  split <;> rfl

theorem Listing.forget_eq {τ' : Type} {st st' : Listing τ} {t : τ'} {run : Option (ℕ × ℕ × Byte)}
    (hrun : st'.run = run) (hfound : st'.found = st.found) :
    st'.forget t = { st.forget t with lfn := run } := by
  rw [Listing.forget, hrun, hfound]
  rfl

theorem sameSlot (st : Listing τ) (lba i : ℕ) (e : ℕ → Byte) : SameSlot st lba i e := by
  by_cases h₀ : e 0 = 0#8
  · refine .stop (fun f ↦ ?_) fun τ' f t ↦ ?_
    · rw [listSlot, if_pos h₀]
    · rw [seekSlot, if_pos h₀]
  by_cases hdel : e 0 = deleted
  · refine .skip { st with run := none, long := none } rfl rfl (fun f ↦ ?_) fun τ' f t ↦ ?_
    · rw [listSlot, if_neg h₀, if_pos hdel]
    · rw [seekSlot, if_neg h₀, if_pos hdel]
      rfl
  by_cases hlfn : e 11 = attrLfn
  · refine .skip (st.addSlot lba i e) (st.seen_addSlot lba i e) (st.found_addSlot lba i e)
      (fun f ↦ ?_) fun τ' f t ↦ ?_
    · rw [listSlot, if_neg h₀, if_neg hdel, if_pos hlfn]
    · rw [seekSlot, if_neg h₀, if_neg hdel, if_pos hlfn]
      have hrun := st.run_addSlot lba i e
      rw [Listing.forget_eq hrun (st.found_addSlot lba i e)]
      by_cases hstart : e 0 &&& 0x40#8 ≠ 0#8 ∨ ∀ l ∈ st.run, l.2.2 ≠ e 13
      · rw [if_pos hstart]
        exact if_pos hstart
      · rw [if_neg hstart]
        exact if_neg hstart
  by_cases hvol : e 11 &&& attrVolume ≠ 0#8
  · refine .skip { st with run := none, long := none } rfl rfl (fun f ↦ ?_) fun τ' f t ↦ ?_
    · rw [listSlot, if_neg h₀, if_neg hdel, if_neg hlfn]
      exact if_pos hvol
    · rw [seekSlot, if_neg h₀, if_neg hdel, if_neg hlfn]
      exact if_pos hvol
  · refine .entry { st with run := none, long := none } (st.entryAt lba i e) (st.longAt e) rfl rfl
      (fun f ↦ ?_) fun τ' f t ↦ ?_
    · rw [listSlot, if_neg h₀, if_neg hdel, if_neg hlfn]
      exact if_neg hvol
    · rw [seekSlot, if_neg h₀, if_neg hdel, if_neg hlfn]
      exact if_neg hvol

/-! ## The two walks -/

/-- The closure of `find_entry` is that of `list`, without what the latter keeps of long names. -/
theorem forgets_list (f : τ → DirEntry → Bool × τ) :
    Forgets (listSlot fun t d _ ↦ f t d) (seekSlot f) fun st ↦ st.forget st.seen := by
  intro st lba i e
  cases sameSlot st lba i e with
  | stop hl hs => rw [hl, hs]
  | skip st' seen found hl hs =>
    rw [hl, hs, ← seen]
  | entry st' d long seen found hl hs =>
    rw [hl, hs]
    obtain ⟨stop, t⟩ := f st.seen d
    cases stop with
    | true => rfl
    | false => rfl

theorem list_eq_findEntryWith (dir : DirEntry) (f : τ → DirEntry → Bool × τ) (seen : τ) :
    list dir (fun t d _ ↦ f t d) seen = findEntryWith dir f seen := by
  rw [list, findEntryWith]
  by_cases hdir : dir.isDir = true
  swap
  · rw [if_pos hdir, if_pos hdir]
  rw [if_neg (not_not.mpr hdir), if_neg (not_not.mpr hdir)]
  have hwalk := (forgets_list f).visitSlots dir.cluster ⟨.zeros, none, none, none, seen⟩
  rw [show (⟨⟨none, none⟩, seen⟩ : Seek τ) =
    Listing.forget ⟨.zeros, none, none, none, seen⟩ seen from rfl, hwalk, bind_assoc]
  refine bind_congr fun r ↦ ?_
  obtain ⟨y, st⟩ := r
  cases y with
  | ok _ => rfl
  | error e => rfl

/-- `find_entry`'s closure for a closure of the caller that keeps nothing. -/
theorem forgets_search (p : DirEntry → Bool) :
    Forgets (seekSlot fun (_ : Unit) d ↦ (p d, ())) (searchSlot p) Seek.toSearch := by
  intro st lba i e
  rw [searchSlot, seekSlot]
  by_cases h₀ : e 0 = 0#8
  · rw [if_pos h₀, if_pos h₀]
  rw [if_neg h₀, if_neg h₀]
  by_cases hdel : e 0 = deleted
  · rw [if_pos hdel, if_pos hdel]
  rw [if_neg hdel, if_neg hdel]
  by_cases hlfn : e 11 = attrLfn
  · rw [if_pos hlfn, if_pos hlfn]
    split <;> rfl
  rw [if_neg hlfn, if_neg hlfn]
  dsimp only
  by_cases hvol : e 11 &&& attrVolume ≠ 0#8
  · rw [if_pos hvol, if_pos hvol]
  rw [if_neg hvol, if_neg hvol]
  cases p (DirEntry.parse e lba i _) with
  | true => rfl
  | false => rfl

/-- `findEntryWith` is `find_entry`, for a closure of the caller that keeps nothing. -/
theorem findEntry_eq (dir : DirEntry) (p : DirEntry → Bool) :
    findEntry dir p = findEntryWith dir (fun _ d ↦ (p d, ())) () >>= rethrow >>= fun r ↦
      pure r.1 := by
  rw [findEntry, findEntryWith]
  by_cases hdir : dir.isDir = true
  swap
  · rw [if_pos hdir, if_pos hdir]
    rfl
  rw [if_neg (not_not.mpr hdir), if_neg (not_not.mpr hdir), walkSlots_eq]
  have hwalk := (forgets_search p).visitSlots dir.cluster ⟨⟨none, none⟩, ()⟩
  rw [show (⟨none, none⟩ : Search) = Seek.toSearch (⟨⟨none, none⟩, ()⟩ : Seek Unit) from rfl, hwalk]
  simp only [bind_assoc, pure_bind]
  refine bind_congr fun r ↦ ?_
  obtain ⟨y, st⟩ := r
  cases y with
  | ok _ => rfl
  | error e => rfl

/-! ## The slots of a run -/

/-- A slot of a directory, and where it is. -/
structure Slot : Type where
  lba : ℕ
  index : ℕ
  bytes : ℕ → Byte

/-- The closure gets these slots, and stops at none of them but the last, there if `stop`. -/
inductive Feeds (f : σ → ℕ → ℕ → (ℕ → Byte) → Bool × σ) : List Slot → σ → Bool → σ → Prop
  | nil (st : σ) : Feeds f [] st false st
  | stop {s : Slot} {st st' : σ} (h : f st s.lba s.index s.bytes = (true, st')) :
      Feeds f [s] st true st'
  | next {s : Slot} {ss : List Slot} {st st₁ st' : σ} {b : Bool}
      (h : f st s.lba s.index s.bytes = (false, st₁)) (hs : Feeds f ss st₁ b st') :
      Feeds f (s :: ss) st b st'

theorem feeds_nil {f : σ → ℕ → ℕ → (ℕ → Byte) → Bool × σ} {st st' : σ} {b : Bool} :
    Feeds f [] st b st' ↔ b = false ∧ st' = st := by
  constructor
  · rintro ⟨⟩
    exact ⟨rfl, rfl⟩
  · rintro ⟨rfl, rfl⟩
    exact .nil _

theorem Feeds.append {f : σ → ℕ → ℕ → (ℕ → Byte) → Bool × σ} {ss ss' : List Slot} {st st₁ st' : σ}
    {b : Bool} (h : Feeds f ss st false st₁) (h' : Feeds f ss' st₁ b st') :
    Feeds f (ss ++ ss') st b st' := by
  generalize hb : false = b₀ at h
  induction h with
  | nil => exact h'
  | stop => cases hb
  | next h _ ih => exact .next h (ih h' hb)

/-- A closure that goes past the first slots without stopping. -/
theorem Feeds.split {f : σ → ℕ → ℕ → (ℕ → Byte) → Bool × σ} {ss ss' : List Slot} {st st' : σ}
    {b : Bool} (h : Feeds f (ss ++ ss') st b st') (hss : ss' = [] → b = false) :
    ∃ st₁, Feeds f ss st false st₁ ∧ Feeds f ss' st₁ b st' := by
  induction ss generalizing st with
  | nil => exact ⟨st, .nil st, h⟩
  | cons s ss ih =>
    generalize hl : s :: ss ++ ss' = l at h
    cases h with
    | nil => cases hl
    | stop h =>
      have hnil : ss ++ ss' = [] := (List.cons.inj hl).2
      exact absurd (hss (List.append_eq_nil_iff.mp hnil).2) nofun
    | next h hs =>
      obtain ⟨rfl, rfl⟩ := List.cons.inj hl
      obtain ⟨st₁, h₁, h₂⟩ := ih hs
      exact ⟨st₁, .next h h₁, h₂⟩

/-- A walk over slots, with the closure it is given. -/
abbrev SlotWalk (β : Type) : Type 1 :=
  (σ : Type) → (σ → ℕ → ℕ → (ℕ → Byte) → Bool × σ) → σ → Vol (Except FatError β × σ)

/-- With these answers of the card the walk shows these slots to every closure that stops at none
of them but the last, there if `stop`. -/
def Shows (walk : SlotWalk β) (v : Volume) (es : List FatEvent) (r : Except FatError β)
    (ss : List Slot) (stop : Bool) (v' : Volume) : Prop :=
  ∀ (σ : Type) (f : σ → ℕ → ℕ → (ℕ → Byte) → Bool × σ) (st st' : σ), Feeds f ss st stop st' →
    Runs (walk σ f st) v es (.ok (r, st')) v'

/-- Every run of the walk shows some slots; it stops at one of them if its result says so. -/
def Visits (walk : SlotWalk β) (v : Volume) (stopped : Except FatError β → Bool) : Prop :=
  ∀ (σ : Type) (f : σ → ℕ → ℕ → (ℕ → Byte) → Bool × σ) (st : σ) (es : List FatEvent)
    (x : Except FatError (Except FatError β × σ)) (v' : Volume), Runs (walk σ f st) v es x v' →
    ∃ r ss st', x = .ok (r, st') ∧ Feeds f ss st (stopped r) st' ∧
      Shows walk v es r ss (stopped r) v'

variable {walk : SlotWalk β} {v : Volume} {stopped : Except FatError β → Bool}

/-- A walk that is over. -/
theorem visits_pure {r : Except FatError β} (h : stopped r = false) :
    Visits (fun _ _ st ↦ pure (r, st)) v stopped := by
  intro σ f st es x v' hrun
  obtain ⟨rfl, rfl, rfl⟩ := runs_pure.mp hrun
  refine ⟨r, [], st, rfl, feeds_nil.mpr ⟨h, rfl⟩, fun σ f st st' hf ↦ ?_⟩
  obtain ⟨-, rfl⟩ := feeds_nil.mp hf
  exact runs_pure.mpr ⟨rfl, rfl, rfl⟩

theorem visits_gets {g : Volume → α} {walk : α → SlotWalk β} (h : Visits (walk (g v)) v stopped) :
    Visits (fun σ f st ↦ gets g >>= fun y ↦ walk y σ f st) v stopped := by
  intro σ f st es x v' hrun
  have hget : Runs (gets g) v [] (.ok (g v)) v := runs_gets.mpr ⟨rfl, rfl, rfl⟩
  obtain ⟨r, ss, st', rfl, hf, hshow⟩ := h σ f st es x v' hrun
  exact ⟨r, ss, st', rfl, hf, fun σ f st st' hf ↦ hget.bind (hshow σ f st st' hf)⟩

/-- A question to the card, which the closure has no part in. -/
theorem visits_attempt {m : Vol α} {walk : Except FatError α → SlotWalk β}
    (h : ∀ y w, Visits (walk y) w stopped) :
    Visits (fun σ f st ↦ attempt m >>= fun y ↦ walk y σ f st) v stopped := by
  intro σ f st es x v' hrun
  rcases runs_bind hrun with ⟨y, w, es₁, es₂, rfl, h₁, h₂⟩ | ⟨e, -, h₁⟩
  · obtain ⟨r, ss, st', rfl, hf, hshow⟩ := h y w σ f st es₂ x v' h₂
    exact ⟨r, ss, st', rfl, hf, fun σ f st st' hf ↦ h₁.bind (hshow σ f st st' hf)⟩
  · obtain ⟨y, hy, -⟩ := runs_attempt.mp h₁
    cases hy

/-- A walk, and what follows if the closure has not stopped in it. -/
theorem Visits.bind {γ : Type} {walk : SlotWalk γ} {k : Except FatError γ → SlotWalk β}
    {first : Except FatError γ → Bool} (h : Visits walk v first)
    (hstop : ∀ r, first r = true → ∃ q, stopped q = true ∧ k r = fun _ _ st ↦ pure (q, st))
    (hnext : ∀ r w, first r = false → Visits (k r) w stopped) :
    Visits (fun σ f st ↦ walk σ f st >>= fun y ↦ k y.1 σ f y.2) v stopped := by
  intro σ f st es x v' hrun
  rcases runs_bind hrun with ⟨y, w, es₁, es₂, rfl, h₁, h₂⟩ | ⟨e, -, h₁⟩
  swap
  · obtain ⟨r, ss, st', heq, -⟩ := h σ f st es _ v' h₁
    cases heq
  obtain ⟨r, ss, st', heq, hf, hshow⟩ := h σ f st es₁ (.ok y) w h₁
  cases heq
  rcases hr : first r with _ | _
  · obtain ⟨q, ss', st'', rfl, hf', hshow'⟩ := hnext r w hr σ f st' es₂ x v' h₂
    rw [hr] at hf hshow
    refine ⟨q, ss ++ ss', st'', rfl, hf.append hf', fun σ f st st' hall ↦ ?_⟩
    obtain ⟨st₁, hf₁, hf₂⟩ := hall.split fun hnil ↦ (feeds_nil.mp (hnil ▸ hf')).1
    exact (hshow σ f st st₁ hf₁).bind (hshow' σ f st₁ st' hf₂)
  · obtain ⟨q, hq, hk⟩ := hstop r hr
    rw [hk] at h₂
    obtain ⟨rfl, rfl, rfl⟩ := runs_pure.mp h₂
    rw [hr, ← hq] at hf hshow
    refine ⟨q, ss, st', rfl, hf, fun σ f st st' hall ↦ (hshow σ f st st' hall).bind ?_⟩
    rw [hk]
    exact runs_pure.mpr ⟨rfl, rfl, rfl⟩

theorem scanSlots_feeds (f : σ → ℕ → ℕ → (ℕ → Byte) → Bool × σ) (s : Sector) (lba n i : ℕ)
    (st : σ) :
    ∃ ss, Feeds f ss st (scanSlots f s lba n i st).1.isSome (scanSlots f s lba n i st).2 ∧
      ∀ (σ' : Type) (f' : σ' → ℕ → ℕ → (ℕ → Byte) → Bool × σ') (st₁ st₂ : σ'),
        Feeds f' ss st₁ (scanSlots f s lba n i st).1.isSome st₂ →
        scanSlots f' s lba n i st₁ = ((scanSlots f s lba n i st).1, st₂) := by
  induction n generalizing i st with
  | zero =>
    refine ⟨[], .nil st, ?_⟩
    rintro σ' f' st₁ st₂ ⟨⟩
    rfl
  | succ n ih =>
    rw [scanSlots]
    rcases hf : f st lba i (slotOf s i) with ⟨stop, st'⟩
    cases stop with
    | true =>
      refine ⟨[⟨lba, i, slotOf s i⟩], .stop hf, ?_⟩
      intro σ' f' st₁ st₂ h
      cases h with
      | stop h =>
        rw [scanSlots, h]
        rfl
      | next h hs => cases hs
    | false =>
      obtain ⟨ss, hss, hall⟩ := ih (i + 1) st'
      refine ⟨⟨lba, i, slotOf s i⟩ :: ss, .next hf hss, ?_⟩
      intro σ' f' st₁ st₂ h
      dsimp only at h hss
      generalize hb : Option.isSome _ = b at h
      cases h with
      | stop h => exact absurd (hb.symm.trans (feeds_nil.mp hss).1) nofun
      | next h hs =>
        rw [scanSlots, h]
        exact hall σ' f' _ st₂ (hb ▸ hs)

theorem visits_sectors (v : Volume) (lba n s : ℕ) :
    Visits (fun _ f st ↦ visitSectors f lba n s st) v fun r ↦ r.toOption.join.isSome := by
  induction n generalizing v s with
  | zero => exact visits_pure rfl
  | succ n ih =>
    refine visits_attempt fun y w ↦ ?_
    cases y with
    | error e => exact visits_pure rfl
    | ok buf =>
      intro σ f st es x v' hrun
      obtain ⟨ss, hss, hall⟩ := scanSlots_feeds f buf (lba + s) slotsPerSector 0 st
      dsimp only at hrun
      rcases hscan : scanSlots f buf (lba + s) slotsPerSector 0 st with ⟨stop, st'⟩
      rw [hscan] at hrun hss hall
      cases stop with
      | some i =>
        obtain ⟨rfl, rfl, rfl⟩ := runs_pure.mp hrun
        refine ⟨.ok (some (lba + s, i)), ss, st', rfl, hss, fun σ f st st' hf ↦ ?_⟩
        dsimp only
        rw [hall σ f st st' hf]
        exact runs_pure.mpr ⟨rfl, rfl, rfl⟩
      | none =>
        obtain ⟨r, ss', st'', rfl, hf', hshow⟩ := ih w (s + 1) σ f st' es x v' hrun
        refine ⟨r, ss ++ ss', st'', rfl, hss.append hf', fun σ f st st' hf ↦ ?_⟩
        obtain ⟨st₁, hf₁, hf₂⟩ := hf.split fun hnil ↦ (feeds_nil.mp (hnil ▸ hf')).1
        dsimp only
        rw [hall σ f st st₁ hf₁]
        exact hshow σ f st₁ st' hf₂

/-- What `walk_slots` does after a cluster's sectors. -/
def afterVisit (n c : ℕ) (r : Except FatError (Option (ℕ × ℕ))) : SlotWalk (ℕ × ℕ ⊕ ℕ) :=
  fun _ f st ↦
    match r with
    | .error e => pure (.error e, st)
    | .ok (some slot) => pure (.ok (.inl slot), st)
    | .ok none => do
      match ← attempt (nextCluster c) with
      | .error e => pure (.error e, st)
      | .ok (some next) => visitClusters f n next st
      | .ok none => pure (.ok (.inr c), st)

/-- Whether the walk's result is a slot at which the closure stopped. -/
def stoppedAt (r : Except FatError (ℕ × ℕ ⊕ ℕ)) : Bool := (r.toOption.bind Sum.getLeft?).isSome

theorem visits_clusters (v : Volume) (n c : ℕ) :
    Visits (fun _ f st ↦ visitClusters f n c st) v stoppedAt := by
  induction n generalizing v c with
  | zero => exact visits_pure rfl
  | succ n ih =>
    refine visits_gets ?_
    by_cases hc : v.isCluster c = true
    swap
    · simp only [id, hc]
      exact visits_pure rfl
    simp only [id, hc, not_true_eq_false, if_false]
    refine (visits_sectors v _ _ 0).bind (k := afterVisit n c) (fun r hr ↦ ?_) fun r w hr ↦ ?_
    · rcases r with e | slot | slot
      · cases hr
      · cases hr
      · exact ⟨.ok (.inl slot), rfl, rfl⟩
    · rcases r with e | slot | slot
      · exact visits_pure rfl
      · refine visits_attempt fun y w' ↦ ?_
        rcases y with e | next | next
        · exact visits_pure rfl
        · exact visits_pure rfl
        · exact ih w' next
      · cases hr

/-- **A run of the walk is a list of slots**, the same for every closure that stops at the last of
them, or at none. -/
theorem visits_slots (v : Volume) (first : ℕ) :
    Visits (fun _ f st ↦ visitSlots first f st) v stoppedAt :=
  visits_gets (visits_clusters v v.clusterEnd first)

/-! ## The entry found -/

/-- The caller's closure declines the entries `ds` and takes `e`. -/
def Takes (f : τ → DirEntry → Bool × τ) (e : DirEntry) : List DirEntry → τ → τ → Prop
  | [], t, t' => f t e = (true, t')
  | d :: ds, t, t' => ∃ t₁, f t d = (false, t₁) ∧ Takes f e ds t₁ t'

/-- On the slots on which `list` finds an entry, so does `find_entry`, for every closure that takes
the same of the entries shown to it. -/
theorem Feeds.found {f₀ : τ → DirEntry → Option (List Byte) → Bool × τ} {ss : List Slot}
    {st st' : Listing τ} {b : Bool} {e : DirEntry} (h : Feeds (listSlot f₀) ss st b st')
    (hst : st.found = none) (he : st'.found = some e) :
    ∃ ds, ∀ (τ' : Type) (f : τ' → DirEntry → Bool × τ') (t t' : τ'), Takes f e ds t t' →
      ∃ sk : Seek τ', Feeds (seekSlot f) ss (st.forget t) b sk ∧ sk.found = some e ∧
        sk.seen = t' := by
  induction h with
  | nil st => exact absurd (hst.symm.trans he) nofun
  | @stop s st st' h =>
    cases sameSlot st s.lba s.index s.bytes with
    | stop hl hs =>
      rw [hl] at h
      cases h
      exact absurd (hst.symm.trans he) nofun
    | skip st₁ seen found hl hs =>
      rw [hl] at h
      cases h
    | entry st₁ d long seen found hl hs =>
      rw [hl] at h
      rcases hf₀ : f₀ st.seen d long with ⟨stop, t₀⟩
      rw [hf₀] at h
      cases stop with
      | false => cases h
      | true =>
        cases h
        cases he
        refine ⟨[], fun τ' f t t' ht ↦ ?_⟩
        have hstop := (hs τ' f t).trans (congrArg ((st₁.forget t).offer e) ht)
        exact ⟨_, .stop hstop, rfl, rfl⟩
  | @next s ss st st₁ st' b h _ ih =>
    cases sameSlot st s.lba s.index s.bytes with
    | stop hl hs =>
      rw [hl] at h
      cases h
    | skip st₂ seen found hl hs =>
      rw [hl] at h
      cases h
      obtain ⟨ds, hds⟩ := ih (found.trans hst) he
      refine ⟨ds, fun τ' f t t' ht ↦ ?_⟩
      obtain ⟨sk, hf, hfound, hseen⟩ := hds τ' f t t' ht
      exact ⟨sk, .next (hs τ' f t) hf, hfound, hseen⟩
    | entry st₂ d long seen found hl hs =>
      rw [hl] at h
      rcases hf₀ : f₀ st.seen d long with ⟨stop, t₀⟩
      rw [hf₀] at h
      cases stop with
      | true => cases h
      | false =>
        cases h
        obtain ⟨ds, hds⟩ := ih (found.trans hst) he
        refine ⟨d :: ds, fun τ' f t t' ht ↦ ?_⟩
        obtain ⟨t₁, hdecl, ht⟩ := ht
        obtain ⟨sk, hf, hfound, hseen⟩ := hds τ' f t₁ t' ht
        refine ⟨sk, .next ?_ hf, hfound, hseen⟩
        rw [hs, hdecl]
        rfl

theorem runs_list_found {f₀ : τ → DirEntry → Option (List Byte) → Bool × τ} {dir e : DirEntry}
    {t₀ t₁ : τ} {v v' : Volume} {es : List FatEvent}
    (h : Runs (list dir f₀ t₀) v es (.ok (.ok (some e), t₁)) v') :
    ∃ ds, ∀ (τ' : Type) (f : τ' → DirEntry → Bool × τ') (t t' : τ'), Takes f e ds t t' →
      Runs (findEntryWith dir f t) v es (.ok (.ok (some e), t')) v' := by
  rw [list] at h
  by_cases hdir : dir.isDir = true
  swap
  · rw [if_pos hdir] at h
    cases (runs_pure.mp h).2.1
  rw [if_neg (not_not.mpr hdir)] at h
  rcases runs_bind h with ⟨y, w, es₁, es₂, rfl, h₁, h₂⟩ | ⟨e, he, -⟩
  swap
  · cases he
  obtain ⟨r, ss, st, heq, hf, hshow⟩ := visits_slots v dir.cluster _ _ _ es₁ _ w h₁
  cases heq
  rcases r with e' | r
  · cases (runs_pure.mp h₂).2.1
  obtain ⟨rfl, heq, rfl⟩ := runs_pure.mp h₂
  have hfound : st.found = some e := (Except.ok.inj (Prod.mk.inj (Except.ok.inj heq)).1).symm
  obtain ⟨ds, hds⟩ := hf.found rfl hfound
  refine ⟨ds, fun τ' f t t' ht ↦ ?_⟩
  obtain ⟨sk, hfeed, hsk, rfl⟩ := hds τ' f t t' ht
  rw [findEntryWith, if_neg (not_not.mpr hdir)]
  refine (hshow (Seek τ') _ _ sk hfeed).bind (runs_pure.mpr ⟨rfl, ?_, rfl⟩)
  rw [hsk]

/-- `find_entry` has shown its caller's closure the entries `ds`, of which it has returned the
last. -/
def Offered (dir : DirEntry) (v : Volume) (es : List FatEvent) (ds : List DirEntry) (v' : Volume) :
    Prop :=
  ∃ p : List DirEntry → DirEntry → Bool,
    Runs (findEntryWith dir (fun seen d ↦ (p seen d, seen ++ [d])) []) v es
      (.ok (.ok ds.getLast?, ds)) v'

/-- A closure that counts takes the entry after as many as there are in `ds`. -/
theorem takes_count (e : DirEntry) (ds seen : List DirEntry) (n : ℕ)
    (hn : n = seen.length + ds.length) :
    Takes (fun seen d ↦ (decide (n = seen.length), seen ++ [d])) e ds seen (seen ++ ds ++ [e]) := by
  induction ds generalizing seen with
  | nil =>
    rw [List.append_nil]
    simpa [Takes] using hn
  | cons d ds ih =>
    rw [List.length_cons] at hn
    refine ⟨seen ++ [d], by simp; omega, ?_⟩
    rw [show seen ++ d :: ds = seen ++ [d] ++ ds by simp]
    refine ih (seen ++ [d]) ?_
    rw [List.length_append, List.length_singleton]
    omega

/-- A closure that keeps nothing takes the first entry its predicate holds of. -/
theorem takes_first {p : DirEntry → Bool} {e : DirEntry} {ds : List DirEntry}
    (hds : ∀ d ∈ ds, p d = false) (he : p e = true) : Takes (fun _ d ↦ (p d, ())) e ds () () := by
  induction ds with
  | nil => exact congrArg (·, ()) he
  | cons d ds ih =>
    refine ⟨(), congrArg (·, ()) (hds d List.mem_cons_self), ih fun d' hd' ↦ ?_⟩
    exact hds d' (List.mem_cons_of_mem d hd')

/-- What `find_entry` returns, from the run of it that keeps what the caller's closure has. -/
theorem runs_findEntry {dir : DirEntry} {p : DirEntry → Bool} {d : Option DirEntry} {v v' : Volume}
    {es : List FatEvent} :
    Runs (findEntry dir p) v es (.ok d) v' ↔
      Runs (findEntryWith dir (fun _ d ↦ (p d, ())) ()) v es (.ok (.ok d, ())) v' := by
  rw [findEntry_eq, bind_assoc]
  constructor
  · intro h
    rcases runs_bind h with ⟨⟨y, _⟩, w, es₁, es₂, rfl, h₁, h₂⟩ | ⟨e, he, -⟩
    swap
    · cases he
    cases y with
    | ok d' =>
      obtain ⟨rfl, heq, rfl⟩ := runs_pure.mp (show Runs (pure d') w es₂ _ _ from h₂)
      cases heq
      rwa [List.append_nil]
    | error e => cases (runs_throw.mp (show Runs (throw e) w es₂ _ _ from h₂)).2.1
  · intro h
    rw [← List.append_nil es]
    exact h.bind (runs_pure.mpr ⟨rfl, rfl, rfl⟩)

/-- What `lookup` returns is what some walk of `list` has found. -/
theorem runs_lookup {dir e : DirEntry} {part : List Byte} {v v' : Volume} {es : List FatEvent}
    (h : Runs (lookup dir part) v es (.ok e) v') :
    ∃ es₀ es₁ w ds, es = es₀ ++ es₁ ∧
      ∀ (τ : Type) (f : τ → DirEntry → Bool × τ) (t t' : τ), Takes f e ds t t' →
        Runs (findEntryWith dir f t) w es₁ (.ok (.ok (some e), t')) v' := by
  have hlong : ∀ {w es₁}, Runs (lookupLong dir part) w es₁ (.ok e) v' →
      ∃ ds, ∀ (τ : Type) (f : τ → DirEntry → Bool × τ) (t t' : τ), Takes f e ds t t' →
        Runs (findEntryWith dir f t) w es₁ (.ok (.ok (some e), t')) v' := by
    intro w es₁ hrun
    rcases runs_bind hrun with ⟨⟨y, _⟩, w', es₂, es₃, rfl, h₁, h₂⟩ | ⟨e, he, -⟩
    swap
    · cases he
    rcases y with e' | d | d
    · cases (runs_throw.mp h₂).2.1
    · cases (runs_throw.mp h₂).2.1
    · obtain ⟨rfl, heq, rfl⟩ := runs_pure.mp h₂
      cases heq
      rw [List.append_nil]
      exact runs_list_found h₁
  rw [lookup] at h
  cases hshort : shortName part with
  | none =>
    rw [hshort] at h
    obtain ⟨ds, hds⟩ := hlong h
    exact ⟨[], es, v, ds, rfl, hds⟩
  | some short =>
    rw [hshort] at h
    rcases runs_bind h with ⟨y, w, es₁, es₂, rfl, h₁, h₂⟩ | ⟨e, he, -⟩
    swap
    · cases he
    cases y with
    | none =>
      obtain ⟨ds, hds⟩ := hlong h₂
      exact ⟨es₁, es₂, w, ds, rfl, hds⟩
    | some d =>
      obtain ⟨rfl, heq, rfl⟩ := runs_pure.mp h₂
      cases heq
      have hfind := runs_findEntry.mp h₁
      rw [← list_eq_findEntryWith] at hfind
      obtain ⟨ds, hds⟩ := runs_list_found hfind
      exact ⟨[], es₁, v, ds, by simp, hds⟩

/-- **`list` and `find_entry` see the same directory**: with a closure that ignores long names
`list` is `find_entry`, call for call, whatever the card answers, and so an entry that `lookup`
finds by its long name is the one found by its 8.3 name, if none before it has that name. -/
theorem list_sees_find_entry (dir : DirEntry) :
    (∀ (τ : Type) (f : τ → DirEntry → Bool × τ) (seen : τ),
      list dir (fun t d _ ↦ f t d) seen = findEntryWith dir f seen) ∧
    (∀ p, findEntry dir p =
      findEntryWith dir (fun _ d ↦ (p d, ())) () >>= rethrow >>= fun r ↦ pure r.1) ∧
    ∀ part v es e v', Runs (lookup dir part) v es (.ok e) v' →
      ∃ es₀ es₁ w ds, es = es₀ ++ es₁ ∧ Offered dir w es₁ (ds ++ [e]) v' ∧
        ((∀ d ∈ ds, d.name ≠ e.name) → Runs (find dir e.name) w es₁ (.ok (some e)) v') := by
  refine ⟨fun τ f seen ↦ list_eq_findEntryWith dir f seen, findEntry_eq dir, ?_⟩
  intro part v es e v' hrun
  obtain ⟨es₀, es₁, w, ds, hes, hds⟩ := runs_lookup hrun
  refine ⟨es₀, es₁, w, ds, hes, ⟨fun seen _ ↦ decide (ds.length = seen.length), ?_⟩, fun hname ↦ ?_⟩
  · rw [List.getLast?_concat]
    exact hds _ _ _ _ (takes_count e ds [] ds.length (by simp))
  · refine runs_findEntry.mpr (hds _ _ _ _ (takes_first (fun d hd ↦ ?_) ?_))
    · exact decide_eq_false (hname d hd)
    · exact decide_eq_true rfl

end Vol

end Vux9k

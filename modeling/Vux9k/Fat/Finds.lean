import Vux9k.Fat.LongNames

/-!
# What a search returns

`find_entry` and `list` return the first entry their caller's closure takes.  On a card that works
that is a matter of the directory alone: the entries before the first slot that was never used, with
their long names (`calls`), and how the walk ends when no entry is taken.  A `Directory` is just
that, and `directoryAt` the one whose chain starts at a cluster.
-/

set_option autoImplicit false

namespace Vux9k

open Vol (Slot Listing listSlot)

variable {τ : Type}

/-! ## The entry taken -/

/-- The first entry a closure of the caller takes. -/
def taken (f : τ → DirEntry → Option (List Byte) → Bool × τ) :
    List (DirEntry × Option (List Byte)) → τ → Option DirEntry
  | [], _ => none
  | (d, long) :: cs, t =>
    match f t d long with
    | (true, _) => some d
    | (false, t) => taken f cs t

/-- A closure that takes what satisfies `p`. -/
def takeIf (p : DirEntry → Option (List Byte) → Bool) (_ : Unit) (d : DirEntry)
    (long : Option (List Byte)) : Bool × Unit :=
  (p d long, ())

theorem taken_cons {f : τ → DirEntry → Option (List Byte) → Bool × τ} {t t' : τ} {d : DirEntry}
    {long : Option (List Byte)} {stop : Bool} (h : f t d long = (stop, t'))
    (cs : List (DirEntry × Option (List Byte))) :
    taken f ((d, long) :: cs) t = if stop then some d else taken f cs t' := by
  rw [taken, h]
  cases stop with
  | true => rfl
  | false => rfl

theorem mem_of_taken {f : τ → DirEntry → Option (List Byte) → Bool × τ}
    {cs : List (DirEntry × Option (List Byte))} {t : τ} {d : DirEntry} (h : taken f cs t = some d) :
    ∃ long, (d, long) ∈ cs := by
  induction cs generalizing t with
  | nil => cases h
  | cons x cs ih =>
    obtain ⟨d', long⟩ := x
    rcases hf : f t d' long with ⟨stop, t'⟩
    rw [taken_cons hf] at h
    cases stop with
    | true =>
      cases h
      exact ⟨long, List.mem_cons_self⟩
    | false =>
      obtain ⟨long', hmem⟩ := ih h
      exact ⟨long', List.mem_cons_of_mem _ hmem⟩

theorem taken_takeIf (p : DirEntry → Option (List Byte) → Bool)
    (cs : List (DirEntry × Option (List Byte))) :
    taken (takeIf p) cs () = (cs.find? fun x ↦ p x.1 x.2).map Prod.fst := by
  induction cs with
  | nil => rfl
  | cons x cs ih =>
    obtain ⟨d, long⟩ := x
    rw [taken, takeIf, List.find?_cons]
    cases p d long with
    | true => rfl
    | false => exact ih

theorem found_step (st : Listing τ) (s : Slot) : (st.step s).found = st.found := by
  rw [Listing.step]
  split
  · exact st.found_addSlot s.lba s.index s.bytes
  · rfl

/-- The closure of `list` stops at the entry taken, or at the end of the directory. -/
theorem feed_listSlot_found (f : τ → DirEntry → Option (List Byte) → Bool × τ) (ss : List Slot)
    (st : Listing τ) :
    (feed (listSlot f) ss st).2.found = (taken f (callsFrom st.naming ss) st.seen).or st.found ∧
      ((feed (listSlot f) ss st).1 = none ↔
        taken f (callsFrom st.naming ss) st.seen = none ∧ ∀ s ∈ ss, s.bytes 0 ≠ 0#8) := by
  induction ss generalizing st with
  | nil => exact ⟨rfl, by simp [feed, callsFrom, taken]⟩
  | cons s ss ih =>
    rw [feed, listSlot_eq, callsFrom]
    by_cases h₀ : s.bytes 0 = 0#8
    · rw [if_pos h₀, if_pos h₀]
      exact ⟨rfl, by simp [h₀]⟩
    rw [if_neg h₀, if_neg h₀]
    by_cases he : IsEntry s.bytes
    · rw [if_pos he, if_pos he]
      rcases hf : f st.seen (st.entryAt s.lba s.index s.bytes) (st.longAt s.bytes) with ⟨stop, t⟩
      have htaken := taken_cons hf (callsFrom (st.naming.step s) ss)
      change (taken f ((st.naming.entryAt s.lba s.index s.bytes, st.naming.longAt s.bytes) ::
        callsFrom (st.naming.step s) ss) st.seen) = _ at htaken
      rw [htaken]
      cases stop with
      | true => exact ⟨rfl, by simp [Listing.offer]⟩
      | false =>
        obtain ⟨hfound, hstop⟩ := ih { st.step s with seen := t }
        have hnaming : Listing.naming { st.step s with seen := t } = st.naming.step s :=
          naming_step st s
        rw [hnaming] at hfound hstop
        refine ⟨hfound.trans ?_, hstop.trans ?_⟩
        · rw [← found_step st s]
          rfl
        · simp [h₀]
    · rw [if_neg he, if_neg he, ← naming_step]
      obtain ⟨hfound, hstop⟩ := ih (st.step s)
      rw [seen_step] at hfound hstop
      rw [found_step] at hfound
      refine ⟨hfound, hstop.trans ?_⟩
      simp [h₀]

/-! ## A directory -/

/-- What a search can see of a directory: its entries with their long names, and how the walk ends
when no entry is taken. -/
structure Directory : Type where
  entries : List (DirEntry × Option (List Byte))
  ending : Except FatError Unit

/-- The directory with these slots, whose chain ends so. -/
def Directory.ofSlots (ss : List Slot) (chainEnd : Except FatError ℕ) : Directory where
  entries := calls ss
  ending := if ss.any fun s ↦ s.bytes 0 = 0#8 then .ok () else chainEnd.map fun _ ↦ ()

/-- The directory whose chain starts at `first`. -/
def directoryAt (c : Card) (v : Volume) (first : ℕ) : Directory :=
  .ofSlots (dirSlots c v first) (chainFrom v.toGeometry (v.entry c) v.clusterEnd first).2

namespace Directory

/-- What the search returns when the caller's closure has taken `d`. -/
def answer (dir : Directory) (d : Option DirEntry) : Except FatError (Option DirEntry) :=
  if d = none then dir.ending.map fun _ ↦ none else .ok d

/-- What is returned of the first entry that satisfies `p`. -/
def first (dir : Directory) (p : DirEntry → Option (List Byte) → Bool) :
    Except FatError (Option DirEntry) :=
  dir.answer ((dir.entries.find? fun x ↦ p x.1 x.2).map Prod.fst)

end Directory

/-- `list` returns what its caller's closure takes. -/
theorem walkChain_listSlot (f : τ → DirEntry → Option (List Byte) → Bool × τ) (g : Geometry)
    (c : Card) (chain : List ℕ × Except FatError ℕ) (seen : τ) :
    (walkChain (listSlot f) g c chain (Listing.start seen)).1.map
        (fun _ ↦ (walkChain (listSlot f) g c chain (Listing.start seen)).2.found) =
      (Directory.ofSlots (chain.1.flatMap (clusterSlots g c)) chain.2).answer
        (taken f (calls (chain.1.flatMap (clusterSlots g c))) seen) := by
  have hfeed := feed_listSlot_found f (chain.1.flatMap (clusterSlots g c)) (Listing.start seen)
  rw [calls_eq, snd_walkChain]
  rw [walkChain]
  rcases hrun : feed (listSlot f) (chain.1.flatMap (clusterSlots g c)) (Listing.start seen) with
    ⟨stop, st⟩
  rw [hrun] at hfeed
  obtain ⟨hfound, hstop⟩ := hfeed
  change st.found = (taken f (callsFrom (Listing.start ()) _) seen).or none at hfound
  change _ ↔ taken f (callsFrom (Listing.start ()) _) seen = none ∧ _ at hstop
  rw [Option.or_none] at hfound
  rw [← hfound] at hstop ⊢
  rw [Directory.answer, Directory.ofSlots]
  cases stop with
  | some slot =>
    by_cases hnone : st.found = none
    · rw [if_pos hnone, if_pos, hnone]
      · rfl
      · by_contra hall
        refine absurd (hstop.mpr ⟨hnone, fun s hs h₀ ↦ hall ?_⟩) (by simp)
        exact List.any_eq_true.mpr ⟨s, hs, by simpa using h₀⟩
    · rw [if_neg hnone]
      rfl
  | none =>
    obtain ⟨hnone, hall⟩ := hstop.mp rfl
    rw [if_pos hnone, if_neg, hnone]
    · cases chain.2 with
      | ok _ => rfl
      | error _ => rfl
    · rw [List.any_eq_true]
      rintro ⟨s, hs, h₀⟩
      exact hall s hs (by simpa using h₀)

section

variable {c c' : Card} {v v' : Volume} {dir : DirEntry}

theorem Same.dirSlots_eq (h : Same c v c' v') (hg : v.toGeometry.Laid) (first : ℕ) :
    dirSlots c' v' first = dirSlots c v first := by
  rw [dirSlots, dirSlots, h.chainFrom_eq hg, h.geometry]
  have hslots := funext h.clusterSlots_eq
  rw [h.geometry] at hslots
  rw [hslots]

theorem Same.directoryAt_eq (h : Same c v c' v') (hg : v.toGeometry.Laid) (first : ℕ) :
    directoryAt c' v' first = directoryAt c v first := by
  rw [directoryAt, directoryAt, h.dirSlots_eq hg, h.chainFrom_eq hg, h.geometry]

/-- **`list` returns what its caller's closure takes**, else as the directory ends. -/
theorem peeks_list_taken (h : Sound c v) (hdir : dir.isDir = true)
    (f : τ → DirEntry → Option (List Byte) → Bool × τ) (seen : τ) :
    ∃ seen', Peeks c v (Vol.list dir f seen) (.ok ((directoryAt c v dir.cluster).answer
      (taken f (directoryAt c v dir.cluster).entries seen), seen')) := by
  have hwalk := peeks_visitSlots (f := listSlot f) h dir.cluster (Listing.start seen)
  have hanswer := walkChain_listSlot f v.toGeometry c
    (chainFrom v.toGeometry (v.entry c) v.clusterEnd dir.cluster) seen
  rcases hrun : walkChain (listSlot f) v.toGeometry c
    (chainFrom v.toGeometry (v.entry c) v.clusterEnd dir.cluster) (Listing.start seen) with ⟨r, st⟩
  rw [hrun] at hwalk hanswer
  change _ = (directoryAt c v dir.cluster).answer
    (taken f (directoryAt c v dir.cluster).entries seen) at hanswer
  rw [Vol.list, if_neg (not_not.mpr hdir), ← hanswer]
  cases r with
  | ok _ => exact ⟨st.seen, hwalk.bind fun c₁ v₁ h₁ ↦ peeks_pure h₁.sound _⟩
  | error e => exact ⟨st.seen, hwalk.bind fun c₁ v₁ h₁ ↦ peeks_pure h₁.sound _⟩

theorem peeks_list_first (h : Sound c v) (hdir : dir.isDir = true)
    (p : DirEntry → Option (List Byte) → Bool) :
    Peeks c v (Vol.list dir (takeIf p) ()) (.ok ((directoryAt c v dir.cluster).first p, ())) := by
  obtain ⟨⟨⟩, hlist⟩ := peeks_list_taken h hdir (takeIf p) ()
  rw [taken_takeIf] at hlist
  exact hlist

/-- **`find_entry` returns the first entry that satisfies `p`.** -/
theorem peeks_findEntry (h : Sound c v) (hdir : dir.isDir = true) (p : DirEntry → Bool) :
    Peeks c v (Vol.findEntry dir p) ((directoryAt c v dir.cluster).first fun d _ ↦ p d) := by
  rw [Vol.findEntry_eq, ← Vol.list_eq_findEntryWith]
  have hlist := peeks_list_first h hdir fun d _ ↦ p d
  cases hfirst : (directoryAt c v dir.cluster).first fun d _ ↦ p d with
  | ok r =>
    rw [hfirst] at hlist
    exact (hlist.bind fun c₁ v₁ h₁ ↦ peeks_pure h₁.sound (r, ())).bind fun c₁ v₁ h₁ ↦
      peeks_pure h₁.sound r
  | error e =>
    rw [hfirst] at hlist
    have hthrow : Peeks c v (Vol.list dir (takeIf fun d _ ↦ p d) () >>= Vol.rethrow) (.error e) :=
      hlist.bind fun c₁ v₁ h₁ ↦ peeks_throw h₁.sound e
    exact hthrow.bind_error

end

end Vux9k

import Mathlib.Data.List.DropRight
import Vux9k.Fat.Finds
import Vux9k.Fat.Write

/-!
# Paths

The second half of `fw_common/src/fat/names.rs`: paths followed from a working directory, through
`.` and `..`, by 8.3 or long name.

A `Tree` is what these see of a volume, its directories by their first clusters.  Each of them has
its counterpart on a tree, in which nothing is read and nothing fails; `peeks_resolve` and its like
say that on a card that works they are the same.
-/

set_option autoImplicit false

namespace Vux9k

/-! ## Separators -/

/-- `is_separator`. -/
def isSeparator (c : Byte) : Bool := c = 0x2F#8 || c = 0x5C#8

/-- `split_last`: the path up to its last component, and that. -/
def splitLast (path : List Byte) : List Byte × List Byte :=
  let path := path.rdropWhile isSeparator
  (path.rdropWhile (!isSeparator ·), path.rtakeWhile (!isSeparator ·))

/-- The path begins with a separator. -/
def isAbsolute (path : List Byte) : Bool := (path.head?.map isSeparator).getD false

namespace Vol

/-! ## The methods -/

/-- `dot_dot`. -/
def dotDot (dir : DirEntry) : Vol (Option DirEntry) := do
  let v ← gets id
  if dir.cluster = v.root then pure none
  else
    match ← find dir Vux9k.dotDot with
    | none => throw .notFound
    | some up => pure (if up.cluster ≠ 0 ∧ up.cluster ≠ v.root then some up else none)

/-- What the closure of `parent` takes: the entry of the directory at `cluster`. -/
def isEntryOf (cluster : ℕ) (e : DirEntry) : Bool :=
  e.isDir && e.cluster = cluster && e.name.1.head? ≠ some 0x2E#8

/-- `parent`. -/
def parent (dir : DirEntry) : Vol DirEntry := do
  let v ← gets id
  match ← dotDot dir with
  | none => pure (.root v.root)
  | some up =>
    let above ← dotDot up
    match ← findEntry (above.getD (.root v.root)) (isEntryOf up.cluster) with
    | none => throw .notFound
    | some e => pure e

/-- A component that is not empty. -/
def enter (dir : DirEntry) (part : List Byte) : Vol DirEntry :=
  if part = [0x2E#8] then pure dir
  else if part = [0x2E#8, 0x2E#8] then parent dir
  else lookup dir part

/-- The loop of `resolve`. -/
def resolveParts : List (List Byte) → DirEntry → Vol DirEntry
  | [], d => pure d
  | part :: parts, d =>
    if part = [] then resolveParts parts d
    else if ¬d.isDir then throw .wrongType
    else do
      let d ← enter d part
      resolveParts parts d

/-- `resolve`. -/
def resolve (start : DirEntry) (path : List Byte) : Vol DirEntry := do
  let v ← gets id
  resolveParts (path.splitOnP isSeparator) (if isAbsolute path then .root v.root else start)

/-- `resolve_dir`. -/
def resolveDir (start : DirEntry) (path : List Byte) : Vol DirEntry := do
  let dir ← resolve start path
  if ¬dir.isDir then throw .wrongType else pure dir

/-- `resolve_parent`. -/
def resolveParent (start : DirEntry) (path : List Byte) : Vol (DirEntry × ShortName) :=
  match shortName (splitLast path).2 with
  | none => throw .badName
  | some name => do pure (← resolveDir start (splitLast path).1, name)

/-- `locate`. -/
def locate (start : DirEntry) (path : List Byte) : Vol (DirEntry × DirEntry) :=
  if (splitLast path).2 = [] ∨ (splitLast path).2 = [0x2E#8] ∨
      (splitLast path).2 = [0x2E#8, 0x2E#8] then throw .badName
  else do
    let dir ← resolveDir start (splitLast path).1
    let entry ← lookup dir (splitLast path).2
    pure (dir, entry)

end Vol

/-! ## Trees -/

/-- The directories of a volume, by their first clusters. -/
structure Tree : Type where
  root : ℕ
  dirs : ℕ → Directory

/-- The tree on a card. -/
def treeOn (c : Card) (v : Volume) : Tree := ⟨v.root, directoryAt c v⟩

namespace Tree

variable (t : Tree)

/-- `find_entry` and `list`. -/
def find (dir : DirEntry) (p : DirEntry → Option (List Byte) → Bool) :
    Except FatError (Option DirEntry) :=
  if ¬dir.isDir then .error .wrongType else (t.dirs dir.cluster).first p

/-- An entry, or `NotFound`. -/
def must (d : Option DirEntry) : Except FatError DirEntry :=
  match d with
  | none => .error .notFound
  | some d => .ok d

/-- `lookup` by long name. -/
def lookupLong (dir : DirEntry) (part : List Byte) : Except FatError DirEntry :=
  t.find dir (fun _ long ↦ Vol.longMatches part long) >>= must

/-- `lookup`. -/
def lookup (dir : DirEntry) (part : List Byte) : Except FatError DirEntry :=
  match shortName part with
  | none => t.lookupLong dir part
  | some short => do
    match ← t.find dir fun e _ ↦ e.name = short with
    | some e => .ok e
    | none => t.lookupLong dir part

/-- `dot_dot`. -/
def dotDot (dir : DirEntry) : Except FatError (Option DirEntry) :=
  if dir.cluster = t.root then .ok none
  else do
    let up ← t.find dir (fun e _ ↦ e.name = Vux9k.dotDot) >>= must
    .ok (if up.cluster ≠ 0 ∧ up.cluster ≠ t.root then some up else none)

/-- `parent`. -/
def parent (dir : DirEntry) : Except FatError DirEntry := do
  match ← t.dotDot dir with
  | none => .ok (.root t.root)
  | some up =>
    let above ← t.dotDot up
    t.find (above.getD (.root t.root)) (fun e _ ↦ Vol.isEntryOf up.cluster e) >>= must

/-- A component that is not empty. -/
def enter (dir : DirEntry) (part : List Byte) : Except FatError DirEntry :=
  if part = [0x2E#8] then .ok dir
  else if part = [0x2E#8, 0x2E#8] then t.parent dir
  else t.lookup dir part

/-- The loop of `resolve`. -/
def resolveParts : List (List Byte) → DirEntry → Except FatError DirEntry
  | [], d => .ok d
  | part :: parts, d =>
    if part = [] then resolveParts parts d
    else if ¬d.isDir then .error .wrongType
    else t.enter d part >>= resolveParts parts

/-- `resolve`. -/
def resolve (start : DirEntry) (path : List Byte) : Except FatError DirEntry :=
  t.resolveParts (path.splitOnP isSeparator) (if isAbsolute path then .root t.root else start)

/-- `resolve_dir`. -/
def resolveDir (start : DirEntry) (path : List Byte) : Except FatError DirEntry := do
  let dir ← t.resolve start path
  if ¬dir.isDir then .error .wrongType else .ok dir

/-- `resolve_parent`. -/
def resolveParent (start : DirEntry) (path : List Byte) :
    Except FatError (DirEntry × ShortName) :=
  match shortName (splitLast path).2 with
  | none => .error .badName
  | some name => do .ok (← t.resolveDir start (splitLast path).1, name)

/-- `locate`. -/
def locate (start : DirEntry) (path : List Byte) : Except FatError (DirEntry × DirEntry) :=
  if (splitLast path).2 = [] ∨ (splitLast path).2 = [0x2E#8] ∨
      (splitLast path).2 = [0x2E#8, 0x2E#8] then .error .badName
  else do
    let dir ← t.resolveDir start (splitLast path).1
    let entry ← t.lookup dir (splitLast path).2
    .ok (dir, entry)

end Tree

/-! ## On a card that works -/

section

variable {α β : Type} {c c' : Card} {v v' : Volume}

theorem Peeks.bind' {m : Vol α} {r : Except FatError α} {f : α → Vol β}
    {k : α → Except FatError β} (hm : Peeks c v m r)
    (hf : ∀ a c' v', r = .ok a → Same c v c' v' → Peeks c' v' (f a) (k a)) :
    Peeks c v (m >>= f) (r >>= k) := by
  cases r with
  | error e => exact hm.bind_error
  | ok a => exact hm.bind fun c' v' h ↦ hf a c' v' rfl h

theorem Same.treeOn_eq (h : Same c v c' v') (hg : v.toGeometry.Laid) :
    treeOn c' v' = treeOn c v := by
  rw [treeOn, treeOn, h.geometry, funext (h.directoryAt_eq hg)]

theorem Same.laid (h : Same c v c' v') : v'.toGeometry.Laid := h.sound.laid

theorem peeks_find_tree (h : Sound c v) (dir : DirEntry) (p : DirEntry → Bool) :
    Peeks c v (Vol.findEntry dir p) ((treeOn c v).find dir fun e _ ↦ p e) := by
  by_cases hdir : dir.isDir = true
  · rw [Tree.find, if_neg (not_not.mpr hdir)]
    exact peeks_findEntry h hdir p
  · rw [Tree.find, if_pos hdir, Vol.findEntry, if_pos hdir]
    exact peeks_throw h _

theorem peeks_lookupLong (h : Sound c v) (dir : DirEntry) (part : List Byte) :
    Peeks c v (Vol.lookupLong dir part) ((treeOn c v).lookupLong dir part) := by
  rw [Tree.lookupLong, Vol.lookupLong]
  by_cases hdir : dir.isDir = true
  · rw [Tree.find, if_neg (not_not.mpr hdir)]
    have hlist := peeks_list_first h hdir fun _ long ↦ Vol.longMatches part long
    change Peeks c v _ ((directoryAt c v dir.cluster).first _ >>= Tree.must)
    rcases hfirst : (directoryAt c v dir.cluster).first fun _ long ↦ Vol.longMatches part long with
      e | _ | d
    · rw [hfirst] at hlist
      exact hlist.bind fun c₁ v₁ h₁ ↦ peeks_throw h₁.sound e
    · rw [hfirst] at hlist
      exact hlist.bind fun c₁ v₁ h₁ ↦ peeks_throw h₁.sound _
    · rw [hfirst] at hlist
      exact hlist.bind fun c₁ v₁ h₁ ↦ peeks_pure h₁.sound d
  · rw [Tree.find, if_pos hdir]
    have hlist : Peeks c v (Vol.list dir (fun _ _ long ↦ (Vol.longMatches part long, ())) ())
        (.ok (.error .wrongType, ())) := by
      rw [Vol.list, if_pos hdir]
      exact peeks_pure h _
    exact hlist.bind fun c₁ v₁ h₁ ↦ peeks_throw h₁.sound _

theorem peeks_lookup (h : Sound c v) (dir : DirEntry) (part : List Byte) :
    Peeks c v (Vol.lookup dir part) ((treeOn c v).lookup dir part) := by
  rw [Tree.lookup, Vol.lookup]
  cases shortName part with
  | none => exact peeks_lookupLong h dir part
  | some short =>
    refine (peeks_find_tree h dir fun e ↦ e.name = short).bind' fun d c₁ v₁ _ h₁ ↦ ?_
    cases d with
    | some d => exact peeks_pure h₁.sound d
    | none =>
      rw [← h₁.treeOn_eq h.laid]
      exact peeks_lookupLong h₁.sound dir part

theorem peeks_dotDot (h : Sound c v) (dir : DirEntry) :
    Peeks c v (Vol.dotDot dir) ((treeOn c v).dotDot dir) := by
  rw [Tree.dotDot, Vol.dotDot]
  refine (peeks_gets h id).bind fun c₁ v₁ h₁ ↦ ?_
  change Peeks c₁ v₁ (if dir.cluster = v.root then _ else _)
    (if dir.cluster = v.root then _ else _)
  by_cases hroot : dir.cluster = v.root
  · rw [if_pos hroot, if_pos hroot]
    exact peeks_pure h₁.sound none
  rw [if_neg hroot, if_neg hroot, ← h₁.treeOn_eq h.laid, bind_assoc]
  refine (peeks_find_tree h₁.sound dir fun e ↦ e.name = Vux9k.dotDot).bind' fun up c₂ v₂ _ h₂ ↦ ?_
  have hroot₁ : (treeOn c₁ v₁).root = v.root := congrArg Geometry.root h₁.geometry
  rw [hroot₁]
  cases up with
  | none => exact peeks_throw h₂.sound _
  | some up => exact peeks_pure h₂.sound _

theorem peeks_parent (h : Sound c v) (dir : DirEntry) :
    Peeks c v (Vol.parent dir) ((treeOn c v).parent dir) := by
  rw [Tree.parent, Vol.parent]
  refine (peeks_gets h id).bind fun c₁ v₁ h₁ ↦ ?_
  rw [← h₁.treeOn_eq h.laid]
  have hroot : (treeOn c₁ v₁).root = v.root := congrArg Geometry.root h₁.geometry
  refine (peeks_dotDot h₁.sound dir).bind' fun up c₂ v₂ _ h₂ ↦ ?_
  rw [hroot]
  cases up with
  | none => exact peeks_pure h₂.sound _
  | some up =>
    dsimp only
    rw [← h₂.treeOn_eq h₁.laid]
    refine (peeks_dotDot h₂.sound up).bind' fun above c₃ v₃ _ h₃ ↦ ?_
    rw [← h₃.treeOn_eq h₂.laid]
    refine (peeks_find_tree h₃.sound _ _).bind' fun e c₄ v₄ _ h₄ ↦ ?_
    cases e with
    | none => exact peeks_throw h₄.sound _
    | some e => exact peeks_pure h₄.sound e

theorem peeks_enter (h : Sound c v) (dir : DirEntry) (part : List Byte) :
    Peeks c v (Vol.enter dir part) ((treeOn c v).enter dir part) := by
  rw [Tree.enter, Vol.enter]
  by_cases hdot : part = [0x2E#8]
  · rw [if_pos hdot, if_pos hdot]
    exact peeks_pure h dir
  rw [if_neg hdot, if_neg hdot]
  by_cases hdots : part = [0x2E#8, 0x2E#8]
  · rw [if_pos hdots, if_pos hdots]
    exact peeks_parent h dir
  · rw [if_neg hdots, if_neg hdots]
    exact peeks_lookup h dir part

theorem peeks_resolveParts (h : Sound c v) (parts : List (List Byte)) (d : DirEntry) :
    Peeks c v (Vol.resolveParts parts d) ((treeOn c v).resolveParts parts d) := by
  induction parts generalizing c v d with
  | nil => exact peeks_pure h d
  | cons part parts ih =>
    rw [Tree.resolveParts, Vol.resolveParts]
    by_cases hempty : part = []
    · rw [if_pos hempty, if_pos hempty]
      exact ih h d
    rw [if_neg hempty, if_neg hempty]
    by_cases hdir : d.isDir = true
    · rw [if_neg (not_not.mpr hdir), if_neg (not_not.mpr hdir)]
      refine (peeks_enter h d part).bind' fun d' c₁ v₁ _ h₁ ↦ ?_
      rw [← h₁.treeOn_eq h.laid]
      exact ih h₁.sound d'
    · rw [if_pos hdir, if_pos hdir]
      exact peeks_throw h _

/-- **`resolve` follows the path in the card's tree.** -/
theorem peeks_resolve (h : Sound c v) (start : DirEntry) (path : List Byte) :
    Peeks c v (Vol.resolve start path) ((treeOn c v).resolve start path) := by
  rw [Tree.resolve, Vol.resolve]
  refine (peeks_gets h id).bind fun c₁ v₁ h₁ ↦ ?_
  rw [← h₁.treeOn_eq h.laid]
  have hroot : (treeOn c₁ v₁).root = v.root := congrArg Geometry.root h₁.geometry
  rw [hroot]
  exact peeks_resolveParts h₁.sound _ _

theorem peeks_resolveDir (h : Sound c v) (start : DirEntry) (path : List Byte) :
    Peeks c v (Vol.resolveDir start path) ((treeOn c v).resolveDir start path) := by
  refine (peeks_resolve h start path).bind' fun d c₁ v₁ _ h₁ ↦ ?_
  by_cases hdir : d.isDir = true
  · rw [if_neg (not_not.mpr hdir), if_neg (not_not.mpr hdir)]
    exact peeks_pure h₁.sound d
  · rw [if_pos hdir, if_pos hdir]
    exact peeks_throw h₁.sound _

/-- **`resolve_parent` finds the directory in the card's tree**, and the name to be put there. -/
theorem peeks_resolveParent (h : Sound c v) (start : DirEntry) (path : List Byte) :
    Peeks c v (Vol.resolveParent start path) ((treeOn c v).resolveParent start path) := by
  rw [Tree.resolveParent, Vol.resolveParent]
  cases shortName (splitLast path).2 with
  | none => exact peeks_throw h _
  | some name =>
    exact (peeks_resolveDir h start _).bind' fun d c₁ v₁ _ h₁ ↦ peeks_pure h₁.sound (d, name)

/-- **`locate` finds the entry in the card's tree.** -/
theorem peeks_locate (h : Sound c v) (start : DirEntry) (path : List Byte) :
    Peeks c v (Vol.locate start path) ((treeOn c v).locate start path) := by
  rw [Tree.locate, Vol.locate]
  by_cases hlast : (splitLast path).2 = [] ∨ (splitLast path).2 = [0x2E#8] ∨
      (splitLast path).2 = [0x2E#8, 0x2E#8]
  · rw [if_pos hlast, if_pos hlast]
    exact peeks_throw h _
  rw [if_neg hlast, if_neg hlast]
  refine (peeks_resolveDir h start _).bind' fun d c₁ v₁ _ h₁ ↦ ?_
  rw [← h₁.treeOn_eq h.laid]
  refine (peeks_lookup h₁.sound d _).bind' fun e c₂ v₂ _ h₂ ↦ ?_
  exact peeks_pure h₂.sound (d, e)

end

end Vux9k

import Vux9k.Fat.MountArith
import Vux9k.Fat.ShortNames
import Vux9k.Fat.WellFormed
import Vux9k.Shell.Path

/-!
# The working directory and its path

`cd` of `stage2/src/cmds.rs` follows its argument twice: `resolve` goes through the card's
directories, `join` through the text that `pwd` shows.  A `Trail` is what the two have in common,
the components from the root down to a directory.  `..` takes the last of them away in both, and
`parent` is the way back that makes this right.
-/

set_option autoImplicit false

namespace Vux9k

/-! ## Trails -/

namespace Tree

/-- These components lead from the root to the directory `d`, each by a lookup. -/
inductive Trail (t : Tree) : List (List Byte) → DirEntry → Prop
  | root : t.Trail [] (.root t.root)
  | name {parts : List (List Byte)} {part : List Byte} {d e : DirEntry} (hd : t.Trail parts d)
      (he : t.lookup d part = .ok e) (hdir : e.isDir = true) : t.Trail (parts ++ [part]) e

variable {t : Tree} {d e : DirEntry} {parts : List (List Byte)} {part : List Byte}

/-- No 8.3 name begins with a dot. -/
theorem head?_shortName {name : ShortName} (h : shortName part = some name) :
    name.1.head? ≠ some 0x2E#8 := by
  obtain ⟨base, ext, h83, -, hname⟩ := shortName_eq_some.mp h
  obtain ⟨c, base, rfl⟩ := List.exists_cons_of_ne_nil h83.base_ne
  rw [hname, pad83, padTo, List.map_cons, List.cons_append, List.cons_append, List.head?_cons]
  have hc := h83.chars c (by simp)
  intro hdot
  rw [Option.some.inj hdot] at hc
  exact absurd hc (by decide)

/-- The entry found satisfies what it was searched for. -/
theorem takes_of_find {p : DirEntry → Option (List Byte) → Bool}
    (h : t.find d p = .ok (some e)) :
    ∃ long, (e, long) ∈ (t.dirs d.cluster).entries ∧ p e long = true := by
  rw [Tree.find] at h
  split at h
  · cases h
  have hfind := mem_of_answer h
  rw [Option.map_eq_some_iff] at hfind
  obtain ⟨⟨e', long⟩, hfind, rfl⟩ := hfind
  exact ⟨long, List.mem_of_find?_eq_some hfind, by simpa using List.find?_some hfind⟩

/-- An entry that is looked up by its name is not `.` or `..`. -/
theorem WellFormed.child_of_lookup (hw : t.WellFormed) (hd : t.IsDirectory d)
    (he : t.lookup d part = .ok e) (hdir : e.isDir = true) : t.Child d e := by
  refine ⟨(mem_of_lookup he).2, hdir, ?_⟩
  have hlong : t.lookupLong d part = .ok e → e.name.1.head? ≠ some 0x2E#8 := by
    intro h hdot
    obtain ⟨long, hmem, htaken⟩ := takes_of_find (mem_of_must h)
    rw [hw.dots d e long hd hmem hdot] at htaken
    cases htaken
  rw [Tree.lookup] at he
  cases hshort : shortName part with
  | none =>
    rw [hshort] at he
    exact hlong he
  | some short =>
    rw [hshort] at he
    dsimp only at he
    rcases hfind : t.find d fun e _ ↦ e.name = short with err | _ | d'
    · rw [hfind] at he
      cases he
    · rw [hfind] at he
      exact hlong he
    · rw [hfind] at he
      cases he
      obtain ⟨long, -, htaken⟩ := takes_of_find hfind
      rw [of_decide_eq_true htaken]
      exact head?_shortName hshort

theorem Trail.isDirectory (hw : t.WellFormed) (h : t.Trail parts d) : t.IsDirectory d := by
  induction h with
  | root => exact .root
  | name _ he hdir ih => exact .child ih (hw.child_of_lookup ih he hdir)

/-! ## The two walks -/

theorem resolveParts_append (ps qs : List (List Byte)) (d : DirEntry) :
    t.resolveParts (ps ++ qs) d = t.resolveParts ps d >>= t.resolveParts qs := by
  induction ps generalizing d with
  | nil => rfl
  | cons part ps ih =>
    rw [List.cons_append, Tree.resolveParts, Tree.resolveParts]
    split
    · exact ih d
    split
    · rfl
    · rw [bind_assoc]
      exact congrArg _ (funext ih)

/-- A trail is a path that leads there. -/
theorem Trail.resolveParts (hw : t.WellFormed) (h : t.Trail parts d)
    (hparts : ∀ part ∈ parts, IsName part) : t.resolveParts parts (.root t.root) = .ok d := by
  induction h with
  | root => rfl
  | @name parts part d e hd he hdir ih =>
    have hpart := hparts part (by simp)
    rw [resolveParts_append, ih fun q hq ↦ hparts q (List.mem_append_left _ hq)]
    change t.resolveParts [part] d = _
    rw [Tree.resolveParts, if_neg hpart.ne_nil, if_neg (not_not.mpr (hd.isDirectory hw).isDir),
      Tree.enter, if_neg hpart.ne_dot, if_neg hpart.ne_dots, he]
    rfl

/-- Nothing leads on from a file. -/
theorem eq_of_resolveParts_file (hfile : ¬d.isDir = true) (h : t.resolveParts parts d = .ok e) :
    e = d := by
  induction parts with
  | nil =>
    cases h
    rfl
  | cons part parts ih =>
    rw [Tree.resolveParts] at h
    split at h
    · exact ih h
    · cases h

/-- A component takes the trail to another. -/
theorem Trail.enter (hw : t.WellFormed) (h : t.Trail parts d) (hne : part ≠ [])
    (he : t.enter d part = .ok e) (hdir : e.isDir = true) : t.Trail (pushPart parts part) e := by
  rw [Tree.enter] at he
  rw [pushPart]
  by_cases hdot : part = [0x2E#8]
  · rw [if_pos hdot] at he
    cases he
    rwa [if_pos (.inr hdot)]
  rw [if_neg hdot] at he
  rw [if_neg (not_or.mpr ⟨hne, hdot⟩)]
  by_cases hdots : part = [0x2E#8, 0x2E#8]
  · rw [if_pos hdots] at he
    rw [if_pos hdots]
    cases h with
    | root =>
      rw [parent_root] at he
      cases he
      exact .root
    | name hd hlookup hdir' =>
      have hchild := hw.child_of_lookup (hd.isDirectory hw) hlookup hdir'
      rw [hw.parent_eq (hd.isDirectory hw) hchild] at he
      cases he
      rwa [List.dropLast_concat]
  · rw [if_neg hdots] at he
    rw [if_neg hdots]
    exact h.name he hdir

/-- **The walk through the directories and the text agree**, component by component. -/
theorem Trail.foldl (hw : t.WellFormed) {args : List (List Byte)} (h : t.Trail parts d)
    (he : t.resolveParts args d = .ok e) (hdir : e.isDir = true) :
    t.Trail (args.foldl pushPart parts) e := by
  induction args generalizing parts d with
  | nil =>
    cases he
    exact h
  | cons part args ih =>
    rw [Tree.resolveParts] at he
    rw [List.foldl_cons]
    by_cases hne : part = []
    · rw [if_pos hne] at he
      rw [pushPart, if_pos (.inl hne)]
      exact ih h he
    rw [if_neg hne, if_neg (not_not.mpr (h.isDirectory hw).isDir)] at he
    cases hd' : t.enter d part with
    | error err =>
      rw [hd'] at he
      cases he
    | ok d' =>
      rw [hd'] at he
      change t.resolveParts args d' = .ok e at he
      by_cases hdir' : d'.isDir = true
      · exact ih (h.enter hw hne hd' hdir') he
      · rw [eq_of_resolveParts_file hdir' he] at hdir
        exact absurd hdir hdir'

theorem Trail.resolve (hw : t.WellFormed) {arg : List Byte} (h : t.Trail parts d)
    (he : t.resolve d arg = .ok e) (hdir : e.isDir = true) : t.Trail (joined parts arg) e := by
  rw [Tree.resolve] at he
  rw [joined]
  by_cases habs : isAbsolute arg = true
  · rw [if_pos habs] at he ⊢
    exact Trail.root.foldl hw he hdir
  · rw [if_neg habs] at he ⊢
    exact h.foldl hw he hdir

/-- The path of a trail resolves to its end. -/
theorem Trail.resolve_render (hw : t.WellFormed) (h : t.Trail parts d)
    (hparts : ∀ part ∈ parts, IsName part) (start : DirEntry) :
    t.resolve start (render parts) = .ok d := by
  rw [Tree.resolve, if_pos (isAbsolute_render parts), splitOnP_render hparts, Tree.resolveParts,
    if_pos rfl]
  by_cases hnil : parts = []
  · subst hnil
    rw [if_pos rfl, Tree.resolveParts, if_pos rfl]
    exact h.resolveParts hw hparts
  · rw [if_neg hnil]
    exact h.resolveParts hw hparts

end Tree

/-! ## The command -/

/-- `Error`, as far as `cd` has it. -/
inductive CmdError : Type
  | fat (e : FatError)
  | pathTooLong
  deriving DecidableEq

/-- `Ctx`: the working directory (none for the root) and its path. -/
structure Ctx : Type where
  cwd : Option DirEntry
  path : Path

namespace Ctx

/-- At the start. -/
def start : Ctx := ⟨none, .root⟩

/-- The working directory, as `mount` has it for a command. -/
def dir (ctx : Ctx) (v : Volume) : DirEntry := ctx.cwd.getD (.root v.root)

end Ctx

/-- What `cd` makes of what its argument leads to. -/
def cdTo (ctx : Ctx) (arg : List Byte) : Except FatError DirEntry → Except CmdError Ctx
  | .error e => .error (.fat e)
  | .ok d =>
    if ¬d.isDir then .error (.fat .wrongType)
    else
      match ctx.path.join arg with
      | none => .error .pathTooLong
      | some path => .ok ⟨some d, path⟩

/-- `cd`, on the volume mounted for it. -/
def cd (ctx : Ctx) (arg : List Byte) (v : Volume) : FatProg (Except CmdError Ctx) :=
  Vol.resolve (ctx.dir v) arg v >>= fun r ↦ .ret (cdTo ctx arg r.1)

/-- Why a command failed if it did, and what the next one finds. -/
def Ctx.outcome (ctx : Ctx) : Except CmdError Ctx → Option CmdError × Ctx
  | .error e => (some e, ctx)
  | .ok ctx' => (none, ctx')

/-- A `cd` at the prompt. -/
def cdCommand (ctx : Ctx) (arg : List Byte) : FatProg (Option CmdError × Ctx) :=
  mount >>= fun
    | .error e => .ret (some (.fat e), ctx)
    | .ok v => cd ctx arg v >>= fun r ↦ .ret (ctx.outcome r)

/-- One `cd` after the other. -/
def cds : List (List Byte) → Ctx → Card → Ctx × Card
  | [], ctx, c => (ctx, c)
  | arg :: args, ctx, c =>
    cds args (onCard (cdCommand ctx arg) c).1.2 (c.after (onCard (cdCommand ctx arg) c).2)

/-! ## On a card -/

theorem Fresh.settled {v : Volume} (h : Fresh v) (c : Card) : Settled c v where
  laid := h.laid
  clean := h.dirty
  cached hne := absurd h.cached hne

section

variable {c : Card} {v : Volume}

/-- The working directory is where its path leads. -/
structure AtPath (t : Tree) (v : Volume) (ctx : Ctx) (parts : List (List Byte)) : Prop where
  trail : t.Trail parts (ctx.dir v)
  spells : Spells ctx.path parts
  names : ∀ part ∈ parts, IsName part

theorem onCard_cdCommand (hmount : onCard mount c = (.ok v, [])) (ctx : Ctx) (arg : List Byte) :
    onCard (cdCommand ctx arg) c =
      (ctx.outcome (cdTo ctx arg ((treeOn c v).resolve (ctx.dir v) arg)), []) := by
  have hset := (fresh_mount hmount).2.settled c
  obtain ⟨v', hresolve, -⟩ := stays_resolve hset (ctx.dir v) arg
  have hcd : onCard (cd ctx arg v) c =
      (cdTo ctx arg ((treeOn c v).resolve (ctx.dir v) arg), []) := by
    rw [cd, onCard_bind, hresolve]
    rfl
  rw [cdCommand, onCard_bind, hmount]
  change onCard (cd ctx arg v >>= fun r ↦ .ret (ctx.outcome r)) c = _
  rw [onCard_bind, hcd]
  rfl

theorem outcome_error {ctx ctx' : Ctx} {r : Except CmdError Ctx} {e : CmdError}
    (h : ctx.outcome r = (some e, ctx')) : ctx' = ctx := by
  cases r with
  | error e' =>
    cases h
    rfl
  | ok ctx₁ => cases h

/-- A `cd` leaves the working directory where its path leads. -/
theorem AtPath.cd {ctx : Ctx} {parts : List (List Byte)} (hw : (treeOn c v).WellFormed)
    (h : AtPath (treeOn c v) v ctx parts) (arg : List Byte) :
    ∃ parts', AtPath (treeOn c v) v
      (ctx.outcome (cdTo ctx arg ((treeOn c v).resolve (ctx.dir v) arg))).2 parts' := by
  cases hresolve : (treeOn c v).resolve (ctx.dir v) arg with
  | error e => exact ⟨parts, h⟩
  | ok d =>
    rw [cdTo]
    by_cases hdir : d.isDir = true
    swap
    · rw [if_pos hdir]
      exact ⟨parts, h⟩
    rw [if_neg (not_not.mpr hdir)]
    cases hjoin : ctx.path.join arg with
    | none => exact ⟨parts, h⟩
    | some path =>
      obtain ⟨hspells, hnames⟩ := h.spells.join h.names hjoin
      exact ⟨joined parts arg, h.trail.resolve hw hresolve hdir, hspells, hnames⟩

theorem AtPath.cds (hmount : onCard mount c = (.ok v, [])) (hw : (treeOn c v).WellFormed)
    (args : List (List Byte)) {ctx : Ctx} {parts : List (List Byte)}
    (h : AtPath (treeOn c v) v ctx parts) :
    ∃ ctx' parts', Vux9k.cds args ctx c = (ctx', c) ∧ AtPath (treeOn c v) v ctx' parts' := by
  induction args generalizing ctx parts with
  | nil => exact ⟨ctx, parts, rfl, h⟩
  | cons arg args ih =>
    rw [Vux9k.cds, onCard_cdCommand hmount]
    obtain ⟨parts', h'⟩ := h.cd hw arg
    exact ih h'

theorem atPath_start : AtPath (treeOn c v) v .start [] := ⟨.root, spells_root, by simp⟩

/-- The path is inside its buffer. -/
def Path.Inside (p : Path) : Prop := p.len ≤ pathMax ∧ p.overrun = false

/-- `join` is inside the buffer at each of its steps. -/
theorem AtPath.joining {t : Tree} {ctx : Ctx} {parts : List (List Byte)} (h : AtPath t v ctx parts)
    (arg : List Byte) (n : ℕ) {p : Path}
    (hp : ((arg.splitOnP isSeparator).take n).foldlM Path.joinPart
      (if isAbsolute arg then .root else ctx.path) = some p) : p.Inside := by
  have hargs : ∀ part ∈ (arg.splitOnP isSeparator).take n, ∀ c ∈ part, isSeparator c = false :=
    fun _ hmem ↦ not_separator_of_mem_splitOnP (List.mem_of_mem_take hmem)
  by_cases habs : isAbsolute arg = true
  · rw [if_pos habs] at hp
    have hspells := (spells_root.foldlM (by simp) hargs hp).1
    exact ⟨hspells.fits, hspells.inside⟩
  · rw [if_neg habs] at hp
    have hspells := (h.spells.foldlM h.names hargs hp).1
    exact ⟨hspells.fits, hspells.inside⟩

theorem resolve_dots (t : Tree) {d : DirEntry} (hdir : d.isDir = true) :
    t.resolve d [0x2E#8, 0x2E#8] = t.parent d := by
  have hsplit : [0x2E#8, 0x2E#8].splitOnP isSeparator = [[0x2E#8, 0x2E#8]] :=
    List.splitOnP_eq_singleton (by decide)
  rw [Tree.resolve, hsplit, if_neg (by decide), Tree.resolveParts, if_neg (by decide),
    if_neg (not_not.mpr hdir), Tree.enter, if_neg (by decide), if_pos rfl]
  cases t.parent d with
  | error e => rfl
  | ok e => rfl

/-- **`pwd` tells the truth.**  On a card whose tree is well-formed, after any `cd`s the path that
`pwd` shows resolves to the working directory; a `cd` that fails leaves both as they were; `..` of a
directory resolves to the entry of the directory it is in, and the root's to the root; and the path
is inside its buffer, also at every step of a `join`. -/
theorem pwd_tells_the_truth (hmount : onCard mount c = (.ok v, []))
    (hw : (treeOn c v).WellFormed) :
    (∀ args, ∃ ctx, cds args .start c = (ctx, c) ∧
      (∃ v', onCard (Vol.resolve (.root v.root) ctx.path.asBytes v) c =
        ((.ok (ctx.dir v), v'), [])) ∧
      (∀ arg e ctx', (onCard (cdCommand ctx arg) c).1 = (some e, ctx') → ctx' = ctx) ∧
      ctx.path.Inside ∧
      ∀ (arg : List Byte) (n : ℕ) (p : Path),
        ((arg.splitOnP isSeparator).take n).foldlM Path.joinPart
          (if isAbsolute arg then .root else ctx.path) = some p → p.Inside) ∧
    (∀ d e, (treeOn c v).IsDirectory d → (treeOn c v).Child d e →
      ∃ v', onCard (Vol.resolve e [0x2E#8, 0x2E#8] v) c = ((.ok d, v'), [])) ∧
    ∃ v', onCard (Vol.resolve (.root v.root) [0x2E#8, 0x2E#8] v) c =
      ((.ok (.root v.root), v'), []) := by
  have hset := (fresh_mount hmount).2.settled c
  refine ⟨fun args ↦ ?_, fun d e hd he ↦ ?_, ?_⟩
  · obtain ⟨ctx, parts, hcds, h⟩ := AtPath.cds hmount hw args atPath_start
    refine ⟨ctx, hcds, ?_, fun arg e ctx' hfail ↦ ?_, ⟨h.spells.fits, h.spells.inside⟩,
      fun arg n p ↦ h.joining arg n⟩
    · obtain ⟨v', hrun, -⟩ := stays_resolve hset (.root v.root) ctx.path.asBytes
      rw [h.spells.bytes] at hrun ⊢
      rw [h.trail.resolve_render hw h.names] at hrun
      exact ⟨v', hrun⟩
    · rw [onCard_cdCommand hmount] at hfail
      exact outcome_error hfail
  · obtain ⟨v', hrun, -⟩ := stays_resolve hset e [0x2E#8, 0x2E#8]
    rw [resolve_dots _ he.isDir, hw.parent_eq hd he] at hrun
    exact ⟨v', hrun⟩
  · obtain ⟨v', hrun, -⟩ := stays_resolve hset (.root v.root) [0x2E#8, 0x2E#8]
    have hroot := @Tree.parent_root (treeOn c v)
    rw [resolve_dots _ (Tree.isDir_root v.root)] at hrun
    exact ⟨v', hroot ▸ hrun⟩

end

/-! ## A card with one directory -/

/-- `SUB`. -/
def subName : ShortName := ⟨[0x53#8, 0x55#8, 0x42#8] ++ List.replicate 8 0x20#8, rfl⟩

/-- A partition at sector 1 whose root has a directory `SUB`. -/
def subCard : Card := fun lba ↦
  if lba = 0 then fun i ↦
    if i = 450 then 0x0C#8 else if i = 454 then 1#8 else if i = 510 then 0x55#8
    else if i = 511 then 0xAA#8 else 0#8
  else if lba = 1 then lateBoot
  else if lba = 2 then
    ofBytes (List.replicate 8 0#8 ++
      [0xFF#8, 0xFF#8, 0xFF#8, 0x0F#8, 0xFF#8, 0xFF#8, 0xFF#8, 0x0F#8])
  else if lba = 3 then ofBytes (entryBytes subName attrDir 3 0)
  else if lba = 4 then ofBytes (entryBytes dot attrDir 3 0 ++ entryBytes dotDot attrDir 0 0)
  else fun _ ↦ 0#8

/-- The volume on it. -/
def subVolume : Volume := bpbVolume 1 lateBoot

/-- The entry of `SUB`. -/
def subEntry : DirEntry := .parse (slotOf (subCard 3) 0) 3 0 none

theorem mount_subCard : onCard mount subCard = (.ok subVolume, []) := by
  have hsig : ¬¬hasSignature (subCard 0) = true := by decide
  have hpart : partitionLba (subCard 0) = .ok 1 := by decide
  have hok : BpbOk 1 lateBoot :=
    ⟨by decide, by decide, by decide, by decide, by decide, by decide, by decide, by decide,
      by decide, by decide, by decide, by decide, by decide⟩
  have hvolume : volumeOf 1 (subCard 1) = .ok subVolume := by
    change volumeOf 1 lateBoot = _
    rw [volumeOf_of_ok hok, if_pos (by decide)]
    rfl
  rw [mount, onCard]
  dsimp only
  rw [if_neg hsig, hpart]
  change (volumeOf 1 (subCard 1), []) = _
  rw [hvolume]

theorem entries_root_subCard :
    ((treeOn subCard subVolume).dirs 2).entries = [(subEntry, none)] := by
  decide

theorem entries_sub_subCard : ((treeOn subCard subVolume).dirs 3).entries =
    [(.parse (slotOf (subCard 4) 0) 4 0 none, none),
      (.parse (slotOf (subCard 4) 1) 4 1 none, none)] := by
  decide

/-- The root holds `SUB`, and `SUB` no directory. -/
theorem child_subCard {d e : DirEntry} (hd : d = .root 2 ∨ d = subEntry)
    (h : (treeOn subCard subVolume).Child d e) : d = .root 2 ∧ e = subEntry := by
  obtain ⟨long, hmem⟩ := h.mem
  rcases hd with rfl | rfl
  · change (e, long) ∈ ((treeOn subCard subVolume).dirs 2).entries at hmem
    rw [entries_root_subCard, List.mem_singleton] at hmem
    exact ⟨rfl, congrArg Prod.fst hmem⟩
  · change (e, long) ∈ ((treeOn subCard subVolume).dirs 3).entries at hmem
    rw [entries_sub_subCard, List.mem_cons, List.mem_singleton, Prod.mk.injEq, Prod.mk.injEq]
      at hmem
    have hname := h.name
    rcases hmem with ⟨rfl, -⟩ | ⟨rfl, -⟩
    · exact absurd rfl hname
    · exact absurd rfl hname

theorem isDirectory_subCard {d : DirEntry} (h : (treeOn subCard subVolume).IsDirectory d) :
    d = .root 2 ∨ d = subEntry := by
  induction h with
  | root => exact .inl rfl
  | child _ he ih => exact .inr (child_subCard ih he).2

theorem wellFormed_subCard : (treeOn subCard subVolume).WellFormed where
  cluster d e hd he := by
    rw [(child_subCard (isDirectory_subCard hd) he).2]
    decide
  unique d d' e e' hd hd' he he' _ := by
    rw [(child_subCard (isDirectory_subCard hd) he).2,
      (child_subCard (isDirectory_subCard hd') he').2]
  dotDot d e hd he := by
    obtain ⟨rfl, rfl⟩ := child_subCard (isDirectory_subCard hd) he
    refine ⟨.parse (slotOf (subCard 4) 1) 4 1 none, none, ?_, by decide, .inr ⟨by decide, rfl⟩⟩
    change List.find? _ ((treeOn subCard subVolume).dirs 3).entries = _
    rw [entries_sub_subCard]
    decide
  dots d e long hd hmem _ := by
    rcases isDirectory_subCard hd with rfl | rfl
    · change (e, long) ∈ ((treeOn subCard subVolume).dirs 2).entries at hmem
      rw [entries_root_subCard, List.mem_singleton] at hmem
      exact congrArg Prod.snd hmem
    · change (e, long) ∈ ((treeOn subCard subVolume).dirs 3).entries at hmem
      rw [entries_sub_subCard, List.mem_cons, List.mem_singleton] at hmem
      rcases hmem with hmem | hmem
      · exact congrArg Prod.snd hmem
      · exact congrArg Prod.snd hmem

/-- `sub/..\SUB`, then `nowhere`. -/
def subArgs : List (List Byte) :=
  [[0x73#8, 0x75#8, 0x62#8, 0x2F#8, 0x2E#8, 0x2E#8, 0x5C#8, 0x53#8, 0x55#8, 0x42#8],
    [0x6E#8, 0x6F#8, 0x77#8, 0x68#8, 0x65#8, 0x72#8, 0x65#8]]

theorem pwd_tells_the_truth_sub :
    onCard mount subCard = (.ok subVolume, []) ∧ (treeOn subCard subVolume).WellFormed ∧
    ∃ ctx, cds subArgs .start subCard = (ctx, subCard) ∧
      ∃ v', onCard (Vol.resolve (.root 2) ctx.path.asBytes subVolume) subCard =
        ((.ok (ctx.dir subVolume), v'), []) := by
  obtain ⟨hcds, -, -⟩ := pwd_tells_the_truth mount_subCard wellFormed_subCard
  obtain ⟨ctx, hrun, hresolve, -⟩ := hcds subArgs
  exact ⟨mount_subCard, wellFormed_subCard, ctx, hrun, hresolve⟩

end Vux9k

import Vux9k.Fat.Table

/-!
# What the methods do to a table

The methods of `fw_common/src/fat/write.rs` as steps of a table of names, with the number of free
clusters.  This says what they are for; `Fat.Operations` proves that they do it.
-/

set_option autoImplicit false

namespace Vux9k

/-- A method called, with names for the entries. -/
inductive Op : Type
  | create (dir : ℕ) (name : ShortName) (data : List Byte)
  | rename (dir : ℕ) (old new : ShortName)
  | remove (dir : ℕ) (name : ShortName)
  | mkdir (dir : ℕ) (name : ShortName)
  | rmdir (dir : ℕ) (name : ShortName)
  | replace (dir : ℕ) (name : ShortName) (data : List Byte)
  | moveTo (src : ℕ) (old : ShortName) (dst : ℕ) (new : ShortName)

/-- All or nothing: `replace` may already have removed what a cut one has left. -/
def Op.Whole : Op → Prop
  | .replace _ _ _ => False
  | _ => True

namespace Table

variable (need : List Byte → ℕ) (grow : ℕ → ℕ)

/-- The file under `name` is taken out, if there is one, and its clusters are free again. -/
inductive Without (t : Table) (n i : ℕ) (name : ShortName) : Table → ℕ → Prop
  | none (h : t.item i name = none) : Without t n i name t n
  | file {k : ℕ} {contents : List Byte} (h : t.item i name = some (.file k contents)) :
      Without t n i name (t.set i name none) (n + need contents)

/-- **The steps of a table.**  With `n` clusters free, a call returns `r` and leaves a table and so
many free clusters.  Contents take `need` clusters; a directory that has no slot for a new entry
takes a cluster more, which is what `grow` tells.  What `replace` removes first may make a slot. -/
inductive Step (t : Table) (n : ℕ) : Op → Except FatError Unit → Table → ℕ → Prop
  | createTaken {i : ℕ} {name : ShortName} {data : List Byte} (h : t.item i name ≠ none) :
      Step t n (.create i name data) (.error .exists) t n
  | createFull {i : ℕ} {name : ShortName} {data : List Byte} (h : t.item i name = none)
      (hn : n < need data + grow i) : Step t n (.create i name data) (.error .diskFull) t n
  | created {i m first : ℕ} {name : ShortName} {data : List Byte} (h : t.item i name = none)
      (hn : m + (need data + grow i) = n) :
      Step t n (.create i name data) (.ok ()) (t.set i name (some (.file first data))) m
  | renameDir {i k : ℕ} {old new : ShortName} (h : t.item i old = some (.dir k)) :
      Step t n (.rename i old new) (.error .wrongType) t n
  | renameTaken {i k : ℕ} {old new : ShortName} {contents : List Byte}
      (h : t.item i old = some (.file k contents)) (hnew : t.item i new ≠ none) :
      Step t n (.rename i old new) (.error .exists) t n
  | renamed {i k : ℕ} {old new : ShortName} {contents : List Byte}
      (h : t.item i old = some (.file k contents)) (hnew : t.item i new = none) :
      Step t n (.rename i old new) (.ok ())
        ((t.set i old none).set i new (some (.file k contents))) n
  | removeDir {i k : ℕ} {name : ShortName} (h : t.item i name = some (.dir k)) :
      Step t n (.remove i name) (.error .wrongType) t n
  | removed {i k : ℕ} {name : ShortName} {contents : List Byte}
      (h : t.item i name = some (.file k contents)) :
      Step t n (.remove i name) (.ok ()) (t.set i name none) (n + need contents)
  | mkdirTaken {i : ℕ} {name : ShortName} (h : t.item i name ≠ none) :
      Step t n (.mkdir i name) (.error .exists) t n
  | mkdirFull {i : ℕ} {name : ShortName} (h : t.item i name = none) (hn : n < 1 + grow i) :
    Step t n (.mkdir i name) (.error .diskFull) t n
  | made {i j m : ℕ} {name : ShortName} (h : t.item i name = none) (hj : j ∉ t.dirs)
      (hn : m + (1 + grow i) = n) :
      Step t n (.mkdir i name) (.ok ())
        ({ t with dirs := insert j t.dirs }.set i name (some (.dir j))) m
  | rmdirFile {i k : ℕ} {name : ShortName} {contents : List Byte}
      (h : t.item i name = some (.file k contents)) :
      Step t n (.rmdir i name) (.error .wrongType) t n
  | rmdirUsed {i j : ℕ} {name : ShortName} (h : t.item i name = some (.dir j))
      (hused : ∃ inner, t.item j inner ≠ none) : Step t n (.rmdir i name) (.error .notEmpty) t n
  | rmdirDone {i j k : ℕ} {name : ShortName} (h : t.item i name = some (.dir j))
      (hempty : ∀ inner, t.item j inner = none) (hk : 0 < k) :
      Step t n (.rmdir i name) (.ok ()) ({ t with dirs := t.dirs \ {j} }.set i name none) (n + k)
  | replaceDir {i k : ℕ} {name : ShortName} {data : List Byte} (h : t.item i name = some (.dir k)) :
      Step t n (.replace i name data) (.error .wrongType) t n
  | replaceTemp {i k : ℕ} {name : ShortName} {data : List Byte}
      (h : ∀ j, t.item i name ≠ some (.dir j)) (htemp : t.item i replaceTmp = some (.dir k)) :
      Step t n (.replace i name data) (.error .wrongType) t n
  | replaceFull {i k n' : ℕ} {name : ShortName} {data : List Byte} {t' : Table}
      (h : ∀ j, t.item i name ≠ some (.dir j)) (htemp : t.Without need n i replaceTmp t' n')
      (hk : k ≤ 1) (hn : n' < need data + k) :
      Step t n (.replace i name data) (.error .diskFull) t' n'
  | replaced {i k n' m m' first : ℕ} {name : ShortName} {data : List Byte} {t' t'' : Table}
      (h : ∀ j, t.item i name ≠ some (.dir j)) (htemp : t.Without need n i replaceTmp t' n')
      (hk : k ≤ 1) (hn : m + (need data + k) = n') (hold : t'.Without need m i name t'' m') :
      Step t n (.replace i name data) (.ok ()) (t''.set i name (some (.file first data))) m'
  | moveDir {i j k : ℕ} {old new : ShortName} (h : t.item i old = some (.dir k)) :
      Step t n (.moveTo i old j new) (.error .wrongType) t n
  | moveTaken {i j k : ℕ} {old new : ShortName} {contents : List Byte}
      (h : t.item i old = some (.file k contents)) (hnew : t.item j new ≠ none) :
      Step t n (.moveTo i old j new) (.error .exists) t n
  | moveFull {i j k : ℕ} {old new : ShortName} {contents : List Byte} (hij : i ≠ j)
      (h : t.item i old = some (.file k contents)) (hnew : t.item j new = none)
      (hn : n < grow j) :
      Step t n (.moveTo i old j new) (.error .diskFull) t n
  | moved {i j k m : ℕ} {old new : ShortName} {contents : List Byte}
      (h : t.item i old = some (.file k contents)) (hnew : t.item j new = none)
      (hn : m + (if i = j then 0 else grow j) = n) :
      Step t n (.moveTo i old j new) (.ok ())
        ((t.set i old none).set j new (some (.file k contents))) m

/-- A move within a directory is a rename. -/
theorem Step.move {need : List Byte → ℕ} {grow : ℕ → ℕ} {t t' : Table} {n n' i : ℕ}
    {old new : ShortName}
    {r : Except FatError Unit} (h : t.Step need grow n (.rename i old new) r t' n') :
    t.Step need grow n (.moveTo i old i new) r t' n' := by
  cases h with
  | renameDir h => exact .moveDir h
  | renameTaken h hnew => exact .moveTaken h hnew
  | renamed h hnew => exact .moved h hnew (by rw [if_pos rfl, Nat.add_zero])

end Table

end Vux9k

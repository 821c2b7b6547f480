import Vux9k.Firmware.Bytes
import Vux9k.Lib.Strobe

/-!
# The caches of the wait-state window

`soc_icache`, `soc_dcache` and `soc_xmem_bridge` of `soc`, cycle by cycle.  Lines are keyed by the
PSRAM word of an access, `addr[22:2]`.  A read of a RAM that is written in the same cycle gives the
old value, as in the RTL; a RAM that a cycle does not write is left as it is, also by a reset.
-/

set_option autoImplicit false

namespace Vux9k.Rtl

/-- A word of the PSRAM, `addr[22:2]`. -/
abbrev PWord := BitVec 21

/-! ## RAMs -/

section

variable {m : ℕ} {α : Type}

/-- A RAM after an edge that writes `wr`, if anything. -/
def ramTick (ram : BitVec m → α) : Option (BitVec m × α) → BitVec m → α
  | some (a, x) => Function.update ram a x
  | none => ram

/-- The edge writes what it reads. -/
def collides (wr : Option (BitVec m × α)) (a : BitVec m) : Bool :=
  match wr with
  | some (b, _) => b = a
  | none => false

theorem ramTick_of_not_collides {ram : BitVec m → α} {wr : Option (BitVec m × α)} {a : BitVec m}
    (h : collides wr a = false) : ramTick ram wr a = ram a := by
  cases wr with
  | none => rfl
  | some w =>
    have hne : w.1 ≠ a := by simpa [collides] using h
    exact Function.update_of_ne hne.symm _ _

theorem ramTick_of_collides (ram : BitVec m → α) {wr : Option (BitVec m × α)} {a : BitVec m}
    (h : collides wr a = true) : ∃ x, wr = some (a, x) ∧ ramTick ram wr a = x := by
  cases wr with
  | none => simp [collides] at h
  | some w =>
    obtain ⟨b, x⟩ := w
    have hb : b = a := by simpa [collides] using h
    subst hb
    exact ⟨x, rfl, Function.update_self _ _ _⟩

end

/-! ## `soc_icache` -/

/-- `State` of `soc_icache`. -/
inductive IcacheState : Type
  | idle
  | fill
  deriving DecidableEq

/-- An entry of its `tags`. -/
structure ITag : Type where
  valid : Bool
  tag : BitVec 9
  deriving DecidableEq

/-- `10'd0`. -/
def ITag.zero : ITag := ⟨false, 0#9⟩

/-- The registers and RAMs of `soc_icache`. -/
structure Icache : Type where
  tags : BitVec 9 → ITag
  words : BitVec 12 → Word
  tagQ : ITag
  wordQ : Word
  rdIdxQ : BitVec 12
  conflictQ : Bool
  replayQ : Bool
  swept : Bool
  sweepIdx : BitVec 9
  state : IcacheState
  cnt : BitVec 3

/-- The inputs of `soc_icache`. -/
structure IcacheIn : Type where
  clear : Bool
  rdIdx : BitVec 12
  fetchReq : Bool
  fetchSel : Bool
  fetchAddr : PWord
  inv : Bool
  invIdx : BitVec 9
  fillHold : Bool
  memReady : Bool
  memRdata : Word

namespace Icache

section

variable (w : PWord)

/-- `idx`. -/
def idx : BitVec 12 := w.extractLsb' 0 12

/-- `line`. -/
def line : BitVec 9 := w.extractLsb' 3 9

/-- `tag`. -/
def tag : BitVec 9 := w.extractLsb' 12 9

/-- `mem_addr`. -/
def memAddr : PWord := tag w ++ line w ++ 0#3

end

/-- After a reset. -/
def reset (tags : BitVec 9 → ITag) (words : BitVec 12 → Word) (tagQ : ITag) (wordQ : Word) :
    Icache where
  tags := tags
  words := words
  tagQ := tagQ
  wordQ := wordQ
  rdIdxQ := 0#12
  conflictQ := false
  replayQ := false
  swept := false
  sweepIdx := 0#9
  state := .idle
  cnt := 0#3

variable (c : Icache) (i : IcacheIn)

/-- `lookup`. -/
def lookup : Bool := c.swept && c.state = .idle && !c.replayQ

/-- `hit`. -/
def hit : Bool :=
  c.lookup && !c.conflictQ && c.rdIdxQ = idx i.fetchAddr && c.tagQ = ⟨true, tag i.fetchAddr⟩

/-- `win`. -/
def win : Bool := i.fetchReq && i.fetchSel

/-- `miss`. -/
def miss : Bool := win i && c.lookup && !c.hit i

/-- `instr_ready`. -/
def instrReady : Bool := !win i || c.hit i

/-- `mem_sel`. -/
def memSel : Bool := c.state = .fill

/-- `word_we`. -/
def wordWe : Bool := c.memSel && i.memReady

/-- `last`. -/
def last : Bool := c.wordWe i && c.cnt = 7#3

/-- `tag_waddr` and `tag_wdata`, if `tag_we`. -/
def tagWrite : Option (BitVec 9 × ITag) :=
  if !c.swept then if i.clear then some (c.sweepIdx, .zero) else none
  else if c.last i then some (line i.fetchAddr, ⟨true, tag i.fetchAddr⟩)
  else if i.inv then some (i.invIdx, .zero)
  else none

/-- A clock edge. -/
def tick : Icache where
  tags := ramTick c.tags (c.tagWrite i)
  words := if c.wordWe i then Function.update c.words (line i.fetchAddr ++ c.cnt) i.memRdata
    else c.words
  tagQ := c.tags (i.rdIdx.extractLsb' 3 9)
  wordQ := c.words i.rdIdx
  rdIdxQ := i.rdIdx
  conflictQ := collides (c.tagWrite i) (i.rdIdx.extractLsb' 3 9)
  replayQ := c.state ≠ .idle
  swept := c.swept || (i.clear && c.sweepIdx = 511#9)
  sweepIdx := if !c.swept && i.clear then c.sweepIdx + 1#9 else c.sweepIdx
  state := match c.state with
    | .idle => if c.miss i && !i.fillHold then .fill else .idle
    | .fill => if c.last i then .idle else .fill
  cnt := if c.wordWe i then c.cnt + 1#3 else c.cnt

end Icache

/-! ## `soc_dcache` -/

/-- `State` of `soc_dcache`. -/
inductive DcacheState : Type
  | idle
  | wb
  | fill
  deriving DecidableEq

/-- An entry of its `tags`. -/
structure DTag : Type where
  valid : Bool
  dirty : Bool
  tag : BitVec 12
  deriving DecidableEq

/-- `14'd0`. -/
def DTag.zero : DTag := ⟨false, false, 0#12⟩

/-- An entry of its `words`: the bytes stored since the fill, and the word. -/
structure DWord : Type where
  mask : BitVec 4
  data : Word

/-- The registers and RAMs of `soc_dcache`. -/
structure Dcache : Type where
  tags : BitVec 6 → DTag
  words : BitVec 9 → DWord
  tagQ : DTag
  wordQ : DWord
  rdIdxQ : BitVec 9
  staleQ : Bool
  swept : Bool
  sweepIdx : BitVec 6
  state : DcacheState
  isProbe : Bool
  primed : Bool
  cnt : BitVec 3
  lineR : BitVec 6
  tagR : BitVec 12

/-- The inputs of `soc_dcache`. -/
structure DcacheIn : Type where
  clear : Bool
  rdIdx : BitVec 9
  dataReq : Bool
  dataSel : Bool
  dataAddr : PWord
  dataWe : Bool
  dataWdata : Word
  dataWstrb : BitVec 4
  memReady : Bool
  memRdata : Word
  memWnext : Bool
  probeReq : Bool
  probeAddr : PWord

namespace Dcache

section

variable (w : PWord)

/-- `idx`. -/
def idx : BitVec 9 := w.extractLsb' 0 9

/-- `line`. -/
def line : BitVec 6 := w.extractLsb' 3 6

/-- `tag`. -/
def tag : BitVec 12 := w.extractLsb' 9 12

end

/-- After a reset. -/
def reset (tags : BitVec 6 → DTag) (words : BitVec 9 → DWord) (tagQ : DTag) (wordQ : DWord) :
    Dcache where
  tags := tags
  words := words
  tagQ := tagQ
  wordQ := wordQ
  rdIdxQ := 0#9
  staleQ := false
  swept := false
  sweepIdx := 0#6
  state := .idle
  isProbe := false
  primed := false
  cnt := 0#3
  lineR := 0#6
  tagR := 0#12

variable (c : Dcache) (i : DcacheIn)

/-- `win`. -/
def win : Bool := i.dataReq && i.dataSel

/-- `lookup`. -/
def lookup : Bool :=
  win i && c.swept && c.state = .idle && !c.staleQ && c.rdIdxQ = idx i.dataAddr

/-- `match`. -/
def matched : Bool := c.tagQ.valid && c.tagQ.tag = tag i.dataAddr

/-- `hit`. -/
def hit : Bool := c.lookup i && c.matched i

/-- `data_ready`. -/
def dataReady : Bool := !win i || c.hit i

/-- `miss`. -/
def miss : Bool := c.lookup i && !c.matched i

/-- `victim_dirty`. -/
def victimDirty : Bool := c.tagQ.valid && c.tagQ.dirty

/-- `probe_dirty`, at the PSRAM word `w`. -/
def probeDirty (w : PWord) : Bool :=
  c.swept && (c.tags (line w)).valid && (c.tags (line w)).dirty && (c.tags (line w)).tag = tag w

/-- `probe_wb`. -/
def probeWb : Bool :=
  c.state = .idle && c.swept && !win i && i.probeReq && c.probeDirty i.probeAddr

/-- `mem_sel`. -/
def memSel : Bool := c.state = .fill || (c.state = .wb && c.primed)

/-- `mem_we`. -/
def memWe : Bool := c.state = .wb

/-- `mem_addr`. -/
def memAddr : PWord := c.tagR ++ c.lineR ++ 0#3

/-- `done`. -/
def done : Bool := c.memSel && i.memReady

/-- `last`. -/
def last : Bool := c.done i && c.cnt = 7#3

/-- `cnt_next`. -/
def cntNext : BitVec 3 := if c.done i || i.memWnext then c.cnt + 1#3 else c.cnt

/-- `ra`. -/
def ra : BitVec 9 := if c.state = .wb then c.lineR ++ c.cntNext i else i.rdIdx

/-- `merge`. -/
def merge : Word := strobed c.wordQ.data i.dataWdata i.dataWstrb

/-- `tag_waddr` and `tag_wdata`, if `tag_we`. -/
def tagWrite : Option (BitVec 6 × DTag) :=
  if !c.swept then if i.clear then some (c.sweepIdx, .zero) else none
  else if c.hit i && i.dataWe then some (line i.dataAddr, ⟨true, true, tag i.dataAddr⟩)
  else if c.state = .fill && c.done i then
    if c.last i then some (c.lineR, ⟨true, false, c.tagR⟩) else none
  else if c.state = .wb && c.last i && c.isProbe then some (c.lineR, ⟨true, false, c.tagR⟩)
  else none

/-- `word_waddr` and `word_wdata`, if `word_we`. -/
def wordWrite : Option (BitVec 9 × DWord) :=
  if !c.swept then none
  else if c.hit i && i.dataWe then
    some (idx i.dataAddr, ⟨c.wordQ.mask ||| i.dataWstrb, c.merge i⟩)
  else if c.state = .fill && c.done i then some (c.lineR ++ c.cnt, ⟨0b0000#4, i.memRdata⟩)
  else none

/-- The state machine's edge: `state`, `is_probe`, `primed`, `line_r` and `tag_r`. -/
def tickState : Dcache :=
  match c.state with
  | .idle =>
    if c.miss i then
      { c with
        lineR := line i.dataAddr
        isProbe := false
        state := if c.victimDirty then .wb else .fill
        tagR := if c.victimDirty then c.tagQ.tag else tag i.dataAddr }
    else if c.probeWb i then
      { c with
        state := .wb
        lineR := line i.probeAddr
        tagR := tag i.probeAddr
        isProbe := true }
    else c
  | .wb =>
    if c.last i then
      if c.isProbe then { c with primed := false, state := .idle }
      else { c with primed := false, state := .fill, tagR := tag i.dataAddr }
    else { c with primed := true }
  | .fill => if c.last i then { c with state := .idle } else c

/-- A clock edge. -/
def tick : Dcache :=
  { c.tickState i with
    tags := ramTick c.tags (c.tagWrite i)
    words := ramTick c.words (c.wordWrite i)
    tagQ := c.tags (i.rdIdx.extractLsb' 3 6)
    wordQ := c.words (c.ra i)
    rdIdxQ := i.rdIdx
    staleQ := c.state ≠ .idle || collides (c.tagWrite i) (i.rdIdx.extractLsb' 3 6) ||
      collides (c.wordWrite i) i.rdIdx
    swept := c.swept || (i.clear && c.sweepIdx = 63#6)
    sweepIdx := if !c.swept && i.clear then c.sweepIdx + 1#6 else c.sweepIdx
    cnt := c.cntNext i }

end Dcache

/-! ## `soc_xmem_bridge` -/

/-- A request to the memory controller. -/
structure Req : Type where
  valid : Bool
  we : Bool
  addr : PWord
  wdata : Word
  wstrb : BitVec 4
  len : BitVec 3

/-- The registers of `soc_xmem_bridge`. -/
structure Bridge : Type where
  busy : Bool
  busyData : Bool

/-- The inputs of `soc_xmem_bridge`, but for the controller's. -/
structure BridgeIn : Type where
  softRst : Bool
  fetchSel : Bool
  fetchAddr : PWord
  dataSel : Bool
  dataAddr : PWord
  dataWe : Bool
  dataWdata : Word
  dataWstrb : BitVec 4

namespace Bridge

/-- After a reset. -/
def reset : Bridge := ⟨false, false⟩

variable (b : Bridge) (i : BridgeIn)

/-- The request, `req_valid` and so on. -/
def req : Req where
  valid := (i.fetchSel || i.dataSel) && !b.busy && !i.softRst
  we := i.dataSel && i.dataWe
  addr := if i.dataSel then i.dataAddr else i.fetchAddr
  wdata := i.dataWdata
  wstrb := i.dataWstrb
  len := 7#3

/-- `instr_ready`. -/
def instrReady (rspValid : Bool) : Bool := !i.fetchSel || (b.busy && rspValid && !b.busyData)

/-- `data_ready`. -/
def dataReady (rspValid : Bool) : Bool := !i.dataSel || (b.busy && rspValid && b.busyData)

/-- A clock edge. -/
def tick (reqReady rspLast : Bool) : Bridge :=
  if (b.req i).valid && reqReady then ⟨true, i.dataSel⟩
  else if rspLast then { b with busy := false }
  else b

end Bridge

end Vux9k.Rtl

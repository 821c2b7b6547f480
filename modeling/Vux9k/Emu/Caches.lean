import Vux9k.Emu.Memories

/-!
# The emulator's window

`emu/crates/vux9k_emu/src/cache.rs` and the methods of `soc.rs` that go through it.  `Caches` holds
which PSRAM words the caches hold and which data lines are dirty; the words themselves are those of
the memory, and behind a dirty line it remembers the words that the PSRAM still has.  Every method
says how many cycles its access waits.
-/

set_option autoImplicit false

namespace Vux9k.Emu

/-! ## Constants -/

/-- `ICACHE_LINES`. -/
def icacheLines : ℕ := 512

/-- `DCACHE_LINES`. -/
def dcacheLines : ℕ := 64

/-- `LINE_WORDS`. -/
def lineWords : ℕ := 8

/-- `XMEM_READ_LATENCY`. -/
def xmemReadLatency : ℕ := 35

/-- `XMEM_WRITE_LATENCY`. -/
def xmemWriteLatency : ℕ := 34

/-- `BURST_EXTRA`. -/
def burstExtra : ℕ := 2 * (lineWords - 1)

/-- `XMEM_LINE_FILL`. -/
def xmemLineFill : ℕ := xmemReadLatency + burstExtra

/-- `XMEM_LINE_DIRTY`. -/
def xmemLineDirty : ℕ := xmemWriteLatency + burstExtra + 2 + xmemLineFill

/-- `XMEM_FETCH_FILL`. -/
def xmemFetchFill : ℕ := xmemLineFill

/-- `XMEM_FETCH_PROBE`. -/
def xmemFetchProbe : ℕ := xmemWriteLatency + burstExtra + 3 + xmemFetchFill

/-- `HACK_D_BASE`. -/
def hackDBase : Word := 0x80020000#32

/-! ## The caches -/

/-- `CacheStats`. -/
structure CacheStats : Type where
  fetchHits : ℕ
  fetchMisses : ℕ
  loadHits : ℕ
  loadMisses : ℕ
  stores : ℕ
  storeHits : ℕ
  storeMisses : ℕ
  writebacks : ℕ
  probeWritebacks : ℕ
  deriving DecidableEq

/-- `DLine`, a valid line of the data cache. -/
structure DLine : Type where
  tag : ℕ
  dirty : Bool
  deriving DecidableEq

/-- `Caches`. -/
structure Caches : Type where
  /-- of an instruction-cache line, the tag -/
  itag : ℕ → Option ℕ
  /-- of a data-cache line, the tag and whether it is dirty -/
  dline : ℕ → Option DLine
  /-- of a dirty data line, the words the PSRAM has behind it -/
  behind : ℕ → ℕ → Word
  stats : CacheStats

/-- `iline_of`. -/
def ilineOf (word : ℕ) : ℕ × ℕ := (word / lineWords % icacheLines, word / lineWords / icacheLines)

/-- `dline_of`. -/
def dlineOf (word : ℕ) : ℕ × ℕ := (word / lineWords % dcacheLines, word / lineWords / dcacheLines)

namespace Caches

/-- `Caches::default`. -/
def default : Caches := ⟨fun _ ↦ none, fun _ ↦ none, fun _ _ ↦ 0#32, ⟨0, 0, 0, 0, 0, 0, 0, 0, 0⟩⟩

variable (c : Caches)

/-- The fetched word's data line is dirty. -/
def probed (word : ℕ) : Bool := c.dline (dlineOf word).1 = some ⟨(dlineOf word).2, true⟩

/-- `fetch`. -/
def fetch (word : ℕ) : ℕ × Caches :=
  let (line, tag) := ilineOf word
  if c.itag line = some tag then
    (0, { c with stats := { c.stats with fetchHits := c.stats.fetchHits + 1 } })
  else
    let stats := { c.stats with fetchMisses := c.stats.fetchMisses + 1 }
    let itag := Function.update c.itag line (some tag)
    let (dl, dtag) := dlineOf word
    if c.probed word then
      (xmemFetchProbe,
        { c with
          itag
          dline := Function.update c.dline dl (some ⟨dtag, false⟩)
          stats := { stats with probeWritebacks := stats.probeWritebacks + 1 } })
    else (xmemFetchFill, { c with itag, stats })

/-- `wait` of an access. -/
def wait (word : ℕ) : ℕ :=
  match c.dline (dlineOf word).1 with
  | some l =>
    if l.tag = (dlineOf word).2 then 0 else if l.dirty then xmemLineDirty else xmemLineFill
  | none => xmemLineFill

/-- The counts of an access. -/
def counted (word : ℕ) (store : Bool) : CacheStats :=
  let s := { c.stats with
    writebacks := c.stats.writebacks + if c.wait word = xmemLineDirty then 1 else 0 }
  match store, decide (c.wait word = 0) with
  | false, true => { s with loadHits := s.loadHits + 1 }
  | false, false => { s with loadMisses := s.loadMisses + 1 }
  | true, true => { s with storeHits := s.storeHits + 1, stores := s.stores + 1 }
  | true, false => { s with storeMisses := s.storeMisses + 1, stores := s.stores + 1 }

/-- The word's line is there, clean if it was not. -/
def allocate (word : ℕ) : ℕ → Option DLine :=
  if c.wait word ≠ 0 then
    Function.update c.dline (dlineOf word).1 (some ⟨(dlineOf word).2, false⟩)
  else c.dline

/-- The store's line is dirty; its words are remembered if it was clean. -/
def markDirty (word : ℕ) (mem : ℕ → Word) : Caches :=
  match c.dline (dlineOf word).1 with
  | some l =>
    if l.dirty then c
    else
      { c with
        dline := Function.update c.dline (dlineOf word).1 (some { l with dirty := true })
        behind := Function.update c.behind (dlineOf word).1
          fun k ↦ mem (word / lineWords * lineWords + k) }
  | none => c

/-- `access`, a load or a store, with the memory before it. -/
def access (word : ℕ) (store : Bool) (mem : ℕ → Word) : ℕ × Caches :=
  let there := { c with dline := c.allocate word, stats := c.counted word store }
  (c.wait word,
    if store then
      let dirty := there.markDirty word mem
      { dirty with itag := Function.update dirty.itag (ilineOf word).1 none }
    else there)

/-- `psram_written`. -/
def psramWritten (word : ℕ) (value : Word) : Caches :=
  let (line, tag) := dlineOf word
  if c.dline line = some ⟨tag, true⟩ then
    { c with
      behind := Function.update c.behind line
        (Function.update (c.behind line) (word % lineWords) value) }
  else c

/-- One line of `power_on`. -/
def putBack (mem : ℕ → Word) (line : ℕ) : ℕ → Word :=
  match c.dline line with
  | some l =>
    if l.dirty then
      storeWords mem ((l.tag * dcacheLines + line) * lineWords)
        ((List.range lineWords).map (c.behind line))
    else mem
  | none => mem

/-- `power_on`: the caches after it, and the memory. -/
def powerOn (mem : ℕ → Word) : Caches × (ℕ → Word) :=
  (default, (List.range dcacheLines).foldl c.putBack mem)

end Caches

/-! ## The window -/

/-- The bits of the enabled bytes. -/
def byteMask (be : BitVec 4) : Word :=
  (List.range 4).foldl
    (fun mask b ↦ if be.getLsbD b then mask ||| 0xFF#32 <<< (8 * b) else mask) 0#32

/-- `merge_bytes`. -/
def mergeBytes (old data : Word) (be : BitVec 4) : Word :=
  (old &&& ~~~byteMask be) ||| (data &&& byteMask be)

/-- The memories of `Soc` and its caches. -/
structure Window : Type where
  mem : Memories
  caches : Caches

namespace Window

variable (s : Window)

/-- A fetch of the PSRAM word. -/
def fetchWord (idx : ℕ) : (Word × ℕ) × Window :=
  let (wait, caches) := s.caches.fetch idx
  ((s.mem.xmem idx, wait), { s with caches })

/-- A load of the PSRAM word. -/
def loadWord (idx : ℕ) : (Word × ℕ) × Window :=
  let (wait, caches) := s.caches.access idx false s.mem.xmem
  ((s.mem.xmem idx, wait), { s with caches })

/-- A store into the PSRAM word. -/
def storeWord (idx : ℕ) (data : Word) (be : BitVec 4) : ℕ × Window :=
  let (wait, caches) := s.caches.access idx true s.mem.xmem
  (wait,
    { mem := { s.mem with
        xmem := Function.update s.mem.xmem idx (mergeBytes (s.mem.xmem idx) data be) }
      caches })

/-- `fetch`. -/
def fetch (riscvMode : Bool) (pc : Word) : (Word × ℕ) × Window :=
  let win : Option Word :=
    if riscvMode then if s.mem.inXmem pc then some pc else none
    else if s.mem.hasXmem then some (hackIBase ||| (pc &&& 0xFFFF#32)) else none
  match win with
  | some addr => s.fetchWord (xmemIndex addr)
  | none => ((s.mem.rom ((pc >>> 2) &&& s.mem.romMask).toNat, 0), s)

/-- `rv_load_wait`. -/
def rvLoadWait (addr : Word) : ℕ × Window :=
  if s.mem.inXmem addr then
    let ((_, wait), s) := s.loadWord (xmemIndex addr)
    (wait, s)
  else (0, s)

/-- `rv_write`, where it is a store into the window. -/
def rvWrite (addr data : Word) (be : BitVec 4) : ℕ × Window :=
  if s.mem.inXmem addr then s.storeWord (xmemIndex addr) data be else (0, s)

/-- `hack_data_index`. -/
def hackDataIndex (a : Word) : ℕ := xmemIndex (hackDBase ||| (a &&& 0x7FFF#32) <<< 2)

/-- `hack_read`, where it is a load of the window. -/
def hackRead (a : Word) : (Word × ℕ) × Window :=
  let a16 := a &&& 0xFFFF#32
  if a16.toNat < 0x6000 && s.mem.hasXmem then s.loadWord (hackDataIndex a16) else ((0#32, 0), s)

/-- `hack_write`, where it is a store into the window: `self.xmem[idx] = v`. -/
def hackWrite (a v : Word) : ℕ × Window :=
  let a16 := a &&& 0xFFFF#32
  if a16.toNat < 0x6000 && s.mem.hasXmem then
    let idx := hackDataIndex a16
    let (wait, caches) := s.caches.access idx true s.mem.xmem
    (wait, { mem := { s.mem with xmem := Function.update s.mem.xmem idx v }, caches })
  else (0, s)

/-- One word of `load_xmem`. -/
def written (idx : ℕ) (v : Word) : Window where
  mem := { s.mem with xmem := Function.update s.mem.xmem idx v }
  caches := s.caches.psramWritten idx v

/-- The words of `load_xmem`. -/
def writtenWords : ℕ → List Word → Window → Window
  | _, [], s => s
  | i, w :: ws, s => writtenWords (i + 1) ws (s.written i w)

/-- `load_xmem`. -/
def loadXmem (addr : Word) (bytes : List Byte) : Except LoadError Window :=
  let offset := (addr - xmemBase).toNat
  if !s.mem.inXmem addr ∨ addr.toNat % 4 ≠ 0 ∨ xmemBytes < offset + bytes.length then
    .error (.outsidePsram bytes.length addr)
  else .ok (writtenWords (offset / 4) (wordsOf bytes) s)

/-- What `reset` does to the window. -/
def reset : Window where
  mem := { s.mem with xmem := (s.caches.powerOn s.mem.xmem).2 }
  caches := (s.caches.powerOn s.mem.xmem).1

end Window

end Vux9k.Emu

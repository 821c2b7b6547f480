import Vux9k.Rtl.Caches
import Vux9k.Rtl.Soc

/-!
# The wait-state window

The window's caches and bridge wired up as in `soc_top`, in front of a memory controller.  The
controller is a submodule of its own; what is here is its contract: it takes one burst at a time,
answers a read word by word, takes the later words of a write each in the cycle after its
`wdata_next`, and answers a write once, after as many cycles as it likes in between.
-/

set_option autoImplicit false

namespace Vux9k.Rtl

/-! ## The memory controller -/

/-- What the controller is at: `k` of the `n` words of a burst are answered, or taken; `take` is
`wdata_next` of the cycle before, so that this one has the next word. -/
inductive Burst : Type
  | idle
  | read (addr : PWord) (n k : ℕ)
  | write (addr : PWord) (n k : ℕ) (take : Bool)
  deriving DecidableEq

/-- The controller and the PSRAM behind it. -/
structure Psram : Type where
  mem : PWord → Word
  burst : Burst

/-- What the controller does in a cycle, where it has the choice; `rdata` is what `rsp_rdata` shows
when it answers no read. -/
structure PsramIn : Type where
  ready : Bool
  rsp : Bool
  wnext : Bool
  rdata : Word

namespace Psram

/-- The word `k` of the burst at `addr`. -/
def beat (addr : PWord) (k : ℕ) : PWord := addr + BitVec.ofNat 21 k

variable (p : Psram) (c : PsramIn)

/-- `req_ready`. -/
def reqReady : Bool := p.burst = .idle && c.ready

/-- `rsp_valid`. -/
def rspValid : Bool :=
  match p.burst with
  | .idle => false
  | .read _ _ _ => c.rsp
  | .write _ n k take => c.rsp && k = n && !take

/-- `rsp_last`. -/
def rspLast : Bool :=
  match p.burst with
  | .read _ n k => c.rsp && k + 1 = n
  | _ => p.rspValid c

/-- `rsp_rdata`. -/
def rspRdata : Word :=
  match p.burst with
  | .read a _ k => p.mem (beat a k)
  | _ => c.rdata

/-- `wdata_next`. -/
def wdataNext : Bool :=
  match p.burst with
  | .write _ n k take => c.wnext && k + take.toNat < n
  | _ => false

/-- A write of a word with its strobes. -/
def write (mem : PWord → Word) (w : PWord) (data : Word) (be : BitVec 4) : PWord → Word :=
  Function.update mem w (strobed (mem w) data be)

/-- A clock edge. -/
def tick (r : Req) : Psram :=
  match p.burst with
  | .idle =>
    if r.valid && c.ready then
      if r.we then
        { mem := write p.mem r.addr r.wdata r.wstrb
          burst := .write r.addr (r.len.toNat + 1) 1 false }
      else { p with burst := .read r.addr (r.len.toNat + 1) 0 }
    else p
  | .read a n k =>
    if c.rsp then { p with burst := if k + 1 = n then .idle else .read a n (k + 1) } else p
  | .write a n k take =>
    { mem := if take then write p.mem (beat a k) r.wdata r.wstrb else p.mem
      burst := if p.rspValid c then .idle else .write a n (k + take.toNat) (p.wdataNext c) }

end Psram

/-! ## The window as `soc_top` wires it up -/

/-- What the window sees of the CPU in a cycle, with `cpu_soft_rst`, `clear` and what the memory
controller does. -/
structure WinIn : Type where
  softRst : Bool
  clear : Bool
  activeMode : Bool
  /-- `pc_out` -/
  instrAddr : Word
  fetchReq : Bool
  fetchAddr : Word
  dataReq : Bool
  dataAddr : Word
  dataWaddr : Word
  memWrite : Bool
  dataOut : Word
  byteWe : BitVec 4
  ctl : PsramIn

namespace WinIn

variable (i : WinIn)

/-- `win_fetch_addr`: in Hack, `soc_pkg::HACK_I_BASE` with `pc[15:0]`. -/
def winFetchAddr : Word :=
  if i.activeMode then i.fetchAddr else 0x8000#16 ++ i.fetchAddr.extractLsb' 0 16

/-- `win_data_idx`. -/
def winDataIdx : BitVec 9 :=
  if i.activeMode then i.dataAddr.extractLsb' 2 9 else i.dataAddr.extractLsb' 0 9

/-- `win_data_waddr`: in Hack, `soc_pkg::HACK_D_BASE` with `A[14:0]`. -/
def winDataWaddr : Word :=
  if i.activeMode then i.dataWaddr
  else (0x80020000#32 : Word).extractLsb' 17 15 ++ i.dataWaddr.extractLsb' 0 15 ++ 0#2

/-- The PSRAM word of a fetch. -/
def fetchWord : PWord := i.winFetchAddr.extractLsb' 2 21

/-- The PSRAM word of a data access. -/
def dataWord : PWord := i.winDataWaddr.extractLsb' 2 21

/-- `xmem_fetch_sel`. -/
def xmemFetchSel : Bool := !i.activeMode || i.fetchAddr.extractLsb' 28 4 = 0x8#4

/-- `xmem_wsel`. -/
def xmemWsel : Bool := decode (!i.activeMode) i.dataWaddr = some .xmem

end WinIn

/-- The caches, the bridge and the memory. -/
structure Win : Type where
  ic : Icache
  dc : Dcache
  br : Bridge
  ps : Psram

namespace Win

variable (s : Win) (i : WinIn)

/-- The inputs of the bridge. -/
def bridgeIn : BridgeIn where
  softRst := i.softRst
  fetchSel := s.ic.memSel
  fetchAddr := Icache.memAddr i.fetchWord
  dataSel := s.dc.memSel
  dataAddr := s.dc.memAddr
  dataWe := s.dc.memWe
  dataWdata := s.dc.wordQ.data
  dataWstrb := s.dc.wordQ.mask

/-- The bridge's request. -/
def req : Req := s.br.req (s.bridgeIn i)

/-- The data access, without what the instruction cache and the bridge say. -/
def dataIn : DcacheIn where
  clear := i.clear
  rdIdx := i.winDataIdx
  dataReq := i.dataReq
  dataSel := i.xmemWsel
  dataAddr := i.dataWord
  dataWe := i.memWrite
  dataWdata := i.dataOut
  dataWstrb := i.byteWe
  memReady := s.br.dataReady (s.bridgeIn i) (s.ps.rspValid i.ctl)
  memRdata := s.ps.rspRdata i.ctl
  memWnext := s.ps.wdataNext i.ctl
  probeReq := false
  probeAddr := i.fetchWord

/-- `data_ready`. -/
def dataReady : Bool := s.dc.dataReady (s.dataIn i)

/-- The inputs of the instruction cache. -/
def icIn : IcacheIn where
  clear := i.clear
  rdIdx := i.instrAddr.extractLsb' 2 12
  fetchReq := i.fetchReq && !i.softRst
  fetchSel := i.xmemFetchSel
  fetchAddr := i.fetchWord
  inv := i.dataReq && i.xmemWsel && i.memWrite && s.dataReady i
  invIdx := i.winDataWaddr.extractLsb' 5 9
  fillHold := s.dc.probeDirty i.fetchWord
  memReady := s.br.instrReady (s.bridgeIn i) (s.ps.rspValid i.ctl)
  memRdata := s.ps.rspRdata i.ctl

/-- The inputs of the data cache. -/
def dcIn : DcacheIn := { s.dataIn i with probeReq := s.ic.miss (s.icIn i) }

/-- `instr_ready`. -/
def instrReady : Bool := s.ic.instrReady (s.icIn i)

/-- A clock edge. -/
def tick : Win where
  ic := s.ic.tick (s.icIn i)
  dc := s.dc.tick (s.dcIn i)
  br := s.br.tick (s.bridgeIn i) (s.ps.reqReady i.ctl) (s.ps.rspLast i.ctl)
  ps := s.ps.tick i.ctl (s.req i)

end Win

end Vux9k.Rtl

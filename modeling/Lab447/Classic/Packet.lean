import Mathlib.Data.List.Basic

/-!
Packets of the classic memory system, `gem5/src/mem/packet.hh` and `packet.cc`,
with the part of `gem5/src/mem/request.hh` that caches and crossbars read.
Delays, HTM fields, byte masks and print functions are left out.
-/

namespace Classic

abbrev PortID := Nat

/-- `MemCmd::Attribute`. -/
inductive Attribute where
  | IsRead | IsWrite | IsUpgrade | IsInvalidate | IsClean | NeedsWritable | IsRequest
  | IsResponse | NeedsResponse | IsEviction | IsSWPrefetch | IsHWPrefetch | IsLlsc
  | IsLockedRMW | HasData | IsError | IsPrint | IsFlush | FromCache
  deriving DecidableEq

/-- `MemCmd::Command`. -/
inductive MemCmd where
  | InvalidCmd | ReadReq | ReadResp | ReadRespWithInvalidate | WriteReq | WriteResp
  | WriteCompleteResp | WritebackDirty | WritebackClean | WriteClean | CleanEvict
  | SoftPFReq | SoftPFExReq | HardPFReq | SoftPFResp | HardPFResp | WriteLineReq
  | UpgradeReq | SCUpgradeReq | UpgradeResp | SCUpgradeFailReq | UpgradeFailResp
  | ReadExReq | ReadExResp | ReadCleanReq | ReadSharedReq | LoadLockedReq | StoreCondReq
  | StoreCondFailReq | StoreCondResp | LockedRMWReadReq | LockedRMWReadResp
  | LockedRMWWriteReq | LockedRMWWriteResp | SwapReq | SwapResp | MemFenceReq | MemSyncReq
  | MemSyncResp | MemFenceResp | CleanSharedReq | CleanSharedResp | CleanInvalidReq
  | CleanInvalidResp | InvalidDestError | BadAddressError | ReadError | WriteError
  | FunctionalReadError | FunctionalWriteError | PrintReq | FlushReq | InvalidateReq
  | InvalidateResp | HTMReq | HTMReqResp | HTMAbort | TlbiExtSync
  deriving DecidableEq

namespace MemCmd

open Attribute

/-- The first column of `MemCmd::commandInfo`. -/
def attributes : MemCmd → List Attribute
  | InvalidCmd => []
  | ReadReq => [IsRead, IsRequest, NeedsResponse]
  | ReadResp => [IsRead, IsResponse, HasData]
  | ReadRespWithInvalidate => [IsRead, IsResponse, HasData, IsInvalidate]
  | WriteReq => [IsWrite, NeedsWritable, IsRequest, NeedsResponse, HasData]
  | WriteResp => [IsWrite, IsResponse]
  | WriteCompleteResp => [IsWrite, IsResponse]
  | WritebackDirty => [IsWrite, IsRequest, IsEviction, HasData, FromCache]
  | WritebackClean => [IsWrite, IsRequest, IsEviction, HasData, FromCache]
  | WriteClean => [IsWrite, IsRequest, HasData, FromCache]
  | CleanEvict => [IsRequest, IsEviction, FromCache]
  | SoftPFReq => [IsRead, IsRequest, IsSWPrefetch, NeedsResponse]
  | SoftPFExReq => [IsRead, NeedsWritable, IsInvalidate, IsRequest, IsSWPrefetch, NeedsResponse]
  | HardPFReq => [IsRead, IsRequest, IsHWPrefetch, NeedsResponse, FromCache]
  | SoftPFResp => [IsRead, IsResponse, IsSWPrefetch, HasData]
  | HardPFResp => [IsRead, IsResponse, IsHWPrefetch, HasData]
  | WriteLineReq => [IsWrite, NeedsWritable, IsRequest, NeedsResponse, HasData]
  | UpgradeReq => [IsInvalidate, NeedsWritable, IsUpgrade, IsRequest, NeedsResponse, FromCache]
  | SCUpgradeReq =>
    [IsInvalidate, NeedsWritable, IsUpgrade, IsLlsc, IsRequest, NeedsResponse, FromCache]
  | UpgradeResp => [IsUpgrade, IsResponse]
  | SCUpgradeFailReq =>
    [IsRead, NeedsWritable, IsInvalidate, IsLlsc, IsRequest, NeedsResponse, FromCache]
  | UpgradeFailResp => [IsRead, IsResponse, HasData]
  | ReadExReq => [IsRead, NeedsWritable, IsInvalidate, IsRequest, NeedsResponse, FromCache]
  | ReadExResp => [IsRead, IsResponse, HasData]
  | ReadCleanReq => [IsRead, IsRequest, NeedsResponse, FromCache]
  | ReadSharedReq => [IsRead, IsRequest, NeedsResponse, FromCache]
  | LoadLockedReq => [IsRead, IsLlsc, IsRequest, NeedsResponse]
  | StoreCondReq => [IsWrite, NeedsWritable, IsLlsc, IsRequest, NeedsResponse, HasData]
  | StoreCondFailReq => [IsWrite, NeedsWritable, IsLlsc, IsRequest, NeedsResponse, HasData]
  | StoreCondResp => [IsWrite, IsLlsc, IsResponse]
  | LockedRMWReadReq => [IsRead, IsLockedRMW, NeedsWritable, IsRequest, NeedsResponse]
  | LockedRMWReadResp => [IsRead, IsLockedRMW, NeedsWritable, IsResponse, HasData]
  | LockedRMWWriteReq => [IsWrite, IsLockedRMW, NeedsWritable, IsRequest, NeedsResponse, HasData]
  | LockedRMWWriteResp => [IsWrite, IsLockedRMW, NeedsWritable, IsResponse]
  | SwapReq => [IsRead, IsWrite, NeedsWritable, IsRequest, HasData, NeedsResponse]
  | SwapResp => [IsRead, IsWrite, IsResponse, HasData]
  | MemFenceReq => [IsRequest, NeedsResponse]
  | MemSyncReq => [IsRequest, NeedsResponse]
  | MemSyncResp => [IsResponse]
  | MemFenceResp => [IsResponse]
  | CleanSharedReq => [IsRequest, IsClean, NeedsResponse, FromCache]
  | CleanSharedResp => [IsResponse, IsClean]
  | CleanInvalidReq => [IsRequest, IsInvalidate, IsClean, NeedsResponse, FromCache]
  | CleanInvalidResp => [IsResponse, IsInvalidate, IsClean]
  | InvalidDestError => [IsResponse, IsError]
  | BadAddressError => [IsResponse, IsError]
  | ReadError => [IsRead, IsResponse, IsError]
  | WriteError => [IsWrite, IsResponse, IsError]
  | FunctionalReadError => [IsRead, IsResponse, IsError]
  | FunctionalWriteError => [IsWrite, IsResponse, IsError]
  | PrintReq => [IsRequest, IsPrint]
  | FlushReq => [IsRequest, IsFlush, NeedsWritable]
  | InvalidateReq => [IsInvalidate, IsRequest, NeedsWritable, NeedsResponse, FromCache]
  | InvalidateResp => [IsInvalidate, IsResponse]
  | HTMReq => [IsRead, IsRequest, NeedsResponse]
  | HTMReqResp => [IsRead, IsResponse]
  | HTMAbort => [IsRead, IsRequest]
  | TlbiExtSync => [IsRequest]

/-- The second column of `MemCmd::commandInfo`. -/
def responseCommand : MemCmd → MemCmd
  | ReadReq | ReadCleanReq | ReadSharedReq | LoadLockedReq => ReadResp
  | WriteReq | WriteLineReq => WriteResp
  | SoftPFReq | SoftPFExReq => SoftPFResp
  | HardPFReq => HardPFResp
  | UpgradeReq | SCUpgradeReq => UpgradeResp
  | SCUpgradeFailReq => UpgradeFailResp
  | ReadExReq => ReadExResp
  | StoreCondReq | StoreCondFailReq => StoreCondResp
  | LockedRMWReadReq => LockedRMWReadResp
  | LockedRMWWriteReq => LockedRMWWriteResp
  | SwapReq => SwapResp
  | MemFenceReq => MemFenceResp
  | MemSyncReq => MemSyncResp
  | CleanSharedReq => CleanSharedResp
  | CleanInvalidReq => CleanInvalidResp
  | InvalidateReq => InvalidateResp
  | HTMReq => HTMReqResp
  | _ => InvalidCmd

def testCmdAttrib (c : MemCmd) (a : Attribute) : Bool := decide (a ∈ c.attributes)

def isRead (c : MemCmd) : Bool := c.testCmdAttrib IsRead
def isWrite (c : MemCmd) : Bool := c.testCmdAttrib IsWrite
def isRequest (c : MemCmd) : Bool := c.testCmdAttrib IsRequest
def isResponse (c : MemCmd) : Bool := c.testCmdAttrib IsResponse
def needsWritable (c : MemCmd) : Bool := c.testCmdAttrib NeedsWritable
def needsResponse (c : MemCmd) : Bool := c.testCmdAttrib NeedsResponse
def isInvalidate (c : MemCmd) : Bool := c.testCmdAttrib IsInvalidate
def isEviction (c : MemCmd) : Bool := c.testCmdAttrib IsEviction
def isClean (c : MemCmd) : Bool := c.testCmdAttrib IsClean
def fromCache (c : MemCmd) : Bool := c.testCmdAttrib FromCache
def hasData (c : MemCmd) : Bool := c.testCmdAttrib HasData

/-- A writeback is an eviction that carries data. -/
def isWriteback (c : MemCmd) : Bool := c.isEviction && c.hasData

end MemCmd

/-- A `Request`; `id` stands for its address, by which the crossbars know it. -/
structure Request where
  id : Nat
  isUncacheable : Bool := false
  isBroadcast : Bool := false
  isToPOC : Bool := false
  isToPOU : Bool := false
  isCacheMaintenance : Bool := false
  deriving DecidableEq

/-- The flags of a packet, without those that only describe its own fields. -/
structure Flags where
  hasSharers : Bool := false
  expressSnoop : Bool := false
  responderHadWritable : Bool := false
  cacheResponding : Bool := false
  satisfied : Bool := false
  blockCached : Bool := false
  staticData : Bool := false
  deriving DecidableEq

/-- Flags that others have set while they saw the packet. -/
def Flags.or (f g : Flags) : Flags where
  hasSharers := f.hasSharers || g.hasSharers
  expressSnoop := f.expressSnoop || g.expressSnoop
  responderHadWritable := f.responderHadWritable || g.responderHadWritable
  cacheResponding := f.cacheResponding || g.cacheResponding
  satisfied := f.satisfied || g.satisfied
  blockCached := f.blockCached || g.blockCached
  staticData := f.staticData || g.staticData

/-- `senderState` is the address of the one on top, if there is any. -/
structure Packet where
  cmd : MemCmd
  id : Nat
  req : Request
  addr : Nat
  size : Nat
  isSecure : Bool := false
  flags : Flags := {}
  data : List UInt8 := []
  senderState : Option Nat := none
  broadcastToOther : Bool := false
  deriving DecidableEq

namespace Packet

/-- `addr & ~(Addr(blk_size - 1))`, for a block size that is a power of two. -/
def getBlockAddr (pkt : Packet) (blkSize : Nat) : Nat := pkt.addr - pkt.addr % blkSize

def isCleanEviction (pkt : Packet) : Bool :=
  decide (pkt.cmd = .CleanEvict) || decide (pkt.cmd = .WritebackClean)

/-- The copy that the constructor with its own `senderState` makes when it clears
the flags and allocates data: the bytes are whatever the allocated memory holds,
unless the data is static. -/
def copy (pkt : Packet) (allocated : List UInt8) : Packet where
  cmd := pkt.cmd
  id := pkt.id
  req := pkt.req
  addr := pkt.addr
  size := pkt.size
  isSecure := pkt.isSecure
  flags := { staticData := pkt.flags.staticData }
  data := if pkt.flags.staticData then pkt.data else allocated

def makeResponse (pkt : Packet) : Packet :=
  { pkt with cmd := pkt.cmd.responseCommand, flags := { pkt.flags with expressSnoop := false } }

def setBroadcastToOther (pkt : Packet) : Packet := { pkt with broadcastToOther := true }

end Packet

end Classic

import Lab447.Ruby.MessageBuffer
import Mathlib

/-!
The data the L1 controllers of `MESI_Two_Level` work on: packets and the
requests made from them, coherence messages, cache entries, transaction buffer
entries and the caches.
-/

namespace Ruby

/-- The settings of the Ruby system and of its L1 controllers. -/
structure Config where
  blockSizeBits : Nat
  numL1 : Nat
  l2SelectNumBits : Nat
  sendEvictions : Bool
  enablePrefetch : Bool
  maxOutstandingRequests : Nat
  icacheSetBits : Nat
  icacheAssoc : Nat
  dcacheSetBits : Nat
  dcacheAssoc : Nat

section
variable (cfg : Config)

def getOffset (addr : Addr) : Nat := addr % 2 ^ cfg.blockSizeBits

def makeLineAddress (addr : Addr) : Addr := addr - getOffset cfg addr

def blockSizeBytes : Nat := 2 ^ cfg.blockSizeBits

end

/-! ### Machines -/

inductive MachineType where
  | L1Cache | L2Cache | Directory | DMA
  deriving DecidableEq

structure MachineID where
  type : MachineType
  num : Nat
  deriving DecidableEq

abbrev NetDest := List MachineID

def bitSelect (addr : Addr) (small big : Nat) : Nat :=
  addr / 2 ^ small % 2 ^ (big - small + 1)

def mapAddressToRange (addr : Addr) (type : MachineType) (lowBit numBits clusterId : Nat) :
    MachineID :=
  if numBits = 0 then ⟨type, clusterId⟩
  else ⟨type, bitSelect addr lowBit (lowBit + numBits - 1) + 2 ^ numBits * clusterId⟩

/-! ### Packets and requests -/

/-- `Packet`, with the flags of its `Request`. `requestorId` numbers the L1 it
comes to, and `id` tells the packets of a run apart; a copy keeps both. -/
structure Packet where
  requestorId : Nat
  id : Nat
  addr : Addr
  size : Nat
  data : List UInt8
  isRead : Bool
  isWrite : Bool
  isLLSC : Bool
  isLockedRMW : Bool
  isInstFetch : Bool
  isReadModifyWrite : Bool
  isFlush : Bool
  isBroadcast : Bool
  deriving DecidableEq

inductive RubyRequestType where
  | LD | ST | IFETCH | LoadLinked | StoreConditional | RMWRead | LockedRMWRead
  | LockedRMWWrite | FLUSH
  deriving DecidableEq

/-- The types `readCallback` completes; all others count as writes. -/
def RubyRequestType.isRead : RubyRequestType → Bool
  | LD | LoadLinked | IFETCH => true
  | _ => false

inductive RubyAccessMode where
  | Supervisor | User | Device
  deriving DecidableEq

inductive PrefetchBit where
  | No | Yes | L1HW | L2HW
  deriving DecidableEq

/-- The part of a `RubyRequest` that a prefetch has as well. -/
structure LineRequest where
  lineAddress : Addr
  type : RubyRequestType
  accessMode : RubyAccessMode
  prefetch : PrefetchBit
  deriving DecidableEq

structure RubyRequest extends LineRequest where
  pkt : Packet
  isBCDuplicate : Bool
  netDest : NetDest
  deriving DecidableEq

inductive RequestStatus where
  | Ready | BufferFull | Issued | Aliased
  deriving DecidableEq

/-! ### Data blocks -/

abbrev DataBlock := List UInt8

def DataBlock.getData (block : DataBlock) (offset len : Nat) : List UInt8 :=
  (block.drop offset).take len

def DataBlock.setData (block : DataBlock) (data : List UInt8) (offset : Nat) : DataBlock :=
  block.take offset ++ data ++ block.drop (offset + data.length)

/-! ### Coherence messages -/

inductive CoherenceRequestType where
  | GETX | UPGRADE | GETS | GETINSTR | INV | PUTX | WBACK | DMAREAD | DMAWRITE
  deriving DecidableEq

inductive CoherenceResponseType where
  | MEMORYACK | DATA | DATAEXCLUSIVE | MEMORYDATA | ACK | WBACK | UNBLOCK | EXCLUSIVEUNBLOCK | INV
  deriving DecidableEq

inductive MessageSizeType where
  | Control | ResponseData | ResponseControl | WritebackData | WritebackControl
  deriving DecidableEq

structure RequestMsg where
  addr : Addr
  type : CoherenceRequestType
  accessMode : RubyAccessMode := .User
  requestor : MachineID
  destination : NetDest
  messageSize : MessageSizeType
  dataBlk : DataBlock := []
  dirty : Bool := false
  prefetch : PrefetchBit := .No
  deriving DecidableEq

structure ResponseMsg where
  addr : Addr
  type : CoherenceResponseType
  sender : MachineID
  destination : NetDest
  dataBlk : DataBlock := []
  dirty : Bool := false
  ackCount : Int := 0
  messageSize : MessageSizeType
  isBCDuplicate : Bool := false
  packetptr : Option Packet := none
  deriving DecidableEq

/-! ### Coherence states, cache entries and transaction buffer entries -/

inductive State where
  | NP | I | S | E | M
  | IS | IM | SM | IS_I | M_I | SINK_WB_ACK
  | PF_IS | PF_IM | PF_SM | PF_IS_I
  deriving DecidableEq

inductive AccessPermission where
  | Read_Only | Read_Write | Invalid | NotPresent | Busy
  deriving DecidableEq

/-- `L1Cache_State_to_permission`. -/
def State.toPermission : State → AccessPermission
  | NP | I => .Invalid
  | S | E | SM => .Read_Only
  | M => .Read_Write
  | IS | IM | IS_I | M_I | SINK_WB_ACK | PF_IS | PF_IM | PF_SM | PF_IS_I => .Busy

/-- A line of a cache. `permission` and `locked` are members of
`AbstractCacheEntry`; only the sequencer of this L1 locks its lines. -/
structure Entry where
  cacheState : State := .I
  dataBlk : DataBlock
  dirty : Bool := false
  isPrefetch : Bool := false
  permission : AccessPermission := .Invalid
  locked : Bool := false
  deriving DecidableEq

structure TBE where
  tbeState : State := .I
  dataBlk : DataBlock
  dirty : Bool := false
  isPrefetch : Bool := false
  pendingAcks : Int := 0
  deriving DecidableEq

/-- `new Entry`, after `CacheMemory::allocate` has set it up. -/
def Entry.new (cfg : Config) : Entry := { dataBlk := List.replicate (blockSizeBytes cfg) 0 }

/-! ### Caches -/

/-- `CacheMemory`: the entry of each line that is present, and the lines that
are, which decide whether a set is full. -/
structure CacheMemory where
  startIndexBit : Nat
  numSetBits : Nat
  assoc : Nat
  entry : Addr → Option Entry
  resident : List Addr

namespace CacheMemory

def empty (startIndexBit numSetBits assoc : Nat) : CacheMemory :=
  ⟨startIndexBit, numSetBits, assoc, fun _ => none, []⟩

def addressToCacheSet (k : CacheMemory) (addr : Addr) : Nat :=
  addr / 2 ^ k.startIndexBit % 2 ^ k.numSetBits

def lookup (k : CacheMemory) (addr : Addr) : Option Entry := k.entry addr

def isTagPresent (k : CacheMemory) (addr : Addr) : Bool := (k.lookup addr).isSome

def cacheAvail (k : CacheMemory) (addr : Addr) : Bool :=
  k.isTagPresent addr || decide ((k.resident.filter fun b =>
    k.addressToCacheSet b = k.addressToCacheSet addr).length < k.assoc)

/-- What `cacheProbe` may return for `addr`: a line of the same set. Which one
is up to the replacement policy. -/
def isVictim (k : CacheMemory) (addr victim : Addr) : Bool :=
  k.isTagPresent victim && decide (k.addressToCacheSet victim = k.addressToCacheSet addr)

def allocate (k : CacheMemory) (addr : Addr) (e : Entry) : CacheMemory :=
  { k with entry := Function.update k.entry addr (some e), resident := addr :: k.resident }

def deallocate (k : CacheMemory) (addr : Addr) : CacheMemory :=
  { k with entry := Function.update k.entry addr none, resident := k.resident.erase addr }

/-- A change to the entry of `addr`, if there is one. -/
def modify (k : CacheMemory) (addr : Addr) (f : Entry → Entry) : CacheMemory :=
  { k with entry := Function.update k.entry addr ((k.entry addr).map f) }

@[simp] theorem lookup_allocate (k : CacheMemory) (a b : Addr) (e : Entry) :
    (k.allocate a e).lookup b = if b = a then some e else k.lookup b := by
  simp [lookup, allocate, Function.update_apply]

@[simp] theorem lookup_deallocate (k : CacheMemory) (a b : Addr) :
    (k.deallocate a).lookup b = if b = a then none else k.lookup b := by
  simp [lookup, deallocate, Function.update_apply]

@[simp] theorem lookup_modify (k : CacheMemory) (a b : Addr) (f : Entry → Entry) :
    (k.modify a f).lookup b = if b = a then (k.lookup b).map f else k.lookup b := by
  by_cases h : b = a
  · simp [lookup, modify, h]
  · simp [lookup, modify, h]

end CacheMemory

end Ruby

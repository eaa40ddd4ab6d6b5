import Lab447.Ruby.Types

/-!
`Sequencer` of `gem5/src/mem/ruby/system/Sequencer.cc`, with the broadcast
functions added to it. Its callbacks work on the data block of a cache entry, on
the queue and on the block map of the L1 controller it belongs to, so they are
functions on the state of that controller. TLB, HTM, swap and atomic packets,
statistics and the deadlock check are left out.
-/

namespace Ruby

structure SequencerRequest where
  pkt : Packet
  type : RubyRequestType
  secondType : RubyRequestType
  deriving DecidableEq

/-- `hitCallbacks` and `bcCallbacks` are the packets handed to
`ruby_hit_callback` and `ruby_hit_callback_BC` so far. -/
structure Sequencer where
  requestTable : Addr → List SequencerRequest
  outstandingCount : Int
  bcRecord : Addr → Option Packet
  hitCallbacks : List Packet
  bcCallbacks : List Packet

inductive CacheSide where
  | icache | dcache
  deriving DecidableEq

def CacheSide.other : CacheSide → CacheSide
  | icache => dcache
  | dcache => icache

/-- An L1 controller and its sequencer. The `Out` fields hold what has been
enqueued for the network and not yet taken out of it. -/
structure Controller where
  version : Nat
  l1Icache : CacheMemory
  l1Dcache : CacheMemory
  tbes : Addr → Option TBE
  sequencer : Sequencer
  mandatoryQueue : MessageBuffer RubyRequest
  optionalQueue : MessageBuffer LineRequest
  blockMap : Addr → Bool
  requestL1NetworkOut : List RequestMsg
  responseL1NetworkOut : List ResponseMsg
  unblockNetworkOut : List ResponseMsg

/-- The assertions, panics and null dereferences a run can end in. -/
inductive Fault where
  | recordBC | tagInBothCaches | invalidTransition | invalidRequestType | invalidMessageType
  | notForThisMachine | emptyQueue | invalidEntry | invalidTBE | tbePresent | tbeAbsent
  | tagPresent | noRoom | tagAbsent | notALine | noRequest | wrongRequestType | acrossLine
  | unsupportedPacket | noPacket
  deriving DecidableEq

def assertion (p : Bool) (f : Fault) : Except Fault Unit := if p then .ok () else .error f

namespace Controller

def machineID (c : Controller) : MachineID := ⟨.L1Cache, c.version⟩

def cache (c : Controller) : CacheSide → CacheMemory
  | .icache => c.l1Icache
  | .dcache => c.l1Dcache

def setCache (c : Controller) : CacheSide → CacheMemory → Controller
  | .icache, k => { c with l1Icache := k }
  | .dcache, k => { c with l1Dcache := k }

def lookup (c : Controller) (side : CacheSide) (addr : Addr) : Option Entry :=
  (c.cache side).lookup addr

def modifyEntry (c : Controller) (side : CacheSide) (addr : Addr) (f : Entry → Entry) : Controller :=
  c.setCache side ((c.cache side).modify addr f)

/-- The data block of a line, which the callbacks get a reference to. -/
def dataBlk (c : Controller) (side : CacheSide) (addr : Addr) : DataBlock :=
  match c.lookup side addr with
  | some e => e.dataBlk
  | none => []

def isBlocked (c : Controller) (addr : Addr) : Bool := c.blockMap addr

def blockOnQueue (c : Controller) (addr : Addr) : Controller :=
  { c with blockMap := Function.update c.blockMap addr true }

def unblock (c : Controller) (addr : Addr) : Controller :=
  { c with blockMap := Function.update c.blockMap addr false }

/-! ### Load-linked monitors -/

def llscLoadLinked (c : Controller) (addr : Addr) : Controller :=
  c.modifyEntry .dcache addr fun e => { e with locked := true }

def llscClearMonitor (c : Controller) (addr : Addr) : Controller :=
  c.modifyEntry .dcache addr fun e => { e with locked := false }

def llscStoreConditional (c : Controller) (addr : Addr) : Bool × Controller :=
  ((c.lookup .dcache addr).any Entry.locked, c.llscClearMonitor addr)

/-- `evictionCallback`; the message to the processor is left out. -/
def evictionCallback (c : Controller) (addr : Addr) : Controller := c.llscClearMonitor addr

/-! ### Broadcast records -/

def recordBC (c : Controller) (addr : Addr) (pkt : Packet) : Except Fault Controller :=
  if c.sequencer.bcRecord addr = none then
    .ok { c with sequencer := { c.sequencer with
      bcRecord := Function.update c.sequencer.bcRecord addr (some pkt) } }
  else .error .recordBC

def eraseBC (c : Controller) (addr : Addr) : Controller :=
  { c with sequencer := { c.sequencer with
    bcRecord := Function.update c.sequencer.bcRecord addr none } }

def enqueueMandatory (c : Controller) (msg : RubyRequest) : Controller :=
  { c with mandatoryQueue := c.mandatoryQueue.enqueue msg }

section
variable (cfg : Config)

/-! ### Making requests -/

/-- The message `issueRequest` makes from a packet. -/
def request (pkt : Packet) (type : RubyRequestType) : RubyRequest :=
  { lineAddress := makeLineAddress cfg pkt.addr, type, accessMode := .Supervisor, prefetch := .No
    pkt, isBCDuplicate := false, netDest := [] }

def issueRequest (pkt : Packet) (secondaryType : RubyRequestType) (c : Controller) :
    Except Fault Controller :=
  if pkt.isBroadcast then
    (c.recordBC pkt.addr pkt).map fun c => c.enqueueMandatory (request cfg pkt secondaryType)
  else .ok (c.enqueueMandatory (request cfg pkt secondaryType))

/-- The primary and secondary type `makeRequest` gives a packet. -/
def requestTypes (pkt : Packet) : Except Fault (RubyRequestType × RubyRequestType) :=
  if pkt.isLLSC then
    if pkt.isWrite then .ok (.StoreConditional, .ST)
    else if pkt.isRead then .ok (.LoadLinked, .LD)
    else .error .unsupportedPacket
  else if pkt.isLockedRMW then
    if pkt.isWrite then .ok (.LockedRMWWrite, .ST)
    else if pkt.isRead then .ok (.LockedRMWRead, .ST)
    else .error .unsupportedPacket
  else if pkt.isWrite then .ok (.ST, .ST)
  else if pkt.isRead then
    if pkt.isInstFetch then .ok (.IFETCH, .IFETCH)
    else if pkt.isReadModifyWrite then .ok (.RMWRead, .ST)
    else .ok (.LD, .LD)
  else if pkt.isFlush then .ok (.FLUSH, .FLUSH)
  else .error .unsupportedPacket

def setRequests (c : Controller) (addr : Addr) (rs : List SequencerRequest) : Controller :=
  { c with sequencer := { c.sequencer with
    requestTable := Function.update c.sequencer.requestTable addr rs } }

/-- A request that finds another one for its line in the table is aliased. -/
def insertRequest (pkt : Packet) (primaryType secondaryType : RubyRequestType) (c : Controller) :
    RequestStatus × Controller :=
  let lineAddr := makeLineAddress cfg pkt.addr
  let rs := c.sequencer.requestTable lineAddr
  let c' := c.setRequests lineAddr (rs ++ [⟨pkt, primaryType, secondaryType⟩])
  (if rs = [] then .Ready else .Aliased,
    { c' with sequencer := { c'.sequencer with
      outstandingCount := c'.sequencer.outstandingCount + 1 } })

def makeRequest (pkt : Packet) (c : Controller) : Except Fault (RequestStatus × Controller) :=
  if (cfg.maxOutstandingRequests : Int) ≤ c.sequencer.outstandingCount then .ok (.BufferFull, c)
  else (requestTypes pkt).bind fun (primaryType, secondaryType) =>
    if c.isBlocked (makeLineAddress cfg pkt.addr) && primaryType ≠ .LockedRMWWrite then
      .ok (.Aliased, c)
    else
      match insertRequest cfg pkt primaryType secondaryType c with
      | (.Aliased, c') => .ok (.Issued, c')
      | (_, c') => (issueRequest cfg pkt secondaryType c').map fun c' => (.Issued, c')

/-! ### Completing requests -/

def markRemoved (c : Controller) : Controller :=
  { c with sequencer := { c.sequencer with
    outstandingCount := c.sequencer.outstandingCount - 1 } }

def rubyHitCallback (c : Controller) (pkt : Packet) : Controller :=
  { c with sequencer := { c.sequencer with
    hitCallbacks := c.sequencer.hitCallbacks ++ [pkt] } }

/-- Whether `hitCallback` reads or writes the line. -/
def touchesData (r : SequencerRequest) (llscSuccess : Bool) : Bool :=
  match r.type with
  | .FLUSH => false
  | .StoreConditional => llscSuccess
  | _ => true

/-- The packet takes its data from the line or leaves it there, and goes back to
the processor. -/
def hitCallback (side : CacheSide) (address : Addr) (llscSuccess : Bool) (r : SequencerRequest)
    (c : Controller) : Except Fault Controller :=
  if touchesData r llscSuccess && decide (blockSizeBytes cfg < getOffset cfg r.pkt.addr + r.pkt.size) then
    .error .acrossLine
  else
    let offset := getOffset cfg r.pkt.addr
    match r.type with
    | .LoadLinked =>
      let c := c.llscLoadLinked (makeLineAddress cfg r.pkt.addr)
      .ok (c.rubyHitCallback
        { r.pkt with data := (c.dataBlk side address).getData offset r.pkt.size })
    | .LD | .IFETCH | .RMWRead | .LockedRMWRead =>
      .ok (c.rubyHitCallback
        { r.pkt with data := (c.dataBlk side address).getData offset r.pkt.size })
    | .StoreConditional =>
      let c := if llscSuccess then
          c.modifyEntry side address fun e => { e with dataBlk := e.dataBlk.setData r.pkt.data offset }
        else c
      .ok (c.rubyHitCallback r.pkt)
    | .ST | .LockedRMWWrite =>
      .ok ((c.modifyEntry side address fun e =>
        { e with dataBlk := e.dataBlk.setData r.pkt.data offset }).rubyHitCallback r.pkt)
    | .FLUSH => .ok (c.rubyHitCallback r.pkt)

/-- The loop of `readCallback`: reads are completed up to the first write, which
is issued to the cache hierarchy. -/
def readLoop (side : CacheSide) (address : Addr) (rubyRequest : Bool) :
    List SequencerRequest → Controller → Except Fault Controller
  | [], c => .ok (c.setRequests address [])
  | r :: rest, c =>
    if r.type.isRead then
      (hitCallback cfg side address true r c.markRemoved).bind (readLoop side address false rest)
    else if rubyRequest then .error .wrongRequestType
    else issueRequest cfg r.pkt r.secondType (c.setRequests address (r :: rest))

def readCallback (side : CacheSide) (address : Addr) (c : Controller) : Except Fault Controller :=
  if address ≠ makeLineAddress cfg address then .error .notALine
  else if c.sequencer.requestTable address = [] then .error .noRequest
  else readLoop cfg side address true (c.sequencer.requestTable address) c

/-- What a write does before its callback: it clears or tests the monitor of the
line, and a locked access blocks or unblocks it. -/
def beforeWrite (address : Addr) (r : SequencerRequest) (c : Controller) : Bool × Controller :=
  let (success, c) :=
    if r.type ≠ .StoreConditional then (true, c.llscClearMonitor address)
    else c.llscStoreConditional address
  let c :=
    if r.type = .LockedRMWRead then c.blockOnQueue address
    else if r.type = .LockedRMWWrite then c.unblock address
    else c
  (success, c)

/-- The loop of `writeCallback`: every request of the line is completed. -/
def writeLoop (side : CacheSide) (address : Addr) (rubyRequest : Bool) :
    List SequencerRequest → Controller → Except Fault Controller
  | [], c => .ok (c.setRequests address [])
  | r :: rest, c =>
    if r.type.isRead then
      if rubyRequest then .error .wrongRequestType
      else (hitCallback cfg side address true r c.markRemoved).bind
        (writeLoop side address rubyRequest rest)
    else
      let (success, c) := beforeWrite address r c
      (hitCallback cfg side address success r c.markRemoved).bind (writeLoop side address false rest)

def writeCallback (side : CacheSide) (address : Addr) (c : Controller) : Except Fault Controller :=
  if address ≠ makeLineAddress cfg address then .error .notALine
  else if c.sequencer.requestTable address = [] then .error .noRequest
  else writeLoop cfg side address true (c.sequencer.requestTable address) c

/-! ### Duplicating broadcasts -/

/-- The message `issueDuplicateBC` enqueues for the L1 `machID`. -/
def duplicate (address : Addr) (data : DataBlock) (pkt : Packet) (machID : MachineID) : RubyRequest :=
  { request cfg { pkt with data := data.getData (getOffset cfg address) pkt.size } .LD with
    isBCDuplicate := true, netDest := [machID] }

/-- The L1 machines `duplicateBC` sends a copy to. -/
def others (self : MachineID) : List MachineID :=
  ((List.range cfg.numL1).map fun i => ⟨.L1Cache, i⟩).filter fun mach => mach ≠ self

/-- `duplicateBC`, for the packet that is recorded under `address`. -/
def duplicateBC (address : Addr) (data : DataBlock) (pkt : Packet) (c : Controller) :
    Except Fault Controller :=
  if blockSizeBytes cfg < getOffset cfg address + pkt.size then .error .acrossLine
  else .ok (((others cfg c.machineID).foldl
    (fun c mach => c.enqueueMandatory (duplicate cfg address data pkt mach)) c).eraseBC address)

/-- `if (AddrIsBC(address)) duplicateBC(address, ...)`. -/
def duplicateIfBC (side : CacheSide) (address : Addr) (c : Controller) : Except Fault Controller :=
  match c.sequencer.bcRecord address with
  | none => .ok c
  | some pkt => duplicateBC cfg address (c.dataBlk side address) pkt c

def readCallbackBC (address : Addr) (pkt : Packet) (c : Controller) : Except Fault Controller :=
  if address ≠ makeLineAddress cfg address then .error .notALine
  else .ok { c with sequencer := { c.sequencer with
    bcCallbacks := c.sequencer.bcCallbacks ++ [pkt] } }

end

end Controller

end Ruby

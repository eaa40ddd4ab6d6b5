import Lab447.Lib.Machine
import Lab447.Lib.Pools
import Lab447.Lib.Script
import Mathlib

/-!
The memory controller of `gem5/src/mem/mem_ctrl.cc` with the queues of
`gem5/src/mem/qos/mem_ctrl.hh`. Times, statistics and the address decoding are
left out, so an event may happen whenever its queue has something for it. What the
policies and the memory interface decide comes from outside. Sizes are 32 bits
wide, as in the source; addresses do not wrap around.
-/

namespace MemCtrl

open Pools

abbrev RequestorID := Nat

inductive BusState where
  | READ | WRITE
  deriving DecidableEq

/-- The burst size is a power of two. -/
structure Config where
  burstBits : Nat
  numPriorities : Nat
  readBufferSize : Nat
  writeBufferSize : Nat
  writeHighThreshold : Nat
  writeLowThreshold : Nat
  minWritesPerSwitch : Nat
  minReadsPerSwitch : Nat
  qosPriorityEscalation : Bool
  qosSyncroScheduler : Bool

def Config.bytesPerBurst (cfg : Config) : Nat := 2 ^ cfg.burstBits

/-- `id` tells the packets of a run apart. -/
structure Packet where
  id : Nat
  requestorId : RequestorID
  addr : Nat
  size : BitVec 32
  isRead : Bool
  isWrite : Bool
  qosValue : Nat

/-- `burstHelper` is the address of a helper, and `pkt` the `id` of the packet. -/
structure MemPacket where
  pkt : Nat
  requestorId : RequestorID
  read : Bool
  addr : Nat
  size : Nat
  burstHelper : Option Nat
  qosValue : Nat

def MemPacket.setQosValue (qv : Nat) (p : MemPacket) : MemPacket := { p with qosValue := qv }

structure BurstHelper where
  burstCount : Nat
  burstsServiced : Nat

abbrev Queues := Nat → List MemPacket

inductive Fault where
  | neitherReadNorWrite | zeroSize | noBursts | invalidPriority
  | readQueueOverflow | writeQueueOverflow | writeQueueMismatch
  | unknownRequestor | negativePackets | endless
  | burstTooLarge | foreignIterator | danglingHelper
  deriving DecidableEq

/-- `burstHelper` is the heap of the helpers that are alive, `helpers` the number
made so far, and `answered` lists the packets `accessAndRespond` was called for. -/
structure Ctrl where
  readQueue : Queues
  writeQueue : Queues
  respQueue : List MemPacket
  isInWriteQueue : Finset Nat
  totalReadQueueSize : Nat
  totalWriteQueueSize : Nat
  readQueueSizes : Nat → Nat
  writeQueueSizes : Nat → Nat
  packetPriorities : RequestorID → Nat → Nat
  requestors : List RequestorID
  burstHelper : Nat → Option BurstHelper
  helpers : Nat
  busState : BusState
  busStateNext : BusState
  readsThisTime : Nat
  writesThisTime : Nat
  retryRdReq : Bool
  retryWrReq : Bool
  answered : List Nat

def divCeil (a b : Nat) : Nat := (a + b - 1) / b

section
variable (cfg : Config)

/-- `addr & ~(bytesPerBurst - 1)`. -/
def burstAlign (addr : Nat) : Nat := addr - (addr &&& (cfg.bytesPerBurst - 1))

/-- `(addr | (burst_size - 1)) + 1`. -/
def nextBurst (addr : Nat) : Nat := (addr ||| (cfg.bytesPerBurst - 1)) + 1

end

namespace Ctrl

def start : Ctrl where
  readQueue _ := []
  writeQueue _ := []
  respQueue := []
  isInWriteQueue := ∅
  totalReadQueueSize := 0
  totalWriteQueueSize := 0
  readQueueSizes _ := 0
  writeQueueSizes _ := 0
  packetPriorities _ _ := 0
  requestors := []
  burstHelper _ := none
  helpers := 0
  busState := .READ
  busStateNext := .READ
  readsThisTime := 0
  writesThisTime := 0
  retryRdReq := false
  retryWrReq := false
  answered := []

/-! ### Queues by priority -/

def selQueue (isRead : Bool) (c : Ctrl) : Queues := if isRead then c.readQueue else c.writeQueue

def queueSizes (isRead : Bool) (c : Ctrl) : Nat → Nat :=
  if isRead then c.readQueueSizes else c.writeQueueSizes

def setQueue (isRead : Bool) (queues : Queues) (c : Ctrl) : Ctrl :=
  if isRead then { c with readQueue := queues } else { c with writeQueue := queues }

def setQueueSizes (isRead : Bool) (sizes : Nat → Nat) (c : Ctrl) : Ctrl :=
  if isRead then { c with readQueueSizes := sizes } else { c with writeQueueSizes := sizes }

def addRequestor (id : RequestorID) (c : Ctrl) : Ctrl :=
  if id ∈ c.requestors then c
  else { c with
    requestors := c.requestors ++ [id]
    packetPriorities := Function.update c.packetPriorities id fun _ => 0 }

/-- The number of packets of a requestor in a priority. -/
def setPackets (id : RequestorID) (prio n : Nat) (c : Ctrl) : Ctrl :=
  { c with
    packetPriorities :=
      Function.update c.packetPriorities id (Function.update (c.packetPriorities id) prio n) }

def addTotal (isRead : Bool) (c : Ctrl) : Ctrl :=
  if isRead then { c with totalReadQueueSize := c.totalReadQueueSize + 1 }
  else { c with totalWriteQueueSize := c.totalWriteQueueSize + 1 }

def subTotal (isRead : Bool) (c : Ctrl) : Ctrl :=
  if isRead then { c with totalReadQueueSize := c.totalReadQueueSize - 1 }
  else { c with totalWriteQueueSize := c.totalWriteQueueSize - 1 }

/-- `logRequest` for one entry. -/
def logRequest (isRead : Bool) (id : RequestorID) (qos : Nat) (c : Ctrl) : Ctrl :=
  let c := c.addRequestor id
  let c := c.setQueueSizes isRead
    (Function.update (c.queueSizes isRead) qos (c.queueSizes isRead qos + 1))
  let c := c.addTotal isRead
  c.setPackets id qos (c.packetPriorities id qos + 1)

/-- `logResponse` for one entry. -/
def logResponse (isRead : Bool) (id : RequestorID) (qos : Nat) (c : Ctrl) : Except Fault Ctrl :=
  if id ∉ c.requestors then .error .unknownRequestor
  else
    let c := c.setQueueSizes isRead
      (Function.update (c.queueSizes isRead) qos (c.queueSizes isRead qos - 1))
    let c := c.subTotal isRead
    if c.packetPriorities id qos = 0 then .error .negativePackets
    else .ok (c.setPackets id qos (c.packetPriorities id qos - 1))

section
variable (cfg : Config)

/-- The counters when entries are moved from one priority to another. -/
def shiftEntries (isRead : Bool) (id : RequestorID) (currPrio tgtPrio moved : Nat) (c : Ctrl) :
    Ctrl :=
  let sizes := Function.update (c.queueSizes isRead) currPrio (c.queueSizes isRead currPrio - moved)
  let c := c.setQueueSizes isRead (Function.update sizes tgtPrio (sizes tgtPrio + moved))
  let c := c.setPackets id currPrio (c.packetPriorities id currPrio - moved)
  c.setPackets id tgtPrio (c.packetPriorities id tgtPrio + moved)

def moveEntries (isRead : Bool) (id : RequestorID) (currPrio tgtPrio moved : Nat) (c : Ctrl) :
    Except Fault Ctrl :=
  if c.queueSizes isRead currPrio < moved then .error .negativePackets
  else if c.packetPriorities id currPrio < moved then .error .negativePackets
  else .ok (c.shiftEntries isRead id currPrio tgtPrio moved)

/-- The loop of `escalateQueues`: the packets that stay and those that are moved. -/
def escalateFrom (id : RequestorID) (currPrio tgtPrio : Nat) :
    List MemPacket → Ctrl → Except Fault (List MemPacket × List MemPacket × Ctrl)
  | [], c => .ok ([], [], c)
  | p :: ps, c =>
    if c.packetPriorities id currPrio = 0 then .ok (p :: ps, [], c)
    else if p.requestorId = id then
      (c.moveEntries p.read id currPrio tgtPrio (divCeil p.size cfg.bytesPerBurst)).bind fun c =>
        (escalateFrom id currPrio tgtPrio ps c).map fun (kept, moved, c) =>
          (kept, p.setQosValue tgtPrio :: moved, c)
    else (escalateFrom id currPrio tgtPrio ps c).map fun (kept, moved, c) => (p :: kept, moved, c)

/-- The queues after packets were moved. -/
def moveQueue (currPrio tgtPrio : Nat) (kept moved : List MemPacket) (queues : Queues) : Queues :=
  Function.update (Function.update queues currPrio kept) tgtPrio (queues tgtPrio ++ moved)

def escalateQueues (isRead : Bool) (id : RequestorID) (currPrio tgtPrio : Nat) (c : Ctrl) :
    Except Fault Ctrl :=
  (escalateFrom cfg id currPrio tgtPrio (c.selQueue isRead currPrio) c).map fun (kept, moved, c) =>
    c.setQueue isRead (moveQueue currPrio tgtPrio kept moved (c.selQueue isRead))

/-- `while (packetPriorities[id][curr_prio] > 0)`. A target that does not exist is
an index out of range as soon as there is a packet to move. -/
def escalatePrio (id : RequestorID) (currPrio tgtPrio : Nat) : Nat → Ctrl → Except Fault Ctrl
  | 0, _ => .error .endless
  | fuel + 1, c =>
    if c.packetPriorities id currPrio = 0 then .ok c
    else if cfg.numPriorities ≤ tgtPrio then .error .invalidPriority
    else
      ((c.escalateQueues cfg true id currPrio tgtPrio).bind
        (escalateQueues cfg false id currPrio tgtPrio)).bind (escalatePrio id currPrio tgtPrio fuel)

def escalate (id : RequestorID) (tgtPrio : Nat) (c : Ctrl) : Except Fault Ctrl :=
  Script.run
    (fun currPrio c =>
      escalatePrio cfg id currPrio tgtPrio (c.packetPriorities id currPrio + 1) c)
    ((List.range cfg.numPriorities).filter (· ≠ tgtPrio)) (c.addRequestor id)

/-- `qosSchedule`, with what the policy says for the packet and for the requestors.
It returns the packet with its priority. -/
def qosSchedule (priority : Nat) (others : RequestorID → Nat) (pkt : Packet) (c : Ctrl) :
    Except Fault (Packet × Ctrl) :=
  if cfg.numPriorities ≤ priority then .error .invalidPriority
  else
    let pkt := { pkt with qosValue := priority }
    let synced : Except Fault Ctrl :=
      if cfg.qosSyncroScheduler && cfg.qosPriorityEscalation then
        Script.run (fun id c => c.escalate cfg id (others id))
          (c.requestors.filter (· ≠ pkt.requestorId)) c
      else .ok c
    synced.bind fun c =>
      if cfg.qosPriorityEscalation then
        (c.escalate cfg pkt.requestorId priority).map fun c => (pkt, c)
      else .ok (pkt, c)

/-! ### Accepting requests -/

def readQueueFull (neededEntries : Nat) (c : Ctrl) : Bool :=
  decide (cfg.readBufferSize < c.totalReadQueueSize + c.respQueue.length + neededEntries)

def writeQueueFull (neededEntries : Nat) (c : Ctrl) : Bool :=
  decide (cfg.writeBufferSize < c.totalWriteQueueSize + neededEntries)

def accessAndRespond (pkt : Nat) (c : Ctrl) : Ctrl := { c with answered := pkt :: c.answered }

/-- The size of the burst at `addr` of a packet. -/
def burstSize (pkt : Packet) (addr : Nat) : Nat :=
  min (nextBurst cfg addr) (pkt.addr + pkt.size.toNat) - addr

/-- Whether the write queue packet has all the bytes. -/
def covers (addr : Nat) (size : Nat) (p : MemPacket) : Bool :=
  decide (p.addr ≤ addr) && decide (addr + size ≤ p.addr + p.size)

/-- The write queues with a packet that has all the bytes. The search leaves a
queue at the first one but goes on with the next queue. -/
def servicedByWrQ (addr : Nat) (size : Nat) (c : Ctrl) : Nat :=
  if burstAlign cfg addr ∈ c.isInWriteQueue then
    (List.range cfg.numPriorities).countP fun prio => (c.writeQueue prio).any (covers addr size)
  else 0

/-- Makes a burst helper for a split packet that has none yet. -/
def makeHelper (pktCount : Nat) (helper : Option Nat) (c : Ctrl) : Option Nat × Ctrl :=
  if 1 < pktCount ∧ helper = none then
    (some c.helpers, { c with
      burstHelper := Function.update c.burstHelper c.helpers (some ⟨pktCount, 0⟩)
      helpers := c.helpers + 1 })
  else (helper, c)

def pushBack (p : MemPacket) (queues : Queues) : Queues :=
  Function.update queues p.qosValue (queues p.qosValue ++ [p])

/-- A packet is put into its queue and logged. -/
def enqueue (isRead : Bool) (p : MemPacket) (c : Ctrl) : Ctrl :=
  (c.setQueue isRead (pushBack p (c.selQueue isRead))).logRequest isRead p.requestorId p.qosValue

/-- The loop of `addToReadQueue`: the bursts serviced by the write queue and the
burst helper, if one was made. -/
def readLoop (pkt : Packet) (pktCount : Nat) :
    Nat → Nat → Nat → Option Nat → Ctrl → Except Fault (Nat × Option Nat × Ctrl)
  | 0, _, serviced, helper, c => .ok (serviced, helper, c)
  | left + 1, addr, serviced, helper, c =>
    let size := burstSize cfg pkt addr
    let found := servicedByWrQ cfg addr size c
    if 0 < found then
      readLoop pkt pktCount left (nextBurst cfg addr) (serviced + found) helper c
    else
      let (helper, c) := c.makeHelper pktCount helper
      if c.readQueueFull cfg 1 then .error .readQueueOverflow
      else
        let p : MemPacket := ⟨pkt.id, pkt.requestorId, true, addr, size, helper, pkt.qosValue⟩
        readLoop pkt pktCount left (nextBurst cfg addr) serviced helper (c.enqueue true p)

def setServiced (helper n : Nat) (c : Ctrl) : Ctrl :=
  { c with
    burstHelper := Function.update c.burstHelper helper
      ((c.burstHelper helper).map fun b => { b with burstsServiced := n }) }

def addToReadQueue (pkt : Packet) (pktCount : Nat) (c : Ctrl) : Except Fault Ctrl :=
  if pktCount = 0 then .error .noBursts
  else (readLoop cfg pkt pktCount pktCount pkt.addr 0 none c).map fun (serviced, helper, c) =>
    if serviced = pktCount then c.accessAndRespond pkt.id
    else match helper with
      | some helper => c.setServiced helper serviced
      | none => c

/-- The loop of `addToWriteQueue`. A burst that is in the queue already is merged
with it. -/
def writeLoop (pkt : Packet) : Nat → Nat → Ctrl → Except Fault Ctrl
  | 0, _, c => .ok c
  | left + 1, addr, c =>
    let size := burstSize cfg pkt addr
    if burstAlign cfg addr ∈ c.isInWriteQueue then writeLoop pkt left (nextBurst cfg addr) c
    else if cfg.writeBufferSize ≤ c.totalWriteQueueSize then .error .writeQueueOverflow
    else
      let p : MemPacket := ⟨pkt.id, pkt.requestorId, false, addr, size, none, pkt.qosValue⟩
      let c : Ctrl := { c.enqueue false p with
        isInWriteQueue := insert (burstAlign cfg addr) c.isInWriteQueue }
      if c.totalWriteQueueSize ≠ c.isInWriteQueue.card then .error .writeQueueMismatch
      else writeLoop pkt left (nextBurst cfg addr) c

def addToWriteQueue (pkt : Packet) (pktCount : Nat) (c : Ctrl) : Except Fault Ctrl :=
  (writeLoop cfg pkt pktCount pkt.addr c).map (accessAndRespond pkt.id)

/-- The bursts a packet is split into, `divCeil(offset + size, burst_size)`. -/
def pktCount (pkt : Packet) : Nat :=
  let offset : BitVec 32 := .ofNat 32 (pkt.addr &&& (cfg.bytesPerBurst - 1))
  let burstSize : BitVec 32 := .ofNat 32 cfg.bytesPerBurst
  ((offset + pkt.size + burstSize - 1) / burstSize).toNat

/-- Returns whether the packet was accepted. -/
def recvTimingReq (priority : Nat) (others : RequestorID → Nat) (pkt : Packet) (c : Ctrl) :
    Except Fault (Bool × Ctrl) :=
  if !(pkt.isRead || pkt.isWrite) then .error .neitherReadNorWrite
  else (c.qosSchedule cfg priority others pkt).bind fun (pkt, c) =>
    if pkt.size = 0 then .error .zeroSize
    else if pkt.isWrite then
      if c.writeQueueFull cfg (pktCount cfg pkt) then .ok (false, { c with retryWrReq := true })
      else (c.addToWriteQueue cfg pkt (pktCount cfg pkt)).map fun c => (true, c)
    else if c.readQueueFull cfg (pktCount cfg pkt) then .ok (false, { c with retryRdReq := true })
    else (c.addToReadQueue cfg pkt (pktCount cfg pkt)).map fun c => (true, c)

end

/-! ### Answering reads -/

/-- `processRespondEvent`, for the packet at the front of the response queue. -/
def processRespondEvent (p : MemPacket) (rest : List MemPacket) (c : Ctrl) : Except Fault Ctrl :=
  let done (c : Ctrl) : Ctrl := { c with respQueue := rest, retryRdReq := false }
  match p.burstHelper with
  | none => .ok (done (c.accessAndRespond p.pkt))
  | some helper =>
    match c.burstHelper helper with
    | none => .error .danglingHelper
    | some b =>
      if b.burstsServiced + 1 = b.burstCount then
        let c := c.accessAndRespond p.pkt
        .ok (done { c with burstHelper := Function.update c.burstHelper helper none })
      else .ok (done (c.setServiced helper (b.burstsServiced + 1)))

/-! ### Issuing bursts -/

/-- What the rest of the system decides when a burst is to be issued: the bus
state the turnaround policy selects, if there is one, whether the memory is busy,
the system is draining or writes to NVM are blocked, and the packet `chooseNext`
picks from each queue. -/
structure Outside where
  turn : Option BusState
  memBusy : Bool
  draining : Bool
  nvmWriteBlock : Bool
  chooseNext : Nat → Option Nat

/-- The queues are searched from the highest priority down. -/
def findNext (o : Outside) (queues : Queues) : Nat → Option (Nat × Nat × MemPacket)
  | 0 => none
  | prio + 1 =>
    match (o.chooseNext prio).bind fun k => (queues prio)[k]?.map fun p => (prio, k, p) with
    | some found => some found
    | none => findNext o queues prio

section
variable (cfg : Config)

/-- A read burst is issued and goes to the response queue. -/
def issueRead (o : Outside) (prio k : Nat) (p : MemPacket) (c : Ctrl) : Except Fault Ctrl :=
  if cfg.bytesPerBurst < p.size then .error .burstTooLarge
  else if p.qosValue ≠ prio then .error .foreignIterator
  else
    let c := { c with readsThisTime := c.readsThisTime + 1 }
    (c.logResponse true p.requestorId p.qosValue).map fun c =>
      let switchToWrites := decide (cfg.writeHighThreshold < c.totalWriteQueueSize) &&
        (decide (cfg.minReadsPerSwitch ≤ c.readsThisTime) || decide (c.totalReadQueueSize = 0)) &&
        !o.nvmWriteBlock
      { c with
        respQueue := c.respQueue ++ [p]
        readQueue := Function.update c.readQueue prio ((c.readQueue prio).eraseIdx k)
        busStateNext := if switchToWrites then .WRITE else c.busStateNext }

/-- A write burst is issued and leaves the write queue. -/
def issueWrite (o : Outside) (prio k : Nat) (p : MemPacket) (c : Ctrl) : Except Fault Ctrl :=
  if cfg.bytesPerBurst < p.size then .error .burstTooLarge
  else if p.qosValue ≠ prio then .error .foreignIterator
  else
    let c := { c with
      writesThisTime := c.writesThisTime + 1
      isInWriteQueue := c.isInWriteQueue.erase (burstAlign cfg p.addr) }
    (c.logResponse false p.requestorId p.qosValue).map fun c =>
      let c := { c with
        writeQueue := Function.update c.writeQueue prio ((c.writeQueue prio).eraseIdx k) }
      let belowThreshold :=
        decide (c.totalWriteQueueSize + cfg.minWritesPerSwitch < cfg.writeLowThreshold)
      let reading := decide (c.totalReadQueueSize ≠ 0)
      if c.totalWriteQueueSize = 0 || (belowThreshold && !o.draining) ||
          (reading && decide (cfg.minWritesPerSwitch ≤ c.writesThisTime)) ||
          (reading && o.nvmWriteBlock) then
        { c with busStateNext := .READ }
      else c

/-- The end of `processNextReqEvent`: a writer that had to wait may try again. -/
def retryWrite (c : Ctrl) : Ctrl :=
  if c.retryWrReq && decide (c.totalWriteQueueSize < cfg.writeBufferSize) then
    { c with retryWrReq := false }
  else c

/-- The bus state changes. -/
def turnAround (o : Outside) (c : Ctrl) : Ctrl :=
  let next := o.turn.getD c.busStateNext
  let c := { c with busStateNext := next }
  let c :=
    if c.busState = next then c
    else match c.busState with
      | .READ => { c with readsThisTime := 0 }
      | .WRITE => { c with writesThisTime := 0 }
  { c with busState := next }

def processNextReqEvent (o : Outside) (c : Ctrl) : Except Fault Ctrl :=
  let c := c.turnAround o
  if o.memBusy then .ok c
  else match c.busState with
    | .READ =>
      if c.totalReadQueueSize = 0 then
        if c.totalWriteQueueSize ≠ 0 ∧
            (o.draining ∨ cfg.writeLowThreshold < c.totalWriteQueueSize) then
          .ok ({ c with busStateNext := .WRITE }.retryWrite cfg)
        else .ok c
      else match findNext o c.readQueue cfg.numPriorities with
        | none => .ok c
        | some (prio, k, p) => (c.issueRead cfg o prio k p).map (retryWrite cfg)
    | .WRITE =>
      match findNext o c.writeQueue cfg.numPriorities with
      | none => .ok c
      | some (prio, k, p) => (c.issueWrite cfg o prio k p).map (retryWrite cfg)

end

end Ctrl

/-! ### Runs -/

/-- A piece of memory, as its address and its size. -/
abbrev Burst := Nat × Nat

/-- The first `n` bursts of a packet. -/
def bursts (cfg : Config) (pkt : Packet) (n : Nat) : List Burst :=
  (List.range n).map fun k =>
    let first := max pkt.addr ((pkt.addr / cfg.bytesPerBurst + k) * cfg.bytesPerBurst)
    let next := (pkt.addr / cfg.bytesPerBurst + k + 1) * cfg.bytesPerBurst
    (first, min next (pkt.addr + pkt.size.toNat) - first)

/-- What has to be read from memory for a packet: nothing for a write, and for a
read the bursts that no packet of the write queues has. -/
def uncovered (cfg : Config) (c : Ctrl) (pkt : Packet) : List Burst :=
  if pkt.isWrite then []
  else (bursts cfg pkt (Ctrl.pktCount cfg pkt)).filter fun b =>
    (pool cfg.numPriorities c.writeQueue).all fun p => !Ctrl.covers b.1 b.2 p

/-- A packet that was accepted, with what had to be read for it then. -/
structure Request where
  pkt : Packet
  needs : List Burst

/-- The controller, the requests it has accepted, and the bursts that have been
read from memory, each with the packet it was read for. -/
structure State where
  ctrl : Ctrl
  accepted : List Request
  serviced : List (Nat × Burst)

inductive Step where
  | recvTimingReq (priority : Nat) (others : RequestorID → Nat) (pkt : Packet)
  | processNextReqEvent (o : Ctrl.Outside)
  | processRespondEvent

def step (cfg : Config) (s : State) : Step → Option (Except Fault State)
  | .recvTimingReq priority others pkt =>
    if pkt.id = s.accepted.length then
      some ((s.ctrl.recvTimingReq cfg priority others pkt).map fun (accepted, c) =>
        if accepted then
          { s with ctrl := c, accepted := ⟨pkt, uncovered cfg s.ctrl pkt⟩ :: s.accepted }
        else { s with ctrl := c })
    else none
  | .processNextReqEvent o =>
    some ((s.ctrl.processNextReqEvent cfg o).map fun c => { s with ctrl := c })
  | .processRespondEvent =>
    match s.ctrl.respQueue with
    | [] => none
    | p :: rest => some ((s.ctrl.processRespondEvent p rest).map fun c =>
        { s with ctrl := c, serviced := (p.pkt, p.addr, p.size) :: s.serviced })

def machine (cfg : Config) : Machine State Step Fault := ⟨⟨.start, [], []⟩, step cfg⟩

end MemCtrl

import Lab447.Lib.Machine
import Lab447.Traffic
import Mathlib

/-!
The processing elements of `gem5/src/lab447/pe.cc`. All PEs share `pe_list`,
`rdy_sync_list` and `broadcast_issuer`; each has a traffic list, packets that
wait to be sent and requests that wait for a response. The port of a PE may
refuse a packet and call back later, and responses come in any order.

PEs are numbered in the order of their construction. A request is identified by
its PE and a serial number, in place of its `RequestPtr`. The state also keeps a
log of what the PEs did, newest first, which no function reads.
-/

namespace Pe

/-- `Request`: which PE made it, as its how-manieth one, and what it asks. -/
structure Request (n : Nat) where
  owner : Fin n
  serial : Nat
  addr : Nat
  isRead : Bool
  isBroadcast : Bool
  deriving DecidableEq

/-- An entry of a `waitingSend` queue. Suppressing a packet deletes it without
taking it out of the queue. -/
inductive PacketPtr (n : Nat) where
  | packet (req : Request n)
  | freed
  deriving DecidableEq

/-- The members of `PE`. An event is `some tick` while it is scheduled, and
`refused` says that the port owes a call of `recvReqRetry`. -/
structure PE (n : Nat) where
  trafficList : List Traffic
  curTraffic : Nat
  waitingSendRead : List (PacketPtr n)
  waitingSendWrite : List (PacketPtr n)
  waitingRespRead : List (Request n × Nat)
  waitingRespWrite : List (Request n × Nat)
  operateNextEvent : Option Nat
  scheduleReqEvent : Option Nat
  retryPktTick : Nat
  refused : Bool
  created : Nat

/-- What a PE does, for the log. -/
inductive Event (n : Nat) where
  | operate (pe : Fin n) (entry : Nat) (packets : List (Request n))
  | send (pe : Fin n) (req : Request n)
  | receive (pe : Fin n) (req : Request n)
  deriving DecidableEq

/-- The state of the simulation. `inFlight` holds the responses that are still
to come, with the PE that will get them. -/
structure System (n : Nat) where
  pe : Fin n → PE n
  peList : Finset (Fin n)
  rdySyncList : Finset (Fin n)
  broadcastIssuer : Option (Fin n)
  curTick : Nat
  inFlight : List (Fin n × Request n)
  exited : Bool
  log : List (Event n)

/-- What the simulation is run with. -/
structure Config (n : Nat) where
  traffic : Fin n → List Traffic
  cacheLineSize : Nat
  isMemAddr : Nat → Bool

/-- The ways a run can fail: the assertions and panics of `pe.cc`, scheduling an
event that is already scheduled, and using a deleted packet. -/
inductive Fault where
  | retryWithoutPacket
  | sendWithoutPacket
  | usedAfterFree
  | unexpectedResponse
  | responseBeforeRequest
  | syncWithoutIssuer
  | operateNextScheduled
  | scheduleReqScheduled
  deriving DecidableEq, Repr

variable {n : Nat}

/-- All four queues of the PE are empty. -/
def PE.drained (pe : PE n) : Bool :=
  pe.waitingRespRead.isEmpty && pe.waitingSendRead.isEmpty &&
    pe.waitingRespWrite.isEmpty && pe.waitingSendWrite.isEmpty

namespace System

def set (s : System n) (p : Fin n) (pe : PE n) : System n :=
  { s with pe := Function.update s.pe p pe }

def record (s : System n) (e : Event n) : System n := { s with log := e :: s.log }

/-- `!broadcast_issuer && rdy_sync_list.empty()`. -/
def noBarrier (s : System n) : Bool := s.broadcastIssuer.isNone && decide (s.rdySyncList = ∅)

/-- `schedule(operateNextEvent, when)` of PE `p`. -/
def scheduleOperateNext (s : System n) (p : Fin n) (when : Nat) : Except Fault (System n) :=
  if (s.pe p).operateNextEvent.isSome then .error .operateNextScheduled
  else .ok (s.set p { s.pe p with operateNextEvent := some when })

/-- `schedule(scheduleReqEvent, when)` of PE `p`. -/
def scheduleScheduleReq (s : System n) (p : Fin n) (when : Nat) : Except Fault (System n) :=
  if (s.pe p).scheduleReqEvent.isSome then .error .scheduleReqScheduled
  else .ok (s.set p { s.pe p with scheduleReqEvent := some when })

/-- `pe_list.erase(getCoordinate())`, with `exitSimLoop` once the list is empty. -/
def erase (s : System n) (p : Fin n) : System n :=
  { s with
    peList := s.peList.erase p
    exited := s.exited || decide (s.peList.erase p = ∅) }

end System

/-- `getComputeTime`. -/
def getComputeTime : Nat := 100

/-- The value of a 32-bit unsigned variable that is assigned `k`. -/
def uint32 (k : Nat) : Nat := k % 2 ^ 32

/-- `size / cache_line_size` of `operateTraffic`: `size` is an `unsigned`, so
both the entry's size and the sum with the offset are cut to 32 bits. -/
def lineCount (lineSize : Nat) (t : Traffic) : Nat :=
  let size := uint32 (if t.size ≤ lineSize then lineSize else t.size)
  let size := if t.addr % lineSize ≠ 0 then uint32 (size + t.addr % lineSize) else size
  size / lineSize

/-- The address of the `i`-th packet of an entry. -/
def lineAddr (lineSize : Nat) (t : Traffic) (i : Nat) : Nat :=
  (t.addr - t.addr % lineSize + i * lineSize) % 2 ^ 64

/-- The requests that PE `p` makes for a read or write entry, the first of them
being its `serial`-th. -/
def makeRequests (lineSize : Nat) (p : Fin n) (serial : Nat) (t : Traffic) : List (Request n) :=
  (List.range (lineCount lineSize t)).map fun i =>
    { owner := p
      serial := serial + i
      addr := lineAddr lineSize t i
      isRead := t.type = .read
      isBroadcast := t.response = .broadcast }

/-- `sendBroadcast`. -/
def sendBroadcast (s : System n) (p : Fin n) : Except Fault (System n) :=
  s.scheduleScheduleReq p (s.curTick + 1)

/-- `waitSync`. -/
def waitSync (s : System n) (p : Fin n) : Except Fault (System n) :=
  let s := { s with broadcastIssuer := some p, rdySyncList := insert p s.rdySyncList }
  if s.rdySyncList.card = s.peList.card then sendBroadcast s p else .ok s

/-- The `SYNC` branch of `operateTraffic`. -/
def operateSync (s : System n) (p : Fin n) : Except Fault (System n) :=
  let s := { s with rdySyncList := insert p s.rdySyncList }
  if s.rdySyncList.card = s.peList.card then
    match s.broadcastIssuer with
    | none => .error .syncWithoutIssuer
    | some q => sendBroadcast s q
  else .ok s

/-- The packets of a read or write entry are pushed on its queue. -/
def push (s : System n) (p : Fin n) (t : Traffic) (reqs : List (Request n)) : System n :=
  let pe := s.pe p
  let pkts := reqs.map PacketPtr.packet
  let pe := { pe with created := pe.created + reqs.length }
  s.set p
    (if t.type = .read then { pe with waitingSendRead := pe.waitingSendRead ++ pkts }
    else { pe with waitingSendWrite := pe.waitingSendWrite ++ pkts })

/-- The entry `t` is started: `operateTraffic` without its first test and
without the increment of `cur_traffic`. -/
def start (cfg : Config n) (s : System n) (p : Fin n) (t : Traffic) : Except Fault (System n) :=
  match t.type with
  | .compute => (s.record (.operate p (s.pe p).curTraffic [])).scheduleOperateNext p
      (s.curTick + getComputeTime)
  | .sync => operateSync (s.record (.operate p (s.pe p).curTraffic [])) p
  | _ =>
    let reqs := makeRequests cfg.cacheLineSize p (s.pe p).created t
    let s := push (s.record (.operate p (s.pe p).curTraffic reqs)) p t reqs
    if t.response = .broadcast then waitSync s p
    else s.scheduleScheduleReq p (s.curTick + 1)

/-- `cur_traffic++`, a `uint32_t`. -/
def advanceTraffic (s : System n) (p : Fin n) : System n :=
  s.set p { s.pe p with curTraffic := uint32 ((s.pe p).curTraffic + 1) }

/-- `operateTraffic`. -/
def operateTraffic (cfg : Config n) (s : System n) (p : Fin n) : Except Fault (System n) :=
  match (s.pe p).trafficList[(s.pe p).curTraffic]? with
  | none => .ok (if (s.pe p).drained && s.noBarrier then s.erase p else s)
  | some t => (start cfg s p t).map fun s => advanceTraffic s p

/-- `waitingResp[req] = tick`. -/
def setResp (waiting : List (Request n × Nat)) (r : Request n) (tick : Nat) :
    List (Request n × Nat) :=
  (r, tick) :: waiting.filter fun e => e.1 ≠ r

/-- A sent request is entered where its response is waited for: a broadcast in
the read map of every PE in `pe_list`, any other in the sender's own map. -/
def await (s : System n) (p : Fin n) (r : Request n) : System n :=
  if r.isBroadcast then
    { s with
      pe := fun q =>
        if q ∈ s.peList then
          { s.pe q with waitingRespRead := setResp (s.pe q).waitingRespRead r s.curTick }
        else s.pe q }
  else
    s.set p
      (if r.isRead then
        { s.pe p with waitingRespRead := setResp (s.pe p).waitingRespRead r s.curTick }
      else { s.pe p with waitingRespWrite := setResp (s.pe p).waitingRespWrite r s.curTick })

/-- The responses the memory system will give: a broadcast is answered to every
PE in `pe_list`, any other request to its sender. -/
def answers (s : System n) (p : Fin n) (r : Request n) : List (Fin n × Request n) :=
  if r.isBroadcast then ((List.finRange n).filter fun q => q ∈ s.peList).map fun q => (q, r)
  else [(p, r)]

/-- The rest of `scheduleReq` once the queue it sent from is `rest`. -/
def afterSend (s : System n) (p : Fin n) (rest : List (PacketPtr n)) : Except Fault (System n) :=
  if rest = [] then
    if (s.pe p).waitingRespRead = [] then s.scheduleOperateNext p (s.curTick + 1)
    else if s.broadcastIssuer = some p then
      .ok { s with broadcastIssuer := none, rdySyncList := ∅ }
    else .ok s
  else s.scheduleScheduleReq p (s.curTick + 1)

/-- The PE with its queue of waiting packets replaced: the writes go first. -/
def PE.setQueue (pe : PE n) (queue : List (PacketPtr n)) : PE n :=
  if pe.waitingSendWrite = [] then { pe with waitingSendRead := queue }
  else { pe with waitingSendWrite := queue }

def PE.queue (pe : PE n) : List (PacketPtr n) :=
  if pe.waitingSendWrite = [] then pe.waitingSendRead else pe.waitingSendWrite

/-- `scheduleReq`, with the answer of the port to `sendTimingReq`. A suppressed
packet is deleted but stays in front of the queue, so the queue is not empty
and the next attempt is scheduled. -/
def scheduleReq (cfg : Config n) (s : System n) (p : Fin n) (accept : Bool) :
    Except Fault (System n) :=
  let pe := s.pe p
  match pe.queue with
  | [] => .error .sendWithoutPacket
  | .freed :: _ => .error .usedAfterFree
  | .packet r :: rest =>
    if cfg.isMemAddr r.addr then
      if accept then
        let s := s.set p { pe.setQueue rest with retryPktTick := 0 }
        let s := (await s p r).record (.send p r)
        afterSend { s with inFlight := answers s p r ++ s.inFlight } p rest
      else .ok (s.set p { pe with retryPktTick := s.curTick, refused := true })
    else
      (s.set p (pe.setQueue (.freed :: rest))).scheduleScheduleReq p (s.curTick + 1)

/-- `recvReqRetry` and `retryReq`. -/
def recvReqRetry (s : System n) (p : Fin n) : Except Fault (System n) :=
  if (s.pe p).waitingSendRead = [] ∧ (s.pe p).waitingSendWrite = [] then
    .error .retryWithoutPacket
  else s.scheduleScheduleReq p (s.curTick + 1)

/-- The last test of `recvTimingResp`: the PE may have finished. -/
def finish (s : System n) (p : Fin n) : System n :=
  if (s.pe p).drained && s.noBarrier &&
      decide ((s.pe p).trafficList.length ≤ (s.pe p).curTraffic) then s.erase p
  else s

/-- `recvTimingResp`. -/
def recvTimingResp (s : System n) (p : Fin n) (r : Request n) : Except Fault (System n) :=
  let pe := s.pe p
  let waiting := if r.isRead then pe.waitingRespRead else pe.waitingRespWrite
  match waiting.find? fun e => e.1 = r with
  | none => .error .unexpectedResponse
  | some (_, tick) =>
    if s.curTick < tick then .error .responseBeforeRequest
    else
      let s := s.record (.receive p r)
      if r.isRead then
        let s := s.set p { pe with waitingRespRead := waiting.filter fun e => e.1 ≠ r }
        if (s.pe p).waitingSendRead = [] ∧ (s.pe p).waitingRespRead = [] ∧ p ∉ s.rdySyncList then
          (s.scheduleOperateNext p (s.curTick + 1)).map fun s => finish s p
        else .ok (finish s p)
      else
        .ok (finish (s.set p { pe with waitingRespWrite := waiting.filter fun e => e.1 ≠ r }) p)

/-- What can happen next: time passes, a due event of a PE fires, a port
that refused a packet calls back, or a response arrives. -/
inductive Action (n : Nat) where
  | wait (ticks : Nat)
  | operate (pe : Fin n)
  | schedule (pe : Fin n) (accept : Bool)
  | retry (pe : Fin n)
  | respond (pe : Fin n) (req : Request n)

/-- An event fires at the tick it is scheduled for. -/
def due (s : System n) (event : Option Nat) : Bool := event = some s.curTick

/-- No event is scheduled for a tick before `tick`, so time may pass until then. -/
def quietUntil (s : System n) (tick : Nat) : Bool :=
  (List.finRange n).all fun p =>
    ((s.pe p).operateNextEvent.all fun t => tick ≤ t) &&
      (s.pe p).scheduleReqEvent.all fun t => tick ≤ t

def step (cfg : Config n) (s : System n) :
    Action n → Option (Except Fault (System n))
  | .wait ticks =>
    if quietUntil s (s.curTick + ticks) then some (.ok { s with curTick := s.curTick + ticks })
    else none
  | .operate p =>
    if due s (s.pe p).operateNextEvent then
      some (operateTraffic cfg (s.set p { s.pe p with operateNextEvent := none }) p)
    else none
  | .schedule p accept =>
    if due s (s.pe p).scheduleReqEvent then
      some (scheduleReq cfg (s.set p { s.pe p with scheduleReqEvent := none }) p accept)
    else none
  | .retry p =>
    if (s.pe p).refused then some (recvReqRetry (s.set p { s.pe p with refused := false }) p)
    else none
  | .respond p r =>
    if (p, r) ∈ s.inFlight then
      some (recvTimingResp { s with inFlight := s.inFlight.erase (p, r) } p r)
    else none

/-- A PE after `parseTraffic` and `start`. -/
def newPE (traffic : List Traffic) : PE n where
  trafficList := traffic
  curTraffic := 0
  waitingSendRead := []
  waitingSendWrite := []
  waitingRespRead := []
  waitingRespWrite := []
  operateNextEvent := some 1
  scheduleReqEvent := none
  retryPktTick := 0
  refused := false
  created := 0

/-- The simulation. Every PE has been started at tick 0. -/
def sim (cfg : Config n) : Machine (System n) (Action n) Fault where
  start :=
    { pe := fun p => newPE (cfg.traffic p)
      peList := Finset.univ
      rdySyncList := ∅
      broadcastIssuer := none
      curTick := 0
      inFlight := []
      exited := false
      log := [] }
  step := step cfg

end Pe

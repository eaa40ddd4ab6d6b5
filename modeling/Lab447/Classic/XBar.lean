import Lab447.Classic.SnoopFilter

/-!
The coherent crossbar of `gem5/src/mem/coherent_xbar.cc` in timing mode, with its
snoop filter. Times and statistics are left out, so what depends on them comes
from outside: whether a layer is free, whether the memory side takes a request, and
which flags the snooped caches set.
-/

namespace Classic

/-- The tables of a crossbar. A request is known by its `id`, and a packet of a
cache clean operation by its own. -/
structure CoherentXBar where
  snoopFilter : SnoopFilter
  routeTo : Finmap fun _ : Nat => PortID
  outstandingSnoop : Finset Nat
  outstandingCMO : Finmap fun _ : Nat => Option Packet

/-- What a call returned, and the responses it has scheduled at CPU-side ports. -/
structure Outcome where
  xbar : CoherentXBar
  success : Bool
  sent : List (PortID × Packet)

/-- What the surroundings of the crossbar do during `recvTimingReq`. -/
structure Surroundings where
  layerFree : Bool
  tryTiming : Bool
  snooped : Flags
  sendTimingReq : Bool

variable (cfg : XBarConfig)

def isDestination (pkt : Packet) : Bool :=
  pkt.req.isToPOC && cfg.pointOfCoherency || pkt.req.isToPOU && cfg.pointOfUnification

def sinkPacket (pkt : Packet) : Bool :=
  cfg.pointOfCoherency && pkt.flags.cacheResponding ||
  cfg.pointOfCoherency && !(pkt.cmd.isRead || pkt.cmd.isWrite) && !pkt.cmd.needsResponse ||
  pkt.isCleanEviction && pkt.flags.blockCached ||
  pkt.flags.cacheResponding && (!pkt.cmd.needsWritable || pkt.flags.responderHadWritable)

def forwardPacket (pkt : Packet) : Bool :=
  if pkt.cmd.isClean then !isDestination cfg pkt
  else pkt.cmd.isRead || pkt.cmd.isWrite || !cfg.pointOfCoherency

/-- The snooped caches see the packet and may set flags on it. -/
def forwardTiming (pkt : Packet) (dests : List PortID) (snooped : Flags) : Packet :=
  if dests.isEmpty then pkt else { pkt with flags := pkt.flags.or snooped }

/-- What `recvTimingReq` has decided about a packet when it has been snooped and
sent on. -/
structure Plan where
  pkt : Packet
  success : Bool
  expectSnoopResp : Bool
  expectResponse : Bool
  respondDirectly : Bool

/-- `pkt` is the packet after snooping; `cacheResponding` is the flag it came with. -/
def plan (pkt : Packet) (cacheResponding send : Bool) : Except XBarFault Plan :=
  let expectSnoopResp := !cacheResponding && pkt.flags.cacheResponding
  let expectResponse := pkt.cmd.needsResponse && !pkt.flags.cacheResponding
  if sinkPacket cfg pkt then .ok ⟨pkt, true, expectSnoopResp, expectResponse, false⟩
  else if forwardPacket cfg pkt then
    let expressSnoop := pkt.flags.expressSnoop || pkt.flags.cacheResponding
    let pkt := { pkt with flags := { pkt.flags with expressSnoop } }
    .ok ⟨pkt, send, expectSnoopResp, expectResponse, false⟩
  else if !pkt.cmd.needsResponse || expectSnoopResp then .error .assertion
  else .ok ⟨pkt, true, expectSnoopResp, false, true⟩

namespace CoherentXBar

def empty : CoherentXBar := ⟨.empty, ∅, ∅, ∅⟩

def addRoute (x : CoherentXBar) (req : Nat) (port : PortID) : Except XBarFault CoherentXBar :=
  if x.routeTo.lookup req ≠ none then .error .assertion
  else
    let routeTo := x.routeTo.insert req port
    if cfg.maxRoutingTableSizeCheck < routeTo.keys.card then .error .routingTableExceeds
    else .ok { x with routeTo }

def addSnoop (x : CoherentXBar) (req : Nat) : Except XBarFault CoherentXBar :=
  if req ∈ x.outstandingSnoop then .error .assertion
  else
    let outstandingSnoop := insert req x.outstandingSnoop
    if cfg.maxOutstandingSnoopCheck < outstandingSnoop.card then .error .outstandingSnoopExceeded
    else .ok { x with outstandingSnoop }

/-- The lookup in the snoop filter, and the snoops it leads to. -/
def snoopCaches (x : CoherentXBar) (pkt : Packet) (port : PortID) (snooped : Flags) :
    Except XBarFault (Packet × CoherentXBar) :=
  if pkt.cmd = .WriteClean then .ok (pkt, x)
  else (x.snoopFilter.lookupRequest cfg pkt port).map fun (dests, snoopFilter) =>
    let pkt :=
      if pkt.cmd.isEviction then
        if dests.isEmpty then pkt else { pkt with flags := { pkt.flags with blockCached := true } }
      else forwardTiming pkt (dests.filter (· ≠ port)) snooped
    (pkt, { x with snoopFilter })

def finish (x : CoherentXBar) (pkt : Packet) (success : Bool) : Except XBarFault CoherentXBar :=
  if pkt.cmd = .WriteClean then .ok x
  else (x.snoopFilter.finishRequest cfg (!success) pkt).map fun snoopFilter => { x with snoopFilter }

/-- How the answer to a packet that was sent on finds its way. -/
def record (x : CoherentXBar) (p : Plan) (port : PortID) : Except XBarFault CoherentXBar :=
  (if p.expectSnoopResp then x.addSnoop cfg p.pkt.req.id else .ok x).bind fun x =>
    if p.expectResponse || p.expectSnoopResp then x.addRoute cfg p.pkt.req.id port else .ok x

/-- The response the crossbar gives itself, if any. A cache clean operation ends
when both the request and the write have come here. -/
def directResponse (x : CoherentXBar) (p : Plan) (port : PortID) :
    Except XBarFault (CoherentXBar × Option (PortID × Packet)) :=
  let pkt := p.pkt
  if (pkt.cmd.isClean && pkt.flags.satisfied || decide (pkt.cmd = .WriteClean)) &&
      isDestination cfg pkt then
    let deferred := if pkt.cmd.isWrite then none else some pkt
    match x.outstandingCMO.lookup pkt.id with
    | some request =>
      let x := { x with outstandingCMO := x.outstandingCMO.erase pkt.id }
      if pkt.cmd.isWrite then
        match request with
        | none => .error .assertion
        | some rsp =>
          match x.routeTo.lookup rsp.req.id with
          | none => .error .assertion
          | some rspPort =>
            if cfg.numCpuSidePorts ≤ rspPort then .error .assertion
            else .ok ({ x with routeTo := x.routeTo.erase rsp.req.id }, some (rspPort, rsp))
      else .ok (x, some (port, pkt))
    | none =>
      let x := { x with outstandingCMO := x.outstandingCMO.insert pkt.id deferred }
      if pkt.cmd.isWrite then .ok (x, none)
      else (x.addRoute cfg pkt.req.id port).map fun x => (x, none)
  else .ok (x, if p.respondDirectly then some (port, pkt) else none)

def respond (x : CoherentXBar) : Option (PortID × Packet) → Except XBarFault Outcome
  | none => .ok ⟨x, true, []⟩
  | some (port, pkt) =>
    if !pkt.cmd.needsResponse then .error .assertion
    else
      let rsp := pkt.makeResponse
      (x.snoopFilter.updateResponse cfg rsp port).map fun snoopFilter =>
        ⟨{ x with snoopFilter }, true, [(port, rsp)]⟩

def recvTimingReq (x : CoherentXBar) (pkt : Packet) (port : PortID) (env : Surroundings) :
    Except XBarFault Outcome :=
  let isExpressSnoop := pkt.flags.expressSnoop
  let cacheResponding := pkt.flags.cacheResponding
  if isExpressSnoop ≠ cacheResponding then .error .assertion
  else if !isExpressSnoop && !env.layerFree then .ok ⟨x, false, []⟩
  else if pkt.cmd.isClean && !isDestination cfg pkt && !env.tryTiming then .ok ⟨x, false, []⟩
  else
    (x.snoopCaches cfg pkt port env.snooped).bind fun (pkt, x) =>
    (plan cfg pkt cacheResponding env.sendTimingReq).bind fun p =>
    (x.finish cfg p.pkt p.success).bind fun x =>
    if !p.success then
      if isExpressSnoop then .error .assertion else .ok ⟨x, false, []⟩
    else
      -- express snoops bypass the tables
      (if isExpressSnoop then .ok x else x.record cfg p port).bind fun x =>
      (x.directResponse cfg p port).bind fun (x, rsp) =>
      x.respond cfg rsp

def recvTimingResp (x : CoherentXBar) (pkt : Packet) (layerFree : Bool) :
    Except XBarFault Outcome :=
  match x.routeTo.lookup pkt.req.id with
  | none => .error .assertion
  | some port =>
    if cfg.numCpuSidePorts ≤ port then .error .assertion
    else if !layerFree then .ok ⟨x, false, []⟩
    else (x.snoopFilter.updateResponse cfg pkt port).map fun snoopFilter =>
      ⟨{ x with snoopFilter, routeTo := x.routeTo.erase pkt.req.id }, true, [(port, pkt)]⟩

/-- `memPort` is the memory-side port the snoop comes from. -/
def recvTimingSnoopReq (x : CoherentXBar) (pkt : Packet) (memPort : PortID) (snooped : Flags) :
    Except XBarFault CoherentXBar :=
  if !pkt.flags.expressSnoop then .error .assertion
  else (x.snoopFilter.lookupSnoop cfg pkt).bind fun (dests, snoopFilter) =>
    let x := { x with snoopFilter }
    if !pkt.flags.cacheResponding && (forwardTiming pkt dests snooped).flags.cacheResponding then
      if x.routeTo.lookup pkt.req.id ≠ none then .error .assertion
      else .ok { x with routeTo := x.routeTo.insert pkt.req.id memPort }
    else .ok x

/-- The ports that get a copy. -/
def copyPorts (src : PortID) : List PortID :=
  (List.range cfg.numCpuSidePorts).filter fun cpuPid => cpuPid ≠ src ∧ cfg.takesCopies cpuPid

/-- `allocated` is what the memory of the copies holds. -/
def handleBroadcastToOthers (x : CoherentXBar) (pkt : Packet) (src : PortID)
    (allocated : PortID → List UInt8) : Except XBarFault Outcome :=
  if pkt.cmd.needsResponse then .error .assertion
  else
    (Script.run (fun cpuPid f => f.updateResponse cfg pkt cpuPid) (copyPorts cfg src)
      x.snoopFilter).map fun snoopFilter =>
    ⟨{ x with snoopFilter }, true, (copyPorts cfg src).map fun p => (p, pkt.copy (allocated p))⟩

/-- A snoop response that is not a broadcast. -/
def routeSnoopResp (x : CoherentXBar) (pkt : Packet) (port : PortID) (layerFree : Bool) :
    Except XBarFault Outcome :=
  match x.routeTo.lookup pkt.req.id with
  | none => .error .assertion
  | some dest =>
    let erased := x.routeTo.erase pkt.req.id
    if pkt.req.id ∉ x.outstandingSnoop then
      -- somebody else's snoop, which was forwarded
      if !layerFree then .ok ⟨x, false, []⟩
      else if pkt.flags.expressSnoop then .error .assertion
      else (x.snoopFilter.updateSnoopForward cfg pkt).map fun snoopFilter =>
        ⟨{ x with snoopFilter, routeTo := erased }, true, []⟩
    else if cfg.numCpuSidePorts ≤ dest then .error .assertion
    else if !layerFree then .ok ⟨x, false, []⟩
    else if pkt.flags.expressSnoop || port == dest then .error .assertion
    else
      (x.snoopFilter.updateSnoopResponse cfg pkt port dest).map fun snoopFilter =>
        ⟨{ x with
            snoopFilter, routeTo := erased,
            outstandingSnoop := x.outstandingSnoop.erase pkt.req.id }, true, [(dest, pkt)]⟩

def recvTimingSnoopResp (x : CoherentXBar) (pkt : Packet) (port : PortID) (layerFree : Bool)
    (allocated : PortID → List UInt8) : Except XBarFault Outcome :=
  if pkt.broadcastToOther then x.handleBroadcastToOthers cfg pkt port allocated
  else x.routeSnoopResp cfg pkt port layerFree

end CoherentXBar

end Classic

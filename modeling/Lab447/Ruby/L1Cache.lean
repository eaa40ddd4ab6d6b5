import Lab447.Lib.Script
import Lab447.Ruby.Sequencer

/-!
The L1 controller of `gem5/src/mem/ruby/protocol/MESI_Two_Level-L1cache.sm`: its
transition table, its actions and its in-ports, run as the code that SLICC
generates from them. Buffers are unbounded and the transaction buffer never
fills up, so there are no resource stalls. The prefetcher is left out;
prefetches come from outside.
-/

namespace Ruby

inductive Event where
  | Load | Ifetch | Store | Inv | L1_Replacement | PF_L1_Replacement
  | Fwd_GETX | Fwd_GETS | Fwd_GET_INSTR
  | Data | Data_Exclusive | DataS_fromL1 | Data_all_Acks | Ack | Ack_all | WB_Ack
  | PF_Load | PF_Ifetch | PF_Store | BC_RECEIVE
  deriving DecidableEq

inductive Action where
  | aIssueGETS | paIssuePfGETS | aiIssueGETINSTR | paiIssuePfGETINSTR | bIssueGETX
  | pbIssuePfGETX | cIssueUPGRADE
  | dSendDataToRequestor | d2SendDataToL2 | dtSendDataToRequestorFromTBE | d2tSendDataToL2FromTBE
  | fSendDataToL2 | ftSendDataToL2FromTBE | fiSendInvAck | forwardEvictionToCpu | gIssuePUTX
  | jSendUnblock | jjSendExclusiveUnblock
  | hLoadHit | hIfetchHit | hxLoadHit | hhStoreHit | hhxStoreHit
  | iAllocateTBE | kPopMandatoryQueue | lPopRequestQueue | oPopIncomingResponseQueue
  | sDeallocateTBE | uWriteDataToL1Cache | qUpdateAckCount
  | ffDeallocateL1CacheBlock | ooAllocateL1DCacheBlock | ppAllocateL1ICacheBlock
  | zStallAndWaitMandatoryQueue | zStallAndWaitOptionalQueue | kdWakeUpDependents
  | uuProfileInstMiss | uuProfileInstHit | uuProfileDataMiss | uuProfileDataHit
  | poObserveHit | poObserveMiss | ppmObservePfMiss | pqPopPrefetchQueue | mpMarkPrefetched
  deriving DecidableEq

/-! ### The transition table -/

/-- A `transition` of the protocol: in any of the states, any of the events runs
the actions and leads to `next`, or to the same state if there is no `next`. -/
structure Transition where
  states : List State
  events : List Event
  next : Option State
  actions : List Action

/-- The transitions, in the order of the source. -/
def transitions : List Transition :=
  [ ⟨[.IS, .IM, .IS_I, .M_I, .SM, .SINK_WB_ACK], [.Load, .Ifetch, .Store, .L1_Replacement], none,
      [.zStallAndWaitMandatoryQueue]⟩,
    ⟨[.PF_IS, .PF_IS_I], [.Store, .L1_Replacement], none, [.zStallAndWaitMandatoryQueue]⟩,
    ⟨[.PF_IM, .PF_SM], [.Load, .Ifetch, .L1_Replacement], none, [.zStallAndWaitMandatoryQueue]⟩,
    ⟨[.IS, .IM, .IS_I, .M_I, .SM, .SINK_WB_ACK, .PF_IS, .PF_IS_I, .PF_IM, .PF_SM],
      [.PF_L1_Replacement], none, [.zStallAndWaitOptionalQueue]⟩,
    -- from idle
    ⟨[.NP, .I], [.L1_Replacement, .PF_L1_Replacement], none, [.ffDeallocateL1CacheBlock]⟩,
    ⟨[.S, .E, .M, .IS, .IM, .SM, .IS_I, .PF_IS_I, .M_I, .SINK_WB_ACK, .PF_IS, .PF_IM],
      [.PF_Load, .PF_Store, .PF_Ifetch], none, [.pqPopPrefetchQueue]⟩,
    ⟨[.NP, .I], [.Load], some .IS,
      [.ooAllocateL1DCacheBlock, .iAllocateTBE, .aIssueGETS, .uuProfileDataMiss, .poObserveMiss,
        .kPopMandatoryQueue]⟩,
    ⟨[.NP, .I], [.PF_Load], some .PF_IS,
      [.ooAllocateL1DCacheBlock, .iAllocateTBE, .paIssuePfGETS, .pqPopPrefetchQueue]⟩,
    ⟨[.PF_IS], [.Load], some .IS, [.uuProfileDataMiss, .ppmObservePfMiss, .kPopMandatoryQueue]⟩,
    ⟨[.PF_IS_I], [.Load], some .IS_I, [.uuProfileDataMiss, .ppmObservePfMiss, .kPopMandatoryQueue]⟩,
    ⟨[.PF_IS_I], [.Ifetch], some .IS_I,
      [.uuProfileInstMiss, .ppmObservePfMiss, .kPopMandatoryQueue]⟩,
    ⟨[.NP, .I], [.Ifetch], some .IS,
      [.ppAllocateL1ICacheBlock, .iAllocateTBE, .aiIssueGETINSTR, .uuProfileInstMiss,
        .poObserveMiss, .kPopMandatoryQueue]⟩,
    ⟨[.NP, .I], [.PF_Ifetch], some .PF_IS,
      [.ppAllocateL1ICacheBlock, .iAllocateTBE, .paiIssuePfGETINSTR, .pqPopPrefetchQueue]⟩,
    ⟨[.PF_IS], [.Ifetch], some .IS, [.uuProfileDataMiss, .ppmObservePfMiss, .kPopMandatoryQueue]⟩,
    ⟨[.NP, .I], [.Store], some .IM,
      [.ooAllocateL1DCacheBlock, .iAllocateTBE, .bIssueGETX, .uuProfileDataMiss, .poObserveMiss,
        .kPopMandatoryQueue]⟩,
    ⟨[.NP, .I], [.PF_Store], some .PF_IM,
      [.ooAllocateL1DCacheBlock, .iAllocateTBE, .pbIssuePfGETX, .pqPopPrefetchQueue]⟩,
    ⟨[.PF_IM], [.Store], some .IM, [.uuProfileDataMiss, .ppmObservePfMiss, .kPopMandatoryQueue]⟩,
    ⟨[.PF_SM], [.Store], some .SM, [.uuProfileDataMiss, .ppmObservePfMiss, .kPopMandatoryQueue]⟩,
    ⟨[.NP, .I], [.Inv], none, [.fiSendInvAck, .lPopRequestQueue]⟩,
    -- from shared
    ⟨[.S, .E, .M], [.Load], none,
      [.hLoadHit, .uuProfileDataHit, .poObserveHit, .kPopMandatoryQueue]⟩,
    ⟨[.S, .E, .M], [.Ifetch], none,
      [.hIfetchHit, .uuProfileInstHit, .poObserveHit, .kPopMandatoryQueue]⟩,
    ⟨[.S], [.Store], some .SM,
      [.iAllocateTBE, .cIssueUPGRADE, .uuProfileDataMiss, .kPopMandatoryQueue]⟩,
    ⟨[.S], [.L1_Replacement, .PF_L1_Replacement], some .I,
      [.forwardEvictionToCpu, .ffDeallocateL1CacheBlock]⟩,
    ⟨[.S], [.Inv], some .I, [.forwardEvictionToCpu, .fiSendInvAck, .lPopRequestQueue]⟩,
    -- from exclusive
    ⟨[.E, .M], [.Store], some .M,
      [.hhStoreHit, .uuProfileDataHit, .poObserveHit, .kPopMandatoryQueue]⟩,
    ⟨[.E], [.L1_Replacement, .PF_L1_Replacement], some .M_I,
      [.forwardEvictionToCpu, .iAllocateTBE, .gIssuePUTX, .ffDeallocateL1CacheBlock]⟩,
    ⟨[.E], [.Inv], some .I, [.forwardEvictionToCpu, .fiSendInvAck, .lPopRequestQueue]⟩,
    ⟨[.E], [.Fwd_GETX], some .I, [.forwardEvictionToCpu, .dSendDataToRequestor, .lPopRequestQueue]⟩,
    ⟨[.E], [.Fwd_GETS, .Fwd_GET_INSTR], some .S,
      [.dSendDataToRequestor, .d2SendDataToL2, .lPopRequestQueue]⟩,
    -- from modified
    ⟨[.M], [.L1_Replacement, .PF_L1_Replacement], some .M_I,
      [.forwardEvictionToCpu, .iAllocateTBE, .gIssuePUTX, .ffDeallocateL1CacheBlock]⟩,
    ⟨[.M_I], [.WB_Ack], some .I,
      [.sDeallocateTBE, .oPopIncomingResponseQueue, .kdWakeUpDependents]⟩,
    ⟨[.M], [.Inv], some .I, [.forwardEvictionToCpu, .fSendDataToL2, .lPopRequestQueue]⟩,
    ⟨[.M_I], [.Inv], some .SINK_WB_ACK, [.ftSendDataToL2FromTBE, .lPopRequestQueue]⟩,
    ⟨[.M], [.Fwd_GETX], some .I, [.forwardEvictionToCpu, .dSendDataToRequestor, .lPopRequestQueue]⟩,
    ⟨[.M], [.Fwd_GETS, .Fwd_GET_INSTR], some .S,
      [.dSendDataToRequestor, .d2SendDataToL2, .lPopRequestQueue]⟩,
    ⟨[.M_I], [.Fwd_GETX], some .SINK_WB_ACK, [.dtSendDataToRequestorFromTBE, .lPopRequestQueue]⟩,
    ⟨[.M_I], [.Fwd_GETS, .Fwd_GET_INSTR], some .SINK_WB_ACK,
      [.dtSendDataToRequestorFromTBE, .d2tSendDataToL2FromTBE, .lPopRequestQueue]⟩,
    -- from IS
    ⟨[.IS, .IS_I], [.Inv], some .IS_I, [.fiSendInvAck, .lPopRequestQueue]⟩,
    ⟨[.PF_IS, .PF_IS_I], [.Inv], some .PF_IS_I, [.fiSendInvAck, .lPopRequestQueue]⟩,
    ⟨[.IS], [.Data_all_Acks], some .S,
      [.uWriteDataToL1Cache, .hxLoadHit, .sDeallocateTBE, .oPopIncomingResponseQueue,
        .kdWakeUpDependents]⟩,
    ⟨[.PF_IS], [.Data_all_Acks], some .S,
      [.uWriteDataToL1Cache, .sDeallocateTBE, .mpMarkPrefetched, .oPopIncomingResponseQueue,
        .kdWakeUpDependents]⟩,
    ⟨[.IS_I], [.Data_all_Acks], some .I,
      [.uWriteDataToL1Cache, .hxLoadHit, .sDeallocateTBE, .oPopIncomingResponseQueue,
        .kdWakeUpDependents]⟩,
    ⟨[.PF_IS_I], [.Data_all_Acks], some .I,
      [.sDeallocateTBE, .oPopIncomingResponseQueue, .kdWakeUpDependents]⟩,
    ⟨[.IS], [.DataS_fromL1], some .S,
      [.uWriteDataToL1Cache, .jSendUnblock, .hxLoadHit, .sDeallocateTBE,
        .oPopIncomingResponseQueue, .kdWakeUpDependents]⟩,
    ⟨[.PF_IS], [.DataS_fromL1], some .S,
      [.uWriteDataToL1Cache, .jSendUnblock, .sDeallocateTBE, .oPopIncomingResponseQueue,
        .kdWakeUpDependents]⟩,
    ⟨[.IS_I], [.DataS_fromL1], some .I,
      [.uWriteDataToL1Cache, .jSendUnblock, .hxLoadHit, .sDeallocateTBE,
        .oPopIncomingResponseQueue, .kdWakeUpDependents]⟩,
    ⟨[.PF_IS_I], [.DataS_fromL1], some .I,
      [.jSendUnblock, .sDeallocateTBE, .oPopIncomingResponseQueue, .kdWakeUpDependents]⟩,
    ⟨[.IS_I], [.Data_Exclusive], some .E,
      [.uWriteDataToL1Cache, .hxLoadHit, .jjSendExclusiveUnblock, .sDeallocateTBE,
        .oPopIncomingResponseQueue, .kdWakeUpDependents]⟩,
    ⟨[.PF_IS_I], [.Data_Exclusive], some .E,
      [.uWriteDataToL1Cache, .jjSendExclusiveUnblock, .sDeallocateTBE, .oPopIncomingResponseQueue,
        .kdWakeUpDependents]⟩,
    ⟨[.IS], [.Data_Exclusive], some .E,
      [.uWriteDataToL1Cache, .hxLoadHit, .jjSendExclusiveUnblock, .sDeallocateTBE,
        .oPopIncomingResponseQueue, .kdWakeUpDependents]⟩,
    ⟨[.PF_IS], [.Data_Exclusive], some .E,
      [.uWriteDataToL1Cache, .jjSendExclusiveUnblock, .sDeallocateTBE, .mpMarkPrefetched,
        .oPopIncomingResponseQueue, .kdWakeUpDependents]⟩,
    -- from IM
    ⟨[.IM], [.Inv], some .IM, [.fiSendInvAck, .lPopRequestQueue]⟩,
    ⟨[.PF_IM, .PF_SM], [.Inv], some .PF_IM, [.fiSendInvAck, .lPopRequestQueue]⟩,
    ⟨[.IM], [.Data], some .SM,
      [.uWriteDataToL1Cache, .qUpdateAckCount, .oPopIncomingResponseQueue]⟩,
    ⟨[.PF_IM], [.Data], some .PF_SM,
      [.uWriteDataToL1Cache, .qUpdateAckCount, .oPopIncomingResponseQueue]⟩,
    ⟨[.IM], [.Data_all_Acks], some .M,
      [.uWriteDataToL1Cache, .hhxStoreHit, .jjSendExclusiveUnblock, .sDeallocateTBE,
        .oPopIncomingResponseQueue, .kdWakeUpDependents]⟩,
    ⟨[.PF_IM], [.Data_all_Acks], some .M,
      [.uWriteDataToL1Cache, .jjSendExclusiveUnblock, .sDeallocateTBE, .mpMarkPrefetched,
        .oPopIncomingResponseQueue, .kdWakeUpDependents]⟩,
    -- from SM
    ⟨[.SM], [.Inv], some .IM, [.forwardEvictionToCpu, .fiSendInvAck, .lPopRequestQueue]⟩,
    ⟨[.SM, .IM, .PF_SM, .PF_IM], [.Ack], none, [.qUpdateAckCount, .oPopIncomingResponseQueue]⟩,
    ⟨[.SM], [.Ack_all], some .M,
      [.jjSendExclusiveUnblock, .hhxStoreHit, .sDeallocateTBE, .oPopIncomingResponseQueue,
        .kdWakeUpDependents]⟩,
    ⟨[.PF_SM], [.Ack_all], some .M,
      [.jjSendExclusiveUnblock, .sDeallocateTBE, .mpMarkPrefetched, .oPopIncomingResponseQueue,
        .kdWakeUpDependents]⟩,
    ⟨[.SINK_WB_ACK], [.Inv], none, [.fiSendInvAck, .lPopRequestQueue]⟩,
    ⟨[.SINK_WB_ACK], [.WB_Ack], some .I,
      [.sDeallocateTBE, .oPopIncomingResponseQueue, .kdWakeUpDependents]⟩,
    ⟨[.NP, .I, .S, .E, .M, .IS, .IM, .SM, .IS_I, .M_I, .SINK_WB_ACK, .PF_IS, .PF_IM, .PF_SM,
        .PF_IS_I], [.BC_RECEIVE], none,
      [.hxLoadHit, .oPopIncomingResponseQueue, .kdWakeUpDependents]⟩ ]

/-- The actions and the next state for an event; an event without a transition
is a protocol error. -/
def transition (state : State) (event : Event) : Option (List Action × State) :=
  (transitions.find? fun t => decide (state ∈ t.states) && decide (event ∈ t.events)).map
    fun t => (t.actions, t.next.getD state)

/-! ### Actions -/

/-- What an action works on: the controller, the address of the transition, the
entry `cache_entry` points to, given by the cache it is in, and the message at
the head of the network in-port. `tbe` always points to the TBE of the address. -/
structure Ctx where
  ctrl : Controller
  address : Addr
  entry : Option CacheSide
  response : Option ResponseMsg
  request : Option RequestMsg

namespace Ctx

def peekMandatory (x : Ctx) : Except Fault RubyRequest :=
  match x.ctrl.mandatoryQueue.peek with
  | some m => .ok m
  | none => .error .emptyQueue

def peekOptional (x : Ctx) : Except Fault LineRequest :=
  match x.ctrl.optionalQueue.peek with
  | some m => .ok m
  | none => .error .emptyQueue

def peekResponse (x : Ctx) : Except Fault ResponseMsg :=
  match x.response with
  | some m => .ok m
  | none => .error .emptyQueue

def peekRequest (x : Ctx) : Except Fault RequestMsg :=
  match x.request with
  | some m => .ok m
  | none => .error .emptyQueue

/-- `cache_entry`. -/
def cacheEntry (x : Ctx) : Option Entry := x.entry.bind fun side => x.ctrl.lookup side x.address

/-- `assert(is_valid(cache_entry))`. -/
def validEntry (x : Ctx) : Except Fault (CacheSide × Entry) :=
  match x.entry, x.cacheEntry with
  | some side, some e => .ok (side, e)
  | _, _ => .error .invalidEntry

/-- `tbe`. -/
def tbe (x : Ctx) : Option TBE := x.ctrl.tbes x.address

/-- `assert(is_valid(tbe))`. -/
def validTBE (x : Ctx) : Except Fault TBE :=
  match x.tbe with
  | some t => .ok t
  | none => .error .invalidTBE

def modifyEntry (x : Ctx) (f : Entry → Entry) : Ctx :=
  match x.entry with
  | some side => { x with ctrl := x.ctrl.modifyEntry side x.address f }
  | none => x

def setTBE (x : Ctx) (t : Option TBE) : Ctx :=
  { x with ctrl := { x.ctrl with tbes := Function.update x.ctrl.tbes x.address t } }

def enqueueRequest (x : Ctx) (msg : RequestMsg) : Ctx :=
  { x with ctrl := { x.ctrl with requestL1NetworkOut := x.ctrl.requestL1NetworkOut ++ [msg] } }

def enqueueResponse (x : Ctx) (msg : ResponseMsg) : Ctx :=
  { x with ctrl := { x.ctrl with responseL1NetworkOut := x.ctrl.responseL1NetworkOut ++ [msg] } }

def enqueueUnblock (x : Ctx) (msg : ResponseMsg) : Ctx :=
  { x with ctrl := { x.ctrl with unblockNetworkOut := x.ctrl.unblockNetworkOut ++ [msg] } }

def setMandatory (x : Ctx) (q : MessageBuffer RubyRequest) : Ctx :=
  { x with ctrl := { x.ctrl with mandatoryQueue := q } }

def setOptional (x : Ctx) (q : MessageBuffer LineRequest) : Ctx :=
  { x with ctrl := { x.ctrl with optionalQueue := q } }

/-- A function of the sequencer, run on the controller. -/
def callback (x : Ctx) (f : Controller → Except Fault Controller) : Except Fault Ctx :=
  (f x.ctrl).map fun c => { x with ctrl := c }

section
variable (cfg : Config)

/-- The L2 bank of the address. -/
def toL2 (x : Ctx) : NetDest :=
  [mapAddressToRange x.address .L2Cache cfg.blockSizeBits cfg.l2SelectNumBits 0]

/-- A request to the L2 bank, on behalf of the request `m`. -/
def issue (type : CoherenceRequestType) (m : LineRequest) (x : Ctx) : Ctx :=
  x.enqueueRequest
    { addr := x.address, type, accessMode := m.accessMode, requestor := x.ctrl.machineID
      destination := x.toL2 cfg, messageSize := .Control, prefetch := m.prefetch }

def issueDemand (type : CoherenceRequestType) (x : Ctx) : Except Fault Ctx :=
  x.peekMandatory.map fun m => x.issue cfg type m.toLineRequest

def issuePrefetch (type : CoherenceRequestType) (x : Ctx) : Except Fault Ctx :=
  x.peekOptional.map fun m => x.issue cfg type m

def aIssueGETS (x : Ctx) : Except Fault Ctx :=
  x.peekMandatory.map fun m =>
    if m.isBCDuplicate then x else x.issue cfg .GETS m.toLineRequest

def paIssuePfGETS (x : Ctx) : Except Fault Ctx := x.issuePrefetch cfg .GETS

def aiIssueGETINSTR (x : Ctx) : Except Fault Ctx := x.issueDemand cfg .GETINSTR

def paiIssuePfGETINSTR (x : Ctx) : Except Fault Ctx := x.issuePrefetch cfg .GETINSTR

def bIssueGETX (x : Ctx) : Except Fault Ctx := x.issueDemand cfg .GETX

def pbIssuePfGETX (x : Ctx) : Except Fault Ctx := x.issuePrefetch cfg .GETX

def cIssueUPGRADE (x : Ctx) : Except Fault Ctx := x.issueDemand cfg .UPGRADE

/-- A message with the data of the line. -/
def sendData (dataBlk : DataBlock) (dirty : Bool) (destination : NetDest)
    (messageSize : MessageSizeType) (x : Ctx) : Ctx :=
  x.enqueueResponse
    { addr := x.address, type := .DATA, sender := x.ctrl.machineID, destination, dataBlk, dirty
      messageSize }

def dSendDataToRequestor (x : Ctx) : Except Fault Ctx :=
  x.peekRequest.bind fun m => x.validEntry.map fun (_, e) =>
    x.sendData e.dataBlk e.dirty [m.requestor] .ResponseData

def d2SendDataToL2 (x : Ctx) : Except Fault Ctx :=
  x.validEntry.map fun (_, e) => x.sendData e.dataBlk e.dirty (x.toL2 cfg) .ResponseData

def dtSendDataToRequestorFromTBE (x : Ctx) : Except Fault Ctx :=
  x.peekRequest.bind fun m => x.validTBE.map fun t =>
    x.sendData t.dataBlk t.dirty [m.requestor] .ResponseData

def d2tSendDataToL2FromTBE (x : Ctx) : Except Fault Ctx :=
  x.validTBE.map fun t => x.sendData t.dataBlk t.dirty (x.toL2 cfg) .ResponseData

def fSendDataToL2 (x : Ctx) : Except Fault Ctx :=
  x.validEntry.map fun (_, e) => x.sendData e.dataBlk e.dirty (x.toL2 cfg) .WritebackData

def ftSendDataToL2FromTBE (x : Ctx) : Except Fault Ctx :=
  x.validTBE.map fun t => x.sendData t.dataBlk t.dirty (x.toL2 cfg) .WritebackData

def fiSendInvAck (x : Ctx) : Except Fault Ctx :=
  x.peekRequest.map fun m => x.enqueueResponse
    { addr := x.address, type := .ACK, sender := x.ctrl.machineID, destination := [m.requestor]
      messageSize := .ResponseControl, ackCount := 1 }

def forwardEvictionToCpu (x : Ctx) : Ctx :=
  if cfg.sendEvictions then { x with ctrl := x.ctrl.evictionCallback x.address } else x

def gIssuePUTX (x : Ctx) : Except Fault Ctx :=
  x.validEntry.map fun (_, e) => x.enqueueRequest
    { addr := x.address, type := .PUTX, dataBlk := e.dataBlk, dirty := e.dirty
      requestor := x.ctrl.machineID, destination := x.toL2 cfg
      messageSize := if e.dirty then .WritebackData else .WritebackControl }

/-- An unblock message of the given type. -/
def unblockL2 (type : CoherenceResponseType) (x : Ctx) : Ctx :=
  x.enqueueUnblock
    { addr := x.address, type, sender := x.ctrl.machineID, destination := x.toL2 cfg
      messageSize := .ResponseControl }

def jSendUnblock (x : Ctx) : Ctx := x.unblockL2 cfg .UNBLOCK

def jjSendExclusiveUnblock (x : Ctx) : Except Fault Ctx :=
  x.peekResponse.map fun m => if m.isBCDuplicate then x else x.unblockL2 cfg .EXCLUSIVEUNBLOCK

/-- The response to a duplicate: its packet goes to the L1 it is meant for. -/
def answer (x : Ctx) (m : RubyRequest) : ResponseMsg :=
  { addr := m.lineAddress, type := .DATAEXCLUSIVE, sender := x.ctrl.machineID
    destination := m.netDest, messageSize := .ResponseData, packetptr := some m.pkt
    isBCDuplicate := true }

/-- Completing a load: the copies of a recorded broadcast are enqueued first. -/
def completeLoad (side : CacheSide) (x : Ctx) : Except Fault Ctx :=
  x.callback fun c => (c.duplicateIfBC cfg side x.address).bind
    (Controller.readCallback cfg side x.address)

def hLoadHit (x : Ctx) : Except Fault Ctx :=
  x.validEntry.bind fun (side, _) => x.peekMandatory.bind fun m =>
    if m.isBCDuplicate then .ok (x.enqueueResponse (x.answer m)) else x.completeLoad cfg side

def hIfetchHit (x : Ctx) : Except Fault Ctx :=
  x.validEntry.bind fun (side, _) => x.callback (Controller.readCallback cfg side x.address)

def hxLoadHit (x : Ctx) : Except Fault Ctx :=
  x.peekResponse.bind fun m =>
    if m.isBCDuplicate then
      match m.packetptr with
      | some pkt => x.callback (Controller.readCallbackBC cfg x.address pkt)
      | none => .error .noPacket
    else x.validEntry.bind fun (side, _) => x.completeLoad cfg side

def hhStoreHit (x : Ctx) : Except Fault Ctx :=
  x.validEntry.bind fun (side, _) =>
    (x.callback (Controller.writeCallback cfg side x.address)).map fun x =>
      x.modifyEntry fun e => { e with dirty := true }

/-- It differs from `hhStoreHit` only in the statistics. -/
def hhxStoreHit (x : Ctx) : Except Fault Ctx := x.hhStoreHit cfg

def iAllocateTBE (x : Ctx) : Except Fault Ctx :=
  x.peekMandatory.bind fun m =>
    if m.isBCDuplicate then .ok x
    else x.validEntry.bind fun (_, e) =>
      if x.tbe.isSome then .error .tbePresent
      else .ok (x.setTBE (some { dataBlk := e.dataBlk, dirty := e.dirty }))

def kPopMandatoryQueue (x : Ctx) : Except Fault Ctx :=
  x.peekMandatory.map fun _ => x.setMandatory x.ctrl.mandatoryQueue.dequeue

def lPopRequestQueue (x : Ctx) : Except Fault Ctx :=
  x.peekRequest.map fun _ => { x with request := none }

def oPopIncomingResponseQueue (x : Ctx) : Except Fault Ctx :=
  x.peekResponse.map fun _ => { x with response := none }

def sDeallocateTBE (x : Ctx) : Except Fault Ctx :=
  x.peekResponse.bind fun m =>
    if m.isBCDuplicate then .ok x
    else if x.tbe.isSome then .ok (x.setTBE none) else .error .tbeAbsent

def uWriteDataToL1Cache (x : Ctx) : Except Fault Ctx :=
  x.peekResponse.bind fun m =>
    if m.isBCDuplicate then .ok x
    else x.validEntry.map fun _ => x.modifyEntry fun e =>
      { e with dataBlk := m.dataBlk, dirty := m.dirty }

def qUpdateAckCount (x : Ctx) : Except Fault Ctx :=
  x.peekResponse.bind fun m => x.validTBE.map fun t =>
    x.setTBE (some { t with pendingAcks := t.pendingAcks - m.ackCount })

def ffDeallocateL1CacheBlock (x : Ctx) : Except Fault Ctx :=
  if x.ctrl.l1Dcache.isTagPresent x.address then
    .ok { x with
      ctrl := { x.ctrl with l1Dcache := x.ctrl.l1Dcache.deallocate x.address }
      entry := none }
  else if x.ctrl.l1Icache.isTagPresent x.address then
    .ok { x with
      ctrl := { x.ctrl with l1Icache := x.ctrl.l1Icache.deallocate x.address }
      entry := none }
  else .error .tagAbsent

/-- `set_cache_entry(allocate(address, new Entry))`, if there is no entry yet. -/
def allocateBlock (side : CacheSide) (x : Ctx) : Except Fault Ctx :=
  if x.entry.isSome then .ok x
  else if (x.ctrl.cache side).isTagPresent x.address then .error .tagPresent
  else if (x.ctrl.cache side).cacheAvail x.address then
    .ok { x with
      ctrl := x.ctrl.setCache side ((x.ctrl.cache side).allocate x.address (.new cfg))
      entry := some side }
  else .error .noRoom

def ooAllocateL1DCacheBlock (x : Ctx) : Except Fault Ctx :=
  x.peekMandatory.bind fun m =>
    if m.isBCDuplicate then .ok x else x.allocateBlock cfg .dcache

def ppAllocateL1ICacheBlock (x : Ctx) : Except Fault Ctx := x.allocateBlock cfg .icache

def zStallAndWaitMandatoryQueue (x : Ctx) : Except Fault Ctx :=
  x.peekMandatory.bind fun _ =>
    if getOffset cfg x.address = 0 then
      .ok (x.setMandatory (x.ctrl.mandatoryQueue.stallMessage x.address))
    else .error .notALine

def zStallAndWaitOptionalQueue (x : Ctx) : Except Fault Ctx :=
  x.peekOptional.bind fun _ =>
    if getOffset cfg x.address = 0 then
      .ok (x.setOptional (x.ctrl.optionalQueue.stallMessage x.address))
    else .error .notALine

/-- `wakeUpBuffers` reaches only the in-ports of a lower rank than the one in
use. It is called for responses, so the prefetches set aside stay there. -/
def kdWakeUpDependents (x : Ctx) : Ctx :=
  x.setMandatory (x.ctrl.mandatoryQueue.reanalyzeMessages x.address)

/-- An action that looks at the head of the mandatory queue and changes nothing
that is modelled: statistics and what the prefetcher is told. -/
def observe (x : Ctx) : Except Fault Ctx := x.peekMandatory.map fun _ => x

def poObserveHit (x : Ctx) : Except Fault Ctx :=
  x.peekMandatory.bind fun m =>
    if m.isBCDuplicate then .ok x
    else x.validEntry.map fun _ => x.modifyEntry fun e => { e with isPrefetch := false }

def pqPopPrefetchQueue (x : Ctx) : Except Fault Ctx :=
  x.peekOptional.map fun _ => x.setOptional x.ctrl.optionalQueue.dequeue

def mpMarkPrefetched (x : Ctx) : Except Fault Ctx :=
  x.validEntry.map fun _ => x.modifyEntry fun e => { e with isPrefetch := true }

def perform : Action → Ctx → Except Fault Ctx
  | .aIssueGETS, x => x.aIssueGETS cfg
  | .paIssuePfGETS, x => x.paIssuePfGETS cfg
  | .aiIssueGETINSTR, x => x.aiIssueGETINSTR cfg
  | .paiIssuePfGETINSTR, x => x.paiIssuePfGETINSTR cfg
  | .bIssueGETX, x => x.bIssueGETX cfg
  | .pbIssuePfGETX, x => x.pbIssuePfGETX cfg
  | .cIssueUPGRADE, x => x.cIssueUPGRADE cfg
  | .dSendDataToRequestor, x => x.dSendDataToRequestor
  | .d2SendDataToL2, x => x.d2SendDataToL2 cfg
  | .dtSendDataToRequestorFromTBE, x => x.dtSendDataToRequestorFromTBE
  | .d2tSendDataToL2FromTBE, x => x.d2tSendDataToL2FromTBE cfg
  | .fSendDataToL2, x => x.fSendDataToL2 cfg
  | .ftSendDataToL2FromTBE, x => x.ftSendDataToL2FromTBE cfg
  | .fiSendInvAck, x => x.fiSendInvAck
  | .forwardEvictionToCpu, x => .ok (x.forwardEvictionToCpu cfg)
  | .gIssuePUTX, x => x.gIssuePUTX cfg
  | .jSendUnblock, x => .ok (x.jSendUnblock cfg)
  | .jjSendExclusiveUnblock, x => x.jjSendExclusiveUnblock cfg
  | .hLoadHit, x => x.hLoadHit cfg
  | .hIfetchHit, x => x.hIfetchHit cfg
  | .hxLoadHit, x => x.hxLoadHit cfg
  | .hhStoreHit, x => x.hhStoreHit cfg
  | .hhxStoreHit, x => x.hhxStoreHit cfg
  | .iAllocateTBE, x => x.iAllocateTBE
  | .kPopMandatoryQueue, x => x.kPopMandatoryQueue
  | .lPopRequestQueue, x => x.lPopRequestQueue
  | .oPopIncomingResponseQueue, x => x.oPopIncomingResponseQueue
  | .sDeallocateTBE, x => x.sDeallocateTBE
  | .uWriteDataToL1Cache, x => x.uWriteDataToL1Cache
  | .qUpdateAckCount, x => x.qUpdateAckCount
  | .ffDeallocateL1CacheBlock, x => x.ffDeallocateL1CacheBlock
  | .ooAllocateL1DCacheBlock, x => x.ooAllocateL1DCacheBlock cfg
  | .ppAllocateL1ICacheBlock, x => x.ppAllocateL1ICacheBlock cfg
  | .zStallAndWaitMandatoryQueue, x => x.zStallAndWaitMandatoryQueue cfg
  | .zStallAndWaitOptionalQueue, x => x.zStallAndWaitOptionalQueue cfg
  | .kdWakeUpDependents, x => .ok x.kdWakeUpDependents
  | .uuProfileInstMiss, x | .uuProfileInstHit, x => .ok x
  | .uuProfileDataMiss, x | .uuProfileDataHit, x | .poObserveMiss, x | .ppmObservePfMiss, x =>
    x.observe
  | .poObserveHit, x => x.poObserveHit
  | .pqPopPrefetchQueue, x => x.pqPopPrefetchQueue
  | .mpMarkPrefetched, x => x.mpMarkPrefetched

def performAll (actions : List Action) (x : Ctx) : Except Fault Ctx :=
  Script.run (perform cfg) actions x

/-! ### Transitions -/

/-- `assert((L1Dcache.isTagPresent(addr) && L1Icache.isTagPresent(addr)) == false)`. -/
def oneTag (x : Ctx) : Except Fault Unit :=
  assertion (!(x.ctrl.l1Dcache.isTagPresent x.address && x.ctrl.l1Icache.isTagPresent x.address))
    .tagInBothCaches

/-- The state `getState` finds. -/
def state (x : Ctx) : State :=
  match x.tbe, x.cacheEntry with
  | some t, _ => t.tbeState
  | none, some e => e.cacheState
  | none, none => .NP

def getState (x : Ctx) : Except Fault State := x.oneTag.map fun _ => x.state

/-- `setState` and `setAccessPermission`. -/
def setState (next : State) (x : Ctx) : Except Fault Ctx :=
  x.oneTag.map fun _ =>
    (x.setTBE (x.tbe.map fun t => { t with tbeState := next })).modifyEntry fun e =>
      { e with cacheState := next, permission := next.toPermission }

def doTransition (event : Event) (x : Ctx) : Except Fault Ctx :=
  x.getState.bind fun state =>
    match transition state event with
    | none => .error .invalidTransition
    | some (actions, next) => (x.performAll cfg actions).bind (setState next)

end

end Ctx

/-! ### In-ports -/

namespace Controller

variable (cfg : Config)

/-- The entry of the line in one of the caches, as the in-ports pass it on. -/
def entryIn (c : Controller) (side : CacheSide) (addr : Addr) : Option CacheSide :=
  if (c.lookup side addr).isSome then some side else none

/-- `getCacheEntry`. -/
def getCacheEntry (c : Controller) (addr : Addr) : Option CacheSide :=
  (c.entryIn .dcache addr).or (c.entryIn .icache addr)

/-- `trigger`, from the mandatory or the optional queue. -/
def trigger (event : Event) (addr : Addr) (entry : Option CacheSide) (c : Controller) :
    Except Fault Controller :=
  (Ctx.doTransition cfg event ⟨c, addr, entry, none, none⟩).map Ctx.ctrl

def mandatoryRequestTypeToEvent : RubyRequestType → Except Fault Event
  | .LD => .ok .Load
  | .IFETCH => .ok .Ifetch
  | .ST => .ok .Store
  | _ => .error .invalidRequestType

def prefetchRequestTypeToEvent : RubyRequestType → Except Fault Event
  | .LD => .ok .PF_Load
  | .IFETCH => .ok .PF_Ifetch
  | .ST => .ok .PF_Store
  | _ => .error .invalidRequestType

/-- A request that belongs in one of the caches. The line may be there, or in
the other cache, or there is room for it, or room has to be made. -/
def demand (side : CacheSide) (m : RubyRequest) (victim : Addr) (c : Controller) :
    Option (Except Fault Controller) :=
  let line := m.lineAddress
  if (c.cache side).isTagPresent line then
    some ((mandatoryRequestTypeToEvent m.type).bind fun event =>
      c.trigger cfg event line (some side))
  else if (c.cache side.other).isTagPresent line then
    some (c.trigger cfg .L1_Replacement line (some side.other))
  else if (c.cache side).cacheAvail line then
    some ((mandatoryRequestTypeToEvent m.type).bind fun event => c.trigger cfg event line none)
  else if (c.cache side).isVictim line victim then
    -- `check_on_cache_probe`
    if c.isBlocked victim then some (.ok { c with mandatoryQueue := c.mandatoryQueue.delayHead })
    else some (c.trigger cfg .L1_Replacement victim (some side))
  else none

/-- The in-port of the processor's requests; `victim` is the line the
replacement policy would give up. -/
def mandatoryQueueIn (victim : Addr) (c : Controller) : Option (Except Fault Controller) :=
  match c.mandatoryQueue.peek with
  | none => none
  | some m =>
    if m.type = .IFETCH then c.demand cfg .icache m victim
    else if m.isBCDuplicate then
      some ((mandatoryRequestTypeToEvent m.type).bind fun event =>
        c.trigger cfg event m.lineAddress (c.entryIn .dcache m.lineAddress))
    else c.demand cfg .dcache m victim

/-- A prefetch for one of the caches; it is dropped if the line is in either. -/
def prefetchInto (side : CacheSide) (m : LineRequest) (victim : Addr) (c : Controller) :
    Option (Except Fault Controller) :=
  let line := m.lineAddress
  if (c.cache side).isTagPresent line then
    some ((prefetchRequestTypeToEvent m.type).bind fun event =>
      c.trigger cfg event line (some side))
  else if (c.cache side.other).isTagPresent line then
    some ((prefetchRequestTypeToEvent m.type).bind fun event =>
      c.trigger cfg event line (some side.other))
  else if (c.cache side).cacheAvail line then
    some ((prefetchRequestTypeToEvent m.type).bind fun event => c.trigger cfg event line none)
  else if (c.cache side).isVictim line victim then
    some (c.trigger cfg .PF_L1_Replacement victim (some side))
  else none

def optionalQueueIn (victim : Addr) (c : Controller) : Option (Except Fault Controller) :=
  match c.optionalQueue.peek with
  | none => none
  | some m =>
    if m.type = .IFETCH then c.prefetchInto cfg .icache m victim
    else c.prefetchInto cfg .dcache m victim

/-- Reading `pendingAcks` of a null TBE is a crash. -/
def allAcked (x : Ctx) (m : ResponseMsg) : Except Fault Bool :=
  x.validTBE.map fun t => decide (t.pendingAcks - m.ackCount = 0)

/-- The event a response stands for. -/
def responseEvent (x : Ctx) (m : ResponseMsg) : Except Fault Event :=
  if m.isBCDuplicate then .ok .BC_RECEIVE
  else match m.type with
    | .DATAEXCLUSIVE => .ok .Data_Exclusive
    | .DATA => x.getState.bind fun state =>
      if (state = .IS ∨ state = .IS_I ∨ state = .PF_IS ∨ state = .PF_IS_I) ∧
          m.sender.type = .L1Cache then .ok .DataS_fromL1
      else (allAcked x m).map fun all => if all then .Data_all_Acks else .Data
    | .ACK => (allAcked x m).map fun all => if all then .Ack_all else .Ack
    | .WBACK => .ok .WB_Ack
    | _ => .error .invalidMessageType

/-- The in-port of responses. A message for a blocked line waits. The context
that is left has the message if it was not popped. -/
def responseL1NetworkIn (m : ResponseMsg) (c : Controller) : Option (Except Fault Ctx) :=
  if c.isBlocked m.addr then none
  else
    let x : Ctx := ⟨c, m.addr, c.getCacheEntry m.addr, some m, none⟩
    some <| (assertion (decide (c.machineID ∈ m.destination)) .notForThisMachine).bind fun _ =>
      (responseEvent x m).bind fun event => x.doTransition cfg event

def requestEvent : CoherenceRequestType → Except Fault Event
  | .INV => .ok .Inv
  | .GETX | .UPGRADE => .ok .Fwd_GETX
  | .GETS => .ok .Fwd_GETS
  | .GETINSTR => .ok .Fwd_GET_INSTR
  | _ => .error .invalidMessageType

/-- The in-port of requests forwarded by the L2. -/
def requestL1NetworkIn (m : RequestMsg) (c : Controller) : Option (Except Fault Ctx) :=
  if c.isBlocked m.addr then none
  else
    let x : Ctx := ⟨c, m.addr, c.getCacheEntry m.addr, none, some m⟩
    some <| (assertion (decide (c.machineID ∈ m.destination)) .notForThisMachine).bind fun _ =>
      (requestEvent m.type).bind fun event => x.doTransition cfg event

/-- A prefetch the prefetcher asks for. -/
def enqueuePrefetch (address : Addr) (type : RubyRequestType) (c : Controller) : Controller :=
  { c with optionalQueue := c.optionalQueue.enqueue ⟨address, type, .Supervisor, .No⟩ }

end Controller

end Ruby

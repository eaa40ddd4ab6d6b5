import Lab447.Lib.Machine
import Lab447.Ruby.L1Cache

/-!
The L1 controllers of a system, each with its sequencer. The processors may make
any requests. The L2 banks and the network are left open: any forwarded request
and any response may reach an L1 at any time, except that a response marked
`isBCDuplicate` is one that an L1 has sent, and messages overtake each other
freely.
-/

namespace Ruby

/-- `accepted` lists the packets for which `makeRequest` returned `Issued`, and
`packets` counts them, so that every packet of a run has its own `id`. -/
structure System (cfg : Config) where
  l1 : Fin cfg.numL1 → Controller
  packets : Nat
  accepted : List (Fin cfg.numL1 × Packet)

inductive Step (cfg : Config) where
  | makeRequest (i : Fin cfg.numL1) (pkt : Packet)
  | mandatoryQueue (i : Fin cfg.numL1) (victim : Addr)
  | enqueuePrefetch (i : Fin cfg.numL1) (address : Addr) (type : RubyRequestType)
  | optionalQueue (i : Fin cfg.numL1) (victim : Addr)
  | request (i : Fin cfg.numL1) (msg : RequestMsg)
  | response (i : Fin cfg.numL1) (msg : ResponseMsg)
  | deliver (i : Fin cfg.numL1) (k : Nat) (j : Fin cfg.numL1)

variable {cfg : Config}

def Controller.start (cfg : Config) (version : Nat) : Controller where
  version
  l1Icache := .empty cfg.blockSizeBits cfg.icacheSetBits cfg.icacheAssoc
  l1Dcache := .empty cfg.blockSizeBits cfg.dcacheSetBits cfg.dcacheAssoc
  tbes _ := none
  sequencer := ⟨fun _ => [], 0, fun _ => none, [], []⟩
  mandatoryQueue := .empty
  optionalQueue := .empty
  blockMap _ := false
  requestL1NetworkOut := []
  responseL1NetworkOut := []
  unblockNetworkOut := []

namespace System

def start (cfg : Config) : System cfg := ⟨fun i => .start cfg i, 0, []⟩

def set (s : System cfg) (i : Fin cfg.numL1) (c : Controller) : System cfg :=
  { s with l1 := Function.update s.l1 i c }

/-- What one controller does, as a step of the system. -/
def atL1 (s : System cfg) (i : Fin cfg.numL1)
    (r : Option (Except Fault Controller)) : Option (Except Fault (System cfg)) :=
  r.map fun r => r.map (s.set i)

/-- A packet comes to L1 `i`. If it is refused the processor may try again. -/
def makeRequest (s : System cfg) (i : Fin cfg.numL1) (pkt : Packet) :
    Option (Except Fault (System cfg)) :=
  if pkt.requestorId = i ∧ pkt.id = s.packets then
    some (((s.l1 i).makeRequest cfg pkt).map fun (status, c) =>
      if status = .Issued then
        { s.set i c with packets := s.packets + 1, accepted := (i, pkt) :: s.accepted }
      else s.set i c)
  else none

/-- Takes the `k`-th response of L1 `i` out of the network. -/
def take (s : System cfg) (i : Fin cfg.numL1) (k : Nat) : System cfg :=
  s.set i { s.l1 i with responseL1NetworkOut := (s.l1 i).responseL1NetworkOut.eraseIdx k }

/-- Puts a response that was not popped back into the network. -/
def putBack (s : System cfg) (i : Fin cfg.numL1) (msg : Option ResponseMsg) : System cfg :=
  s.set i { s.l1 i with responseL1NetworkOut := (s.l1 i).responseL1NetworkOut ++ msg.toList }

/-- The `k`-th response of L1 `i`, if it is a duplicate for L1 `j`, gets there. -/
def deliver (s : System cfg) (i : Fin cfg.numL1) (k : Nat) (j : Fin cfg.numL1) :
    Option (Except Fault (System cfg)) :=
  match (s.l1 i).responseL1NetworkOut[k]? with
  | none => none
  | some msg =>
    if msg.isBCDuplicate ∧ ⟨.L1Cache, j⟩ ∈ msg.destination then
      (((s.take i k).l1 j).responseL1NetworkIn cfg msg).map fun r => r.map fun x =>
        ((s.take i k).set j x.ctrl).putBack i x.response
    else none

end System

def step (cfg : Config) (s : System cfg) : Step cfg → Option (Except Fault (System cfg))
  | .makeRequest i pkt => s.makeRequest i pkt
  | .mandatoryQueue i victim => s.atL1 i ((s.l1 i).mandatoryQueueIn cfg victim)
  | .enqueuePrefetch i address type =>
    if cfg.enablePrefetch then s.atL1 i (some (.ok ((s.l1 i).enqueuePrefetch address type)))
    else none
  | .optionalQueue i victim => s.atL1 i ((s.l1 i).optionalQueueIn cfg victim)
  | .request i msg =>
    s.atL1 i (((s.l1 i).requestL1NetworkIn cfg msg).map fun r => r.map Ctx.ctrl)
  | .response i msg =>
    if msg.isBCDuplicate then none
    else s.atL1 i (((s.l1 i).responseL1NetworkIn cfg msg).map fun r => r.map Ctx.ctrl)
  | .deliver i k j => s.deliver i k j

/-- The L1 controllers with everything that can happen to them. -/
def machine (cfg : Config) : Machine (System cfg) (Step cfg) Fault := ⟨.start cfg, step cfg⟩

end Ruby

import Mathlib
import Lab447.Lib.Machine
import Lab447.Lib.Script

/-!
How a network interface of garnet turns messages into packets, `flitisizeMessage`
and the part of `wakeup` that calls it in
`gem5/src/mem/ruby/network/garnet/NetworkInterface.cc`, with the sets of
destinations of `gem5/src/mem/ruby/common/NetDest.cc`. Ejection, credits and
statistics are left out; what they do to the VCs is up to the environment.
-/

namespace Garnet

abbrev NodeID := Nat

/-- The number of controllers of each machine type, in the order of the types. -/
structure Machines where
  num : Nat
  baseCount : Nat → Nat

namespace Machines

variable (M : Machines)

/-- The number of components before those of a machine type. -/
def baseNumber : Nat → Nat
  | 0 => 0
  | m + 1 => baseNumber m + M.baseCount m

/-- The machine type that a node belongs to. -/
def typeOf (destID : Nat) : Option Nat :=
  (List.range M.num).find? fun m =>
    decide (M.baseNumber m ≤ destID) && decide (destID < M.baseNumber (m + 1))

end Machines

/-- The bits of each machine type. -/
structure NetDest where
  bits : Nat → Nat → Bool

namespace NetDest

variable (M : Machines) (dest : NetDest)

/-- A new set, to which one component is added. -/
def single (type index : Nat) : NetDest := ⟨fun i j => decide (i = type ∧ j = index)⟩

def removeNetDest (other : NetDest) : NetDest := ⟨fun i j => dest.bits i j && !other.bits i j⟩

def getAllDest : List NodeID :=
  (List.range M.num).flatMap fun i =>
    ((List.range (M.baseCount i)).filter (dest.bits i)).map fun j => M.baseNumber i + j

/-- The set of one node, if it belongs to a machine type. -/
def personal (destID : Nat) : Option NetDest :=
  (M.typeOf destID).map fun m => single m (destID - M.baseNumber m)

end NetDest

/-- A message of the protocol; `id` tells messages apart. -/
structure Message where
  id : Nat
  size : Nat
  destination : NetDest

inductive FlitType where
  | HEAD | BODY | TAIL | HEAD_TAIL
  deriving DecidableEq

/-- The route of a packet, as far as the interface sets it. -/
structure RouteInfo where
  vnet : Nat
  netDest : NetDest
  destNi : NodeID

structure Flit where
  packetId : Nat
  id : Nat
  vnet : Nat
  vc : Nat
  size : Nat
  route : RouteInfo
  msg : Message
  type : FlitType

/-- The constructor, which takes the number of the flit for the packet's, too. -/
def Flit.new (id vc vnet : Nat) (route : RouteInfo) (size : Nat) (msg : Message) : Flit where
  packetId := id
  id := id
  vnet := vnet
  vc := vc
  size := size
  route := route
  msg := msg
  type :=
    if size = 1 then .HEAD_TAIL else if id = 0 then .HEAD
    else if id = size - 1 then .TAIL else .BODY

inductive VcState where
  | IDLE | ACTIVE
  deriving DecidableEq

structure OutVcState where
  state : VcState := .IDLE
  time : Nat := 0
  deriving DecidableEq

def OutVcState.isInState (vc : OutVcState) (state : VcState) (requestTime : Nat) : Bool :=
  decide (vc.state = state) && decide (vc.time ≤ requestTime)

/-- The interface's parameters. A message of `size` on a vnet becomes packets of
`numFlits vnet size` flits, which depends on the link that serves the vnet. -/
structure Params where
  machines : Machines
  virtualNetworks : Nat
  vcPerVnet : Nat
  deadlockThreshold : Nat
  numFlits : Nat → Nat → Nat

/-- A packet that was injected: the message it is a copy of, and what the interface
wrote into it. -/
structure Packet where
  message : Nat
  destNi : NodeID
  netDest : NetDest
  vc : Nat
  flits : List Flit

/-- `packets` are all packets injected so far, in order. -/
structure NetworkInterface where
  inNode : Nat → List Message := fun _ => []
  vcAllocator : Nat → Nat := fun _ => 0
  vcBusyCounter : Nat → Nat := fun _ => 0
  outVcState : Nat → OutVcState := fun _ => {}
  niOutVcs : Nat → List Flit := fun _ => []
  packets : List Packet := []

/-- `panic_if` of `calculateVC`. -/
inductive Fault where
  | networkDeadlock
  deriving DecidableEq

namespace NetworkInterface

variable (p : Params) (curTick : Nat)

/-- The loop of `calculateVC`, with the tries left: a free VC is looked for round
robin. -/
def calculateVC (vnet : Nat) : Nat → NetworkInterface → Option Nat × NetworkInterface
  | 0, ni =>
    (none, { ni with
      vcBusyCounter := Function.update ni.vcBusyCounter vnet (ni.vcBusyCounter vnet + 1) })
  | tries + 1, ni =>
    let delta := ni.vcAllocator vnet
    let ni := { ni with
      vcAllocator := Function.update ni.vcAllocator vnet
        (if delta + 1 = p.vcPerVnet then 0 else delta + 1) }
    if (ni.outVcState (vnet * p.vcPerVnet + delta)).isInState .IDLE curTick then
      (some (vnet * p.vcPerVnet + delta),
        { ni with vcBusyCounter := Function.update ni.vcBusyCounter vnet 0 })
    else calculateVC vnet tries ni

/-- The copy of the message for one of its destinations. It gets a set of its own
only if there is more than one. -/
def copyFor (multi : Bool) (msg : Message) (destID : Nat) : Message :=
  if multi then
    match NetDest.personal p.machines destID with
    | some personal => { msg with destination := personal }
    | none => msg
  else msg

/-- The message without a destination that has a packet. -/
def without (multi : Bool) (msg : Message) (destID : Nat) : Message :=
  if multi then
    match NetDest.personal p.machines destID with
    | some personal => { msg with destination := msg.destination.removeNetDest personal }
    | none => msg
  else msg

def packet (vnet vc : Nat) (copy : Message) (destID : Nat) : Packet :=
  let numFlits := p.numFlits vnet copy.size
  let route := ⟨vnet, copy.destination, destID⟩
  { message := copy.id
    destNi := destID
    netDest := copy.destination
    vc := vc
    flits := (List.range numFlits).map fun i => Flit.new i vc vnet route numFlits copy }

def inject (ni : NetworkInterface) (pkt : Packet) : NetworkInterface :=
  { ni with
    niOutVcs := Function.update ni.niOutVcs pkt.vc (ni.niOutVcs pkt.vc ++ pkt.flits)
    outVcState := Function.update ni.outVcState pkt.vc ⟨.ACTIVE, curTick⟩
    packets := ni.packets ++ [pkt] }

/-- The loop over the destinations of a message. It gives whether it went through
all of them, and the message as it is in the protocol buffer now. -/
def flitisizeDests (vnet : Nat) (multi : Bool) :
    List NodeID → Message → NetworkInterface → Except Fault (Bool × Message × NetworkInterface)
  | [], msg, ni => .ok (true, msg, ni)
  | destID :: dests, msg, ni =>
    match calculateVC p curTick vnet p.vcPerVnet ni with
    | (none, ni) =>
      if p.deadlockThreshold < ni.vcBusyCounter vnet then .error .networkDeadlock
      else .ok (false, msg, ni)
    | (some vc, ni) =>
      flitisizeDests vnet multi dests (without p multi msg destID)
        (ni.inject curTick (packet p vnet vc (copyFor p multi msg destID) destID))

def flitisizeMessage (vnet : Nat) (msg : Message) (ni : NetworkInterface) :
    Except Fault (Bool × Message × NetworkInterface) :=
  let destNodes := msg.destination.getAllDest p.machines
  flitisizeDests p curTick vnet (decide (1 < destNodes.length)) destNodes msg ni

/-- What `wakeup` does for one vnet: the message in front, if it is ready, is
dequeued once all its packets are injected. -/
def wakeupVnet (ready : Nat → Bool) (vnet : Nat) (ni : NetworkInterface) :
    Except Fault NetworkInterface :=
  match ni.inNode vnet with
  | [] => .ok ni
  | msg :: rest =>
    if ready vnet then
      (flitisizeMessage p curTick vnet msg ni).map fun r =>
        { r.2.2 with
          inNode := Function.update r.2.2.inNode vnet (if r.1 then rest else r.2.1 :: rest) }
    else .ok ni

def wakeup (ready : Nat → Bool) (ni : NetworkInterface) : Except Fault NetworkInterface :=
  Script.run (wakeupVnet p curTick ready) (List.range p.virtualNetworks) ni

end NetworkInterface

/-! ### Sets of destinations -/

variable {destID : Nat}

namespace Machines

variable {M : Machines}

theorem baseNumber_mono {m n : Nat} (h : m ≤ n) : M.baseNumber m ≤ M.baseNumber n := by
  induction h with
  | refl => exact Nat.le_refl _
  | step _ ih => exact ih.trans (Nat.le_add_right _ _)

/-- The nodes are numbered through, one machine type after the other. -/
theorem range_baseNumber (n : Nat) :
    List.range (M.baseNumber n) = (List.range n).flatMap fun i =>
      (List.range (M.baseCount i)).map fun j => M.baseNumber i + j := by
  induction n with
  | zero => rfl
  | succ n ih =>
    rw [baseNumber, List.range_add, ih, List.range_succ, List.flatMap_append,
      List.flatMap_singleton]

theorem typeOf_eq {i j : Nat} (hi : i < M.num) (hj : j < M.baseCount i) :
    M.typeOf (M.baseNumber i + j) = some i := by
  have inside : M.baseNumber i + j < M.baseNumber (i + 1) := Nat.add_lt_add_left hj _
  have found : (M.typeOf (M.baseNumber i + j)).isSome := by
    rw [typeOf, List.find?_isSome]
    exact ⟨i, List.mem_range.mpr hi, by simp [inside]⟩
  obtain ⟨m, hm⟩ := Option.isSome_iff_exists.mp found
  have within := List.find?_some hm
  simp only [Bool.and_eq_true, decide_eq_true_eq] at within
  have same : m = i := by
    obtain less | rfl | more := Nat.lt_trichotomy m i
    · have := M.baseNumber_mono (m := m + 1) less
      omega
    · rfl
    · have := M.baseNumber_mono (m := i + 1) more
      omega
  rw [hm, same]

theorem exists_of_lt (h : destID < M.baseNumber M.num) :
    ∃ i j, i < M.num ∧ j < M.baseCount i ∧ destID = M.baseNumber i + j := by
  have mem := List.mem_range.mpr h
  rw [range_baseNumber] at mem
  obtain ⟨i, hi, mem⟩ := List.mem_flatMap.mp mem
  obtain ⟨j, hj, eq⟩ := List.mem_map.mp mem
  exact ⟨i, j, List.mem_range.mp hi, List.mem_range.mp hj, eq.symm⟩

end Machines

namespace NetDest

variable {M : Machines} {dest : NetDest}

/-- The bit of a node. -/
def holds (M : Machines) (dest : NetDest) (destID : Nat) : Bool :=
  match M.typeOf destID with
  | some m => dest.bits m (destID - M.baseNumber m)
  | none => false

theorem getAllDest_eq (dest : NetDest) :
    dest.getAllDest M = (List.range (M.baseNumber M.num)).filter (dest.holds M) := by
  rw [getAllDest, Machines.range_baseNumber, List.filter_flatMap]
  apply List.flatMap_congr
  intro i hi
  rw [List.filter_map]
  congr 1
  apply List.filter_congr
  intro j hj
  simp [holds, Machines.typeOf_eq (List.mem_range.mp hi) (List.mem_range.mp hj)]

theorem getAllDest_nodup (dest : NetDest) : (dest.getAllDest M).Nodup := by
  rw [getAllDest_eq]
  exact List.nodup_range.filter _

/-- The set of one node holds this node and no other. -/
theorem personal_eq (h : destID < M.baseNumber M.num) :
    ∃ personal, NetDest.personal M destID = some personal ∧
      ∀ other < M.baseNumber M.num, personal.holds M other = decide (other = destID) := by
  obtain ⟨i, j, hi, hj, rfl⟩ := Machines.exists_of_lt h
  refine ⟨single i j, by simp [NetDest.personal, Machines.typeOf_eq hi hj], fun other lt => ?_⟩
  obtain ⟨k, l, hk, hl, rfl⟩ := Machines.exists_of_lt lt
  simp only [holds, Machines.typeOf_eq hk hl, single, Nat.add_sub_cancel_left]
  rw [decide_eq_decide]
  constructor
  · rintro ⟨rfl, rfl⟩
    rfl
  · intro same
    have types := Machines.typeOf_eq hk hl
    rw [same, Machines.typeOf_eq hi hj] at types
    cases types
    exact ⟨rfl, Nat.add_left_cancel same⟩

theorem holds_removeNetDest (other : NetDest) (destID : Nat) :
    (dest.removeNetDest other).holds M destID = (dest.holds M destID && !other.holds M destID) := by
  simp only [holds, removeNetDest]
  split <;> rfl

/-- The first destination has a set of its own, and without it the others are left. -/
theorem personal_of_getAllDest {rest : List NodeID} (h : dest.getAllDest M = destID :: rest) :
    ∃ personal, NetDest.personal M destID = some personal ∧
      personal.getAllDest M = [destID] ∧ (dest.removeNetDest personal).getAllDest M = rest := by
  have nodup := getAllDest_nodup (M := M) dest
  have mem : destID ∈ dest.getAllDest M := by simp [h]
  rw [getAllDest_eq, List.mem_filter, List.mem_range] at mem
  obtain ⟨personal, found, only⟩ := personal_eq mem.1
  refine ⟨personal, found, ?_, ?_⟩
  · have one := List.count_eq_one_of_mem List.nodup_range (List.mem_range.mpr mem.1)
    rw [getAllDest_eq, List.filter_congr fun x hx => only x (List.mem_range.mp hx)]
    exact (List.filter_eq _).trans (by rw [one]; rfl)
  · have left : (dest.removeNetDest personal).getAllDest M =
        (dest.getAllDest M).filter fun x => !decide (x = destID) := by
      rw [getAllDest_eq, getAllDest_eq, List.filter_filter]
      apply List.filter_congr
      intro x hx
      rw [holds_removeNetDest, only x (List.mem_range.mp hx), Bool.and_comm]
    rw [left, h]
    rw [h, List.nodup_cons] at nodup
    rw [List.filter_cons_of_neg (by simp), List.filter_eq_self]
    intro x hx
    have ne : x ≠ destID := fun eq => nodup.1 (eq ▸ hx)
    simp [ne]

end NetDest

/-! ### One message -/

/-- A packet goes to one node, in flits of one VC that are numbered in order. -/
structure Packet.Unicast (M : Machines) (pkt : Packet) : Prop where
  netDest : pkt.netDest.getAllDest M = [pkt.destNi]
  numbered : pkt.flits.map Flit.id = List.range pkt.flits.length
  same : ∀ f ∈ pkt.flits, f.vc = pkt.vc ∧ f.size = pkt.flits.length ∧
    f.route.destNi = pkt.destNi ∧ f.route.netDest = pkt.netDest ∧ f.msg.id = pkt.message

variable {vnet : Nat} {msg : Message}

namespace NetworkInterface

variable {p : Params} {curTick : Nat} {ni ni' : NetworkInterface}

theorem packet_unicast {vc : Nat} {copy : Message}
    (h : copy.destination.getAllDest p.machines = [destID]) :
    (packet p vnet vc copy destID).Unicast p.machines := by
  refine ⟨h, ?_, ?_⟩
  · simp [packet, Flit.new, Function.comp_def]
  · intro f mem
    obtain ⟨i, -, rfl⟩ := List.mem_map.mp mem
    simp [packet, Flit.new]

/-- Looking for a VC changes neither buffers nor packets. -/
theorem calculateVC_frame {tries : Nat} {vc : Option Nat}
    (h : calculateVC p curTick vnet tries ni = (vc, ni')) :
    ni'.inNode = ni.inNode ∧ ni'.niOutVcs = ni.niOutVcs ∧ ni'.packets = ni.packets := by
  induction tries generalizing ni with
  | zero =>
    cases h
    exact ⟨rfl, rfl, rfl⟩
  | succ tries ih =>
    simp only [calculateVC] at h
    split at h
    next =>
      cases h
      exact ⟨rfl, rfl, rfl⟩
    next =>
      obtain ⟨inNode, niOutVcs, packets⟩ := ih h
      exact ⟨inNode, niOutVcs, packets⟩

/-- What is put into the VCs are the flits of these packets. -/
structure Injects (ni ni' : NetworkInterface) (pkts : List Packet) : Prop where
  packets : ni'.packets = ni.packets ++ pkts
  inNode : ni'.inNode = ni.inNode
  niOutVcs : ∀ vc, ni'.niOutVcs vc =
    ni.niOutVcs vc ++ (pkts.filter fun pkt => pkt.vc = vc).flatMap Packet.flits

theorem Injects.none {tries : Nat} {vc : Option Nat}
    (h : calculateVC p curTick vnet tries ni = (vc, ni')) : Injects ni ni' [] := by
  obtain ⟨inNode, niOutVcs, packets⟩ := calculateVC_frame h
  exact ⟨by simp [packets], inNode, by simp [niOutVcs]⟩

theorem Injects.inject (pkt : Packet) : Injects ni (ni.inject curTick pkt) [pkt] := by
  refine ⟨rfl, rfl, fun vc => ?_⟩
  by_cases same : vc = pkt.vc
  · subst same
    simp [NetworkInterface.inject]
  · simp [NetworkInterface.inject, same, Ne.symm same]

theorem Injects.trans {ni'' : NetworkInterface} {pkts pkts' : List Packet}
    (first : Injects ni ni' pkts) (next : Injects ni' ni'' pkts') :
    Injects ni ni'' (pkts ++ pkts') := by
  refine ⟨?_, next.inNode.trans first.inNode, fun vc => ?_⟩
  · rw [next.packets, first.packets, List.append_assoc]
  · rw [next.niOutVcs, first.niOutVcs, List.filter_append, List.flatMap_append, List.append_assoc]

/-- The copy for the first destination goes to it alone, and the message keeps the
others. -/
theorem copyFor_without {multi : Bool} {rest : List NodeID}
    (all : msg.destination.getAllDest p.machines = destID :: rest) (one : multi = false → rest = []) :
    (copyFor p multi msg destID).destination.getAllDest p.machines = [destID] ∧
    (copyFor p multi msg destID).id = msg.id ∧ (without p multi msg destID).id = msg.id ∧
    (rest ≠ [] → (without p multi msg destID).destination.getAllDest p.machines = rest) := by
  cases multi with
  | false =>
    have none_ := one rfl
    subst none_
    exact ⟨all, rfl, rfl, fun ne => absurd rfl ne⟩
  | true =>
    obtain ⟨personal, found, own, left⟩ := NetDest.personal_of_getAllDest all
    simp only [copyFor, without, found, if_true, true_and]
    exact ⟨own, fun _ => left⟩

/-- The loop injects packets for the first destinations of the message, in order. If
it stops before the last, the others are those the message still has. -/
theorem flitisizeDests_eq_ok {multi done : Bool} {dests : List NodeID} {msg' : Message}
    (h : flitisizeDests p curTick vnet multi dests msg ni = .ok (done, msg', ni'))
    (all : dests ≠ [] → msg.destination.getAllDest p.machines = dests)
    (one : multi = false → dests.length ≤ 1) : ∃ pkts, Injects ni ni' pkts ∧ msg'.id = msg.id ∧
      (∀ pkt ∈ pkts, pkt.Unicast p.machines ∧ pkt.message = msg.id) ∧
      (done = true → dests = pkts.map Packet.destNi) ∧
      (done = false → dests = pkts.map Packet.destNi ++ msg'.destination.getAllDest p.machines ∧
        msg'.destination.getAllDest p.machines ≠ []) := by
  induction dests generalizing msg ni with
  | nil =>
    cases h
    exact ⟨[], ⟨by simp, rfl, by simp⟩, rfl, by simp, fun _ => rfl, by simp⟩
  | cons destID rest ih =>
    have here := all (List.cons_ne_nil _ _)
    simp only [flitisizeDests] at h
    split at h
    next ni₁ found =>
      split at h
      next => cases h
      next =>
        cases h
        exact ⟨[], .none found, rfl, by simp, by simp, fun _ => ⟨here.symm, by simp [here]⟩⟩
    next vc ni₁ found =>
      have last : multi = false → rest = [] := by
        intro single
        have short := one single
        rw [List.length_cons] at short
        exact List.length_eq_zero_iff.mp (by omega)
      obtain ⟨own, copied, kept, left⟩ := copyFor_without here last
      obtain ⟨pkts, injects, id, unicast, ends, stops⟩ :=
        ih h left fun single => by simp [last single]
      refine ⟨_, (Injects.none found).trans ((Injects.inject _).trans injects), id.trans kept,
        ?_, ?_, ?_⟩
      · intro pkt mem
        obtain rfl | mem := List.mem_cons.mp mem
        · exact ⟨packet_unicast own, copied⟩
        · exact ⟨(unicast pkt mem).1, (unicast pkt mem).2.trans kept⟩
      · intro through
        exact congrArg (destID :: ·) (ends through)
      · intro stopped
        exact ⟨congrArg (destID :: ·) (stops stopped).1, (stops stopped).2⟩

/-- What a wakeup does for one vnet, if it does anything. -/
inductive Woken (p : Params) (vnet : Nat) (ni ni' : NetworkInterface) : Prop
  | idle (same : ni' = ni)
  | served (msg msg' : Message) (rest : List Message) (pkts : List Packet) (done : Bool)
      (front : ni.inNode vnet = msg :: rest) (mid : NetworkInterface) (injects : Injects ni mid pkts)
      (next : ni' = { mid with
        inNode := Function.update ni.inNode vnet (if done then rest else msg' :: rest) })
      (id : msg'.id = msg.id)
      (unicast : ∀ pkt ∈ pkts, pkt.Unicast p.machines ∧ pkt.message = msg.id)
      (through : done = true → msg.destination.getAllDest p.machines = pkts.map Packet.destNi)
      (stopped : done = false → msg.destination.getAllDest p.machines =
        pkts.map Packet.destNi ++ msg'.destination.getAllDest p.machines ∧
        msg'.destination.getAllDest p.machines ≠ [])

theorem wakeupVnet_eq_ok {ready : Nat → Bool} (h : wakeupVnet p curTick ready vnet ni = .ok ni') :
    Woken p vnet ni ni' := by
  unfold wakeupVnet at h
  split at h
  next => cases h; exact .idle rfl
  next msg rest front =>
    split at h
    next =>
      obtain ⟨⟨done, msg', mid⟩, flitisized, rfl⟩ := Script.map_eq_ok.mp h
      obtain ⟨pkts, injects, id, unicast, through, stopped⟩ :=
        flitisizeDests_eq_ok flitisized (fun _ => rfl) (by simp)
      exact .served msg msg' rest pkts done front mid injects (by rw [injects.inNode]) id unicast
        through stopped
    next => cases h; exact .idle rfl

end NetworkInterface

/-! ### The life of a message -/

/-- An interface with the messages it was given, as they were then, and the flits
that have left its VCs. -/
structure InterfaceUse where
  ni : NetworkInterface := {}
  curTick : Nat := 0
  given : Nat → Option Message := fun _ => none
  sent : Nat → List Flit := fun _ => []

/-- The protocol enqueues a message at any place of a buffer, and between wakeups
the VCs change in any way and flits leave them. -/
inductive InterfaceEvent where
  | advance (tick : Nat)
  | enqueue (vnet position : Nat) (msg : Message)
  | wakeup (ready : Nat → Bool)
  | setVc (vc : Nat) (state : OutVcState)
  | sendFlit (vc : Nat)

namespace InterfaceUse

variable (p : Params) (s : InterfaceUse)

def possible : InterfaceEvent → Bool
  | .advance tick => decide (s.curTick ≤ tick)
  | .enqueue vnet position msg =>
    (s.given msg.id).isNone && decide (position ≤ (s.ni.inNode vnet).length) &&
      !(msg.destination.getAllDest p.machines).isEmpty
  | .wakeup _ => true
  | .setVc _ _ => true
  | .sendFlit vc => !(s.ni.niOutVcs vc).isEmpty

def apply : InterfaceEvent → Except Fault InterfaceUse
  | .advance tick => .ok { s with curTick := tick }
  | .enqueue vnet position msg =>
    .ok { s with
      ni := { s.ni with
        inNode := Function.update s.ni.inNode vnet
          ((s.ni.inNode vnet).take position ++ msg :: (s.ni.inNode vnet).drop position) }
      given := Function.update s.given msg.id (some msg) }
  | .wakeup ready => (s.ni.wakeup p s.curTick ready).map fun ni => { s with ni := ni }
  | .setVc vc state =>
    .ok { s with ni := { s.ni with outVcState := Function.update s.ni.outVcState vc state } }
  | .sendFlit vc =>
    .ok { s with
      ni := { s.ni with niOutVcs := Function.update s.ni.niOutVcs vc (s.ni.niOutVcs vc).tail }
      sent := Function.update s.sent vc (s.sent vc ++ (s.ni.niOutVcs vc).head?.toList) }

def machine : Machine InterfaceUse InterfaceEvent Fault where
  start := {}
  step s event := if s.possible p event then some (s.apply p event) else none

end InterfaceUse

namespace NetworkInterface

/-- The packets of a message. -/
def packetsOf (ni : NetworkInterface) (id : Nat) : List Packet :=
  ni.packets.filter fun pkt => pkt.message = id

def Buffered (ni : NetworkInterface) (id : Nat) : Prop :=
  ∃ vnet, ∃ msg ∈ ni.inNode vnet, msg.id = id

/-- A message is not there yet, waits in one place with the destinations that have no
packet, or is gone with all of them injected. -/
inductive Phase (M : Machines) (id : Nat) (given : Option Message) (ni : NetworkInterface) : Prop
  | unborn (none_ : given = none) (absent : ¬ni.Buffered id) (packets : ni.packetsOf id = [])
  | waiting (orig msg : Message) (vnet : Nat) (before after : List Message) (is : given = some orig)
      (here : ni.inNode vnet = before ++ msg :: after) (id_eq : msg.id = id)
      (once : ∀ m ∈ before ++ after, m.id ≠ id)
      (only : ∀ v ≠ vnet, ∀ m ∈ ni.inNode v, m.id ≠ id)
      (split : orig.destination.getAllDest M =
        (ni.packetsOf id).map Packet.destNi ++ msg.destination.getAllDest M)
      (left : msg.destination.getAllDest M ≠ [])
  | gone (orig : Message) (is : given = some orig) (absent : ¬ni.Buffered id)
      (all : orig.destination.getAllDest M = (ni.packetsOf id).map Packet.destNi)

variable {p : Params} {id : Nat} {given : Option Message} {ni ni' : NetworkInterface}

/-- Only the buffers and the packets matter. -/
theorem Phase.congr {M : Machines} (h : Phase M id given ni) (inNode : ni'.inNode = ni.inNode)
    (packets : ni'.packets = ni.packets) : Phase M id given ni' := by
  have same : ni'.packetsOf id = ni.packetsOf id := by rw [packetsOf, packetsOf, packets]
  have absent : ¬ni.Buffered id → ¬ni'.Buffered id := by
    simp only [Buffered, inNode]
    exact fun h => h
  cases h with
  | unborn none_ ab pk => exact .unborn none_ (absent ab) (same.trans pk)
  | waiting orig msg vnet before after is here id_eq once only split left =>
    exact .waiting orig msg vnet before after is (by rw [inNode, here]) id_eq once
      (by rwa [inNode]) (by rw [same, split]) left
  | gone orig is ab all => exact .gone orig is (absent ab) (by rw [same, all])

theorem packetsOf_served {mid : NetworkInterface} {pkts : List Packet}
    (inNode : Nat → List Message) {n : Nat} (injects : Injects ni mid pkts)
    (messages : ∀ pkt ∈ pkts, pkt.message = n) (id : Nat) :
    ({ mid with inNode := inNode } : NetworkInterface).packetsOf id =
      ni.packetsOf id ++ if n = id then pkts else [] := by
  simp only [packetsOf, injects.packets, List.filter_append]
  congr 1
  split
  next same =>
    rw [List.filter_eq_self]
    intro pkt mem
    simp [messages pkt mem, same]
  next other =>
    rw [List.filter_eq_nil_iff]
    intro pkt mem
    simp [messages pkt mem, other]

theorem not_buffered_update {mid : NetworkInterface} {list : List Message}
    (here : ∀ m ∈ list, m.id ≠ id) (elsewhere : ∀ v ≠ vnet, ∀ m ∈ ni.inNode v, m.id ≠ id) :
    ¬({ mid with inNode := Function.update ni.inNode vnet list } : NetworkInterface).Buffered id := by
  rintro ⟨v, m, mem, same⟩
  by_cases hv : v = vnet
  · subst hv
    exact here m (by simpa using mem) same
  · exact elsewhere v hv m (by simpa [hv] using mem) same

theorem ne_of_not_buffered (h : ¬ni.Buffered id) {m : Message} (mem : m ∈ ni.inNode vnet) :
    m.id ≠ id :=
  fun same => h ⟨vnet, m, mem, same⟩

/-- The ids in the buffer that a wakeup serves are among those before it. -/
theorem ids_served {msg' : Message} {rest : List Message} {done : Bool} (same : msg'.id = msg.id)
    (h : ∀ m ∈ msg :: rest, m.id ≠ id) :
    ∀ m ∈ (if done then rest else msg' :: rest), m.id ≠ id := by
  intro m mem
  cases done with
  | true => exact h m (List.mem_cons_of_mem _ mem)
  | false =>
    obtain rfl | mem := List.mem_cons.mp mem
    · exact same ▸ h msg List.mem_cons_self
    · exact h m (List.mem_cons_of_mem _ mem)

theorem Phase.woken (h : Phase p.machines id given ni) (woken : Woken p vnet ni ni') :
    Phase p.machines id given ni' := by
  cases woken with
  | idle same => exact same ▸ h
  | served msg msg' rest pkts done front mid injects next same unicast through stopped =>
    subst next
    have packets := packetsOf_served (Function.update ni.inNode vnet
      (if done then rest else msg' :: rest)) injects (fun pkt mem => (unicast pkt mem).2) id
    cases h with
    | unborn none_ absent pk =>
      have others : ∀ m ∈ msg :: rest, m.id ≠ id := fun m mem =>
        ne_of_not_buffered absent (front ▸ mem)
      rw [if_neg (others msg List.mem_cons_self), pk] at packets
      exact .unborn none_ (not_buffered_update (ids_served same others)
        fun v _ m mem => ne_of_not_buffered absent mem) packets
    | gone orig is absent all =>
      have others : ∀ m ∈ msg :: rest, m.id ≠ id := fun m mem =>
        ne_of_not_buffered absent (front ▸ mem)
      rw [if_neg (others msg List.mem_cons_self), List.append_nil] at packets
      exact .gone orig is (not_buffered_update (ids_served same others)
        fun v _ m mem => ne_of_not_buffered absent mem) (packets ▸ all)
    | waiting orig m w before after is here id_eq once only split left =>
      by_cases hw : w = vnet
      · subst hw
        rw [front] at here
        cases before with
        | nil =>
          -- it is this message that is served
          cases here
          rw [if_pos id_eq] at packets
          cases done with
          | true =>
            refine .gone orig is (not_buffered_update once only) ?_
            rw [packets, List.map_append, split, through rfl]
          | false =>
            obtain ⟨all, some_⟩ := stopped rfl
            refine .waiting orig msg' w [] rest is (by simp) (same.trans id_eq) once ?_ ?_ some_
            · intro v hv n mem
              exact only v hv n (by simpa [hv] using mem)
            · rw [packets, List.map_append, split, all, List.append_assoc]
        | cons first before =>
          obtain ⟨rfl, rfl⟩ := List.cons.inj here
          have other : msg.id ≠ id := once msg List.mem_cons_self
          rw [if_neg other, List.append_nil] at packets
          refine .waiting orig m w (if done then before else msg' :: before) after is ?_ id_eq
            ?_ ?_ (by rw [packets, split]) left
          · cases done <;> simp
          · intro n mem
            cases done with
            | true => exact once n (List.mem_cons_of_mem _ mem)
            | false =>
              obtain rfl | mem := List.mem_cons.mp mem
              · exact same ▸ other
              · exact once n (List.mem_cons_of_mem _ mem)
          · intro v hv n mem
            exact only v hv n (by simpa [hv] using mem)
      · have others : ∀ m ∈ msg :: rest, m.id ≠ id := fun n mem =>
          only vnet (Ne.symm hw) n (front ▸ mem)
        rw [if_neg (others msg List.mem_cons_self), List.append_nil] at packets
        refine .waiting orig m w before after is (by simpa [hw] using here) id_eq once ?_
          (by rw [packets, split]) left
        intro v hv n mem
        by_cases at_ : v = vnet
        · subst at_
          exact ids_served same others n (by simpa using mem)
        · exact only v hv n (by simpa [at_] using mem)

/-- Another message gets into a buffer. -/
theorem Phase.enqueue {M : Machines} {front back : List Message} (h : Phase M id given ni)
    (other : msg.id ≠ id) (list : ni.inNode vnet = front ++ back) : Phase M id given { ni with
      inNode := Function.update ni.inNode vnet (front ++ msg :: back) } := by
  have ids (others : ∀ m ∈ ni.inNode vnet, m.id ≠ id) : ∀ m ∈ front ++ msg :: back, m.id ≠ id := by
    intro m mem
    obtain mem | rfl | mem : m ∈ front ∨ m = msg ∨ m ∈ back := by simpa using mem
    · exact others m (by simp [list, mem])
    · exact other
    · exact others m (by simp [list, mem])
  cases h with
  | unborn none_ absent pk =>
    exact .unborn none_ (not_buffered_update (ids fun m mem => ne_of_not_buffered absent mem)
      fun v _ m mem => ne_of_not_buffered absent mem) pk
  | gone orig is absent all =>
    exact .gone orig is (not_buffered_update (ids fun m mem => ne_of_not_buffered absent mem)
      fun v _ m mem => ne_of_not_buffered absent mem) all
  | waiting orig m w before after is here id_eq once only split left =>
    by_cases hw : w = vnet
    · subst hw
      have elsewhere : ∀ v ≠ w, ∀ n ∈ Function.update ni.inNode w (front ++ msg :: back) v,
          n.id ≠ id := by
        intro v hv n mem
        exact only v hv n (by simpa [hv] using mem)
      have spared (n : Message) (mem : n = msg ∨ n ∈ before ++ after) : n.id ≠ id := by
        obtain rfl | mem := mem
        · exact other
        · exact once n mem
      -- it gets in before this message, or after it
      obtain ⟨mid, rfl, rfl⟩ | ⟨mid, rfl, tail⟩ := List.append_eq_append_iff.mp (list.symm.trans here)
      · refine .waiting orig m w (front ++ msg :: mid) after is (by simp) id_eq ?_ elsewhere split left
        exact fun n mem => spared n (by grind)
      · cases mid with
        | nil =>
          subst tail
          refine .waiting orig m w (before ++ [msg]) after is (by simp) id_eq ?_ elsewhere split left
          exact fun n mem => spared n (by grind)
        | cons first mid =>
          obtain ⟨rfl, rfl⟩ := List.cons.inj tail
          refine .waiting orig m w before (mid ++ msg :: back) is (by simp) id_eq ?_ elsewhere
            split left
          exact fun n mem => spared n (by grind)
    · refine .waiting orig m w before after is (by simpa [hw] using here) id_eq once ?_ split left
      intro v hv n mem
      by_cases at_ : v = vnet
      · subst at_
        exact ids (only v hv) n (by simpa using mem)
      · exact only v hv n (by simpa [at_] using mem)

end NetworkInterface

namespace InterfaceUse

open NetworkInterface

variable {p : Params} {s t : InterfaceUse}

/-- The flits that a VC was given are those of its packets, in order. -/
def InVcs (s : InterfaceUse) : Prop :=
  ∀ vc, s.sent vc ++ s.ni.niOutVcs vc =
    (s.ni.packets.filter fun pkt => pkt.vc = vc).flatMap Packet.flits

structure Kept (p : Params) (s : InterfaceUse) : Prop where
  phase : ∀ id, Phase p.machines id (s.given id) s.ni
  unicast : ∀ pkt ∈ s.ni.packets, pkt.Unicast p.machines
  inVcs : s.InVcs

theorem Kept.woken (h : s.Kept p) {ni : NetworkInterface} (woken : Woken p vnet s.ni ni) :
    Kept p { s with ni := ni } := by
  refine ⟨fun id => (h.phase id).woken woken, ?_, ?_⟩
  · cases woken with
    | idle same => exact same ▸ h.unicast
    | served msg msg' rest pkts done front mid injects next same unicast =>
      subst next
      intro pkt mem
      obtain mem | mem := List.mem_append.mp (injects.packets ▸ mem)
      · exact h.unicast pkt mem
      · exact (unicast pkt mem).1
  · cases woken with
    | idle same => exact same ▸ h.inVcs
    | served msg msg' rest pkts done front mid injects next =>
      subst next
      intro vc
      rw [injects.niOutVcs, injects.packets, ← List.append_assoc, h.inVcs vc, List.filter_append,
        List.flatMap_append]

theorem Kept.wakeup (h : s.Kept p) {ready : Nat → Bool} {ni : NetworkInterface}
    (woken : s.ni.wakeup p s.curTick ready = .ok ni) : Kept p { s with ni := ni } := by
  refine Script.run_keeps (P := fun ni => Kept p { s with ni := ni }) ?_ woken h
  intro vnet _ mid next kept step
  exact kept.woken (wakeupVnet_eq_ok step)

theorem Kept.enqueue (h : s.Kept p) {position : Nat}
    (can : s.possible p (.enqueue vnet position msg))
    (step : s.apply p (.enqueue vnet position msg) = .ok t) : t.Kept p := by
  simp only [possible, Bool.and_eq_true, Option.isNone_iff_eq_none, decide_eq_true_eq,
    Bool.not_eq_true', List.isEmpty_eq_false_iff] at can
  obtain ⟨⟨fresh, -⟩, some_⟩ := can
  cases step
  have list := (List.take_append_drop position (s.ni.inNode vnet)).symm
  refine ⟨fun id => ?_, h.unicast, h.inVcs⟩
  dsimp only
  by_cases same : id = msg.id
  · subst same
    rw [Function.update_self]
    have before := h.phase msg.id
    rw [fresh] at before
    cases before with
    | waiting _ _ _ _ _ is => cases is
    | gone _ is => cases is
    | unborn _ absent packets =>
      refine .waiting msg msg vnet _ _ rfl (Function.update_self ..) rfl ?_ ?_ ?_ some_
      · rw [← list]
        exact fun m mem => ne_of_not_buffered absent mem
      · intro v hv m mem
        have old : m ∈ s.ni.inNode v := by simpa [hv] using mem
        exact ne_of_not_buffered absent old
      · have none_ : packetsOf s.ni msg.id = [] := packets
        simp only [packetsOf] at none_ ⊢
        rw [none_]
        rfl
  · rw [Function.update_of_ne same]
    exact (h.phase id).enqueue (Ne.symm same) list

theorem Kept.sendFlit (h : s.Kept p) {vc : Nat} (can : s.possible p (.sendFlit vc))
    (step : s.apply p (.sendFlit vc) = .ok t) : t.Kept p := by
  cases step
  have some_ : s.ni.niOutVcs vc ≠ [] := by simpa [possible] using can
  obtain ⟨first, rest, flits⟩ := List.exists_cons_of_ne_nil some_
  refine ⟨fun id => (h.phase id).congr rfl rfl, h.unicast, fun other => ?_⟩
  have inVc := h.inVcs other
  by_cases same : other = vc
  · subst same
    simpa [flits] using inVc
  · simpa [same] using inVc

theorem Kept.step (h : s.Kept p) {event : InterfaceEvent}
    (step : (machine p).step s event = some (.ok t)) : t.Kept p := by
  simp only [machine, Option.ite_none_right_eq_some, Option.some.injEq] at step
  obtain ⟨can, step⟩ := step
  cases event with
  | advance =>
    cases step
    exact ⟨h.phase, h.unicast, h.inVcs⟩
  | enqueue => exact h.enqueue can step
  | wakeup =>
    obtain ⟨ni, woken, rfl⟩ := Script.map_eq_ok.mp step
    exact h.wakeup woken
  | setVc =>
    cases step
    exact ⟨fun id => (h.phase id).congr rfl rfl, h.unicast, h.inVcs⟩
  | sendFlit => exact h.sendFlit can step

theorem reaches_kept (h : (machine p).Reaches (fun _ _ => True) s) : s.Kept p := by
  apply h.invariant (I := Kept p)
  · refine ⟨fun id => .unborn rfl ?_ rfl, ?_, fun vc => rfl⟩
    · rintro ⟨vnet, msg, mem, -⟩
      cases mem
    · intro pkt mem
      cases mem
  · intro s event t kept _ step
    exact kept.step step

/-- Three nodes of two machine types, and two VCs. -/
def twoVcs : Params where
  machines := ⟨2, fun m => m + 1⟩
  virtualNetworks := 1
  vcPerVnet := 2
  deadlockThreshold := 10
  numFlits _ size := size

def toAll : Message := ⟨7, 3, ⟨fun _ _ => true⟩⟩

/-- The VCs run out after two packets. -/
def outOfVcs : List InterfaceEvent :=
  [.enqueue 0 0 toAll, .wakeup fun _ => true]

end InterfaceUse

end Garnet

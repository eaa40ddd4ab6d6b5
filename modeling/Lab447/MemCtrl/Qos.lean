import Lab447.MemCtrl.Bursts

/-!
The queues and their counters. Requests are logged when they come and when they
leave, and `escalate` moves the packets of a requestor to another priority without
losing any.
-/

namespace MemCtrl

open Pools Script

/-- What a memory packet asks for, whoever it is from and whatever its priority. -/
structure Piece where
  pkt : Nat
  addr : Nat
  size : Nat
  burstHelper : Option Nat

def MemPacket.piece (p : MemPacket) : Piece := ⟨p.pkt, p.addr, p.size, p.burstHelper⟩

/-- The failures that are due to a request or to the policies. -/
def Fault.FromOutside (f : Fault) : Prop :=
  f = .neitherReadNorWrite ∨ f = .zeroSize ∨ f = .noBursts ∨ f = .invalidPriority

namespace Ctrl

variable {cfg : Config} {c d e : Ctrl} {r : Bool} {id : RequestorID} {cur tgt prio k : Nat}
  {p : MemPacket}

/-- The part of the controller that is not about priorities. -/
structure Core where
  respQueue : List MemPacket
  isInWriteQueue : Finset Nat
  totalReadQueueSize : Nat
  totalWriteQueueSize : Nat
  burstHelper : Nat → Option BurstHelper
  helpers : Nat
  answered : List Nat

def core (c : Ctrl) : Core :=
  ⟨c.respQueue, c.isInWriteQueue, c.totalReadQueueSize, c.totalWriteQueueSize, c.burstHelper,
    c.helpers, c.answered⟩

/-- Everything in the queues of one direction. -/
def pieces (cfg : Config) (r : Bool) (c : Ctrl) : List Piece :=
  (pool cfg.numPriorities (c.selQueue r)).map MemPacket.piece

/-! ### What the setters do -/

variable {q : Queues} {r' : Bool}

theorem selQueue_setQueue : (c.setQueue r q).selQueue r' = if r' = r then q else c.selQueue r' := by
  cases r <;> cases r' <;> rfl

variable {f : Nat → Nat}

theorem queueSizes_setQueueSizes :
    (c.setQueueSizes r f).queueSizes r' = if r' = r then f else c.queueSizes r' := by
  cases r <;> cases r' <;> rfl

variable {id' : RequestorID}

theorem packetPriorities_setPackets {prio' : Nat} :
    (c.setPackets id prio k).packetPriorities id' prio' =
      if id' = id ∧ prio' = prio then k else c.packetPriorities id' prio' := by
  simp only [setPackets, Function.update_apply]
  by_cases hid : id' = id
  · subst hid
    simp [Function.update_apply]
  · simp [hid]

@[simp] theorem queueSizes_setQueue : (c.setQueue r q).queueSizes r' = c.queueSizes r' := by
  cases r <;> rfl

@[simp] theorem packetPriorities_setQueue :
    (c.setQueue r q).packetPriorities = c.packetPriorities := by
  cases r <;> rfl

@[simp] theorem requestors_setQueue : (c.setQueue r q).requestors = c.requestors := by
  cases r <;> rfl

@[simp] theorem core_setQueue : (c.setQueue r q).core = c.core := by
  cases r <;> rfl

@[simp] theorem selQueue_setQueueSizes : (c.setQueueSizes r f).selQueue r' = c.selQueue r' := by
  cases r <;> rfl

@[simp] theorem packetPriorities_setQueueSizes :
    (c.setQueueSizes r f).packetPriorities = c.packetPriorities := by
  cases r <;> rfl

@[simp] theorem requestors_setQueueSizes : (c.setQueueSizes r f).requestors = c.requestors := by
  cases r <;> rfl

@[simp] theorem core_setQueueSizes : (c.setQueueSizes r f).core = c.core := by
  cases r <;> rfl

@[simp] theorem selQueue_setPackets : (c.setPackets id prio k).selQueue r' = c.selQueue r' := rfl

@[simp] theorem queueSizes_setPackets :
    (c.setPackets id prio k).queueSizes r' = c.queueSizes r' := rfl

@[simp] theorem requestors_setPackets : (c.setPackets id prio k).requestors = c.requestors := rfl

@[simp] theorem core_setPackets : (c.setPackets id prio k).core = c.core := rfl

/-! ### The counters -/

/-- A packet is in the right queue. -/
structure Filed (cfg : Config) (requestors : List RequestorID) (r : Bool) (prio : Nat)
    (p : MemPacket) : Prop where
  read : p.read = r
  qosValue : p.qosValue = prio
  requestor : p.requestorId ∈ requestors
  fits : Fits cfg p.addr p.size

/-- The packets of a requestor in a queue. -/
def packetsOf (id : RequestorID) (l : List MemPacket) : Nat := l.countP (·.requestorId = id)

/-- The counters say how many packets there are. -/
structure Counted (cfg : Config) (c : Ctrl) : Prop where
  sizes : ∀ r prio, c.queueSizes r prio = (c.selQueue r prio).length
  packets : ∀ id prio, c.packetPriorities id prio =
    packetsOf id (c.selQueue true prio) + packetsOf id (c.selQueue false prio)
  filed : ∀ r prio, ∀ p ∈ c.selQueue r prio, Filed cfg c.requestors r prio p

theorem Counted.start : Counted cfg .start where
  sizes r prio := by cases r <;> rfl
  packets id prio := rfl
  filed r prio p hp := by cases r <;> cases hp

theorem Counted.packetsOf_le (h : Counted cfg c) (r : Bool) (id : RequestorID) (prio : Nat) :
    packetsOf id (c.selQueue r prio) ≤ c.packetPriorities id prio := by
  rw [h.packets]
  cases r <;> omega

theorem packetsOf_le_length (id : RequestorID) (l : List MemPacket) : packetsOf id l ≤ l.length :=
  List.countP_le_length

/-- The counters depend on the queues and the requestors only. -/
theorem Counted.congr (h : Counted cfg c) (hq : ∀ r, d.selQueue r = c.selQueue r)
    (hs : ∀ r, d.queueSizes r = c.queueSizes r) (hp : d.packetPriorities = c.packetPriorities)
    (hr : d.requestors = c.requestors) : Counted cfg d where
  sizes r prio := by rw [hs, hq]; exact h.sizes r prio
  packets id prio := by rw [hp, hq, hq]; exact h.packets id prio
  filed r prio p hm := by rw [hr]; rw [hq] at hm; exact h.filed r prio p hm

theorem mem_addRequestor :
    id' ∈ (c.addRequestor id).requestors ↔ id' = id ∨ id' ∈ c.requestors := by
  unfold addRequestor
  split
  · rename_i known
    constructor
    · exact .inr
    · rintro (rfl | h)
      · exact known
      · exact h
  · simp [or_comm]

/-- A new requestor has no packets yet. -/
theorem Counted.addRequestor (h : Counted cfg c) (id : RequestorID) :
    Counted cfg (c.addRequestor id) := by
  have known : ∀ id' ∈ c.requestors, id' ∈ (c.addRequestor id).requestors :=
    fun id' hm => mem_addRequestor.mpr (.inr hm)
  have queues : ∀ r, (c.addRequestor id).selQueue r = c.selQueue r := by
    intro r
    unfold Ctrl.addRequestor
    split <;> rfl
  constructor
  case sizes =>
    intro r prio
    rw [queues, ← h.sizes]
    unfold Ctrl.addRequestor
    split <;> rfl
  case packets =>
    intro id' prio
    rw [queues, queues, ← h.packets]
    unfold Ctrl.addRequestor
    split
    · rfl
    · rename_i new
      by_cases hid : id' = id
      · subst hid
        have absent : ∀ r, packetsOf id' (c.selQueue r prio) = 0 := by
          intro r
          apply List.countP_eq_zero.mpr
          intro p hp
          have hr := (h.filed r prio p hp).requestor
          simp only [decide_eq_true_eq]
          rintro rfl
          exact new hr
        simp [h.packets, absent]
      · simp [hid]
  case filed =>
    intro r prio p hp
    rw [queues] at hp
    exact { h.filed r prio p hp with requestor := known _ (h.filed r prio p hp).requestor }

@[simp] theorem core_addRequestor : (c.addRequestor id).core = c.core := by
  unfold addRequestor
  split <;> rfl

@[simp] theorem selQueue_addRequestor : (c.addRequestor id).selQueue r' = c.selQueue r' := by
  unfold addRequestor
  split <;> rfl

/-! ### Logging -/

/-- One queue has changed, and its counters have. -/
theorem Counted.change (h : Counted cfg c) (r : Bool) (prio : Nat) (l : List MemPacket)
    (queue : ∀ r' prio', d.selQueue r' prio' =
      if r' = r ∧ prio' = prio then l else c.selQueue r' prio')
    (sizes : ∀ r' prio', d.queueSizes r' prio' =
      if r' = r ∧ prio' = prio then l.length else c.queueSizes r' prio')
    (packets : ∀ id' prio', d.packetPriorities id' prio' +
        (if prio' = prio then packetsOf id' (c.selQueue r prio) else 0) =
      c.packetPriorities id' prio' + if prio' = prio then packetsOf id' l else 0)
    (filed : ∀ p ∈ l, Filed cfg d.requestors r prio p)
    (known : ∀ id' ∈ c.requestors, id' ∈ d.requestors) : Counted cfg d := by
  constructor
  case sizes =>
    intro r' prio'
    rw [sizes, queue]
    split
    · rfl
    · exact h.sizes r' prio'
  case packets =>
    intro id' prio'
    have moved := packets id' prio'
    rw [h.packets] at moved
    rw [queue, queue]
    by_cases hp : prio' = prio
    · subst hp
      cases r
      · simp only [if_true, and_true, Bool.true_eq_false, if_false] at moved ⊢
        omega
      · simp only [if_true, and_true, Bool.false_eq_true, if_false] at moved ⊢
        omega
    · simpa [hp] using moved
  case filed =>
    intro r' prio' p hp
    rw [queue] at hp
    split at hp
    · rename_i at_queue
      obtain ⟨rfl, rfl⟩ := at_queue
      exact filed p hp
    · have old := h.filed r' prio' p hp
      exact { old with requestor := known _ old.requestor }

/-- The totals of the two directions. -/
def total (r : Bool) (c : Core) : Nat := if r then c.totalReadQueueSize else c.totalWriteQueueSize

def setTotal (r : Bool) (n : Nat) (c : Core) : Core :=
  if r then { c with totalReadQueueSize := n } else { c with totalWriteQueueSize := n }

theorem addRequestor_setQueue :
    (c.setQueue r q).addRequestor id = (c.addRequestor id).setQueue r q := by
  unfold addRequestor
  rw [requestors_setQueue]
  split
  · rfl
  · cases r <;> rfl

/-- The requestor may be registered before the packet is put into its queue. -/
theorem enqueue_eq (r : Bool) (p : MemPacket) (c : Ctrl) : c.enqueue r p =
    let d := c.addRequestor p.requestorId
    (((d.setQueue r (pushBack p (c.selQueue r))).setQueueSizes r
      (Function.update (d.queueSizes r) p.qosValue (d.queueSizes r p.qosValue + 1))).addTotal
        r).setPackets p.requestorId p.qosValue
          (d.packetPriorities p.requestorId p.qosValue + 1) := by
  rw [enqueue, logRequest, addRequestor_setQueue]
  cases r <;> rfl

theorem core_enqueue : (c.enqueue r p).core = setTotal r (total r c.core + 1) c.core := by
  have same : (c.addRequestor p.requestorId).core = c.core := core_addRequestor
  rw [← same, enqueue_eq]
  cases r <;> rfl

theorem core_enqueue_read (p : MemPacket) (c : Ctrl) : (c.enqueue true p).core =
    { c.core with totalReadQueueSize := c.totalReadQueueSize + 1 } := core_enqueue

theorem core_enqueue_write (p : MemPacket) (c : Ctrl) : (c.enqueue false p).core =
    { c.core with totalWriteQueueSize := c.totalWriteQueueSize + 1 } := core_enqueue

theorem selQueue_enqueue : (c.enqueue r p).selQueue r' =
    if r' = r then pushBack p (c.selQueue r) else c.selQueue r' := by
  have same : (c.addRequestor p.requestorId).selQueue r' = c.selQueue r' := selQueue_addRequestor
  rw [← same, enqueue_eq]
  cases r <;> cases r' <;> rfl

theorem Counted.enqueue (h : Counted cfg c) (read : p.read = r) (fits : Fits cfg p.addr p.size) :
    Counted cfg (c.enqueue r p) := by
  have added := h.addRequestor p.requestorId
  have known : (c.enqueue r p).requestors = (c.addRequestor p.requestorId).requestors := by
    rw [enqueue_eq]
    cases r <;> rfl
  have packets : ∀ id' prio', (c.enqueue r p).packetPriorities id' prio' =
      (c.addRequestor p.requestorId).packetPriorities id' prio' +
        if id' = p.requestorId ∧ prio' = p.qosValue then 1 else 0 := by
    intro id' prio'
    rw [enqueue_eq, packetPriorities_setPackets]
    split
    · rename_i at_queue
      rw [at_queue.1, at_queue.2]
    · cases r <;> rfl
  have sizes : ∀ r', (c.enqueue r p).queueSizes r' = if r' = r then
      Function.update ((c.addRequestor p.requestorId).queueSizes r) p.qosValue
        ((c.addRequestor p.requestorId).queueSizes r p.qosValue + 1)
      else (c.addRequestor p.requestorId).queueSizes r' := by
    intro r'
    rw [enqueue_eq]
    cases r <;> cases r' <;> rfl
  apply added.change r p.qosValue (c.selQueue r p.qosValue ++ [p])
  · intro r' prio'
    rw [selQueue_enqueue, selQueue_addRequestor]
    by_cases hr : r' = r
    · subst hr
      simp [pushBack, Function.update_apply]
    · simp [hr]
  · intro r' prio'
    rw [sizes]
    by_cases hr : r' = r
    · subst hr
      simp [Function.update_apply, added.sizes]
    · simp [hr]
  · intro id' prio'
    rw [packets, selQueue_addRequestor]
    by_cases hp : prio' = p.qosValue
    · subst hp
      by_cases hid : p.requestorId = id'
      · subst hid
        simp only [packetsOf, List.countP_append, List.countP_singleton, and_self, if_true,
          decide_true]
        omega
      · simp [packetsOf, hid, Ne.symm hid]
    · simp [hp]
  · rw [known]
    intro p' hp
    obtain hp | hp := List.mem_append.mp hp
    · have old := h.filed r p.qosValue p' hp
      exact { old with requestor := mem_addRequestor.mpr (.inr old.requestor) }
    · cases List.mem_singleton.mp hp
      exact ⟨read, rfl, mem_addRequestor.mpr (.inl rfl), fits⟩
  · rw [known]
    exact fun id' hid => hid

theorem pieces_enqueue (hp : p.qosValue < cfg.numPriorities) : ((c.enqueue r p).pieces cfg r').Perm
      (if r' = r then p.piece :: c.pieces cfg r else c.pieces cfg r') := by
  rw [pieces, selQueue_enqueue]
  split
  · have pushed : (pool cfg.numPriorities (pushBack p (c.selQueue r))).Perm
        (p :: pool cfg.numPriorities (c.selQueue r)) := by
      apply pool_update [] [p] hp
      rw [List.nil_append]
      exact List.perm_append_comm
    exact pushed.map _
  · rfl

/-- A packet has left its queue. -/
structure Dequeued (cfg : Config) (r : Bool) (p : MemPacket) (c d : Ctrl) : Prop where
  counted : Counted cfg d
  taken : (c.pieces cfg r).Perm (p.piece :: d.pieces cfg r)
  others : ∀ r', r' ≠ r → d.pieces cfg r' = c.pieces cfg r'
  core : d.core = setTotal r (total r c.core - 1) c.core

/-- The response is logged before the packet leaves its queue. -/
theorem logResponse_ok (h : Counted cfg c) (hn : prio < cfg.numPriorities)
    (hk : (c.selQueue r prio)[k]? = some p) :
    ∃ d, c.logResponse r p.requestorId p.qosValue = .ok d ∧
      (∀ r', d.selQueue r' = c.selQueue r') ∧ Dequeued cfg r p c (d.setQueue r
        (Function.update (c.selQueue r) prio ((c.selQueue r prio).eraseIdx k))) := by
  have filed := h.filed r prio p (List.mem_of_getElem? hk)
  have perm := perm_eraseIdx hk
  have count : ∀ id', packetsOf id' (c.selQueue r prio) =
      packetsOf id' ((c.selQueue r prio).eraseIdx k) + if p.requestorId = id' then 1 else 0 := by
    intro id'
    rw [packetsOf, perm.countP_eq, List.countP_cons]
    simp [packetsOf]
  have positive : 0 < c.packetPriorities p.requestorId prio := by
    have atMost := h.packetsOf_le r p.requestorId prio
    rw [count, if_pos rfl] at atMost
    omega
  let d := ((c.setQueueSizes r (Function.update (c.queueSizes r) prio
    (c.queueSizes r prio - 1))).subTotal r).setPackets p.requestorId prio
      (c.packetPriorities p.requestorId prio - 1)
  have hd : c.logResponse r p.requestorId p.qosValue = .ok d := by
    rw [filed.qosValue, logResponse, if_neg (by simpa using filed.requestor)]
    have same : ((c.setQueueSizes r (Function.update (c.queueSizes r) prio
        (c.queueSizes r prio - 1))).subTotal r).packetPriorities = c.packetPriorities := by
      cases r <;> rfl
    simp only [same]
    rw [if_neg positive.ne']
  have queues : ∀ r', d.selQueue r' = c.selQueue r' := by
    intro r'
    cases r <;> rfl
  refine ⟨d, hd, queues, ?_, ?_, ?_, ?_⟩
  · apply h.change r prio ((c.selQueue r prio).eraseIdx k)
    · intro r' prio'
      rw [selQueue_setQueue, queues]
      by_cases hr : r' = r
      · subst hr
        simp [Function.update_apply]
      · simp [hr]
    · intro r' prio'
      have step : d.queueSizes r' = if r' = r then
          Function.update (c.queueSizes r) prio (c.queueSizes r prio - 1)
          else c.queueSizes r' := by
        cases r <;> cases r' <;> rfl
      have length := perm.length_eq
      rw [queueSizes_setQueue, step]
      by_cases hr : r' = r
      · subst hr
        by_cases hp : prio' = prio
        · subst hp
          simp [h.sizes, length]
        · simp [hp]
      · simp [hr]
    · intro id' prio'
      have step : d.packetPriorities = (c.setPackets p.requestorId prio
          (c.packetPriorities p.requestorId prio - 1)).packetPriorities := by
        cases r <;> rfl
      rw [packetPriorities_setQueue, step, packetPriorities_setPackets, count id']
      by_cases hp : prio' = prio
      · subst hp
        by_cases hid : p.requestorId = id'
        · subst hid
          simp
          omega
        · simp [hid, Ne.symm hid]
      · simp [hp]
    · intro p' hp
      have old := h.filed r prio p' (List.mem_of_mem_eraseIdx hp)
      cases r <;> exact old
    · intro id' hid
      cases r <;> exact hid
  · have taken := pool_update [p] [] hn perm.symm
    rw [pieces, pieces, selQueue_setQueue, if_pos rfl]
    exact (taken.map MemPacket.piece).symm
  · intro r' hr
    rw [pieces, pieces, selQueue_setQueue, if_neg hr, queues]
  · cases r <;> rfl

/-! ### Escalation -/

/-- Only priorities are different. -/
structure Requeued (cfg : Config) (c d : Ctrl) : Prop where
  pieces : ∀ r, (d.pieces cfg r).Perm (c.pieces cfg r)
  core : d.core = c.core

theorem Requeued.refl (c : Ctrl) : Requeued cfg c c := ⟨fun _ => .rfl, rfl⟩

theorem Requeued.trans (h : Requeued cfg c d) (h' : Requeued cfg d e) : Requeued cfg c e :=
  ⟨fun r => (h'.pieces r).trans (h.pieces r), h'.core.trans h.core⟩

theorem Requeued.addRequestor (c : Ctrl) (id : RequestorID) :
    Requeued cfg c (c.addRequestor id) :=
  ⟨fun r => by rw [Ctrl.pieces, selQueue_addRequestor]; exact .rfl, core_addRequestor⟩

/-- The counters of `k` packets were moved. -/
structure Shifted (r : Bool) (id : RequestorID) (cur tgt k : Nat) (c d : Ctrl) : Prop where
  sizes : ∀ r' prio, d.queueSizes r' prio =
    if r' = r ∧ prio = tgt then c.queueSizes r' prio + k
    else if r' = r ∧ prio = cur then c.queueSizes r' prio - k
    else c.queueSizes r' prio
  packets : ∀ id' prio, d.packetPriorities id' prio =
    if id' = id ∧ prio = tgt then c.packetPriorities id' prio + k
    else if id' = id ∧ prio = cur then c.packetPriorities id' prio - k
    else c.packetPriorities id' prio
  queues : ∀ r', d.selQueue r' = c.selQueue r'
  requestors : d.requestors = c.requestors
  core : d.core = c.core

theorem Shifted.none : Shifted r id cur tgt 0 c c where
  sizes r' prio := by simp
  packets id' prio := by simp
  queues _ := rfl
  requestors := rfl
  core := rfl

theorem Shifted.add {j : Nat} (h : Shifted r id cur tgt j c d) (h' : Shifted r id cur tgt k d e) :
    Shifted r id cur tgt (j + k) c e where
  sizes r' prio := by
    rw [h'.sizes, h.sizes]
    split_ifs <;> omega
  packets id' prio := by
    rw [h'.packets, h.packets]
    split_ifs <;> omega
  queues r' := (h'.queues r').trans (h.queues r')
  requestors := h'.requestors.trans h.requestors
  core := h'.core.trans h.core

theorem shiftEntries_shifted (hne : cur ≠ tgt) (r : Bool) (id : RequestorID) (k : Nat) (c : Ctrl) :
    Shifted r id cur tgt k c (c.shiftEntries r id cur tgt k) where
  sizes r' prio := by
    simp only [shiftEntries, queueSizes_setPackets, queueSizes_setQueueSizes]
    by_cases hr : r' = r
    · subst hr
      by_cases ht : prio = tgt
      · subst ht
        simp [hne.symm]
      · by_cases hc : prio = cur
        · subst hc
          simp [ht]
        · simp [ht, hc]
    · simp [hr]
  packets id' prio := by
    simp only [shiftEntries, packetPriorities_setPackets, packetPriorities_setQueueSizes]
    by_cases hid : id' = id
    · subst hid
      by_cases ht : prio = tgt
      · subst ht
        simp [hne.symm]
      · by_cases hc : prio = cur
        · subst hc
          simp [ht]
        · simp [ht, hc]
    · simp [hid]
  queues r' := by simp [shiftEntries]
  requestors := by simp [shiftEntries]
  core := by simp [shiftEntries]

/-- The packets of the requestor are moved, one after the other. -/
theorem escalateFrom_ok (hne : cur ≠ tgt) {l : List MemPacket}
    (hl : ∀ p ∈ l, p.read = r ∧ divCeil p.size cfg.bytesPerBurst = 1)
    (hs : packetsOf id l ≤ c.queueSizes r cur) (hp : packetsOf id l ≤ c.packetPriorities id cur) :
    ∃ d, escalateFrom cfg id cur tgt l c = .ok (l.filter (·.requestorId ≠ id),
        (l.filter (·.requestorId = id)).map (·.setQosValue tgt), d) ∧
      Shifted r id cur tgt (packetsOf id l) c d := by
  induction l generalizing c with
  | nil => exact ⟨c, rfl, .none⟩
  | cons p ps ih =>
    have tail : ∀ q ∈ ps, q.read = r ∧ divCeil q.size cfg.bytesPerBurst = 1 :=
      fun q hq => hl q (.tail p hq)
    rw [escalateFrom]
    split
    · -- the loop is left, as there is nothing more to move
      have absent : packetsOf id (p :: ps) = 0 := by omega
      have others : ∀ q ∈ p :: ps, ¬ q.requestorId = id := by
        simpa [packetsOf, List.countP_eq_zero] using absent
      refine ⟨c, ?_, by rw [absent]; exact .none⟩
      rw [List.filter_eq_self.mpr fun q hq => by simp [others q hq],
        List.filter_eq_nil_iff.mpr fun q hq => by simp [others q hq], List.map_nil]
    · by_cases hid : p.requestorId = id
      · have more : packetsOf id (p :: ps) = 1 + packetsOf id ps := by
          simp [packetsOf, hid, Nat.add_comm]
        have first := shiftEntries_shifted hne r id 1 c
        obtain ⟨d, hd, shifted⟩ := ih tail
          (by rw [first.sizes, if_neg (by simp [hne]), if_pos (by simp)]; omega)
          (by rw [first.packets, if_neg (by simp [hne]), if_pos (by simp)]; omega)
        refine ⟨d, ?_, by rw [more]; exact first.add shifted⟩
        rw [if_pos hid, (hl p (.head ps)).1, (hl p (.head ps)).2, moveEntries,
          if_neg (by omega), if_neg (by omega), Except.bind, hd]
        rw [List.filter_cons_of_neg (by simp [hid]), List.filter_cons_of_pos (by simp [hid])]
        rfl
      · have same : packetsOf id (p :: ps) = packetsOf id ps := by simp [packetsOf, hid]
        rw [same] at hs hp
        obtain ⟨d, hd, shifted⟩ := ih tail hs hp
        refine ⟨d, ?_, by rw [same]; exact shifted⟩
        rw [if_neg hid, hd]
        rw [List.filter_cons_of_pos (by simp [hid]), List.filter_cons_of_neg (by simp [hid])]
        rfl

theorem packetsOf_filter_ne (id id' : RequestorID) (l : List MemPacket) :
    packetsOf id' (l.filter (·.requestorId ≠ id)) = if id' = id then 0 else packetsOf id' l := by
  rw [packetsOf, List.countP_filter]
  split
  · rename_i h
    simp [h]
  · rename_i h
    apply List.countP_congr
    intro p _
    simp only [Bool.and_eq_true, decide_eq_true_eq, and_iff_left_iff_imp]
    rintro rfl
    exact h

theorem packetsOf_moved (id id' : RequestorID) (tgt : Nat) (l : List MemPacket) :
    packetsOf id' ((l.filter (·.requestorId = id)).map (·.setQosValue tgt)) =
      if id' = id then packetsOf id l else 0 := by
  rw [packetsOf, List.countP_map, List.countP_filter]
  split
  · rename_i h
    apply List.countP_congr
    simp [h, MemPacket.setQosValue]
  · rename_i h
    apply List.countP_eq_zero.mpr
    intro p _
    simp only [Function.comp_apply, Bool.and_eq_true, decide_eq_true_eq, not_and]
    rintro rfl
    exact h

theorem moveQueue_apply {kept moved : List MemPacket} : moveQueue cur tgt kept moved q prio =
      if prio = tgt then q prio ++ moved else if prio = cur then kept else q prio := by
  simp only [moveQueue, Function.update_apply]
  split_ifs <;> simp_all

/-- The queues after the packets of a requestor were moved. -/
def moveAll (id : RequestorID) (cur tgt : Nat) (q : Queues) : Queues :=
  moveQueue cur tgt ((q cur).filter (·.requestorId ≠ id))
    (((q cur).filter (·.requestorId = id)).map (·.setQosValue tgt)) q

theorem length_moveAll : (moveAll id cur tgt q prio).length =
    if prio = tgt then (q prio).length + packetsOf id (q cur)
    else if prio = cur then (q prio).length - packetsOf id (q cur)
    else (q prio).length := by
  have split : ((q cur).filter (·.requestorId ≠ id)).length =
      (q cur).length - packetsOf id (q cur) := by
    have both :=
      (List.filter_append_perm (fun p => decide (p.requestorId = id)) (q cur)).length_eq
    rw [List.length_append, ← List.countP_eq_length_filter] at both
    simp only [packetsOf, decide_not, ne_eq] at both ⊢
    omega
  rw [moveAll, moveQueue_apply]
  split_ifs with h₁ h₂
  · rw [List.length_append, List.length_map, packetsOf, List.countP_eq_length_filter]
  · rw [h₂, split]
  · rfl

theorem packetsOf_moveAll : packetsOf id' (moveAll id cur tgt q prio) =
      if id' = id ∧ prio = tgt then packetsOf id' (q prio) + packetsOf id (q cur)
      else if id' = id ∧ prio = cur then packetsOf id' (q prio) - packetsOf id (q cur)
      else packetsOf id' (q prio) := by
  rw [moveAll, moveQueue_apply]
  by_cases h₁ : prio = tgt
  · have both : packetsOf id' (q prio ++ ((q cur).filter (·.requestorId = id)).map
        (·.setQosValue tgt)) = packetsOf id' (q prio) + _ := List.countP_append
    simp only [h₁, and_true, if_true] at both ⊢
    rw [both, ← packetsOf, packetsOf_moved]
    by_cases hid : id' = id
    · simp [hid]
    · simp only [hid, false_and, if_false, Nat.add_zero]
  · simp only [h₁, and_false, if_false]
    by_cases h₂ : prio = cur
    · subst h₂
      rw [if_pos rfl, packetsOf_filter_ne]
      by_cases hid : id' = id
      · simp [hid]
      · simp [hid]
    · simp only [h₂, and_false, if_false]

theorem mem_moveAll (h : p ∈ moveAll id cur tgt q prio) :
    p ∈ q prio ∨ prio = tgt ∧ ∃ p' ∈ q cur, p'.setQosValue tgt = p := by
  rw [moveAll, moveQueue_apply] at h
  split_ifs at h with h₁ h₂
  · obtain h | h := List.mem_append.mp h
    · exact .inl h
    · obtain ⟨p', hp, rfl⟩ := List.mem_map.mp h
      exact .inr ⟨h₁, p', (List.mem_filter.mp hp).1, rfl⟩
  · subst h₂
    exact .inl (List.mem_filter.mp h).1
  · exact .inl h

theorem pool_moveAll (hne : cur ≠ tgt) (hc : cur < cfg.numPriorities)
    (ht : tgt < cfg.numPriorities) (q : Queues) :
    ((pool cfg.numPriorities (moveAll id cur tgt q)).map MemPacket.piece).Perm
      ((pool cfg.numPriorities q).map MemPacket.piece) := by
  have split : (((q cur).filter (·.requestorId = id)).map MemPacket.piece ++
      ((q cur).filter (·.requestorId ≠ id)).map MemPacket.piece).Perm
      ((q cur).map MemPacket.piece) := by
    rw [← List.map_append]
    apply List.Perm.map
    simpa using List.filter_append_perm (fun p => decide (p.requestorId = id)) (q cur)
  have moved := pool_move (q := fun k => (q k).map MemPacket.piece) hc ht hne split
  rw [map_pool, map_pool]
  convert moved using 2
  funext prio
  simp only [moveAll, moveQueue_apply, Function.update_apply]
  split_ifs with h₁ h₂
  · subst h₁
    simp [MemPacket.setQosValue, MemPacket.piece, Function.comp_def]
  · rfl
  · rfl

/-- The counters follow the packets. -/
theorem Counted.move (h : Counted cfg c)
    (shifted : Shifted r id cur tgt (packetsOf id (c.selQueue r cur)) c d) :
    Counted cfg (d.setQueue r (moveAll id cur tgt (c.selQueue r))) := by
  constructor
  case sizes =>
    intro r' prio
    rw [queueSizes_setQueue, shifted.sizes, selQueue_setQueue, shifted.queues, h.sizes]
    by_cases hr : r' = r
    · subst hr
      simp [length_moveAll]
    · simp [hr]
  case packets =>
    intro id' prio
    rw [packetPriorities_setQueue, shifted.packets, selQueue_setQueue, selQueue_setQueue,
      shifted.queues, shifted.queues, h.packets]
    cases r
    · simp only [Bool.true_eq_false, if_false, if_true, packetsOf_moveAll]
      split_ifs with h₁ h₂
      · omega
      · rw [h₂.1, h₂.2]
        omega
      · rfl
    · simp only [Bool.false_eq_true, if_false, if_true, packetsOf_moveAll]
      split_ifs with h₁ h₂
      · omega
      · rw [h₂.1, h₂.2]
        omega
      · rfl
  case filed =>
    intro r' prio p hp
    rw [requestors_setQueue, shifted.requestors]
    rw [selQueue_setQueue, shifted.queues] at hp
    split at hp
    · rename_i hr
      subst hr
      obtain hp | ⟨rfl, p', hp', rfl⟩ := mem_moveAll hp
      · exact h.filed r' prio p hp
      · exact { h.filed r' cur p' hp' with qosValue := rfl }
    · exact h.filed r' prio p hp

/-- `escalateQueues` moves every packet of the requestor and no other. -/
theorem escalateQueues_ok (h : Counted cfg c) (hne : cur ≠ tgt) (hc : cur < cfg.numPriorities)
    (ht : tgt < cfg.numPriorities) (r : Bool) (id : RequestorID) :
    ∃ d, c.escalateQueues cfg r id cur tgt = .ok d ∧ Counted cfg d ∧ Requeued cfg c d ∧
      packetsOf id (d.selQueue r cur) = 0 ∧ ∀ r', r' ≠ r → d.selQueue r' = c.selQueue r' := by
  have filed := h.filed r cur
  obtain ⟨d, hd, shifted⟩ : ∃ d, escalateFrom cfg id cur tgt (c.selQueue r cur) c = .ok (_, _, d) ∧
      Shifted r id cur tgt (packetsOf id (c.selQueue r cur)) c d :=
    escalateFrom_ok hne (fun p hp => ⟨(filed p hp).read, (filed p hp).fits.divCeil_eq⟩)
      (by rw [h.sizes]; exact packetsOf_le_length id _) (h.packetsOf_le r id cur)
  refine ⟨d.setQueue r (moveAll id cur tgt (c.selQueue r)), ?_, h.move shifted, ?_, ?_, ?_⟩
  · rw [escalateQueues, hd, ← shifted.queues]
    rfl
  · constructor
    · intro r'
      rw [pieces, pieces, selQueue_setQueue, shifted.queues]
      split
      · rename_i hr
        subst hr
        exact pool_moveAll hne hc ht _
      · exact .rfl
    · rw [core_setQueue, shifted.core]
  · rw [selQueue_setQueue, if_pos rfl, packetsOf_moveAll, if_neg (by simp [hne]),
      if_pos ⟨rfl, rfl⟩, Nat.sub_self]
  · intro r' hr
    rw [selQueue_setQueue, if_neg hr, shifted.queues]

/-- One round of the loop in `escalate` is enough. -/
theorem escalatePrio_ends (h : Counted cfg c) (hne : cur ≠ tgt) (hc : cur < cfg.numPriorities)
    (id : RequestorID) :
    Ends Fault.FromOutside (fun d => Counted cfg d ∧ Requeued cfg c d)
      (escalatePrio cfg id cur tgt (c.packetPriorities id cur + 1) c) := by
  rw [escalatePrio]
  split
  · exact ⟨h, .refl c⟩
  · rename_i busy
    split
    · exact .inr (.inr (.inr rfl))
    · rename_i ht
      obtain ⟨d, hd, counted, moved, gone, -⟩ :=
        escalateQueues_ok h hne hc (Nat.not_le.mp ht) true id
      obtain ⟨e, he, counted', moved', gone', same⟩ :=
        escalateQueues_ok counted hne hc (Nat.not_le.mp ht) false id
      have done : e.packetPriorities id cur = 0 := by
        rw [counted'.packets, gone', same true (by simp), gone]
      obtain ⟨fuel, hfuel⟩ := Nat.exists_eq_succ_of_ne_zero busy
      rw [hd, Except.bind, he, Except.bind, hfuel, escalatePrio, if_pos done]
      exact ⟨counted', moved.trans moved'⟩

theorem escalate_ends (h : Counted cfg c) (id : RequestorID) (tgt : Nat) :
    Ends Fault.FromOutside (fun d => Counted cfg d ∧ Requeued cfg c d) (c.escalate cfg id tgt) := by
  apply Ends.run ⟨h.addRequestor id, .addRequestor c id⟩
  rintro cur hm d ⟨counted, moved⟩
  obtain ⟨hc, hne⟩ := List.mem_filter.mp hm
  apply (escalatePrio_ends counted (of_decide_eq_true hne) (List.mem_range.mp hc) id).imp
  exact fun e he => ⟨he.1, moved.trans he.2⟩

/-- The scheduler only gives the packet its priority and changes those of others. -/
theorem qosSchedule_ends (h : Counted cfg c) (priority : Nat) (others : RequestorID → Nat)
    (pkt : Packet) :
    Ends Fault.FromOutside (fun x => x.1 = { pkt with qosValue := priority } ∧
        priority < cfg.numPriorities ∧ Counted cfg x.2 ∧ Requeued cfg c x.2)
      (c.qosSchedule cfg priority others pkt) := by
  unfold qosSchedule
  split
  · exact .inr (.inr (.inr rfl))
  · rename_i valid
    have synced : Ends Fault.FromOutside (fun d => Counted cfg d ∧ Requeued cfg c d)
        (if cfg.qosSyncroScheduler && cfg.qosPriorityEscalation then
          Script.run (fun id c => c.escalate cfg id (others id))
            (c.requestors.filter (· ≠ pkt.requestorId)) c
        else .ok c) := by
      split
      · apply Ends.run ⟨h, .refl c⟩
        rintro id - d ⟨counted, moved⟩
        apply (escalate_ends counted id (others id)).imp
        exact fun e he => ⟨he.1, moved.trans he.2⟩
      · exact ⟨h, .refl c⟩
    apply synced.bind
    rintro d ⟨counted, moved⟩
    split
    · apply (escalate_ends counted pkt.requestorId priority).map
      exact fun e he => ⟨rfl, Nat.not_le.mp valid, he.1, moved.trans he.2⟩
    · exact ⟨rfl, Nat.not_le.mp valid, counted, moved⟩

end Ctrl

end MemCtrl

import Mathlib
import Lab447.Lib.Machine
import Lab447.Classic.Packet

/-!
The queue of deferred packets of a port, `gem5/src/mem/packet_queue.cc`, with its
peer and the event queue around it. Draining, functional accesses and
`checkConflict` are left out.
-/

namespace Classic

def Packet.matchAddr (pkt other : Packet) : Bool :=
  decide (pkt.addr = other.addr) && decide (pkt.isSecure = other.isSecure)

def MaxTick : Nat := 0xffffffffffffffff

structure DeferredPacket where
  tick : Nat
  pkt : Packet
  deriving DecidableEq

/-- `sendEvent` is the tick it is scheduled for. -/
structure PacketQueue where
  forceOrder : Bool
  disableSanityCheck : Bool
  transmitList : List DeferredPacket := []
  sendEvent : Option Nat := none
  waitingOnRetry : Bool := false
  deriving DecidableEq

/-- The function whose assertion fails, the limit on the size of the queue, or an
event that is scheduled in the past. -/
inductive PacketQueueFault where
  | schedSendTiming | sanityCheck | schedSendEvent | schedule | retry | sendDeferredPacket
  | processSendEvent
  deriving DecidableEq

namespace DeferredPacket

/-- `dp` stays in front of `new`. -/
def stops (forceOrder : Bool) (new dp : DeferredPacket) : Bool :=
  forceOrder && dp.pkt.matchAddr new.pkt || decide (dp.tick ≤ new.tick)

/-- `new` right after the last packet that stops it, if there is one. -/
def place (forceOrder : Bool) (new : DeferredPacket) :
    List DeferredPacket → Option (List DeferredPacket)
  | [] => none
  | dp :: rest =>
    match place forceOrder new rest with
    | some placed => some (dp :: placed)
    | none => if stops forceOrder new dp then some (dp :: new :: rest) else none

end DeferredPacket

namespace PacketQueue

variable (q : PacketQueue) (curTick : Nat)

/-- Both `schedule` and `reschedule` assert that the event is not in the past. -/
def schedule (when : Nat) : Except PacketQueueFault PacketQueue :=
  if curTick ≤ when then .ok { q with sendEvent := some when } else .error .schedule

def schedSendEvent (when : Nat) : Except PacketQueueFault PacketQueue :=
  if q.waitingOnRetry then
    if q.sendEvent.isSome then .error .schedSendEvent else .ok q
  else if when ≠ MaxTick then
    let when := max when ((curTick + 1) % 2 ^ 64)
    match q.sendEvent with
    | none => q.schedule curTick when
    | some scheduled => if when < scheduled then q.schedule curTick when else .ok q
  else .ok q

def schedSendTiming (pkt : Packet) (when : Nat) : Except PacketQueueFault PacketQueue :=
  if when < curTick ∨ pkt.flags.expressSnoop then .error .schedSendTiming
  else if !q.disableSanityCheck && decide (128 < q.transmitList.length) then .error .sanityCheck
  else
    match DeferredPacket.place q.forceOrder ⟨when, pkt⟩ q.transmitList with
    | some placed => .ok { q with transmitList := placed }
    | none => { q with transmitList := ⟨when, pkt⟩ :: q.transmitList }.schedSendEvent curTick when

def deferredPacketReadyTime : Nat :=
  match q.transmitList with
  | [] => MaxTick
  | dp :: _ => dp.tick

/-- `accepts` is what `sendTiming` returns. -/
def sendDeferredPacket (accepts : Bool) : Except PacketQueueFault PacketQueue :=
  if q.waitingOnRetry then .error .sendDeferredPacket
  else
    match q.transmitList with
    | [] => .error .sendDeferredPacket
    | dp :: rest =>
      if dp.tick ≤ curTick then
        let q := { q with transmitList := rest, waitingOnRetry := !accepts }
        if accepts then q.schedSendEvent curTick q.deferredPacketReadyTime
        else .ok { q with transmitList := dp :: q.transmitList }
      else .error .sendDeferredPacket

def processSendEvent (accepts : Bool) : Except PacketQueueFault PacketQueue :=
  if q.waitingOnRetry then .error .processSendEvent else q.sendDeferredPacket curTick accepts

def retry (accepts : Bool) : Except PacketQueueFault PacketQueue :=
  if q.waitingOnRetry then { q with waitingOnRetry := false }.sendDeferredPacket curTick accepts
  else .error .retry

end PacketQueue

/-- A queue with the retry that its peer owes it, and with all packets it was given
and those the peer took, each with the tick at which it did. -/
structure PacketQueueUse where
  queue : PacketQueue
  curTick : Nat := 0
  owed : Bool := false
  scheduled : List DeferredPacket := []
  accepted : List (DeferredPacket × Nat) := []
  deriving DecidableEq

inductive PacketQueueCall where
  | advance (tick : Nat)
  | schedSendTiming (pkt : Packet) (when : Nat)
  | sendEvent (accepts : Bool)
  | retry (accepts : Bool)

namespace PacketQueueUse

variable (s : PacketQueueUse)

/-- Ticks have 64 bits, time stops at a scheduled event, and the peer sends one
retry for each packet it refused. -/
def possible : PacketQueueCall → Bool
  | .advance tick =>
    decide (s.curTick ≤ tick) && decide (tick ≤ MaxTick) &&
      decide (∀ t, s.queue.sendEvent = some t → tick ≤ t)
  | .schedSendTiming _ when => decide (s.curTick ≤ when) && decide (when ≤ MaxTick)
  | .sendEvent _ => decide (s.queue.sendEvent = some s.curTick)
  | .retry _ => s.owed

/-- The peer was sent the packet in front, and took it or refused it. -/
def sent (accepts : Bool) (q : PacketQueue) : PacketQueueUse :=
  { s with
    queue := q
    owed := !accepts
    accepted := s.accepted ++
      if accepts then (s.queue.transmitList.head?.map (·, s.curTick)).toList else [] }

def apply : PacketQueueCall → Except PacketQueueFault PacketQueueUse
  | .advance tick => .ok { s with curTick := tick }
  | .schedSendTiming pkt when =>
    (s.queue.schedSendTiming s.curTick pkt when).map fun q =>
      { s with queue := q, scheduled := s.scheduled ++ [⟨when, pkt⟩] }
  | .sendEvent accepts =>
    ({ s.queue with sendEvent := none }.processSendEvent s.curTick accepts).map (s.sent accepts)
  | .retry accepts => (s.queue.retry s.curTick accepts).map (s.sent accepts)

def machine (forceOrder disableSanityCheck : Bool) :
    Machine PacketQueueUse PacketQueueCall PacketQueueFault where
  start := { queue := { forceOrder, disableSanityCheck } }
  step s call := if s.possible call then some (s.apply call) else none

/-- `MaxTick` stands for no time at all: packets are scheduled before it, and time
does not get there. -/
def BeforeMaxTick : PacketQueueCall → Prop
  | .advance tick => tick < MaxTick
  | .schedSendTiming _ when => when < MaxTick
  | .sendEvent _ | .retry _ => True

instance : ∀ call, Decidable (BeforeMaxTick call)
  | .advance tick => inferInstanceAs (Decidable (tick < MaxTick))
  | .schedSendTiming _ when => inferInstanceAs (Decidable (when < MaxTick))
  | .sendEvent _ => inferInstanceAs (Decidable True)
  | .retry _ => inferInstanceAs (Decidable True)

end PacketQueueUse

/-! ### Where a packet is placed -/

namespace DeferredPacket

variable {forceOrder : Bool} {new : DeferredPacket} {list placed : List DeferredPacket}

theorem place_eq_none (h : place forceOrder new list = none) :
    ∀ dp ∈ list, stops forceOrder new dp = false := by
  induction list with
  | nil => simp
  | cons dp rest ih =>
    simp only [place] at h
    split at h
    next => cases h
    next none_ =>
      split at h
      next => cases h
      next goes =>
        intro other mem
        obtain rfl | mem := List.mem_cons.mp mem
        · exact Bool.eq_false_iff.mpr goes
        · exact ih none_ other mem

theorem place_eq_some (h : place forceOrder new list = some placed) :
    ∃ before dp after, list = before ++ dp :: after ∧ placed = before ++ dp :: new :: after ∧
      ∀ other ∈ after, stops forceOrder new other = false := by
  induction list generalizing placed with
  | nil => cases h
  | cons dp rest ih =>
    simp only [place] at h
    split at h
    next inner found =>
      cases h
      obtain ⟨before, last, after, split, placed, goes⟩ := ih found
      exact ⟨dp :: before, last, after, by rw [split]; rfl, by rw [placed]; rfl, goes⟩
    next none_ =>
      split at h
      next =>
        cases h
        exact ⟨[], dp, rest, rfl, rfl, place_eq_none none_⟩
      next => cases h

/-- Packets of a kind whose order is kept: each stays behind those before it. -/
def Ordered (forceOrder : Bool) (p : DeferredPacket → Bool) : Prop :=
  ∀ dp new, p dp → p new → stops forceOrder new dp

theorem ordered_tick (forceOrder : Bool) (tick : Nat) :
    Ordered forceOrder fun dp => decide (dp.tick = tick) := by
  intro dp new hd hn
  have le : dp.tick ≤ new.tick := by
    rw [of_decide_eq_true hd, of_decide_eq_true hn]
  simp [stops, le]

theorem ordered_matchAddr (pkt : Packet) : Ordered true fun dp => dp.pkt.matchAddr pkt := by
  intro dp new hd hn
  simp only [Packet.matchAddr, Bool.and_eq_true, decide_eq_true_eq] at hd hn
  simp [stops, Packet.matchAddr, hd, hn]

/-- A new packet comes after all others of such a kind. -/
theorem filter_insert {p : DeferredPacket → Bool} (ordered : Ordered forceOrder p)
    (before after : List DeferredPacket)
    (goes : ∀ other ∈ after, stops forceOrder new other = false) :
    (before ++ new :: after).filter p = (before ++ after).filter p ++ [new].filter p := by
  cases hp : p new with
  | false => simp [hp]
  | true =>
    have none_ : after.filter p = [] := by
      rw [List.filter_eq_nil_iff]
      intro other mem ho
      have stop := ordered other new ho hp
      rw [goes other mem] at stop
      cases stop
    simp [hp, none_]

end DeferredPacket

/-! ### One call of the queue -/

variable {rest : List DeferredPacket} {when : Nat} {dp : DeferredPacket}

namespace PacketQueue

variable {q : PacketQueue} {curTick : Nat}

/-- Nothing to send, a packet that was refused in front, or one that is due when
the event comes. -/
inductive Phase (q : PacketQueue) (curTick : Nat) : Prop
  | empty (list : q.transmitList = []) (free : q.waitingOnRetry = false)
      (event : q.sendEvent = none)
  | waiting (dp : DeferredPacket) (rest : List DeferredPacket)
      (list : q.transmitList = dp :: rest) (due : dp.tick ≤ curTick)
      (refused : q.waitingOnRetry = true) (event : q.sendEvent = none)
  | scheduled (dp : DeferredPacket) (rest : List DeferredPacket) (tick : Nat)
      (list : q.transmitList = dp :: rest) (due : dp.tick ≤ tick) (later : curTick ≤ tick)
      (free : q.waitingOnRetry = false) (event : q.sendEvent = some tick)

/-- The event comes no earlier than the packet it is for, if one that is already
scheduled does not. -/
theorem schedSendEvent_eq (free : q.waitingOnRetry = false) (before : when < MaxTick)
    (now : curTick < MaxTick)
    (event : ∀ tick, q.sendEvent = some tick → when ≤ tick ∧ curTick ≤ tick) :
    ∃ tick, q.schedSendEvent curTick when = .ok { q with sendEvent := some tick } ∧
      when ≤ tick ∧ curTick ≤ tick := by
  have next : (curTick + 1) % 2 ^ 64 = curTick + 1 := by
    simp only [MaxTick] at now
    omega
  have late : curTick ≤ max when (curTick + 1) := by omega
  have set : q.schedule curTick (max when (curTick + 1)) =
      .ok { q with sendEvent := some (max when (curTick + 1)) } := if_pos late
  rw [schedSendEvent, if_neg (Bool.eq_false_iff.mp free), if_pos before.ne, next]
  cases scheduled : q.sendEvent with
  | none => exact ⟨_, set, le_max_left _ _, late⟩
  | some tick =>
    by_cases earlier : max when (curTick + 1) < tick
    · exact ⟨_, (if_pos earlier).trans set, le_max_left _ _, late⟩
    · exact ⟨tick, by simp only [earlier, if_false, ← scheduled], event tick scheduled⟩

/-- A new packet is placed without getting in front of one that is waiting. -/
theorem schedSendTiming_eq (pkt : Packet) (phase : q.Phase curTick) (now : curTick ≤ when)
    (before : when < MaxTick) {r : Except PacketQueueFault PacketQueue}
    (h : q.schedSendTiming curTick pkt when = r) :
    r = .error .schedSendTiming ∨ r = .error .sanityCheck ∨
    ∃ front after event, q.transmitList = front ++ after ∧
      (∀ other ∈ after, DeferredPacket.stops q.forceOrder ⟨when, pkt⟩ other = false) ∧
      r = .ok { q with transmitList := front ++ ⟨when, pkt⟩ :: after, sendEvent := event } ∧
      Phase { q with transmitList := front ++ ⟨when, pkt⟩ :: after, sendEvent := event } curTick := by
  simp only [schedSendTiming] at h
  split at h
  next => exact .inl h.symm
  next =>
    split at h
    next => exact .inr (.inl h.symm)
    next =>
      right; right
      split at h
      next placed found =>
        obtain ⟨front, dp, after, list, rfl, goes⟩ := DeferredPacket.place_eq_some found
        have same : front ++ dp :: ⟨when, pkt⟩ :: after = (front ++ [dp]) ++ ⟨when, pkt⟩ :: after := by
          simp
        refine ⟨front ++ [dp], after, q.sendEvent, by simpa using list, goes, ?_, ?_⟩
        · rw [← h, same]
        · -- the packet in front is the same as before
          have head : ∃ rest, q.transmitList.head?.toList ++ rest =
              (front ++ [dp]) ++ ⟨when, pkt⟩ :: after := by
            rw [list]
            cases front with
            | nil => exact ⟨_, rfl⟩
            | cons => exact ⟨_, rfl⟩
          obtain ⟨others, head⟩ := head
          cases phase with
          | empty none_ => simp [none_] at list
          | waiting first rest eq due refused event =>
            rw [eq] at head
            exact .waiting first others head.symm due refused event
          | scheduled first rest tick eq due later free event =>
            rw [eq] at head
            exact .scheduled first others tick head.symm due later free event
      next found =>
        have goes := DeferredPacket.place_eq_none found
        have later_of_mem (dp : DeferredPacket) (mem : dp ∈ q.transmitList) : when < dp.tick := by
          have stop := goes dp mem
          simp only [DeferredPacket.stops, Bool.or_eq_false_iff, decide_eq_false_iff_not] at stop
          exact Nat.lt_of_not_le stop.2
        have free : q.waitingOnRetry = false := by
          cases phase with
          | empty _ free => exact free
          | scheduled _ _ _ _ _ _ free => exact free
          | waiting dp rest eq due =>
            have := later_of_mem dp (by simp [eq])
            omega
        have event : ∀ tick, q.sendEvent = some tick → when ≤ tick ∧ curTick ≤ tick := by
          intro tick ht
          cases phase with
          | empty _ _ event => simp [event] at ht
          | waiting _ _ _ _ _ event => simp [event] at ht
          | scheduled dp rest t eq due later _ event =>
            cases event.symm.trans ht
            have := later_of_mem dp (by simp [eq])
            exact ⟨by omega, later⟩
        obtain ⟨tick, eq, due, later⟩ := schedSendEvent_eq
          (q := { q with transmitList := ⟨when, pkt⟩ :: q.transmitList }) free before
          (Nat.lt_of_le_of_lt now before) event
        exact ⟨[], q.transmitList, some tick, rfl, goes, h.symm.trans eq,
          .scheduled _ _ tick rfl due later free rfl⟩

/-- A packet that is due is sent; one that is refused stays in front. -/
theorem sendDeferredPacket_eq (list : q.transmitList = dp :: rest) (free : q.waitingOnRetry = false)
    (event : q.sendEvent = none) (due : dp.tick ≤ curTick) (now : curTick < MaxTick)
    (ticks : ∀ other ∈ rest, other.tick < MaxTick) (accepts : Bool) :
    ∃ event, q.sendDeferredPacket curTick accepts = .ok
        { q with transmitList := if accepts then rest else dp :: rest, sendEvent := event,
                 waitingOnRetry := !accepts } ∧
      Phase { q with transmitList := if accepts then rest else dp :: rest, sendEvent := event,
                     waitingOnRetry := !accepts } curTick := by
  cases accepts with
  | false =>
    refine ⟨none, ?_, .waiting dp rest rfl due rfl rfl⟩
    simp [sendDeferredPacket, free, list, due, event]
  | true =>
    cases rest with
    | nil =>
      refine ⟨none, ?_, .empty rfl rfl rfl⟩
      simp [sendDeferredPacket, free, list, due, event, schedSendEvent, deferredPacketReadyTime]
    | cons next others =>
      have before := ticks next List.mem_cons_self
      obtain ⟨tick, eq, due', later⟩ := schedSendEvent_eq
        (q := { q with transmitList := next :: others, waitingOnRetry := false }) rfl before now
        (by simp [event])
      refine ⟨some tick, ?_, .scheduled next others tick rfl due' later rfl rfl⟩
      simpa [sendDeferredPacket, free, list, due, deferredPacketReadyTime] using eq

end PacketQueue

/-! ### Whole runs -/

namespace PacketQueueUse

variable {forceOrder : Bool} {s : PacketQueueUse}

structure Kept (forceOrder : Bool) (s : PacketQueueUse) : Prop where
  force : s.queue.forceOrder = forceOrder
  order : ∀ p, DeferredPacket.Ordered forceOrder p →
    (s.accepted.map Prod.fst ++ s.queue.transmitList).filter p = s.scheduled.filter p
  once : (s.accepted.map Prod.fst ++ s.queue.transmitList).Perm s.scheduled
  due : ∀ a ∈ s.accepted, a.1.tick ≤ a.2
  owed : s.owed = s.queue.waitingOnRetry
  now : s.curTick < MaxTick
  ticks : ∀ dp ∈ s.queue.transmitList, dp.tick < MaxTick
  phase : s.queue.Phase s.curTick

theorem Kept.advance (h : s.Kept forceOrder) {tick : Nat} (can : s.possible (.advance tick))
    (before : tick < MaxTick) : Kept forceOrder { s with curTick := tick } := by
  simp only [possible, Bool.and_eq_true, decide_eq_true_eq] at can
  obtain ⟨⟨later, -⟩, stop⟩ := can
  refine { h with now := before, phase := ?_ }
  cases h.phase with
  | empty list free event => exact .empty list free event
  | waiting dp rest list due refused event =>
    exact .waiting dp rest list (due.trans later) refused event
  | scheduled dp rest t list due _ free event =>
    exact .scheduled dp rest t list due (stop t event) free event

theorem Kept.schedSendTiming (h : s.Kept forceOrder) {pkt : Packet}
    (can : s.possible (.schedSendTiming pkt when)) (before : when < MaxTick) :
    s.apply (.schedSendTiming pkt when) = .error .schedSendTiming ∨
    s.apply (.schedSendTiming pkt when) = .error .sanityCheck ∨
    ∃ t, s.apply (.schedSendTiming pkt when) = .ok t ∧ t.Kept forceOrder := by
  simp only [possible, Bool.and_eq_true, decide_eq_true_eq] at can
  simp only [apply]
  obtain eq | eq | ⟨front, after, event, list, goes, eq, phase⟩ :=
    PacketQueue.schedSendTiming_eq pkt h.phase can.1 before rfl
  · exact .inl (by rw [eq]; rfl)
  · exact .inr (.inl (by rw [eq]; rfl))
  · refine .inr (.inr ⟨_, by rw [eq]; rfl, ?_⟩)
    constructor
    · exact h.force
    · intro p ordered
      have kept := h.order p ordered
      rw [list, ← List.append_assoc] at kept
      rw [List.filter_append s.scheduled, ← kept, ← List.append_assoc]
      exact DeferredPacket.filter_insert ordered _ after (h.force ▸ goes)
    · have kept := h.once
      rw [list, ← List.append_assoc] at kept
      rw [← List.append_assoc]
      exact List.perm_middle.trans ((kept.cons _).trans (List.perm_append_singleton _ _).symm)
    · exact h.due
    · exact h.owed
    · exact h.now
    · intro dp mem
      obtain mem | rfl | mem : dp ∈ front ∨ dp = ⟨when, pkt⟩ ∨ dp ∈ after := by simpa using mem
      · exact h.ticks dp (by simp [list, mem])
      · exact before
      · exact h.ticks dp (by simp [list, mem])
    · exact phase

/-- A packet in front that is due is sent, and the account stays in order. -/
theorem Kept.sends (h : s.Kept forceOrder) {q : PacketQueue}
    (list : s.queue.transmitList = dp :: rest) (same : q.transmitList = dp :: rest)
    (force : q.forceOrder = s.queue.forceOrder) (free : q.waitingOnRetry = false)
    (event : q.sendEvent = none) (due : dp.tick ≤ s.curTick) (accepts : Bool) :
    ∃ t, (q.sendDeferredPacket s.curTick accepts).map (s.sent accepts) = .ok t ∧ t.Kept forceOrder := by
  have ticks : ∀ other ∈ rest, other.tick < MaxTick := by
    intro other mem
    exact h.ticks other (by simp [list, mem])
  obtain ⟨event, eq, phase⟩ :=
    PacketQueue.sendDeferredPacket_eq same free event due h.now ticks accepts
  refine ⟨_, by rw [eq]; rfl, ?_⟩
  have order := h.order
  have once := h.once
  rw [list] at once
  simp only [list] at order
  cases accepts with
  | false =>
    constructor
    · exact force.trans h.force
    · simpa [sent] using order
    · simpa [sent] using once
    · simpa [sent] using h.due
    · rfl
    · exact h.now
    · simpa [sent, list] using h.ticks
    · exact phase
  | true =>
    constructor
    · exact force.trans h.force
    · simpa [sent, list] using order
    · simpa [sent, list] using once
    · intro a mem
      obtain mem | rfl : a ∈ s.accepted ∨ a = (dp, s.curTick) := by
        simpa [sent, list] using mem
      · exact h.due a mem
      · exact due
    · rfl
    · exact h.now
    · exact ticks
    · exact phase

theorem Kept.sendEvent (h : s.Kept forceOrder) {accepts : Bool} (can : s.possible (.sendEvent accepts)) :
    ∃ t, s.apply (.sendEvent accepts) = .ok t ∧ t.Kept forceOrder := by
  have fires := of_decide_eq_true can
  cases h.phase with
  | empty _ _ event => simp [event] at fires
  | waiting _ _ _ _ _ event => simp [event] at fires
  | scheduled dp rest t list due _ free event =>
    cases event.symm.trans fires
    rw [apply, PacketQueue.processSendEvent, if_neg (Bool.eq_false_iff.mp free)]
    exact h.sends (q := { s.queue with sendEvent := none }) list list rfl free rfl due accepts

theorem Kept.retry (h : s.Kept forceOrder) {accepts : Bool} (can : s.possible (.retry accepts)) :
    ∃ t, s.apply (.retry accepts) = .ok t ∧ t.Kept forceOrder := by
  have refused : s.queue.waitingOnRetry = true := h.owed ▸ can
  cases h.phase with
  | empty _ free => simp [free] at refused
  | scheduled _ _ _ _ _ _ free => simp [free] at refused
  | waiting dp rest list due _ event =>
    simp only [apply, PacketQueue.retry, refused, if_true]
    exact h.sends (q := { s.queue with waitingOnRetry := false }) list list rfl rfl event due accepts

/-- What a call does before `MaxTick`: only the checks on a new packet fail. -/
theorem Kept.call (h : s.Kept forceOrder) {call : PacketQueueCall} (can : s.possible call)
    (before : BeforeMaxTick call) :
    s.apply call = .error .schedSendTiming ∨ s.apply call = .error .sanityCheck ∨
      ∃ t, s.apply call = .ok t ∧ t.Kept forceOrder := by
  cases call with
  | advance => exact .inr (.inr ⟨_, rfl, h.advance can before⟩)
  | schedSendTiming => exact h.schedSendTiming can before
  | sendEvent => exact .inr (.inr (h.sendEvent can))
  | retry => exact .inr (.inr (h.retry can))

variable {disableSanityCheck : Bool}

theorem step_eq_some {call : PacketQueueCall} {r : Except PacketQueueFault PacketQueueUse}
    (step : (machine forceOrder disableSanityCheck).step s call = some r) :
    s.possible call ∧ s.apply call = r := by
  simpa only [machine, Option.ite_none_right_eq_some, Option.some.injEq] using step

theorem kept_start : (machine forceOrder disableSanityCheck).start.Kept forceOrder where
  force := rfl
  order _ _ := rfl
  once := .nil
  due _ mem := absurd mem List.not_mem_nil
  owed := rfl
  now := Nat.zero_lt_succ _
  ticks _ mem := absurd mem List.not_mem_nil
  phase := .empty rfl rfl rfl

theorem reaches_kept
    (h : (machine forceOrder disableSanityCheck).Reaches (fun _ call => BeforeMaxTick call) s) :
    s.Kept forceOrder := by
  apply h.invariant kept_start
  intro s call t kept before step
  obtain ⟨can, eq⟩ := step_eq_some step
  obtain fails | fails | ⟨u, ok, next⟩ := kept.call can before
  · cases fails.symm.trans eq
  · cases fails.symm.trans eq
  · cases ok.symm.trans eq
    exact next

/-- A queue with packets waits for its peer or for its event, never for both. -/
theorem Kept.waits (h : s.Kept forceOrder) :
    (s.queue.transmitList ≠ [] → s.queue.waitingOnRetry ∨ s.queue.sendEvent.isSome) ∧
      ¬(s.queue.waitingOnRetry ∧ s.queue.sendEvent.isSome) := by
  cases h.phase with
  | empty list free event => simp [list, free]
  | waiting _ _ _ _ refused event => simp [refused, event]
  | scheduled _ _ _ _ _ _ free event => simp [free, event]

/-- Before `MaxTick` every packet is in the queue or was taken once, not before its
tick; those taken of one tick, and of one address if `forceOrder` is set, were
scheduled first; and besides the checks on a new packet no assertion fails. -/
theorem sends_in_order
    (h : (machine forceOrder disableSanityCheck).Reaches (fun _ call => BeforeMaxTick call) s) :
    (s.accepted.map Prod.fst ++ s.queue.transmitList).Perm s.scheduled ∧
    (∀ a ∈ s.accepted, a.1.tick ≤ a.2) ∧
    (∀ tick, (s.accepted.map Prod.fst).filter (fun dp => decide (dp.tick = tick)) <+:
      s.scheduled.filter fun dp => decide (dp.tick = tick)) ∧
    (forceOrder = true → ∀ pkt,
      (s.accepted.map Prod.fst).filter (fun dp => dp.pkt.matchAddr pkt) <+:
      s.scheduled.filter fun dp => dp.pkt.matchAddr pkt) ∧
    (s.queue.transmitList ≠ [] → s.queue.waitingOnRetry ∨ s.queue.sendEvent.isSome) ∧
    ¬(s.queue.waitingOnRetry ∧ s.queue.sendEvent.isSome) ∧
    ∀ call fault, BeforeMaxTick call →
      (machine forceOrder disableSanityCheck).step s call = some (.error fault) →
      fault = .schedSendTiming ∨ fault = .sanityCheck := by
  have kept := reaches_kept h
  have first {p : DeferredPacket → Bool} (ordered : DeferredPacket.Ordered forceOrder p) :
      (s.accepted.map Prod.fst).filter p <+: s.scheduled.filter p := by
    rw [← kept.order p ordered, List.filter_append]
    exact List.prefix_append _ _
  refine ⟨kept.once, kept.due, fun tick => first (DeferredPacket.ordered_tick forceOrder tick), ?_,
    kept.waits.1, kept.waits.2, ?_⟩
  · rintro rfl pkt
    exact first (DeferredPacket.ordered_matchAddr pkt)
  · intro call fault before step
    obtain ⟨can, eq⟩ := step_eq_some step
    obtain fails | fails | ⟨t, ok, -⟩ := kept.call can before
    · cases fails.symm.trans eq
      exact .inl rfl
    · cases fails.symm.trans eq
      exact .inr rfl
    · cases ok.symm.trans eq

def aPacket (id addr : Nat) : Packet where
  cmd := .ReadReq
  id := id
  req := { id }
  addr := addr
  size := 4

/-- The packet of tick 3 goes behind that of tick 8, which has its address, and is
refused once. -/
def sameAddress : List PacketQueueCall :=
  [.schedSendTiming (aPacket 0 64) 8, .schedSendTiming (aPacket 1 64) 3, .advance 8,
    .sendEvent true, .advance 9, .sendEvent false, .advance 12, .retry true]

def afterSameAddress : PacketQueueUse where
  queue := { forceOrder := true, disableSanityCheck := false }
  curTick := 12
  scheduled := [⟨8, aPacket 0 64⟩, ⟨3, aPacket 1 64⟩]
  accepted := [(⟨8, aPacket 0 64⟩, 8), (⟨3, aPacket 1 64⟩, 12)]

theorem same_address_in_order :
    (machine true false).Reaches (fun _ call => BeforeMaxTick call) afterSameAddress ∧
    (afterSameAddress.accepted.map Prod.fst).filter (fun dp => dp.pkt.matchAddr (aPacket 0 64)) <+:
      afterSameAddress.scheduled.filter fun dp => dp.pkt.matchAddr (aPacket 0 64) := by
  have reached : (machine true false).Reaches (fun _ call => BeforeMaxTick call) afterSameAddress :=
    Machine.Reaches.start.runIf sameAddress (by decide)
  exact ⟨reached, (sends_in_order reached).2.2.2.1 rfl (aPacket 0 64)⟩

/-- A packet for `MaxTick` is queued, with neither an event nor a retry to send it. -/
theorem max_tick_never_sent :
    ∃ s, (machine false false).Reaches (fun _ _ => True) s ∧ s.queue.transmitList ≠ [] ∧
      s.queue.waitingOnRetry = false ∧ s.queue.sendEvent = none := by
  refine ⟨_, Machine.Reaches.start.next (a := .schedSendTiming (aPacket 0 64) MaxTick) trivial
    (by rfl), ?_⟩
  decide

end PacketQueueUse

end Classic

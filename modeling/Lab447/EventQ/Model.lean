import Lab447.Lib.Linked
import Lab447.Lib.Machine
import Lab447.Lib.StableQueue

/-!
The event queue of `gem5/src/sim/eventq.cc`: a linked list of bins, one for each
time and priority, each a linked stack of events. Events live in a heap and are
known by their addresses. There is one queue and one thread, so nothing is
inserted asynchronously.
-/

namespace EventQ

open Linked StableQueue

abbrev EventId := Nat

abbrev Tick := Nat

/-- `deleted` tells that the object was destroyed by its `release`. -/
structure Event where
  nextBin : Option EventId := none
  nextInBin : Option EventId := none
  when : Tick := 0
  priority : Int := 0
  scheduled : Bool := false
  squashed : Bool := false
  managed : Bool := false
  isExitEvent : Bool := false
  deleted : Bool := false

namespace Event

/-- `operator<`. -/
def lt (l r : Event) : Bool :=
  decide (l.when < r.when) || (decide (l.when = r.when) && decide (l.priority < r.priority))

/-- `operator<=`. -/
def le (l r : Event) : Bool :=
  decide (l.when < r.when) || (decide (l.when = r.when) && decide (l.priority ≤ r.priority))

/-- `operator==`. -/
def eq (l r : Event) : Bool := decide (l.when = r.when) && decide (l.priority = r.priority)

end Event

inductive Fault where
  | inThePast | alreadyScheduled | notScheduled | notFound | emptyQueue | endless | useAfterDelete
  deriving DecidableEq

/-- `instanceCounter` is the number of events constructed so far. -/
structure EventQueue where
  event : EventId → Event
  instanceCounter : Nat
  head : Option EventId
  curTick : Tick

namespace EventQueue

def nextBin (q : EventQueue) (e : EventId) : Option EventId := (q.event e).nextBin

def nextInBin (q : EventQueue) (e : EventId) : Option EventId := (q.event e).nextInBin

def modify (q : EventQueue) (e : EventId) (f : Event → Event) : EventQueue :=
  { q with event := Function.update q.event e (f (q.event e)) }

/-- The tests a loop over linked events can make without coming to one twice. -/
def fuel (q : EventQueue) : Nat := q.instanceCounter + 1

def constructEvent (priority : Int) (managed isExitEvent : Bool) (q : EventQueue) : EventQueue :=
  { q with
    event := Function.update q.event q.instanceCounter { priority, managed, isExitEvent }
    instanceCounter := q.instanceCounter + 1 }

/-- The event becomes the top of its bin, which is new or the one `curr` is the
top of. -/
def insertBefore (event : EventId) (curr : Option EventId) (q : EventQueue) :
    EventQueue × EventId :=
  match curr with
  | none => (q.modify event fun e => { e with nextBin := none, nextInBin := none }, event)
  | some curr =>
    if (q.event event).lt (q.event curr) then
      (q.modify event fun e => { e with nextBin := some curr, nextInBin := none }, event)
    else
      (q.modify event fun e => { e with nextBin := q.nextBin curr, nextInBin := some curr }, event)

/-- `while (curr && *curr < *event)`, from the bin after the head. -/
def findBin (event head : EventId) (q : EventQueue) : Option (EventId × Option EventId) :=
  advance q.nextBin (fun curr => (q.event curr).lt (q.event event)) q.fuel head (q.nextBin head)

def insertAtHead (event : EventId) (q : EventQueue) : EventQueue :=
  let (q', top) := q.insertBefore event q.head
  { q' with head := some top }

def insert (event : EventId) (q : EventQueue) : Except Fault EventQueue :=
  match q.head with
  | none => .ok (q.insertAtHead event)
  | some head =>
    if (q.event event).le (q.event head) then .ok (q.insertAtHead event)
    else match q.findBin event head with
      | none => .error .endless
      | some (prev, curr) =>
        let (q', top) := q.insertBefore event curr
        .ok (q'.modify prev fun e => { e with nextBin := some top })

/-- Takes the event out of the bin with the given top, and returns the new top of
the bin, or of the next one if nothing is left. -/
def removeItem (event top : EventId) (q : EventQueue) :
    Except Fault (EventQueue × Option EventId) :=
  if event = top then
    match q.nextInBin top with
    | none => .ok (q, q.nextBin top)
    | some next => .ok (q.modify next fun e => { e with nextBin := q.nextBin top }, some next)
  else match advance q.nextInBin (fun next => decide (event ≠ next)) q.fuel top (q.nextInBin top) with
    | none => .error .endless
    | some (_, none) => .error .notFound
    | some (curr, some next) =>
      .ok (q.modify curr fun e => { e with nextInBin := q.nextInBin next }, some top)

def remove (event : EventId) (q : EventQueue) : Except Fault EventQueue :=
  match q.head with
  | none => .error .notFound
  | some head =>
    if (q.event head).eq (q.event event) then
      (q.removeItem event head).map fun (q', top) => { q' with head := top }
    else match q.findBin event head with
      | none => .error .endless
      | some (_, none) => .error .notFound
      | some (prev, some curr) =>
        if (q.event curr).eq (q.event event) then
          (q.removeItem event curr).map fun (q', top) =>
            q'.modify prev fun e => { e with nextBin := top }
        else .error .notFound

/-- A managed event deletes itself unless it is scheduled. -/
def release (event : EventId) (q : EventQueue) : EventQueue :=
  if (q.event event).managed && !(q.event event).scheduled then
    q.modify event fun e => { e with deleted := true }
  else q

def setWhen (event : EventId) (when : Tick) (q : EventQueue) : EventQueue :=
  q.modify event fun e => { e with when }

def squash (event : EventId) (q : EventQueue) : EventQueue :=
  q.modify event fun e => { e with squashed := true }

def schedule (event : EventId) (when : Tick) (q : EventQueue) : Except Fault EventQueue :=
  if when < q.curTick then .error .inThePast
  else if (q.event event).scheduled then .error .alreadyScheduled
  else ((q.setWhen event when).insert event).map fun q =>
    q.modify event fun e => { e with scheduled := true }

def deschedule (event : EventId) (q : EventQueue) : Except Fault EventQueue :=
  if (q.event event).scheduled then
    (q.remove event).map fun q =>
      (q.modify event fun e => { e with squashed := false, scheduled := false }).release event
  else .error .notScheduled

def reschedule (event : EventId) (when : Tick) (always : Bool) (q : EventQueue) :
    Except Fault EventQueue :=
  if when < q.curTick then .error .inThePast
  else if !always && !(q.event event).scheduled then .error .notScheduled
  else (if (q.event event).scheduled then q.remove event else .ok q).bind fun q =>
    ((q.setWhen event when).insert event).map fun q =>
      q.modify event fun e => { e with squashed := false, scheduled := true }

/-- The head event leaves the queue, and with it its bin if it is the only one in
there. -/
def popHead (event : EventId) (q : EventQueue) : EventQueue :=
  match q.nextInBin event with
  | some next =>
    { q.modify next fun e => { e with nextBin := q.nextBin event } with head := some next }
  | none => { q with head := q.nextBin event }

/-- `serviceOne` up to where it calls `process`, or to its end if the event is
squashed. It returns the event and whether `process` is called. -/
def serviceOne (q : EventQueue) : Except Fault (EventQueue × EventId × Bool) :=
  match q.head with
  | none => .error .emptyQueue
  | some event =>
    let q := (q.modify event fun e => { e with scheduled := false }).popHead event
    if (q.event event).squashed then
      .ok ((q.modify event fun e => { e with squashed := false }).release event, event, false)
    else .ok ({ q with curTick := (q.event event).when }, event, true)

/-- The rest of `serviceOne`, after `process` has returned. -/
def finishService (event : EventId) (q : EventQueue) : Except Fault EventQueue :=
  if (q.event event).deleted then .error .useAfterDelete
  else if (q.event event).isExitEvent then .ok q
  else .ok (q.release event)

end EventQueue

/-! ### Runs -/

/-- Time and priority, as the events are ordered by them. -/
abbrev Key := Tick ×ₗ Int

def Event.key (e : Event) : Key := toLex (e.when, e.priority)

/-- The queue, the events whose `process` is running, and what the operations so
far mean, which no operation depends on. -/
structure Sim where
  queue : EventQueue
  processing : List EventId
  agenda : Agenda EventId Key

/-- Anything may be called while an event is processed; `processed` is the return
of the `process` that was called last. -/
inductive Op where
  | constructEvent (priority : Int) (managed isExitEvent : Bool)
  | squash (event : EventId)
  | schedule (event : EventId) (when : Tick)
  | deschedule (event : EventId)
  | reschedule (event : EventId) (when : Tick) (always : Bool)
  | serviceOne
  | processed

namespace Sim

def start : Sim := ⟨⟨fun _ => {}, 0, none, 0⟩, [], .empty⟩

/-- The event has been constructed and not been deleted. -/
def live (s : Sim) (event : EventId) : Bool :=
  decide (event < s.queue.instanceCounter) && !(s.queue.event event).deleted

/-- What inserting the event means, once it has its new time. -/
def put (agenda : Agenda EventId Key) (q : EventQueue) (event : EventId) : Agenda EventId Key :=
  agenda.put event (q.event event).key

def step (s : Sim) : Op → Option (Except Fault Sim)
  | .constructEvent priority managed isExitEvent =>
    some (.ok { s with queue := s.queue.constructEvent priority managed isExitEvent })
  | .squash event =>
    if s.live event then some (.ok { s with queue := s.queue.squash event }) else none
  | .schedule event when =>
    if s.live event then
      some ((s.queue.schedule event when).map fun q =>
        { s with queue := q, agenda := put s.agenda q event })
    else none
  | .deschedule event =>
    if s.live event then
      some ((s.queue.deschedule event).map fun q =>
        { s with queue := q, agenda := s.agenda.drop event })
    else none
  | .reschedule event when always =>
    if s.live event then
      some ((s.queue.reschedule event when always).map fun q =>
        { s with queue := q, agenda := put (s.agenda.drop event) q event })
    else none
  | .serviceOne =>
    some (s.queue.serviceOne.map fun (q, event, processed) =>
      { s with
        queue := q
        processing := if processed then event :: s.processing else s.processing
        agenda := s.agenda.serve event })
  | .processed =>
    match s.processing with
    | [] => none
    | event :: rest =>
      some ((s.queue.finishService event).map fun q => { s with queue := q, processing := rest })

end Sim

def machine : Machine Sim Op Fault := ⟨.start, Sim.step⟩

end EventQ

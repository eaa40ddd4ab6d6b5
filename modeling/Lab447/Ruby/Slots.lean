import Mathlib
import Lab447.Lib.Machine
import Lab447.Lib.Script

/-!
`MessageBuffer` of `gem5/src/mem/ruby/network/MessageBuffer.cc` with its times and
its accounting of slots. The heap is the list of its messages in order, and the
stall map the list of its messages with their addresses, oldest first. Statistics,
delayed ticks, wake-ups of the consumer and the dequeue callback are left out.
-/

namespace Ruby.Timed

abbrev Addr := Nat

structure Message (α : Type) where
  content : α
  lastEnqueueTime : Nat := 0
  msgCounter : Nat := 0
  deriving DecidableEq

/-- The parameters of a buffer, and of the system it is in. -/
structure Params where
  maxSize : Nat
  maxDequeueRate : Nat := 0
  strictFifo : Bool := false
  allowZeroLatency : Bool := false
  warmupEnabled : Bool := false
  blockSizeBytes : Nat := 64

/-- `stallMapSize` is an `int`; the sizes and counts are unsigned, of 32 bits. -/
structure MessageBuffer (α : Type) where
  prioHeap : List (Message α) := []
  stallMsgMap : List (Addr × Message α) := []
  stallMapSize : Int := 0
  dequeuesThisCy : Nat := 0
  timeLastTimeEnqueue : Nat := 0
  timeLastTimePop : Nat := 0
  lastArrivalTime : Nat := 0
  sizeAtCycleStart : Nat := 0
  stalledAtCycleStart : Nat := 0
  msgsThisCycle : Nat := 0
  msgCounter : Nat := 0
  deriving DecidableEq

/-- `capacity` is the assertion that the messages in the buffer fit into it. -/
inductive Fault where
  | capacity | zeroLatency | arrival | fifo | early | notReady | offset | notStalled | stallSize
  deriving DecidableEq

namespace MessageBuffer

variable {α : Type} (p : Params) (b : MessageBuffer α) (currentTime : Nat)

/-- The heap's order, by arrival and then by number. -/
def notAfter (x y : Message α) : Prop :=
  x.lastEnqueueTime < y.lastEnqueueTime ∨
    x.lastEnqueueTime = y.lastEnqueueTime ∧ x.msgCounter ≤ y.msgCounter

instance : DecidableRel (@notAfter α) := fun _ _ => inferInstanceAs (Decidable (_ ∨ _))

def pushHeap (heap : List (Message α)) (m : Message α) : List (Message α) :=
  heap.orderedInsert notAfter m

/-- The size that `areNSlotsAvailable` compares, before it is cut to 32 bits. -/
def currentSize : Nat :=
  if b.timeLastTimePop < currentTime then b.prioHeap.length + (b.stallMapSize % 2 ^ 32).toNat
  else if b.timeLastTimeEnqueue < currentTime then b.sizeAtCycleStart + b.stalledAtCycleStart
  else b.sizeAtCycleStart + b.msgsThisCycle + b.stalledAtCycleStart

def areNSlotsAvailable (n : Nat) : Bool :=
  decide (p.maxSize = 0) || decide ((b.currentSize currentTime + n) % 2 ^ 32 ≤ p.maxSize)

/-- `random` is the delay drawn where arrivals are random. -/
def arrivalTime (delta : Nat) (random : Option Nat) : Nat :=
  match random with
  | none => (currentTime + delta) % 2 ^ 64
  | some time =>
    ((if p.strictFifo then max b.lastArrivalTime currentTime else currentTime) + time) % 2 ^ 64

def countEnqueue : MessageBuffer α :=
  let b := if b.timeLastTimeEnqueue < currentTime then
    { b with msgsThisCycle := 0, timeLastTimeEnqueue := currentTime } else b
  { b with
    msgCounter := (b.msgCounter + 1) % 2 ^ 64
    msgsThisCycle := (b.msgsThisCycle + 1) % 2 ^ 32 }

/-- The capacity is checked once the message is on the heap, in `size_t`. -/
def enqueue (message : Message α) (delta : Nat) (random : Option Nat) :
    Except Fault (MessageBuffer α) :=
  let arrival := b.arrivalTime p currentTime delta random
  if delta = 0 ∧ ¬p.allowZeroLatency then .error .zeroLatency
  else if arrival < currentTime then .error .arrival
  else if p.strictFifo ∧ arrival < b.lastArrivalTime then .error .fifo
  else if currentTime < message.lastEnqueueTime then .error .early
  else
    let b := b.countEnqueue currentTime
    let b := { b with
      lastArrivalTime := if p.warmupEnabled then b.lastArrivalTime else arrival
      prioHeap := pushHeap b.prioHeap
        { message with lastEnqueueTime := arrival, msgCounter := b.msgCounter } }
    if p.maxSize = 0 ∨ ((b.prioHeap.length : Int) + b.stallMapSize) % 2 ^ 64 ≤ p.maxSize then .ok b
    else .error .capacity

def isReady : Except Fault Bool :=
  if b.timeLastTimePop ≤ currentTime then
    let canDequeue := decide (p.maxDequeueRate = 0) || decide (b.timeLastTimePop < currentTime) ||
      decide (b.dequeuesThisCy < p.maxDequeueRate)
    let isReady := match b.prioHeap with
      | [] => false
      | m :: _ => decide (m.lastEnqueueTime ≤ currentTime)
    .ok (canDequeue && isReady)
  else .error .notReady

/-- The message in front, once `isReady` is asserted. -/
def front : Except Fault (Message α × List (Message α)) :=
  match b.isReady p currentTime, b.prioHeap with
  | .ok true, m :: rest => .ok (m, rest)
  | .ok _, _ => .error .notReady
  | .error f, _ => .error f

/-- The sizes are recorded at the first pop of a tick. -/
def countPop : MessageBuffer α :=
  let b := if b.timeLastTimePop < currentTime then
    { b with
      sizeAtCycleStart := b.prioHeap.length % 2 ^ 32
      stalledAtCycleStart := (b.stallMapSize % 2 ^ 32).toNat
      timeLastTimePop := currentTime
      dequeuesThisCy := 0 }
    else b
  { b with dequeuesThisCy := (b.dequeuesThisCy + 1) % 2 ^ 32 }

def dequeue : Except Fault (Message α × MessageBuffer α) :=
  (b.front p currentTime).map fun r => (r.1, { b.countPop currentTime with prioHeap := r.2 })

def recycle (recycleLatency : Nat) : Except Fault (MessageBuffer α) :=
  (b.front p currentTime).map fun r =>
    { b with
      prioHeap := pushHeap r.2
        { r.1 with lastEnqueueTime := (currentTime + recycleLatency) % 2 ^ 64 } }

def stallMessage (addr : Addr) : Except Fault (MessageBuffer α) :=
  if addr % p.blockSizeBytes = 0 then
    (b.dequeue p currentTime).map fun r =>
      { r.2 with
        stallMsgMap := r.2.stallMsgMap ++ [(addr, r.1)]
        stallMapSize := (r.2.stallMapSize + 1).bmod (2 ^ 32) }
  else .error .offset

/-- The messages go back on the heap, one by one. -/
def reanalyzeList (heap : List (Message α)) : List (Message α) → Except Fault (List (Message α))
  | [] => .ok heap
  | m :: rest =>
    if m.lastEnqueueTime ≤ currentTime then reanalyzeList (pushHeap heap m) rest
    else .error .early

def reanalyzeMessages (addr : Addr) : Except Fault (MessageBuffer α) :=
  let list := (b.stallMsgMap.filter fun x => x.1 = addr).map Prod.snd
  let size := (b.stallMapSize - list.length).bmod (2 ^ 32)
  if list = [] then .error .notStalled
  else if size < 0 then .error .stallSize
  else (reanalyzeList currentTime b.prioHeap list).map fun heap =>
    { b with
      prioHeap := heap
      stallMsgMap := b.stallMsgMap.filter fun x => ¬x.1 = addr
      stallMapSize := size }

def reanalyzeAllMessages : Except Fault (MessageBuffer α) :=
  Script.run (fun addr b => b.reanalyzeMessages currentTime addr)
    ((b.stallMsgMap.map Prod.fst).dedup.mergeSort) b

end MessageBuffer

/-- A buffer with the slots that were found available and not used since, the
messages it was given and those taken out of it. -/
structure BufferUse (α : Type) where
  buffer : MessageBuffer α := {}
  now : Nat := 0
  slots : Nat := 0
  enqueued : List α := []
  dequeued : List α := []
  deriving DecidableEq

inductive BufferCall (α : Type) where
  | advance (tick : Nat)
  | areNSlotsAvailable (n : Nat)
  | enqueue (message : Message α) (delta : Nat) (random : Option Nat)
  | dequeue
  | recycle (recycleLatency : Nat)
  | stallMessage (addr : Addr)
  | reanalyzeMessages (addr : Addr)
  | reanalyzeAllMessages

namespace BufferUse

variable {α : Type} (p : Params) (s : BufferUse α)

/-- A message is enqueued into a slot that was found available in the same tick. -/
def possible : BufferCall α → Bool
  | .advance tick => decide (s.now < tick)
  | .areNSlotsAvailable n => decide (n < 2 ^ 32)
  | .enqueue .. => decide (0 < s.slots)
  | _ => true

def apply : BufferCall α → Except Fault (BufferUse α)
  | .advance tick => .ok { s with now := tick, slots := 0 }
  | .areNSlotsAvailable n =>
    .ok (if s.buffer.areNSlotsAvailable p s.now n then { s with slots := max s.slots n } else s)
  | .enqueue message delta random =>
    (s.buffer.enqueue p s.now message delta random).map fun b =>
      { s with buffer := b, slots := s.slots - 1, enqueued := message.content :: s.enqueued }
  | .dequeue =>
    (s.buffer.dequeue p s.now).map fun r =>
      { s with buffer := r.2, dequeued := r.1.content :: s.dequeued }
  | .recycle recycleLatency =>
    (s.buffer.recycle p s.now recycleLatency).map fun b => { s with buffer := b }
  | .stallMessage addr => (s.buffer.stallMessage p s.now addr).map fun b => { s with buffer := b }
  | .reanalyzeMessages addr =>
    (s.buffer.reanalyzeMessages s.now addr).map fun b => { s with buffer := b }
  | .reanalyzeAllMessages => (s.buffer.reanalyzeAllMessages s.now).map fun b => { s with buffer := b }

def machine (α : Type) : Machine (BufferUse α) (BufferCall α) Fault where
  start := {}
  step s call := if s.possible call then some (s.apply p call) else none

/-- The sum that `areNSlotsAvailable` compares has 32 bits. -/
def NoWrap (s : BufferUse α) : BufferCall α → Prop
  | .areNSlotsAvailable n => s.buffer.currentSize s.now + n < 2 ^ 32
  | _ => True

instance (s : BufferUse α) : ∀ call, Decidable (s.NoWrap call)
  | .areNSlotsAvailable _ => inferInstanceAs (Decidable (_ < _))
  | .advance _ => inferInstanceAs (Decidable True)
  | .enqueue .. => inferInstanceAs (Decidable True)
  | .dequeue => inferInstanceAs (Decidable True)
  | .recycle _ => inferInstanceAs (Decidable True)
  | .stallMessage _ => inferInstanceAs (Decidable True)
  | .reanalyzeMessages _ => inferInstanceAs (Decidable True)
  | .reanalyzeAllMessages => inferInstanceAs (Decidable True)

end BufferUse

/-! ### Which messages each operation moves -/

namespace MessageBuffer

variable {α : Type} {p : Params} {b b' : MessageBuffer α} {currentTime : Nat}

def stalled (b : MessageBuffer α) : List (Message α) := b.stallMsgMap.map Prod.snd

theorem pushHeap_perm (heap : List (Message α)) (m : Message α) :
    (pushHeap heap m).Perm (m :: heap) := List.perm_orderedInsert _ m heap

theorem front_eq_ok {m : Message α} {rest : List (Message α)}
    (h : b.front p currentTime = .ok (m, rest)) : b.prioHeap = m :: rest := by
  unfold front at h
  split at h
  next heap => cases h; exact heap
  next => cases h
  next => cases h

theorem reanalyzeList_perm {heap heap' list : List (Message α)}
    (h : reanalyzeList currentTime heap list = .ok heap') : heap'.Perm (list ++ heap) := by
  induction list generalizing heap with
  | nil => cases h; rfl
  | cons m rest ih =>
    simp only [reanalyzeList] at h
    split at h
    next =>
      have pushed := (pushHeap_perm heap m).append_left rest
      exact ((ih h).trans pushed).trans List.perm_middle
    next => cases h

@[simp] theorem countEnqueue_prioHeap : (b.countEnqueue currentTime).prioHeap = b.prioHeap := by
  unfold countEnqueue
  split <;> rfl

@[simp] theorem countEnqueue_stallMsgMap :
    (b.countEnqueue currentTime).stallMsgMap = b.stallMsgMap := by
  unfold countEnqueue
  split <;> rfl

@[simp] theorem countPop_stallMsgMap :
    (b.countPop currentTime).stallMsgMap = b.stallMsgMap := by
  unfold countPop
  split <;> rfl

@[simp] theorem countPop_stallMapSize :
    (b.countPop currentTime).stallMapSize = b.stallMapSize := by
  unfold countPop
  split <;> rfl

@[simp] theorem countEnqueue_stallMapSize :
    (b.countEnqueue currentTime).stallMapSize = b.stallMapSize := by
  unfold countEnqueue
  split <;> rfl

/-- An enqueue that gets as far as the capacity has put the message on the heap. -/
theorem enqueue_cases (p : Params) (b : MessageBuffer α) (currentTime : Nat) (message : Message α)
    (delta : Nat) (random : Option Nat) :
    (∃ f ≠ Fault.capacity, b.enqueue p currentTime message delta random = .error f) ∨
    ∃ m arrival, m.content = message.content ∧
      b.enqueue p currentTime message delta random =
        if p.maxSize = 0 ∨
            (((pushHeap b.prioHeap m).length : Int) + b.stallMapSize) % 2 ^ 64 ≤ p.maxSize then
          .ok { b.countEnqueue currentTime with
            lastArrivalTime := arrival, prioHeap := pushHeap b.prioHeap m }
        else .error .capacity := by
  simp only [enqueue, countEnqueue_prioHeap, countEnqueue_stallMapSize]
  split
  next => exact .inl ⟨_, by simp, rfl⟩
  split
  next => exact .inl ⟨_, by simp, rfl⟩
  split
  next => exact .inl ⟨_, by simp, rfl⟩
  split
  next => exact .inl ⟨_, by simp, rfl⟩
  exact .inr ⟨_, _, by rfl, rfl⟩

/-- What an enqueue does when it succeeds. -/
theorem enqueue_eq_ok {message : Message α} {delta : Nat} {random : Option Nat}
    (h : b.enqueue p currentTime message delta random = .ok b') :
    ∃ m arrival, m.content = message.content ∧
      b' = { b.countEnqueue currentTime with
        lastArrivalTime := arrival, prioHeap := pushHeap b.prioHeap m } := by
  obtain ⟨f, -, fails⟩ | ⟨m, arrival, same, eq⟩ :=
    enqueue_cases p b currentTime message delta random
  · cases fails.symm.trans h
  · rw [eq] at h
    split at h
    · cases h
      exact ⟨m, arrival, same, rfl⟩
    · cases h

theorem dequeue_eq_ok {m : Message α} (h : b.dequeue p currentTime = .ok (m, b')) :
    ∃ rest, b.prioHeap = m :: rest ∧ b' = { b.countPop currentTime with prioHeap := rest } := by
  obtain ⟨⟨x, rest⟩, front, eq⟩ := Script.map_eq_ok.mp h
  cases eq
  exact ⟨rest, front_eq_ok front, rfl⟩

theorem recycle_eq_ok {latency : Nat} (h : b.recycle p currentTime latency = .ok b') :
    ∃ m m' rest, b.prioHeap = m :: rest ∧ m'.content = m.content ∧
      b' = { b with prioHeap := pushHeap rest m' } := by
  obtain ⟨⟨m, rest⟩, front, eq⟩ := Script.map_eq_ok.mp h
  cases eq
  exact ⟨m, _, rest, front_eq_ok front, by rfl, rfl⟩

theorem stallMessage_eq_ok {addr : Addr} (h : b.stallMessage p currentTime addr = .ok b') :
    ∃ m rest, b.prioHeap = m :: rest ∧
      b' = { b.countPop currentTime with
        prioHeap := rest
        stallMsgMap := b.stallMsgMap ++ [(addr, m)]
        stallMapSize := ((b.countPop currentTime).stallMapSize + 1).bmod (2 ^ 32) } := by
  simp only [stallMessage] at h
  split at h
  next =>
    obtain ⟨⟨m, c⟩, dequeued, eq⟩ := Script.map_eq_ok.mp h
    obtain ⟨rest, heap, rfl⟩ := dequeue_eq_ok dequeued
    cases eq
    exact ⟨m, rest, heap, by simp⟩
  next => cases h

/-- The messages of `addr` are on the heap again. -/
theorem reanalyzeMessages_eq_ok {addr : Addr} (h : b.reanalyzeMessages currentTime addr = .ok b') :
    ∃ heap, heap.Perm ((b.stallMsgMap.filter fun x => x.1 = addr).map Prod.snd ++ b.prioHeap) ∧
      b' = { b with
        prioHeap := heap
        stallMsgMap := b.stallMsgMap.filter fun x => ¬x.1 = addr
        stallMapSize := (b.stallMapSize -
          (b.stallMsgMap.filter fun x => x.1 = addr).length).bmod (2 ^ 32) } := by
  simp only [reanalyzeMessages, List.length_map] at h
  split at h
  next => cases h
  split at h
  next => cases h
  obtain ⟨heap, moved, eq⟩ := Script.map_eq_ok.mp h
  cases eq
  exact ⟨heap, reanalyzeList_perm moved, rfl⟩

end MessageBuffer

namespace BufferUse

variable {α : Type} {p : Params} {s t : BufferUse α}

theorem step_eq_some {call : BufferCall α} {r : Except Fault (BufferUse α)}
    (step : (machine p α).step s call = some r) : s.possible call ∧ s.apply p call = r := by
  simpa only [machine, Option.ite_none_right_eq_some, Option.some.injEq] using step

/-- The messages of the buffer and those taken out of it. -/
def located (s : BufferUse α) : List α :=
  s.buffer.prioHeap.map Message.content ++ s.buffer.stalled.map Message.content ++ s.dequeued

/-- A message that moves from the heap to a stall list or back stays located. -/
theorem located_perm_of_moved {b : MessageBuffer α}
    (moved : (b.prioHeap ++ b.stalled).Perm (s.buffer.prioHeap ++ s.buffer.stalled)) :
    ({ s with buffer := b } : BufferUse α).located.Perm s.located := by
  have contents := (moved.map Message.content).append_right s.dequeued
  simpa [located] using contents

theorem moved_reanalyzeMessages {b b' : MessageBuffer α} {now : Nat} {addr : Addr}
    (h : b.reanalyzeMessages now addr = .ok b') :
    (b'.prioHeap ++ b'.stalled).Perm (b.prioHeap ++ b.stalled) := by
  obtain ⟨heap, perm, rfl⟩ := MessageBuffer.reanalyzeMessages_eq_ok h
  have parts := (List.filter_append_perm (fun x => decide (x.1 = addr)) b.stallMsgMap).map Prod.snd
  refine (perm.append_right _).trans ?_
  refine (List.perm_append_comm.append_right _).trans ?_
  rw [List.append_assoc]
  refine List.Perm.append_left _ ?_
  simpa [MessageBuffer.stalled] using parts

theorem located_apply {call : BufferCall α} (h : s.apply p call = .ok t)
    (before : s.located.Perm s.enqueued) : t.located.Perm t.enqueued := by
  cases call with
  | advance => cases h; exact before
  | areNSlotsAvailable n =>
    cases h
    split <;> exact before
  | enqueue message delta random =>
    obtain ⟨b, enqueued, rfl⟩ := Script.map_eq_ok.mp h
    obtain ⟨m, arrival, same, rfl⟩ := MessageBuffer.enqueue_eq_ok enqueued
    have pushed := (MessageBuffer.pushHeap_perm s.buffer.prioHeap m).map Message.content
    have all := (pushed.append_right (s.buffer.stalled.map Message.content)).append_right s.dequeued
    rw [List.map_cons, same] at all
    simp only [located, MessageBuffer.stalled, MessageBuffer.countEnqueue_stallMsgMap] at before ⊢
    exact all.trans (before.cons message.content)
  | dequeue =>
    obtain ⟨⟨m, b⟩, dequeued, rfl⟩ := Script.map_eq_ok.mp h
    obtain ⟨rest, heap, rfl⟩ := MessageBuffer.dequeue_eq_ok dequeued
    simp only [located, MessageBuffer.stalled, heap, List.map_cons, List.cons_append,
      MessageBuffer.countPop_stallMsgMap] at before ⊢
    exact List.perm_middle.trans before
  | recycle latency =>
    obtain ⟨b, recycled, rfl⟩ := Script.map_eq_ok.mp h
    obtain ⟨m, m', rest, heap, same, rfl⟩ := MessageBuffer.recycle_eq_ok recycled
    have pushed := (MessageBuffer.pushHeap_perm rest m').map Message.content
    have all := (pushed.append_right (s.buffer.stalled.map Message.content)).append_right s.dequeued
    rw [List.map_cons, same] at all
    simp only [located, MessageBuffer.stalled, heap, List.map_cons] at before all ⊢
    exact all.trans before
  | stallMessage addr =>
    obtain ⟨b, stalled, rfl⟩ := Script.map_eq_ok.mp h
    obtain ⟨m, rest, heap, rfl⟩ := MessageBuffer.stallMessage_eq_ok stalled
    refine (located_perm_of_moved ?_).trans before
    simp only [MessageBuffer.stalled, heap, List.map_append, List.map_cons, List.map_nil,
      ← List.append_assoc, List.cons_append]
    exact List.perm_append_singleton _ _
  | reanalyzeMessages addr =>
    obtain ⟨b, moved, rfl⟩ := Script.map_eq_ok.mp h
    exact (located_perm_of_moved (moved_reanalyzeMessages moved)).trans before
  | reanalyzeAllMessages =>
    obtain ⟨b, all, rfl⟩ := Script.map_eq_ok.mp h
    refine (located_perm_of_moved ?_).trans before
    refine Script.run_keeps (P := fun b =>
      (b.prioHeap ++ b.stalled).Perm (s.buffer.prioHeap ++ s.buffer.stalled)) ?_ all (.refl _)
    intro addr _ c d kept moved
    exact (moved_reanalyzeMessages moved).trans kept

theorem reaches_located {allowed : BufferUse α → BufferCall α → Prop}
    (h : (machine p α).Reaches allowed s) : s.located.Perm s.enqueued := by
  apply h.invariant (I := fun s => s.located.Perm s.enqueued) (.refl _)
  intro s call t before _ step
  exact located_apply (step_eq_some step).2 before

/-! ### The slots -/

def held (s : BufferUse α) : Nat := s.buffer.prioHeap.length + s.buffer.stallMsgMap.length

/-- The slots granted are free. What was counted in this tick is at most what the
buffer held at the first pop and was given since. -/
structure Kept (p : Params) (s : BufferUse α) : Prop where
  stallMapSize : s.buffer.stallMapSize = s.buffer.stallMsgMap.length
  fits : s.held + s.slots ≤ p.maxSize
  pop : s.buffer.timeLastTimePop ≤ s.now
  enq : s.buffer.timeLastTimeEnqueue ≤ s.now
  counted : s.buffer.timeLastTimeEnqueue = s.now → s.buffer.msgsThisCycle + s.slots ≤ p.maxSize
  unpopped : s.buffer.timeLastTimePop < s.now → s.buffer.timeLastTimeEnqueue = s.now →
    s.buffer.msgsThisCycle ≤ s.held
  popped : s.buffer.timeLastTimePop = s.now →
    (s.buffer.timeLastTimeEnqueue < s.now →
      s.held ≤ s.buffer.sizeAtCycleStart + s.buffer.stalledAtCycleStart) ∧
    (s.buffer.timeLastTimeEnqueue = s.now →
      s.held ≤ s.buffer.sizeAtCycleStart + s.buffer.stalledAtCycleStart + s.buffer.msgsThisCycle)

section
variable (small : p.maxSize < 2 ^ 31)

theorem kept_start : Kept p ({} : BufferUse α) where
  stallMapSize := rfl
  fits := Nat.zero_le _
  pop := Nat.le_refl _
  enq := Nat.le_refl _
  counted _ := Nat.zero_le _
  unpopped _ _ := Nat.zero_le _
  popped _ := ⟨fun _ => Nat.zero_le _, fun _ => Nat.zero_le _⟩

theorem Kept.advance (h : s.Kept p) {tick : Nat} (later : s.now < tick) :
    Kept p { s with now := tick, slots := 0 } := by
  have pop := h.pop
  have enq := h.enq
  have fits := h.fits
  refine ⟨h.stallMapSize, ?_, ?_, ?_, ?_, ?_, ?_⟩ <;> simp only [held] at * <;> omega

include small in
/-- The size the check sees is at least what the buffer holds. -/
theorem Kept.currentSize (h : s.Kept p) :
    s.held ≤ s.buffer.currentSize s.now ∧
      (s.buffer.timeLastTimeEnqueue = s.now → s.buffer.msgsThisCycle ≤ s.buffer.currentSize s.now) := by
  have fits := h.fits
  have size := h.stallMapSize
  have unpopped := h.unpopped
  have popped := h.popped
  have pop := h.pop
  have enq := h.enq
  have cast : (s.buffer.stallMapSize % 2 ^ 32).toNat = s.buffer.stallMsgMap.length := by
    simp only [held] at fits
    omega
  simp only [MessageBuffer.currentSize, cast]
  simp only [held] at *
  split
  · exact ⟨Nat.le_refl _, fun same => unpopped ‹_› same⟩
  · have same : s.buffer.timeLastTimePop = s.now := by omega
    have bound := popped same
    split <;> omega

include small in
theorem Kept.grant (h : s.Kept p) {n : Nat} (finite : p.maxSize ≠ 0)
    (free : s.buffer.areNSlotsAvailable p s.now n) (noWrap : s.buffer.currentSize s.now + n < 2 ^ 32) :
    Kept p { s with slots := max s.slots n } := by
  obtain ⟨holds, counts⟩ := h.currentSize small
  have room : s.buffer.currentSize s.now + n ≤ p.maxSize := by
    rw [MessageBuffer.areNSlotsAvailable, Nat.mod_eq_of_lt noWrap] at free
    simpa [finite] using free
  have fits := h.fits
  have counted := h.counted
  refine { h with fits := ?_, counted := ?_ }
  · simp only [held] at *
    omega
  · intro same
    have := counts same
    have := counted same
    simp only at *
    omega

include small in
theorem Kept.enqueue (h : s.Kept p) (slot : 0 < s.slots) {m : Message α} {arrival : Nat}
    {enqueued : List α} :
    Kept p { s with
      buffer := { s.buffer.countEnqueue s.now with
        lastArrivalTime := arrival, prioHeap := MessageBuffer.pushHeap s.buffer.prioHeap m }
      slots := s.slots - 1
      enqueued := enqueued } := by
  have length := (MessageBuffer.pushHeap_perm s.buffer.prioHeap m).length_eq
  rw [List.length_cons] at length
  have fits := h.fits
  have counted := h.counted
  have unpopped := h.unpopped
  have popped := h.popped
  have pop := h.pop
  have enq := h.enq
  have size := h.stallMapSize
  simp only [held] at *
  by_cases first : s.buffer.timeLastTimeEnqueue < s.now
  · constructor <;> simp only [MessageBuffer.countEnqueue, first, if_true, held, length]
    · exact size
    all_goals omega
  · have same : s.buffer.timeLastTimeEnqueue = s.now := by omega
    have noWrap : (s.buffer.msgsThisCycle + 1) % 2 ^ 32 = s.buffer.msgsThisCycle + 1 := by
      have := counted same
      omega
    constructor <;> simp only [MessageBuffer.countEnqueue, first, if_false, held, length, noWrap]
    · exact size
    iterate 5 omega
    · intro now
      refine ⟨False.elim, fun same => ?_⟩
      have held := (popped now).2 same
      omega

include small in
/-- A pop, after which at most the message popped is new on a stall list. -/
theorem Kept.popping (h : s.Kept p) {m : Message α} {rest : List (Message α)}
    (heap : s.buffer.prioHeap = m :: rest) {map : List (Addr × Message α)} {size : Int}
    (dequeued : List α) (stalls : map.length ≤ s.buffer.stallMsgMap.length + 1)
    (counts : size = map.length) :
    Kept p { s with
      buffer := { s.buffer.countPop s.now with
        prioHeap := rest, stallMsgMap := map, stallMapSize := size }
      dequeued := dequeued } := by
  have fits := h.fits
  have counted := h.counted
  have popped := h.popped
  have pop := h.pop
  have enq := h.enq
  have old := h.stallMapSize
  have length : s.buffer.prioHeap.length = rest.length + 1 := by rw [heap, List.length_cons]
  simp only [held, length] at fits popped
  by_cases first : s.buffer.timeLastTimePop < s.now
  · have start : (rest.length + 1) % 2 ^ 32 = rest.length + 1 := by omega
    have stalled : (s.buffer.stallMapSize % 2 ^ 32).toNat = s.buffer.stallMsgMap.length := by omega
    constructor <;>
      simp only [MessageBuffer.countPop, first, if_true, held, length, start, stalled]
    · exact counts
    all_goals omega
  · have same : s.buffer.timeLastTimePop = s.now := by omega
    have bound := popped same
    constructor <;> simp only [MessageBuffer.countPop, first, if_false, held]
    · exact counts
    iterate 4 omega
    · exact False.elim
    · omega

/-- Messages that move within the buffer. -/
theorem Kept.moving (h : s.Kept p) {heap : List (Message α)} {map : List (Addr × Message α)}
    {size : Int} (same : heap.length + map.length = s.held) (counts : size = map.length) :
    Kept p { s with
      buffer := { s.buffer with prioHeap := heap, stallMsgMap := map, stallMapSize := size } } := by
  refine ⟨counts, ?_, h.pop, h.enq, h.counted, ?_, ?_⟩ <;> simp only [held, same]
  · exact h.fits
  · exact h.unpopped
  · exact h.popped

include small in
theorem Kept.reanalyzeMessages (h : s.Kept p) {b : MessageBuffer α} {addr : Addr}
    (moved : s.buffer.reanalyzeMessages s.now addr = .ok b) : Kept p { s with buffer := b } := by
  have fits := h.fits
  have size := h.stallMapSize
  obtain ⟨heap, perm, rfl⟩ := MessageBuffer.reanalyzeMessages_eq_ok moved
  have parts := (List.filter_append_perm (fun x => decide (x.1 = addr)) s.buffer.stallMsgMap).length_eq
  have length := perm.length_eq
  simp only [List.length_append, List.length_map] at parts length
  simp only [held] at fits
  apply h.moving
  · simp only [held]
    simp only [decide_not] at parts ⊢
    omega
  · simp only [decide_not] at parts ⊢
    rw [size, Int.bmod_eq_of_le (by omega) (by omega)]
    omega

include small in
/-- Every step of the buffer keeps the account, if the check does not wrap. -/
theorem Kept.step (h : s.Kept p) (finite : p.maxSize ≠ 0) {call : BufferCall α}
    (can : s.possible call) (noWrap : s.NoWrap call) (step : s.apply p call = .ok t) : t.Kept p := by
  have fits := h.fits
  have size := h.stallMapSize
  simp only [held] at fits
  cases call with
  | advance =>
    cases step
    exact h.advance (of_decide_eq_true can)
  | areNSlotsAvailable n =>
    cases step
    split
    next free => exact h.grant small finite free noWrap
    next => exact h
  | enqueue message delta random =>
    obtain ⟨b, enqueued, rfl⟩ := Script.map_eq_ok.mp step
    obtain ⟨m, arrival, -, rfl⟩ := MessageBuffer.enqueue_eq_ok enqueued
    exact h.enqueue small (of_decide_eq_true can)
  | dequeue =>
    obtain ⟨⟨m, b⟩, dequeued, rfl⟩ := Script.map_eq_ok.mp step
    obtain ⟨rest, heap, rfl⟩ := MessageBuffer.dequeue_eq_ok dequeued
    have kept := h.popping small heap (m.content :: s.dequeued) (Nat.le_succ _) size
    simpa using kept
  | recycle latency =>
    obtain ⟨b, recycled, rfl⟩ := Script.map_eq_ok.mp step
    obtain ⟨m, m', rest, heap, -, rfl⟩ := MessageBuffer.recycle_eq_ok recycled
    apply h.moving _ size
    simp only [held, heap, (MessageBuffer.pushHeap_perm rest m').length_eq, List.length_cons]
  | stallMessage addr =>
    obtain ⟨b, stalled, rfl⟩ := Script.map_eq_ok.mp step
    obtain ⟨m, rest, heap, rfl⟩ := MessageBuffer.stallMessage_eq_ok stalled
    have length : s.buffer.prioHeap.length = rest.length + 1 := by rw [heap, List.length_cons]
    refine h.popping small heap s.dequeued (by simp) ?_
    rw [MessageBuffer.countPop_stallMapSize, size, Int.bmod_eq_of_le (by omega) (by omega)]
    simp
  | reanalyzeMessages addr =>
    obtain ⟨b, moved, rfl⟩ := Script.map_eq_ok.mp step
    exact h.reanalyzeMessages small moved
  | reanalyzeAllMessages =>
    obtain ⟨b, all, rfl⟩ := Script.map_eq_ok.mp step
    refine Script.run_keeps (P := fun b => Kept p { s with buffer := b }) ?_ all h
    intro addr _ c d kept moved
    exact kept.reanalyzeMessages small moved

include small in
theorem reaches_kept (finite : p.maxSize ≠ 0) (h : (machine p α).Reaches NoWrap s) : s.Kept p := by
  apply h.invariant kept_start
  intro s call t kept noWrap step
  obtain ⟨can, eq⟩ := step_eq_some step
  exact kept.step small finite can noWrap eq

include small in
/-- There is room for a message that has a slot. -/
theorem Kept.room (h : s.Kept p) (slot : 0 < s.slots) (message : Message α) (delta : Nat)
    (random : Option Nat) :
    s.buffer.enqueue p s.now message delta random ≠ .error .capacity := by
  have fits := h.fits
  have size := h.stallMapSize
  simp only [held] at fits
  obtain ⟨f, other, fails⟩ | ⟨m, arrival, -, eq⟩ :=
    MessageBuffer.enqueue_cases p s.buffer s.now message delta random
  · rw [fails]
    simpa using other
  · have length := (MessageBuffer.pushHeap_perm s.buffer.prioHeap m).length_eq
    rw [List.length_cons] at length
    rw [eq, if_pos (.inr (by rw [length, size]; omega))]
    simp

end

def oneSlot : Params := { maxSize := 1 }

/-- A message is stalled in the only slot, so that there is none for the next. -/
def stalledOnce : List (BufferCall Nat) :=
  [.advance 1, .areNSlotsAvailable 1, .enqueue { content := 7 } 1 none, .advance 2,
    .stallMessage 64, .areNSlotsAvailable 1, .advance 3, .reanalyzeMessages 64, .dequeue,
    .advance 4, .areNSlotsAvailable 1]

def afterStall : BufferUse Nat where
  buffer :=
    { dequeuesThisCy := 1
      timeLastTimeEnqueue := 1
      timeLastTimePop := 3
      lastArrivalTime := 2
      sizeAtCycleStart := 1
      msgsThisCycle := 1
      msgCounter := 1 }
  now := 4
  slots := 1
  enqueued := [7]
  dequeued := [7]

end BufferUse

end Ruby.Timed

import Mathlib.Data.List.Sort
import Mathlib.Data.List.Perm.Basic

/-!
`MessageBuffer` of `gem5/src/mem/ruby/network/MessageBuffer.cc`: a heap of
messages ordered by arrival, and the messages a controller has set aside under
an address until that address is reanalysed. Latencies are left out, so a
message arrives when it is enqueued; the heap is the list of its messages in
order, each with the value `m_msg_counter` had when it was enqueued.
-/

namespace Ruby

abbrev Addr := Nat

structure MessageBuffer (α : Type) where
  prioHeap : List (Nat × α)
  stallMsgMap : List (Addr × Nat × α)
  msgCounter : Nat
  deriving DecidableEq

namespace MessageBuffer

variable {α : Type}

def empty : MessageBuffer α := ⟨[], [], 0⟩

def enqueue (b : MessageBuffer α) (message : α) : MessageBuffer α :=
  { b with
    prioHeap := b.prioHeap ++ [(b.msgCounter + 1, message)]
    msgCounter := b.msgCounter + 1 }

def peek (b : MessageBuffer α) : Option α := b.prioHeap.head?.map Prod.snd

def dequeue (b : MessageBuffer α) : MessageBuffer α :=
  { b with prioHeap := b.prioHeap.tail }

/-- The head is enqueued again, behind everything that has arrived. -/
def delayHead (b : MessageBuffer α) : MessageBuffer α :=
  match b.peek with
  | none => b
  | some message => b.dequeue.enqueue message

/-- The head goes to the end of the stall list of `addr`. -/
def stallMessage (b : MessageBuffer α) (addr : Addr) : MessageBuffer α :=
  match b.prioHeap with
  | [] => b
  | x :: rest => { b with prioHeap := rest, stallMsgMap := b.stallMsgMap ++ [(addr, x)] }

/-- `push_heap`: a message goes where its counter puts it. -/
def push (heap : List (Nat × α)) (x : Nat × α) : List (Nat × α) :=
  heap.orderedInsert (fun x y => x.1 ≤ y.1) x

/-- The messages set aside under `addr` go back on the heap, at the places they
had there. -/
def reanalyzeMessages (b : MessageBuffer α) (addr : Addr) : MessageBuffer α :=
  { b with
    prioHeap := ((b.stallMsgMap.filter fun x => x.1 = addr).map Prod.snd).foldl push b.prioHeap
    stallMsgMap := b.stallMsgMap.filter fun x => ¬ x.1 = addr }

/-- All messages of the buffer, on the heap or set aside. -/
def messages (b : MessageBuffer α) : List α :=
  b.prioHeap.map Prod.snd ++ b.stallMsgMap.map fun x => x.2.2

variable {b : MessageBuffer α} {m : α}

theorem peek_eq_some (h : b.peek = some m) : ∃ k rest, b.prioHeap = (k, m) :: rest := by
  obtain ⟨x, hx, rfl⟩ := Option.map_eq_some_iff.mp h
  exact ⟨x.1, b.prioHeap.tail, List.eq_cons_of_mem_head? hx⟩

theorem peek_mem (h : b.peek = some m) : m ∈ b.messages := by
  obtain ⟨k, rest, hb⟩ := peek_eq_some h
  simp [messages, hb]

theorem messages_enqueue (b : MessageBuffer α) (m : α) :
    (b.enqueue m).messages.Perm (m :: b.messages) := by
  have h : (b.enqueue m).messages =
      b.prioHeap.map Prod.snd ++ m :: b.stallMsgMap.map fun x => x.2.2 := by
    simp [messages, enqueue]
  rw [h]
  exact List.perm_middle

/-- Enqueueing does not change which message is at the head. -/
theorem peek_enqueue (h : b.peek = some m) (m' : α) : (b.enqueue m').peek = some m := by
  obtain ⟨k, rest, hb⟩ := peek_eq_some h
  simp [peek, enqueue, hb]

theorem messages_foldl_enqueue (ms : List α) (b : MessageBuffer α) :
    (ms.foldl enqueue b).messages.Perm (ms ++ b.messages) := by
  induction ms generalizing b with
  | nil => rfl
  | cons m ms ih =>
    exact ((ih (b.enqueue m)).trans ((messages_enqueue b m).append_left ms)).trans List.perm_middle

theorem peek_foldl_enqueue (h : b.peek = some m) (ms : List α) :
    (ms.foldl enqueue b).peek = some m := by
  induction ms generalizing b with
  | nil => exact h
  | cons m' ms ih => exact ih (peek_enqueue h m')

theorem messages_dequeue (h : b.peek = some m) : b.messages = m :: b.dequeue.messages := by
  obtain ⟨k, rest, hb⟩ := peek_eq_some h
  simp [messages, dequeue, hb]

theorem messages_delayHead (b : MessageBuffer α) : b.delayHead.messages.Perm b.messages := by
  unfold delayHead
  split
  · rfl
  · rename_i m hm
    rw [messages_dequeue hm]
    exact messages_enqueue b.dequeue m

theorem messages_stallMessage (b : MessageBuffer α) (a : Addr) :
    (b.stallMessage a).messages.Perm b.messages := by
  unfold stallMessage
  split
  · rfl
  · rename_i x rest hx
    simp only [messages, hx, List.map_append, List.map_cons, List.map_nil, List.cons_append]
    rw [← List.append_assoc]
    exact List.perm_append_singleton _ _

theorem foldl_push_perm (xs heap : List (Nat × α)) : (xs.foldl push heap).Perm (xs ++ heap) := by
  induction xs generalizing heap with
  | nil => rfl
  | cons x xs ih =>
    have pushed := (List.perm_orderedInsert (fun x y => x.1 ≤ y.1) x heap).append_left xs
    exact ((ih (push heap x)).trans pushed).trans List.perm_middle

/-- A wake-up loses no message and makes none. -/
theorem messages_reanalyzeMessages (b : MessageBuffer α) (a : Addr) :
    (b.reanalyzeMessages a).messages.Perm b.messages := by
  have heap := (foldl_push_perm ((b.stallMsgMap.filter fun x => x.1 = a).map Prod.snd)
    b.prioHeap).map Prod.snd
  have stalled := (List.filter_append_perm (fun x => decide (x.1 = a)) b.stallMsgMap).map
    fun x => x.2.2
  rw [List.map_append, List.map_map] at heap
  have h := (heap.append_right ((b.stallMsgMap.filter fun x => ¬ x.1 = a).map fun x => x.2.2)).trans
    (List.perm_append_comm.append_right _)
  rw [List.append_assoc] at h
  refine h.trans (List.Perm.append_left _ ?_)
  simpa [Function.comp_def] using stalled

end MessageBuffer

end Ruby

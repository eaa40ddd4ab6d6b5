import Mathlib
import Lab447.Lib.Machine
import Lab447.Lib.Script

/-!
The queue of miss status holding registers, `gem5/src/mem/cache/mshr_queue.cc`
over `queue.hh`, with the part of `mshr.cc` that moves targets and sets the ready
time. An entry is its index in `entries`, which stands for its pointer and for the
iterators it keeps. What an entry is for (its block, order and flags) is left out.
-/

namespace Classic

/-- `setsFlags` holds for a target that makes `isReset` false for its list. -/
structure Target where
  readyTime : Nat
  isCacheMaintenance : Bool
  setsFlags : Bool
  deriving DecidableEq

structure MSHR where
  readyTime : Nat := 0
  inService : Bool := false
  targets : List Target := []
  deferredTargets : List Target := []
  deriving DecidableEq

inductive QueueFault where
  | assertion | failedToAddToReadyList | danglingIterator
  deriving DecidableEq

namespace MSHR

def getNumTargets (m : MSHR) : Nat := m.targets.length + m.deferredTargets.length

/-- The result is `none` when there is nothing to promote. -/
def promoteDeferredTargets (m : MSHR) (curTick : Nat) : Option MSHR :=
  if m.targets.isEmpty && m.deferredTargets.isEmpty then none
  else
    let ordinary := m.deferredTargets.takeWhile fun t => !t.isCacheMaintenance
    let moved :=
      if ordinary.isEmpty then (if m.targets.isEmpty then 1 else 0) else ordinary.length
    let targets := m.targets ++ m.deferredTargets.take moved
    some { m with
      targets := targets
      deferredTargets := m.deferredTargets.drop moved
      readyTime := max curTick ((targets.head?.map Target.readyTime).getD 0) }

end MSHR

/-- `numEntries` has the reserve in it, as in the source. -/
structure MSHRQueueConfig where
  numEntries : Nat
  numReserve : Nat

structure MSHRQueue where
  entries : Nat → MSHR
  allocatedList : List Nat
  readyList : List Nat
  freeList : List Nat
  numInService : Nat
  allocated : Nat

namespace MSHRQueue

def new (cfg : MSHRQueueConfig) : MSHRQueue := ⟨fun _ => {}, [], [], List.range cfg.numEntries, 0, 0⟩

def isFull (cfg : MSHRQueueConfig) (q : MSHRQueue) : Bool :=
  decide (cfg.numEntries - cfg.numReserve ≤ q.allocated)

def readyTime (q : MSHRQueue) (m : Nat) : Nat := (q.entries m).readyTime

def inService (q : MSHRQueue) (m : Nat) : Bool := (q.entries m).inService

def setEntry (q : MSHRQueue) (m : Nat) (e : MSHR) : MSHRQueue :=
  { q with entries := Function.update q.entries m e }

/-- The loop of `addToReadyList`: in front of the first entry that is ready later. -/
def insertBefore (time : Nat → Nat) (m : Nat) : List Nat → Option (List Nat)
  | [] => none
  | e :: es => if time m < time e then some (m :: e :: es) else (insertBefore time m es).map (e :: ·)

def insertReady (time : Nat → Nat) (m : Nat) (ready : List Nat) : Option (List Nat) :=
  match ready.getLast? with
  | none => some [m]
  | some last => if time last ≤ time m then some (ready ++ [m]) else insertBefore time m ready

def addToReadyList (q : MSHRQueue) (m : Nat) : Except QueueFault MSHRQueue :=
  match insertReady q.readyTime m q.readyList with
  | none => .error .failedToAddToReadyList
  | some ready => .ok { q with readyList := ready }

/-- The target that the new entry gets is `pkt`. -/
def allocate (q : MSHRQueue) (pkt : Target) : Except QueueFault MSHRQueue :=
  match q.freeList with
  | [] => .error .assertion
  | m :: free =>
    if (q.entries m).getNumTargets ≠ 0 then .error .assertion
    else
      let entry : MSHR := { readyTime := pkt.readyTime, inService := false, targets := [pkt] }
      { q.setEntry m entry with
        freeList := free
        allocatedList := q.allocatedList ++ [m]
        allocated := q.allocated + 1 }.addToReadyList m

def markInService (q : MSHRQueue) (m : Nat) : Except QueueFault MSHRQueue :=
  if q.inService m then .error .assertion
  else .ok { q.setEntry m { q.entries m with inService := true } with
    readyList := q.readyList.erase m
    numInService := q.numInService + 1 }

def markPending (q : MSHRQueue) (m : Nat) : Except QueueFault MSHRQueue :=
  if !q.inService m then .error .assertion
  else { q.setEntry m { q.entries m with inService := false } with
    numInService := q.numInService - 1 }.addToReadyList m

/-- `splice` of the entry at the head of `later` in front of the `k`-th one of
`later`; in front of itself it stays where it is. -/
def spliceBefore (later : List Nat) (m k : Nat) : List Nat :=
  if k = 0 then later else (later.take k).tail ++ m :: later.drop k

def delay (q : MSHRQueue) (m curTick delayTicks : Nat) : Except QueueFault MSHRQueue :=
  if curTick < q.readyTime m then .error .assertion
  else if q.inService m then .error .danglingIterator
  else
    let q := q.setEntry m { q.entries m with readyTime := curTick + delayTicks }
    let earlier := q.readyList.takeWhile (· != m)
    let later := q.readyList.dropWhile (· != m)
    let it := later.findIdx fun e => decide (q.readyTime e ≤ q.readyTime m)
    .ok { q with readyList := earlier ++ spliceBefore later m it }

def deallocate (q : MSHRQueue) (m : Nat) : Except QueueFault MSHRQueue :=
  if !(q.entries m).targets.isEmpty || (q.entries m).deferredTargets.any Target.setsFlags then
    .error .assertion
  else .ok { q.setEntry m { q.entries m with inService := false } with
    allocatedList := q.allocatedList.erase m
    freeList := m :: q.freeList
    allocated := q.allocated - 1
    numInService := if q.inService m then q.numInService - 1 else q.numInService
    readyList := if q.inService m then q.readyList else q.readyList.erase m }

def popTarget (q : MSHRQueue) (m : Nat) : MSHRQueue :=
  q.setEntry m { q.entries m with targets := (q.entries m).targets.tail }

/-- The end of `forceDeallocateTarget`: an entry without targets gets its deferred
ones or is freed. -/
def deallocateIfDone (q : MSHRQueue) (m curTick : Nat) : Except QueueFault MSHRQueue :=
  if !(q.entries m).targets.isEmpty then .ok q
  else match (q.entries m).promoteDeferredTargets curTick with
    | some e => .ok (q.setEntry m e)
    | none => q.deallocate m

/-- Returns whether the queue is no longer full. -/
def forceDeallocateTarget (cfg : MSHRQueueConfig) (q : MSHRQueue) (m curTick : Nat) :
    Except QueueFault (Bool × MSHRQueue) :=
  if (q.entries m).targets.isEmpty then .error .assertion
  else ((q.popTarget m).deallocateIfDone m curTick).map fun after =>
    (q.isFull cfg && !after.isFull cfg, after)

def getNext (q : MSHRQueue) (curTick : Nat) : Option Nat :=
  match q.readyList with
  | [] => none
  | m :: _ => if curTick < q.readyTime m then none else some m

def maxTick : Nat := 2 ^ 64 - 1

def nextReadyTime (q : MSHRQueue) : Nat :=
  match q.readyList with
  | [] => maxTick
  | m :: _ => q.readyTime m

end MSHRQueue

/-- The calls on the queue, and what the cache does to an entry between them: it
adds and serves targets, and promotes the deferred ones of an entry in service. -/
inductive MSHRCall where
  | allocate (pkt : Target)
  | markInService (m : Nat)
  | markPending (m : Nat)
  | delay (m curTick delayTicks : Nat)
  | forceDeallocateTarget (m curTick : Nat)
  | deallocate (m : Nat)
  | setTargets (m : Nat) (targets deferredTargets : List Target)
  | promote (m curTick : Nat)

namespace MSHRQueue

def apply (cfg : MSHRQueueConfig) (q : MSHRQueue) : MSHRCall → Except QueueFault MSHRQueue
  | .allocate pkt => q.allocate pkt
  | .markInService m => q.markInService m
  | .markPending m => q.markPending m
  | .delay m curTick delayTicks => q.delay m curTick delayTicks
  | .forceDeallocateTarget m curTick => (q.forceDeallocateTarget cfg m curTick).map Prod.snd
  | .deallocate m => q.deallocate m
  | .setTargets m targets deferredTargets =>
    .ok (q.setEntry m { q.entries m with targets, deferredTargets })
  | .promote m curTick =>
    .ok (q.setEntry m (((q.entries m).promoteDeferredTargets curTick).getD (q.entries m)))

/-- The cache has pointers to allocated entries only, and it promotes the targets
of an entry when the response to it is there. -/
def possible (q : MSHRQueue) : MSHRCall → Bool
  | .allocate _ => true
  | .markInService m | .markPending m | .delay m _ _ | .forceDeallocateTarget m _
  | .deallocate m | .setTargets m _ _ => decide (m ∈ q.allocatedList)
  | .promote m _ => decide (m ∈ q.allocatedList) && q.inService m

def machine (cfg : MSHRQueueConfig) : Machine MSHRQueue MSHRCall QueueFault where
  start := new cfg
  step q call := if q.possible call then some (q.apply cfg call) else none

/-! ### The lists of entries -/

variable {cfg : MSHRQueueConfig} {q r : MSHRQueue} {m : Nat}

@[simp] theorem setEntry_readyTime (q : MSHRQueue) (m : Nat) (e : MSHR) :
    (q.setEntry m e).readyTime = Function.update q.readyTime m e.readyTime := by
  funext k
  by_cases h : k = m
  · subst h
    simp [readyTime, setEntry]
  · simp [readyTime, setEntry, h]

@[simp] theorem setEntry_inService (q : MSHRQueue) (m : Nat) (e : MSHR) :
    (q.setEntry m e).inService = Function.update q.inService m e.inService := by
  funext k
  by_cases h : k = m
  · subst h
    simp [inService, setEntry]
  · simp [inService, setEntry, h]

/-- Whether an allocated entry has to be on the ready list. -/
def waiting (q : MSHRQueue) (m : Nat) : Bool := !q.inService m

@[simp] theorem setEntry_waiting (q : MSHRQueue) (m : Nat) (e : MSHR) :
    (q.setEntry m e).waiting = Function.update q.waiting m (!e.inService) := by
  funext k
  by_cases h : k = m
  · subst h
    simp [waiting]
  · simp [waiting, h]

variable {l : List Nat}

/-- A filtered list and the same list filtered with another answer for one element. -/
theorem filter_update_perm (p : Nat → Bool) (b : Bool) (nodup : l.Nodup) (mem : m ∈ l) :
    (l.filter (Function.update p m b)).Perm
      (if b then m :: (l.erase m).filter p else (l.erase m).filter p) := by
  have rest : (l.erase m).filter (Function.update p m b) = (l.erase m).filter p := by
    apply List.filter_congr
    intro e he
    have : e ≠ m := by
      rintro rfl
      exact nodup.not_mem_erase he
    simp [this]
  apply ((List.perm_cons_erase mem).filter _).trans
  rw [List.filter_cons, rest]
  simp

theorem filter_perm_erase (p : Nat → Bool) (nodup : l.Nodup) (mem : m ∈ l) :
    (l.filter p).Perm (if p m then m :: (l.erase m).filter p else (l.erase m).filter p) := by
  have := filter_update_perm p (p m) nodup mem
  rwa [Function.update_eq_self] at this

theorem filter_update_of_notMem (p : Nat → Bool) (b : Bool) (h : m ∉ l) :
    l.filter (Function.update p m b) = l.filter p := by
  apply List.filter_congr
  intro e he
  have : e ≠ m := by
    rintro rfl
    exact h he
  simp [this]

/-- The entries are the free and the allocated ones, and the allocated ones are
those in service and those on the ready list; the counters are right. -/
structure Linked (cfg : MSHRQueueConfig) (q : MSHRQueue) : Prop where
  entries : (q.freeList ++ q.allocatedList).Perm (List.range cfg.numEntries)
  ready : q.readyList.Perm (q.allocatedList.filter q.waiting)
  allocated : q.allocated = q.allocatedList.length
  numInService : q.numInService = (q.allocatedList.filter q.inService).length

namespace Linked

theorem nodup_append (h : q.Linked cfg) : (q.freeList ++ q.allocatedList).Nodup :=
  h.entries.nodup_iff.mpr List.nodup_range

theorem nodup (h : q.Linked cfg) : q.allocatedList.Nodup := (List.nodup_append.mp h.nodup_append).2.1

theorem nodup_ready (h : q.Linked cfg) : q.readyList.Nodup :=
  h.ready.nodup_iff.mpr (h.nodup.filter _)

theorem mem_readyList (h : q.Linked cfg) :
    m ∈ q.readyList ↔ m ∈ q.allocatedList ∧ q.inService m = false := by
  rw [h.ready.mem_iff, List.mem_filter]
  simp [waiting]

end Linked

variable {time : Nat → Nat} {ready after : List Nat}

theorem insertBefore_perm (h : insertBefore time m ready = some after) :
    after.Perm (m :: ready) := by
  induction ready generalizing after with
  | nil => simp [insertBefore] at h
  | cons e es ih =>
    simp only [insertBefore] at h
    split at h
    · cases h
      exact List.Perm.refl _
    · obtain ⟨rest, hrest, rfl⟩ := Option.map_eq_some_iff.mp h
      exact ((ih hrest).cons e).trans (List.Perm.swap m e es)

theorem insertReady_perm (h : insertReady time m ready = some after) : after.Perm (m :: ready) := by
  unfold insertReady at h
  split at h
  · rename_i hlast
    cases h
    rw [List.getLast?_eq_none_iff.mp hlast]
  · split at h
    · cases h
      exact List.perm_append_singleton m ready
    · exact insertBefore_perm h

theorem insertBefore_sorted (sorted : ready.Pairwise fun a b => time a ≤ time b)
    (h : insertBefore time m ready = some after) : after.Pairwise fun a b => time a ≤ time b := by
  induction ready generalizing after with
  | nil => simp [insertBefore] at h
  | cons e es ih =>
    have first := (List.pairwise_cons.mp sorted).1
    simp only [insertBefore] at h
    split at h
    · cases h
      apply List.pairwise_cons.mpr ⟨?_, sorted⟩
      intro k hk
      rcases List.mem_cons.mp hk with rfl | hk
      · omega
      · have := first k hk
        omega
    · obtain ⟨rest, hrest, rfl⟩ := Option.map_eq_some_iff.mp h
      apply List.pairwise_cons.mpr ⟨?_, ih (List.pairwise_cons.mp sorted).2 hrest⟩
      intro k hk
      rcases List.mem_cons.mp ((insertBefore_perm hrest).mem_iff.mp hk) with rfl | hk
      · omega
      · exact first k hk

theorem insertReady_sorted (sorted : ready.Pairwise fun a b => time a ≤ time b)
    (h : insertReady time m ready = some after) : after.Pairwise fun a b => time a ≤ time b := by
  unfold insertReady at h
  split at h
  · cases h
    exact List.pairwise_singleton _ _
  · rename_i last hlast
    split at h
    · rename_i earlier
      cases h
      obtain ⟨front, rfl⟩ := List.getLast?_eq_some_iff.mp hlast
      apply List.pairwise_append.mpr ⟨sorted, List.pairwise_singleton _ _, ?_⟩
      intro a ha b hb
      cases List.mem_singleton.mp hb
      rcases List.mem_append.mp ha with ha | ha
      · have := (List.pairwise_append.mp sorted).2.2 a ha last (List.mem_singleton_self last)
        omega
      · cases List.mem_singleton.mp ha
        exact earlier
    · exact insertBefore_sorted sorted h

theorem addToReadyList_eq (h : q.addToReadyList m = .ok r) :
    ∃ ready, insertReady q.readyTime m q.readyList = some ready ∧ r = { q with readyList := ready } := by
  unfold addToReadyList at h
  split at h
  · cases h
  · rename_i ready hready
    cases h
    exact ⟨ready, hready, rfl⟩

/-- The search of `delay` stops at the delayed entry itself, so nothing moves. -/
theorem delay_eq (h : q.Linked cfg) (mem : m ∈ q.allocatedList) {curTick delayTicks : Nat}
    (hr : q.delay m curTick delayTicks = .ok r) :
    m ∈ q.readyList ∧ q.readyTime m ≤ curTick ∧
      r = q.setEntry m { q.entries m with readyTime := curTick + delayTicks } := by
  simp only [delay] at hr
  split at hr
  · cases hr
  split at hr
  · cases hr
  rename_i early waiting
  have ready : m ∈ q.readyList := h.mem_readyList.mpr ⟨mem, by simpa using waiting⟩
  refine ⟨ready, by omega, ?_⟩
  obtain ⟨front, back, split⟩ := List.append_of_mem ready
  have nodup := h.nodup_ready
  rw [split] at nodup
  have notfront : ∀ e ∈ front, (e != m) = true := by
    intro e he
    have := (List.nodup_append.mp nodup).2.2 e he m (List.mem_cons_self ..)
    simpa using this
  have found : q.readyList.dropWhile (· != m) = m :: back := by
    rw [split, List.dropWhile_append_of_pos notfront]
    simp
  have skipped : q.readyList.takeWhile (· != m) = front := by
    rw [split, List.takeWhile_append_of_pos notfront]
    simp
  cases hr
  simp only [setEntry, found, skipped, spliceBefore, List.findIdx_cons, le_refl, decide_true,
    cond_true, if_true, ← split]

/-! ### One call -/

/-- The ready list is in the order of the ready times. -/
def Sorted (q : MSHRQueue) : Prop := q.readyList.Pairwise fun a b => q.readyTime a ≤ q.readyTime b

theorem sorted_congr {time' : Nat → Nat} (same : ∀ e ∈ l, time' e = time e) :
    (l.Pairwise fun a b => time' a ≤ time' b) ↔ l.Pairwise fun a b => time a ≤ time b := by
  apply List.Pairwise.iff_of_mem
  intro a b ha hb
  rw [same a ha, same b hb]

variable {e : MSHR}

/-- An entry that is not on a list can change without the list's order. -/
theorem sorted_setEntry (h : m ∉ l) :
    (l.Pairwise fun a b => (q.setEntry m e).readyTime a ≤ (q.setEntry m e).readyTime b) ↔
      l.Pairwise fun a b => q.readyTime a ≤ q.readyTime b := by
  apply sorted_congr
  intro k hk
  have : k ≠ m := by
    rintro rfl
    exact h hk
  simp [this]

theorem Linked.notMem_readyList (h : q.Linked cfg) (serves : q.inService m = true) :
    m ∉ q.readyList := by
  intro hm
  rw [(h.mem_readyList.mp hm).2] at serves
  cases serves

theorem Linked.setEntry (h : q.Linked cfg) (same : e.inService = q.inService m) :
    (q.setEntry m e).Linked cfg := by
  have waiting : (q.setEntry m e).waiting = q.waiting := by
    rw [setEntry_waiting, same]
    exact Function.update_eq_self m q.waiting
  have inService : (q.setEntry m e).inService = q.inService := by
    rw [setEntry_inService, same, Function.update_eq_self]
  refine ⟨h.entries, ?_, h.allocated, ?_⟩
  · rw [waiting]
    exact h.ready
  · rw [inService]
    exact h.numInService

/-- The entry at the head of the free list is nowhere else. -/
theorem Linked.fresh (h : q.Linked cfg) {free : List Nat} (hf : q.freeList = m :: free) :
    m ∉ q.allocatedList := by
  have nodup := h.nodup_append
  rw [hf] at nodup
  intro mem
  exact (List.nodup_append.mp nodup).2.2 m (List.mem_cons_self ..) m mem rfl

theorem Linked.allocate (h : q.Linked cfg) {pkt : Target} (hr : q.allocate pkt = .ok r) :
    r.Linked cfg ∧ (q.Sorted → r.Sorted) := by
  unfold MSHRQueue.allocate at hr
  split at hr
  · cases hr
  rename_i m free hfree
  split at hr
  · cases hr
  have fresh := h.fresh hfree
  have notready : m ∉ q.readyList := fun hm => fresh (h.mem_readyList.mp hm).1
  obtain ⟨ready, hready, rfl⟩ := addToReadyList_eq hr
  have perm := insertReady_perm hready
  refine ⟨⟨?_, ?_, ?_, ?_⟩, ?_⟩
  · have entries := h.entries
    rw [hfree] at entries
    refine List.Perm.trans ?_ entries
    rw [← List.append_assoc]
    exact (List.perm_append_singleton m _)
  · refine perm.trans ?_
    show (m :: q.readyList).Perm ((q.allocatedList ++ [m]).filter (q.setEntry m _).waiting)
    rw [setEntry_waiting, List.filter_append, filter_update_of_notMem _ _ fresh]
    simp only [List.filter_cons, Function.update_self, Bool.not_false, if_true, List.filter_nil]
    exact (h.ready.cons m).trans (List.perm_append_singleton m _).symm
  · simp [h.allocated]
  · show q.numInService = ((q.allocatedList ++ [m]).filter (q.setEntry m _).inService).length
    rw [setEntry_inService, List.filter_append, filter_update_of_notMem _ _ fresh]
    simp [h.numInService]
  · intro sorted
    apply insertReady_sorted _ hready
    exact (sorted_setEntry notready).mpr sorted

theorem Linked.markInService (h : q.Linked cfg) (mem : m ∈ q.allocatedList)
    (hr : q.markInService m = .ok r) : r.Linked cfg ∧ (q.Sorted → r.Sorted) := by
  unfold MSHRQueue.markInService at hr
  split at hr
  · cases hr
  rename_i waits
  cases hr
  have before := filter_perm_erase q.waiting h.nodup mem
  have serving := filter_perm_erase q.inService h.nodup mem
  simp only [waiting, waits, Bool.not_false, if_true] at before
  simp only [waits, Bool.false_eq_true, if_false] at serving
  refine ⟨⟨h.entries, ?_, h.allocated, ?_⟩, ?_⟩
  · show (q.readyList.erase m).Perm (q.allocatedList.filter (q.setEntry m _).waiting)
    rw [setEntry_waiting]
    refine List.Perm.trans ?_ (filter_update_perm q.waiting _ h.nodup mem).symm
    have := (h.ready.trans before).erase m
    simpa using this
  · show q.numInService + 1 = (q.allocatedList.filter (q.setEntry m _).inService).length
    rw [setEntry_inService, (filter_update_perm q.inService _ h.nodup mem).length_eq, h.numInService,
      serving.length_eq]
    simp
  · intro sorted
    exact (sorted_setEntry h.nodup_ready.not_mem_erase).mpr (sorted.sublist List.erase_sublist)

theorem Linked.markPending (h : q.Linked cfg) (mem : m ∈ q.allocatedList)
    (hr : q.markPending m = .ok r) : r.Linked cfg ∧ (q.Sorted → r.Sorted) := by
  unfold MSHRQueue.markPending at hr
  split at hr
  · cases hr
  rename_i serves
  simp only [Bool.not_eq_true', Bool.not_eq_false] at serves
  obtain ⟨ready, hready, rfl⟩ := addToReadyList_eq hr
  have perm := insertReady_perm hready
  have before := filter_perm_erase q.waiting h.nodup mem
  have serving := filter_perm_erase q.inService h.nodup mem
  simp only [waiting, serves, Bool.not_true, Bool.false_eq_true, if_false] at before
  simp only [serves, if_true] at serving
  have notready := h.notMem_readyList serves
  refine ⟨⟨h.entries, ?_, h.allocated, ?_⟩, ?_⟩
  · refine perm.trans ?_
    show (m :: q.readyList).Perm (q.allocatedList.filter (q.setEntry m _).waiting)
    rw [setEntry_waiting]
    refine List.Perm.trans ?_ (filter_update_perm q.waiting _ h.nodup mem).symm
    simpa using h.ready.trans before
  · show q.numInService - 1 = (q.allocatedList.filter (q.setEntry m _).inService).length
    rw [setEntry_inService, (filter_update_perm q.inService _ h.nodup mem).length_eq, h.numInService,
      serving.length_eq]
    simp
  · intro sorted
    apply insertReady_sorted _ hready
    exact (sorted_setEntry notready).mpr sorted

theorem Linked.deallocate (h : q.Linked cfg) (mem : m ∈ q.allocatedList)
    (hr : q.deallocate m = .ok r) : r.Linked cfg ∧ (q.Sorted → r.Sorted) := by
  unfold MSHRQueue.deallocate at hr
  split at hr
  · cases hr
  cases hr
  have gone : m ∉ q.allocatedList.erase m := h.nodup.not_mem_erase
  have before := filter_perm_erase q.waiting h.nodup mem
  have serving := filter_perm_erase q.inService h.nodup mem
  have length := List.length_erase_of_mem mem
  have entries : (m :: q.freeList ++ q.allocatedList.erase m).Perm (List.range cfg.numEntries) := by
    refine List.Perm.trans ?_ h.entries
    exact List.perm_middle.symm.trans ((List.perm_cons_erase mem).symm.append_left _)
  have allocated : q.allocated - 1 = (q.allocatedList.erase m).length := by
    rw [h.allocated, length]
  cases hs : q.inService m with
  | true =>
    simp only [waiting, hs, Bool.not_true, Bool.false_eq_true, if_false] at before
    simp only [hs, if_true] at serving
    have notready := h.notMem_readyList hs
    refine ⟨⟨entries, ?_, allocated, ?_⟩, ?_⟩
    · show q.readyList.Perm ((q.allocatedList.erase m).filter (q.setEntry m _).waiting)
      rw [setEntry_waiting, filter_update_of_notMem _ _ gone]
      exact h.ready.trans before
    · show q.numInService - 1 = ((q.allocatedList.erase m).filter (q.setEntry m _).inService).length
      rw [setEntry_inService, filter_update_of_notMem _ _ gone, h.numInService, serving.length_eq]
      rfl
    · intro sorted
      exact (sorted_setEntry notready).mpr sorted
  | false =>
    simp only [waiting, hs, Bool.not_false, if_true] at before
    simp only [hs, Bool.false_eq_true, if_false] at serving
    refine ⟨⟨entries, ?_, allocated, ?_⟩, ?_⟩
    · show (q.readyList.erase m).Perm ((q.allocatedList.erase m).filter (q.setEntry m _).waiting)
      rw [setEntry_waiting, filter_update_of_notMem _ _ gone]
      have := (h.ready.trans before).erase m
      simpa using this
    · show q.numInService = ((q.allocatedList.erase m).filter (q.setEntry m _).inService).length
      rw [setEntry_inService, filter_update_of_notMem _ _ gone, h.numInService, serving.length_eq]
    · intro sorted
      exact (sorted_setEntry h.nodup_ready.not_mem_erase).mpr (sorted.sublist List.erase_sublist)

/-- The entry of the ready list that a call gives a new ready time, and the time. -/
def retimed (q : MSHRQueue) : MSHRCall → Option (Nat × Nat)
  | .delay m curTick delayTicks => some (m, curTick + delayTicks)
  | .forceDeallocateTarget m curTick =>
    let popped := (q.popTarget m).entries m
    if q.inService m || !popped.targets.isEmpty then none
    else (popped.promoteDeferredTargets curTick).map fun e => (m, e.readyTime)
  | _ => none

/-- A new ready time does not take the entry past another one of the ready list. -/
def Fits (q : MSHRQueue) (call : MSHRCall) : Prop :=
  ∀ m time, q.retimed call = some (m, time) →
    ∀ front back, q.readyList = front ++ m :: back →
      (∀ e ∈ front, q.readyTime e ≤ time) ∧ ∀ e ∈ back, time ≤ q.readyTime e

variable {call : MSHRCall}

theorem fits_of_retimed_eq_none (h : q.retimed call = none) : q.Fits call := by
  intro m time hm
  rw [h] at hm
  cases hm

/-- A sorted ready list stays sorted exactly when the new time of an entry fits. -/
theorem Linked.sorted_setEntry_iff (h : q.Linked cfg) (sorted : q.Sorted) (ready : m ∈ q.readyList)
    (e : MSHR) : (q.setEntry m e).Sorted ↔ ∀ front back, q.readyList = front ++ m :: back →
      (∀ k ∈ front, q.readyTime k ≤ e.readyTime) ∧ ∀ k ∈ back, e.readyTime ≤ q.readyTime k := by
  have nodup := h.nodup_ready
  have outside : ∀ front back, q.readyList = front ++ m :: back → m ∉ front ∧ m ∉ back := by
    intro front back split
    rw [split] at nodup
    obtain ⟨-, behind, apart⟩ := List.nodup_append.mp nodup
    exact ⟨fun hm => apart m hm m (List.mem_cons_self ..) rfl, (List.nodup_cons.mp behind).1⟩
  have other : ∀ k, k ≠ m → (q.setEntry m e).readyTime k = q.readyTime k := by
    intro k hk
    simp [hk]
  have own : (q.setEntry m e).readyTime m = e.readyTime := by simp
  have list : (q.setEntry m e).readyList = q.readyList := rfl
  constructor
  · intro after front back split
    obtain ⟨notfront, notback⟩ := outside front back split
    unfold Sorted at after
    rw [list, split] at after
    obtain ⟨-, behind, across⟩ := List.pairwise_append.mp after
    constructor
    · intro k hk
      have := across k hk m (List.mem_cons_self ..)
      rwa [own, other k (ne_of_mem_of_not_mem hk notfront)] at this
    · intro k hk
      have := (List.pairwise_cons.mp behind).1 k hk
      rwa [own, other k (ne_of_mem_of_not_mem hk notback)] at this
  · intro fits
    obtain ⟨front, back, split⟩ := List.append_of_mem ready
    obtain ⟨notfront, notback⟩ := outside front back split
    obtain ⟨earlier, later⟩ := fits front back split
    unfold Sorted at sorted ⊢
    rw [split] at sorted
    rw [list, split]
    obtain ⟨hfront, behind, across⟩ := List.pairwise_append.mp sorted
    obtain ⟨-, hback⟩ := List.pairwise_cons.mp behind
    apply List.pairwise_append.mpr
    refine ⟨(sorted_setEntry notfront).mpr hfront,
      List.pairwise_cons.mpr ⟨?_, (sorted_setEntry notback).mpr hback⟩, ?_⟩
    · intro k hk
      rw [own, other k (ne_of_mem_of_not_mem hk notback)]
      exact later k hk
    · intro j hj k hk
      rw [other j (ne_of_mem_of_not_mem hj notfront)]
      rcases List.mem_cons.mp hk with rfl | hk
      · rw [own]
        exact earlier j hj
      · rw [other k (ne_of_mem_of_not_mem hk notback)]
        exact across j hj k (List.mem_cons_of_mem _ hk)

/-- What one call does to the order, for a queue in order: it keeps it, if it
gives no entry of the ready list a new time, or if the new time fits. -/
structure Steps (cfg : MSHRQueueConfig) (q : MSHRQueue) (call : MSHRCall) (r : MSHRQueue) : Prop where
  linked : r.Linked cfg
  sorted : q.Sorted → (r.Sorted ↔ q.Fits call)

theorem Steps.of_keeps (none_ : q.retimed call = none) (h : r.Linked cfg ∧ (q.Sorted → r.Sorted)) :
    Steps cfg q call r :=
  ⟨h.1, fun sorted => iff_of_true (h.2 sorted) (fits_of_retimed_eq_none none_)⟩

theorem Linked.steps_retimed (h : q.Linked cfg) (same : e.inService = q.inService m)
    (ready : m ∈ q.readyList) (some_ : q.retimed call = some (m, e.readyTime)) :
    Steps cfg q call (q.setEntry m e) := by
  refine ⟨h.setEntry same, fun sorted => (h.sorted_setEntry_iff sorted ready e).trans ?_⟩
  constructor
  · intro fits k time hk
    rw [some_] at hk
    cases hk
    exact fits
  · intro fits
    exact fits m e.readyTime some_

/-- An entry that keeps its ready time, or is not on the ready list, changes
nothing in the order. -/
theorem Linked.keeps_setEntry (h : q.Linked cfg) (same : e.inService = q.inService m)
    (time : e.readyTime = q.readyTime m ∨ m ∉ q.readyList) :
    (q.setEntry m e).Linked cfg ∧ (q.Sorted → (q.setEntry m e).Sorted) := by
  refine ⟨h.setEntry same, fun sorted => ?_⟩
  rcases time with time | notready
  · unfold Sorted at sorted ⊢
    rw [setEntry_readyTime, time, Function.update_eq_self]
    exact sorted
  · exact (sorted_setEntry notready).mpr sorted

theorem promoteDeferredTargets_inService {x : MSHR} {curTick : Nat}
    (h : x.promoteDeferredTargets curTick = some e) : e.inService = x.inService := by
  unfold MSHR.promoteDeferredTargets at h
  split at h
  · cases h
  · cases h
    rfl

theorem Linked.forceDeallocateTarget (h : q.Linked cfg) (mem : m ∈ q.allocatedList) {curTick : Nat}
    (hr : q.apply cfg (.forceDeallocateTarget m curTick) = .ok r) :
    Steps cfg q (.forceDeallocateTarget m curTick) r := by
  simp only [apply, MSHRQueue.forceDeallocateTarget] at hr
  split at hr
  · cases hr
  obtain ⟨_, told, rfl⟩ := Script.map_eq_ok.mp hr
  obtain ⟨after, hd, rfl⟩ := Script.map_eq_ok.mp told
  have entry : (q.popTarget m).entries m = { q.entries m with targets := (q.entries m).targets.tail } := by
    simp [popTarget, MSHRQueue.setEntry]
  have popped := h.keeps_setEntry
    (e := { q.entries m with targets := (q.entries m).targets.tail }) rfl (.inl rfl)
  unfold deallocateIfDone at hd
  split at hd
  · rename_i left
    cases hd
    apply Steps.of_keeps _ popped
    simp only [retimed]
    rw [left, Bool.or_true, if_pos rfl]
  rename_i empty
  simp only [Bool.not_eq_true] at empty
  split at hd
  · rename_i e promoted
    cases hd
    have same : e.inService = q.inService m := by
      rw [promoteDeferredTargets_inService promoted, entry]
      rfl
    have again : (q.popTarget m).setEntry m e = q.setEntry m e := by
      simp [popTarget, MSHRQueue.setEntry, Function.update_idem]
    rw [again]
    cases hs : q.inService m with
    | true =>
      apply Steps.of_keeps
      · simp [retimed, hs]
      · exact h.keeps_setEntry same (.inr (h.notMem_readyList hs))
    | false =>
      apply h.steps_retimed same (h.mem_readyList.mpr ⟨mem, hs⟩)
      simp only [retimed]
      rw [hs, empty, if_neg (by decide), promoted]
      rfl
  · rename_i nothing
    have freed := popped.1.deallocate mem hd
    apply Steps.of_keeps
    · simp only [retimed]
      rw [nothing]
      split <;> rfl
    · exact ⟨freed.1, fun sorted => freed.2 (popped.2 sorted)⟩

theorem Linked.steps (h : q.Linked cfg) (hr : (machine cfg).step q call = some (.ok r)) :
    Steps cfg q call r := by
  simp only [machine] at hr
  split at hr
  swap
  · cases hr
  rename_i possible
  have hr := Option.some.inj hr
  cases call with
  | allocate pkt => exact .of_keeps rfl (h.allocate hr)
  | markInService m => exact .of_keeps rfl (h.markInService (of_decide_eq_true possible) hr)
  | markPending m => exact .of_keeps rfl (h.markPending (of_decide_eq_true possible) hr)
  | deallocate m => exact .of_keeps rfl (h.deallocate (of_decide_eq_true possible) hr)
  | forceDeallocateTarget m curTick => exact h.forceDeallocateTarget (of_decide_eq_true possible) hr
  | delay m curTick delayTicks =>
    obtain ⟨ready, -, rfl⟩ := delay_eq h (of_decide_eq_true possible) hr
    exact h.steps_retimed rfl ready rfl
  | setTargets m targets deferredTargets =>
    cases hr
    exact .of_keeps rfl (h.keeps_setEntry rfl (.inl rfl))
  | promote m curTick =>
    cases hr
    simp only [MSHRQueue.possible, Bool.and_eq_true] at possible
    apply Steps.of_keeps rfl (h.keeps_setEntry _ (.inr (h.notMem_readyList possible.2)))
    cases hp : (q.entries m).promoteDeferredTargets curTick with
    | none => rfl
    | some e => exact promoteDeferredTargets_inService hp

/-! ### Whole runs -/

theorem new_linked (cfg : MSHRQueueConfig) : (new cfg).Linked cfg :=
  ⟨by simp [new], by simp [new], rfl, rfl⟩

/-- What the queue should have between calls. -/
structure Holds (cfg : MSHRQueueConfig) (q : MSHRQueue) : Prop where
  linked : q.Linked cfg
  sorted : q.Sorted
  next : ∀ curTick, (∃ m ∈ q.readyList, q.readyTime m ≤ curTick) →
    ∃ m ∈ q.readyList, q.getNext curTick = some m ∧ q.readyTime m ≤ curTick
  earliest : q.readyList ≠ [] →
    (∃ m ∈ q.readyList, q.nextReadyTime = q.readyTime m) ∧
      ∀ m ∈ q.readyList, q.nextReadyTime ≤ q.readyTime m

theorem Linked.holds_iff (h : q.Linked cfg) : q.Holds cfg ↔ q.Sorted := by
  refine ⟨Holds.sorted, fun sorted => ⟨h, sorted, ?_, ?_⟩⟩
  · rintro curTick ⟨m, hm, ready⟩
    unfold Sorted at sorted
    unfold getNext
    cases hl : q.readyList with
    | nil =>
      rw [hl] at hm
      cases hm
    | cons first rest =>
      rw [hl] at hm sorted
      have least : q.readyTime first ≤ q.readyTime m := by
        rcases List.mem_cons.mp hm with rfl | hm
        · exact le_refl _
        · exact (List.pairwise_cons.mp sorted).1 m hm
      have now : ¬ curTick < q.readyTime first := by omega
      exact ⟨first, List.mem_cons_self .., if_neg now, by omega⟩
  · intro nonempty
    unfold Sorted at sorted
    unfold nextReadyTime
    cases hl : q.readyList with
    | nil => exact absurd hl nonempty
    | cons first rest =>
      rw [hl] at sorted
      refine ⟨⟨first, List.mem_cons_self .., rfl⟩, ?_⟩
      intro m hm
      rcases List.mem_cons.mp hm with rfl | hm
      · exact le_refl _
      · exact (List.pairwise_cons.mp sorted).1 m hm

/-- The lists and counters of the queue are right in every run. Its ready list is
in order, so that the first entry is the one to serve, exactly as long as no entry
on it gets a ready time that belongs behind a later entry of it or before an
earlier one: `delay` leaves the entry where it is. -/
theorem queue_holds_iff (cfg : MSHRQueueConfig) (calls : List MSHRCall) (last : MSHRQueue)
    (hr : (machine cfg).run (new cfg) calls = some last) :
    (∀ before after, calls = before ++ after →
      ∀ q, (machine cfg).run (new cfg) before = some q → q.Holds cfg) ↔
    ∀ before call after, calls = before ++ call :: after →
      ∀ q, (machine cfg).run (new cfg) before = some q → q.Fits call := by
  apply Machine.forall_run_iff (I := fun q => q.Linked cfg ∧ q.Sorted) _ _ _ _ hr
  · rintro q ⟨linked, sorted⟩
    exact linked.holds_iff.mpr sorted
  · rintro q call r ⟨linked, sorted⟩ step fits
    have steps := linked.steps step
    exact ⟨steps.linked, (steps.sorted sorted).mpr fits⟩
  · rintro q call r ⟨linked, sorted⟩ step holds
    exact ((linked.steps step).sorted sorted).mp holds.sorted
  · exact ⟨new_linked cfg, List.Pairwise.nil⟩

/-- The second of two misses is ready first. -/
theorem second_miss_next :
    ∃ q, (machine ⟨2, 0⟩).run (new ⟨2, 0⟩)
        [.allocate ⟨3, false, true⟩, .allocate ⟨1, false, true⟩] = some q ∧
      q.Holds ⟨2, 0⟩ ∧ q.readyList = [1, 0] ∧ q.getNext 2 = some 1 := by
  refine ⟨_, rfl, ?_, rfl, rfl⟩
  apply (queue_holds_iff ⟨2, 0⟩ [.allocate ⟨3, false, true⟩, .allocate ⟨1, false, true⟩] _ rfl).mpr
    _ _ [] (List.append_nil _).symm _ rfl
  intro before call after split q _
  have mem : call ∈ [MSHRCall.allocate ⟨3, false, true⟩, .allocate ⟨1, false, true⟩] := by
    rw [split]
    simp
  apply fits_of_retimed_eq_none
  simp only [List.mem_cons, List.not_mem_nil, or_false] at mem
  rcases mem with rfl | rfl
  · rfl
  · rfl

/-- Two misses that are ready at once, of which the first is delayed: it stays in
front, and the second is not found although it is ready. -/
theorem delayed_miss_in_front :
    ∃ q, (machine ⟨2, 0⟩).run (new ⟨2, 0⟩)
        [.allocate ⟨0, false, true⟩, .allocate ⟨0, false, true⟩, .delay 0 0 5] = some q ∧
      q.readyList = [0, 1] ∧ q.readyTime 0 = 5 ∧ q.readyTime 1 = 0 ∧
      q.getNext 0 = none ∧ q.nextReadyTime = 5 :=
  ⟨_, rfl, rfl, rfl, rfl, rfl, rfl⟩

end MSHRQueue

end Classic

import Lab447.Classic.Targets
import Lab447.Lib.Machine
import Lab447.Lib.Script

/-!
One miss status holding register, `MSHR` of `gem5/src/mem/cache/mshr.cc`, over its whole
history, with the calls that its cache and the caches below make. The data of packets
and their assertions on their own flags are left out.
-/

namespace Classic.Misses

inductive MissFault where
  | assertion | panic | emptyList
  deriving DecidableEq

structure MSHR where
  blkSize : Nat := 0
  readyTime : Nat := 0
  order : Nat := 0
  inService : Bool := false
  downstreamPending : Bool := false
  pendingModified : Bool := false
  postInvalidate : Bool := false
  postDowngrade : Bool := false
  wasWholeLineWrite : Bool := false
  isForward : Bool := false
  targets : TargetList := .init 0
  deferredTargets : TargetList := .init 0
  deriving DecidableEq

namespace MSHR

open TargetList

variable (m : MSHR)

def allocate (blkSize : Nat) (target : Packet) (whenReady order : Nat) (allocOnFill : Bool) :
    MSHR :=
  let source : Source := if target.cmd = .HardPFReq then .FromPrefetcher else .FromCPU
  { m with
    blkSize := blkSize
    readyTime := whenReady
    order := order
    isForward := false
    wasWholeLineWrite := false
    inService := false
    downstreamPending := false
    targets := { m.targets with blkSize := blkSize }.resetFlags.add target whenReady order
      source true allocOnFill
    deferredTargets := { m.deferredTargets with blkSize := blkSize }.resetFlags }

def markInService (pendingModifiedResp : Bool) : Except MissFault MSHR :=
  if m.inService then .error .assertion
  else .ok { m with
    inService := true
    pendingModified := m.targets.flags.needsWritable || pendingModifiedResp
    postInvalidate := false
    postDowngrade := false
    targets :=
      if m.downstreamPending then m.targets
      else { m.targets with targets := TargetList.clearDownstreamPending m.targets.targets }
    wasWholeLineWrite := m.targets.isWholeLineWrite }

def clearDownstreamPending : Except MissFault MSHR :=
  if !m.downstreamPending then .error .assertion
  else .ok { m with
    downstreamPending := false
    targets := { m.targets with targets := TargetList.clearDownstreamPending m.targets.targets } }

def deallocate : Except MissFault MSHR :=
  if !m.targets.targets.isEmpty || !m.deferredTargets.isReset then .error .assertion
  else .ok { m with targets := m.targets.resetFlags, inService := false }

/-- The condition of `allocateTarget` for the deferred list; `tgt` is the first target. -/
def defers (tgt pkt : Packet) : Bool :=
  pkt.req.isCacheMaintenance || tgt.req.isCacheMaintenance ||
    !m.deferredTargets.targets.isEmpty ||
    (m.inService && (m.postInvalidate ||
      (pkt.cmd.needsWritable && (!m.pendingModified || m.postDowngrade || m.isForward))))

def allocateTarget (pkt : Packet) (whenReady order : Nat) (allocOnFill : Bool) :
    Except MissFault MSHR :=
  if pkt.cmd = .HardPFReq then .error .assertion
  else
    match m.targets.targets.head? with
    | none => .error .emptyList
    | some tgt =>
      if m.defers tgt.pkt pkt then
        let pkt := if m.inService && m.postInvalidate then replaceUpgrade pkt else pkt
        .ok { m with
          deferredTargets := m.deferredTargets.add pkt whenReady order .FromCPU true allocOnFill }
      else
        .ok { m with
          targets := m.targets.add pkt whenReady order .FromCPU (!m.inService) allocOnFill }

/-- The copy of a snooped packet that is replayed later, at the address `ptr`. -/
def snoopCopy (pkt : Packet) (willRespond : Bool) (ptr : Nat) : Packet :=
  if willRespond then { pkt with ptr := ptr, flags := {} }
  else { pkt with
    ptr := ptr
    flags := {}
    addr := pkt.addr - pkt.addr % m.blkSize
    size := m.blkSize
    hasMSHR := false }

/-- The last part of `handleSnoop`, where the request of the register precedes the
snooped one. -/
def recordSnoop (pkt : Packet) (order ptr curTick : Nat) : Bool × Packet × MSHR :=
  let willRespond := m.pendingModified && pkt.cmd.needsResponse && !pkt.cmd.isClean
  let saved := m.pendingModified || pkt.cmd.isInvalidate
  let downgrades := !pkt.cmd.needsWritable && !pkt.req.uncacheable
  let flags :=
    if saved && willRespond then
      { pkt.flags with cacheResponding := true, responderHadWritable := true }
    else if saved && m.pendingModified && pkt.cmd.isClean then
      { pkt.flags with satisfied := true }
    else pkt.flags
  (willRespond,
    { pkt with flags := if downgrades then { flags with hasSharers := true } else flags },
    { m with
      targets :=
        if saved then
          m.targets.add (m.snoopCopy pkt willRespond ptr) curTick order .FromSnoop
            (m.downstreamPending && m.targets.flags.needsWritable) false
        else m.targets
      postInvalidate :=
        m.postInvalidate || (saved && (pkt.cmd.needsWritable || pkt.cmd.isInvalidate))
      postDowngrade := m.postDowngrade || downgrades })

/-- The results are the value returned and the snooped packet; `ptr` is where a copy of
it is allocated. -/
def handleSnoop (pkt : Packet) (order ptr curTick : Nat) :
    Except MissFault (Bool × Packet × MSHR) :=
  let takes := pkt.cmd.needsWritable || pkt.req.isCacheInvalidate
  if pkt.cmd.needsWritable != pkt.cmd.isInvalidate && !pkt.req.isCacheMaintenance then
    .error .panic
  else if !m.inService || (pkt.flags.expressSnoop && m.downstreamPending) then
    .ok (false, pkt,
      if takes then
        { m with
          targets := m.targets.replaceUpgrades
          deferredTargets := m.deferredTargets.replaceUpgrades }
      else m)
  else
    let m :=
      if takes then { m with deferredTargets := m.deferredTargets.replaceUpgrades } else m
    match m.targets.targets.head? with
    | none => .error .emptyList
    | some tgt =>
      if m.postInvalidate || tgt.pkt.req.isCacheInvalidate then .ok (true, pkt, m)
      else .ok (m.recordSnoop pkt order ptr curTick)

/-- The loop over the targets of an ordinary response: the serviced targets and those
that stay. A locked read is serviced and stays with all behind it. -/
def serviceAll : List Target → List Target × List Target
  | [] => ([], [])
  | t :: ts =>
    if t.pkt.cmd = .LockedRMWReadReq then ([t], t :: ts)
    else (t :: (serviceAll ts).1, (serviceAll ts).2)

/-- The same for a response that invalidates, which services the first target and the
snoops. -/
def serviceFirst : List Target → Except MissFault (List Target × List Target)
  | [] => .error .emptyList
  | t :: ts =>
    if t.source = .FromSnoop then .error .assertion
    else if t.pkt.cmd = .LockedRMWReadReq then .ok ([t], t :: ts)
    else if ts.any fun u => decide (u.source = .FromPrefetcher) then .error .assertion
    else .ok (t :: ts.filter (fun u => decide (u.source ≠ .FromCPU)),
      ts.filter fun u => decide (u.source = .FromCPU))

def extractServiceableTargets (cmd : MemCmd) : Except MissFault (TargetList × MSHR) :=
  (if cmd = .ReadRespWithInvalidate then serviceFirst m.targets.targets
    else .ok (serviceAll m.targets.targets)).map fun (ready, left) =>
      ({ TargetList.init m.blkSize with targets := ready }.populateFlags,
        { m with targets := { m.targets with targets := left }.populateFlags })

/-- How many of the deferred targets `promoteDeferredTargets` moves. -/
def promoted : Nat :=
  let ordinary := m.deferredTargets.targets.takeWhile fun t => !t.pkt.req.isCacheMaintenance
  if ordinary.isEmpty then (if m.targets.targets.isEmpty then 1 else 0) else ordinary.length

def promoteDeferredTargets (curTick : Nat) : Bool × MSHR :=
  if m.targets.targets.isEmpty && m.deferredTargets.targets.isEmpty then (false, m)
  else
    let moved := m.targets.targets ++ m.deferredTargets.targets.take m.promoted
    (true, { m with
      targets := { m.targets with targets := moved }.populateFlags
      deferredTargets :=
        { m.deferredTargets with
          targets := m.deferredTargets.targets.drop m.promoted }.populateFlags
      order := (moved.head?.map Target.order).getD 0
      readyTime := max curTick ((moved.head?.map Target.readyTime).getD 0) })

/-- `std::find_if_not`: the targets before the one found and the rest. -/
def findIfNot (pred : Target → Except MissFault Bool) :
    List Target → Except MissFault (List Target × List Target)
  | [] => .ok ([], [])
  | t :: ts => (pred t).bind fun holds =>
      if holds then (findIfNot pred ts).map fun (before, rest) => (t :: before, rest)
      else .ok ([], t :: ts)

def promoteIf (pred : Target → Except MissFault Bool) : Except MissFault MSHR :=
  if m.downstreamPending then .error .assertion
  else (findIfNot pred m.deferredTargets.targets).map fun (before, rest) =>
    { m with
      targets := { m.targets with
        targets := m.targets.targets ++ TargetList.clearDownstreamPending before }
      deferredTargets := { m.deferredTargets with targets := rest }.populateFlags }

def promoteReadable : Except MissFault MSHR :=
  if m.deferredTargets.targets.isEmpty then .ok m
  else if !m.inService then .error .assertion
  else if m.postInvalidate then .ok m
  else m.promoteIf fun t =>
    if t.source ≠ .FromCPU then .error .assertion
    else .ok (!t.pkt.req.isCacheInvalidate && !t.pkt.cmd.needsWritable)

def promoteWritable : Except MissFault MSHR :=
  match m.deferredTargets.targets.head? with
  | none => .ok m
  | some first =>
    if !m.deferredTargets.flags.needsWritable then .ok m
    else if !m.inService then .error .assertion
    else if m.postInvalidate || m.postDowngrade || first.pkt.req.isCacheInvalidate then .ok m
    else if m.targets.flags.needsWritable then .error .assertion
    else
      let targets :=
        { m.targets with flags := { m.targets.flags with needsWritable := true } }
      promoteIf { m with targets := targets } fun t =>
        if t.source ≠ .FromCPU then .error .assertion
        else .ok (!t.pkt.req.isCacheInvalidate)

/-- What `MSHRQueue::markPending` does to the register. -/
def markPending : Except MissFault MSHR :=
  if !m.inService then .error .assertion else .ok { m with inService := false }

end MSHR

/-! ### The history of a register -/

/-- The targets of the CPU in a list, each known by its order and its packet. -/
def cpu (ts : List Target) : List (Nat × Nat) :=
  (ts.filter fun t => decide (t.source = .FromCPU)).map fun t => (t.order, t.pkt.ptr)

/-- The targets that wait: the regular ones followed by the deferred ones. -/
def MSHR.waiting (m : MSHR) : List Target := m.targets.targets ++ m.deferredTargets.targets

/-- A register with what happened since it was last allocated: the targets of the CPU
that it was given, and those that `extractServiceableTargets` returned. -/
structure MissHistory where
  mshr : MSHR := {}
  live : Bool := false
  allocated : List (Nat × Nat) := []
  served : List (Nat × Nat) := []
  deriving DecidableEq

/-- `retire` is the end of `BaseCache::recvTimingResp`. The cache sets `isForward`
before it sends the request, and the caches below set and clear `downstreamPending`. -/
inductive MissCall where
  | allocate (blkSize : Nat) (target : Packet) (whenReady order : Nat) (allocOnFill : Bool)
  | allocateTarget (pkt : Packet) (whenReady order : Nat) (allocOnFill : Bool)
  | handleSnoop (pkt : Packet) (order ptr curTick : Nat)
  | setForward (isForward : Bool)
  | setDownstreamPending
  | clearDownstreamPending
  | markInService (pendingModifiedResp : Bool)
  | promoteReadable
  | promoteWritable
  | extractServiceableTargets (cmd : MemCmd)
  | promoteDeferredTargets (curTick : Nat)
  | retire (curTick : Nat)

namespace MissHistory

variable (s : MissHistory)

/-- Only a register that is free is allocated, and only one that is allocated is used. -/
def possible : MissCall → Bool
  | .allocate .. => !s.live
  | _ => s.live

def apply : MissCall → Except MissFault MissHistory
  | .allocate blkSize target whenReady order allocOnFill =>
    .ok {
      mshr := s.mshr.allocate blkSize target whenReady order allocOnFill
      live := true
      allocated := if target.cmd = .HardPFReq then [] else [(order, target.ptr)] }
  | .allocateTarget pkt whenReady order allocOnFill =>
    (s.mshr.allocateTarget pkt whenReady order allocOnFill).map fun m =>
      { s with mshr := m, allocated := s.allocated ++ [(order, pkt.ptr)] }
  | .handleSnoop pkt order ptr curTick =>
    (s.mshr.handleSnoop pkt order ptr curTick).map fun (_, _, m) => { s with mshr := m }
  | .setForward isForward => .ok { s with mshr := { s.mshr with isForward } }
  | .setDownstreamPending =>
    if s.mshr.downstreamPending then .error .assertion
    else .ok { s with mshr := { s.mshr with downstreamPending := true } }
  | .clearDownstreamPending => s.mshr.clearDownstreamPending.map fun m => { s with mshr := m }
  | .markInService pendingModifiedResp =>
    (s.mshr.markInService pendingModifiedResp).map fun m => { s with mshr := m }
  | .promoteReadable => s.mshr.promoteReadable.map fun m => { s with mshr := m }
  | .promoteWritable => s.mshr.promoteWritable.map fun m => { s with mshr := m }
  | .extractServiceableTargets cmd =>
    (s.mshr.extractServiceableTargets cmd).map fun (ready, m) =>
      { s with mshr := m, served := s.served ++ cpu ready.targets }
  | .promoteDeferredTargets curTick =>
    .ok { s with mshr := (s.mshr.promoteDeferredTargets curTick).2 }
  | .retire curTick =>
    match s.mshr.promoteDeferredTargets curTick with
    | (true, m) => m.markPending.map fun m => { s with mshr := m }
    | (false, m) => m.deallocate.map fun m => { s with mshr := m, live := false }

def machine : Machine MissHistory MissCall MissFault where
  start := {}
  step s call := if s.possible call then some (s.apply call) else none

/-- The call brings no locked read. -/
def NoLockedRead : MissCall → Prop
  | .allocate _ target .. => target.cmd ≠ .LockedRMWReadReq
  | .allocateTarget pkt .. => pkt.cmd ≠ .LockedRMWReadReq
  | .handleSnoop pkt .. => pkt.cmd ≠ .LockedRMWReadReq
  | _ => True

instance : DecidablePred NoLockedRead
  | .allocate .. | .allocateTarget .. | .handleSnoop .. => inferInstanceAs (Decidable (_ ≠ _))
  | .setForward _ | .setDownstreamPending | .clearDownstreamPending | .markInService _
  | .promoteReadable | .promoteWritable | .extractServiceableTargets _
  | .promoteDeferredTargets _ | .retire _ => .isTrue trivial

end MissHistory

/-! ### What each call does to the waiting targets -/

variable {m m' : MSHR} {ts us : List Target}

@[simp]
theorem cpu_append (ts us : List Target) : cpu (ts ++ us) = cpu ts ++ cpu us := by
  simp [cpu]

/-- Nothing of the list is a locked read. -/
def Unlocked (ts : List Target) : Prop := ∀ t ∈ ts, t.pkt.cmd ≠ .LockedRMWReadReq

theorem unlocked_append : Unlocked (ts ++ us) ↔ Unlocked ts ∧ Unlocked us :=
  List.forall_mem_append

/-- A list of the same targets, whose packets may have become other requests. -/
def Alike (ts us : List Target) : Prop := cpu us = cpu ts ∧ (Unlocked ts → Unlocked us)

theorem Alike.refl (ts : List Target) : Alike ts ts := ⟨rfl, id⟩

theorem alike_map {f : Target → Target}
    (keeps : ∀ t, (f t).source = t.source ∧ (f t).order = t.order ∧ (f t).pkt.ptr = t.pkt.ptr ∧
      (t.pkt.cmd ≠ .LockedRMWReadReq → (f t).pkt.cmd ≠ .LockedRMWReadReq))
    (ts : List Target) : Alike ts (ts.map f) := by
  constructor
  · induction ts with
    | nil => rfl
    | cons t ts ih =>
      obtain ⟨source, order, ptr, -⟩ := keeps t
      simp only [cpu] at ih
      by_cases h : t.source = .FromCPU <;> simp [cpu, source, order, ptr, h, ih]
  · intro unlocked u hu
    obtain ⟨t, ht, rfl⟩ := List.mem_map.mp hu
    exact (keeps t).2.2.2 (unlocked t ht)

theorem replaceUpgrade_spec (pkt : Packet) :
    (replaceUpgrade pkt).ptr = pkt.ptr ∧
    (pkt.cmd ≠ .LockedRMWReadReq → (replaceUpgrade pkt).cmd ≠ .LockedRMWReadReq) := by
  unfold replaceUpgrade
  split <;> simp_all

theorem alike_replaceUpgrades (l : TargetList) : Alike l.targets l.replaceUpgrades.targets := by
  unfold TargetList.replaceUpgrades
  split
  · exact .refl _
  · apply alike_map
    intro t
    exact ⟨rfl, rfl, replaceUpgrade_spec t.pkt⟩

theorem alike_clearDownstreamPending (ts : List Target) :
    Alike ts (TargetList.clearDownstreamPending ts) := by
  apply alike_map
  intro t
  exact ⟨rfl, rfl, rfl, id⟩

@[simp]
theorem populateFlags_targets (l : TargetList) : l.populateFlags.targets = l.targets := by
  rw [TargetList.populateFlags, TargetList.foldl_updateFlags]
  rfl

/-- A call that takes the targets `served` and brings the targets `added`. -/
structure Moves (m m' : MSHR) (added served : List (Nat × Nat)) : Prop where
  order : served ++ cpu m'.waiting = cpu m.waiting ++ added
  unlocked : Unlocked m.waiting → Unlocked m'.waiting

/-- A call that only changes targets in their places. -/
theorem Moves.of_alike (regular : Alike m.targets.targets m'.targets.targets)
    (deferred : Alike m.deferredTargets.targets m'.deferredTargets.targets) :
    Moves m m' [] [] where
  order := by simp [MSHR.waiting, regular.1, deferred.1]
  unlocked h := by
    obtain ⟨h, h'⟩ := unlocked_append.mp h
    exact unlocked_append.mpr ⟨regular.2 h, deferred.2 h'⟩

theorem Moves.trans {m'' : MSHR} (first : Moves m m' [] []) (second : Moves m' m'' [] []) :
    Moves m m'' [] [] where
  order := by
    have h := first.order
    have h' := second.order
    simp_all
  unlocked h := second.unlocked (first.unlocked h)

section add

variable {pkt : Packet} {readyTime order : Nat} {source : Source} {markPending allocOnFill : Bool}

theorem cpu_add (l : TargetList) :
    cpu (l.add pkt readyTime order source markPending allocOnFill).targets =
      cpu l.targets ++ if source = .FromCPU then [(order, pkt.ptr)] else [] := by
  by_cases h : source = .FromCPU <;> simp [TargetList.add, TargetList.updateFlags, cpu, h]

theorem unlocked_add {l : TargetList} (unlocked : Unlocked l.targets)
    (free : pkt.cmd ≠ .LockedRMWReadReq) :
    Unlocked (l.add pkt readyTime order source markPending allocOnFill).targets := by
  apply unlocked_append.mpr ⟨unlocked, _⟩
  intro t ht
  rw [List.mem_singleton.mp ht]
  exact free

end add

variable {order : Nat}

/-- A new target comes last: the deferred list is empty if it is not put there. -/
theorem allocateTarget_moves {pkt : Packet} {whenReady : Nat} {allocOnFill : Bool}
    (h : m.allocateTarget pkt whenReady order allocOnFill = .ok m')
    (free : pkt.cmd ≠ .LockedRMWReadReq) : Moves m m' [(order, pkt.ptr)] [] := by
  unfold MSHR.allocateTarget at h
  split at h
  · cases h
  · split at h
    · cases h
    · split at h
      · generalize new : (if m.inService && m.postInvalidate then replaceUpgrade pkt else pkt) = pkt'
          at h
        have spec : pkt'.ptr = pkt.ptr ∧ pkt'.cmd ≠ .LockedRMWReadReq := by
          subst new
          split
          · exact ⟨(replaceUpgrade_spec pkt).1, (replaceUpgrade_spec pkt).2 free⟩
          · exact ⟨rfl, free⟩
        cases h
        constructor
        · simp [MSHR.waiting, cpu_add, spec.1]
        · intro unlocked
          obtain ⟨regular, deferred⟩ := unlocked_append.mp unlocked
          exact unlocked_append.mpr ⟨regular, unlocked_add deferred spec.2⟩
      · rename_i regular
        cases h
        have none : m.deferredTargets.targets = [] := by
          simp only [MSHR.defers, Bool.or_eq_true, not_or] at regular
          simpa using regular.1.2
        constructor
        · simp [MSHR.waiting, cpu_add, none]
        · intro unlocked
          obtain ⟨regular, deferred⟩ := unlocked_append.mp unlocked
          exact unlocked_append.mpr ⟨unlocked_add regular free, deferred⟩

variable {curTick : Nat}

theorem recordSnoop_moves {pkt : Packet} {ptr : Nat} (free : pkt.cmd ≠ .LockedRMWReadReq) :
    Moves m (m.recordSnoop pkt order ptr curTick).2.2 [] [] := by
  refine .of_alike ?_ (.refl _)
  dsimp only [MSHR.recordSnoop]
  split
  · constructor
    · simp [cpu_add]
    · intro unlocked
      apply unlocked_add unlocked
      dsimp only [MSHR.snoopCopy]
      split <;> exact free
  · exact .refl _

theorem handleSnoop_moves {pkt pkt' : Packet} {ptr : Nat} {responds : Bool}
    (h : m.handleSnoop pkt order ptr curTick = .ok (responds, pkt', m'))
    (free : pkt.cmd ≠ .LockedRMWReadReq) : Moves m m' [] [] := by
  unfold MSHR.handleSnoop at h
  dsimp only at h
  split at h
  · cases h
  · split at h
    · cases h
      split
      · exact .of_alike (alike_replaceUpgrades _) (alike_replaceUpgrades _)
      · exact .of_alike (.refl _) (.refl _)
    · -- the deferred upgrades are replaced first, whatever follows
      generalize before : (if pkt.cmd.needsWritable || pkt.req.isCacheInvalidate then
        { m with deferredTargets := m.deferredTargets.replaceUpgrades } else m) = u at h
      have first : Moves m u [] [] := by
        subst before
        split
        · exact .of_alike (.refl _) (alike_replaceUpgrades _)
        · exact .of_alike (.refl _) (.refl _)
      split at h
      · cases h
      · split at h
        · cases h
          exact first
        · simp only [Except.ok.injEq] at h
          have second : Moves u (u.recordSnoop pkt order ptr curTick).2.2 [] [] :=
            recordSnoop_moves free
          rw [h] at second
          exact first.trans second

theorem markInService_moves {pendingModifiedResp : Bool}
    (h : m.markInService pendingModifiedResp = .ok m') : Moves m m' [] [] := by
  unfold MSHR.markInService at h
  split at h
  · cases h
  · cases h
    refine .of_alike ?_ (.refl _)
    split
    · exact .refl _
    · exact alike_clearDownstreamPending _

theorem clearDownstreamPending_moves (h : m.clearDownstreamPending = .ok m') :
    Moves m m' [] [] := by
  unfold MSHR.clearDownstreamPending at h
  split at h
  · cases h
  · cases h
    exact .of_alike (alike_clearDownstreamPending _) (.refl _)

theorem append_of_findIfNot {pred : Target → Except MissFault Bool} {before rest : List Target}
    (h : MSHR.findIfNot pred ts = .ok (before, rest)) : ts = before ++ rest := by
  induction ts generalizing before with
  | nil =>
    cases h
    rfl
  | cons t ts ih =>
    obtain ⟨holds, -, h⟩ := Script.bind_eq_ok.mp h
    split at h
    · obtain ⟨⟨before', rest'⟩, found, eq⟩ := Script.map_eq_ok.mp h
      cases eq
      rw [ih found, List.cons_append]
    · cases h
      rfl

/-- A prefix of the deferred targets goes behind the regular ones. -/
theorem promoteIf_moves {pred : Target → Except MissFault Bool} (h : m.promoteIf pred = .ok m') :
    Moves m m' [] [] := by
  unfold MSHR.promoteIf at h
  split at h
  · cases h
  · obtain ⟨⟨before, rest⟩, found, rfl⟩ := Script.map_eq_ok.mp h
    have split := append_of_findIfNot found
    have same := alike_clearDownstreamPending before
    constructor
    · simp [MSHR.waiting, split, same.1]
    · intro unlocked
      rw [MSHR.waiting, split, unlocked_append, unlocked_append] at unlocked
      obtain ⟨regular, first, last⟩ := unlocked
      rw [MSHR.waiting, unlocked_append, populateFlags_targets]
      exact ⟨unlocked_append.mpr ⟨regular, same.2 first⟩, last⟩

theorem promoteReadable_moves (h : m.promoteReadable = .ok m') : Moves m m' [] [] := by
  unfold MSHR.promoteReadable at h
  split at h
  · cases h
    exact .of_alike (.refl _) (.refl _)
  · split at h
    · cases h
    · split at h
      · cases h
        exact .of_alike (.refl _) (.refl _)
      · exact promoteIf_moves h

theorem promoteWritable_moves (h : m.promoteWritable = .ok m') : Moves m m' [] [] := by
  unfold MSHR.promoteWritable at h
  split at h
  · cases h
    exact .of_alike (.refl _) (.refl _)
  · split at h
    · cases h
      exact .of_alike (.refl _) (.refl _)
    · split at h
      · cases h
      · split at h
        · cases h
          exact .of_alike (.refl _) (.refl _)
        · split at h
          · cases h
          · have same : Moves m { m with targets := { m.targets with
                flags := { m.targets.flags with needsWritable := true } } } [] [] :=
              .of_alike (.refl _) (.refl _)
            exact same.trans (promoteIf_moves h)

theorem serviceAll_of_unlocked (unlocked : Unlocked ts) : MSHR.serviceAll ts = (ts, []) := by
  induction ts with
  | nil => rfl
  | cons t ts ih =>
    rw [MSHR.serviceAll, if_neg (unlocked t List.mem_cons_self),
      ih fun u hu => unlocked u (List.mem_cons_of_mem t hu)]

/-- An invalidating response services at most the first target of the CPU. -/
theorem serviceFirst_spec {ready left : List Target} (unlocked : Unlocked ts)
    (h : MSHR.serviceFirst ts = .ok (ready, left)) :
    cpu ready ++ cpu left = cpu ts ∧ Unlocked left := by
  cases ts with
  | nil => cases h
  | cons t ts =>
    rw [MSHR.serviceFirst] at h
    split at h
    · cases h
    · rw [if_neg (unlocked t List.mem_cons_self)] at h
      split at h
      · cases h
      · cases h
        constructor
        · have none : cpu (ts.filter fun u => decide (u.source ≠ .FromCPU)) = [] := by
            simp [cpu]
          have all : cpu (ts.filter fun u => decide (u.source = .FromCPU)) = cpu ts := by
            simp [cpu]
          rw [← List.singleton_append, cpu_append, none, all, ← List.singleton_append (l := ts),
            cpu_append, List.append_nil]
        · intro u hu
          exact unlocked u (List.mem_cons_of_mem t (List.mem_of_mem_filter hu))

theorem extractServiceableTargets_moves {cmd : MemCmd} {ready : TargetList}
    (unlocked : Unlocked m.waiting)
    (h : m.extractServiceableTargets cmd = .ok (ready, m')) :
    Moves m m' [] (cpu ready.targets) := by
  obtain ⟨regular, deferred⟩ := unlocked_append.mp unlocked
  obtain ⟨⟨taken, left⟩, serviced, eq⟩ := Script.map_eq_ok.mp h
  cases eq
  have spec : cpu taken ++ cpu left = cpu m.targets.targets ∧ Unlocked left := by
    split at serviced
    · exact serviceFirst_spec regular serviced
    · rw [serviceAll_of_unlocked regular] at serviced
      cases serviced
      exact ⟨by simp [cpu], by simp [Unlocked]⟩
  constructor
  · simp only [MSHR.waiting, populateFlags_targets, cpu_append, List.append_nil]
    rw [← List.append_assoc, spec.1]
  · intro _
    rw [MSHR.waiting, populateFlags_targets]
    exact unlocked_append.mpr ⟨spec.2, deferred⟩

theorem promoteDeferredTargets_moves (m : MSHR) (curTick : Nat) :
    Moves m (m.promoteDeferredTargets curTick).2 [] [] := by
  unfold MSHR.promoteDeferredTargets
  split
  · exact .of_alike (.refl _) (.refl _)
  · have same : (m.targets.targets ++ m.deferredTargets.targets.take m.promoted) ++
        m.deferredTargets.targets.drop m.promoted = m.waiting := by
      rw [List.append_assoc, List.take_append_drop]
      rfl
    constructor
    · simp only [MSHR.waiting, populateFlags_targets] at same ⊢
      rw [same, List.nil_append, List.append_nil]
    · intro unlocked
      simp only [MSHR.waiting, populateFlags_targets] at same unlocked ⊢
      rw [same]
      exact unlocked

/-- Nothing waits in a register that has nothing to promote. -/
theorem waiting_eq_nil (h : m.promoteDeferredTargets curTick = (false, m')) :
    m' = m ∧ m.waiting = [] := by
  unfold MSHR.promoteDeferredTargets at h
  split at h
  · rename_i empty
    cases h
    simp only [Bool.and_eq_true, List.isEmpty_iff] at empty
    exact ⟨rfl, by simp [MSHR.waiting, empty]⟩
  · cases h

namespace MissHistory

variable {s t : MissHistory}

/-- What was given to the register was returned or waits, in this order, and a free
register has nothing that waits. -/
structure Kept (s : MissHistory) : Prop where
  order : s.served ++ cpu s.mshr.waiting = s.allocated
  unlocked : Unlocked s.mshr.waiting
  free : s.live = false → s.mshr.waiting = []

theorem Kept.moves (h : s.Kept) {m' : MSHR} {added served : List (Nat × Nat)}
    (moves : Moves s.mshr m' added served) (live : s.live = true) :
    Kept { s with mshr := m', allocated := s.allocated ++ added, served := s.served ++ served } where
  order := by
    rw [List.append_assoc, moves.order, ← List.append_assoc, h.order]
  unlocked := moves.unlocked h.unlocked
  free dead := by
    rw [live] at dead
    cases dead

/-- A call that neither brings nor returns a target. -/
theorem Kept.idle (h : s.Kept) {m' : MSHR} (moves : Moves s.mshr m' [] []) (live : s.live = true) :
    Kept { s with mshr := m' } := by
  simpa using h.moves moves live

theorem kept_allocate (h : s.Kept) (dead : s.live = false) {blkSize whenReady : Nat}
    {target : Packet} {allocOnFill : Bool} (free : target.cmd ≠ .LockedRMWReadReq)
    (eq : s.apply (.allocate blkSize target whenReady order allocOnFill) = .ok t) : t.Kept := by
  have empty := h.free dead
  simp only [MSHR.waiting, List.append_eq_nil_iff] at empty
  cases eq
  refine ⟨?_, ?_, fun dead => by cases dead⟩
  · rw [MSHR.waiting, cpu_append, MSHR.allocate]
    simp only [cpu_add, TargetList.resetFlags, empty]
    by_cases pf : target.cmd = .HardPFReq <;> simp [pf, cpu]
  · apply unlocked_append.mpr ⟨unlocked_add _ free, _⟩
    · simp [TargetList.resetFlags, empty, Unlocked]
    · simp [MSHR.allocate, TargetList.resetFlags, empty, Unlocked]

theorem kept_retire (h : s.Kept) (live : s.live = true) (eq : s.apply (.retire curTick) = .ok t) :
    t.Kept := by
  simp only [apply] at eq
  have moves := promoteDeferredTargets_moves s.mshr curTick
  split at eq
  · rename_i m promoted
    obtain ⟨m', pending, rfl⟩ := Script.map_eq_ok.mp eq
    rw [promoted] at moves
    refine h.idle (moves.trans ?_) live
    unfold MSHR.markPending at pending
    split at pending
    · cases pending
    · cases pending
      exact .of_alike (.refl _) (.refl _)
  · rename_i m promoted
    obtain ⟨rfl, none⟩ := waiting_eq_nil promoted
    obtain ⟨m', freed, rfl⟩ := Script.map_eq_ok.mp eq
    have same : m'.waiting = s.mshr.waiting := by
      unfold MSHR.deallocate at freed
      split at freed
      · cases freed
      · cases freed
        rfl
    exact ⟨by rw [same]; exact h.order, by rw [same]; exact h.unlocked, fun _ => same.trans none⟩

theorem Kept.apply (h : s.Kept) {call : MissCall} (can : s.possible call = true)
    (unlocked : NoLockedRead call) (eq : s.apply call = .ok t) : t.Kept := by
  cases call with
  | allocate blkSize target whenReady order allocOnFill =>
    exact kept_allocate h (by simpa [possible] using can) unlocked eq
  | allocateTarget pkt whenReady order allocOnFill =>
    obtain ⟨m', called, rfl⟩ := Script.map_eq_ok.mp eq
    simpa using h.moves (allocateTarget_moves called unlocked) can
  | handleSnoop pkt order ptr curTick =>
    obtain ⟨⟨responds, pkt', m'⟩, called, rfl⟩ := Script.map_eq_ok.mp eq
    exact h.idle (handleSnoop_moves called unlocked) can
  | setForward isForward =>
    cases eq
    exact h.idle (.of_alike (.refl _) (.refl _)) can
  | setDownstreamPending =>
    simp only [MissHistory.apply] at eq
    split at eq
    · cases eq
    · cases eq
      exact h.idle (.of_alike (.refl _) (.refl _)) can
  | clearDownstreamPending =>
    obtain ⟨m', called, rfl⟩ := Script.map_eq_ok.mp eq
    exact h.idle (clearDownstreamPending_moves called) can
  | markInService pendingModifiedResp =>
    obtain ⟨m', called, rfl⟩ := Script.map_eq_ok.mp eq
    exact h.idle (markInService_moves called) can
  | promoteReadable =>
    obtain ⟨m', called, rfl⟩ := Script.map_eq_ok.mp eq
    exact h.idle (promoteReadable_moves called) can
  | promoteWritable =>
    obtain ⟨m', called, rfl⟩ := Script.map_eq_ok.mp eq
    exact h.idle (promoteWritable_moves called) can
  | extractServiceableTargets cmd =>
    obtain ⟨⟨ready, m'⟩, called, rfl⟩ := Script.map_eq_ok.mp eq
    simpa using h.moves (extractServiceableTargets_moves h.unlocked called) can
  | promoteDeferredTargets curTick =>
    cases eq
    exact h.idle (promoteDeferredTargets_moves _ _) can
  | retire curTick => exact kept_retire h can eq

theorem reaches_kept (h : machine.Reaches (fun _ call => NoLockedRead call) s) : s.Kept := by
  apply h.invariant (I := Kept) ⟨rfl, by simp [Unlocked, machine, MSHR.waiting, TargetList.init],
    fun _ => rfl⟩
  intro s call t kept unlocked step
  simp only [machine, Option.ite_none_right_eq_some, Option.some.injEq] at step
  exact kept.apply step.1 unlocked step.2

/-- Targets of the CPU are serviced in the order in which they came: at any time those
that were returned, followed by those that wait in the regular and in the deferred list,
are the ones that were allocated, and all of them were returned when the register is
free again. -/
theorem serviced_in_order (h : machine.Reaches (fun _ call => NoLockedRead call) s) :
    s.served ++ cpu s.mshr.waiting = s.allocated ∧ (s.live = false → s.served = s.allocated) := by
  have kept := reaches_kept h
  refine ⟨kept.order, fun dead => ?_⟩
  have order := kept.order
  rw [kept.free dead] at order
  simpa [cpu] using order

/-- A read is in service when a write and another read of the line come, which are
deferred; an invalidation is snooped, and the read gets a response that invalidates. -/
def threeMisses : List MissCall :=
  [.allocate 64 { ptr := 1, cmd := .ReadReq, addr := 0, size := 8 } 0 0 true,
    .markInService false,
    .allocateTarget { ptr := 2, cmd := .WriteReq, addr := 8, size := 8 } 1 1 true,
    .allocateTarget { ptr := 3, cmd := .ReadReq, addr := 16, size := 8 } 2 2 true,
    .handleSnoop { ptr := 4, cmd := .InvalidateReq, addr := 0, size := 64 } 3 5 2,
    .extractServiceableTargets .ReadRespWithInvalidate,
    .retire 3,
    .markInService false,
    .extractServiceableTargets .ReadExResp,
    .retire 4]

theorem three_misses_serviced : ∃ s,
    machine.runIf (fun _ call => NoLockedRead call) machine.start threeMisses = some s ∧
    s.live = false ∧ s.served = [(0, 1), (1, 2), (2, 3)] ∧ s.served = s.allocated := by
  obtain ⟨s, run⟩ : ∃ s, machine.runIf (fun _ call => NoLockedRead call) machine.start
      threeMisses = some s := Option.isSome_iff_exists.mp (by decide)
  have result : (machine.runIf (fun _ call => NoLockedRead call) machine.start threeMisses).map
      (fun s => (s.live, s.served)) = some (false, [(0, 1), (1, 2), (2, 3)]) := by decide
  rw [run, Option.map_some, Option.some.injEq, Prod.mk.injEq] at result
  have reached := Machine.Reaches.start.runIf threeMisses run
  exact ⟨s, run, result.1, result.2, (serviced_in_order reached).2 result.1⟩

end MissHistory

end Classic.Misses

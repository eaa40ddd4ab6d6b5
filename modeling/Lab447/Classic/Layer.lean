import Mathlib
import Lab447.Lib.Machine
import Lab447.Lib.Script
import Lab447.Classic.Packet

/-!
A layer of a crossbar, `BaseXBar::Layer` of `gem5/src/mem/xbar.cc`, between its
source ports and the port it leads to. A call of the layer that runs other code
before it goes on, `sendRetry` in `retryWaiting` and the send between `tryTiming`
and its end, is split there, so that anything may call the layer in between.
Draining and statistics are left out.
-/

namespace Classic

inductive LayerState where
  | IDLE | BUSY | RETRY
  deriving DecidableEq

/-- `releaseEvent` is the tick it is scheduled for. -/
structure Layer where
  state : LayerState := .IDLE
  waitingForLayer : List PortID := []
  waitingForPeer : Option PortID := none
  releaseEvent : Option Nat := none
  deriving DecidableEq

/-- A failed assertion, of the layer or of the event queue. -/
inductive LayerFault where
  | assertion
  deriving DecidableEq

namespace Layer

variable (l : Layer)

/-- `schedule` asserts that the event is not scheduled and not in the past. -/
def occupyLayer (curTick til : Nat) : Except LayerFault Layer :=
  if l.state = .BUSY ∧ til ≠ 0 ∧ l.releaseEvent = none ∧ curTick ≤ til then
    .ok { l with releaseEvent := some til }
  else .error .assertion

def tryTiming (srcPort : PortID) : Except LayerFault (Bool × Layer) :=
  if l.state = .BUSY ∨ l.waitingForPeer ≠ none then
    if srcPort ∈ l.waitingForLayer then .error .assertion
    else .ok (false, { l with waitingForLayer := l.waitingForLayer ++ [srcPort] })
  else .ok (true, { l with state := .BUSY })

def succeededTiming (curTick busyTime : Nat) : Except LayerFault Layer :=
  if l.state = .BUSY then l.occupyLayer curTick busyTime else .error .assertion

def failedTiming (srcPort : PortID) (curTick busyTime : Nat) : Except LayerFault Layer :=
  if l.waitingForPeer ≠ none then .error .assertion
  else if l.state = .BUSY then
    { l with waitingForPeer := some srcPort }.occupyLayer curTick busyTime
  else .error .assertion

/-- `retryWaiting` up to `sendRetry`, with the port that gets the retry. -/
def startRetry : Except LayerFault (PortID × Layer) :=
  match l.waitingForLayer with
  | [] => .error .assertion
  | port :: waiting =>
    if l.state = .IDLE then .ok (port, { l with state := .RETRY, waitingForLayer := waiting })
    else .error .assertion

/-- The rest of `retryWaiting`. -/
def endRetry (curTick clockEdge : Nat) : Except LayerFault Layer :=
  if l.state = .RETRY then { l with state := .BUSY }.occupyLayer curTick clockEdge else .ok l

/-- The port is the one that gets a retry, if there is one that does. -/
def releaseLayer : Except LayerFault (Option PortID × Layer) :=
  if l.state = .BUSY ∧ l.releaseEvent = none then
    let idle := { l with state := .IDLE }
    if !l.waitingForLayer.isEmpty && l.waitingForPeer.isNone then
      idle.startRetry.map fun r => (some r.1, r.2)
    else .ok (none, idle)
  else .error .assertion

def recvRetry : Except LayerFault (Option PortID × Layer) :=
  match l.waitingForPeer with
  | none => .error .assertion
  | some port =>
    let l := { l with waitingForLayer := port :: l.waitingForLayer, waitingForPeer := none }
    if l.state = .IDLE then l.startRetry.map fun r => (some r.1, r.2)
    else if l.state = .BUSY then .ok (none, l)
    else .error .assertion

end Layer

/-- A layer with what goes on around it: the port whose send has passed `tryTiming`
and has not ended, the calls of `sendRetry` that have not returned, the ports that
were refused and not retried since, and whether the peer owes a retry. -/
structure LayerUse where
  layer : Layer := {}
  curTick : Nat := 0
  sending : Option PortID := none
  retries : Nat := 0
  refused : List PortID := []
  owed : Bool := false
  deriving DecidableEq

inductive LayerCall where
  | advance (tick : Nat)
  | tryTiming (port : PortID)
  | succeededTiming (busyTime : Nat)
  | failedTiming (busyTime : Nat)
  | releaseEvent
  | recvRetry
  | sendRetryReturns (clockEdge : Nat)

namespace LayerUse

variable (s : LayerUse)

/-- No call is under way, so that events can happen. -/
def atRest : Bool := s.sending.isNone && s.retries == 0

/-- A refused port waits for its retry, a port sends one packet at a time, a send
that has passed `tryTiming` ends once, and the peer sends the retries it owes. The
layer is kept busy until a tick that is not in the past, and not until 0. -/
def possible : LayerCall → Bool
  | .advance tick =>
    s.atRest && decide (s.curTick ≤ tick) && decide (∀ t, s.layer.releaseEvent = some t → tick ≤ t)
  | .tryTiming port => decide (port ∉ s.refused) && decide (s.sending ≠ some port)
  | .succeededTiming busyTime | .failedTiming busyTime =>
    s.sending.isSome && decide (s.curTick ≤ busyTime) && decide (busyTime ≠ 0)
  | .releaseEvent => s.atRest && decide (s.layer.releaseEvent = some s.curTick)
  | .recvRetry => s.owed
  | .sendRetryReturns clockEdge =>
    decide (0 < s.retries) && s.sending.isNone && decide (s.curTick ≤ clockEdge)

/-- The layer after a call that may have begun to retry a port. -/
def retried (r : Option PortID × Layer) : LayerUse :=
  match r.1 with
  | none => { s with layer := r.2 }
  | some port =>
    { s with layer := r.2, retries := s.retries + 1, refused := s.refused.erase port }

def apply : LayerCall → Except LayerFault LayerUse
  | .advance tick => .ok { s with curTick := tick }
  | .tryTiming port =>
    (s.layer.tryTiming port).map fun r =>
      if r.1 then { s with layer := r.2, sending := some port }
      else { s with layer := r.2, refused := port :: s.refused }
  | .succeededTiming busyTime =>
    (s.layer.succeededTiming s.curTick busyTime).map fun l => { s with layer := l, sending := none }
  | .failedTiming busyTime =>
    match s.sending with
    | none => .error .assertion
    | some port =>
      (s.layer.failedTiming port s.curTick busyTime).map fun l =>
        { s with layer := l, sending := none, refused := port :: s.refused, owed := true }
  | .releaseEvent =>
    { s.layer with releaseEvent := none }.releaseLayer.map s.retried
  | .recvRetry => s.layer.recvRetry.map { s with owed := false }.retried
  | .sendRetryReturns clockEdge =>
    (s.layer.endRetry s.curTick clockEdge).map fun l => { s with layer := l, retries := s.retries - 1 }

def machine : Machine LayerUse LayerCall LayerFault where
  start := {}
  step s call := if s.possible call then some (s.apply call) else none

/-! ### What holds between any two calls -/

/-- The ports that wait, for the peer or for the layer. -/
def waiting : List PortID := s.layer.waitingForPeer.toList ++ s.layer.waitingForLayer

/-- Where the layer is: a send is under way, it is occupied, it has told a port to
retry, or nothing happens. -/
inductive Phase : Prop
  | sending (began : s.sending.isSome) (state : s.layer.state = .BUSY)
      (event : s.layer.releaseEvent = none) (peer : s.layer.waitingForPeer = none)
      (new : ∀ port, s.sending = some port → port ∉ s.refused)
  | occupied (til : Nat) (closed : s.sending = none) (state : s.layer.state = .BUSY)
      (event : s.layer.releaseEvent = some til) (later : s.curTick ≤ til) (pos : til ≠ 0)
  | retrying (closed : s.sending = none) (state : s.layer.state = .RETRY)
      (event : s.layer.releaseEvent = none) (peer : s.layer.waitingForPeer = none)
      (called : 0 < s.retries) (pos : 0 < s.curTick)
  | idle (closed : s.sending = none) (state : s.layer.state = .IDLE)
      (event : s.layer.releaseEvent = none) (quiet : s.retries = 0)
      (peer : s.layer.waitingForLayer ≠ [] → s.layer.waitingForPeer ≠ none)
      (pos : s.layer.waitingForPeer ≠ none → 0 < s.curTick)

structure Kept : Prop where
  waiting : s.waiting.Perm s.refused
  nodup : s.refused.Nodup
  owed : s.owed = s.layer.waitingForPeer.isSome
  phase : s.Phase

variable {s}

/-- The first port of an idle layer is told to retry. -/
theorem kept_startRetry {l : Layer} (state : l.state = .IDLE) (event : l.releaseEvent = none)
    (peer : l.waitingForPeer = none) (some_ : l.waitingForLayer ≠ [])
    (waiting : l.waitingForLayer.Perm s.refused) (nodup : s.refused.Nodup)
    (owed : s.owed = false) (closed : s.sending = none) (pos : 0 < s.curTick) :
    ∃ t, (l.startRetry.map fun r => (some r.1, r.2)).map s.retried = .ok t ∧ t.Kept := by
  obtain ⟨port, rest, front⟩ := List.exists_cons_of_ne_nil some_
  have left : rest.Perm (s.refused.erase port) := by
    have erased := (front ▸ waiting).erase port
    rwa [List.erase_cons_head] at erased
  refine ⟨_, by simp only [Layer.startRetry, front, state, if_true, Except.map]; rfl, ?_⟩
  constructor
  · simpa [LayerUse.waiting, retried, peer] using left
  · exact nodup.erase port
  · simp [retried, owed, peer]
  · exact .retrying closed rfl event peer (Nat.succ_pos _) pos

theorem Kept.advance (h : s.Kept) {tick : Nat} (can : s.possible (.advance tick)) :
    ∃ t, s.apply (.advance tick) = .ok t ∧ t.Kept := by
  simp only [possible, atRest, Bool.and_eq_true, decide_eq_true_eq, beq_iff_eq,
    Option.isNone_iff_eq_none] at can
  obtain ⟨⟨⟨closed, quiet⟩, later⟩, before⟩ := can
  refine ⟨_, rfl, h.waiting, h.nodup, h.owed, ?_⟩
  cases h.phase with
  | sending began => simp [closed] at began
  | occupied til closed state event _ pos =>
    exact .occupied til closed state event (before til event) pos
  | retrying _ _ _ _ called => omega
  | idle closed state event quiet peer pos =>
    exact .idle closed state event quiet peer fun some_ => Nat.lt_of_lt_of_le (pos some_) later

/-- A port that is refused waits at the end. -/
theorem Kept.refuse (h : s.Kept) {port : PortID} (new : port ∉ s.refused)
    (other : s.sending ≠ some port) (busy : s.layer.state = .BUSY ∨ s.layer.waitingForPeer ≠ none) :
    ∃ t, s.apply (.tryTiming port) = .ok t ∧ t.Kept := by
  have absent : port ∉ s.layer.waitingForLayer := by
    intro mem
    exact new (h.waiting.mem_iff.mp (List.mem_append_right _ mem))
  refine ⟨_, by simp only [apply, Layer.tryTiming, busy, absent, if_true, if_false, Except.map]; rfl, ?_⟩
  constructor
  · have last := (List.perm_append_singleton port s.waiting).trans (h.waiting.cons port)
    simpa [LayerUse.waiting, List.append_assoc] using last
  · exact List.nodup_cons.mpr ⟨new, h.nodup⟩
  · exact h.owed
  · cases h.phase with
    | sending began state event peer fresh =>
      refine .sending began state event peer fun p hp => ?_
      have ne : p ≠ port := fun eq => other (eq ▸ hp)
      exact List.not_mem_cons_of_ne_of_not_mem ne (fresh p hp)
    | occupied til closed state event later pos =>
      exact .occupied til closed state event later pos
    | retrying _ state _ peer => simp [state, peer] at busy
    | idle closed state event quiet _ pos =>
      have peer : s.layer.waitingForPeer ≠ none := by simpa [state] using busy
      exact .idle closed state event quiet (fun _ => peer) pos

theorem Kept.tryTiming (h : s.Kept) {port : PortID} (can : s.possible (.tryTiming port)) :
    ∃ t, s.apply (.tryTiming port) = .ok t ∧ t.Kept := by
  simp only [possible, Bool.and_eq_true, decide_eq_true_eq] at can
  obtain ⟨new, other⟩ := can
  by_cases busy : s.layer.state = .BUSY ∨ s.layer.waitingForPeer ≠ none
  · exact h.refuse new other busy
  · obtain ⟨free, peer⟩ := not_or.mp busy
    have peer := not_not.mp peer
    refine ⟨_, by simp only [apply, Layer.tryTiming, busy, if_false, Except.map]; rfl, ?_⟩
    have event : s.layer.releaseEvent = none := by
      cases h.phase with
      | sending _ state => exact absurd state free
      | occupied _ _ state => exact absurd state free
      | retrying _ _ event => exact event
      | idle _ _ event => exact event
    exact ⟨h.waiting, h.nodup, h.owed, .sending rfl rfl event peer fun p hp => by
      cases hp
      exact new⟩

/-- A send that has begun and not ended. -/
theorem Kept.begun (h : s.Kept) (began : s.sending.isSome) :
    s.layer.state = .BUSY ∧ s.layer.releaseEvent = none ∧ s.layer.waitingForPeer = none ∧
      ∀ port, s.sending = some port → port ∉ s.refused := by
  cases h.phase with
  | sending _ state event peer new => exact ⟨state, event, peer, new⟩
  | occupied _ closed => simp [closed] at began
  | retrying closed => simp [closed] at began
  | idle closed => simp [closed] at began

theorem Kept.succeededTiming (h : s.Kept) {busyTime : Nat}
    (can : s.possible (.succeededTiming busyTime)) :
    ∃ t, s.apply (.succeededTiming busyTime) = .ok t ∧ t.Kept := by
  simp only [possible, Bool.and_eq_true, decide_eq_true_eq] at can
  obtain ⟨⟨began, later⟩, pos⟩ := can
  obtain ⟨state, event, -, -⟩ := h.begun began
  refine ⟨_, by simp only [apply, Layer.succeededTiming, Layer.occupyLayer, state, event, later,
    pos, ne_eq, not_false_eq_true, and_self, if_true, Except.map]; rfl, ?_⟩
  exact ⟨h.waiting, h.nodup, h.owed, .occupied busyTime rfl rfl rfl later pos⟩

theorem Kept.failedTiming (h : s.Kept) {busyTime : Nat}
    (can : s.possible (.failedTiming busyTime)) :
    ∃ t, s.apply (.failedTiming busyTime) = .ok t ∧ t.Kept := by
  simp only [possible, Bool.and_eq_true, decide_eq_true_eq] at can
  obtain ⟨⟨began, later⟩, pos⟩ := can
  obtain ⟨state, event, peer, new⟩ := h.begun began
  obtain ⟨port, hp⟩ := Option.isSome_iff_exists.mp began
  refine ⟨_, by simp only [apply, hp, Layer.failedTiming, Layer.occupyLayer, peer, state, event,
    later, pos, ne_eq, not_true_eq_false, not_false_eq_true, and_self, if_true, if_false,
    Except.map]; rfl, ?_⟩
  constructor
  · have front := h.waiting.cons port
    simpa [LayerUse.waiting, peer] using front
  · exact List.nodup_cons.mpr ⟨new port hp, h.nodup⟩
  · rfl
  · exact .occupied busyTime rfl rfl rfl later pos

theorem Kept.releaseEvent (h : s.Kept) (can : s.possible .releaseEvent) :
    ∃ t, s.apply .releaseEvent = .ok t ∧ t.Kept := by
  simp only [possible, atRest, Bool.and_eq_true, decide_eq_true_eq, beq_iff_eq,
    Option.isNone_iff_eq_none] at can
  obtain ⟨⟨closed, quiet⟩, now⟩ := can
  have waiting := h.waiting
  have owed := h.owed
  cases h.phase with
  | sending _ _ event => simp [event] at now
  | retrying _ _ event => simp [event] at now
  | idle _ _ event => simp [event] at now
  | occupied til _ state event _ nonzero =>
    have pos : 0 < s.curTick := by
      cases event.symm.trans now
      exact Nat.pos_of_ne_zero nonzero
    simp only [apply, Layer.releaseLayer, state, and_self, if_true]
    split
    next begin =>
      simp only [Bool.and_eq_true, Bool.not_eq_true', List.isEmpty_eq_false_iff,
        Option.isNone_iff_eq_none] at begin
      obtain ⟨some_, peer⟩ := begin
      simp only [LayerUse.waiting, peer, Option.toList_none, List.nil_append] at waiting
      simp only [peer, Option.isSome_none] at owed
      exact kept_startRetry rfl rfl peer some_ waiting h.nodup owed closed pos
    next stay =>
      refine ⟨_, rfl, h.waiting, h.nodup, h.owed, .idle closed rfl rfl quiet ?_ fun _ => pos⟩
      intro some_ peer
      apply stay
      rw [Bool.and_eq_true, Bool.not_eq_true', List.isEmpty_eq_false_iff, Option.isNone_iff_eq_none]
      exact ⟨some_, peer⟩

theorem Kept.recvRetry (h : s.Kept) (can : s.possible .recvRetry) :
    ∃ t, s.apply .recvRetry = .ok t ∧ t.Kept := by
  have set : s.layer.waitingForPeer.isSome := h.owed ▸ can
  obtain ⟨port, peer⟩ := Option.isSome_iff_exists.mp set
  have waiting : (port :: s.layer.waitingForLayer).Perm s.refused := by
    simpa [LayerUse.waiting, peer] using h.waiting
  cases h.phase with
  | sending _ _ _ none_ => simp [peer] at none_
  | retrying _ _ _ none_ => simp [peer] at none_
  | occupied til closed state event later pos =>
    refine ⟨_, by simp only [apply, Layer.recvRetry, peer, state, reduceCtorEq, if_false, if_true,
      Except.map]; rfl, ?_⟩
    exact ⟨waiting, h.nodup, rfl, .occupied til closed rfl event later pos⟩
  | idle closed state event _ _ pos =>
    simp only [apply, Layer.recvRetry, peer, state, if_true]
    have now : 0 < s.curTick := pos (by simp [peer])
    exact kept_startRetry rfl event rfl (List.cons_ne_nil _ _) waiting h.nodup rfl closed now

theorem Kept.sendRetryReturns (h : s.Kept) {clockEdge : Nat}
    (can : s.possible (.sendRetryReturns clockEdge)) :
    ∃ t, s.apply (.sendRetryReturns clockEdge) = .ok t ∧ t.Kept := by
  simp only [possible, Bool.and_eq_true, decide_eq_true_eq, Option.isNone_iff_eq_none] at can
  obtain ⟨⟨called, closed⟩, later⟩ := can
  cases h.phase with
  | sending began => simp [closed] at began
  | idle _ _ _ quiet => omega
  | occupied til closed state event before pos =>
    -- the retried port came back, and its send has ended
    refine ⟨_, by simp only [apply, Layer.endRetry, state, reduceCtorEq, if_false, Except.map]; rfl, ?_⟩
    exact ⟨h.waiting, h.nodup, h.owed, .occupied til closed state event before pos⟩
  | retrying closed state event peer _ pos =>
    have nonzero : clockEdge ≠ 0 := by omega
    refine ⟨_, by simp only [apply, Layer.endRetry, Layer.occupyLayer, state, event, later, nonzero,
      ne_eq, not_false_eq_true, and_self, if_true, Except.map]; rfl, ?_⟩
    exact ⟨h.waiting, h.nodup, h.owed, .occupied clockEdge closed rfl rfl later nonzero⟩

/-- A possible call neither fails nor breaks what is kept. -/
theorem Kept.call (h : s.Kept) {call : LayerCall} (can : s.possible call) :
    ∃ t, s.apply call = .ok t ∧ t.Kept := by
  cases call with
  | advance => exact h.advance can
  | tryTiming => exact h.tryTiming can
  | succeededTiming => exact h.succeededTiming can
  | failedTiming => exact h.failedTiming can
  | releaseEvent => exact h.releaseEvent can
  | recvRetry => exact h.recvRetry can
  | sendRetryReturns => exact h.sendRetryReturns can

theorem step_eq_some {call : LayerCall} {r : Except LayerFault LayerUse}
    (step : machine.step s call = some r) : s.possible call ∧ s.apply call = r := by
  simpa only [machine, Option.ite_none_right_eq_some, Option.some.injEq] using step

theorem kept_start : machine.start.Kept :=
  ⟨.nil, List.nodup_nil, rfl, .idle rfl rfl rfl rfl (fun h => absurd rfl h) (fun h => absurd rfl h)⟩

theorem reaches_kept (h : machine.Reaches (fun _ _ => True) s) : s.Kept := by
  apply h.invariant kept_start
  intro s call t kept _ step
  obtain ⟨can, eq⟩ := step_eq_some step
  obtain ⟨u, ok, next⟩ := kept.call can
  cases ok.symm.trans eq
  exact next

/-- A layer at rest is busy exactly while its release is scheduled. -/
theorem Kept.atRest (h : s.Kept) (rest : s.atRest) :
    (s.layer.state = .BUSY ↔ s.layer.releaseEvent.isSome) ∧ s.layer.state ≠ .RETRY ∧
      (s.layer.waitingForLayer ≠ [] → s.layer.state = .BUSY ∨ s.layer.waitingForPeer ≠ none) := by
  simp only [LayerUse.atRest, Bool.and_eq_true, beq_iff_eq, Option.isNone_iff_eq_none] at rest
  obtain ⟨closed, quiet⟩ := rest
  cases h.phase with
  | sending began => simp [closed] at began
  | occupied til _ state event => simp [state, event]
  | retrying _ _ _ _ called => omega
  | idle _ state event _ peer => simpa [state, event] using peer

/-- A crossbar layer loses no port: the refused ports that were not retried since
are those that wait, each once, a layer at rest that has ports waiting will be
released or gets a retry, and no assertion fires. -/
theorem no_port_lost (h : machine.Reaches (fun _ _ => True) s) :
    (∀ port, s.waiting.count port = if port ∈ s.refused then 1 else 0) ∧
    (s.atRest →
      (s.layer.state = .BUSY ↔ s.layer.releaseEvent.isSome) ∧ s.layer.state ≠ .RETRY ∧
      (s.layer.waitingForLayer ≠ [] → s.layer.state = .BUSY ∨ s.layer.waitingForPeer ≠ none)) ∧
    ∀ call fault, machine.step s call ≠ some (.error fault) := by
  have kept := reaches_kept h
  refine ⟨fun port => ?_, kept.atRest, fun call fault step => ?_⟩
  · rw [kept.waiting.count_eq]
    exact List.Nodup.count kept.nodup
  · obtain ⟨can, eq⟩ := step_eq_some step
    obtain ⟨t, ok, -⟩ := kept.call can
    cases ok.symm.trans eq

/-- Port 0 fails at the peer while port 1 waits, is retried, and sends again from
within `sendRetry`. -/
def failedThenRetried : List LayerCall :=
  [.tryTiming 0, .tryTiming 1, .failedTiming 5, .advance 5, .releaseEvent, .recvRetry,
    .tryTiming 0, .succeededTiming 9, .sendRetryReturns 6]

def afterRetry : LayerUse where
  layer := { state := .BUSY, waitingForLayer := [1], releaseEvent := some 9 }
  curTick := 5
  refused := [1]

theorem port_one_still_waits :
    (∀ port, afterRetry.waiting.count port = if port ∈ afterRetry.refused then 1 else 0) ∧
    afterRetry.atRest ∧ afterRetry.layer.waitingForLayer ≠ [] ∧ afterRetry.layer.state = .BUSY := by
  have reached : machine.Reaches (fun _ _ => True) afterRetry :=
    Machine.Reaches.start.run failedThenRetried (fun _ _ => trivial) (by decide)
  have holds := no_port_lost reached
  exact ⟨holds.1, by decide, by decide, by decide⟩

end LayerUse

end Classic

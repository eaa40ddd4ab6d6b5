import Lab447.Ruby.Coherence

/-!
What a transition does to broadcasts. The sequencer, the mandatory queue and the
duplicates on the network are all that matters for them, and eight of the actions
are all that changes any of these. A transition has at most two of the eight.
-/

namespace Ruby

open Script

/-- What broadcasts depend on. -/
structure View where
  version : Nat
  sequencer : Sequencer
  queue : MessageBuffer RubyRequest
  sent : List ResponseMsg

variable {side : CacheSide} {c : Controller}

namespace Controller

def view (c : Controller) : View where
  version := c.version
  sequencer := c.sequencer
  queue := c.mandatoryQueue
  sent := c.responseL1NetworkOut.filter (·.isBCDuplicate)

@[simp] theorem view_setCache {k : CacheMemory} :
    (c.setCache side k).view = c.view := by cases side <;> rfl

@[simp] theorem view_modifyEntry {a : Addr} {f : Entry → Entry} :
    (c.modifyEntry side a f).view = c.view := view_setCache

end Controller

/-! ### Actions that do not matter -/

variable {m : ResponseMsg}

namespace Ctx

structure Quiet (x y : Ctx) : Prop where
  address : y.address = x.address
  view : y.ctrl.view = x.ctrl.view
  response : y.response = x.response ∨ y.response = none

theorem Quiet.refl (x : Ctx) : Quiet x x := ⟨rfl, rfl, .inl rfl⟩

variable {cfg : Config} {x y z : Ctx} {a : Action}

theorem Quiet.trans (h : Quiet x y) (h' : Quiet y z) : Quiet x z where
  address := h'.address.trans h.address
  view := h'.view.trans h.view
  response := h'.response.elim (fun e => by rw [e]; exact h.response) .inr

theorem quiet_modifyEntry (x : Ctx) (f : Entry → Entry) : Quiet x (x.modifyEntry f) := by
  unfold modifyEntry
  split
  · exact ⟨rfl, Controller.view_modifyEntry, .inl rfl⟩
  · exact .refl x

theorem quiet_enqueueResponse (h : m.isBCDuplicate = false) : Quiet x (x.enqueueResponse m) := by
  refine ⟨rfl, ?_, .inl rfl⟩
  simp [Controller.view, enqueueResponse, h]

theorem setState_quiet {next : State} (h : x.setState next = .ok y) : Quiet x y := by
  obtain ⟨-, rfl⟩ := setState_ok h
  have first : Quiet x (x.setTBE (x.tbe.map fun t => { t with tbeState := next })) :=
    ⟨rfl, rfl, .inl rfl⟩
  exact first.trans (quiet_modifyEntry _ _)

/-- The actions that broadcasts do not depend on. -/
def quiet : Action → Bool
  | .hLoadHit | .hIfetchHit | .hxLoadHit | .hhStoreHit | .hhxStoreHit | .kPopMandatoryQueue
  | .zStallAndWaitMandatoryQueue | .kdWakeUpDependents => false
  | _ => true

theorem perform_quiet (ha : quiet a = true) (h : x.perform cfg a = .ok y) : Quiet x y := by
  have block {side : CacheSide} (h : x.allocateBlock cfg side = .ok y) : Quiet x y := by
    unfold allocateBlock at h
    split at h
    · cases h
      exact .refl _
    · split at h
      · cases h
      · split at h
        · cases h
          exact ⟨rfl, Controller.view_setCache, .inl rfl⟩
        · cases h
  cases a <;> cases ha
  case aIssueGETS | jjSendExclusiveUnblock =>
    obtain ⟨m, -, rfl⟩ := map_eq_ok.mp h
    split
    · exact .refl x
    · exact ⟨rfl, rfl, .inl rfl⟩
  case dSendDataToRequestor | dtSendDataToRequestorFromTBE =>
    obtain ⟨m, -, h⟩ := bind_eq_ok.mp h
    obtain ⟨e, -, rfl⟩ := map_eq_ok.mp h
    exact quiet_enqueueResponse rfl
  case d2SendDataToL2 | d2tSendDataToL2FromTBE | fSendDataToL2 | ftSendDataToL2FromTBE |
      fiSendInvAck =>
    obtain ⟨e, -, rfl⟩ := map_eq_ok.mp h
    exact quiet_enqueueResponse rfl
  case forwardEvictionToCpu =>
    cases h
    unfold forwardEvictionToCpu
    split
    · exact ⟨rfl, Controller.view_modifyEntry, .inl rfl⟩
    · exact .refl x
  case jSendUnblock | uuProfileInstMiss | uuProfileInstHit =>
    cases h
    exact ⟨rfl, rfl, .inl rfl⟩
  case iAllocateTBE =>
    obtain ⟨-, rfl⟩ | ⟨-, t, rfl, -⟩ := iAllocateTBE_ok h
    · exact .refl _
    · exact ⟨rfl, rfl, .inl rfl⟩
  case sDeallocateTBE =>
    obtain ⟨-, rfl⟩ | rfl := sDeallocateTBE_ok h
    · exact .refl _
    · exact ⟨rfl, rfl, .inl rfl⟩
  case uWriteDataToL1Cache | poObserveHit =>
    obtain ⟨m, -, h⟩ := bind_eq_ok.mp h
    split at h
    · cases h
      exact .refl _
    · obtain ⟨e, -, rfl⟩ := map_eq_ok.mp h
      exact quiet_modifyEntry _ _
  case qUpdateAckCount =>
    obtain ⟨m, -, h⟩ := bind_eq_ok.mp h
    obtain ⟨t, -, rfl⟩ := map_eq_ok.mp h
    exact ⟨rfl, rfl, .inl rfl⟩
  case ffDeallocateL1CacheBlock =>
    simp only [perform, ffDeallocateL1CacheBlock] at h
    split at h
    · cases h
      exact ⟨rfl, rfl, .inl rfl⟩
    · split at h
      · cases h
        exact ⟨rfl, rfl, .inl rfl⟩
      · cases h
  case ooAllocateL1DCacheBlock =>
    obtain ⟨m, -, h⟩ := bind_eq_ok.mp h
    split at h
    · cases h
      exact .refl _
    · exact block h
  case ppAllocateL1ICacheBlock => exact block h
  case zStallAndWaitOptionalQueue =>
    obtain ⟨m, -, h⟩ := bind_eq_ok.mp h
    split at h
    · cases h
      exact ⟨rfl, rfl, .inl rfl⟩
    · cases h
  case mpMarkPrefetched =>
    obtain ⟨e, -, rfl⟩ := map_eq_ok.mp h
    exact quiet_modifyEntry _ _
  case oPopIncomingResponseQueue =>
    obtain ⟨m, -, rfl⟩ := map_eq_ok.mp h
    exact ⟨rfl, rfl, .inr rfl⟩
  all_goals
    obtain ⟨m, -, rfl⟩ := map_eq_ok.mp h
    exact ⟨rfl, rfl, .inl rfl⟩

end Ctx

/-! ### Actions that matter -/

/-- Requests for a line are completed: `done` are handed to the processor,
`left` stay in the table, `issued` go into the queue and `gone` leave it. -/
structure Completed (a : Addr) (done left : List SequencerRequest)
    (record : Addr → Option Packet) (issued gone : List RubyRequest) (v v' : View) : Prop where
  version : v'.version = v.version
  sent : v'.sent = v.sent
  hits : v'.sequencer.hitCallbacks.map Packet.blank =
    v.sequencer.hitCallbacks.map Packet.blank ++ done.map (·.pkt.blank)
  table : v'.sequencer.requestTable = Function.update v.sequencer.requestTable a left
  receipts : v'.sequencer.bcCallbacks = v.sequencer.bcCallbacks
  record : (∀ r ∈ left, r.pkt.isBroadcast = false) → v'.sequencer.bcRecord = record
  queue : (gone ++ v'.queue.messages).Perm (issued ++ v.queue.messages)

/-- The queue may lose messages after the requests are completed. -/
theorem Completed.requeue {a : Addr} {done left : List SequencerRequest}
    {record : Addr → Option Packet} {issued gone : List RubyRequest} {v v' : View}
    (h : Completed a done left record issued [] v v') {q : MessageBuffer RubyRequest}
    (hq : (gone ++ q.messages).Perm v'.queue.messages) :
    Completed a done left record issued gone v { v' with queue := q } :=
  ⟨h.version, h.sent, h.hits, h.table, h.receipts, h.record, hq.trans h.queue⟩

namespace View

def machineID (v : View) : MachineID := ⟨.L1Cache, v.version⟩

/-- The requests of a line. -/
def requests (v : View) (a : Addr) : List SequencerRequest := v.sequencer.requestTable a

/-- The response to a duplicate. -/
def answer (v : View) (m : RubyRequest) : ResponseMsg :=
  { addr := m.lineAddress, type := .DATAEXCLUSIVE, sender := v.machineID
    destination := m.netDest, messageSize := .ResponseData, packetptr := some m.pkt
    isBCDuplicate := true }

end View

open Controller in
/-- The reads at the head of the table are completed. A load first enqueues the
copies of a broadcast. -/
def Fetched (cfg : Config) (a : Addr) (gone : List RubyRequest) (v v' : View) : Prop :=
  (∃ r rest, v.requests a = r :: rest ∧ r.type.isRead) ∧
    Completed a (reads (v.requests a)) (remaining (v.requests a)) v.sequencer.bcRecord
      (reissued cfg (remaining (v.requests a))) gone v v'

open Controller in
@[inherit_doc Fetched]
def Loaded (cfg : Config) (a : Addr) (gone : List RubyRequest) (v v' : View) : Prop :=
  (∃ r rest, v.requests a = r :: rest ∧ r.type.isRead) ∧ ∃ data,
    Completed a (reads (v.requests a)) (remaining (v.requests a))
      (Function.update v.sequencer.bcRecord a none)
      (copies cfg v.machineID a data (v.sequencer.bcRecord a) ++
        reissued cfg (remaining (v.requests a))) gone v v'

/-- All requests of the line are completed. -/
def Stored (a : Addr) (gone : List RubyRequest) (v v' : View) : Prop :=
  (∃ r rest, v.requests a = r :: rest ∧ r.type.isRead = false) ∧
    Completed a (v.requests a) [] v.sequencer.bcRecord [] gone v v'

inductive Kind where
  | idle | taken | loadHit | ifetchHit | storeHit | fill | storeFill
  deriving DecidableEq

/-- What a transition of each kind does, for the line `a` and the response at the
head of the in-port. -/
inductive Effect (cfg : Config) (a : Addr) (response : Option ResponseMsg) (v v' : View) :
    Kind → Prop
  | idle {q : MessageBuffer RubyRequest} : v' = { v with queue := q } →
      q.messages.Perm v.queue.messages → Effect cfg a response v v' .idle
  | taken {m : RubyRequest} {q : MessageBuffer RubyRequest} : v.queue.peek = some m →
      v' = { v with queue := q } → (m :: q.messages).Perm v.queue.messages →
      Effect cfg a response v v' .taken
  | answered {m : RubyRequest} {q : MessageBuffer RubyRequest} : v.queue.peek = some m →
      m.isBCDuplicate = true → v' = { v with queue := q, sent := v.sent ++ [v.answer m] } →
      (m :: q.messages).Perm v.queue.messages → Effect cfg a response v v' .loadHit
  | loadHit {m : RubyRequest} : v.queue.peek = some m → m.isBCDuplicate = false →
      Loaded cfg a [m] v v' → Effect cfg a response v v' .loadHit
  | ifetchHit {m : RubyRequest} : v.queue.peek = some m → Fetched cfg a [m] v v' →
      Effect cfg a response v v' .ifetchHit
  | storeHit {m : RubyRequest} : v.queue.peek = some m → Stored a [m] v v' →
      Effect cfg a response v v' .storeHit
  | received {m : ResponseMsg} {pkt : Packet} {q : MessageBuffer RubyRequest} :
      response = some m → m.isBCDuplicate = true → m.packetptr = some pkt →
      v' = { v with
        queue := q
        sequencer := { v.sequencer with bcCallbacks := v.sequencer.bcCallbacks ++ [pkt] } } →
      q.messages.Perm v.queue.messages → Effect cfg a response v v' .fill
  | fill {m : ResponseMsg} : response = some m → m.isBCDuplicate = false →
      Loaded cfg a [] v v' → Effect cfg a response v v' .fill
  | storeFill : Stored a [] v v' → Effect cfg a response v v' .storeFill

namespace Ctx

variable {cfg : Config} {x y z : Ctx} {a : Action}

theorem peekMandatory_ok {m : RubyRequest} (h : x.peekMandatory = .ok m) :
    x.ctrl.view.queue.peek = some m := by
  unfold peekMandatory at h
  split at h
  · rename_i hp
    cases h
    exact hp
  · cases h

theorem peekResponse_ok (h : x.peekResponse = .ok m) : x.response = some m := by
  unfold peekResponse at h
  split at h
  · rename_i hp
    cases h
    exact hp
  · cases h

theorem kPopMandatoryQueue_ok (h : x.kPopMandatoryQueue = .ok y) :
    ∃ m, x.ctrl.view.queue.peek = some m ∧
      y.ctrl.view = { x.ctrl.view with queue := x.ctrl.view.queue.dequeue } := by
  obtain ⟨m, hm, rfl⟩ := map_eq_ok.mp h
  exact ⟨m, peekMandatory_ok hm, rfl⟩

theorem zStallAndWaitMandatoryQueue_ok (h : x.zStallAndWaitMandatoryQueue cfg = .ok y) :
    y.ctrl.view = { x.ctrl.view with queue := x.ctrl.view.queue.stallMessage x.address } := by
  obtain ⟨m, -, h⟩ := bind_eq_ok.mp h
  split at h
  · cases h
    rfl
  · cases h

variable {c' : Controller}

/-- A callback leaves the version and the network alone. -/
theorem view_served (h : Controller.Served c c') :
    c'.view.version = c.view.version ∧ c'.view.sent = c.view.sent :=
  ⟨h.version, by simp only [Controller.view, h.responseOut]⟩

theorem readCallback_fetched {addr : Addr} (h : Controller.readCallback cfg side addr c = .ok c') :
    Fetched cfg addr [] c.view c'.view ∧
      ∀ m, c.view.queue.peek = some m → c'.view.queue.peek = some m := by
  obtain ⟨head, read⟩ := Controller.readCallback_ok h
  obtain ⟨version, sent⟩ := view_served read.served
  have queue : c'.view.queue = _ := read.queue
  refine ⟨⟨head, version, sent, read.hits, read.table, read.receipts, read.record, ?_⟩, ?_⟩
  · rw [queue]
    exact MessageBuffer.messages_foldl_enqueue _ _
  · intro m hm
    rw [queue]
    exact MessageBuffer.peek_foldl_enqueue hm _

theorem completeLoad_loaded (h : x.completeLoad cfg side = .ok y) :
    y.address = x.address ∧ y.response = x.response ∧ Loaded cfg x.address [] x.ctrl.view y.ctrl.view ∧
      ∀ m, x.ctrl.view.queue.peek = some m → y.ctrl.view.queue.peek = some m := by
  obtain ⟨c', hc, rfl⟩ := map_eq_ok.mp h
  obtain ⟨c₁, h₁, h₂⟩ := bind_eq_ok.mp hc
  have first := Controller.duplicateIfBC_ok h₁
  obtain ⟨⟨head, done⟩, peek⟩ := readCallback_fetched h₂
  subst first
  refine ⟨rfl, rfl, ⟨head, x.ctrl.dataBlk side x.address, done.version, done.sent, done.hits, done.table, done.receipts,
    done.record, ?_⟩, fun m hm => peek m (MessageBuffer.peek_foldl_enqueue hm _)⟩
  have copied := MessageBuffer.messages_foldl_enqueue (Controller.copies cfg x.ctrl.machineID x.address
    (x.ctrl.dataBlk side x.address) (x.ctrl.sequencer.bcRecord x.address)) x.ctrl.mandatoryQueue
  refine (done.queue.trans (copied.append_left _)).trans ?_
  rw [← List.append_assoc]
  exact List.perm_append_comm.append_right _

theorem writeCallback_stored {addr : Addr} (h : Controller.writeCallback cfg side addr c = .ok c') :
    Stored addr [] c.view c'.view ∧ c'.view.queue = c.view.queue := by
  obtain ⟨head, written⟩ := Controller.writeCallback_ok h
  obtain ⟨version, sent⟩ := view_served written.served
  have queue : c'.view.queue = c.view.queue := written.queue
  exact ⟨⟨head, version, sent, written.hits, written.table, written.receipts,
    fun _ => written.record, by rw [queue]⟩, queue⟩

/-! ### Transitions -/

/-- The kind of a transition, told by its actions. -/
def kindOf (as : List Action) : Kind :=
  if .hLoadHit ∈ as then .loadHit
  else if .hIfetchHit ∈ as then .ifetchHit
  else if .hhStoreHit ∈ as then .storeHit
  else if .hxLoadHit ∈ as then .fill
  else if .hhxStoreHit ∈ as then .storeFill
  else if .kPopMandatoryQueue ∈ as then .taken
  else .idle

/-- The actions that matter, in the transitions of each kind. -/
def Kind.actions : Kind → List (List Action)
  | .idle => [[], [.zStallAndWaitMandatoryQueue], [.kdWakeUpDependents]]
  | .taken => [[.kPopMandatoryQueue]]
  | .loadHit => [[.hLoadHit, .kPopMandatoryQueue]]
  | .ifetchHit => [[.hIfetchHit, .kPopMandatoryQueue]]
  | .storeHit => [[.hhStoreHit, .kPopMandatoryQueue]]
  | .fill => [[.hxLoadHit, .kdWakeUpDependents]]
  | .storeFill => [[.hhxStoreHit, .kdWakeUpDependents]]

variable {as : List Action}

theorem row_kind {st next : State} {event : Event} (h : transition st event = some (as, next)) :
    (as.filter fun a => !quiet a) ∈ Kind.actions (kindOf as) :=
  transition_row (P := fun _ _ as _ => (as.filter fun a => !quiet a) ∈ Kind.actions (kindOf as))
    (by decide +kernel) h

theorem Quiet.peek {m : RubyRequest} (q : Quiet x y) (h : y.ctrl.view.queue.peek = some m) :
    x.ctrl.view.queue.peek = some m := by
  rw [← q.view]
  exact h

/-- A hit ends with the head taken off the queue. -/
theorem popped {m : RubyRequest} (h : Along (perform cfg) Quiet [.kPopMandatoryQueue] x y)
    (hm : x.ctrl.view.queue.peek = some m) :
    ∃ q, y.ctrl.view = { x.ctrl.view with queue := q } ∧
      (m :: q.messages).Perm x.ctrl.view.queue.messages := by
  obtain ⟨u, v, q₁, hv, last⟩ := h.cons_inv
  obtain ⟨m', -, hview⟩ := kPopMandatoryQueue_ok hv
  refine ⟨_, (last.nil_inv.view.trans hview).trans (by rw [q₁.view]), ?_⟩
  rw [← MessageBuffer.messages_dequeue hm]

/-- A fill ends with a wake-up. -/
theorem woken (h : Along (perform cfg) Quiet [.kdWakeUpDependents] x y) :
    ∃ q, y.ctrl.view = { x.ctrl.view with queue := q } ∧
      q.messages.Perm x.ctrl.view.queue.messages := by
  obtain ⟨u, v, q₁, hv, last⟩ := h.cons_inv
  cases hv
  have hview : u.kdWakeUpDependents.ctrl.view = { u.ctrl.view with
    queue := u.ctrl.view.queue.reanalyzeMessages u.address } := rfl
  rw [q₁.view] at hview
  exact ⟨_, last.nil_inv.view.trans hview, MessageBuffer.messages_reanalyzeMessages _ _⟩

theorem hLoadHit_ok (h : x.hLoadHit cfg = .ok y) :
    ∃ m, x.ctrl.view.queue.peek = some m ∧
      (m.isBCDuplicate = true ∧ y = x.enqueueResponse (x.answer m) ∨
        m.isBCDuplicate = false ∧ ∃ side, x.completeLoad cfg side = .ok y) := by
  obtain ⟨⟨side, e⟩, -, h⟩ := bind_eq_ok.mp h
  obtain ⟨m, hm, h⟩ := bind_eq_ok.mp h
  refine ⟨m, peekMandatory_ok hm, ?_⟩
  split at h
  · rename_i hd
    cases h
    exact .inl ⟨hd, rfl⟩
  · rename_i hd
    exact .inr ⟨by simpa using hd, side, h⟩

theorem hxLoadHit_ok (h : x.hxLoadHit cfg = .ok y) :
    ∃ m, x.response = some m ∧
      (m.isBCDuplicate = true ∧ (∃ pkt, m.packetptr = some pkt ∧ y = { x with
          ctrl := { x.ctrl with sequencer := { x.ctrl.sequencer with
            bcCallbacks := x.ctrl.sequencer.bcCallbacks ++ [pkt] } } }) ∨
        m.isBCDuplicate = false ∧ ∃ side, x.completeLoad cfg side = .ok y) := by
  obtain ⟨m, hm, h⟩ := bind_eq_ok.mp h
  refine ⟨m, peekResponse_ok hm, ?_⟩
  split at h
  · rename_i hd
    split at h
    · rename_i pkt hp
      obtain ⟨c, hc, rfl⟩ := map_eq_ok.mp h
      rw [Controller.readCallbackBC_ok hc]
      exact .inl ⟨hd, pkt, hp, rfl⟩
    · cases h
  · rename_i hd
    obtain ⟨⟨side, e⟩, -, h⟩ := bind_eq_ok.mp h
    exact .inr ⟨by simpa using hd, side, h⟩

theorem hhStoreHit_ok (h : x.hhStoreHit cfg = .ok y) :
    Stored x.address [] x.ctrl.view y.ctrl.view ∧ y.ctrl.view.queue = x.ctrl.view.queue := by
  obtain ⟨⟨side, e⟩, -, h⟩ := bind_eq_ok.mp h
  obtain ⟨z, hz, rfl⟩ := map_eq_ok.mp h
  obtain ⟨c, hc, rfl⟩ := map_eq_ok.mp hz
  rw [(quiet_modifyEntry _ _).view]
  exact writeCallback_stored hc

/-- What the actions that matter do, one after the other. -/
theorem effect_of_along {k : Kind} (hk : as ∈ Kind.actions k)
    (asked : k = .ifetchHit → ∃ m, x.ctrl.view.queue.peek = some m)
    (h : Along (perform cfg) Quiet as x y) :
    Effect cfg x.address x.response x.ctrl.view y.ctrl.view k := by
  cases k <;> simp only [Kind.actions, List.mem_cons, List.not_mem_nil, or_false] at hk
  case idle =>
    obtain rfl | rfl | rfl := hk
    · exact .idle h.nil_inv.view (.refl _)
    · obtain ⟨u, v, q₁, hv, last⟩ := h.cons_inv
      have hview := last.nil_inv.view.trans (zStallAndWaitMandatoryQueue_ok hv)
      rw [q₁.view] at hview
      exact .idle hview (MessageBuffer.messages_stallMessage _ _)
    · obtain ⟨q, hview, hq⟩ := woken h
      exact .idle hview hq
  case taken =>
    subst hk
    obtain ⟨u, v, q₁, hv, -⟩ := h.cons_inv
    obtain ⟨m, hm, -⟩ := kPopMandatoryQueue_ok hv
    obtain ⟨q, hview, hq⟩ := popped h (q₁.peek hm)
    exact .taken (q₁.peek hm) hview hq
  all_goals
    subst hk
    obtain ⟨u, v, q₁, hv, last⟩ := h.cons_inv
  case loadHit =>
    obtain ⟨m, hm, ⟨hd, rfl⟩ | ⟨hd, side, hload⟩⟩ := hLoadHit_ok hv
    · obtain ⟨q, hview, hq⟩ := popped last hm
      have sent : (u.enqueueResponse (u.answer m)).ctrl.view =
          { u.ctrl.view with sent := u.ctrl.view.sent ++ [u.ctrl.view.answer m] } := by
        simp [Controller.view, enqueueResponse, answer, View.answer, Controller.machineID,
          View.machineID]
      rw [sent] at hview
      rw [← q₁.view]
      exact .answered hm hd hview hq
    · obtain ⟨-, -, ⟨head, data, done⟩, peek⟩ := completeLoad_loaded hload
      obtain ⟨q, hview, hq⟩ := popped last (peek m hm)
      rw [← q₁.view, hview, ← q₁.address]
      exact .loadHit hm hd ⟨head, data, done.requeue hq⟩
  case ifetchHit =>
    obtain ⟨⟨side, e⟩, -, hread⟩ := bind_eq_ok.mp hv
    obtain ⟨c, hc, rfl⟩ := map_eq_ok.mp hread
    obtain ⟨⟨head, done⟩, peek⟩ := readCallback_fetched hc
    obtain ⟨m, hm⟩ := asked rfl
    rw [← q₁.view] at hm
    obtain ⟨q, hview, hq⟩ := popped last (peek m hm)
    rw [← q₁.view, hview, ← q₁.address]
    exact .ifetchHit hm ⟨head, done.requeue hq⟩
  case storeHit =>
    obtain ⟨⟨head, done⟩, queue⟩ := hhStoreHit_ok hv
    obtain ⟨w, w', q₂, hw, -⟩ := last.cons_inv
    obtain ⟨m, hm, -⟩ := kPopMandatoryQueue_ok hw
    obtain ⟨q, hview, hq⟩ := popped last (q₂.peek hm)
    rw [← q₁.view, hview, ← q₁.address]
    exact .storeHit (queue ▸ q₂.peek hm) ⟨head, done.requeue hq⟩
  case fill =>
    obtain ⟨q, hview, hq⟩ := woken last
    obtain ⟨m, hm, ⟨hd, pkt, hp, rfl⟩ | ⟨hd, side, hload⟩⟩ := hxLoadHit_ok hv
    all_goals
      have response : x.response = some m := by
        obtain e | e := q₁.response
        · exact e ▸ hm
        · rw [e] at hm
          cases hm
    · rw [← q₁.view]
      exact .received response hd hp hview hq
    · obtain ⟨-, -, ⟨head, data, done⟩, -⟩ := completeLoad_loaded hload
      rw [← q₁.view, hview, ← q₁.address]
      exact .fill response hd ⟨head, data, done.requeue hq⟩
  case storeFill =>
    obtain ⟨⟨head, done⟩, -⟩ := hhStoreHit_ok hv
    obtain ⟨q, hview, hq⟩ := woken last
    rw [← q₁.view, hview, ← q₁.address]
    exact .storeFill ⟨head, done.requeue hq⟩

theorem row_ifetchHit {st next : State} {event : Event} (h : transition st event = some (as, next))
    (hk : kindOf as = .ifetchHit) : event = .Ifetch :=
  transition_row (P := fun _ event as _ => kindOf as = .ifetchHit → event = .Ifetch)
    (by decide +kernel) h hk

/-- What a transition does to broadcasts. -/
theorem doTransition_effect {event : Event}
    (asked : event = .Ifetch → ∃ m, x.ctrl.view.queue.peek = some m)
    (h : x.doTransition cfg event = .ok y) :
    ∃ as next, transition x.state event = some (as, next) ∧
      Effect cfg x.address x.response x.ctrl.view y.ctrl.view (kindOf as) := by
  obtain ⟨as, next, z, row, hz, hy⟩ := doTransition_ok h
  have trans (x y z : Ctx) : Quiet x y → Quiet y z → Quiet x z := Quiet.trans
  have along := along_of_run Quiet.refl trans quiet (fun _ ha _ _ => perform_quiet ha) hz
  exact ⟨as, next, row, effect_of_along (row_kind row) (fun hk => asked (row_ifetchHit row hk))
    (along.before trans (setState_quiet hy))⟩

end Ctx

/-! ### In-ports -/

namespace Controller

variable {cfg : Config} {c c' : Controller} {event : Event} {a : Addr} {entry : Option CacheSide}

theorem trigger_effect (asked : event = .Ifetch → ∃ m, c.mandatoryQueue.peek = some m)
    (h : c.trigger cfg event a entry = .ok c') :
    ∃ as next, transition (Ctx.state ⟨c, a, entry, none, none⟩) event = some (as, next) ∧
      Effect cfg a none c.view c'.view (Ctx.kindOf as) := by
  obtain ⟨y, hy, rfl⟩ := map_eq_ok.mp h
  exact Ctx.doTransition_effect asked hy

/-- What the head `m` of the mandatory queue leads to. -/
inductive Handled (cfg : Config) (c c' : Controller) (m : RubyRequest) : Prop
  | demanded {event : Event} {entry : Option CacheSide} :
      mandatoryRequestTypeToEvent m.type = .ok event → c.Points m.lineAddress entry →
      (m.type = .IFETCH ∨ m.isBCDuplicate = false) →
      c.trigger cfg event m.lineAddress entry = .ok c' → Handled cfg c c' m
  | copied {event : Event} : mandatoryRequestTypeToEvent m.type = .ok event →
      m.type ≠ .IFETCH → m.isBCDuplicate = true →
      c.trigger cfg event m.lineAddress (c.entryIn .dcache m.lineAddress) = .ok c' →
      Handled cfg c c' m
  | replaced {line : Addr} {entry : Option CacheSide} : c.Points line entry →
      c.trigger cfg .L1_Replacement line entry = .ok c' → Handled cfg c c' m
  | delayed : c' = { c with mandatoryQueue := c.mandatoryQueue.delayHead } → Handled cfg c c' m

variable {victim : Addr}

theorem demand_handled {m : RubyRequest} (plain : m.type = .IFETCH ∨ m.isBCDuplicate = false)
    (h : c.demand cfg side m victim = some (.ok c')) : Handled cfg c c' m := by
  obtain ⟨entry, points, hr⟩ | ⟨line, entry, points, hr⟩ | hr := demand_cases h
  · obtain ⟨event, he, ht⟩ := bind_eq_ok.mp hr.symm
    exact .demanded he points plain ht
  · exact .replaced points hr.symm
  · exact .delayed (Except.ok.inj hr)

theorem mandatoryQueueIn_handled (h : c.mandatoryQueueIn cfg victim = some (.ok c')) :
    ∃ m, c.mandatoryQueue.peek = some m ∧ Handled cfg c c' m := by
  unfold mandatoryQueueIn at h
  split at h
  · cases h
  · rename_i m hm
    refine ⟨m, hm, ?_⟩
    split at h
    · rename_i ht
      exact demand_handled (.inl ht) h
    · rename_i ht
      split at h
      · rename_i hd
        obtain ⟨event, he, ht'⟩ := bind_eq_ok.mp (Option.some.inj h)
        exact .copied he ht hd ht'
      · rename_i hd
        exact demand_handled (.inr (by simpa using hd)) h

theorem effect_delayHead (c : Controller) (a : Addr) :
    Effect cfg a none c.view { c with mandatoryQueue := c.mandatoryQueue.delayHead }.view .idle :=
  .idle rfl (MessageBuffer.messages_delayHead _)

theorem mandatoryQueueIn_effect (h : c.mandatoryQueueIn cfg victim = some (.ok c')) :
    ∃ a k, Effect cfg a none c.view c'.view k := by
  obtain ⟨m, hm, handled⟩ := mandatoryQueueIn_handled h
  have triggered {event : Event} {a : Addr} {entry : Option CacheSide}
      (ht : c.trigger cfg event a entry = .ok c') : ∃ a k, Effect cfg a none c.view c'.view k := by
    obtain ⟨as, next, -, effect⟩ := trigger_effect (fun _ => ⟨m, hm⟩) ht
    exact ⟨_, _, effect⟩
  cases handled with
  | demanded _ _ _ ht => exact triggered ht
  | copied _ _ _ ht => exact triggered ht
  | replaced _ ht => exact triggered ht
  | delayed he =>
    subst he
    exact ⟨0, _, effect_delayHead c 0⟩

/-- What the head of the optional queue leads to. -/
theorem optionalQueueIn_cases (h : c.optionalQueueIn cfg victim = some (.ok c')) :
    ∃ event a entry, c.Points a entry ∧
      event ∈ [Event.PF_Load, .PF_Ifetch, .PF_Store, .PF_L1_Replacement] ∧
      c.trigger cfg event a entry = .ok c' := by
  have asked {side : CacheSide} {m : LineRequest}
      (h : c.prefetchInto cfg side m victim = some (.ok c')) : ∃ event a entry, c.Points a entry ∧
        event ∈ [Event.PF_Load, .PF_Ifetch, .PF_Store, .PF_L1_Replacement] ∧
        c.trigger cfg event a entry = .ok c' := by
    obtain ⟨entry, points, hr⟩ | ⟨line, entry, points, hr⟩ := prefetchInto_cases h
    · obtain ⟨event, he, ht⟩ := bind_eq_ok.mp hr.symm
      refine ⟨event, _, entry, points, ?_, ht⟩
      cases hm : m.type <;> simp only [hm, prefetchRequestTypeToEvent, reduceCtorEq,
        Except.ok.injEq] at he <;> simp [← he]
    · exact ⟨_, line, entry, points, by simp, hr.symm⟩
  unfold optionalQueueIn at h
  split at h
  · cases h
  · split at h
    · exact asked h
    · exact asked h

theorem optionalQueueIn_effect (h : c.optionalQueueIn cfg victim = some (.ok c')) :
    ∃ a k, Effect cfg a none c.view c'.view k := by
  obtain ⟨event, a, entry, -, he, ht⟩ := optionalQueueIn_cases h
  obtain ⟨as, next, -, effect⟩ := trigger_effect (by rintro rfl; simp at he) ht
  exact ⟨_, _, effect⟩

/-- The events of responses; a duplicate has an event of its own. -/
def responses : List Event :=
  [.Data, .Data_Exclusive, .DataS_fromL1, .Data_all_Acks, .Ack, .Ack_all, .WB_Ack]

theorem responseEvent_mem {x : Ctx} (h : responseEvent x m = .ok event) :
    m.isBCDuplicate = true ∧ event = .BC_RECEIVE ∨
      m.isBCDuplicate = false ∧ event ∈ responses := by
  unfold responseEvent at h
  split at h
  · rename_i hd
    cases h
    exact .inl ⟨hd, rfl⟩
  · rename_i hd
    refine .inr ⟨by simpa using hd, ?_⟩
    split at h
    · cases h
      decide
    · obtain ⟨st, -, h⟩ := bind_eq_ok.mp h
      split at h
      · cases h
        decide
      · obtain ⟨all, -, rfl⟩ := map_eq_ok.mp h
        cases all <;> decide
    · obtain ⟨all, -, rfl⟩ := map_eq_ok.mp h
      cases all <;> decide
    · cases h
      decide
    · cases h

theorem responseL1NetworkIn_effect {y : Ctx} (h : c.responseL1NetworkIn cfg m = some (.ok y)) :
    ∃ k, Effect cfg m.addr (some m) c.view y.ctrl.view k := by
  obtain ⟨event, he, hy⟩ := responseL1NetworkIn_ok h
  obtain ⟨as, next, -, effect⟩ := Ctx.doTransition_effect
    (by rintro rfl; simpa [responses] using responseEvent_mem he) hy
  exact ⟨_, effect⟩

theorem requestEvent_mem {type : CoherenceRequestType} (h : requestEvent type = .ok event) :
    event ∈ [Event.Inv, .Fwd_GETX, .Fwd_GETS, .Fwd_GET_INSTR] := by
  cases type <;> cases h <;> simp

theorem requestL1NetworkIn_effect {m : RequestMsg} {y : Ctx}
    (h : c.requestL1NetworkIn cfg m = some (.ok y)) :
    ∃ k, Effect cfg m.addr none c.view y.ctrl.view k := by
  obtain ⟨event, he, hy⟩ := requestL1NetworkIn_ok h
  obtain ⟨as, next, -, effect⟩ := Ctx.doTransition_effect
    (by rintro rfl; simpa using requestEvent_mem he) hy
  exact ⟨_, effect⟩

end Controller

end Ruby

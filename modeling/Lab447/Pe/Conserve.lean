import Lab447.Pe.Packets
import Lab447.Pe.Network

/-!
Where the packets of a PE are. The functions of a PE are called here in any
order, due or not, so that what holds does not rest on the events; every packet
that leaves a queue is noted with the way it left.
-/

namespace Pe

variable {n : Nat}

/-- A packet that was accepted by the port, or suppressed and counted in
`numSuppressed`. -/
structure Departure (n : Nat) where
  req : Request n
  suppressed : Bool
  deriving DecidableEq

/-- The system with the packets that left the queues of each PE, in order. -/
structure Tracked (n : Nat) where
  system : System n
  left : Fin n → List (Departure n)

/-- One call. An event is no longer scheduled when its function runs. -/
def call (cfg : Config n) (s : System n) : Action n → Except Fault (System n)
  | .wait ticks => .ok { s with curTick := s.curTick + ticks }
  | .operate p => operateTraffic cfg (s.set p { s.pe p with operateNextEvent := none }) p
  | .schedule p accept =>
    scheduleReq cfg (s.set p { s.pe p with scheduleReqEvent := none }) p accept
  | .retry p => recvReqRetry (s.set p { s.pe p with refused := false }) p
  | .respond p r => recvTimingResp { s with inFlight := s.inFlight.erase (p, r) } p r

/-- The packet `scheduleReq` looks at. -/
def front (s : System n) (p : Fin n) : Option (Request n) :=
  match (s.pe p).queue with
  | .packet r :: _ => some r
  | _ => none

/-- How the packet in front leaves, if it does. -/
def departure (cfg : Config n) (accept : Bool) (r : Request n) : Option (Departure n) :=
  if cfg.isMemAddr r.addr then if accept then some ⟨r, false⟩ else none else some ⟨r, true⟩

/-- The packets that leave PE `q` in a call. -/
def departs (cfg : Config n) (s : System n) (q : Fin n) : Action n → List (Departure n)
  | .schedule p accept =>
    if q = p then ((front s p).bind (departure cfg accept)).toList else []
  | _ => []

/-- All sequences of calls. -/
def calls (cfg : Config n) : Machine (Tracked n) (Action n) Fault where
  start := ⟨(sim cfg).start, fun _ => []⟩
  step c a := some ((call cfg c.system a).map fun t =>
    ⟨t, fun q => c.left q ++ departs cfg c.system q a⟩)

variable {s : System n}

/-- What the event loop does is one of these calls. -/
theorem step_eq_call {cfg : Config n} {a : Action n} {e : Except Fault (System n)}
    (h : step cfg s a = some e) : e = call cfg s a := by
  cases a with
  | _ =>
    simp only [step] at h
    split at h
    · cases h
      rfl
    · cases h

/-- Every run of the simulation is a run of calls. -/
theorem sim_reaches_calls {cfg : Config n} (h : (sim cfg).Reaches (fun _ _ => True) s) :
    ∃ left, (calls cfg).Reaches (fun _ _ => True) ⟨s, left⟩ := by
  induction h with
  | start => exact ⟨_, .start⟩
  | @next s t a _ _ hstep ih =>
    obtain ⟨left, reached⟩ := ih
    have called : (calls cfg).step ⟨s, left⟩ a =
        some (.ok ⟨t, fun q => left q ++ departs cfg s q a⟩) := by
      simp only [calls, ← step_eq_call hstep]
      rfl
    exact ⟨_, reached.next trivial called⟩

/-! ## What is conserved -/

/-- The packets `operateTraffic` has created for PE `p`, in order; the log is newest
first. -/
def createdBy (p : Fin n) : List (Event n) → List (Request n)
  | [] => []
  | .operate q _ reqs :: older => createdBy p older ++ if q = p then reqs else []
  | .send _ _ :: older => createdBy p older
  | .receive _ _ :: older => createdBy p older

def ofKind (isRead : Bool) (l : List (Request n)) : List (Request n) :=
  l.filter fun r => r.isRead = isRead

/-- `waitingSend_read` or `waitingSend_write`. -/
def PE.waiting (pe : PE n) : Bool → List (PacketPtr n)
  | true => pe.waitingSendRead
  | false => pe.waitingSendWrite

/-- The packets PE `p` has created are those in its queues and those that left, each
of which left once; of each queue they left in the order they were pushed. -/
structure Conserved (c : Tracked n) (p : Fin n) : Prop where
  union : ((createdBy p c.system.log).map PacketPtr.packet).Perm
    ((c.system.pe p).waitingSendRead ++ (c.system.pe p).waitingSendWrite ++
      (c.left p).map fun d => .packet d.req)
  once : ((c.left p).map Departure.req).Nodup
  order : ∀ isRead, ofKind isRead ((c.left p).map Departure.req) <+:
    ofKind isRead (createdBy p c.system.log)

/-- What is kept: of each kind, the packets that left followed by those in the queue
are the packets created. -/
structure Kept (c : Tracked n) (p : Fin n) : Prop where
  queues : ∀ isRead, (ofKind isRead (createdBy p c.system.log)).map PacketPtr.packet =
    (ofKind isRead ((c.left p).map Departure.req)).map .packet ++ (c.system.pe p).waiting isRead
  serials : (createdBy p c.system.log).map Request.serial = List.range (c.system.pe p).created

theorem ofKind_append (isRead : Bool) (l m : List (Request n)) :
    ofKind isRead (l ++ m) = ofKind isRead l ++ ofKind isRead m :=
  List.filter_append _ _

theorem ofKind_of_all {isRead kind : Bool} {l : List (Request n)} (all : ∀ r ∈ l, r.isRead = kind) :
    ofKind isRead l = if isRead = kind then l else [] := by
  split
  · rename_i same
    exact List.filter_eq_self.mpr fun r hr => by simp [all r hr, same]
  · rename_i other
    exact List.filter_eq_nil_iff.mpr fun r hr => by simpa [all r hr] using Ne.symm other

theorem perm_kinds (l : List (Request n)) : (ofKind true l ++ ofKind false l).Perm l := by
  have other : ofKind false l = l.filter fun r => !decide (r.isRead = true) := by
    refine List.filter_congr fun r _ => ?_
    cases r.isRead <;> rfl
  rw [other]
  exact List.filter_append_perm _ l

theorem packet_injective : Function.Injective (PacketPtr.packet (n := n)) := by
  intro _ _ eq
  cases eq
  rfl

variable {p : Fin n}

theorem Kept.conserved {c : Tracked n} (h : Kept c p) : Conserved c p := by
  have union : ((createdBy p c.system.log).map PacketPtr.packet).Perm
      ((c.system.pe p).waitingSendRead ++ (c.system.pe p).waitingSendWrite ++
        (c.left p).map fun d => .packet d.req) := by
    have created := (perm_kinds (createdBy p c.system.log)).map PacketPtr.packet
    have left := (perm_kinds ((c.left p).map Departure.req)).map PacketPtr.packet
    rw [List.map_append, h.queues, h.queues] at created
    rw [List.map_append, List.map_map] at left
    refine created.symm.trans (.trans ?_ (left.append_left _))
    refine List.perm_iff_count.mpr fun x => ?_
    simp only [List.count_append, PE.waiting]
    omega
  refine ⟨union, ?_, fun isRead => ?_⟩
  · have created : (createdBy p c.system.log).Nodup := by
      refine List.Nodup.of_map Request.serial ?_
      rw [h.serials]
      exact List.nodup_range
    have packets := created.map packet_injective
    have left := (List.nodup_append.mp (union.nodup_iff.mp packets)).2.1
    refine List.Nodup.of_map PacketPtr.packet ?_
    rwa [List.map_map]
  · obtain ⟨a, b, split, ha, -⟩ := List.map_eq_append_iff.mp (h.queues isRead)
    rw [List.map_injective_iff.mpr packet_injective ha] at split
    exact ⟨b, split.symm⟩

/-! ## Calls that move no packet -/

theorem ok_of_map_eq_ok {α β : Type} {f : α → β} {x : Except Fault α} {b : β}
    (h : x.map f = .ok b) : ∃ a, x = .ok a ∧ f a = b := by
  cases x with
  | error e => cases h
  | ok a => exact ⟨a, rfl, by cases h; rfl⟩

/-- The queues and the packets created are the same. -/
structure Unmoved (s t : System n) : Prop where
  waiting : ∀ p isRead, (t.pe p).waiting isRead = (s.pe p).waiting isRead
  created : ∀ p, (t.pe p).created = (s.pe p).created
  log : ∀ p, createdBy p t.log = createdBy p s.log

variable {rest : List (PacketPtr n)} {r : Request n}

namespace Unmoved

variable {s t u : System n} {p : Fin n} {cfg : Config n}

/-- Only members that say nothing about packets differ. -/
theorem of_eq (pe : t.pe = s.pe) (log : ∀ p, createdBy p t.log = createdBy p s.log) :
    Unmoved s t :=
  ⟨fun _ _ => by rw [pe], fun _ => by rw [pe], log⟩

theorem refl (s : System n) : Unmoved s s := of_eq rfl fun _ => rfl

theorem trans (h : Unmoved s t) (h' : Unmoved t u) : Unmoved s u where
  waiting := fun p isRead => (h'.waiting p isRead).trans (h.waiting p isRead)
  created := fun p => (h'.created p).trans (h.created p)
  log := fun p => (h'.log p).trans (h.log p)

theorem set {pe : PE n} (reads : pe.waitingSendRead = (s.pe p).waitingSendRead)
    (writes : pe.waitingSendWrite = (s.pe p).waitingSendWrite)
    (created : pe.created = (s.pe p).created) : Unmoved s (s.set p pe) where
  waiting := by
    intro q isRead
    cases isRead with
    | true => exact s.set_keeps PE.waitingSendRead reads q
    | false => exact s.set_keeps PE.waitingSendWrite writes q
  created := s.set_keeps PE.created created
  log := fun _ => rfl

theorem scheduleOperateNext {when : Nat} (h : s.scheduleOperateNext p when = .ok t) :
    Unmoved s t := by
  unfold System.scheduleOperateNext at h
  split at h
  · cases h
  · cases h
    exact set rfl rfl rfl

theorem scheduleScheduleReq {when : Nat} (h : s.scheduleScheduleReq p when = .ok t) :
    Unmoved s t := by
  unfold System.scheduleScheduleReq at h
  split at h
  · cases h
  · cases h
    exact set rfl rfl rfl

theorem erase (s : System n) (p : Fin n) : Unmoved s (s.erase p) :=
  of_eq rfl fun _ => rfl

theorem finish (s : System n) (p : Fin n) : Unmoved s (finish s p) := by
  obtain same | ⟨erased, -⟩ := finish_cases s p
  · rw [same]
    exact refl s
  · rw [erased]
    exact erase s p

/-- An event other than the start of a read or write. -/
theorem record {e : Event n} (other : ∀ p, createdBy p (e :: s.log) = createdBy p s.log) :
    Unmoved s (s.record e) :=
  of_eq rfl other

theorem waitSync (h : Pe.waitSync s p = .ok t) : Unmoved s t := by
  have entered : Unmoved s
      { s with broadcastIssuer := some p, rdySyncList := insert p s.rdySyncList } :=
    of_eq rfl fun _ => rfl
  unfold Pe.waitSync at h
  simp only [] at h
  split at h
  · exact entered.trans (scheduleScheduleReq h)
  · cases h
    exact entered

theorem operateSync (h : Pe.operateSync s p = .ok t) : Unmoved s t := by
  have entered : Unmoved s { s with rdySyncList := insert p s.rdySyncList } :=
    of_eq rfl fun _ => rfl
  unfold Pe.operateSync at h
  simp only [] at h
  split at h
  · split at h
    · cases h
    · exact entered.trans (scheduleScheduleReq h)
  · cases h
    exact entered

theorem await (s : System n) (p : Fin n) (r : Request n) : Unmoved s (await s p r) := by
  unfold Pe.await
  split
  · have each {α : Type} (f : PE n → α) (q : Fin n)
        (same : f { s.pe q with waitingRespRead := setResp (s.pe q).waitingRespRead r s.curTick } =
          f (s.pe q)) :
        f (if q ∈ s.peList then
          { s.pe q with waitingRespRead := setResp (s.pe q).waitingRespRead r s.curTick }
          else s.pe q) = f (s.pe q) := by
      split
      · exact same
      · rfl
    exact ⟨fun q isRead => each (PE.waiting · isRead) q (by cases isRead <;> rfl),
      fun q => each PE.created q rfl, fun _ => rfl⟩
  · split
    · exact set rfl rfl rfl
    · exact set rfl rfl rfl

theorem afterSend (h : Pe.afterSend s p rest = .ok t) : Unmoved s t := by
  unfold Pe.afterSend at h
  split at h
  · split at h
    · exact scheduleOperateNext h
    split at h
    · cases h
      exact of_eq rfl fun _ => rfl
    · cases h
      exact refl s
  · exact scheduleScheduleReq h

theorem recvReqRetry (h : Pe.recvReqRetry s p = .ok t) : Unmoved s t := by
  unfold Pe.recvReqRetry at h
  split at h
  · cases h
  · exact scheduleScheduleReq h

theorem recvTimingResp (h : Pe.recvTimingResp s p r = .ok t) : Unmoved s t := by
  have received : Unmoved s (s.record (.receive p r)) := record fun _ => rfl
  have read (waiting : List (Request n × Nat)) : Unmoved s
      ((s.record (.receive p r)).set p { s.pe p with waitingRespRead := waiting }) :=
    received.trans (set rfl rfl rfl)
  have written (waiting : List (Request n × Nat)) : Unmoved s
      ((s.record (.receive p r)).set p { s.pe p with waitingRespWrite := waiting }) :=
    received.trans (set rfl rfl rfl)
  unfold Pe.recvTimingResp at h
  simp only [] at h
  split at h
  · cases h
  split at h
  · cases h
  split at h
  · split at h
    · obtain ⟨u, hu, rfl⟩ := ok_of_map_eq_ok h
      exact (read _).trans ((scheduleOperateNext hu).trans (finish u p))
    · cases h
      exact (read _).trans (finish _ p)
  · cases h
    exact (written _).trans (finish _ p)

end Unmoved

/-! ## Calls that move packets -/

section

variable {s t : System n} {p : Fin n} {cfg : Config n}

/-- `operateTraffic` creates the packets of one entry and pushes them, or none. -/
theorem operateTraffic_cases (h : operateTraffic cfg s p = .ok t) :
    Unmoved s t ∨ ∃ (u : Traffic) (i : Nat) (reqs : List (Request n)),
      reqs = makeRequests cfg.cacheLineSize p (s.pe p).created u ∧
        Unmoved (push (s.record (.operate p i reqs)) p u reqs) t := by
  unfold operateTraffic at h
  split at h
  · cases h
    left
    split
    · exact .erase s p
    · exact .refl s
  · rename_i u _
    obtain ⟨v, hv, rfl⟩ := ok_of_map_eq_ok h
    have advanced : Unmoved v (advanceTraffic v p) := .set rfl rfl rfl
    have noted (i : Nat) : Unmoved s (s.record (.operate p i [])) :=
      .record fun q => by simp [createdBy]
    unfold start at hv
    split at hv
    · exact .inl ((noted _).trans ((Unmoved.scheduleOperateNext hv).trans advanced))
    · exact .inl ((noted _).trans ((Unmoved.operateSync hv).trans advanced))
    · refine .inr ⟨u, (s.pe p).curTraffic, _, rfl, ?_⟩
      split at hv
      · exact (Unmoved.waitSync hv).trans advanced
      · exact (Unmoved.scheduleScheduleReq hv).trans advanced

/-- The queue `scheduleReq` takes from, with one of its packets in front. -/
theorem scheduleReq_cases {accept : Bool} (h : scheduleReq cfg s p accept = .ok t) :
    ∃ r rest, (s.pe p).queue = .packet r :: rest ∧
      ((cfg.isMemAddr r.addr = true ∧ accept = true ∧ Unmoved (s.set p ((s.pe p).setQueue rest)) t) ∨
      (cfg.isMemAddr r.addr = true ∧ accept = false ∧ Unmoved s t) ∨
      (cfg.isMemAddr r.addr = false ∧ Unmoved (s.set p ((s.pe p).setQueue (.freed :: rest))) t)) := by
  unfold scheduleReq at h
  simp only [] at h
  split at h
  · cases h
  · cases h
  · rename_i r rest queue
    refine ⟨r, rest, queue, ?_⟩
    split at h
    · rename_i mem
      split at h
      · rename_i accepted
        have popped : Unmoved (s.set p ((s.pe p).setQueue rest))
            (s.set p { (s.pe p).setQueue rest with retryPktTick := 0 }) := by
          refine ⟨fun q isRead => ?_, fun q => ?_, fun _ => rfl⟩
          · rw [System.set_eq_ite (PE.waiting · isRead), System.set_eq_ite (PE.waiting · isRead)]
            cases isRead <;> rfl
          · rw [System.set_eq_ite PE.created, System.set_eq_ite PE.created]
        have logged {u : System n} {flight : List (Fin n × Request n)} :
            Unmoved u { u.record (.send p r) with inFlight := flight } :=
          .of_eq rfl fun _ => rfl
        exact .inl ⟨mem, accepted,
          popped.trans ((Unmoved.await _ p r).trans (logged.trans (.afterSend h)))⟩
      · rename_i refused
        cases h
        exact .inr (.inl ⟨mem, by simpa using refused, .set rfl rfl rfl⟩)
    · rename_i other
      exact .inr (.inr ⟨by simpa using other, .scheduleScheduleReq h⟩)

end

/-! ## Every call -/

theorem waiting_push (s : System n) (p q : Fin n) (u : Traffic) (reqs : List (Request n)) (isRead : Bool) :
    ((push s p u reqs).pe q).waiting isRead = (s.pe q).waiting isRead ++
      if q = p ∧ isRead = decide (u.type = .read) then reqs.map .packet else [] := by
  unfold push
  rw [System.set_eq_ite (PE.waiting · isRead)]
  by_cases hq : q = p
  · subst hq
    by_cases read : u.type = .read
    · cases isRead <;> simp [read, PE.waiting]
    · cases isRead <;> simp [read, PE.waiting]
  · simp [hq]

theorem created_push (s : System n) (p q : Fin n) (u : Traffic) (reqs : List (Request n)) :
    ((push s p u reqs).pe q).created = (s.pe q).created + if q = p then reqs.length else 0 := by
  unfold push
  rw [System.set_eq_ite PE.created]
  by_cases hq : q = p
  · subst hq
    by_cases read : u.type = .read
    · simp [read]
    · simp [read]
  · simp [hq]

theorem PE.queue_eq (pe : PE n) : pe.queue = pe.waiting (decide (pe.waitingSendWrite = [])) := by
  unfold PE.queue
  split
  · rename_i none
    simp [none, PE.waiting]
  · rename_i some
    simp [some, PE.waiting]

theorem PE.waiting_setQueue (pe : PE n) (queue : List (PacketPtr n)) (isRead : Bool) :
    (pe.setQueue queue).waiting isRead =
      if isRead = decide (pe.waitingSendWrite = []) then queue else pe.waiting isRead := by
  unfold PE.setQueue
  split
  · rename_i none
    cases isRead <;> simp [none, PE.waiting]
  · rename_i some
    cases isRead <;> simp [some, PE.waiting]

theorem PE.created_setQueue (pe : PE n) (queue : List (PacketPtr n)) :
    (pe.setQueue queue).created = pe.created := by
  unfold PE.setQueue
  split <;> rfl

theorem Unmoved.setQueue {t : System n} (h : Unmoved s t) (p : Fin n) (queue : List (PacketPtr n)) :
    Unmoved (s.set p ((s.pe p).setQueue queue)) (t.set p ((t.pe p).setQueue queue)) := by
  have writes : (t.pe p).waitingSendWrite = (s.pe p).waitingSendWrite := h.waiting p false
  refine ⟨fun q isRead => ?_, fun q => ?_, h.log⟩
  · rw [t.set_eq_ite (PE.waiting · isRead), s.set_eq_ite (PE.waiting · isRead),
      PE.waiting_setQueue, PE.waiting_setQueue, writes, h.waiting, h.waiting]
  · rw [t.set_eq_ite PE.created, s.set_eq_ite PE.created, PE.created_setQueue,
      PE.created_setQueue, h.created, h.created]

namespace Kept

variable {c : Tracked n} {p q : Fin n} {cfg : Config n}

theorem frame (h : Kept c q) {d : Tracked n} (same : Unmoved c.system d.system)
    (left : d.left q = c.left q) : Kept d q where
  queues := fun isRead => by rw [same.log, same.waiting, left, h.queues]
  serials := by rw [same.log, same.created, h.serials]

theorem push (h : Kept c q) (u : Traffic) (i : Nat) {reqs : List (Request n)}
    (made : reqs = makeRequests cfg.cacheLineSize p (c.system.pe p).created u) :
    Kept ⟨Pe.push (c.system.record (.operate p i reqs)) p u reqs, c.left⟩ q := by
  have log : createdBy q (Pe.push (c.system.record (.operate p i reqs)) p u reqs).log =
      createdBy q c.system.log ++ if p = q then reqs else [] := rfl
  have pe : (c.system.record (.operate p i reqs)).pe = c.system.pe := rfl
  have kind (r) (hr : r ∈ reqs) : r.isRead = decide (u.type = .read) := by
    rw [made, makeRequests] at hr
    obtain ⟨i, -, rfl⟩ := List.mem_map.mp hr
    rfl
  have serials : (c.system.pe p).created + reqs.length =
      ((c.system.pe p).created + lineCount cfg.cacheLineSize u) := by
    rw [made, length_makeRequests]
  constructor
  · intro isRead
    rw [log, waiting_push, pe, ofKind_append, List.map_append, h.queues]
    by_cases hq : q = p
    · subst hq
      rw [if_pos rfl, ofKind_of_all kind]
      by_cases same : isRead = decide (u.type = .read)
      · simp [same]
      · simp [same]
    · rw [if_neg (Ne.symm hq)]
      simp [hq, ofKind]
  · rw [log, created_push, pe, List.map_append, h.serials]
    by_cases hq : q = p
    · subst hq
      rw [if_pos rfl, if_pos rfl, serials, List.range_add, made, makeRequests, List.map_map]
      rfl
    · rw [if_neg (Ne.symm hq), if_neg hq]
      simp

/-- The packet in front is of the kind of its queue. -/
theorem isRead_front (h : Kept c p) (queue : (c.system.pe p).queue = .packet r :: rest) :
    r.isRead = decide ((c.system.pe p).waitingSendWrite = []) := by
  have eq := h.queues (decide ((c.system.pe p).waitingSendWrite = []))
  rw [← PE.queue_eq, queue] at eq
  have mem : PacketPtr.packet r ∈ (ofKind (decide ((c.system.pe p).waitingSendWrite = []))
      (createdBy p c.system.log)).map PacketPtr.packet := by
    rw [eq]
    simp
  obtain ⟨r', hr', same⟩ := List.mem_map.mp mem
  cases same
  exact of_decide_eq_true (List.mem_filter.mp hr').2

/-- The packet in front leaves. -/
theorem pop (h : Kept c p) {suppressed : Bool} (queue : (c.system.pe p).queue = .packet r :: rest)
    {d : Tracked n} (same : Unmoved (c.system.set p ((c.system.pe p).setQueue rest)) d.system)
    (left : d.left p = c.left p ++ [⟨r, suppressed⟩]) : Kept d p := by
  have kind := h.isRead_front queue
  constructor
  · intro isRead
    rw [same.log, same.waiting, left, List.map_append, ofKind_append, List.map_append]
    rw [System.set_eq_ite (PE.waiting · isRead), if_pos rfl, PE.waiting_setQueue]
    have before := h.queues isRead
    by_cases this : isRead = decide ((c.system.pe p).waitingSendWrite = [])
    · rw [this, ← PE.queue_eq, queue] at before
      rw [this]
      simpa [ofKind, kind] using before
    · rw [if_neg this]
      have other : ofKind isRead [r] = [] := by simpa [ofKind, kind] using Ne.symm this
      simpa [other] using before
  · rw [same.log, same.created, System.set_eq_ite PE.created, if_pos rfl, PE.created_setQueue]
    exact h.serials

/-- The other PEs, when only the queues of `p` change. -/
theorem other (h : Kept c q) (hq : q ≠ p) {pe : PE n} {d : Tracked n}
    (same : Unmoved (c.system.set p pe) d.system) (left : d.left q = c.left q) : Kept d q := by
  constructor
  · intro isRead
    rw [same.log, same.waiting, left, System.set_eq_ite (PE.waiting · isRead), if_neg hq]
    exact h.queues isRead
  · rw [same.log, same.created, System.set_eq_ite PE.created, if_neg hq]
    exact h.serials

end Kept

/-- `scheduleReq` finds a packet for a memory address. -/
def MemoryFront (cfg : Config n) (c : Tracked n) : Action n → Prop
  | .schedule p _ => ∀ r, front c.system p = some r → cfg.isMemAddr r.addr = true
  | _ => True

section

variable {cfg : Config n} {c d : Tracked n} {a : Action n}

theorem call_of_step (h : (calls cfg).step c a = some (.ok d)) :
    call cfg c.system a = .ok d.system ∧
      ∀ q, d.left q = c.left q ++ departs cfg c.system q a := by
  obtain ⟨t, ht, rfl⟩ := ok_of_map_eq_ok (Option.some.inj h)
  exact ⟨ht, fun _ => rfl⟩

theorem front_eq (queue : (s.pe p).queue = .packet r :: rest) : front s p = some r := by
  rw [front, queue]

/-- What a call of `scheduleReq` does to the queue of `p` and to what has left. -/
theorem schedule_cases {accept : Bool} (h : (calls cfg).step c (.schedule p accept) = some (.ok d)) :
    ∃ r rest, (c.system.pe p).queue = .packet r :: rest ∧
      (∀ q, q ≠ p → d.left q = c.left q) ∧
      ((cfg.isMemAddr r.addr = true ∧ d.left p = c.left p ++ [⟨r, false⟩] ∧
          Unmoved (c.system.set p ((c.system.pe p).setQueue rest)) d.system) ∨
        (cfg.isMemAddr r.addr = true ∧ d.left p = c.left p ∧ Unmoved c.system d.system) ∨
        (cfg.isMemAddr r.addr = false ∧ d.left p = c.left p ++ [⟨r, true⟩] ∧
          Unmoved (c.system.set p ((c.system.pe p).setQueue (.freed :: rest))) d.system)) := by
  obtain ⟨called, left⟩ := call_of_step h
  set s := c.system.set p { c.system.pe p with scheduleReqEvent := none } with hs
  have pe : s.pe p = { c.system.pe p with scheduleReqEvent := none } := by simp [hs]
  have cleared : Unmoved c.system s := .set rfl rfl rfl
  obtain ⟨r, rest, queue, outcome⟩ := scheduleReq_cases called
  have queue : (c.system.pe p).queue = .packet r :: rest := by
    rw [← queue, pe]
    rfl
  refine ⟨r, rest, queue, fun q hq => ?_, ?_⟩
  · rw [left, departs, if_neg hq, List.append_nil]
  · have own := left p
    rw [departs, if_pos rfl, front_eq queue, Option.bind_some, departure] at own
    obtain ⟨mem, accepted, moved⟩ | ⟨mem, refused, moved⟩ | ⟨other, moved⟩ := outcome
    · rw [mem, accepted] at own
      exact .inl ⟨mem, own, (cleared.setQueue p rest).trans moved⟩
    · rw [mem, refused] at own
      exact .inr (.inl ⟨mem, by simpa using own, cleared.trans moved⟩)
    · rw [other] at own
      exact .inr (.inr ⟨other, own, (cleared.setQueue p _).trans moved⟩)

theorem kept_step (kept : ∀ p, Kept c p) (careful : MemoryFront cfg c a)
    (h : (calls cfg).step c a = some (.ok d)) (q : Fin n) : Kept d q := by
  obtain ⟨called, left⟩ := call_of_step h
  cases a with
  | wait ticks =>
    have moved : Unmoved c.system d.system := by
      rw [← Except.ok.inj called]
      exact .of_eq rfl fun _ => rfl
    exact (kept q).frame moved (by simp [left, departs])
  | operate p =>
    set s := c.system.set p { c.system.pe p with operateNextEvent := none } with hs
    have cleared : Unmoved c.system s := .set rfl rfl rfl
    have here : Kept ⟨s, c.left⟩ q := (kept q).frame cleared rfl
    have same : d.left q = c.left q := by simp [left, departs]
    obtain moved | ⟨u, i, reqs, made, moved⟩ := operateTraffic_cases called
    · exact here.frame moved same
    · exact (here.push u i made).frame moved same
  | schedule p accept =>
    obtain ⟨r, rest, queue, others, sent | refused | suppressed⟩ := schedule_cases h
    · obtain ⟨-, own, moved⟩ := sent
      by_cases hq : q = p
      · subst hq
        exact (kept q).pop queue moved own
      · exact (kept q).other hq moved (others q hq)
    · obtain ⟨-, own, moved⟩ := refused
      by_cases hq : q = p
      · subst hq
        exact (kept q).frame moved own
      · exact (kept q).frame moved (others q hq)
    · have mem := careful r (front_eq queue)
      rw [suppressed.1] at mem
      cases mem
  | retry p =>
    have cleared : Unmoved c.system (c.system.set p { c.system.pe p with refused := false }) :=
      .set rfl rfl rfl
    exact (kept q).frame (cleared.trans (.recvReqRetry called)) (by simp [left, departs])
  | respond p r =>
    have delivered : Unmoved c.system
        { c.system with inFlight := c.system.inFlight.erase (p, r) } :=
      .of_eq rfl fun _ => rfl
    exact (kept q).frame (delivered.trans (.recvTimingResp called)) (by simp [left, departs])

/-- A suppressed packet is counted and still takes its place in the queue. -/
theorem not_conserved_of_suppressed (kept : Kept c p)
    (queue : (c.system.pe p).queue = .packet r :: rest) (own : d.left p = c.left p ++ [⟨r, true⟩])
    (moved : Unmoved (c.system.set p ((c.system.pe p).setQueue (.freed :: rest))) d.system) :
    ¬Conserved d p := by
  intro conserved
  have before := kept.conserved.union.length_eq
  have after := conserved.union.length_eq
  have length (isRead : Bool) : ((d.system.pe p).waiting isRead).length =
      ((c.system.pe p).waiting isRead).length := by
    rw [moved.waiting, System.set_eq_ite (PE.waiting · isRead), if_pos rfl, PE.waiting_setQueue]
    split
    · rename_i this
      rw [this, ← PE.queue_eq, queue]
      rfl
    · rfl
  have reads := length true
  have writes := length false
  simp only [PE.waiting] at reads writes
  rw [moved.log] at after
  simp only [List.length_map, List.length_append, own, List.length_singleton, reads, writes]
    at before after
  have log : (c.system.set p ((c.system.pe p).setQueue (.freed :: rest))).log = c.system.log := rfl
  rw [log] at after
  omega

end

theorem kept_start (cfg : Config n) (p : Fin n) : Kept (calls cfg).start p := by
  refine ⟨fun isRead => ?_, rfl⟩
  cases isRead <;> rfl

/-- As long as `scheduleReq` meets only packets for memory addresses, every packet is in
a queue or has left it once, in order. A call that suppresses a packet ends that. -/
theorem packets_conserved_iff (cfg : Config n) (c : Tracked n)
    (h : (calls cfg).Reaches (MemoryFront cfg) c) :
    (∀ p, Conserved c p) ∧
    ∀ a d, (calls cfg).step c a = some (.ok d) →
      ((∀ p, Conserved d p) ↔ MemoryFront cfg c a) := by
  have kept : ∀ p, Kept c p :=
    h.invariant (kept_start cfg) fun c a d kept careful hstep => kept_step kept careful hstep
  refine ⟨fun p => (kept p).conserved, fun a d hstep => ⟨fun conserved => ?_, fun careful p =>
    (kept_step kept careful hstep p).conserved⟩⟩
  cases a with
  | schedule p accept =>
    intro r front
    obtain ⟨r', rest, queue, -, sent | refused | suppressed⟩ := schedule_cases hstep
    · rw [front_eq queue] at front
      cases front
      exact sent.1
    · rw [front_eq queue] at front
      cases front
      exact refused.1
    · exact absurd (conserved p)
        (not_conserved_of_suppressed (kept p) queue suppressed.2.1 suppressed.2.2)
  | _ => trivial

/-- One PE with a read of two lines. -/
def readTwoLines (isMemAddr : Nat → Bool) : Config 1 := ⟨fun _ => [readFirst 128], 64, isMemAddr⟩

instance (cfg : Config n) (c : Tracked n) (a : Action n) : Decidable (MemoryFront cfg c a) :=
  match a with
  | .schedule p _ =>
    decidable_of_iff ((front c.system p).all fun r => cfg.isMemAddr r.addr) (by
      cases h : front c.system p <;> simp [MemoryFront, h])
  | .wait _ | .operate _ | .retry _ | .respond _ _ => .isTrue trivial

/-- A PE that is only asked for memory: its first packet is sent, the second refused. -/
def memoryOnly : Config 1 := readTwoLines fun _ => true

theorem packets_conserved_two_lines :
    ∃ c, (calls memoryOnly).Reaches (MemoryFront memoryOnly) c ∧ (c.left 0).length = 1 ∧
      Conserved c 0 := by
  have run : ((calls memoryOnly).runIf (MemoryFront memoryOnly) (calls memoryOnly).start
      [.operate 0, .schedule 0 true, .schedule 0 false]).any
        (fun c => (c.left 0).length = 1) = true := by decide +kernel
  obtain ⟨c, hc, one⟩ := (Option.any_eq_true _ _).mp run
  have reached := Machine.Reaches.start.runIf _ hc
  exact ⟨c, reached, of_decide_eq_true one, (packets_conserved_iff memoryOnly c reached).1 0⟩

/-- A PE whose packets go to no memory. -/
def noMemory : Config 1 := readTwoLines fun _ => false

/-- The suppressed packet is counted, but the queue is as long as before. -/
theorem packets_suppressed_stay :
    ∃ c, (calls noMemory).run (calls noMemory).start [.operate 0, .schedule 0 true] = some c ∧
      (c.left 0).length = 1 ∧ (c.system.pe 0).waitingSendRead.length = 2 ∧
      (createdBy 0 c.system.log).length = 2 ∧ ¬Conserved c 0 := by
  have run : ((calls noMemory).run (calls noMemory).start [.operate 0, .schedule 0 true]).any
      (fun c => (c.left 0).length = 1 ∧ (c.system.pe 0).waitingSendRead.length = 2 ∧
        (createdBy 0 c.system.log).length = 2) = true := by decide +kernel
  obtain ⟨c, hc, counts⟩ := (Option.any_eq_true _ _).mp run
  obtain ⟨left, queue, created⟩ := of_decide_eq_true counts
  refine ⟨c, hc, left, queue, created, fun conserved => ?_⟩
  have length := conserved.union.length_eq
  simp only [List.length_map, List.length_append, left, queue, created] at length
  omega

end Pe

import Lab447.Pe.Model

/-!
What the PEs do, one move at a time. `Phase` says where a PE can be between two
events and `Move` lists what an event does from there; `step_move` shows that
every step of the simulation is one of these moves, so none of them fails.
-/

namespace Pe

variable {n : Nat}

/-! ## The barriers of a traffic list -/

/-- The number of barriers among the first `i` entries. -/
def passed (l : List Traffic) (i : Nat) : Nat := (l.take i).countP Traffic.isBarrier

/-- Entry `i` is the `k`-th barrier of the list, counted from 0. -/
def BarrierAt (l : List Traffic) (i k : Nat) : Prop :=
  passed l i = k ∧ ∃ t, l[i]? = some t ∧ t.isBarrier = true

variable {t : Traffic} {i : Nat} {l : List Traffic}

theorem passed_succ (h : l[i]? = some t) :
    passed l (i + 1) = passed l i + if t.isBarrier then 1 else 0 := by
  obtain ⟨hi, rfl⟩ := List.getElem?_eq_some_iff.mp h
  rw [passed, List.take_succ_eq_append_getElem hi, List.countP_append, List.countP_singleton]
  rfl

theorem passed_mono {j : Nat} (h : i ≤ j) : passed l i ≤ passed l j :=
  (List.take_sublist_take_left h).countP_le

theorem passed_length (l : List Traffic) :
    passed l l.length = (l.filter Traffic.isBarrier).length := by
  rw [passed, List.take_length, List.countP_eq_length_filter]

theorem filter_passed (h : l[i]? = some t) (hb : t.isBarrier = true) :
    (l.filter Traffic.isBarrier)[passed l i]? = some t := by
  induction l generalizing i with
  | nil => simp at h
  | cons u l ih =>
    cases i with
    | zero =>
      cases h
      simp [passed, hb]
    | succ i =>
      have hl := ih (by simpa using h)
      cases hu : u.isBarrier with
      | false => simpa [passed, hu] using hl
      | true => simpa [passed, hu] using hl

/-- The broadcasts and `SYNC`s of the PEs match: `issuers` are the PEs that
broadcast, in one global order, and the `k`-th barrier of every PE is its
broadcast if it is the `k`-th issuer and a `SYNC` otherwise. -/
def Matched (cfg : Config n) (issuers : List (Fin n)) : Prop :=
  ∀ p, ((cfg.traffic p).filter Traffic.isBarrier).map (fun t => decide (t.type = .read)) =
    issuers.map fun q => decide (q = p)

variable {p : Fin n} {cfg : Config n} {issuers : List (Fin n)}

theorem Matched.kind (hm : Matched cfg issuers) (h : (cfg.traffic p)[i]? = some t)
    (hb : t.isBarrier = true) :
    ∃ q, issuers[passed (cfg.traffic p) i]? = some q ∧ (t.type = .read ↔ q = p) := by
  have he := congrArg (fun l => l[passed (cfg.traffic p) i]?) (hm p)
  simp only [List.getElem?_map, filter_passed h hb, Option.map_some] at he
  obtain ⟨q, hq, hd⟩ := Option.map_eq_some_iff.mp he.symm
  exact ⟨q, hq, by simpa using hd.symm⟩

theorem Matched.total (hm : Matched cfg issuers) (p : Fin n) :
    passed (cfg.traffic p) (cfg.traffic p).length = issuers.length := by
  have := congrArg List.length (hm p)
  simpa [passed_length] using this

/-- Lists the PEs can send: every read or write entry makes at least one packet
once its size is cut to 32 bits, its packets go to memory addresses, no write
asks for a broadcast response, and `cur_traffic` does not wrap. -/
structure Sendable (cfg : Config n) : Prop where
  short : ∀ p, (cfg.traffic p).length < 2 ^ 32
  packets : ∀ p, ∀ t ∈ cfg.traffic p, t.type = .read ∨ t.type = .write →
    0 < lineCount cfg.cacheLineSize t
  memory : ∀ p, ∀ t ∈ cfg.traffic p, t.type = .read ∨ t.type = .write →
    ∀ i < lineCount cfg.cacheLineSize t, cfg.isMemAddr (lineAddr cfg.cacheLineSize t i) = true
  response : ∀ p, ∀ t ∈ cfg.traffic p, t.type = .write → t.response ≠ .broadcast

/-! ## The phases of a PE -/

/-- A send is scheduled, or the port has refused one and will call back. -/
def PE.Sending (pe : PE n) : Prop := pe.scheduleReqEvent.isSome = !pe.refused

def PE.Quiet (pe : PE n) : Prop := pe.scheduleReqEvent = none ∧ pe.refused = false

/-- The queue holds the last requests that PE `p` made, all of one kind. -/
def Sends (cfg : Config n) (p : Fin n) (created : Nat) (isRead isBroadcast : Bool)
    (queue : List (PacketPtr n)) : Prop :=
  ∃ reqs : List (Request n), queue = reqs.map .packet ∧ reqs ≠ [] ∧
    (∀ i r, reqs[i]? = some r → r.serial + reqs.length = created + i) ∧
    ∀ r ∈ reqs, r.owner = p ∧ cfg.isMemAddr r.addr = true ∧ r.isRead = isRead ∧
      r.isBroadcast = isBroadcast

/-- Where PE `p` can be between two events. `ready` says that it is in
`rdy_sync_list`, `lead` that the current barrier is its broadcast, and `full`
that all PEs are ready. -/
inductive Phase (cfg : Config n) (p : Fin n) (pe : PE n) (ready lead full : Prop) : Prop
  | idle (operate : pe.operateNextEvent.isSome = true) (quiet : pe.Quiet)
      (reads : pe.waitingSendRead = []) (writes : pe.waitingSendWrite = [])
      (resps : pe.waitingRespRead = []) (out : ¬ ready)
  | loading (operate : pe.operateNextEvent = none) (sending : pe.Sending)
      (reads : Sends cfg p pe.created true false pe.waitingSendRead)
      (writes : pe.waitingSendWrite = []) (out : ¬ ready)
  | waiting (operate : pe.operateNextEvent = none) (quiet : pe.Quiet)
      (reads : pe.waitingSendRead = []) (writes : pe.waitingSendWrite = [])
      (resps : pe.waitingRespRead ≠ []) (out : ¬ ready)
  | storing (operate : pe.operateNextEvent = none) (sending : pe.Sending)
      (reads : pe.waitingSendRead = [])
      (writes : Sends cfg p pe.created false false pe.waitingSendWrite)
      (resps : pe.waitingRespRead = []) (out : ¬ ready)
  | synced (operate : pe.operateNextEvent = none) (quiet : pe.Quiet)
      (reads : pe.waitingSendRead = []) (writes : pe.waitingSendWrite = [])
      (inside : ready) (follow : ¬ lead)
  | leading (operate : pe.operateNextEvent = none) (sending : full → pe.Sending)
      (quiet : ¬ full → pe.Quiet)
      (reads : Sends cfg p pe.created true true pe.waitingSendRead)
      (writes : pe.waitingSendWrite = []) (inside : ready) (first : lead)
  | done (operate : pe.operateNextEvent = none) (quiet : pe.Quiet)
      (reads : pe.waitingSendRead = []) (writes : pe.waitingSendWrite = [])
      (resps : pe.waitingRespRead = []) (out : ¬ ready)
      (finished : pe.trafficList.length ≤ pe.curTraffic)

theorem Sends.ne_nil {c : Nat} {b d : Bool} {queue : List (PacketPtr n)}
    (h : Sends cfg p c b d queue) : queue ≠ [] := by
  obtain ⟨reqs, rfl, hne, -, -⟩ := h
  simpa using hne

theorem Sends.front {c : Nat} {b d : Bool} {queue : List (PacketPtr n)}
    (h : Sends cfg p c b d queue) : ∃ r rest, queue = .packet r :: rest := by
  obtain ⟨reqs, rfl, hne, -, -⟩ := h
  obtain ⟨r, reqs, rfl⟩ := List.exists_cons_of_ne_nil hne
  exact ⟨r, reqs.map .packet, rfl⟩

variable {r : Request n}

/-- The front of a queue is a request of the queue's kind, made before all that
are left. -/
theorem Sends.pop {c : Nat} {b d : Bool} {rest : List (PacketPtr n)}
    (h : Sends cfg p c b d (.packet r :: rest)) :
    (r.owner = p ∧ cfg.isMemAddr r.addr = true ∧ r.isRead = b ∧ r.isBroadcast = d) ∧
      r.serial + (rest.length + 1) = c ∧ (rest ≠ [] → Sends cfg p c b d rest) := by
  obtain ⟨reqs, heq, hne, hserial, hgood⟩ := h
  cases reqs with
  | nil => exact absurd rfl hne
  | cons u reqs =>
    obtain ⟨rfl, rfl⟩ := heq
    refine ⟨hgood r (by simp), ?_, ?_⟩
    · simpa using hserial 0 r rfl
    · intro hrest
      refine ⟨reqs, rfl, by simpa using hrest, ?_, fun u hu => hgood u (by simp [hu])⟩
      intro i u hu
      have := hserial (i + 1) u (by simpa using hu)
      simp only [List.length_cons] at this
      omega

@[simp] theorem length_makeRequests (lineSize : Nat) (p : Fin n) (c : Nat) (t : Traffic) :
    (makeRequests lineSize p c t).length = lineCount lineSize t := by
  simp [makeRequests]

theorem mem_makeRequests {lineSize : Nat} {c : Nat} (h : r ∈ makeRequests lineSize p c t) :
    r.owner = p := by
  simp only [makeRequests, List.mem_map] at h
  obtain ⟨i, -, rfl⟩ := h
  rfl

theorem Sendable.sends (hs : Sendable cfg) (ht : t ∈ cfg.traffic p)
    (hk : t.type = .read ∨ t.type = .write) (c : Nat) :
    Sends cfg p (c + lineCount cfg.cacheLineSize t) (t.type = .read) (t.response = .broadcast)
      ((makeRequests cfg.cacheLineSize p c t).map .packet) := by
  refine ⟨_, rfl, ?_, ?_, ?_⟩
  · have := hs.packets p t ht hk
    apply List.ne_nil_of_length_pos
    simpa using this
  · intro i r hr
    simp only [makeRequests, List.getElem?_map, Option.map_eq_some_iff] at hr
    obtain ⟨j, hj, rfl⟩ := hr
    obtain ⟨-, rfl⟩ := List.getElem?_eq_some_iff.mp hj
    simp only [length_makeRequests, List.getElem_range]
    omega
  · intro r hr
    simp only [makeRequests, List.mem_map, List.mem_range] at hr
    obtain ⟨i, hi, rfl⟩ := hr
    exact ⟨rfl, hs.memory p t ht hk i hi, rfl, rfl⟩

/-! ## What holds between two events -/

/-- The control state after `G` barriers are over: every PE has passed `G`
barriers, or one more when it is ready for the next, and the issuer is known
once it is ready. -/
structure Control (cfg : Config n) (issuers : List (Fin n)) (G : Nat) (s : System n) : Prop where
  traffic : ∀ p, (s.pe p).trafficList = cfg.traffic p
  bound : ∀ p, (s.pe p).curTraffic ≤ (cfg.traffic p).length
  count : ∀ p, passed (cfg.traffic p) (s.pe p).curTraffic =
    G + if p ∈ s.rdySyncList then 1 else 0
  issuer : ∀ q, s.broadcastIssuer = some q ↔ q ∈ s.rdySyncList ∧ issuers[G]? = some q
  listed : ∀ p, p ∉ s.peList → G = issuers.length
  phase : ∀ p, Phase cfg p (s.pe p) (p ∈ s.rdySyncList) (issuers[G]? = some p)
    (s.rdySyncList = Finset.univ)

/-- The packets of a PE that wait to be sent. -/
def PE.queued (pe : PE n) : Nat := pe.waitingSendRead.length + pe.waitingSendWrite.length

/-- The responses to come are those that are waited for. -/
structure Net (s : System n) : Prop where
  nodup : s.inFlight.Nodup
  reads : ∀ p, ∀ e ∈ (s.pe p).waitingRespRead,
    (p, e.1) ∈ s.inFlight ∧ e.1.isRead = true ∧ e.2 ≤ s.curTick
  writes : ∀ p, ∀ e ∈ (s.pe p).waitingRespWrite,
    (p, e.1) ∈ s.inFlight ∧ e.1.isRead = false ∧ e.2 ≤ s.curTick
  owed : ∀ p r, (p, r) ∈ s.inFlight → ∃ tick, (r, tick) ∈
    if r.isRead then (s.pe p).waitingRespRead else (s.pe p).waitingRespWrite
  fresh : ∀ p r, (p, r) ∈ s.inFlight →
    r.serial + (s.pe r.owner).queued < (s.pe r.owner).created

/-- A PE with nothing to send and no read outstanding, ready for its next entry. -/
structure Idle (s : System n) (p : Fin n) : Prop where
  quiet : (s.pe p).Quiet
  reads : (s.pe p).waitingSendRead = []
  writes : (s.pe p).waitingSendWrite = []
  resps : (s.pe p).waitingRespRead = []
  out : p ∉ s.rdySyncList

theorem Control.idle {G : Nat} {s : System n} (h : Control cfg issuers G s)
    (hop : (s.pe p).operateNextEvent.isSome = true) : Idle s p := by
  cases h.phase p with
  | idle _ quiet reads writes resps out => exact ⟨quiet, reads, writes, resps, out⟩
  | loading operate => simp [operate] at hop
  | waiting operate => simp [operate] at hop
  | storing operate => simp [operate] at hop
  | synced operate => simp [operate] at hop
  | leading operate => simp [operate] at hop
  | done operate => simp [operate] at hop

/-- Until all barriers are over no PE leaves, so all are ready when as many are
ready as are listed. -/
theorem Control.all_listed {G : Nat} {s : System n} (h : Control cfg issuers G s)
    (hG : G < issuers.length) : s.peList = Finset.univ := by
  apply Finset.eq_univ_of_forall
  intro p
  by_contra hp
  have := h.listed p hp
  omega

theorem Control.full_iff {G : Nat} {s : System n} (h : Control cfg issuers G s)
    (hG : G < issuers.length) (ready : Finset (Fin n)) :
    ready.card = s.peList.card ↔ ready = Finset.univ := by
  rw [h.all_listed hG, Finset.card_univ]
  exact Finset.card_eq_iff_eq_univ ready

/-! ## The moves -/

/-- PE `p` has started the entry it was at and waits for the next event. -/
def PE.started (pe : PE n) : PE n :=
  { pe with operateNextEvent := none, curTraffic := pe.curTraffic + 1 }

/-- Everything an action can do, from the phases it can come in. -/
inductive Move (cfg : Config n) (s : System n) : Action n → System n → Prop
  | wait (ticks : Nat) : Move cfg s (.wait ticks) { s with curTick := s.curTick + ticks }
  | rest {p : Fin n} (idle : Idle s p)
      (all : (s.pe p).trafficList.length ≤ (s.pe p).curTraffic) :
      Move cfg s (.operate p) (s.set p { s.pe p with operateNextEvent := none })
  | leave {p : Fin n} (idle : Idle s p)
      (all : (s.pe p).trafficList.length ≤ (s.pe p).curTraffic)
      (drained : (s.pe p).drained = true) (ended : s.noBarrier = true) :
      Move cfg s (.operate p) ((s.set p { s.pe p with operateNextEvent := none }).erase p)
  | compute {p : Fin n} {t : Traffic} (when : Nat) (idle : Idle s p)
      (entry : (cfg.traffic p)[(s.pe p).curTraffic]? = some t) (kind : t.type = .compute) :
      Move cfg s (.operate p) ((s.set p { (s.pe p).started with operateNextEvent := some when }).record
        (.operate p (s.pe p).curTraffic []))
  | load {p : Fin n} {t : Traffic} (when : Nat) (idle : Idle s p)
      (entry : (cfg.traffic p)[(s.pe p).curTraffic]? = some t) (kind : t.type = .read)
      (single : t.response ≠ .broadcast) :
      Move cfg s (.operate p) ((s.set p { (s.pe p).started with
        scheduleReqEvent := some when
        created := (s.pe p).created + lineCount cfg.cacheLineSize t
        waitingSendRead :=
          (makeRequests cfg.cacheLineSize p (s.pe p).created t).map .packet }).record
        (.operate p (s.pe p).curTraffic (makeRequests cfg.cacheLineSize p (s.pe p).created t)))
  | store {p : Fin n} {t : Traffic} (when : Nat) (idle : Idle s p)
      (entry : (cfg.traffic p)[(s.pe p).curTraffic]? = some t) (kind : t.type = .write)
      (single : t.response ≠ .broadcast) :
      Move cfg s (.operate p) ((s.set p { (s.pe p).started with
        scheduleReqEvent := some when
        created := (s.pe p).created + lineCount cfg.cacheLineSize t
        waitingSendWrite :=
          (makeRequests cfg.cacheLineSize p (s.pe p).created t).map .packet }).record
        (.operate p (s.pe p).curTraffic (makeRequests cfg.cacheLineSize p (s.pe p).created t)))
  | sync {p : Fin n} {t : Traffic} (idle : Idle s p)
      (entry : (cfg.traffic p)[(s.pe p).curTraffic]? = some t) (kind : t.type = .sync)
      (missing : insert p s.rdySyncList ≠ Finset.univ) :
      Move cfg s (.operate p) { (s.set p (s.pe p).started).record (.operate p (s.pe p).curTraffic []) with
        rdySyncList := insert p s.rdySyncList }
  | syncLast {p q : Fin n} {t : Traffic} (when : Nat) (idle : Idle s p)
      (entry : (cfg.traffic p)[(s.pe p).curTraffic]? = some t) (kind : t.type = .sync)
      (full : insert p s.rdySyncList = Finset.univ) (other : q ≠ p)
      (issuer : s.broadcastIssuer = some q) :
      Move cfg s (.operate p) { ((s.set q { s.pe q with scheduleReqEvent := some when }).set p
          (s.pe p).started).record (.operate p (s.pe p).curTraffic []) with
        rdySyncList := insert p s.rdySyncList }
  | lead {p : Fin n} {t : Traffic} (idle : Idle s p)
      (entry : (cfg.traffic p)[(s.pe p).curTraffic]? = some t) (kind : t.type = .read)
      (all : t.response = .broadcast) (event : Option Nat)
      (full : event.isSome = true ↔ insert p s.rdySyncList = Finset.univ) :
      Move cfg s (.operate p) { (s.set p { (s.pe p).started with
          scheduleReqEvent := event
          created := (s.pe p).created + lineCount cfg.cacheLineSize t
          waitingSendRead :=
            (makeRequests cfg.cacheLineSize p (s.pe p).created t).map .packet }).record
          (.operate p (s.pe p).curTraffic
            (makeRequests cfg.cacheLineSize p (s.pe p).created t)) with
        rdySyncList := insert p s.rdySyncList
        broadcastIssuer := some p }
  | refuse {p : Fin n} (sending : (s.pe p).Sending)
      (scheduled : (s.pe p).scheduleReqEvent.isSome = true) :
      Move cfg s (.schedule p false) (s.set p { s.pe p with
        scheduleReqEvent := none
        retryPktTick := s.curTick
        refused := true })
  | retry {p : Fin n} (when : Nat) (sending : (s.pe p).Sending)
      (refused : (s.pe p).refused = true) :
      Move cfg s (.retry p) (s.set p { s.pe p with scheduleReqEvent := some when, refused := false })
  | sendRead {p : Fin n} {r : Request n} {rest : List (PacketPtr n)} (event : Option Nat)
      (unscheduled : (s.pe p).operateNextEvent = none)
      (front : (s.pe p).waitingSendRead = .packet r :: rest)
      (other : (s.pe p).waitingSendWrite = [])
      (reads : Sends cfg p (s.pe p).created true false (s.pe p).waitingSendRead)
      (calm : (s.pe p).refused = false) (more : event.isSome = true ↔ rest ≠ [])
      (out : p ∉ s.rdySyncList) :
      Move cfg s (.schedule p true) { (s.set p { s.pe p with
          scheduleReqEvent := event
          retryPktTick := 0
          waitingSendRead := rest
          waitingRespRead := setResp (s.pe p).waitingRespRead r s.curTick }).record
          (.send p r) with
        inFlight := (p, r) :: s.inFlight }
  | sendWrite {p : Fin n} {r : Request n} {rest : List (PacketPtr n)}
      (operate event : Option Nat)
      (front : (s.pe p).waitingSendWrite = .packet r :: rest)
      (other : (s.pe p).waitingSendRead = [])
      (writes : Sends cfg p (s.pe p).created false false (s.pe p).waitingSendWrite)
      (calm : (s.pe p).refused = false) (more : event.isSome = true ↔ rest ≠ [])
      (last : operate.isSome = true ↔ rest = [])
      (resps : (s.pe p).waitingRespRead = []) (out : p ∉ s.rdySyncList) :
      Move cfg s (.schedule p true) { (s.set p { s.pe p with
          operateNextEvent := operate
          scheduleReqEvent := event
          retryPktTick := 0
          waitingSendWrite := rest
          waitingRespWrite := setResp (s.pe p).waitingRespWrite r s.curTick }).record
          (.send p r) with
        inFlight := (p, r) :: s.inFlight }

  | sendAll {p : Fin n} {r : Request n} {rest : List (PacketPtr n)} (event : Option Nat)
      (front : (s.pe p).waitingSendRead = .packet r :: rest)
      (other : (s.pe p).waitingSendWrite = [])
      (reads : Sends cfg p (s.pe p).created true true (s.pe p).waitingSendRead)
      (calm : (s.pe p).refused = false) (more : event.isSome = true ↔ rest ≠ [])
      (full : s.rdySyncList = Finset.univ) (issuer : s.broadcastIssuer = some p) :
      Move cfg s (.schedule p true) { s.record (.send p r) with
        pe := fun q =>
          let pe := (s.set p { s.pe p with
            scheduleReqEvent := event
            retryPktTick := 0
            waitingSendRead := rest }).pe q
          { pe with waitingRespRead := setResp pe.waitingRespRead r s.curTick }
        inFlight := (List.finRange n).map (fun q => (q, r)) ++ s.inFlight
        broadcastIssuer := if rest = [] then none else some p
        rdySyncList := if rest = [] then ∅ else s.rdySyncList }
  | recvWrite {p : Fin n} {r : Request n} (flight : (p, r) ∈ s.inFlight)
      (kind : r.isRead = false) :
      Move cfg s (.respond p r) (finish { (s.set p { s.pe p with
          waitingRespWrite := (s.pe p).waitingRespWrite.filter fun e => e.1 ≠ r }).record
          (.receive p r) with
        inFlight := s.inFlight.erase (p, r) } p)
  | recvRead {p : Fin n} {r : Request n} (event : Option Nat) (flight : (p, r) ∈ s.inFlight)
      (kind : r.isRead = true)
      (wake : event.isSome = true ↔ (s.pe p).waitingSendRead = [] ∧
        ((s.pe p).waitingRespRead.filter fun e => e.1 ≠ r) = [] ∧ p ∉ s.rdySyncList) :
      Move cfg s (.respond p r) (finish { (s.set p { s.pe p with
          operateNextEvent := event
          waitingRespRead := (s.pe p).waitingRespRead.filter fun e => e.1 ≠ r }).record
          (.receive p r) with
        inFlight := s.inFlight.erase (p, r) } p)

/-! ## Every step is a move -/

namespace System

@[simp] theorem set_pe_self (s : System n) (p : Fin n) (pe : PE n) : (s.set p pe).pe p = pe :=
  Function.update_self ..

theorem set_pe_of_ne (s : System n) {q : Fin n} (pe : PE n) (h : q ≠ p) :
    (s.set p pe).pe q = s.pe q :=
  Function.update_of_ne h ..

@[simp] theorem set_set (s : System n) (p : Fin n) (pe pe' : PE n) :
    (s.set p pe).set p pe' = s.set p pe' := by
  simp [set]

@[simp] theorem set_rdySyncList (s : System n) (p : Fin n) (pe : PE n) :
    (s.set p pe).rdySyncList = s.rdySyncList :=
  rfl

@[simp] theorem set_curTick (s : System n) (p : Fin n) (pe : PE n) :
    (s.set p pe).curTick = s.curTick :=
  rfl

@[simp] theorem set_log (s : System n) (p : Fin n) (pe : PE n) : (s.set p pe).log = s.log :=
  rfl

end System

variable {pe : PE n}

theorem PE.Sending.calm (h : pe.Sending) (hs : pe.scheduleReqEvent.isSome = true) :
    pe.refused = false := by
  rw [PE.Sending, hs] at h
  simpa using h.symm

theorem PE.Sending.unscheduled (h : pe.Sending) (hr : pe.refused = true) :
    pe.scheduleReqEvent = none := by
  rw [PE.Sending, hr] at h
  simpa using h

section

variable {cfg : Config n} {issuers : List (Fin n)} {G : Nat} {s : System n}

/-- A barrier that is entered is one of the matched ones. -/
theorem Control.current (h : Control cfg issuers G s) (hm : Matched cfg issuers)
    (entry : (cfg.traffic p)[(s.pe p).curTraffic]? = some t) (hb : t.isBarrier = true)
    (out : p ∉ s.rdySyncList) : G < issuers.length ∧ (t.type = .read ↔ issuers[G]? = some p) := by
  obtain ⟨q, hq, hk⟩ := hm.kind entry hb
  have hG : passed (cfg.traffic p) (s.pe p).curTraffic = G := by simpa [out] using h.count p
  rw [hG] at hq
  refine ⟨(List.getElem?_eq_some_iff.mp hq).1, ?_⟩
  rw [hq, Option.some.injEq]
  exact hk

theorem rest_move (idle : Idle s p)
    (all : (s.pe p).trafficList.length ≤ (s.pe p).curTraffic) :
    ∃ t, operateTraffic cfg (s.set p { s.pe p with operateNextEvent := none }) p = .ok t ∧
      Move cfg s (.operate p) t := by
  have hnone : (s.pe p).trafficList[(s.pe p).curTraffic]? = none :=
    List.getElem?_eq_none_iff.mpr all
  simp only [operateTraffic, System.set_pe_self, hnone]
  split
  · rename_i hd
    rw [Bool.and_eq_true] at hd
    exact ⟨_, rfl, .leave idle all hd.1 hd.2⟩
  · exact ⟨_, rfl, .rest idle all⟩

theorem Sendable.next (hs : Sendable cfg) (entry : (cfg.traffic p)[i]? = some t) :
    uint32 (i + 1) = i + 1 := by
  have := (List.getElem?_eq_some_iff.mp entry).1
  have := hs.short p
  exact Nat.mod_eq_of_lt (by omega)

/-- A ready PE is in the barrier: it follows, or it leads with its packets queued. -/
theorem Phase.inside {ready lead full : Prop} (h : Phase cfg p pe ready lead full) (hr : ready) :
    pe.operateNextEvent = none ∧ pe.waitingSendWrite = [] ∧
      (¬ lead ∧ pe.Quiet ∧ pe.waitingSendRead = [] ∨
        lead ∧ (¬ full → pe.Quiet) ∧ Sends cfg p pe.created true true pe.waitingSendRead) := by
  cases h with
  | idle _ _ _ _ _ out => exact absurd hr out
  | loading _ _ _ _ out => exact absurd hr out
  | waiting _ _ _ _ _ out => exact absurd hr out
  | storing _ _ _ _ _ out => exact absurd hr out
  | synced operate quiet reads writes _ follow =>
    exact ⟨operate, writes, .inl ⟨follow, quiet, reads⟩⟩
  | leading operate _ quiet reads writes _ first =>
    exact ⟨operate, writes, .inr ⟨first, quiet, reads⟩⟩
  | done _ _ _ _ _ out => exact absurd hr out

/-- The issuer of the current barrier is ready but does not send yet. -/
theorem Control.leader (h : Control cfg issuers G s) {q : Fin n} (ready : q ∈ s.rdySyncList)
    (first : issuers[G]? = some q) (missing : s.rdySyncList ≠ Finset.univ) :
    s.broadcastIssuer = some q ∧ (s.pe q).scheduleReqEvent = none := by
  refine ⟨(h.issuer q).mpr ⟨ready, first⟩, ?_⟩
  obtain ⟨-, -, ⟨follow, -⟩ | ⟨-, quiet, -⟩⟩ := (h.phase q).inside ready
  · exact absurd first follow
  · exact (quiet missing).1

theorem sync_move (hc : Control cfg issuers G s) (hm : Matched cfg issuers) (hs : Sendable cfg)
    (idle : Idle s p) (entry : (cfg.traffic p)[(s.pe p).curTraffic]? = some t)
    (kind : t.type = .sync) :
    ∃ u, (start cfg (s.set p { s.pe p with operateNextEvent := none }) p t).map
      (fun s => advanceTraffic s p) = .ok u ∧ Move cfg s (.operate p) u := by
  obtain ⟨hG, hlead⟩ := hc.current hm entry (by simp [Traffic.isBarrier, kind]) idle.out
  have hnext := hs.next entry
  have missing : s.rdySyncList ≠ Finset.univ := fun h => idle.out (h ▸ Finset.mem_univ p)
  by_cases full : insert p s.rdySyncList = Finset.univ
  · -- `p` is the last one: the issuer is ready, and its send gets scheduled
    obtain ⟨q, hq⟩ : ∃ q, issuers[G]? = some q := ⟨_, List.getElem?_eq_getElem hG⟩
    have other : q ≠ p := by
      rintro rfl
      simp [kind, hq] at hlead
    have ready : q ∈ s.rdySyncList :=
      Finset.mem_of_mem_insert_of_ne (full ▸ Finset.mem_univ q) other
    obtain ⟨issuer, unscheduled⟩ := hc.leader ready hq missing
    have hcard := (hc.full_iff hG _).mpr full
    refine ⟨_, ?_, .syncLast (s.curTick + 1) idle entry kind full other issuer⟩
    simp [start, kind, operateSync, sendBroadcast, System.scheduleScheduleReq, System.record,
      System.set, hcard, issuer, Function.update_of_ne other, Function.update_of_ne other.symm,
      unscheduled, Except.map, advanceTraffic, hnext, PE.started,
      Function.update_comm other]
  · have hcard : (insert p s.rdySyncList).card ≠ s.peList.card :=
      fun h => full ((hc.full_iff hG _).mp h)
    refine ⟨_, ?_, .sync idle entry kind full⟩
    simp [start, kind, operateSync, System.record, System.set, hcard, Except.map,
      advanceTraffic, hnext, PE.started]

theorem lead_move (hc : Control cfg issuers G s) (hm : Matched cfg issuers) (hs : Sendable cfg)
    (idle : Idle s p) (entry : (cfg.traffic p)[(s.pe p).curTraffic]? = some t)
    (kind : t.type = .read) (all : t.response = .broadcast) :
    ∃ u, (start cfg (s.set p { s.pe p with operateNextEvent := none }) p t).map
      (fun s => advanceTraffic s p) = .ok u ∧ Move cfg s (.operate p) u := by
  obtain ⟨hG, -⟩ := hc.current hm entry
    (by simp [Traffic.isBarrier, Traffic.isBroadcast, kind, all]) idle.out
  have hnext := hs.next entry
  have unscheduled := idle.quiet.1
  by_cases full : insert p s.rdySyncList = Finset.univ
  · have hcard := (hc.full_iff hG _).mpr full
    refine ⟨_, ?_, .lead idle entry kind all (some (s.curTick + 1)) (by simp [full])⟩
    simp [start, kind, all, push, waitSync, sendBroadcast, System.scheduleScheduleReq,
      System.record, System.set, hcard, unscheduled, Except.map, advanceTraffic, hnext,
      PE.started, idle.reads]
  · have hcard : (insert p s.rdySyncList).card ≠ s.peList.card :=
      fun h => full ((hc.full_iff hG _).mp h)
    refine ⟨_, ?_, .lead idle entry kind all none (by simp [full])⟩
    simp [start, kind, all, push, waitSync, System.record, System.set, hcard, unscheduled,
      Except.map, advanceTraffic, hnext, PE.started, idle.reads]

theorem operate_move (hc : Control cfg issuers G s) (hm : Matched cfg issuers) (hs : Sendable cfg)
    (hop : (s.pe p).operateNextEvent.isSome = true) :
    ∃ t, operateTraffic cfg (s.set p { s.pe p with operateNextEvent := none }) p = .ok t ∧
      Move cfg s (.operate p) t := by
  have idle := hc.idle hop
  by_cases all : (s.pe p).trafficList.length ≤ (s.pe p).curTraffic
  · exact rest_move idle all
  obtain ⟨t, entry⟩ : ∃ t, (s.pe p).trafficList[(s.pe p).curTraffic]? = some t :=
    ⟨_, List.getElem?_eq_getElem (by omega)⟩
  have ht := entry
  rw [hc.traffic p] at ht
  have hnext := hs.next ht
  have unscheduled := idle.quiet.1
  simp only [operateTraffic, System.set_pe_self, entry]
  cases kind : t.type with
  | compute =>
    refine ⟨_, ?_, .compute (s.curTick + getComputeTime) idle ht kind⟩
    simp [start, kind, System.scheduleOperateNext, System.record, System.set, Except.map,
      advanceTraffic, hnext, PE.started]
  | sync => exact sync_move hc hm hs idle ht kind
  | read =>
    by_cases response : t.response = .broadcast
    · exact lead_move hc hm hs idle ht kind response
    · refine ⟨_, ?_, .load (s.curTick + 1) idle ht kind response⟩
      simp [start, kind, response, push, System.scheduleScheduleReq, System.record, System.set,
        unscheduled, Except.map, advanceTraffic, hnext, PE.started, idle.reads]
  | write =>
    have response := hs.response p t (List.mem_of_getElem? ht) kind
    refine ⟨_, ?_, .store (s.curTick + 1) idle ht kind response⟩
    simp [start, kind, response, push, System.scheduleScheduleReq, System.record, System.set,
      unscheduled, Except.map, advanceTraffic, hnext, PE.started, idle.writes]

@[simp] theorem setResp_ne_nil (waiting : List (Request n × Nat)) (r : Request n) (tick : Nat) :
    setResp waiting r tick ≠ [] := by
  simp [setResp]

theorem refuse_move {rest : List (PacketPtr n)} (hq : (s.pe p).queue = .packet r :: rest)
    (hmem : cfg.isMemAddr r.addr = true) (sending : (s.pe p).Sending)
    (scheduled : (s.pe p).scheduleReqEvent.isSome = true) :
    ∃ t, scheduleReq cfg (s.set p { s.pe p with scheduleReqEvent := none }) p false = .ok t ∧
      Move cfg s (.schedule p false) t := by
  have hq' : PE.queue { s.pe p with scheduleReqEvent := none } = .packet r :: rest := hq
  refine ⟨_, ?_, .refuse sending scheduled⟩
  simp [scheduleReq, hq', hmem, System.set]

theorem sendRead_move (hc : Control cfg issuers G s)
    (scheduled : (s.pe p).scheduleReqEvent.isSome = true)
    (operate : (s.pe p).operateNextEvent = none) (sending : (s.pe p).Sending)
    (reads : Sends cfg p (s.pe p).created true false (s.pe p).waitingSendRead)
    (writes : (s.pe p).waitingSendWrite = []) (out : p ∉ s.rdySyncList) (accept : Bool) :
    ∃ t, scheduleReq cfg (s.set p { s.pe p with scheduleReqEvent := none }) p accept = .ok t ∧
      Move cfg s (.schedule p accept) t := by
  obtain ⟨r, rest, front⟩ := reads.front
  obtain ⟨⟨-, hmem, hr, hb⟩, -, -⟩ := (front ▸ reads).pop
  have calm := sending.calm scheduled
  have hissuer : s.broadcastIssuer ≠ some p := fun h => out ((hc.issuer p).mp h).1
  have queue : (s.pe p).queue = .packet r :: rest := by simp [PE.queue, writes, front]
  cases accept with
  | false => exact refuse_move queue hmem sending scheduled
  | true =>
    by_cases hrest : rest = []
    · refine ⟨_, ?_, .sendRead none operate front writes reads calm (by simp [hrest]) out⟩
      simp [scheduleReq, PE.queue, PE.setQueue, writes, front, hmem, await, hr, hb, answers,
        afterSend, hrest, hissuer, System.record, System.set]
    · refine ⟨_, ?_, .sendRead (some (s.curTick + 1)) operate front writes reads calm (by simp [hrest]) out⟩
      simp [scheduleReq, PE.queue, PE.setQueue, writes, front, hmem, await, hr, hb, answers,
        afterSend, hrest, System.scheduleScheduleReq, System.record, System.set]

theorem sendWrite_move (scheduled : (s.pe p).scheduleReqEvent.isSome = true)
    (operate : (s.pe p).operateNextEvent = none) (sending : (s.pe p).Sending)
    (reads : (s.pe p).waitingSendRead = [])
    (writes : Sends cfg p (s.pe p).created false false (s.pe p).waitingSendWrite)
    (resps : (s.pe p).waitingRespRead = []) (out : p ∉ s.rdySyncList) (accept : Bool) :
    ∃ t, scheduleReq cfg (s.set p { s.pe p with scheduleReqEvent := none }) p accept = .ok t ∧
      Move cfg s (.schedule p accept) t := by
  obtain ⟨r, rest, front⟩ := writes.front
  obtain ⟨⟨-, hmem, hr, hb⟩, -, -⟩ := (front ▸ writes).pop
  have calm := sending.calm scheduled
  have queue : (s.pe p).queue = .packet r :: rest := by simp [PE.queue, front]
  cases accept with
  | false => exact refuse_move queue hmem sending scheduled
  | true =>
    by_cases hrest : rest = []
    · refine ⟨_, ?_, .sendWrite (some (s.curTick + 1)) none front reads writes calm
        (by simp [hrest]) (by simp [hrest]) resps out⟩
      simp [scheduleReq, PE.queue, PE.setQueue, front, hmem, await, hr, hb, answers,
        afterSend, hrest, resps, operate, System.scheduleOperateNext, System.record, System.set]
    · refine ⟨_, ?_, .sendWrite none (some (s.curTick + 1)) front reads writes calm
        (by simp [hrest]) (by simp [hrest]) resps out⟩
      simp [scheduleReq, PE.queue, PE.setQueue, front, hmem, await, hr, hb, answers,
        afterSend, hrest, operate, System.scheduleScheduleReq, System.record, System.set]

theorem sendAll_move (hc : Control cfg issuers G s)
    (scheduled : (s.pe p).scheduleReqEvent.isSome = true) (sending : (s.pe p).Sending)
    (reads : Sends cfg p (s.pe p).created true true (s.pe p).waitingSendRead)
    (writes : (s.pe p).waitingSendWrite = []) (full : s.rdySyncList = Finset.univ)
    (first : issuers[G]? = some p) (accept : Bool) :
    ∃ t, scheduleReq cfg (s.set p { s.pe p with scheduleReqEvent := none }) p accept = .ok t ∧
      Move cfg s (.schedule p accept) t := by
  obtain ⟨r, rest, front⟩ := reads.front
  obtain ⟨⟨-, hmem, hr, hb⟩, -, -⟩ := (front ▸ reads).pop
  have calm := sending.calm scheduled
  have issuer : s.broadcastIssuer = some p :=
    (hc.issuer p).mpr ⟨full ▸ Finset.mem_univ p, first⟩
  have listed := hc.all_listed (List.getElem?_eq_some_iff.mp first).1
  have queue : (s.pe p).queue = .packet r :: rest := by simp [PE.queue, writes, front]
  cases accept with
  | false => exact refuse_move queue hmem sending scheduled
  | true =>
    by_cases hrest : rest = []
    · refine ⟨_, ?_, .sendAll none front writes reads calm (by simp [hrest]) full issuer⟩
      simp [scheduleReq, PE.queue, PE.setQueue, writes, front, hmem, await, hb, answers,
        afterSend, hrest, issuer, listed, System.record, System.set]
    · refine ⟨_, ?_, .sendAll (some (s.curTick + 1)) front writes reads calm (by simp [hrest]) full
        issuer⟩
      simp [scheduleReq, PE.queue, PE.setQueue, writes, front, hmem, await, hb, answers,
        afterSend, hrest, issuer, listed, System.scheduleScheduleReq, System.record, System.set]
      funext q
      by_cases hq : q = p
      · subst hq
        simp
      · simp [hq]

theorem PE.Quiet.not_scheduled (h : pe.Quiet) : ¬ pe.scheduleReqEvent.isSome = true := by
  simp [h.1]

theorem schedule_move (hc : Control cfg issuers G s)
    (scheduled : (s.pe p).scheduleReqEvent.isSome = true) (accept : Bool) :
    ∃ t, scheduleReq cfg (s.set p { s.pe p with scheduleReqEvent := none }) p accept = .ok t ∧
      Move cfg s (.schedule p accept) t := by
  cases hc.phase p with
  | idle _ quiet => exact absurd scheduled quiet.not_scheduled
  | loading operate sending reads writes out =>
    exact sendRead_move hc scheduled operate sending reads writes out accept
  | waiting _ quiet => exact absurd scheduled quiet.not_scheduled
  | storing operate sending reads writes resps out =>
    exact sendWrite_move scheduled operate sending reads writes resps out accept
  | synced _ quiet => exact absurd scheduled quiet.not_scheduled
  | leading operate sending quiet reads writes inside first =>
    have full : s.rdySyncList = Finset.univ := by
      by_contra h
      exact (quiet h).not_scheduled scheduled
    exact sendAll_move hc scheduled (sending full) reads writes full first accept
  | done _ quiet => exact absurd scheduled quiet.not_scheduled

theorem retry_move (hc : Control cfg issuers G s) (refused : (s.pe p).refused = true) :
    ∃ t, recvReqRetry (s.set p { s.pe p with refused := false }) p = .ok t ∧ Move cfg s (.retry p) t := by
  -- only a PE that is sending has been refused, and its packet is still queued
  obtain ⟨sending, queued⟩ : (s.pe p).Sending ∧
      ¬ ((s.pe p).waitingSendRead = [] ∧ (s.pe p).waitingSendWrite = []) := by
    cases hc.phase p with
    | idle _ quiet => simp [quiet.2] at refused
    | loading _ sending reads => exact ⟨sending, fun h => reads.ne_nil h.1⟩
    | waiting _ quiet => simp [quiet.2] at refused
    | storing _ sending _ writes => exact ⟨sending, fun h => writes.ne_nil h.2⟩
    | synced _ quiet => simp [quiet.2] at refused
    | leading _ sending quiet reads =>
      by_cases full : s.rdySyncList = Finset.univ
      · exact ⟨sending full, fun h => reads.ne_nil h.1⟩
      · simp [(quiet full).2] at refused
    | done _ quiet => simp [quiet.2] at refused
  refine ⟨_, ?_, .retry (s.curTick + 1) sending refused⟩
  have unscheduled := sending.unscheduled refused
  simp [recvReqRetry, queued, System.scheduleScheduleReq, unscheduled]

/-- A response that is in flight is found in the map it is looked up in. -/
theorem Net.found (h : Net s) (flight : (p, r) ∈ s.inFlight) :
    ∃ tick, (if r.isRead then (s.pe p).waitingRespRead else (s.pe p).waitingRespWrite).find?
      (fun e => e.1 = r) = some (r, tick) ∧ tick ≤ s.curTick := by
  obtain ⟨tick, hmem⟩ := h.owed p r flight
  cases hf : (if r.isRead then (s.pe p).waitingRespRead else (s.pe p).waitingRespWrite).find?
      (fun e => e.1 = r) with
  | none =>
    have := List.find?_eq_none.mp hf _ hmem
    simp at this
  | some e =>
    have he : e.1 = r := by simpa using List.find?_some hf
    have hin := List.mem_of_find?_eq_some hf
    refine ⟨e.2, by rw [← he], ?_⟩
    cases hr : r.isRead with
    | true => exact (h.reads p e (by simpa [hr] using hin)).2.2
    | false => exact (h.writes p e (by simpa [hr] using hin)).2.2

/-- A PE that waits for a read has no next entry scheduled. -/
theorem Control.unscheduled (hc : Control cfg issuers G s) (resps : (s.pe p).waitingRespRead ≠ []) :
    (s.pe p).operateNextEvent = none := by
  cases hc.phase p with
  | idle _ _ _ _ none => exact absurd none resps
  | loading operate => exact operate
  | waiting operate => exact operate
  | storing operate => exact operate
  | synced operate => exact operate
  | leading operate => exact operate
  | done operate => exact operate

theorem respond_move (hc : Control cfg issuers G s) (hn : Net s) (flight : (p, r) ∈ s.inFlight) :
    ∃ t, recvTimingResp { s with inFlight := s.inFlight.erase (p, r) } p r = .ok t ∧
      Move cfg s (.respond p r) t := by
  obtain ⟨tick, found, hle⟩ := hn.found flight
  have hlt : ¬ s.curTick < tick := by omega
  cases kind : r.isRead with
  | false =>
    refine ⟨_, ?_, .recvWrite flight kind⟩
    simp only [kind, Bool.false_eq_true, if_false] at found
    simp only [recvTimingResp, kind, Bool.false_eq_true, if_false, found, if_neg hlt]
    rfl
  | true =>
    simp only [kind, if_true] at found
    have operate := hc.unscheduled (List.ne_nil_of_mem (List.mem_of_find?_eq_some found))
    simp only [recvTimingResp, kind, if_true, found, if_neg hlt, System.record, System.set_pe_self]
    split
    · rename_i wake
      refine ⟨_, ?_, .recvRead (some (s.curTick + 1)) flight kind (by simpa using wake)⟩
      simp [System.scheduleOperateNext, System.set, operate, Except.map, System.record]
    · rename_i wake
      refine ⟨_, ?_, .recvRead none flight kind (by simpa using wake)⟩
      simp [System.set, operate, System.record]

/-- Every step of the simulation is one of the moves, and none fails. -/
theorem step_move (hc : Control cfg issuers G s) (hn : Net s) (hm : Matched cfg issuers)
    (hs : Sendable cfg) {a : Action n} {r : Except Fault (System n)}
    (h : step cfg s a = some r) : ∃ t, r = .ok t ∧ Move cfg s a t := by
  cases a with
  | wait ticks =>
    simp only [step, Option.ite_none_right_eq_some, Option.some.injEq] at h
    exact ⟨_, h.2.symm, .wait ticks⟩
  | operate p =>
    simp only [step, Option.ite_none_right_eq_some, Option.some.injEq] at h
    obtain ⟨hdue, rfl⟩ := h
    exact operate_move hc hm hs (by simp [of_decide_eq_true hdue])
  | schedule p accept =>
    simp only [step, Option.ite_none_right_eq_some, Option.some.injEq] at h
    obtain ⟨hdue, rfl⟩ := h
    exact schedule_move hc (by simp [of_decide_eq_true hdue]) accept
  | retry p =>
    simp only [step, Option.ite_none_right_eq_some, Option.some.injEq] at h
    obtain ⟨refused, rfl⟩ := h
    exact retry_move hc refused
  | respond p r =>
    simp only [step, Option.ite_none_right_eq_some, Option.some.injEq] at h
    obtain ⟨flight, rfl⟩ := h
    exact respond_move hc hn flight

end

end Pe

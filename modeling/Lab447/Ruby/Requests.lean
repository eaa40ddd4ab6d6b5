import Lab447.Ruby.Duplicate

/-!
The request table of a sequencer over any sequence of calls: the requests that
the processor makes, and the callbacks of the L1 for lines that it has been asked
for. Between the calls the L1 does its own work.
-/

namespace Ruby

open Script

/-- A sequencer in use. `accepted` are the packets that `makeRequest` answered with
`Issued`, `inFlight` what it has put into the mandatory queue and has not had a
callback for. -/
structure Usage where
  controller : Controller
  accepted : List Packet
  inFlight : List RubyRequest

/-- The calls, and the work of the L1 in between. -/
inductive Call where
  | makeRequest (pkt : Packet)
  | readCallback (side : CacheSide) (address : Addr)
  | writeCallback (side : CacheSide) (address : Addr)
  | l1 (next : Controller)

namespace Usage

/-- The requests of a line. -/
def pending (s : Usage) (a : Addr) : List SequencerRequest := s.controller.sequencer.requestTable a

def outstanding (s : Usage) : Int := s.controller.sequencer.outstandingCount

/-- The packets that have had their callback. -/
def completed (s : Usage) : List Packet := s.controller.sequencer.hitCallbacks

/-- What a call has put into the queue. -/
def issued (c c' : Controller) : List RubyRequest :=
  (c'.mandatoryQueue.prioHeap.drop c.mandatoryQueue.prioHeap.length).map Prod.snd

/-- The request for a line is not in flight any more. -/
def answered (address : Addr) (inFlight : List RubyRequest) : List RubyRequest :=
  inFlight.eraseP fun m => m.lineAddress = address

section

variable (cfg : Config)

def makeRequest (pkt : Packet) (s : Usage) : Except Fault Usage :=
  (Controller.makeRequest cfg pkt s.controller).map fun (status, c) =>
    { controller := c
      accepted := if status = .Issued then s.accepted ++ [pkt] else s.accepted
      inFlight := s.inFlight ++ issued s.controller c }

/-- A callback is delivered only for a line with a request in flight. -/
def callback (address : Addr) (call : Controller → Except Fault Controller) (s : Usage) :
    Option (Except Fault Usage) :=
  if s.inFlight.any fun m => m.lineAddress = address then
    some ((call s.controller).map fun c =>
      { s with
        controller := c
        inFlight := answered address s.inFlight ++ issued s.controller c })
  else none

/-- The L1 may change anything but the table, the count and the callbacks. -/
def work (next : Controller) (s : Usage) : Usage :=
  { s with
    controller :=
      { next with
        sequencer :=
          { next.sequencer with
            requestTable := s.controller.sequencer.requestTable
            outstandingCount := s.controller.sequencer.outstandingCount
            hitCallbacks := s.controller.sequencer.hitCallbacks } } }

def step (s : Usage) : Call → Option (Except Fault Usage)
  | .makeRequest pkt => some (s.makeRequest cfg pkt)
  | .readCallback side address => s.callback address (Controller.readCallback cfg side address)
  | .writeCallback side address => s.callback address (Controller.writeCallback cfg side address)
  | .l1 next => some (.ok (s.work next))

def machine (version : Nat) : Machine Usage Call Fault := ⟨⟨.start cfg version, [], []⟩, step cfg⟩

end

/-! ### What is in flight -/

theorem prioHeap_foldl_enqueue {α : Type} (ms : List α) (b : MessageBuffer α) :
    ∃ new, (ms.foldl .enqueue b).prioHeap = b.prioHeap ++ new ∧ new.map Prod.snd = ms := by
  induction ms generalizing b with
  | nil => exact ⟨[], (List.append_nil _).symm, rfl⟩
  | cons m ms ih =>
    obtain ⟨new, heap, hnew⟩ := ih (b.enqueue m)
    refine ⟨(b.msgCounter + 1, m) :: new, ?_, by rw [List.map_cons, hnew]⟩
    rw [List.foldl_cons, heap, MessageBuffer.enqueue, List.append_assoc]
    rfl

variable {c : Controller}

theorem issued_eq {c' : Controller} {ms : List RubyRequest}
    (h : c'.mandatoryQueue = ms.foldl .enqueue c.mandatoryQueue) : issued c c' = ms := by
  obtain ⟨new, heap, rfl⟩ := prioHeap_foldl_enqueue ms c.mandatoryQueue
  rw [issued, h, heap, List.drop_left]

/-- The requests in flight for a line. -/
def flights (ms : List RubyRequest) (a : Addr) : List RubyRequest :=
  ms.filter fun m => m.lineAddress = a

theorem flights_cons (m : RubyRequest) (ms : List RubyRequest) (a : Addr) :
    flights (m :: ms) a = if m.lineAddress = a then m :: flights ms a else flights ms a := by
  simp [flights, List.filter_cons]

theorem flights_append (ms ms' : List RubyRequest) (a : Addr) :
    flights (ms ++ ms') a = flights ms a ++ flights ms' a :=
  List.filter_append ..

theorem flights_of_lines {ms : List RubyRequest} {a : Addr} (h : ∀ m ∈ ms, m.lineAddress = a)
    (b : Addr) : flights ms b = if b = a then ms else [] := by
  split
  · rename_i hb
    exact List.filter_eq_self.mpr fun m hm => by simp [h m hm, hb]
  · rename_i hb
    exact List.filter_eq_nil_iff.mpr fun m hm => by simpa [h m hm] using Ne.symm hb

theorem flights_answered (ms : List RubyRequest) (a b : Addr) :
    flights (answered a ms) b = if b = a then (flights ms a).tail else flights ms b := by
  induction ms with
  | nil => simp [flights, answered]
  | cons m ms ih =>
    by_cases hm : m.lineAddress = a
    · have erased : answered a (m :: ms) = ms := List.eraseP_cons_of_pos (by simpa using hm)
      rw [erased, flights_cons, flights_cons, if_pos hm, List.tail_cons]
      split
      · rename_i hb
        rw [hb]
      · rename_i hb
        rw [if_neg fun h => hb (h.symm.trans hm)]
    · have kept : answered a (m :: ms) = m :: answered a ms :=
        List.eraseP_cons_of_neg (by simpa using hm)
      rw [kept, flights_cons, ih, flights_cons m ms a, if_neg hm, flights_cons m ms b]
      by_cases hb : b = a
      · rw [if_pos hb, if_pos hb, if_neg (hb ▸ hm)]
      · rw [if_neg hb, if_neg hb]

/-! ### Effects of the calls -/

variable {rs : List SequencerRequest} {first : Bool}

section

variable {cfg : Config} {c c' : Controller} {side : CacheSide} {a : Addr}

theorem readLoop_count (h : Controller.readLoop cfg side a first rs c = .ok c') :
    c'.sequencer.outstandingCount =
      c.sequencer.outstandingCount - (Controller.reads rs).length := by
  induction rs generalizing first c with
  | nil =>
    cases h
    simp [Controller.setRequests, Controller.reads]
  | cons r rs ih =>
    unfold Controller.readLoop at h
    split at h
    · rename_i hr
      obtain ⟨c₁, h₁, h₂⟩ := bind_eq_ok.mp h
      obtain ⟨-, -, data, seq⟩ := Controller.hitCallback_ok h₁
      have hreads : Controller.reads (r :: rs) = r :: Controller.reads rs :=
        List.takeWhile_cons_of_pos hr
      rw [ih h₂, seq, hreads]
      simp only [Controller.markRemoved, List.length_cons]
      omega
    · rename_i hr
      split at h
      · cases h
      · obtain ⟨-, -, seq⟩ := Controller.issueRequest_ok h
        have hreads : Controller.reads (r :: rs) = [] := List.takeWhile_cons_of_neg hr
        rw [seq, hreads]
        simp [Controller.setRequests]

theorem writeLoop_count (h : Controller.writeLoop cfg side a first rs c = .ok c') :
    c'.sequencer.outstandingCount = c.sequencer.outstandingCount - rs.length := by
  induction rs generalizing first c with
  | nil =>
    cases h
    simp [Controller.setRequests]
  | cons r rs ih =>
    have next {c₀ c₁ : Controller} {success again : Bool} (hseq : c₀.sequencer = c.sequencer)
        (h₁ : Controller.hitCallback cfg side a success r c₀.markRemoved = .ok c₁)
        (h₂ : Controller.writeLoop cfg side a again rs c₁ = .ok c') :
        c'.sequencer.outstandingCount = c.sequencer.outstandingCount - (r :: rs).length := by
      obtain ⟨-, -, data, seq⟩ := Controller.hitCallback_ok h₁
      rw [ih h₂, seq]
      simp only [Controller.markRemoved, hseq, List.length_cons]
      omega
    unfold Controller.writeLoop at h
    split at h
    · split at h
      · cases h
      · obtain ⟨c₁, h₁, h₂⟩ := bind_eq_ok.mp h
        exact next rfl h₁ h₂
    · obtain ⟨c₁, h₁, h₂⟩ := bind_eq_ok.mp h
      exact next Controller.beforeWrite_ok.2.1 h₁ h₂

/-- A callback that succeeds runs its loop over the requests of the line. -/
theorem readCallback_count (h : Controller.readCallback cfg side a c = .ok c') :
    c'.sequencer.outstandingCount = c.sequencer.outstandingCount -
      (Controller.reads (c.sequencer.requestTable a)).length := by
  unfold Controller.readCallback at h
  split at h
  · cases h
  · split at h
    · cases h
    · exact readLoop_count h

theorem writeCallback_count (h : Controller.writeCallback cfg side a c = .ok c') :
    c'.sequencer.outstandingCount = c.sequencer.outstandingCount -
      (c.sequencer.requestTable a).length := by
  unfold Controller.writeCallback at h
  split at h
  · cases h
  · split at h
    · cases h
    · exact writeLoop_count h

/-- A request is accepted only while there is room. -/
theorem makeRequest_room {pkt : Packet}
    (h : Controller.makeRequest cfg pkt c = .ok (.Issued, c')) :
    c.sequencer.outstandingCount < cfg.maxOutstandingRequests := by
  unfold Controller.makeRequest at h
  split at h
  · cases h
  · rename_i room
    exact not_le.mp room

/-- What accepting a request does. -/
structure Accepts (cfg : Config) (r : SequencerRequest) (c c' : Controller) : Prop where
  room : c.sequencer.outstandingCount < cfg.maxOutstandingRequests
  types : Controller.requestTypes r.pkt = .ok (r.type, r.secondType)
  table : c'.sequencer.requestTable = Function.update c.sequencer.requestTable
    (makeLineAddress cfg r.pkt.addr)
    (c.sequencer.requestTable (makeLineAddress cfg r.pkt.addr) ++ [r])
  count : c'.sequencer.outstandingCount = c.sequencer.outstandingCount + 1
  hits : c'.sequencer.hitCallbacks = c.sequencer.hitCallbacks
  queue : issued c c' = if c.sequencer.requestTable (makeLineAddress cfg r.pkt.addr) = [] then
    [Controller.request cfg r.pkt r.secondType] else []

theorem makeRequest_accepts {pkt : Packet} {status : RequestStatus}
    (h : Controller.makeRequest cfg pkt c = .ok (status, c')) :
    status ≠ .Issued ∧ c' = c ∨
      status = .Issued ∧ ∃ r : SequencerRequest, r.pkt = pkt ∧ Accepts cfg r c c' := by
  obtain refused | ⟨rfl, primary, secondary, types, cases⟩ := Controller.makeRequest_cases h
  · exact .inl refused
  · refine .inr ⟨rfl, ⟨pkt, primary, secondary⟩, rfl, ?_⟩
    have room := makeRequest_room h
    obtain ⟨busy, rfl⟩ | ⟨free, issue⟩ := cases
    · refine ⟨room, types, rfl, rfl, rfl, ?_⟩
      rw [if_neg busy]
      exact issued_eq rfl
    · obtain ⟨-, queue, seq⟩ := Controller.issueRequest_ok issue
      refine ⟨room, types, by rw [seq]; rfl, by rw [seq]; rfl, by rw [seq]; rfl, ?_⟩
      rw [if_pos free]
      exact issued_eq queue

end

/-! ### The invariant -/

section

variable (cfg : Config)

def line (pkt : Packet) : Addr := makeLineAddress cfg pkt.addr

/-- The request that a list of requests has in flight: that of its first entry. -/
def headRequest (rs : List SequencerRequest) : List RubyRequest :=
  (rs.head?.map fun r => Controller.request cfg r.pkt r.secondType).toList

/-- The packets of a line, without their data. -/
def ofLine (a : Addr) (pkts : List Packet) : List Packet :=
  (pkts.map Packet.blank).filter fun p => line cfg p = a

/-- What one call does to the requests of a line: `done` are completed, `new` are
accepted and `left` were there and stay. -/
structure Turn (a : Addr) (done left new : List SequencerRequest) (s t : Usage) : Prop where
  before : s.pending a = done ++ left
  pending : t.pending = Function.update s.pending a (left ++ new)
  outstanding : t.outstanding = s.outstanding - done.length + new.length
  limit : t.outstanding ≤ cfg.maxOutstandingRequests
  completed : t.completed.map Packet.blank =
    s.completed.map Packet.blank ++ done.map (·.pkt.blank)
  accepted : t.accepted = s.accepted ++ new.map (·.pkt)
  own : ∀ r ∈ new, line cfg r.pkt = a
  inFlight : ∀ b, flights t.inFlight b =
    if b = a then headRequest cfg (left ++ new) else flights s.inFlight b

/-- The lines of the accepted requests. -/
def lines (s : Usage) : Finset Addr := (s.accepted.map (line cfg)).toFinset

/-- The table, the count, the requests in flight and the callbacks agree. -/
structure Kept (s : Usage) : Prop where
  own : ∀ a, ∀ r ∈ s.pending a, line cfg r.pkt = a
  support : ∀ a, s.pending a ≠ [] → a ∈ s.lines cfg
  count : ∀ S : Finset Addr, (∀ a, s.pending a ≠ [] → a ∈ S) →
    s.outstanding = ∑ a ∈ S, ((s.pending a).length : Int)
  limit : s.outstanding ≤ cfg.maxOutstandingRequests
  inFlight : ∀ a, flights s.inFlight a = headRequest cfg (s.pending a)
  order : ∀ a, ofLine cfg a s.accepted =
    ofLine cfg a s.completed ++ (s.pending a).map (·.pkt.blank)

end

variable {cfg : Config} {s t : Usage} {a : Addr} {done left new : List SequencerRequest}

theorem ofLine_append (b : Addr) (pkts pkts' : List Packet) :
    ofLine cfg b (pkts ++ pkts') = ofLine cfg b pkts ++ ofLine cfg b pkts' := by
  rw [ofLine, List.map_append, List.filter_append]
  rfl

theorem ofLine_requests (own : ∀ r ∈ rs, line cfg r.pkt = a) (b : Addr) :
    ofLine cfg b (rs.map (·.pkt)) = if b = a then rs.map (·.pkt.blank) else [] := by
  have blanks : (rs.map (·.pkt)).map Packet.blank = rs.map (·.pkt.blank) := by simp
  have lines : ∀ p ∈ rs.map (·.pkt.blank), line cfg p = a := by
    intro p hp
    obtain ⟨r, hr, rfl⟩ := List.mem_map.mp hp
    exact own r hr
  rw [ofLine, blanks]
  split
  · rename_i hb
    exact List.filter_eq_self.mpr fun p hp => by simp [lines p hp, hb]
  · rename_i hb
    exact List.filter_eq_nil_iff.mpr fun p hp => by simpa [lines p hp] using Ne.symm hb

/-- Changing one list changes the sum of the lengths by the difference. -/
theorem sum_length_update {table : Addr → List SequencerRequest} {S : Finset Addr} (ha : a ∈ S)
    (rs : List SequencerRequest) :
    ∑ b ∈ S, ((Function.update table a rs b).length : Int) + (table a).length =
      ∑ b ∈ S, ((table b).length : Int) + rs.length := by
  rw [← Finset.add_sum_erase S _ ha, ← Finset.add_sum_erase S (fun b => ((table b).length : Int)) ha,
    Function.update_self]
  have rest : ∑ b ∈ S.erase a, ((Function.update table a rs b).length : Int) =
      ∑ b ∈ S.erase a, ((table b).length : Int) := by
    refine Finset.sum_congr rfl fun b hb => ?_
    rw [Function.update_of_ne (Finset.ne_of_mem_erase hb)]
  omega

theorem Turn.count (turn : Turn cfg a done left new s t) (inv : Kept cfg s) {S : Finset Addr}
    (hS : ∀ b, t.pending b ≠ [] → b ∈ S) :
    t.outstanding = ∑ b ∈ S, ((t.pending b).length : Int) := by
  have before : s.outstanding = ∑ b ∈ insert a S, ((s.pending b).length : Int) := by
    apply inv.count
    intro b hb
    by_cases hba : b = a
    · exact hba ▸ Finset.mem_insert_self a S
    · refine Finset.mem_insert_of_mem (hS b ?_)
      rwa [turn.pending, Function.update_of_ne hba]
  have after : ∑ b ∈ insert a S, ((Function.update s.pending a (left ++ new) b).length : Int) +
      (s.pending a).length = _ := sum_length_update (Finset.mem_insert_self a S) (left ++ new)
  have more : ∑ b ∈ insert a S, ((t.pending b).length : Int) =
      ∑ b ∈ S, ((t.pending b).length : Int) := by
    refine Finset.sum_insert_of_eq_zero_if_notMem fun ha => ?_
    have empty : t.pending a = [] := by
      by_contra ne
      exact ha (hS a ne)
    rw [empty]
    rfl
  rw [← turn.pending, turn.before, more, ← before] at after
  rw [turn.outstanding]
  simp only [List.length_append, Nat.cast_add] at after
  omega

theorem Turn.kept (turn : Turn cfg a done left new s t) (inv : Kept cfg s) : Kept cfg t := by
  have own : ∀ r ∈ left ++ new, line cfg r.pkt = a := by
    intro r hr
    obtain hr | hr := List.mem_append.mp hr
    · exact inv.own a r (turn.before ▸ List.mem_append_right done hr)
    · exact turn.own r hr
  have completed (b : Addr) : ofLine cfg b t.completed =
      ofLine cfg b s.completed ++ ofLine cfg b (done.map (·.pkt)) := by
    have same : done.map (·.pkt.blank) = (done.map (·.pkt)).map Packet.blank := by simp
    rw [ofLine, turn.completed, List.filter_append, same]
    rfl
  refine ⟨fun b r hr => ?_, fun b hb => ?_, fun S => turn.count inv, turn.limit, fun b => ?_,
    fun b => ?_⟩
  · rw [turn.pending] at hr
    by_cases hba : b = a
    · subst hba
      rw [Function.update_self] at hr
      exact own r hr
    · rw [Function.update_of_ne hba] at hr
      exact inv.own b r hr
  · have old (h : s.pending b ≠ []) : b ∈ t.lines cfg := by
      have := inv.support b h
      rw [lines, List.mem_toFinset] at this ⊢
      rw [turn.accepted, List.map_append]
      exact List.mem_append_left _ this
    by_cases hba : b = a
    · subst hba
      rw [turn.pending, Function.update_self] at hb
      cases hnew : new with
      | nil =>
        rw [hnew, List.append_nil] at hb
        exact old (by simp [turn.before, hb])
      | cons r rest =>
        have hr : r ∈ new := hnew ▸ List.mem_cons_self
        rw [lines, List.mem_toFinset, turn.accepted, List.map_append, ← turn.own r hr]
        exact List.mem_append_right _ (List.mem_map_of_mem (List.mem_map_of_mem hr))
    · rw [turn.pending, Function.update_of_ne hba] at hb
      exact old hb
  · rw [turn.inFlight, turn.pending]
    split
    · rename_i hb
      rw [hb, Function.update_self]
    · rename_i hb
      rw [Function.update_of_ne hb]
      exact inv.inFlight b
  · have doneOwn : ∀ r ∈ done, line cfg r.pkt = a := fun r hr =>
      inv.own a r (turn.before ▸ List.mem_append_left left hr)
    rw [turn.accepted, ofLine_append, inv.order, completed, ofLine_requests doneOwn,
      ofLine_requests turn.own, turn.pending]
    split
    · rename_i hb
      rw [hb, Function.update_self, turn.before]
      simp
    · rename_i hb
      rw [Function.update_of_ne hb]
      simp

/-! ### Every call is a turn -/

theorem makeRequest_turn {pkt : Packet} (inv : Kept cfg s)
    (h : s.makeRequest cfg pkt = .ok t) :
    t = s ∨ ∃ r : SequencerRequest, r.pkt = pkt ∧
      Controller.requestTypes pkt = .ok (r.type, r.secondType) ∧
      Turn cfg (line cfg pkt) [] (s.pending (line cfg pkt)) [r] s t := by
  obtain ⟨⟨status, c⟩, hc, rfl⟩ := map_eq_ok.mp h
  obtain ⟨refused, rfl⟩ | ⟨rfl, r, rfl, accepts⟩ := makeRequest_accepts hc
  · left
    have none : issued s.controller s.controller = [] := issued_eq rfl
    simp only [if_neg refused, none, List.append_nil]
  · refine .inr ⟨r, rfl, accepts.types, ?_⟩
    have room := accepts.room
    refine ⟨rfl, accepts.table, ?_, ?_, ?_, rfl, ?_, fun b => ?_⟩
    · simp [outstanding, accepts.count]
    · simp only [outstanding, accepts.count]
      omega
    · simp [completed, accepts.hits]
    · simp
    · have fresh : ∀ m ∈ issued s.controller c, m.lineAddress = line cfg r.pkt := by
        intro m hm
        rw [accepts.queue] at hm
        split at hm
        · rw [List.mem_singleton.mp hm]
          rfl
        · cases hm
      rw [flights_append, flights_of_lines fresh]
      split
      · rename_i hb
        subst hb
        rw [inv.inFlight, accepts.queue]
        change headRequest cfg (s.pending (line cfg r.pkt)) ++
          (if s.pending (line cfg r.pkt) = [] then _ else _) = _
        cases s.pending (line cfg r.pkt) <;> rfl
      · exact List.append_nil _

/-- A callback takes the request of its line out of flight and issues that of the
first request that is left. -/
theorem callback_inFlight (inv : Kept cfg s) (own : ∀ r ∈ left, line cfg r.pkt = a)
    (queue : c.mandatoryQueue =
      (Controller.reissued cfg left).foldl .enqueue s.controller.mandatoryQueue) (b : Addr) :
    flights (answered a s.inFlight ++ issued s.controller c) b =
      if b = a then headRequest cfg left else flights s.inFlight b := by
  have again : issued s.controller c = headRequest cfg left := by
    rw [issued_eq queue]
    cases left <;> rfl
  have fresh : ∀ m ∈ headRequest cfg left, m.lineAddress = a := by
    intro m hm
    cases left with
    | nil => cases hm
    | cons r rest =>
      rw [List.mem_singleton.mp hm]
      exact own r List.mem_cons_self
  rw [flights_append, flights_answered, again, flights_of_lines fresh]
  split
  · -- the request that was in flight was the only one of its line
    have one : (flights s.inFlight a).tail = [] := by
      rw [inv.inFlight]
      cases s.pending a <;> rfl
    rw [one, List.nil_append]
  · exact List.append_nil _

theorem callback_ok {address : Addr} {call : Controller → Except Fault Controller}
    (h : s.callback address call = some (.ok t)) :
    ∃ c, call s.controller = .ok c ∧ t = { s with
      controller := c
      inFlight := answered address s.inFlight ++ issued s.controller c } := by
  unfold callback at h
  split at h
  · obtain ⟨c, hc, ht⟩ := map_eq_ok.mp (Option.some.inj h)
    exact ⟨c, hc, ht.symm⟩
  · cases h

variable {side : CacheSide}

theorem readCallback_turn (inv : Kept cfg s)
    (h : s.callback a (Controller.readCallback cfg side a) = some (.ok t)) :
    Turn cfg a (Controller.reads (s.pending a)) (Controller.remaining (s.pending a)) [] s t ∧
      Controller.reads (s.pending a) ≠ [] := by
  obtain ⟨c, hc, rfl⟩ := callback_ok h
  obtain ⟨⟨r, rest, hr, read⟩, effect⟩ := Controller.readCallback_ok hc
  have count := readCallback_count hc
  have limit := inv.limit
  have split : s.pending a = Controller.reads (s.pending a) ++ Controller.remaining (s.pending a) :=
    List.takeWhile_append_dropWhile.symm
  have first : Controller.reads (s.pending a) ≠ [] := by
    rw [pending, hr, Controller.reads, List.takeWhile_cons_of_pos (by exact read)]
    exact List.cons_ne_nil _ _
  refine ⟨⟨split, ?_, ?_, ?_, effect.hits, ?_, ?_, ?_⟩, first⟩
  · rw [List.append_nil]
    exact effect.table
  · rw [outstanding, count]
    simp [outstanding, pending]
  · rw [outstanding] at limit ⊢
    rw [count]
    omega
  · simp
  · simp
  · rw [List.append_nil]
    refine callback_inFlight inv (fun r hr => inv.own a r ?_) effect.queue
    exact (List.dropWhile_sublist _).subset hr

theorem writeCallback_turn (inv : Kept cfg s)
    (h : s.callback a (Controller.writeCallback cfg side a) = some (.ok t)) :
    Turn cfg a (s.pending a) [] [] s t := by
  obtain ⟨c, hc, rfl⟩ := callback_ok h
  obtain ⟨-, effect⟩ := Controller.writeCallback_ok hc
  have count := writeCallback_count hc
  have limit := inv.limit
  refine ⟨(List.append_nil _).symm, effect.table, ?_, ?_, effect.hits, ?_, ?_, ?_⟩
  · rw [outstanding, count]
    simp [outstanding, pending]
  · rw [outstanding] at limit ⊢
    rw [count]
    omega
  · simp
  · simp
  · exact callback_inFlight inv (by simp) effect.queue

theorem Kept.start (version : Nat) : Kept cfg (machine cfg version).start where
  own a r hr := by cases hr
  support a ha := absurd rfl ha
  count S _ := by simp [machine, outstanding, pending, Controller.start]
  limit := Int.natCast_nonneg _
  inFlight _ := rfl
  order _ := rfl

theorem Kept.step {call : Call} (inv : Kept cfg s) (h : s.step cfg call = some (.ok t)) :
    Kept cfg t := by
  cases call with
  | makeRequest pkt =>
    obtain rfl | ⟨r, -, -, turn⟩ := makeRequest_turn inv (Option.some.inj h)
    · exact inv
    · exact turn.kept inv
  | readCallback side address => exact (readCallback_turn inv h).1.kept inv
  | writeCallback side address => exact (writeCallback_turn inv h).kept inv
  | l1 next =>
    cases h
    exact ⟨inv.own, inv.support, inv.count, inv.limit, inv.inFlight, inv.order⟩

/-! ### Every request is completed -/

section

variable (cfg : Config)

/-- The packet lies in one line, and a broadcast is a load. -/
def ProperPacket (pkt : Packet) : Prop :=
  getOffset cfg pkt.addr + pkt.size ≤ blockSizeBytes cfg ∧
    (pkt.isBroadcast = true → Controller.requestTypes pkt = .ok (.LD, .LD))

def Proper (_ : Usage) : Call → Prop
  | .makeRequest pkt => ProperPacket cfg pkt
  | _ => True

/-- A request that can be completed and, if it is a write, issued again. -/
def Servable (r : SequencerRequest) : Prop :=
  getOffset cfg r.pkt.addr + r.pkt.size ≤ blockSizeBytes cfg ∧
    (r.pkt.isBroadcast = true → r.type.isRead = true)

end

variable {r : SequencerRequest}

theorem hitCallback_isOk {success : Bool}
    (fits : getOffset cfg r.pkt.addr + r.pkt.size ≤ blockSizeBytes cfg) :
    ∃ c', Controller.hitCallback cfg side a success r c = .ok c' := by
  unfold Controller.hitCallback
  rw [if_neg (by simp [fits])]
  cases r.type <;> exact ⟨_, rfl⟩

theorem readLoop_isOk (servable : ∀ r ∈ rs, Servable cfg r)
    (head : first = true → ∀ r ∈ rs.head?, r.type.isRead = true) :
    ∃ c', Controller.readLoop cfg side a first rs c = .ok c' := by
  induction rs generalizing first c with
  | nil => exact ⟨_, rfl⟩
  | cons r rs ih =>
    obtain ⟨hr, servable⟩ := List.forall_mem_cons.mp servable
    unfold Controller.readLoop
    split
    · obtain ⟨c₁, h₁⟩ := hitCallback_isOk (c := c.markRemoved) (a := a) (r := r) hr.1
      rw [h₁]
      exact ih servable (by simp)
    · rename_i write
      rw [if_neg fun h => write (head h r rfl), Controller.issueRequest,
        if_neg fun broadcast => write (hr.2 broadcast)]
      exact ⟨_, rfl⟩

theorem writeLoop_isOk (servable : ∀ r ∈ rs, Servable cfg r)
    (head : first = true → ∀ r ∈ rs.head?, r.type.isRead = false) :
    ∃ c', Controller.writeLoop cfg side a first rs c = .ok c' := by
  induction rs generalizing first c with
  | nil => exact ⟨_, rfl⟩
  | cons r rs ih =>
    obtain ⟨hr, servable⟩ := List.forall_mem_cons.mp servable
    unfold Controller.writeLoop
    split
    · rename_i read
      have later : first ≠ true := by
        intro h
        rw [head h r rfl] at read
        cases read
      obtain ⟨c₁, h₁⟩ := hitCallback_isOk (c := c.markRemoved) (a := a) (r := r) hr.1
      rw [if_neg later, h₁]
      exact ih servable fun h => absurd h later
    · obtain ⟨c₁, h₁⟩ : ∃ c₁, Controller.hitCallback cfg side a (Controller.beforeWrite a r c).1 r
          (Controller.beforeWrite a r c).2.markRemoved = .ok c₁ := hitCallback_isOk hr.1
      change ∃ c', (Controller.hitCallback cfg side a (Controller.beforeWrite a r c).1 r
        (Controller.beforeWrite a r c).2.markRemoved).bind
          (Controller.writeLoop cfg side a false rs) = .ok c'
      rw [h₁]
      exact ih servable (by simp)

theorem requestTypes_broadcast (proper : ProperPacket cfg r.pkt)
    (types : Controller.requestTypes r.pkt = .ok (r.type, r.secondType)) : Servable cfg r := by
  refine ⟨proper.1, fun broadcast => ?_⟩
  have load := (proper.2 broadcast).symm.trans types
  rw [Except.ok.injEq, Prod.mk.injEq] at load
  rw [← load.1]
  rfl

/-- The requests of proper packets can be completed. -/
def Completable (cfg : Config) (s : Usage) : Prop :=
  Kept cfg s ∧ ∀ a, ∀ r ∈ s.pending a, Servable cfg r

theorem Turn.servable (turn : Turn cfg a done left new s t)
    (old : ∀ b, ∀ r ∈ s.pending b, Servable cfg r) (fresh : ∀ r ∈ new, Servable cfg r) :
    ∀ b, ∀ r ∈ t.pending b, Servable cfg r := by
  intro b r hr
  rw [turn.pending] at hr
  by_cases hb : b = a
  · subst hb
    rw [Function.update_self] at hr
    obtain hr | hr := List.mem_append.mp hr
    · exact old b r (turn.before ▸ List.mem_append_right done hr)
    · exact fresh r hr
  · rw [Function.update_of_ne hb] at hr
    exact old b r hr

theorem Completable.step {call : Call} (inv : Completable cfg s) (proper : Proper cfg s call)
    (h : s.step cfg call = some (.ok t)) : Completable cfg t := by
  refine ⟨inv.1.step h, ?_⟩
  cases call with
  | makeRequest pkt =>
    obtain rfl | ⟨r, rfl, types, turn⟩ := makeRequest_turn inv.1 (Option.some.inj h)
    · exact inv.2
    · refine turn.servable inv.2 fun r' hr' => ?_
      rw [List.mem_singleton.mp hr']
      exact requestTypes_broadcast proper types
  | readCallback side address =>
    exact (readCallback_turn inv.1 h).1.servable inv.2 (by simp)
  | writeCallback side address =>
    exact (writeCallback_turn inv.1 h).servable inv.2 (by simp)
  | l1 next =>
    cases h
    exact inv.2

/-- The callback for the first request of a line. -/
def callbackFor (side : CacheSide) (a : Addr) (r : SequencerRequest) : Call :=
  if r.type.isRead then .readCallback side a else .writeCallback side a

variable {rest : List SequencerRequest}

/-- A line with a request is a line address, and the L1 has its first request. -/
theorem Kept.flying (inv : Kept cfg s) (hr : s.pending a = r :: rest) :
    a = makeLineAddress cfg a ∧ (s.inFlight.any fun m => m.lineAddress = a) = true := by
  constructor
  · have own := inv.own a r (hr ▸ List.mem_cons_self)
    rw [← own, Usage.line, makeLineAddress_of_getOffset (getOffset_makeLineAddress _)]
  · have flight := inv.inFlight a
    rw [hr] at flight
    have mem : Controller.request cfg r.pkt r.secondType ∈ flights s.inFlight a := by
      rw [flight]
      exact List.mem_singleton_self _
    exact List.any_eq_true.mpr ⟨_, List.mem_filter.mp mem⟩

/-- A callback that does not fail is made. -/
theorem Kept.callback_isOk {f : Controller → Except Fault Controller} (inv : Kept cfg s)
    (hr : s.pending a = r :: rest) (hc : f s.controller = .ok c) :
    ∃ t, s.callback a f = some (.ok t) :=
  ⟨_, by rw [callback, if_pos (inv.flying hr).2, hc]; rfl⟩

/-- The callback for the first request of a line does not fail. -/
theorem Completable.callbackFor_isOk (side : CacheSide) (inv : Completable cfg s)
    (hr : s.pending a = r :: rest) : ∃ t, s.step cfg (callbackFor side a r) = some (.ok t) := by
  have table : s.controller.sequencer.requestTable a = r :: rest := hr
  have line := not_not.mpr (inv.1.flying hr).1
  have some : s.controller.sequencer.requestTable a ≠ [] := table ▸ List.cons_ne_nil _ _
  unfold callbackFor
  split
  · rename_i read
    obtain ⟨c, hc⟩ : ∃ c, Controller.readCallback cfg side a s.controller = .ok c := by
      rw [Controller.readCallback, if_neg line, if_neg some]
      exact readLoop_isOk (inv.2 a) (by simp [table, read])
    exact inv.1.callback_isOk hr hc
  · rename_i write
    obtain ⟨c, hc⟩ : ∃ c, Controller.writeCallback cfg side a s.controller = .ok c := by
      rw [Controller.writeCallback, if_neg line, if_neg some]
      exact writeLoop_isOk (inv.2 a) (by simp [table, write])
    exact inv.1.callback_isOk hr hc

/-- The L1 can complete the first request of a line, and some of those behind it. -/
theorem Completable.completes (side : CacheSide) (inv : Completable cfg s)
    (hr : s.pending a = r :: rest) : ∃ t, s.step cfg (callbackFor side a r) = some (.ok t) ∧
      (t.pending a).length < (s.pending a).length ∧ t.accepted = s.accepted := by
  obtain ⟨t, done⟩ := inv.callbackFor_isOk side hr
  refine ⟨t, done, ?_⟩
  unfold callbackFor at done
  split at done
  · obtain ⟨turn, some⟩ := readCallback_turn inv.1 done
    refine ⟨?_, by rw [turn.accepted]; simp⟩
    have fewer := congrArg List.length turn.before
    have done := List.length_pos_of_ne_nil some
    rw [List.length_append] at fewer
    rw [turn.pending, Function.update_self, List.append_nil]
    omega
  · have turn := writeCallback_turn inv.1 done
    refine ⟨?_, by rw [turn.accepted]; simp⟩
    rw [turn.pending, Function.update_self, hr]
    simp

theorem Completable.drains {version : Nat} (side : CacheSide) (a : Addr) (inv : Completable cfg s) :
    ∃ calls t, (∀ call ∈ calls, call = .readCallback side a ∨ call = .writeCallback side a) ∧
      (machine cfg version).run s calls = some t ∧ t.pending a = [] ∧
      ofLine cfg a t.completed = ofLine cfg a s.accepted := by
  induction h : (s.pending a).length using Nat.strong_induction_on generalizing s with
  | _ n ih =>
    cases hr : s.pending a with
    | nil =>
      refine ⟨[], s, by simp, rfl, hr, ?_⟩
      have order := inv.1.order a
      rw [hr, List.map_nil, List.append_nil] at order
      exact order.symm
    | cons r rest =>
      obtain ⟨t, step, less, same⟩ := inv.completes side hr
      have kind : callbackFor side a r = .readCallback side a ∨
          callbackFor side a r = .writeCallback side a := by
        rw [callbackFor]
        split
        · exact .inl rfl
        · exact .inr rfl
      have proper : Proper cfg s (callbackFor side a r) := by
        obtain h | h := kind <;> rw [h] <;> trivial
      obtain ⟨calls, u, callbacks, run, empty, all⟩ :=
        ih _ (h ▸ less) (inv.step proper step) rfl
      refine ⟨callbackFor side a r :: calls, u, ?_, ?_, empty, same ▸ all⟩
      · exact List.forall_mem_cons.mpr ⟨kind, callbacks⟩
      · rw [Machine.run, Machine.act_eq_some.mpr step]
        exact run

/-- The count is the number of requests in the table and within its limit, the line
of every request has the first one in flight and no other, and the requests of a
line are completed in the order in which they were accepted. -/
structure Sound (cfg : Config) (s : Usage) : Prop where
  count : s.outstanding = ∑ a ∈ s.lines cfg, ((s.pending a).length : Int)
  support : ∀ a, s.pending a ≠ [] → a ∈ s.lines cfg
  nonneg : 0 ≤ s.outstanding
  limit : s.outstanding ≤ cfg.maxOutstandingRequests
  inFlight : ∀ a, flights s.inFlight a = headRequest cfg (s.pending a)
  order : ∀ a, ofLine cfg a s.accepted =
    ofLine cfg a s.completed ++ (s.pending a).map (·.pkt.blank)

theorem Kept.sound (inv : Kept cfg s) : Sound cfg s := by
  have count := inv.count _ inv.support
  refine ⟨count, inv.support, ?_, inv.limit, inv.inFlight, inv.order⟩
  rw [count]
  exact Finset.sum_nonneg fun _ _ => Int.natCast_nonneg _

/-- The request table is sound in every state of every run, and from every state
callbacks for the requests in flight complete all requests that were accepted. -/
theorem requests_completed_in_order (cfg : Config) (version : Nat) :
    (∀ s, (machine cfg version).Reaches (fun _ _ => True) s → Sound cfg s) ∧
    ∀ s side a, (machine cfg version).Reaches (Proper cfg) s →
      ∃ calls t, (∀ call ∈ calls, call = .readCallback side a ∨ call = .writeCallback side a) ∧
        (machine cfg version).run s calls = some t ∧ t.pending a = [] ∧
        ofLine cfg a t.completed = ofLine cfg a s.accepted := by
  constructor
  · intro s reached
    have kept : Kept cfg s := reached.invariant (.start version) fun _ _ _ inv _ h => inv.step h
    exact kept.sound
  · intro s side a reached
    have completable : Completable cfg s := by
      refine reached.invariant ⟨.start version, ?_⟩ fun _ _ _ inv proper h => inv.step proper h
      intro b r hr
      cases hr
    exact completable.drains side a

/-- Lines of 64 bytes and two requests at a time. -/
def twoRequests : Config := ⟨6, 1, 0, false, false, 2, 1, 1, 1, 1⟩

def load (id : Nat) (addr : Addr) : Packet :=
  ⟨0, id, addr, 4, [], true, false, false, false, false, false, false, false⟩

def store (id : Nat) (addr : Addr) : Packet :=
  ⟨0, id, addr, 4, [1, 2, 3, 4], false, true, false, false, false, false, false, false⟩

/-- A store behind a load of its line is issued by the callback of the load; a third
request finds no room. -/
theorem load_store_completed : ∃ s, (machine twoRequests 0).run (machine twoRequests 0).start
      [.makeRequest (load 0 64), .makeRequest (store 1 68), .makeRequest (load 2 128),
        .readCallback .dcache 64, .writeCallback .dcache 64] = some s ∧
    s.completed.map Packet.id = [0, 1] ∧ s.accepted.map Packet.id = [0, 1] ∧
    Sound twoRequests s := by
  have ids : ((machine twoRequests 0).run (machine twoRequests 0).start
      [.makeRequest (load 0 64), .makeRequest (store 1 68), .makeRequest (load 2 128),
        .readCallback .dcache 64, .writeCallback .dcache 64]).map
      (fun s => (s.completed.map Packet.id, s.accepted.map Packet.id)) = some ([0, 1], [0, 1]) := by
    decide
  obtain ⟨s, run, ids⟩ := Option.map_eq_some_iff.mp ids
  obtain ⟨completed, accepted⟩ := Prod.mk.inj ids
  refine ⟨s, run, completed, accepted, (requests_completed_in_order twoRequests 0).1 s ?_⟩
  exact Machine.Reaches.run .start _ (fun _ _ => trivial) run

end Usage

end Ruby

import Lab447.Ruby.Demand

/-!
The desk of an L1 that is given its broadcasts with care: each line has at most
one request in the queue or under way, which is the one of the first entry of the
table; a broadcast is the first entry of its line, and it is recorded as long as
it is there.
-/

namespace Ruby

open Script Controller

/-! ### Requests in the queue -/

/-- The requests for a line in a list of messages. -/
def asksIn (ms : List RubyRequest) (a : Addr) : List RubyRequest :=
  ms.filter fun m => !m.isBCDuplicate && decide (m.lineAddress = a)

theorem asksIn_append (ms ms' : List RubyRequest) (a : Addr) :
    asksIn (ms ++ ms') a = asksIn ms a ++ asksIn ms' a := List.filter_append ..

variable {ms : List RubyRequest}

theorem asksIn_perm {ms' : List RubyRequest} (h : ms.Perm ms') (a : Addr) :
    (asksIn ms a).Perm (asksIn ms' a) := h.filter _

theorem asksIn_eq_self {a : Addr} (h : ∀ m ∈ ms, m.isBCDuplicate = false ∧ m.lineAddress = a) :
    asksIn ms a = ms := by
  refine List.filter_eq_self.mpr fun m hm => ?_
  simp [h m hm]

theorem asksIn_eq_nil {a : Addr} (h : ∀ m ∈ ms, m.isBCDuplicate = true ∨ m.lineAddress ≠ a) :
    asksIn ms a = [] := by
  refine List.filter_eq_nil_iff.mpr fun m hm => ?_
  obtain hd | hl := h m hm <;> simp [*]

variable {m : RubyRequest}

theorem asksIn_cons_of_copy (hd : m.isBCDuplicate = true) (ms : List RubyRequest) (a : Addr) :
    asksIn (m :: ms) a = asksIn ms a := by
  simp [asksIn, hd]

/-! ### The invariant of a desk -/

section
variable (cfg : Config)

/-- What is known of the requests in the table; `taken` are the packets that have
been accepted. -/
structure Listed (taken : Packet → Prop) (v : View) : Prop where
  taken : ∀ a, ∀ r ∈ v.requests a, taken r.pkt
  line : ∀ a, ∀ r ∈ v.requests a, makeLineAddress cfg r.pkt.addr = a
  behind : ∀ a, ∀ r ∈ (v.requests a).tail, r.pkt.isBroadcast = false
  broadcast : ∀ a, ∀ r ∈ v.requests a, r.pkt.isBroadcast = true →
    r.pkt.addr = a ∧ r.type.isRead = true ∧ r.secondType = .LD
  record : ∀ a, v.sequencer.bcRecord a = ((v.requests a).head?.map (·.pkt)).filter (·.isBroadcast)

/-- The request of a line that is in the queue: the one of the first entry, unless
it is under way. -/
def owed (pending : Bool) (rs : List SequencerRequest) : List RubyRequestType :=
  if pending then [] else (rs.head?.map (·.secondType)).toList

structure Orderly (taken : Packet → Prop) (pending : Addr → Bool) (v : View) : Prop
    extends Listed cfg taken v where
  asks : ∀ a, ((asksIn v.queue.messages a).map (·.type)).Perm (owed (pending a) (v.requests a))
  busy : ∀ a, pending a = true → v.requests a ≠ []

end

variable {cfg : Config} {taken taken' : Packet → Prop} {pending pending' : Addr → Bool} {v v' : View}
  {a : Addr}

theorem Listed.mono (h : Listed cfg taken v) (sub : ∀ p, taken p → taken' p) :
    Listed cfg taken' v :=
  { h with taken := fun a r hr => sub _ (h.taken a r hr) }

theorem Orderly.mono (h : Orderly cfg taken pending v) (sub : ∀ p, taken p → taken' p) :
    Orderly cfg taken' pending v :=
  { h with toListed := h.toListed.mono sub }

theorem length_owed_le (b : Bool) (rs : List SequencerRequest) : (owed b rs).length ≤ 1 := by
  cases b <;> cases rs <;> simp [owed]

/-- A request in the queue is the only one for its line, and none is under way. -/
theorem Orderly.asked (inv : Orderly cfg taken pending v) (hm : m ∈ v.queue.messages)
    (hd : m.isBCDuplicate = false) :
    asksIn v.queue.messages m.lineAddress = [m] ∧ pending m.lineAddress = false ∧
      ∃ r rest, v.requests m.lineAddress = r :: rest ∧ m.type = r.secondType := by
  have mem : m ∈ asksIn v.queue.messages m.lineAddress :=
    List.mem_filter.mpr ⟨hm, by simp [hd]⟩
  have asks := inv.asks m.lineAddress
  have one : asksIn v.queue.messages m.lineAddress = [m] := by
    have len := asks.length_eq.le.trans (length_owed_le _ _)
    rw [List.length_map] at len
    obtain ⟨m', hm'⟩ := List.length_eq_one_iff.mp
      (Nat.le_antisymm len (List.length_pos_of_mem mem))
    rw [hm'] at mem ⊢
    rw [List.mem_singleton.mp mem]
  rw [one, List.map_singleton, List.singleton_perm] at asks
  unfold owed at asks
  cases hp : pending m.lineAddress with
  | true => simp [hp] at asks
  | false =>
    refine ⟨one, rfl, ?_⟩
    cases hr : v.requests m.lineAddress with
    | nil => simp [hp, hr] at asks
    | cons r rest =>
      refine ⟨r, rest, rfl, ?_⟩
      simpa [hp, hr] using asks

theorem Orderly.none_asked (inv : Orderly cfg taken pending v) (hp : pending a = true) :
    asksIn v.queue.messages a = [] := by
  have asks := inv.asks a
  simpa [owed, hp] using asks

/-- No broadcast is left when the reads at the head are completed. -/
theorem Listed.remaining_plain (inv : Listed cfg taken v) (a : Addr) :
    ∀ r ∈ remaining (v.requests a), r.pkt.isBroadcast = false := by
  intro r hr
  have behind := inv.behind a
  have broadcast := inv.broadcast a
  unfold remaining at hr
  cases hrs : v.requests a with
  | nil => simp [hrs] at hr
  | cons r₀ rest =>
    rw [hrs] at hr behind broadcast
    cases hread : r₀.type.isRead with
    | true =>
      rw [List.dropWhile_cons_of_pos (by exact hread)] at hr
      exact behind r ((List.dropWhile_sublist _).subset hr)
    | false =>
      rw [List.dropWhile_cons_of_neg (by simp [hread])] at hr
      obtain rfl | hr := List.mem_cons.mp hr
      · by_contra hb
        have := (broadcast r (.head rest) (by simpa using hb)).2.1
        rw [hread] at this
        cases this
      · exact behind r hr

theorem mem_reissued {rs : List SequencerRequest} (h : m ∈ reissued cfg rs) :
    ∃ r ∈ rs, m = request cfg r.pkt r.secondType := by
  obtain ⟨r, hr, rfl⟩ := List.mem_map.mp h
  exact ⟨r, List.mem_of_mem_head? (by simpa using hr), rfl⟩

theorem type_reissued (cfg : Config) (rs : List SequencerRequest) :
    (reissued cfg rs).map (·.type) = owed false rs := by
  cases rs <;> rfl

variable {gone : List RubyRequest}

/-- Completing requests of a line leaves the desk in order, if that takes the
request for the line off the queue, or off the network. -/
theorem Orderly.completed {done left : List SequencerRequest} {record : Addr → Option Packet}
    (inv : Orderly cfg taken pending v) (copied : List RubyRequest)
    (h : Completed a done left record (copied ++ reissued cfg left) gone v v')
    (sub : ∀ r ∈ left, r ∈ v.requests a) (plain : ∀ r ∈ left, r.pkt.isBroadcast = false)
    (cleared : record = Function.update v.sequencer.bcRecord a none)
    (copies : ∀ m ∈ copied, m.isBCDuplicate = true) (all : asksIn v.queue.messages a = gone)
    (settled : pending' = Function.update pending a false) : Orderly cfg taken pending' v' := by
  have requests (b : Addr) : v'.requests b = if b = a then left else v.requests b := by
    rw [View.requests, h.table, Function.update_apply]
    rfl
  have from_before (b : Addr) : ∀ r ∈ v'.requests b, r ∈ v.requests b := by
    intro r hr
    rw [requests] at hr
    split at hr
    · rename_i hb
      exact hb ▸ sub r hr
    · exact hr
  have gone_asks : ∀ m ∈ gone, m.isBCDuplicate = false ∧ m.lineAddress = a := by
    intro m hm
    rw [← all] at hm
    simpa using (List.mem_filter.mp hm).2
  have reissued_asks : ∀ m ∈ reissued cfg left, m.isBCDuplicate = false ∧ m.lineAddress = a := by
    intro m hm
    obtain ⟨r, hr, rfl⟩ := mem_reissued hm
    exact ⟨rfl, inv.line a r (sub r hr)⟩
  refine ⟨⟨?_, ?_, ?_, ?_, ?_⟩, ?_, ?_⟩
  · exact fun b r hr => inv.taken b r (from_before b r hr)
  · exact fun b r hr => inv.line b r (from_before b r hr)
  · intro b r hr
    rw [requests] at hr
    split at hr
    · exact plain r (List.mem_of_mem_tail hr)
    · exact inv.behind b r hr
  · exact fun b r hr => inv.broadcast b r (from_before b r hr)
  · intro b
    rw [h.record plain, cleared, requests]
    by_cases hb : b = a
    · subst hb
      rw [Function.update_self, if_pos rfl]
      cases left with
      | nil => rfl
      | cons r rest => simp [plain r (.head rest), Option.filter]
    · rw [Function.update_of_ne hb, if_neg hb]
      exact inv.record b
  · intro b
    have perm := asksIn_perm h.queue b
    rw [asksIn_append, asksIn_append, asksIn_append,
      asksIn_eq_nil fun m hm => .inl (copies m hm), List.nil_append] at perm
    rw [requests, settled]
    by_cases hb : b = a
    · subst hb
      rw [asksIn_eq_self gone_asks, asksIn_eq_self reissued_asks, all] at perm
      have left_perm := (List.perm_append_left_iff gone).mp (perm.trans List.perm_append_comm)
      rw [if_pos rfl, Function.update_self, ← type_reissued cfg]
      exact left_perm.map _
    · rw [asksIn_eq_nil fun m hm => .inr fun hl => hb (hl.symm.trans (gone_asks m hm).2),
        asksIn_eq_nil fun m hm => .inr fun hl => hb (hl.symm.trans (reissued_asks m hm).2),
        List.nil_append, List.nil_append] at perm
      rw [if_neg hb, Function.update_of_ne hb]
      exact (perm.map _).trans (inv.asks b)
  · intro b hb
    rw [settled] at hb
    by_cases hba : b = a
    · subst hba
      simp at hb
    · rw [requests, if_neg hba]
      rw [Function.update_of_ne hba] at hb
      exact inv.busy b hb

theorem dup_of_mem_copies {self : MachineID} {data : DataBlock} {record : Option Packet}
    (h : m ∈ copies cfg self a data record) : m.isBCDuplicate = true := by
  cases record with
  | none => cases h
  | some pkt =>
    obtain ⟨mach, -, rfl⟩ := List.mem_map.mp h
    rfl

theorem Listed.record_none (inv : Listed cfg taken v) {r : SequencerRequest}
    {rest : List SequencerRequest} (hr : v.requests a = r :: rest)
    (other : r.type.isRead = false ∨ r.secondType ≠ .LD) :
    Function.update v.sequencer.bcRecord a none = v.sequencer.bcRecord := by
  have plain : r.pkt.isBroadcast = false := by
    by_contra hb
    obtain ⟨-, hread, hsecond⟩ := inv.broadcast a r (hr ▸ .head rest) (by simpa using hb)
    obtain h | h := other
    · rw [hread] at h
      cases h
    · exact h hsecond
  have absent : v.sequencer.bcRecord a = none := by
    rw [inv.record, hr]
    simp [plain, Option.filter]
  rw [← absent, Function.update_eq_self]

theorem Orderly.loaded (inv : Orderly cfg taken pending v) (h : Loaded cfg a gone v v')
    (all : asksIn v.queue.messages a = gone) (settled : pending' = Function.update pending a false) :
    Orderly cfg taken pending' v' := by
  obtain ⟨-, data, done⟩ := h
  exact inv.completed _ done (fun r hr => (List.dropWhile_sublist _).subset hr)
    (inv.remaining_plain a) rfl (fun m hm => dup_of_mem_copies hm) all settled

theorem Orderly.stored (inv : Orderly cfg taken pending v) (h : Stored a gone v v')
    (all : asksIn v.queue.messages a = gone) (settled : pending' = Function.update pending a false) :
    Orderly cfg taken pending' v' := by
  obtain ⟨⟨r, rest, hr, hread⟩, done⟩ := h
  exact inv.completed [] done (fun r hr => (nomatch hr)) (fun r hr => (nomatch hr))
    (inv.record_none hr (.inl hread)).symm (fun m hm => (nomatch hm)) all settled

/-- Every move keeps the desk in order. -/
theorem Orderly.move (inv : Orderly cfg taken pending v) (h : Move cfg pending pending' v v') :
    Orderly cfg taken pending' v' := by
  have hit {m : RubyRequest} (hm : m ∈ v.queue.messages) (hd : m.isBCDuplicate = false) :
      asksIn v.queue.messages m.lineAddress = [m] ∧
        pending = Function.update pending m.lineAddress false := by
    obtain ⟨one, idle, -⟩ := inv.asked hm hd
    exact ⟨one, by rw [← idle, Function.update_eq_self]⟩
  cases h with
  | shuffled he hq hp =>
    subst he hp
    exact ⟨⟨inv.taken, inv.line, inv.behind, inv.broadcast, inv.record⟩,
      fun b => ((asksIn_perm hq b).map _).trans (inv.asks b), inv.busy⟩
  | @taken m q hd he hq hp =>
    obtain ⟨one, idle, r, rest, hr, -⟩ := inv.asked (hq.subset (.head q.messages)) hd
    subst he
    refine ⟨⟨inv.taken, inv.line, inv.behind, inv.broadcast, inv.record⟩, fun b => ?_, fun b hb => ?_⟩
    · have perm := asksIn_perm hq b
      rw [hp]
      by_cases hb : b = m.lineAddress
      · subst hb
        have mine : asksIn (m :: q.messages) m.lineAddress = m :: asksIn q.messages m.lineAddress := by
          simp [asksIn, hd]
        rw [mine, one, List.perm_singleton, List.cons.injEq] at perm
        simp [owed, perm.2]
      · have other : asksIn (m :: q.messages) b = asksIn q.messages b := by
          simp [asksIn, Ne.symm hb]
        rw [other] at perm
        rw [Function.update_of_ne hb]
        exact (perm.map _).trans (inv.asks b)
    · rw [hp] at hb
      by_cases hba : b = m.lineAddress
      · subst hba
        show v.requests m.lineAddress ≠ []
        simp [hr]
      · rw [Function.update_of_ne hba] at hb
        exact inv.busy b hb
  | answered hd he hq hp =>
    subst he hp
    refine ⟨⟨inv.taken, inv.line, inv.behind, inv.broadcast, inv.record⟩, fun b => ?_, inv.busy⟩
    have perm := asksIn_perm hq b
    rw [asksIn_cons_of_copy hd] at perm
    exact (perm.map _).trans (inv.asks b)
  | loadHit hd hm loaded hp =>
    obtain ⟨one, settled⟩ := hit hm hd
    exact inv.loaded loaded one (hp.trans settled)
  | ifetchHit hd hm ht fetched hp =>
    obtain ⟨one, settled⟩ := hit hm hd
    obtain ⟨-, -, r, rest, hr, hs⟩ := inv.asked hm hd
    have cleared := inv.record_none hr (.inr (by rw [← hs, ht]; simp))
    exact inv.completed [] fetched.2 (fun r hr => (List.dropWhile_sublist _).subset hr)
      (inv.remaining_plain _) cleared.symm (fun m hm => (nomatch hm)) one (hp.trans settled)
  | storeHit hd hm stored hp =>
    obtain ⟨one, settled⟩ := hit hm hd
    exact inv.stored stored one (hp.trans settled)
  | fill busy loaded hp => exact inv.loaded loaded (inv.none_asked busy) hp
  | storeFill busy stored hp => exact inv.stored stored (inv.none_asked busy) hp

/-! ### New requests -/

/-- A broadcast is made only for a whole line that no other request is waiting
for, and as a load. -/
def CarefulRequest (cfg : Config) (c : Controller) (pkt : Packet) : Prop :=
  pkt.isBroadcast = true → c.sequencer.requestTable (makeLineAddress cfg pkt.addr) = [] ∧
    getOffset cfg pkt.addr = 0 ∧ ∃ primary, requestTypes pkt = .ok (primary, .LD)

theorem isRead_of_requestTypes {pkt : Packet} {primary : RubyRequestType}
    (h : requestTypes pkt = .ok (primary, .LD)) : primary.isRead = true := by
  unfold requestTypes at h
  repeat' split at h
  all_goals first | cases h; rfl | cases h

section
variable {c c' : Controller} {pkt : Packet} {primary secondary : RubyRequestType}

/-- The table with a new request. -/
def enlisted (cfg : Config) (pkt : Packet) (primary secondary : RubyRequestType) (c : Controller) :
    Controller :=
  (insertRequest cfg pkt primary secondary c).2

theorem requests_enlisted (b : Addr) : (enlisted cfg pkt primary secondary c).view.requests b =
    if b = makeLineAddress cfg pkt.addr then c.view.requests b ++ [⟨pkt, primary, secondary⟩]
    else c.view.requests b := by
  show Function.update c.sequencer.requestTable _ _ b = _
  rw [Function.update_apply]
  split
  · rename_i hb
    subst hb
    rfl
  · rfl

/-- A request behind others changes nothing else. -/
theorem Orderly.aliased (inv : Orderly cfg taken pending c.view)
    (hrs : c.view.requests (makeLineAddress cfg pkt.addr) ≠ [])
    (plain : pkt.isBroadcast = false) (sub : ∀ p, taken p → taken' p) (new : taken' pkt) :
    Orderly cfg taken' pending (enlisted cfg pkt primary secondary c).view := by
  have split_mem (b : Addr) (r : SequencerRequest)
      (hr : r ∈ (enlisted cfg pkt primary secondary c).view.requests b) :
      r ∈ c.view.requests b ∨ b = makeLineAddress cfg pkt.addr ∧ r.pkt = pkt := by
    rw [requests_enlisted] at hr
    split at hr
    · rename_i hb
      obtain hr | hr := List.mem_append.mp hr
      · exact .inl hr
      · exact .inr ⟨hb, by rw [List.mem_singleton.mp hr]⟩
    · exact .inl hr
  have head (b : Addr) : ((enlisted cfg pkt primary secondary c).view.requests b).head? =
      (c.view.requests b).head? := by
    rw [requests_enlisted]
    split
    · rename_i hb
      subst hb
      rw [List.head?_append_of_ne_nil _ hrs]
    · rfl
  refine ⟨⟨?_, ?_, ?_, ?_, ?_⟩, ?_, ?_⟩
  · intro b r hr
    obtain hr | ⟨-, rfl⟩ := split_mem b r hr
    · exact sub _ (inv.taken b r hr)
    · exact new
  · intro b r hr
    obtain hr | ⟨rfl, hp⟩ := split_mem b r hr
    · exact inv.line b r hr
    · rw [hp]
  · intro b r hr
    rw [requests_enlisted] at hr
    split at hr
    · rename_i hb
      subst hb
      rw [List.tail_append_of_ne_nil hrs] at hr
      obtain hr | hr := List.mem_append.mp hr
      · exact inv.behind _ r hr
      · rw [List.mem_singleton.mp hr]
        exact plain
    · exact inv.behind b r hr
  · intro b r hr hbc
    obtain hr | ⟨-, hp⟩ := split_mem b r hr
    · exact inv.broadcast b r hr hbc
    · rw [hp, plain] at hbc
      cases hbc
  · intro b
    rw [head]
    exact inv.record b
  · intro b
    have asks := inv.asks b
    unfold owed at asks ⊢
    rw [head]
    exact asks
  · intro b hb hn
    have := head b
    rw [hn] at this
    exact inv.busy b hb (List.head?_eq_none_iff.mp this.symm)

/-- A request for a line without requests is issued. -/
theorem Orderly.issued (inv : Orderly cfg taken pending c.view)
    (hrs : c.view.requests (makeLineAddress cfg pkt.addr) = [])
    (careful : CarefulRequest cfg c pkt) (types : requestTypes pkt = .ok (primary, secondary))
    (sub : ∀ p, taken p → taken' p) (new : taken' pkt)
    (h : issueRequest cfg pkt secondary (enlisted cfg pkt primary secondary c) = .ok c') :
    Orderly cfg taken' pending c'.view := by
  obtain ⟨-, queue, seq⟩ := issueRequest_ok h
  have idle : pending (makeLineAddress cfg pkt.addr) = false := by
    by_contra hp
    exact inv.busy _ (by simpa using hp) hrs
  have requests (b : Addr) : c'.view.requests b =
      if b = makeLineAddress cfg pkt.addr then [⟨pkt, primary, secondary⟩] else c.view.requests b := by
    have : c'.view.requests b = (enlisted cfg pkt primary secondary c).view.requests b := by
      show c'.sequencer.requestTable b = _
      rw [seq]
      rfl
    rw [this, requests_enlisted]
    split
    · rename_i hb
      rw [hb, hrs]
      rfl
    · rfl
  have broadcast (hbc : pkt.isBroadcast = true) : pkt.addr = makeLineAddress cfg pkt.addr ∧
      primary.isRead = true ∧ secondary = .LD := by
    obtain ⟨-, aligned, primary', types'⟩ := careful hbc
    cases types.symm.trans types'
    exact ⟨(makeLineAddress_of_getOffset aligned).symm, isRead_of_requestTypes types, rfl⟩
  have split_mem (b : Addr) (r : SequencerRequest) (hr : r ∈ c'.view.requests b) :
      r ∈ c.view.requests b ∨ b = makeLineAddress cfg pkt.addr ∧ r = ⟨pkt, primary, secondary⟩ := by
    rw [requests] at hr
    split at hr
    · rename_i hb
      exact .inr ⟨hb, List.mem_singleton.mp hr⟩
    · exact .inl hr
  refine ⟨⟨?_, ?_, ?_, ?_, ?_⟩, ?_, ?_⟩
  · intro b r hr
    obtain hr | ⟨-, rfl⟩ := split_mem b r hr
    · exact sub _ (inv.taken b r hr)
    · exact new
  · intro b r hr
    obtain hr | ⟨rfl, rfl⟩ := split_mem b r hr
    · exact inv.line b r hr
    · rfl
  · intro b r hr
    rw [requests] at hr
    split at hr
    · cases hr
    · exact inv.behind b r hr
  · intro b r hr hbc
    obtain hr | ⟨rfl, rfl⟩ := split_mem b r hr
    · exact inv.broadcast b r hr hbc
    · exact broadcast hbc
  · intro b
    have record : c'.view.sequencer.bcRecord = if pkt.isBroadcast then
        Function.update c.sequencer.bcRecord pkt.addr (some pkt) else c.sequencer.bcRecord := by
      show c'.sequencer.bcRecord = _
      rw [seq]
      rfl
    have before : c.sequencer.bcRecord b = _ := inv.record b
    rw [record, requests]
    cases hbc : pkt.isBroadcast with
    | true =>
      obtain ⟨line, -⟩ := broadcast hbc
      rw [if_pos rfl, ← line, Function.update_apply]
      split
      · simp [hbc, Option.filter]
      · exact before
    | false =>
      rw [if_neg (by simp)]
      split
      · rename_i hb
        rw [before, hb, hrs]
        simp [hbc, Option.filter]
      · exact before
  · intro b
    have perm : (asksIn c'.view.queue.messages b).Perm
        (asksIn (request cfg pkt secondary :: c.view.queue.messages) b) := by
      show (asksIn c'.mandatoryQueue.messages b).Perm _
      rw [queue]
      exact asksIn_perm (MessageBuffer.messages_enqueue _ _) b
    have asks := inv.asks b
    rw [requests]
    by_cases hb : b = makeLineAddress cfg pkt.addr
    · subst hb
      rw [hrs] at asks
      have none_there : asksIn c.view.queue.messages (makeLineAddress cfg pkt.addr) = [] := by
        simpa [owed, idle] using asks
      have mine : asksIn (request cfg pkt secondary :: c.view.queue.messages)
          (makeLineAddress cfg pkt.addr) = [request cfg pkt secondary] := by
        rw [← List.singleton_append, asksIn_append, none_there]
        simp [asksIn, request]
      rw [mine] at perm
      rw [if_pos rfl, idle]
      exact perm.map _
    · have other : asksIn (request cfg pkt secondary :: c.view.queue.messages) b =
          asksIn c.view.queue.messages b := by
        simp [asksIn, request, Ne.symm hb]
      rw [other] at perm
      rw [if_neg hb]
      exact (perm.map _).trans asks
  · intro b hb
    rw [requests]
    split
    · simp
    · exact inv.busy b hb

end

end Ruby

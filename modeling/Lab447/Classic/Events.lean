import Lab447.Classic.Tracking

/-!
What each event at a crossbar does to the requested masks and the tables.
-/

namespace Classic

open Script

variable {cfg : XBarConfig} {x y : CoherentXBar} {f g : SnoopFilter} {pending : List Pending}
  {port : PortID} {pkt : Packet}

/-! ### Tables -/

/-- The tables go on with some of the pending requests. -/
theorem Tables.sub {left : List Pending} (t : Tables cfg x pending) (sub : ∀ p ∈ left, p ∈ pending)
    (routeTo : ∀ p ∈ left, y.routeTo.lookup p.pkt.req.id = x.routeTo.lookup p.pkt.req.id)
    (snoops : ∀ p ∈ left, p.pkt.req.id ∈ y.outstandingSnoop → p.pkt.req.id ∈ x.outstandingSnoop)
    (snooped : ∀ id ∈ y.outstandingSnoop, y.routeTo.lookup id ≠ none)
    (cmo : ∀ id q, y.outstandingCMO.lookup id = some (some q) →
      x.outstandingCMO.lookup id = some (some q) ∧
        ∀ p ∈ pending, p.pkt.req.id = q.req.id → p ∈ left) : Tables cfg y left where
  distinct p hp q hq := t.distinct p (sub p hp) q (sub q hq)
  routed p hp := (routeTo p hp).trans (t.routed p (sub p hp))
  snooped := snooped
  deferred id q hq := by
    obtain ⟨before, stays⟩ := cmo id q hq
    obtain ⟨unsnooped, p, hp, req, line⟩ := t.deferred id q before
    have mem := stays p hp (by rw [req])
    refine ⟨fun snooped => unsnooped ?_, p, mem, req, line⟩
    rw [← req] at snooped ⊢
    exact snoops p mem snooped
  once id id' q q' hq hq' := t.once id id' q q' (cmo id q hq).1 (cmo id' q' hq').1

/-- One more request, whose answer knows its way back. -/
theorem Tables.add (t : Tables cfg x pending) (fresh : ∀ p ∈ pending, p.pkt.req.id ≠ pkt.req.id)
    (route : x.routeTo.lookup pkt.req.id = some port) : Tables cfg x (⟨port, pkt⟩ :: pending) where
  distinct p hp q hq same := by
    obtain rfl | hp := List.mem_cons.mp hp
    · obtain rfl | hq := List.mem_cons.mp hq
      · rfl
      · exact absurd same.symm (fresh q hq)
    · obtain rfl | hq := List.mem_cons.mp hq
      · exact absurd same (fresh p hp)
      · exact t.distinct p hp q hq same
  routed p hp := by
    obtain rfl | hp := List.mem_cons.mp hp
    · exact route
    · exact t.routed p hp
  snooped := t.snooped
  deferred id q hq := by
    obtain ⟨unsnooped, p, hp, same⟩ := t.deferred id q hq
    exact ⟨unsnooped, p, .tail _ hp, same⟩
  once := t.once

/-- The answer to the request at the head is put off. -/
theorem Tables.defer {id : Nat} (t : Tables cfg x (⟨port, pkt⟩ :: pending)) {q : Packet}
    (fresh : ∀ p ∈ pending, p.pkt.req.id ≠ pkt.req.id)
    (none_ : x.outstandingCMO.lookup id = none)
    (old : ∀ id q, x.outstandingCMO.lookup id = some (some q) →
      ∃ p ∈ pending, p.pkt.req = q.req)
    (unsnooped : pkt.req.id ∉ x.outstandingSnoop) (req : q.req = pkt.req)
    (line : lineKey cfg q = lineKey cfg pkt) :
    Tables cfg { x with outstandingCMO := x.outstandingCMO.insert id (some q) }
      (⟨port, pkt⟩ :: pending) where
  distinct := t.distinct
  routed := t.routed
  snooped := t.snooped
  deferred id' q' hq := by
    by_cases same : id' = id
    · subst same
      rw [Finmap.lookup_insert] at hq
      cases hq
      refine ⟨by rw [req]; exact unsnooped, _, .head _, req.symm, line.symm⟩
    · rw [Finmap.lookup_insert_of_ne _ same] at hq
      exact t.deferred id' q' hq
  once id₁ id₂ q₁ q₂ h₁ h₂ same := by
    have new {id' : Nat} {q' : Packet} (ne : id' ≠ id)
        (h : (x.outstandingCMO.insert id (some q)).lookup id' = some (some q')) :
        q'.req.id ≠ q.req.id := by
      rw [Finmap.lookup_insert_of_ne _ ne] at h
      obtain ⟨p, hp, eq⟩ := old id' q' h
      rw [← eq, req]
      exact fresh p hp
    by_cases same₁ : id₁ = id
    · by_cases same₂ : id₂ = id
      · rw [same₁, same₂]
      · subst same₁
        rw [Finmap.lookup_insert] at h₁
        cases h₁
        exact absurd same.symm (new same₂ h₂)
    · by_cases same₂ : id₂ = id
      · subst same₂
        rw [Finmap.lookup_insert] at h₂
        cases h₂
        exact absurd same (new same₁ h₁)
      · rw [Finmap.lookup_insert_of_ne _ same₁] at h₁
        rw [Finmap.lookup_insert_of_ne _ same₂] at h₂
        exact t.once id₁ id₂ q₁ q₂ h₁ h₂ same

/-! ### A request -/

/-- The packet with other flags. -/
def Flagged (pkt pkt' : Packet) : Prop := ∃ flags, pkt' = { pkt with flags }

variable {pkt' : Packet}

theorem Flagged.lineKey_eq (h : Flagged pkt pkt') : lineKey cfg pkt' = lineKey cfg pkt := by
  obtain ⟨flags, rfl⟩ := h
  rfl

theorem Flagged.cmd_eq (h : Flagged pkt pkt') : pkt'.cmd = pkt.cmd := by
  obtain ⟨flags, rfl⟩ := h
  rfl

theorem Flagged.req_eq (h : Flagged pkt pkt') : pkt'.req = pkt.req := by
  obtain ⟨flags, rfl⟩ := h
  rfl

theorem Flagged.trans {pkt'' : Packet} (h : Flagged pkt pkt') (h' : Flagged pkt' pkt'') :
    Flagged pkt pkt'' := by
  obtain ⟨flags, rfl⟩ := h
  obtain ⟨flags', rfl⟩ := h'
  exact ⟨flags', rfl⟩

/-- The snoops look the request up, and add to its flags. -/
structure Snooped (cfg : XBarConfig) (x : CoherentXBar) (pkt : Packet) (port : PortID)
    (env : Surroundings) (r : Packet × CoherentXBar) : Prop where
  flagged : Flagged pkt r.1
  responding : pkt.flags.cacheResponding = true → r.1.flags.cacheResponding = true
  unanswered : pkt.flags.cacheResponding = false → env.snooped.cacheResponding = false →
    r.1.flags.cacheResponding = false
  tables : ∃ g, r.2 = { x with snoopFilter := g } ∧
    if pkt.cmd = .WriteClean then g = x.snoopFilter
    else SnoopFilter.Looked cfg x.snoopFilter pkt port g

theorem snoopCaches_ends {env : Surroundings}
    (fresh : SnoopFilter.marks cfg pkt port = true →
      port ∉ x.snoopFilter.requested (lineKey cfg pkt)) :
    Ends SnoopFilter.Untracked (Snooped cfg x pkt port env)
      (x.snoopCaches cfg pkt port env.snooped) := by
  unfold CoherentXBar.snoopCaches
  split
  · rename_i clean
    exact ⟨⟨_, rfl⟩, fun h => h, fun h _ => h, x.snoopFilter, rfl, by rw [if_pos clean]⟩
  · rename_i clean
    apply (SnoopFilter.lookupRequest_ends fresh).map
    rintro ⟨dests, g⟩ looked
    have tables : ∃ g', { x with snoopFilter := g } = { x with snoopFilter := g' } ∧
        if pkt.cmd = .WriteClean then g' = x.snoopFilter
        else SnoopFilter.Looked cfg x.snoopFilter pkt port g' := by
      refine ⟨g, rfl, ?_⟩
      rw [if_neg clean]
      exact looked
    simp only []
    unfold forwardTiming
    split_ifs
    · exact ⟨⟨_, rfl⟩, fun h => h, fun h _ => h, tables⟩
    · exact ⟨⟨_, rfl⟩, fun h => h, fun h _ => h, tables⟩
    · exact ⟨⟨_, rfl⟩, fun h => h, fun h _ => h, tables⟩
    · refine ⟨⟨_, rfl⟩, fun h => ?_, fun h hs => ?_, tables⟩
      · simp only [Flags.or, h, Bool.true_or]
      · simp only [Flags.or, h, hs, Bool.or_false]

/-- What is decided about a packet that has been snooped. -/
structure Planned (cfg : XBarConfig) (pkt : Packet) (cacheResponding : Bool) (p : Plan) : Prop where
  flagged : Flagged pkt p.pkt
  expectSnoopResp : p.expectSnoopResp = (!cacheResponding && pkt.flags.cacheResponding)
  forwarded : p.respondDirectly = false →
    p.expectResponse = (pkt.cmd.needsResponse && !pkt.flags.cacheResponding)
  direct : p.respondDirectly = true →
    p.expectResponse = false ∧ p.expectSnoopResp = false ∧ pkt.cmd.needsResponse = true ∧
      (pkt.cmd.isClean = true ∨ pkt.flags.cacheResponding = false)
  clean : pkt.cmd.isClean = true → isDestination cfg p.pkt = true →
    pkt.flags.cacheResponding = false → p.respondDirectly = true

/-- A cache clean request. -/
theorem clean_request {c : MemCmd} (h : c.isClean = true) (hr : c.isRequest = true) :
    c.needsResponse = true ∧ c.isWrite = false ∧ c ≠ .CleanEvict ∧ c ≠ .WritebackClean ∧
      c ≠ .WriteClean := by
  cases c <;> first | decide | exact absurd h (by decide) | exact absurd hr (by decide)

theorem sinkPacket_clean (clean : pkt.cmd.isClean = true) (request : pkt.cmd.isRequest = true)
    (unanswered : pkt.flags.cacheResponding = false) : sinkPacket cfg pkt = false := by
  obtain ⟨needs, -, notEvict, notWriteback, -⟩ := clean_request clean request
  simp [sinkPacket, Packet.isCleanEviction, unanswered, needs, notEvict, notWriteback]

theorem plan_ends {cacheResponding send : Bool} (request : pkt.cmd.isRequest = true) :
    Ends SnoopFilter.Untracked (Planned cfg pkt cacheResponding) (plan cfg pkt cacheResponding send) := by
  unfold plan
  simp only []
  split
  · rename_i sink
    refine ⟨⟨_, rfl⟩, rfl, fun _ => rfl, nofun, fun clean _ unanswered => ?_⟩
    rw [sinkPacket_clean clean request unanswered] at sink
    cases sink
  rename_i sink
  split
  · rename_i forward
    refine ⟨⟨_, rfl⟩, rfl, fun _ => rfl, nofun, fun clean destination _ => ?_⟩
    rw [forwardPacket, if_pos clean] at forward
    have away : isDestination cfg pkt = true := destination
    rw [away] at forward
    cases forward
  rename_i forward
  split
  · exact SnoopFilter.ends_error
  · rename_i expected
    simp only [Bool.or_eq_true, Bool.not_eq_true', not_or, Bool.not_eq_false,
      Bool.not_eq_true] at expected
    refine ⟨⟨_, rfl⟩, rfl, nofun, fun _ => ⟨rfl, expected.2, expected.1, ?_⟩, fun _ _ _ => rfl⟩
    cases clean : pkt.cmd.isClean with
    | true => exact .inl rfl
    | false =>
      -- only the point of coherency answers other requests itself
      right
      simp only [forwardPacket, clean, Bool.false_eq_true, if_false, Bool.or_eq_true, not_or,
        Bool.not_eq_true', Bool.not_eq_false] at forward
      simp only [sinkPacket, forward.2, Bool.true_and, Bool.or_eq_true, not_or,
        Bool.not_eq_true] at sink
      exact sink.1.1.1

/-- The lookup and the call that ends it. -/
theorem finish_ends {sent : Packet} {success : Bool}
    (looked : if pkt.cmd = .WriteClean then g = f else SnoopFilter.Looked cfg f pkt port g)
    (flagged : Flagged pkt sent) :
    Ends SnoopFilter.Untracked
      (fun y => ∃ g', y = { x with snoopFilter := g' } ∧
        SnoopFilter.Requested cfg f (!success) pkt port g')
      (CoherentXBar.finish cfg { x with snoopFilter := g } sent success) := by
  have same : sent.cmd = pkt.cmd := by
    obtain ⟨flags, rfl⟩ := flagged
    rfl
  unfold CoherentXBar.finish
  rw [same]
  split
  · rename_i clean
    rw [if_pos clean] at looked
    refine ⟨g, rfl, fun k => ?_⟩
    have unmarked : SnoopFilter.marks cfg pkt port = false := by
      rw [SnoopFilter.marks, clean]
      simp [MemCmd.needsResponse, MemCmd.testCmdAttrib, MemCmd.attributes]
    simp [unmarked, looked]
  · rename_i clean
    rw [if_neg clean] at looked
    apply (looked.finishRequest_ends flagged.lineKey_eq).map
    exact fun g' requested => ⟨g', rfl, requested⟩

/-! ### Routes -/

variable {req : Nat}

theorem addRoute_ends : Ends SnoopFilter.Untracked
      (fun y => x.routeTo.lookup req = none ∧ y = { x with routeTo := x.routeTo.insert req port })
      (x.addRoute cfg req port) := by
  unfold CoherentXBar.addRoute
  split
  · exact SnoopFilter.ends_error
  · rename_i none_
    simp only []
    split
    · exact SnoopFilter.ends_error
    · exact ⟨not_not.mp none_, rfl⟩

theorem addSnoop_ends : Ends SnoopFilter.Untracked
      (fun y => y = { x with outstandingSnoop := insert req x.outstandingSnoop })
      (x.addSnoop cfg req) := by
  unfold CoherentXBar.addSnoop
  split
  · exact SnoopFilter.ends_error
  · simp only []
    split
    · exact SnoopFilter.ends_error
    · rfl

/-- A route for a request that is not pending yet. -/
theorem Tables.route (t : Tables cfg x pending) (fresh : ∀ p ∈ pending, p.pkt.req.id ≠ req) :
    Tables cfg { x with routeTo := x.routeTo.insert req port } pending := by
  refine t.sub (fun p hp => hp) ?_ (fun p _ h => h) ?_ fun id q hq => ⟨hq, fun p hp _ => hp⟩
  · intro p hp
    exact Finmap.lookup_insert_of_ne _ (fresh p hp)
  · intro id snooped
    by_cases same : id = req
    · subst same
      simp
    · rw [Finmap.lookup_insert_of_ne _ same]
      exact t.snooped id snooped

theorem Tables.snooped_erase (t : Tables cfg x pending) {snoops : Finset Nat}
    (sub : snoops ⊆ x.outstandingSnoop) (gone : req ∉ snoops) :
    ∀ id ∈ snoops, (x.routeTo.erase req).lookup id ≠ none := by
  intro id snooped
  rw [Finmap.lookup_erase_ne]
  · exact t.snooped id (sub snooped)
  · rintro rfl
    exact gone snooped

/-- A snoop for a request that is not pending yet, with its route. -/
theorem Tables.snoop (t : Tables cfg x pending) (fresh : ∀ p ∈ pending, p.pkt.req.id ≠ req) :
    Tables cfg { x with
      outstandingSnoop := insert req x.outstandingSnoop
      routeTo := x.routeTo.insert req port } pending := by
  refine (t.route fresh).sub (fun p hp => hp) (fun p _ => rfl) ?_ ?_
    fun id q hq => ⟨hq, fun p hp _ => hp⟩
  · intro p hp snooped
    obtain same | old := Finset.mem_insert.mp snooped
    · exact absurd same (fresh p hp)
    · exact old
  · intro id snooped
    obtain rfl | old := Finset.mem_insert.mp snooped
    · simp
    · exact (t.route fresh).snooped id old

/-- What the tables and the filter have when the routes of a request are recorded. -/
theorem record_ends {p : Plan} (t : Tables cfg x pending)
    (fresh : ∀ p ∈ pending, p.pkt.req.id ≠ req) (same : p.pkt.req.id = req) :
    Ends SnoopFilter.Untracked
      (fun y => y.snoopFilter = x.snoopFilter ∧ Tables cfg y pending ∧
        ((p.expectResponse || p.expectSnoopResp) = true → y.routeTo.lookup req = some port))
      (x.record cfg p port) := by
  unfold CoherentXBar.record
  rw [same]
  cases hs : p.expectSnoopResp with
  | true =>
    simp only [if_true, Bool.or_true]
    apply addSnoop_ends.bind
    rintro y rfl
    apply addRoute_ends.imp
    rintro z ⟨-, rfl⟩
    exact ⟨rfl, t.snoop fresh, fun _ => Finmap.lookup_insert _⟩
  | false =>
    simp only [Bool.false_eq_true, if_false, Bool.or_false, Except.bind]
    split
    · apply addRoute_ends.imp
      rintro z ⟨-, rfl⟩
      exact ⟨rfl, t.route fresh, fun _ => Finmap.lookup_insert _⟩
    · rename_i none_
      exact ⟨rfl, t, fun h => absurd h none_⟩

/-! ### Answers the crossbar gives itself -/

/-- The request waits for an answer that has to come through the crossbar. -/
def Packet.waits (pkt : Packet) : Bool := pkt.cmd.needsResponse && !pkt.flags.cacheResponding

/-- The pending requests with the one that has just been accepted. -/
def withRequest (pending : List Pending) (port : PortID) (pkt : Packet) : List Pending :=
  if pkt.waits then ⟨port, pkt⟩ :: pending else pending

/-- The requests that wait are those the masks and the tables know. -/
structure Tracked (cfg : XBarConfig) (x : CoherentXBar) (pending : List Pending) : Prop where
  masks : Masks cfg x.snoopFilter pending
  tables : Tables cfg x pending

/-- A request has been sent on, and its route recorded if its answer needs one. -/
structure Sent (cfg : XBarConfig) (x : CoherentXBar) (pending : List Pending) (port : PortID)
    (pkt : Packet) (p : Plan) : Prop where
  masks : Masks cfg x.snoopFilter (withRequest pending port pkt)
  tables : Tables cfg x pending
  fresh : ∀ p ∈ pending, p.pkt.req.id ≠ pkt.req.id
  request : pkt.cmd.isRequest = true
  flagged : Flagged pkt p.pkt
  routed : pkt.waits = true → p.respondDirectly = false →
    x.routeTo.lookup pkt.req.id = some port
  direct : p.respondDirectly = true → pkt.waits = true
  clean : pkt.cmd.isClean = true → isDestination cfg p.pkt = true → p.respondDirectly = true

/-- The answer to a pending request goes out at the port it came from. -/
theorem respond_ends {p : Pending} {rsp : Packet} (masks : Masks cfg x.snoopFilter pending)
    (distinct : ∀ p ∈ pending, ∀ q ∈ pending, p.pkt.req.id = q.pkt.req.id → p = q)
    (hp : p ∈ pending) (hport : p.port = port) (hreq : p.pkt.req = rsp.req)
    (hline : lineKey cfg p.pkt = lineKey cfg rsp) :
    Ends SnoopFilter.Untracked
      (fun o => o.success = true ∧ o.sent = [(port, rsp.makeResponse)] ∧
        Masks cfg o.xbar.snoopFilter (answer pending (port, rsp.makeResponse)) ∧
        ∃ g, o.xbar = { x with snoopFilter := g })
      (x.respond cfg (some (port, rsp))) := by
  have line : lineKey cfg p.pkt = lineKey cfg rsp.makeResponse := hline
  have waiting : tracked cfg rsp.makeResponse port = true → rsp.makeResponse.req.isBroadcast = false →
      port ∈ x.snoopFilter.requested (lineKey cfg rsp.makeResponse) := by
    intro ht _
    refine (masks.tracks _ port).mpr ⟨p, hp, hport, ?_, line⟩
    rw [tracked, hreq]
    exact ht
  unfold CoherentXBar.respond
  simp only []
  split
  · exact SnoopFilter.ends_error
  · apply (SnoopFilter.updateResponse_ends waiting).map
    intro g answered
    exact ⟨rfl, rfl, masks.answer distinct hp hport hreq line answered, g, rfl⟩

namespace Sent

variable {p : Plan}

theorem distinct (h : Sent cfg x pending port pkt p) : ∀ p ∈ withRequest pending port pkt,
    ∀ q ∈ withRequest pending port pkt, p.pkt.req.id = q.pkt.req.id → p = q := by
  unfold withRequest
  split
  · intro p hp q hq same
    obtain rfl | hp := List.mem_cons.mp hp
    · obtain rfl | hq := List.mem_cons.mp hq
      · rfl
      · exact absurd same.symm (h.fresh q hq)
    · obtain rfl | hq := List.mem_cons.mp hq
      · exact absurd same (h.fresh p hp)
      · exact h.tables.distinct p hp q hq same
  · exact h.tables.distinct

/-- The request itself is answered at once, whatever became of the clean operations. -/
theorem answered_ends (h : Sent cfg x pending port pkt p) (direct : p.respondDirectly = true)
    (same : y.snoopFilter = x.snoopFilter) (tables : Tables cfg y pending) :
    Ends SnoopFilter.Untracked
      (fun o => o.success = true ∧
        Tracked cfg o.xbar (o.sent.foldl answer (withRequest pending port pkt)))
      (y.respond cfg (some (port, p.pkt))) := by
  have waits := h.direct direct
  have req : p.pkt.req = pkt.req := h.flagged.req_eq
  have mem : ⟨port, pkt⟩ ∈ withRequest pending port pkt := by
    rw [withRequest, if_pos waits]
    exact .head _
  have masks := h.masks
  rw [← same] at masks
  apply (respond_ends masks h.distinct mem rfl req.symm h.flagged.lineKey_eq.symm).imp
  rintro o ⟨success, sent, masks, g, eq⟩
  have back : answer (withRequest pending port pkt) (port, p.pkt.makeResponse) = pending := by
    rw [withRequest, if_pos waits]
    exact answer_cons_self req h.fresh
  refine ⟨success, ?_⟩
  rw [sent, List.foldl_cons, List.foldl_nil, back]
  rw [back] at masks
  refine ⟨masks, ?_⟩
  rw [eq]
  exact ⟨tables.distinct, tables.routed, tables.snooped, tables.deferred, tables.once⟩

/-- The request waits, or needs no answer. -/
theorem tables_withRequest (h : Sent cfg x pending port pkt p) (forwarded : p.respondDirectly = false) :
    Tables cfg x (withRequest pending port pkt) := by
  unfold withRequest
  split
  · rename_i waits
    exact h.tables.add h.fresh (h.routed waits forwarded)
  · exact h.tables

/-- The write of a cache clean operation answers the request that was put off. -/
theorem deferred_ends (h : Sent cfg x pending port pkt p) (waits : pkt.waits = false)
    {id : Nat} {q : Packet} (hq : x.outstandingCMO.lookup id = some (some q)) {rspPort : PortID}
    (route : x.routeTo.lookup q.req.id = some rspPort) :
    Ends SnoopFilter.Untracked
      (fun o => o.success = true ∧
        Tracked cfg o.xbar (o.sent.foldl answer (withRequest pending port pkt)))
      (CoherentXBar.respond cfg { x with
        outstandingCMO := x.outstandingCMO.erase id
        routeTo := x.routeTo.erase q.req.id } (some (rspPort, q))) := by
  have none_ : withRequest pending port pkt = pending := by rw [withRequest, waits]; rfl
  have masks : Masks cfg (CoherentXBar.snoopFilter { x with
      outstandingCMO := x.outstandingCMO.erase id
      routeTo := x.routeTo.erase q.req.id }) pending := none_ ▸ h.masks
  rw [none_]
  obtain ⟨unsnooped, w, hw, req, line⟩ := h.tables.deferred id q hq
  have wport : w.port = rspPort := by
    have routed := h.tables.routed w hw
    rw [req, route] at routed
    exact (Option.some.inj routed).symm
  refine (respond_ends masks h.tables.distinct hw wport req line).imp ?_
  rintro o ⟨success, sent, masks, g, eq⟩
  refine ⟨success, ?_⟩
  rw [sent, List.foldl_cons, List.foldl_nil]
  refine ⟨masks, ?_⟩
  rw [eq]
  refine h.tables.sub (fun p hp => (mem_answer.mp hp).1) ?_ (fun p _ snooped => snooped) ?_ ?_
  · intro p hp
    exact Finmap.lookup_erase_ne (mem_answer.mp hp).2
  · exact h.tables.snooped_erase (Finset.Subset.refl _) unsnooped
  · intro id' q' hq'
    have ne : id' ≠ id := by
      rintro rfl
      rw [Finmap.lookup_erase] at hq'
      cases hq'
    rw [Finmap.lookup_erase_ne ne] at hq'
    refine ⟨hq', fun p hp same => mem_answer.mpr ⟨hp, fun answered => ne ?_⟩⟩
    exact h.tables.once id' id q' q hq' hq (same.symm.trans answered)

theorem not_waits_of_isWrite (h : Sent cfg x pending port pkt p)
    (clean : (p.pkt.cmd.isClean && p.pkt.flags.satisfied || decide (p.pkt.cmd = .WriteClean)) = true)
    (write : p.pkt.cmd.isWrite = true) : pkt.waits = false := by
  rw [h.flagged.cmd_eq] at clean write
  obtain clean | clean := Bool.or_eq_true _ _ ▸ clean
  · have := (clean_request (Bool.and_eq_true _ _ ▸ clean).1 h.request).2.1
    rw [this] at write
    cases write
  · rw [Packet.waits, of_decide_eq_true clean]
    rfl

theorem direct_of_not_isWrite (h : Sent cfg x pending port pkt p)
    (clean : ((p.pkt.cmd.isClean && p.pkt.flags.satisfied || decide (p.pkt.cmd = .WriteClean)) &&
      isDestination cfg p.pkt) = true)
    (write : p.pkt.cmd.isWrite = false) : p.respondDirectly = true := by
  rw [h.flagged.cmd_eq] at clean write
  simp only [Bool.and_eq_true, Bool.or_eq_true, decide_eq_true_eq] at clean
  obtain ⟨clean | clean, destination⟩ := clean
  · exact h.clean clean.1 destination
  · rw [clean] at write
    cases write

/-- The clean operations that are known are those of other requests. -/
theorem directResponse_ends (h : Sent cfg x pending port pkt p) :
    Ends SnoopFilter.Untracked
      (fun r => Ends SnoopFilter.Untracked
        (fun o => o.success = true ∧
          Tracked cfg o.xbar (o.sent.foldl answer (withRequest pending port pkt)))
        (r.1.respond cfg r.2))
      (x.directResponse cfg p port) := by
  have req : p.pkt.req = pkt.req := h.flagged.req_eq
  unfold CoherentXBar.directResponse
  simp only []
  split
  · rename_i clean
    split
    · rename_i request found
      -- erasing an operation leaves the others
      have erased : Tables cfg { x with outstandingCMO := x.outstandingCMO.erase p.pkt.id } pending := by
        refine h.tables.sub (fun p hp => hp) (fun _ _ => rfl) (fun _ _ h => h) h.tables.snooped ?_
        intro id q hq
        by_cases same : id = p.pkt.id
        · rw [same, Finmap.lookup_erase] at hq
          cases hq
        · rw [Finmap.lookup_erase_ne same] at hq
          exact ⟨hq, fun p hp _ => hp⟩
      split
      · rename_i write
        have waits := h.not_waits_of_isWrite (Bool.and_eq_true _ _ ▸ clean).1 write
        split
        · exact SnoopFilter.ends_error
        · split
          · exact SnoopFilter.ends_error
          · rename_i rspPort route
            split
            · exact SnoopFilter.ends_error
            · exact h.deferred_ends waits found route
      · rename_i write
        exact h.answered_ends (h.direct_of_not_isWrite clean (by simpa using write)) rfl erased
    · rename_i found
      split
      · rename_i write
        have waits := h.not_waits_of_isWrite (Bool.and_eq_true _ _ ▸ clean).1 write
        have none_ : withRequest pending port pkt = pending := by rw [withRequest, waits]; rfl
        refine ⟨rfl, h.masks, ?_⟩
        rw [none_]
        refine h.tables.sub (fun p hp => hp) (fun _ _ => rfl) (fun _ _ h => h) h.tables.snooped ?_
        intro id q hq
        by_cases same : id = p.pkt.id
        · rw [same, Finmap.lookup_insert] at hq
          cases hq
        · rw [Finmap.lookup_insert_of_ne _ same] at hq
          exact ⟨hq, fun p hp _ => hp⟩
      · rename_i write
        have direct := h.direct_of_not_isWrite clean (by simpa using write)
        rw [req]
        apply addRoute_ends.map
        rintro y ⟨none_, rfl⟩
        refine ⟨rfl, h.masks, ?_⟩
        rw [withRequest, if_pos (h.direct direct)]
        have added : Tables cfg { x with routeTo := x.routeTo.insert pkt.req.id port }
            (⟨port, pkt⟩ :: pending) :=
          (h.tables.route h.fresh).add h.fresh (Finmap.lookup_insert _)
        refine added.defer h.fresh found ?_ ?_ req h.flagged.lineKey_eq
        · intro id q hq
          obtain ⟨-, w, hw, eq, -⟩ := h.tables.deferred id q hq
          exact ⟨w, hw, eq⟩
        · exact fun snooped => h.tables.snooped _ snooped none_
  · split
    · rename_i direct
      exact h.answered_ends direct rfl h.tables
    · rename_i forwarded
      exact ⟨rfl, h.masks, h.tables_withRequest (by simpa using forwarded)⟩

end Sent

end Classic

import Lab447.Classic.Events

/-!
The requested masks over whole runs. A broadcast copy is passed to
`updateResponse` for every port it is sent to, whether or not the port has asked for
the line: it takes the port out of the mask, and the port's own request with it.
-/

namespace Classic

open Script

variable {cfg : XBarConfig} {s : Traffic} {port : PortID} {pkt : Packet}

variable {pending : List Pending} {x : CoherentXBar} {g : SnoopFilter}

theorem Tracked.snoopFilter (h : Tracked cfg x pending)
    (same : ∀ k, g.requested k = x.snoopFilter.requested k) :
    Tracked cfg { x with snoopFilter := g } pending where
  masks := ⟨fun key port => by rw [same key]; exact h.masks.tracks key port, h.masks.single⟩
  tables := ⟨h.tables.distinct, h.tables.routed, h.tables.snooped, h.tables.deferred, h.tables.once⟩

theorem Tables.of_snoopFilter (t : Tables cfg x pending) :
    Tables cfg { x with snoopFilter := g } pending :=
  ⟨t.distinct, t.routed, t.snooped, t.deferred, t.once⟩

namespace Traffic

/-! ### Requests -/

/-- The packet that was sent on, with its route. -/
theorem sent_ends {pkt' : Packet} {p : Plan} {env : Surroundings}
    (masks : Masks cfg x.snoopFilter (withRequest pending port pkt)) (tables : Tables cfg x pending)
    (fresh : ∀ p ∈ pending, p.pkt.req.id ≠ pkt.req.id) (request : pkt.cmd.isRequest = true)
    (quiet : pkt.cmd.isClean = true → pkt.flags.cacheResponding = false ∧
      env.snooped.cacheResponding = false) (flagged : Flagged pkt pkt')
    (responding : pkt.flags.cacheResponding = true → pkt'.flags.cacheResponding = true)
    (unanswered : pkt.flags.cacheResponding = false → env.snooped.cacheResponding = false →
      pkt'.flags.cacheResponding = false)
    (express : pkt.flags.expressSnoop = pkt.flags.cacheResponding)
    (planned : Planned cfg pkt' pkt.flags.cacheResponding p) :
    Ends SnoopFilter.Untracked (fun y => Sent cfg y pending port pkt p)
      (if pkt.flags.expressSnoop then .ok x else x.record cfg p port) := by
  have cmd : pkt'.cmd = pkt.cmd := flagged.cmd_eq
  have toPlan : Flagged pkt p.pkt := flagged.trans planned.flagged
  have direct (hd : p.respondDirectly = true) : pkt.waits = true := by
    obtain ⟨-, -, needs, clean⟩ := planned.direct hd
    rw [cmd] at needs clean
    have silent : pkt.flags.cacheResponding = false := by
      obtain clean | silent := clean
      · exact (quiet clean).1
      · cases hc : pkt.flags.cacheResponding with
        | false => rfl
        | true => exact absurd (responding hc) (by rw [silent]; nofun)
    rw [Packet.waits, needs, silent]
    rfl
  have clean (hc : pkt.cmd.isClean = true) (hd : isDestination cfg p.pkt = true) :
      p.respondDirectly = true :=
    planned.clean (cmd ▸ hc) hd (unanswered (quiet hc).1 (quiet hc).2)
  split
  · rename_i snoop
    have silent : pkt.waits = false := by
      rw [Packet.waits, ← express, snoop, Bool.not_true, Bool.and_false]
    refine ⟨masks, tables, fresh, request, toPlan, fun waits => ?_, direct, clean⟩
    rw [silent] at waits
    cases waits
  · have same : p.pkt.req.id = pkt.req.id := by
      obtain ⟨flags, eq⟩ := toPlan
      rw [eq]
    apply (record_ends tables fresh same).imp
    rintro y ⟨filter, tables, route⟩
    refine ⟨by rw [filter]; exact masks, tables, fresh, request, toPlan, ?_, direct, clean⟩
    intro waits forwarded
    apply route
    rw [planned.forwarded forwarded, planned.expectSnoopResp, cmd]
    simp only [Packet.waits, Bool.and_eq_true, Bool.not_eq_true'] at waits
    rw [waits.1, waits.2]
    cases pkt'.flags.cacheResponding <;> rfl

theorem recvTimingReq_ends {env : Surroundings} (h : Tracked cfg s.xbar s.pending)
    (comes : s.Comes cfg port pkt env) :
    Ends SnoopFilter.Untracked (fun t => Tracked cfg t.xbar t.pending)
      ((s.xbar.recvTimingReq cfg pkt port env).map (s.accept port pkt)) := by
  obtain ⟨-, request, fresh, cached, single, quiet⟩ := comes
  -- nothing waits when the packet is refused
  have refused (x : CoherentXBar) (hx : Tracked cfg x s.pending) :
      Tracked cfg (s.accept port pkt ⟨x, false, []⟩).xbar
        (s.accept port pkt ⟨x, false, []⟩).pending := hx
  suffices Ends SnoopFilter.Untracked
      (fun o => Tracked cfg (s.accept port pkt o).xbar (s.accept port pkt o).pending)
      (s.xbar.recvTimingReq cfg pkt port env) from this.map fun o ho => ho
  unfold CoherentXBar.recvTimingReq
  simp only []
  split
  · exact SnoopFilter.ends_error
  rename_i express
  split
  · exact refused s.xbar h
  split
  · exact refused s.xbar h
  apply (snoopCaches_ends fun marks waiting => ?_).bind
  · rintro ⟨pkt', x'⟩ ⟨flagged, responding, unanswered, g, eq, looked⟩
    obtain rfl : x' = { s.xbar with snoopFilter := g } := eq
    have cmd : pkt'.cmd = pkt.cmd := flagged.cmd_eq
    apply (plan_ends (cmd ▸ request)).bind
    intro p planned
    have toPlan : Flagged pkt p.pkt := flagged.trans planned.flagged
    apply (finish_ends looked toPlan).bind
    rintro y ⟨g', rfl, requested⟩
    split
    · rename_i failed
      split
      · exact SnoopFilter.ends_error
      · apply h.snoopFilter
        intro k
        rw [requested k, failed]
        simp
    · rename_i success
      simp only [Bool.not_eq_true', Bool.not_eq_false] at success
      rw [success] at requested
      have masks : Masks cfg g' (withRequest s.pending port pkt) :=
        h.masks.accept cached single requested
      apply (sent_ends (x := { s.xbar with snoopFilter := g' }) masks h.tables.of_snoopFilter fresh
        request quiet flagged responding unanswered (not_not.mp express) planned).bind
      intro z sent
      apply sent.directResponse_ends.bind
      rintro ⟨z', rsp⟩ answered
      apply answered.imp
      rintro o ⟨success, tracked⟩
      have waits : (o.success && pkt.cmd.needsResponse && !pkt.flags.cacheResponding) = pkt.waits := by
        rw [success, Bool.true_and, Packet.waits]
      simp only [accept, waits]
      exact tracked
  · obtain ⟨p, hp, waits⟩ := (h.masks.tracks _ _).mp waiting
    exact single marks p hp waits

/-! ### Responses -/

/-- The pending request is answered, and its route is no longer needed. -/
theorem answered {p : Pending} (rsp : PortID × Packet) {snoops : Finset Nat}
    (h : Tracked cfg x pending) (hp : p ∈ pending) (hport : p.port = rsp.1)
    (hreq : p.pkt.req = rsp.2.req) (hline : lineKey cfg p.pkt = lineKey cfg rsp.2)
    (hg : SnoopFilter.Answered cfg x.snoopFilter rsp.2 rsp.1 g) (sub : snoops ⊆ x.outstandingSnoop)
    (gone : rsp.2.req.id ∉ snoops)
    (other : ∀ id q, x.outstandingCMO.lookup id = some (some q) → q.req.id ≠ rsp.2.req.id) :
    Tracked cfg { x with
      snoopFilter := g
      routeTo := x.routeTo.erase rsp.2.req.id
      outstandingSnoop := snoops } (answer pending rsp) where
  masks := h.masks.answer h.tables.distinct hp hport hreq hline hg
  tables := by
    refine h.tables.sub (fun p hp => (mem_answer.mp hp).1) ?_ (fun p _ snooped => sub snooped) ?_ ?_
    · intro p hp
      exact Finmap.lookup_erase_ne (mem_answer.mp hp).2
    · exact h.tables.snooped_erase sub gone
    · intro id q hq
      refine ⟨hq, fun p hp same => mem_answer.mpr ⟨hp, fun eq => ?_⟩⟩
      exact other id q hq (same.symm.trans eq)

/-- A pending request is in the mask of its line. -/
theorem requested_of_pending {p : Pending} (h : Tracked cfg x pending) (hp : p ∈ pending)
    (hport : p.port = port) (hreq : p.pkt.req = pkt.req)
    (hline : lineKey cfg p.pkt = lineKey cfg pkt) (ht : tracked cfg pkt port = true) :
    port ∈ x.snoopFilter.requested (lineKey cfg pkt) := by
  refine (h.masks.tracks _ port).mpr ⟨p, hp, hport, ?_, hline⟩
  rw [tracked, hreq]
  exact ht

theorem recvTimingResp_ends {layerFree : Bool} (h : Tracked cfg s.xbar s.pending)
    (answers : s.Answers cfg pkt) (unsnooped : pkt.req.id ∉ s.xbar.outstandingSnoop)
    (undeferred : ¬ s.Deferred pkt.req.id) :
    Ends SnoopFilter.Untracked (fun t => Tracked cfg t.xbar t.pending)
      ((s.xbar.recvTimingResp cfg pkt layerFree).map s.settle) := by
  obtain ⟨p, hp, req, line⟩ := answers
  have route := h.tables.routed p hp
  rw [req] at route
  unfold CoherentXBar.recvTimingResp
  rw [route]
  simp only []
  split
  · exact SnoopFilter.ends_error
  split
  · exact h
  · apply Ends.map (P := fun o => Tracked cfg (s.settle o).xbar (s.settle o).pending) _ fun o ho => ho
    have known (ht : tracked cfg pkt p.port = true) (_ : pkt.req.isBroadcast = false) :=
      requested_of_pending h hp rfl req line ht
    apply (SnoopFilter.updateResponse_ends known).map
    intro g hg
    refine answered (p.port, pkt) h hp rfl req line hg (Finset.Subset.refl _) unsnooped ?_
    intro id q hq same
    refine undeferred ⟨id, ?_, q, ?_, same⟩
    · exact Finmap.mem_keys.mpr (Finmap.mem_of_lookup_eq_some hq)
    · rw [hq]
      rfl

theorem recvTimingSnoopReq_ends {memPort : PortID} {snooped : Flags}
    (h : Tracked cfg s.xbar s.pending) :
    Ends SnoopFilter.Untracked (fun t => Tracked cfg t.xbar t.pending)
      ((s.xbar.recvTimingSnoopReq cfg pkt memPort snooped).map fun xbar => { s with xbar }) := by
  suffices Ends SnoopFilter.Untracked (fun x => Tracked cfg x s.pending)
      (s.xbar.recvTimingSnoopReq cfg pkt memPort snooped) from this.map fun x hx => hx
  unfold CoherentXBar.recvTimingSnoopReq
  split
  · exact SnoopFilter.ends_error
  apply SnoopFilter.lookupSnoop_ends.bind
  rintro ⟨dests, g⟩ same
  have kept : Tracked cfg { s.xbar with snoopFilter := g } s.pending :=
    h.snoopFilter fun k => congrFun same k
  simp only []
  split
  · split
    · exact SnoopFilter.ends_error
    · rename_i none_
      refine ⟨kept.masks, kept.tables.route fun p hp eq => none_ ?_⟩
      rw [← eq]
      exact ne_of_eq_of_ne (h.tables.routed p hp) nofun
  · exact kept

/-! ### Snoop responses -/

theorem routeSnoopResp_ends {layerFree : Bool} (h : Tracked cfg s.xbar s.pending)
    (own : pkt.req.id ∈ s.xbar.outstandingSnoop → s.Answers cfg pkt)
    (foreign : pkt.req.id ∉ s.xbar.outstandingSnoop → ∀ p ∈ s.pending, p.pkt.req.id ≠ pkt.req.id) :
    Ends SnoopFilter.Untracked
      (fun o => Tracked cfg (s.settle o).xbar (s.settle o).pending)
      (s.xbar.routeSnoopResp cfg pkt port layerFree) := by
  unfold CoherentXBar.routeSnoopResp
  cases route : s.xbar.routeTo.lookup pkt.req.id with
  | none => exact SnoopFilter.ends_error
  | some dest =>
    simp only []
    split
    · rename_i away
      split
      · exact h
      split
      · exact SnoopFilter.ends_error
      apply SnoopFilter.updateSnoopForward_ends.map
      intro g same
      have kept : Tracked cfg { s.xbar with snoopFilter := g } s.pending :=
        h.snoopFilter fun k => congrFun same k
      refine ⟨kept.masks, kept.tables.sub (fun p hp => hp) ?_ (fun _ _ snooped => snooped) ?_
        fun id q hq => ⟨hq, fun p hp _ => hp⟩⟩
      · exact fun p hp => Finmap.lookup_erase_ne (foreign away p hp)
      · exact h.tables.snooped_erase (Finset.Subset.refl _) away
    · rename_i here
      obtain ⟨p, hp, req, line⟩ := own (not_not.mp here)
      have dest_eq : p.port = dest := by
        have routed := h.tables.routed p hp
        rw [req, route] at routed
        exact (Option.some.inj routed).symm
      split
      · exact SnoopFilter.ends_error
      split
      · exact h
      split
      · exact SnoopFilter.ends_error
      have known (ht : tracked cfg pkt dest = true) :=
        requested_of_pending h hp dest_eq req line ht
      apply (SnoopFilter.updateSnoopResponse_ends known).map
      intro g hg
      refine answered (dest, pkt) h hp dest_eq req line hg (Finset.erase_subset _ _)
        (Finset.notMem_erase _ _) ?_
      intro id q hq same
      exact (h.tables.deferred id q hq).1 (same ▸ not_not.mp here)

/-- A copy takes its ports out of the mask of the line, and nothing else. -/
theorem updateResponse_copy {f : SnoopFilter} {p : PortID} (bc : pkt.req.isBroadcast = true) :
    Ends SnoopFilter.Untracked (SnoopFilter.Answered cfg f pkt p) (f.updateResponse cfg pkt p) :=
  SnoopFilter.updateResponse_ends fun _ not => absurd (bc.symm.trans not) nofun

/-- The requested masks are the sets of ports with a request that has not been answered. -/
def Tracks (cfg : XBarConfig) (s : Traffic) : Prop :=
  ∀ key port, port ∈ s.xbar.snoopFilter.requested key ↔ ∃ p ∈ s.pending, p.Waits cfg port key

/-- No port that is sent a copy has a request of its own for the line. -/
def Careful (cfg : XBarConfig) (s : Traffic) : Event → Prop
  | .recvTimingSnoopResp pkt src _ _ => pkt.broadcastToOther = true →
      ∀ port ∈ CoherentXBar.copyPorts cfg src, tracked cfg pkt port = true →
        ∀ p ∈ s.pending, ¬ p.Waits cfg port (lineKey cfg pkt)
  | _ => True

instance (s : Traffic) : (a : Event) → Decidable (Careful cfg s a)
  | .recvTimingSnoopResp pkt src _ _ => inferInstanceAs (Decidable (pkt.broadcastToOther = true →
      ∀ port ∈ CoherentXBar.copyPorts cfg src, tracked cfg pkt port = true →
        ∀ p ∈ s.pending, ¬ p.Waits cfg port (lineKey cfg pkt)))
  | .recvTimingReq .. | .recvTimingResp .. | .recvTimingSnoopReq .. =>
    inferInstanceAs (Decidable True)

theorem handleBroadcastToOthers_ends {src : PortID} {allocated : PortID → List UInt8}
    (h : Tracked cfg s.xbar s.pending) (bc : pkt.req.isBroadcast = true)
    (careful : ∀ port ∈ CoherentXBar.copyPorts cfg src, tracked cfg pkt port = true →
      ∀ p ∈ s.pending, ¬ p.Waits cfg port (lineKey cfg pkt)) :
    Ends SnoopFilter.Untracked (fun o => Tracked cfg o.xbar s.pending)
      (s.xbar.handleBroadcastToOthers cfg pkt src allocated) := by
  unfold CoherentXBar.handleBroadcastToOthers
  split
  · exact SnoopFilter.ends_error
  have copies : Ends SnoopFilter.Untracked
      (fun f : SnoopFilter => ∀ k, f.requested k = s.xbar.snoopFilter.requested k)
      (Script.run (fun cpuPid f => f.updateResponse cfg pkt cpuPid) (CoherentXBar.copyPorts cfg src)
        s.xbar.snoopFilter) := by
    apply Ends.run (fun _ => rfl)
    intro port mem f same
    apply (updateResponse_copy bc).imp
    intro g answered k
    rw [answered k, same k]
    split
    · rename_i line
      obtain ⟨ht, rfl⟩ := line
      apply Finset.erase_eq_of_notMem
      intro waiting
      obtain ⟨p, hp, waits⟩ := (h.masks.tracks _ _).mp waiting
      exact careful port mem ht p hp waits
    · rfl
  apply copies.map
  exact fun f same => h.snoopFilter same

/-- A copy for a port that waits for the line itself takes its request out of the mask. -/
theorem not_tracks_of_copy {src port : PortID} {allocated : PortID → List UInt8} {o : Outcome}
    {p : Pending} (bc : pkt.req.isBroadcast = true) (mem : port ∈ CoherentXBar.copyPorts cfg src)
    (ht : tracked cfg pkt port = true) (hp : p ∈ s.pending)
    (waits : p.Waits cfg port (lineKey cfg pkt))
    (ho : s.xbar.handleBroadcastToOthers cfg pkt src allocated = .ok o) :
    ¬ Tracks cfg { s with xbar := o.xbar } := by
  unfold CoherentXBar.handleBroadcastToOthers at ho
  split at ho
  · cases ho
  obtain ⟨f, run, rfl⟩ := map_eq_ok.mp ho
  intro tracks
  have stays : port ∈ f.requested (lineKey cfg pkt) := (tracks _ port).mpr ⟨p, hp, waits⟩
  have gone : port ∉ f.requested (lineKey cfg pkt) := by
    apply run_establishes (P := fun f : SnoopFilter => port ∉ f.requested (lineKey cfg pkt))
      (Q := fun _ => True) mem _ _ (fun _ _ _ _ _ _ => trivial) run trivial
    · intro f g _ hg
      rw [(updateResponse_copy bc).ok hg (lineKey cfg pkt), if_pos ⟨ht, rfl⟩]
      exact Finset.notMem_erase _ _
    · intro q _ f g absent hg
      rw [(updateResponse_copy bc).ok hg (lineKey cfg pkt)]
      split
      · exact fun still => absent (Finset.mem_of_mem_erase still)
      · exact absent
  exact gone stays

theorem step_ends (h : Tracked cfg s.xbar s.pending) {a : Event} (careful : Careful cfg s a)
    {e : Except XBarFault Traffic} (he : s.step cfg a = some e) :
    Ends SnoopFilter.Untracked (fun t => Tracked cfg t.xbar t.pending) e := by
  cases a with
  | recvTimingReq port pkt env =>
    obtain ⟨comes, he⟩ := Option.ite_none_right_eq_some.mp he
    cases he
    exact recvTimingReq_ends h comes
  | recvTimingResp pkt layerFree =>
    obtain ⟨⟨answers, unsnooped, undeferred⟩, he⟩ := Option.ite_none_right_eq_some.mp he
    cases he
    exact recvTimingResp_ends h answers unsnooped undeferred
  | recvTimingSnoopReq pkt memPort snooped =>
    cases he
    exact recvTimingSnoopReq_ends h
  | recvTimingSnoopResp pkt port layerFree allocated =>
    obtain ⟨returns, he⟩ := Option.ite_none_right_eq_some.mp he
    cases he
    unfold CoherentXBar.recvTimingSnoopResp
    unfold Returns at returns
    cases copy : pkt.broadcastToOther with
    | true =>
      rw [if_pos copy] at returns
      exact (handleBroadcastToOthers_ends h returns (careful copy)).map fun o ho => ho
    | false =>
      simp only [copy, Bool.false_eq_true, if_false] at returns ⊢
      apply (routeSnoopResp_ends h _ _).map fun o ho => ho
      · intro own
        rw [if_pos own] at returns
        exact returns
      · intro foreign
        rw [if_neg foreign] at returns
        exact returns

theorem requested_empty (key : Nat) : SnoopFilter.empty.requested key = ∅ := by
  rfl

theorem start_tracked : Tracked cfg CoherentXBar.empty [] where
  masks := by
    constructor
    case tracks =>
      intro key port
      change port ∈ SnoopFilter.empty.requested key ↔ _
      simp [requested_empty]
    case single => simp
  tables := by
    constructor
    case distinct => simp
    case routed => simp
    case snooped => exact fun id mem => absurd mem (Finset.notMem_empty id)
    case deferred =>
      intro id q hq
      cases hq
    case once =>
      intro id _ q _ hq
      cases hq

theorem tracked_of_reaches (h : (trafficMachine cfg).Reaches (Careful cfg) s) :
    Tracked cfg s.xbar s.pending := by
  apply h.invariant (I := fun s => Tracked cfg s.xbar s.pending) start_tracked
  intro s a t tracked careful step
  exact step_ends tracked careful step

end Traffic

/-- In every run of careful steps the masks have the ports that wait, the next step keeps
that if and only if it is careful, and a careful step does not end in a panic about them. -/
theorem requested_iff_careful (cfg : XBarConfig) (s : Traffic)
    (h : (trafficMachine cfg).Reaches (Traffic.Careful cfg) s) :
    s.Tracks cfg ∧
      (∀ a t, (trafficMachine cfg).step s a = some (.ok t) →
        (t.Tracks cfg ↔ Traffic.Careful cfg s a)) ∧
      ∀ a f, Traffic.Careful cfg s a → (trafficMachine cfg).step s a = some (.error f) →
        f ≠ .doubleRequest ∧ f ≠ .missingTheOriginalRequest ∧ f ≠ .missingRequestBit := by
  have tracked := Traffic.tracked_of_reaches h
  refine ⟨tracked.masks.tracks, fun a t step => ⟨fun tracks => ?_, fun careful => ?_⟩, ?_⟩
  · cases a with
    | recvTimingSnoopResp pkt src layerFree allocated =>
      intro copy port mem ht p hp waits
      obtain ⟨returns, step⟩ := Option.ite_none_right_eq_some.mp step
      rw [Traffic.Returns, if_pos copy] at returns
      obtain ⟨o, ho, rfl⟩ := map_eq_ok.mp (Option.some.inj step)
      rw [CoherentXBar.recvTimingSnoopResp, if_pos copy] at ho
      rw [if_pos copy] at tracks
      exact Traffic.not_tracks_of_copy returns mem ht hp waits ho tracks
    | recvTimingReq | recvTimingResp | recvTimingSnoopReq => trivial
  · have after : Tracked cfg t.xbar t.pending := Traffic.step_ends tracked careful step
    exact after.masks.tracks
  · intro a f careful step
    exact Traffic.step_ends tracked careful step

/-- Two data caches below a crossbar at the point of coherency. -/
def twoCaches : XBarConfig where
  linesize := 64
  maxEntryCount := 1024
  numCpuSidePorts := 2
  isSnooping _ := true
  takesCopies _ := true
  pointOfCoherency := true
  pointOfUnification := true
  maxOutstandingSnoopCheck := 512
  maxRoutingTableSizeCheck := 512

def readShared (id : Nat) (isBroadcast : Bool) : Packet where
  cmd := .ReadSharedReq
  id := id
  req := { id, isBroadcast }
  addr := 0
  size := 64

/-- Everybody takes what they are sent, and no cache has the line. -/
def undisturbed : Surroundings := ⟨true, true, {}, true⟩

/-- A broadcast read of port 0 is answered, and its copies are sent. -/
def broadcastRead : List Event :=
  [.recvTimingResp (readShared 0 true).makeResponse true,
    .recvTimingSnoopResp (readShared 0 true).makeResponse.setBroadcastToOther 0 true fun _ => []]

theorem requested_iff_careful_alone :
    ∃ s, (trafficMachine twoCaches).Reaches (Traffic.Careful twoCaches) s ∧
      s.xbar.snoopFilter.cachedLocations.lookup 0 = some ⟨∅, {0, 1}⟩ ∧ s.Tracks twoCaches ∧
      (∀ a t, (trafficMachine twoCaches).step s a = some (.ok t) →
        (t.Tracks twoCaches ↔ Traffic.Careful twoCaches s a)) ∧
      ∀ a f, Traffic.Careful twoCaches s a → (trafficMachine twoCaches).step s a = some (.error f) →
        f ≠ .doubleRequest ∧ f ≠ .missingTheOriginalRequest ∧ f ≠ .missingRequestBit := by
  have run : ((trafficMachine twoCaches).runIf (Traffic.Careful twoCaches)
      (trafficMachine twoCaches).start
      (.recvTimingReq 0 (readShared 0 true) undisturbed :: broadcastRead)).any
      (fun s => decide (s.xbar.snoopFilter.cachedLocations.lookup 0 = some ⟨∅, {0, 1}⟩)) = true := by
    decide +kernel
  obtain ⟨s, hs, holders⟩ := (Option.any_eq_true _ _).mp run
  have reaches := Machine.Reaches.start.runIf _ hs
  exact ⟨s, reaches, of_decide_eq_true holders, requested_iff_careful twoCaches s reaches⟩

/-- Port 1 has its own read of the line on the way when the copies of port 0's are sent:
its bit is gone, and the answer to its read ends in the panic. -/
theorem copy_clears_request :
    ∃ s, (trafficMachine twoCaches).run (trafficMachine twoCaches).start
        (.recvTimingReq 0 (readShared 0 true) undisturbed ::
          .recvTimingReq 1 (readShared 1 false) undisturbed :: broadcastRead) = some s ∧
      ¬ s.Tracks twoCaches ∧
      (trafficMachine twoCaches).step s (.recvTimingResp (readShared 1 false).makeResponse true) =
        some (.error .missingRequestBit) := by
  have run : ((trafficMachine twoCaches).run (trafficMachine twoCaches).start
        (.recvTimingReq 0 (readShared 0 true) undisturbed ::
          .recvTimingReq 1 (readShared 1 false) undisturbed :: broadcastRead)).any
      (fun s => decide (1 ∉ s.xbar.snoopFilter.requested 0 ∧
        s.pending = [⟨1, readShared 1 false⟩] ∧
        ((trafficMachine twoCaches).step s (.recvTimingResp (readShared 1 false).makeResponse
          true)).map (Except.map fun _ => ()) = some (.error .missingRequestBit))) = true := by
    decide +kernel
  obtain ⟨s, hs, facts⟩ := (Option.any_eq_true _ _).mp run
  obtain ⟨cleared, pending, failed⟩ := of_decide_eq_true facts
  obtain ⟨e, step, failed⟩ := Option.map_eq_some_iff.mp failed
  rw [Script.map_eq_error.mp failed] at step
  refine ⟨s, hs, fun tracks => cleared ((tracks 0 1).mpr ?_), step⟩
  rw [pending]
  exact ⟨_, .head _, by decide⟩

end Classic

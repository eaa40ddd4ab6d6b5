import Lab447.Pe.Moves

/-!
Every move keeps the phases of the PEs and the network's books. The number of
barriers that are over grows by one when the issuer sends its last packet.
-/

namespace Pe

variable {n : Nat} {cfg : Config n} {issuers : List (Fin n)} {G : Nat} {s t : System n}

/-! ## Phases -/

variable {p : Fin n} {pe : PE n}

/-- No phase depends on the writes that wait for a response, and only an issuer looks at
whether all PEs are ready. -/
theorem Phase.frame {ready lead full full' : Prop} (h : Phase cfg p pe ready lead full)
    (waiting : List (Request n × Nat)) (same : lead → (full ↔ full')) :
    Phase cfg p { pe with waitingRespWrite := waiting } ready lead full' := by
  cases h with
  | idle operate quiet reads writes resps out =>
    exact .idle operate quiet reads writes resps out
  | loading operate sending reads writes out => exact .loading operate sending reads writes out
  | waiting operate quiet reads writes resps out =>
    exact .waiting operate quiet reads writes resps out
  | storing operate sending reads writes resps out =>
    exact .storing operate sending reads writes resps out
  | synced operate quiet reads writes inside follow =>
    exact .synced operate quiet reads writes inside follow
  | leading operate sending quiet reads writes inside first =>
    exact .leading operate (fun full => sending ((same first).mpr full))
      (fun missing => quiet (mt (same first).mp missing)) reads writes inside first
  | done operate quiet reads writes resps out finished =>
    exact .done operate quiet reads writes resps out finished

/-- A ready PE that does not lead waits for the packets of the issuer. -/
theorem Phase.ready {ready lead full : Prop} (h : Phase cfg p pe ready lead full) (hr : ready)
    (hl : ¬ lead) :
    pe.operateNextEvent = none ∧ pe.Quiet ∧ pe.waitingSendRead = [] ∧
      pe.waitingSendWrite = [] := by
  obtain ⟨operate, writes, ⟨-, quiet, reads⟩ | ⟨first, -⟩⟩ := h.inside hr
  · exact ⟨operate, quiet, reads, writes⟩
  · exact absurd first hl

/-- A PE at the end of its list has passed all barriers. -/
theorem Control.ended (h : Control cfg issuers G s) (hm : Matched cfg issuers)
    (all : (s.pe p).trafficList.length ≤ (s.pe p).curTraffic) (out : p ∉ s.rdySyncList) :
    G = issuers.length := by
  have hcount := h.count p
  have hcur : (s.pe p).curTraffic = (cfg.traffic p).length :=
    Nat.le_antisymm (h.bound p) (h.traffic p ▸ all)
  rw [hcur, hm.total p] at hcount
  simpa [out] using hcount.symm

/-- A move of one PE that leaves the barrier alone. -/
theorem Control.update (h : Control cfg issuers G s) (hpe : t.pe = Function.update s.pe p pe)
    (ready : t.rdySyncList = s.rdySyncList) (issuer : t.broadcastIssuer = s.broadcastIssuer)
    (listed : ∀ q, q ∉ t.peList → q ∉ s.peList ∨ G = issuers.length)
    (traffic : pe.trafficList = (s.pe p).trafficList)
    (bound : pe.curTraffic ≤ (cfg.traffic p).length) (count : passed (cfg.traffic p) pe.curTraffic =
      passed (cfg.traffic p) (s.pe p).curTraffic)
    (phase : Phase cfg p pe (p ∈ s.rdySyncList) (issuers[G]? = some p)
      (s.rdySyncList = Finset.univ)) : Control cfg issuers G t := by
  have self : t.pe p = pe := by rw [hpe, Function.update_self]
  have others : ∀ q, q ≠ p → t.pe q = s.pe q := fun q hq => by
    rw [hpe, Function.update_of_ne hq]
  refine ⟨?_, ?_, ?_, ?_, ?_, ?_⟩
  · intro q
    by_cases hq : q = p
    · subst hq
      rw [self, traffic, h.traffic]
    · rw [others q hq, h.traffic]
  · intro q
    by_cases hq : q = p
    · subst hq
      rwa [self]
    · rw [others q hq]
      exact h.bound q
  · intro q
    rw [ready]
    by_cases hq : q = p
    · subst hq
      rw [self, count, h.count]
    · rw [others q hq, h.count]
  · intro q
    rw [ready, issuer]
    exact h.issuer q
  · intro q hq
    exact (listed q hq).elim (h.listed q) id
  · intro q
    rw [ready]
    by_cases hq : q = p
    · subst hq
      rwa [self]
    · rw [others q hq]
      exact h.phase q

variable {u : Traffic}

/-- A PE becomes ready. The issuer learns of the last one. -/
theorem Control.enter (h : Control cfg issuers G s)
    (entry : (cfg.traffic p)[(s.pe p).curTraffic]? = some u) (barrier : u.isBarrier = true)
    (out : p ∉ s.rdySyncList) (hr : t.rdySyncList = insert p s.rdySyncList)
    (listed : t.peList = s.peList) (issuer : ∀ q, t.broadcastIssuer = some q ↔
      q ∈ insert p s.rdySyncList ∧ issuers[G]? = some q)
    (traffic : ∀ q, (t.pe q).trafficList = (s.pe q).trafficList)
    (next : (t.pe p).curTraffic = (s.pe p).curTraffic + 1)
    (others : ∀ q, q ≠ p → (t.pe q).curTraffic = (s.pe q).curTraffic)
    (phase : ∀ q, Phase cfg q (t.pe q) (q ∈ insert p s.rdySyncList) (issuers[G]? = some q)
      (insert p s.rdySyncList = Finset.univ)) : Control cfg issuers G t := by
  refine ⟨?_, ?_, ?_, ?_, ?_, ?_⟩
  · intro q
    rw [traffic, h.traffic]
  · intro q
    by_cases hq : q = p
    · subst hq
      rw [next]
      exact (List.getElem?_eq_some_iff.mp entry).1
    · rw [others q hq]
      exact h.bound q
  · intro q
    rw [hr]
    by_cases hq : q = p
    · subst hq
      have hcount := h.count q
      rw [if_neg out] at hcount
      rw [next, passed_succ entry, hcount]
      simp [barrier]
    · rw [others q hq, h.count]
      simp [hq]
  · rw [hr]
    exact issuer
  · rw [listed]
    exact h.listed
  · rw [hr]
    exact phase

/-- `finish` at most takes the PE out of `pe_list`. -/
theorem finish_cases (s : System n) (p : Fin n) :
    finish s p = s ∨ finish s p = s.erase p ∧ (s.pe p).drained = true ∧ s.noBarrier = true ∧
      (s.pe p).trafficList.length ≤ (s.pe p).curTraffic := by
  unfold finish
  split
  · rename_i h
    simp only [Bool.and_eq_true, decide_eq_true_eq] at h
    exact .inr ⟨rfl, h.1.1, h.1.2, h.2⟩
  · exact .inl rfl

theorem noBarrier_iff (s : System n) :
    s.noBarrier = true ↔ s.broadcastIssuer = none ∧ s.rdySyncList = ∅ := by
  simp [System.noBarrier]

theorem Control.erase (h : Control cfg issuers G s) (ended : G = issuers.length) :
    Control cfg issuers G (s.erase p) :=
  ⟨h.traffic, h.bound, h.count, h.issuer, fun _ _ => ended, h.phase⟩

theorem Control.finish (h : Control cfg issuers G s) (hm : Matched cfg issuers) (p : Fin n) :
    Control cfg issuers G (finish s p) := by
  rcases finish_cases s p with he | ⟨he, -, ended, all⟩
  · rwa [he]
  · rw [he]
    have out : p ∉ s.rdySyncList := by simp [((noBarrier_iff s).mp ended).2]
    exact h.erase (h.ended hm all out)

/-! ## Moves -/

theorem PE.Quiet.sending (h : pe.Quiet) (when : Nat) (pe' : PE n)
    (scheduled : pe'.scheduleReqEvent = some when) (refused : pe'.refused = pe.refused) :
    pe'.Sending := by
  simp [PE.Sending, scheduled, refused, h.2]

variable {event : Option Nat}

/-- After its last packet but one, a sender has the next send scheduled. -/
theorem sending_of_event (calm : pe.refused = false) (scheduled : pe.scheduleReqEvent = event)
    (some : event.isSome = true) : pe.Sending := by
  rw [PE.Sending, scheduled, some, calm]
  rfl

theorem quiet_of_event (calm : pe.refused = false) (scheduled : pe.scheduleReqEvent = event)
    (none : ¬ event.isSome = true) : pe.Quiet :=
  ⟨by simpa [scheduled] using none, calm⟩

/-- An entry that is no barrier has been started. -/
theorem Control.advance (h : Control cfg issuers G s)
    (entry : (cfg.traffic p)[(s.pe p).curTraffic]? = some u) (single : u.isBarrier = false)
    (hpe : t.pe = Function.update s.pe p pe) (ready : t.rdySyncList = s.rdySyncList)
    (issuer : t.broadcastIssuer = s.broadcastIssuer) (listed : t.peList = s.peList)
    (traffic : pe.trafficList = (s.pe p).trafficList)
    (next : pe.curTraffic = (s.pe p).curTraffic + 1)
    (phase : Phase cfg p pe (p ∈ s.rdySyncList) (issuers[G]? = some p)
      (s.rdySyncList = Finset.univ)) : Control cfg issuers G t := by
  refine h.update hpe ready issuer (fun q hq => .inl (listed ▸ hq)) traffic ?_ ?_ phase
  · rw [next]
    exact (List.getElem?_eq_some_iff.mp entry).1
  · rw [next, passed_succ entry]
    simp [single]

/-- A PE whose place in its list does not change. -/
theorem Control.keep (h : Control cfg issuers G s) (hpe : t.pe = Function.update s.pe p pe)
    (ready : t.rdySyncList = s.rdySyncList) (issuer : t.broadcastIssuer = s.broadcastIssuer)
    (listed : t.peList = s.peList) (traffic : pe.trafficList = (s.pe p).trafficList)
    (cur : pe.curTraffic = (s.pe p).curTraffic)
    (phase : Phase cfg p pe (p ∈ s.rdySyncList) (issuers[G]? = some p)
      (s.rdySyncList = Finset.univ)) : Control cfg issuers G t :=
  h.update hpe ready issuer (fun _ hq => .inl (listed ▸ hq)) traffic (cur ▸ h.bound p)
    (by rw [cur]) phase

/-- A PE that does not lead leaves the issuer as it is when it becomes ready. -/
theorem Control.issuer_insert (h : Control cfg issuers G s) (follow : issuers[G]? ≠ some p)
    (q : Fin n) :
    s.broadcastIssuer = some q ↔ q ∈ insert p s.rdySyncList ∧ issuers[G]? = some q := by
  rw [h.issuer q]
  constructor
  · exact fun ⟨hq, first⟩ => ⟨Finset.mem_insert_of_mem hq, first⟩
  · rintro ⟨hq, first⟩
    exact ⟨Finset.mem_of_mem_insert_of_ne hq (fun he => follow (he ▸ first)), first⟩

/-- The phase of a PE other than the one that becomes ready. -/
theorem Control.phase_insert (h : Control cfg issuers G s) {q : Fin n} (hq : q ≠ p)
    (out : p ∉ s.rdySyncList) (hl : issuers[G]? = some q → insert p s.rdySyncList ≠ Finset.univ) :
    Phase cfg q (s.pe q) (q ∈ insert p s.rdySyncList) (issuers[G]? = some q)
      (insert p s.rdySyncList = Finset.univ) := by
  have missing : s.rdySyncList ≠ Finset.univ := fun he => out (he ▸ Finset.mem_univ p)
  have hp := h.phase q
  rw [Finset.mem_insert, or_iff_right hq]
  by_cases first : issuers[G]? = some q
  · simpa [hl first, missing] using hp
  · exact hp.frame (s.pe q).waitingRespWrite fun lead => absurd lead first

theorem sync_control (hc : Control cfg issuers G s) (hm : Matched cfg issuers) (idle : Idle s p)
    (entry : (cfg.traffic p)[(s.pe p).curTraffic]? = some u) (kind : u.type = .sync)
    (missing : insert p s.rdySyncList ≠ Finset.univ) :
    Control cfg issuers G { (s.set p (s.pe p).started).record
      (.operate p (s.pe p).curTraffic []) with rdySyncList := insert p s.rdySyncList } := by
  have barrier : u.isBarrier = true := by simp [Traffic.isBarrier, kind]
  have follow : issuers[G]? ≠ some p := by
    have := (hc.current hm entry barrier idle.out).2
    simpa [kind] using this
  have others : ∀ q, q ≠ p → (s.set p (s.pe p).started).pe q = s.pe q :=
    fun q hq => System.set_pe_of_ne s _ hq
  refine hc.enter entry barrier idle.out rfl rfl (hc.issuer_insert follow) ?_
    (by simp [System.record, PE.started]) ?_ ?_
  · intro q
    by_cases hq : q = p
    · subst hq
      simp [System.record, PE.started]
    · simp [System.record, others q hq]
  · intro q hq
    simp [System.record, others q hq]
  · intro q
    by_cases hq : q = p
    · subst hq
      simp only [System.record, System.set_pe_self]
      exact .synced rfl idle.quiet idle.reads idle.writes (Finset.mem_insert_self ..) follow
    · simp only [System.record, others q hq]
      exact hc.phase_insert hq idle.out fun _ => missing

/-- The last PE becomes ready, and the issuer may send. -/
theorem syncLast_control (hc : Control cfg issuers G s) (hm : Matched cfg issuers) {q : Fin n}
    (when : Nat) (idle : Idle s p) (entry : (cfg.traffic p)[(s.pe p).curTraffic]? = some u)
    (kind : u.type = .sync) (full : insert p s.rdySyncList = Finset.univ) (other : q ≠ p)
    (issuer : s.broadcastIssuer = some q) :
    Control cfg issuers G { ((s.set q { s.pe q with scheduleReqEvent := some when }).set p
      (s.pe p).started).record (.operate p (s.pe p).curTraffic []) with
        rdySyncList := insert p s.rdySyncList } := by
  have barrier : u.isBarrier = true := by simp [Traffic.isBarrier, kind]
  have follow : issuers[G]? ≠ some p := by
    have := (hc.current hm entry barrier idle.out).2
    simpa [kind] using this
  obtain ⟨ready, first⟩ := (hc.issuer q).mp issuer
  have missing : s.rdySyncList ≠ Finset.univ := fun h => idle.out (h ▸ Finset.mem_univ p)
  have self : ((s.set q { s.pe q with scheduleReqEvent := some when }).set p
      (s.pe p).started).pe q = { s.pe q with scheduleReqEvent := some when } := by
    rw [System.set_pe_of_ne _ _ other, System.set_pe_self]
  have others : ∀ v, v ≠ p → v ≠ q →
      ((s.set q { s.pe q with scheduleReqEvent := some when }).set p
        (s.pe p).started).pe v = s.pe v := fun v hp hq => by
    rw [System.set_pe_of_ne _ _ hp, System.set_pe_of_ne _ _ hq]
  refine hc.enter entry barrier idle.out rfl rfl (hc.issuer_insert follow) ?_
    (by simp [System.record, PE.started]) ?_ ?_
  · intro v
    by_cases hp : v = p
    · subst hp
      simp [System.record, PE.started]
    by_cases hq : v = q
    · subst hq
      simp [System.record, self]
    · simp [System.record, others v hp hq]
  · intro v hp
    by_cases hq : v = q
    · subst hq
      simp [System.record, self]
    · simp [System.record, others v hp hq]
  · intro v
    by_cases hp : v = p
    · subst hp
      simp only [System.record, System.set_pe_self]
      exact .synced rfl idle.quiet idle.reads idle.writes (Finset.mem_insert_self ..) follow
    by_cases hq : v = q
    · subst hq
      simp only [System.record, self]
      -- the issuer was waiting for this PE with its packets queued
      obtain ⟨operate, writes, ⟨follow, -⟩ | ⟨-, quiet, reads⟩⟩ := (hc.phase v).inside ready
      · exact absurd first follow
      · exact .leading operate (fun _ => (quiet missing).sending when _ rfl rfl)
          (fun h => absurd full h) reads writes (Finset.mem_insert_of_mem ready) first
    · simp only [System.record, others v hp hq]
      refine hc.phase_insert hp idle.out fun hv => ?_
      exact absurd (Option.some.inj (hv.symm.trans first)) hq

theorem lead_control (hc : Control cfg issuers G s) (hm : Matched cfg issuers) (hs : Sendable cfg)
    (idle : Idle s p) (entry : (cfg.traffic p)[(s.pe p).curTraffic]? = some u)
    (kind : u.type = .read) (all : u.response = .broadcast) (event : Option Nat)
    (full : event.isSome = true ↔ insert p s.rdySyncList = Finset.univ)
    (hpe : pe = { (s.pe p).started with
      scheduleReqEvent := event
      created := (s.pe p).created + lineCount cfg.cacheLineSize u
      waitingSendRead :=
        (makeRequests cfg.cacheLineSize p (s.pe p).created u).map .packet })
    (reqs : List (Request n)) :
    Control cfg issuers G { (s.set p pe).record (.operate p (s.pe p).curTraffic reqs) with
      rdySyncList := insert p s.rdySyncList, broadcastIssuer := some p } := by
  have barrier : u.isBarrier = true := by
    simp [Traffic.isBarrier, Traffic.isBroadcast, kind, all]
  have first : issuers[G]? = some p := (hc.current hm entry barrier idle.out).2.mp kind
  have others : ∀ q, q ≠ p → (s.set p pe).pe q = s.pe q :=
    fun q hq => System.set_pe_of_ne s _ hq
  have reads := hs.sends (List.mem_of_getElem? entry) (.inl kind) (s.pe p).created
  simp only [kind, all, decide_true] at reads
  refine hc.enter entry barrier idle.out rfl rfl ?_ ?_ (by simp [System.record, hpe, PE.started])
    ?_ ?_
  · intro q
    simp only [first, Option.some.injEq]
    constructor
    · rintro rfl
      exact ⟨Finset.mem_insert_self .., rfl⟩
    · exact fun h => h.2
  · intro q
    by_cases hq : q = p
    · subst hq
      simp [System.record, hpe, PE.started]
    · simp [System.record, others q hq]
  · intro q hq
    simp [System.record, others q hq]
  · intro q
    by_cases hq : q = p
    · subst hq
      simp only [System.record, System.set_pe_self, hpe]
      exact .leading rfl (fun h => sending_of_event idle.quiet.2 rfl (full.mpr h))
        (fun h => quiet_of_event idle.quiet.2 rfl (mt full.mp h)) reads idle.writes
        (Finset.mem_insert_self ..) first
    · simp only [System.record, others q hq]
      refine hc.phase_insert hq idle.out fun hv => ?_
      exact absurd (Option.some.inj (hv.symm.trans first)) hq

theorem PE.Quiet.not_sending (h : pe.Quiet) : ¬ pe.Sending := by
  simp [PE.Sending, h.1, h.2]

/-- A sender stays in its phase when its packet is refused or retried. -/
theorem Phase.resend {ready lead full : Prop} (h : Phase cfg p pe ready lead full)
    (sending : pe.Sending) {b : Bool} {tick : Nat} (again : PE.Sending { pe with
      scheduleReqEvent := event, refused := b, retryPktTick := tick }) :
    Phase cfg p { pe with scheduleReqEvent := event, refused := b, retryPktTick := tick }
      ready lead full := by
  cases h with
  | idle _ quiet => exact absurd sending quiet.not_sending
  | loading operate _ reads writes out => exact .loading operate again reads writes out
  | waiting _ quiet => exact absurd sending quiet.not_sending
  | storing operate _ reads writes resps out =>
    exact .storing operate again reads writes resps out
  | synced _ quiet => exact absurd sending quiet.not_sending
  | leading operate _ quiet reads writes inside first =>
    exact .leading operate (fun _ => again)
      (fun missing => absurd sending (quiet missing).not_sending) reads writes inside first
  | done _ quiet => exact absurd sending quiet.not_sending

/-- A read response arrives: the PE goes on once it was the last one. -/
theorem Phase.respRead {ready lead full : Prop} (h : Phase cfg p pe ready lead full)
    (resps : pe.waitingRespRead ≠ []) (left : List (Request n × Nat))
    (wake : event.isSome = true ↔ pe.waitingSendRead = [] ∧ left = [] ∧ ¬ ready) :
    Phase cfg p { pe with operateNextEvent := event, waitingRespRead := left }
      ready lead full := by
  have asleep : ¬ (pe.waitingSendRead = [] ∧ left = [] ∧ ¬ ready) → event = none := fun hw => by
    simpa using mt wake.mp hw
  cases h with
  | idle _ _ _ _ none => exact absurd none resps
  | loading _ sending reads writes out =>
    exact .loading (asleep fun hw => reads.ne_nil hw.1) sending reads writes out
  | waiting _ quiet reads writes _ out =>
    by_cases hl : left = []
    · exact .idle (wake.mpr ⟨reads, hl, out⟩) quiet reads writes hl out
    · exact .waiting (asleep fun hw => hl hw.2.1) quiet reads writes hl out
  | storing _ _ _ _ none => exact absurd none resps
  | synced _ quiet reads writes inside follow =>
    exact .synced (asleep fun hw => hw.2.2 inside) quiet reads writes inside follow
  | leading _ sending quiet reads writes inside first =>
    exact .leading (asleep fun hw => hw.2.2 inside) sending quiet reads writes inside first
  | done _ _ _ _ none => exact absurd none resps

/-- A packet of the broadcast is sent; with the last one the barrier is over and
all PEs wait for their responses. -/
theorem sendAll_control (hc : Control cfg issuers G s) {r : Request n} {rest : List (PacketPtr n)}
    (event : Option Nat) (front : (s.pe p).waitingSendRead = .packet r :: rest)
    (other : (s.pe p).waitingSendWrite = [])
    (reads : Sends cfg p (s.pe p).created true true (s.pe p).waitingSendRead)
    (calm : (s.pe p).refused = false) (more : event.isSome = true ↔ rest ≠ [])
    (full : s.rdySyncList = Finset.univ) (issuer : s.broadcastIssuer = some p)
    (hpe : t.pe = fun q =>
      let pe := (s.set p { s.pe p with
        scheduleReqEvent := event, retryPktTick := 0, waitingSendRead := rest }).pe q
      { pe with waitingRespRead := setResp pe.waitingRespRead r s.curTick })
    (listed : t.peList = s.peList) (hi : t.broadcastIssuer = if rest = [] then none else some p)
    (hr : t.rdySyncList = if rest = [] then ∅ else s.rdySyncList) :
    ∃ G', Control cfg issuers G' t := by
  have ready : ∀ q, q ∈ s.rdySyncList := fun q => full ▸ Finset.mem_univ q
  have first := ((hc.issuer p).mp issuer).2
  have hG := (List.getElem?_eq_some_iff.mp first).1
  have operate := ((hc.phase p).inside (ready p)).1
  have follow : ∀ q, q ≠ p → issuers[G]? ≠ some q := fun q hq h =>
    hq (Option.some.inj (h.symm.trans first))
  have self : t.pe p = { s.pe p with
      scheduleReqEvent := event, retryPktTick := 0, waitingSendRead := rest
      waitingRespRead := setResp (s.pe p).waitingRespRead r s.curTick } := by
    simp [hpe]
  have others : ∀ q, q ≠ p → t.pe q =
      { s.pe q with waitingRespRead := setResp (s.pe q).waitingRespRead r s.curTick } :=
    fun q hq => by simp [hpe, System.set_pe_of_ne s _ hq]
  have traffic : ∀ q, (t.pe q).trafficList = cfg.traffic q := fun q => by
    rw [← hc.traffic q]
    by_cases hq : q = p
    · subst hq
      rw [self]
    · rw [others q hq]
  have cur : ∀ q, (t.pe q).curTraffic = (s.pe q).curTraffic := fun q => by
    by_cases hq : q = p
    · subst hq
      rw [self]
    · rw [others q hq]
  have count : ∀ q, passed (cfg.traffic q) (t.pe q).curTraffic = G + 1 := fun q => by
    rw [cur, hc.count, if_pos (ready q)]
  have left := (front ▸ reads).pop.2.2
  by_cases hrest : rest = []
  · rw [if_pos hrest] at hi hr
    refine ⟨G + 1, traffic, fun q => cur q ▸ hc.bound q, ?_, ?_, ?_, ?_⟩
    · intro q
      simp [count q, hr]
    · simp [hi, hr]
    · intro q hq
      have := hc.listed q (listed ▸ hq)
      omega
    · intro q
      have out : q ∉ t.rdySyncList := by simp [hr]
      by_cases hq : q = p
      · subst hq
        rw [self]
        exact .waiting operate (quiet_of_event calm rfl (by simp [more, hrest])) hrest other
          (by simp) out
      · obtain ⟨operate, quiet, reads, writes⟩ := (hc.phase q).ready (ready q) (follow q hq)
        rw [others q hq]
        exact .waiting operate quiet reads writes (by simp) out
  · rw [if_neg hrest] at hi hr
    refine ⟨G, traffic, fun q => cur q ▸ hc.bound q, ?_, ?_, listed ▸ hc.listed, ?_⟩
    · intro q
      rw [count q, hr, if_pos (ready q)]
    · intro q
      rw [hi, hr, ← issuer]
      exact hc.issuer q
    · intro q
      rw [hr]
      by_cases hq : q = p
      · subst hq
        rw [self]
        exact .leading operate (fun _ => sending_of_event calm rfl (more.mpr hrest))
          (fun h => absurd full h) (left hrest) other (ready q) first
      · obtain ⟨operate, quiet, reads, writes⟩ := (hc.phase q).ready (ready q) (follow q hq)
        rw [others q hq]
        exact .synced operate quiet reads writes (ready q) (follow q hq)

/-- Every move leads to a control state again. -/
theorem move_control (hc : Control cfg issuers G s) (hn : Net s) (hm : Matched cfg issuers)
    (hs : Sendable cfg) {a : Action n} (h : Move cfg s a t) : ∃ G', Control cfg issuers G' t := by
  cases h with
  | wait ticks => exact ⟨G, hc.traffic, hc.bound, hc.count, hc.issuer, hc.listed, hc.phase⟩
  | rest idle all =>
    exact ⟨G, hc.keep rfl rfl rfl rfl rfl rfl
      (.done rfl idle.quiet idle.reads idle.writes idle.resps idle.out all)⟩
  | leave idle all =>
    refine ⟨G, Control.erase ?_ (hc.ended hm all idle.out)⟩
    exact hc.keep rfl rfl rfl rfl rfl rfl
      (.done rfl idle.quiet idle.reads idle.writes idle.resps idle.out all)
  | compute when idle entry kind =>
    exact ⟨G, hc.advance entry (by simp [Traffic.isBarrier, Traffic.isBroadcast, kind])
      rfl rfl rfl rfl rfl rfl
      (.idle rfl idle.quiet idle.reads idle.writes idle.resps idle.out)⟩
  | @load p u when idle entry kind single =>
    have reads := hs.sends (List.mem_of_getElem? entry) (.inl kind) (s.pe p).created
    simp only [kind, single, decide_true, decide_false] at reads
    exact ⟨G, hc.advance entry (by simp [Traffic.isBarrier, Traffic.isBroadcast, kind, single])
      rfl rfl rfl rfl rfl rfl
      (.loading rfl (idle.quiet.sending when _ rfl rfl) reads idle.writes idle.out)⟩
  | @store p u when idle entry kind single =>
    have writes := hs.sends (List.mem_of_getElem? entry) (.inr kind) (s.pe p).created
    simp only [kind, single, reduceCtorEq, decide_false] at writes
    exact ⟨G, hc.advance entry (by simp [Traffic.isBarrier, Traffic.isBroadcast, kind])
      rfl rfl rfl rfl rfl rfl
      (.storing rfl (idle.quiet.sending when _ rfl rfl) idle.reads writes idle.resps idle.out)⟩
  | sync idle entry kind missing => exact ⟨G, sync_control hc hm idle entry kind missing⟩
  | syncLast when idle entry kind full other issuer =>
    exact ⟨G, syncLast_control hc hm when idle entry kind full other issuer⟩
  | lead idle entry kind all event full =>
    exact ⟨G, lead_control hc hm hs idle entry kind all event full rfl _⟩
  | refuse sending scheduled =>
    exact ⟨G, hc.keep rfl rfl rfl rfl rfl rfl ((hc.phase _).resend sending rfl)⟩
  | retry when sending refused =>
    exact ⟨G, hc.keep rfl rfl rfl rfl rfl rfl ((hc.phase _).resend sending rfl)⟩
  | @sendRead p r rest event unscheduled front other reads calm more out =>
    have left := (front ▸ reads).pop.2.2
    refine ⟨G, hc.keep rfl rfl rfl rfl rfl rfl ?_⟩
    by_cases hrest : rest = []
    · exact .waiting unscheduled (quiet_of_event calm rfl (by simp [more, hrest])) hrest other
        (by simp) out
    · exact .loading unscheduled (sending_of_event calm rfl (more.mpr hrest)) (left hrest) other
        out
  | @sendWrite p r rest operate event front other writes calm more last resps out =>
    have left := (front ▸ writes).pop.2.2
    refine ⟨G, hc.keep rfl rfl rfl rfl rfl rfl ?_⟩
    by_cases hrest : rest = []
    · exact .idle (last.mpr hrest) (quiet_of_event calm rfl (by simp [more, hrest])) other hrest
        resps out
    · exact .storing (by simpa using mt last.mp hrest)
        (sending_of_event calm rfl (more.mpr hrest)) other (left hrest) resps out
  | sendAll event front other reads calm more full issuer =>
    exact sendAll_control hc event front other reads calm more full issuer rfl rfl rfl rfl
  | recvWrite flight kind =>
    refine ⟨G, Control.finish ?_ hm _⟩
    exact hc.keep rfl rfl rfl rfl rfl rfl ((hc.phase _).frame _ fun _ => .rfl)
  | recvRead event flight kind wake =>
    obtain ⟨tick, found, -⟩ := hn.found flight
    simp only [kind, if_true] at found
    have resps := List.ne_nil_of_mem (List.mem_of_find?_eq_some found)
    refine ⟨G, Control.finish ?_ hm _⟩
    exact hc.keep rfl rfl rfl rfl rfl rfl ((hc.phase _).respRead resps _ wake)

end Pe

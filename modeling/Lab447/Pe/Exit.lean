import Lab447.Pe.Barrier

/-!
When a PE leaves `pe_list`. `cur_traffic` counts the entries a PE has started,
so a late write response can take a PE out while its last `COMPUTE` still runs;
this is the only way to leave early.
-/

namespace Pe

variable {n : Nat} {cfg : Config n} {issuers : List (Fin n)} {G : Nat} {s t : System n}

/-- The entry the PE has started last. -/
def PE.lastStarted (pe : PE n) : Option Traffic :=
  if pe.curTraffic = 0 then none else pe.trafficList[pe.curTraffic - 1]?

/-- The delay of a `COMPUTE` entry is not over. -/
def PE.computing (pe : PE n) : Prop :=
  pe.operateNextEvent.isSome = true ∧ ∃ u ∈ pe.lastStarted, u.type = .compute

/-- All entries of PE `p` are finished: each has been started and no `COMPUTE` is
running, every packet has been sent and answered, also those of all broadcasts,
and no send is to come. A pending `operateNextEvent` then finds no entry. -/
structure Finished (cfg : Config n) (issuers : List (Fin n)) (s : System n) (p : Fin n) :
    Prop where
  started : (s.pe p).trafficList.length ≤ (s.pe p).curTraffic
  computed : ¬ (s.pe p).computing
  drained : (s.pe p).drained = true
  delivered : ∀ k, k < issuers.length → Delivered cfg issuers s.log p k
  quiet : (s.pe p).Quiet

/-- The response of the last outstanding write of a PE arrives while the last
entry of its list is a `COMPUTE` that is still running. -/
def Early (s : System n) : Action n → Prop
  | .respond p r => p ∈ s.peList ∧ r.isRead = false ∧ (s.pe p).computing ∧
      (s.pe p).trafficList.length ≤ (s.pe p).curTraffic ∧ s.noBarrier = true ∧
      PE.drained { s.pe p with
        waitingRespWrite := (s.pe p).waitingRespWrite.filter fun e => e.1 ≠ r } = true
  | _ => False

/-! ## Who is busy is not computing -/

def Busy (s : System n) (p : Fin n) : Prop :=
  p ∈ s.rdySyncList ∨ (s.pe p).waitingSendRead ≠ [] ∨ (s.pe p).waitingSendWrite ≠ [] ∨
    (s.pe p).waitingRespRead ≠ []

/-- A PE with a packet to send, a read to wait for or a barrier to pass has
started that entry last. -/
def BusyLast (s : System n) : Prop :=
  ∀ p, Busy s p → ∀ u ∈ (s.pe p).lastStarted, u.type ≠ .compute

theorem BusyLast.frame (h : BusyLast s)
    (last : ∀ q, (t.pe q).lastStarted = (s.pe q).lastStarted)
    (busy : ∀ q, Busy t q → Busy s q) : BusyLast t := by
  intro q hq
  rw [last]
  exact h q (busy q hq)

variable {pe : PE n}

theorem lastStarted_next {i : Nat} {u : Traffic} (entry : pe.trafficList[i]? = some u)
    (cur : pe.curTraffic = i + 1) : pe.lastStarted = some u := by
  simp [PE.lastStarted, cur, entry]

variable {p : Fin n}

/-- PE `p` starts an entry that keeps it busy. -/
theorem BusyLast.start (h : BusyLast s) {u : Traffic}
    (entry : (t.pe p).trafficList[(s.pe p).curTraffic]? = some u)
    (cur : (t.pe p).curTraffic = (s.pe p).curTraffic + 1) (kind : u.type ≠ .compute)
    (last : ∀ q, q ≠ p → (t.pe q).lastStarted = (s.pe q).lastStarted)
    (busy : ∀ q, q ≠ p → Busy t q → Busy s q) : BusyLast t := by
  intro q hq
  by_cases he : q = p
  · subst he
    rw [lastStarted_next entry cur]
    rintro v ⟨⟩
    exact kind
  · rw [last q he]
    exact h q (busy q he hq)

theorem finish_busyLast (h : BusyLast s) (p : Fin n) : BusyLast (finish s p) := by
  rcases finish_cases s p with he | ⟨he, -⟩
  · rwa [he]
  · rw [he]
    exact h

/-- A started entry of one PE: all other PEs are as they were. -/
theorem BusyLast.local (h : BusyLast s) {u : Traffic} (hpe : t.pe = (s.set p pe).pe)
    (ready : ∀ q, q ≠ p → q ∈ t.rdySyncList → q ∈ s.rdySyncList)
    (entry : pe.trafficList[(s.pe p).curTraffic]? = some u)
    (cur : pe.curTraffic = (s.pe p).curTraffic + 1) (kind : u.type ≠ .compute) : BusyLast t := by
  have self : t.pe p = pe := by rw [hpe, System.set_pe_self]
  have others : ∀ q, q ≠ p → t.pe q = s.pe q := fun q hq => by
    rw [hpe, System.set_pe_of_ne s _ hq]
  refine h.start (self ▸ entry) (self ▸ cur) kind ?_ ?_
  · intro q hq
    rw [others q hq]
  · intro q hq
    unfold Busy
    rw [others q hq]
    exact Or.imp_left (ready q hq)

/-- One PE moves on without starting an entry. -/
theorem BusyLast.keep (h : BusyLast s) (hpe : t.pe = (s.set p pe).pe)
    (ready : t.rdySyncList = s.rdySyncList) (last : pe.lastStarted = (s.pe p).lastStarted)
    (busy : Busy t p → Busy s p) : BusyLast t := by
  refine h.frame ?_ ?_
  · intro q
    rw [hpe]
    exact System.set_keeps PE.lastStarted s last q
  · intro q hq
    by_cases he : q = p
    · subst he
      exact busy hq
    · unfold Busy at hq ⊢
      rwa [hpe, System.set_pe_of_ne s _ he, ready] at hq

variable {a : Action n}

theorem move_busyLast (h : BusyLast s) (hc : Control cfg issuers G s) (hn : Net s)
    (move : Move cfg s a t) : BusyLast t := by
  have traffic : ∀ {p : Fin n} {u : Traffic}, (cfg.traffic p)[(s.pe p).curTraffic]? = some u →
      (s.pe p).trafficList[(s.pe p).curTraffic]? = some u := fun {p _} he => by
    rw [hc.traffic p]
    exact he
  cases move with
  | wait ticks => exact h
  | rest | leave | refuse | retry =>
    refine h.keep rfl rfl rfl ?_
    unfold Busy
    simp [System.erase]
  | @compute p u when idle entry kind =>
    -- a PE that computes is not busy
    intro q hq
    by_cases he : q = p
    · subst he
      simp [Busy, System.record, PE.started, idle.reads, idle.writes, idle.resps, idle.out] at hq
    · have same : ((s.set p { (s.pe p).started with operateNextEvent := some when }).record
          (.operate p (s.pe p).curTraffic [])).pe q = s.pe q := System.set_pe_of_ne s _ he
      unfold Busy at hq
      rw [same] at hq ⊢
      exact h q hq
  | load when idle entry kind =>
    exact h.local rfl (fun _ _ hr => hr) (traffic entry) rfl (by simp [kind])
  | store when idle entry kind =>
    exact h.local rfl (fun _ _ hr => hr) (traffic entry) rfl (by simp [kind])
  | sync idle entry kind =>
    exact h.local rfl (fun _ hq hr => Finset.mem_of_mem_insert_of_ne hr hq) (traffic entry) rfl
      (by simp [kind])
  | lead idle entry kind =>
    exact h.local rfl (fun _ hq hr => Finset.mem_of_mem_insert_of_ne hr hq) (traffic entry) rfl
      (by simp [kind])
  | @syncLast p q u when idle entry kind full other issuer =>
    have first : BusyLast (s.set q { s.pe q with scheduleReqEvent := some when }) := by
      refine h.keep rfl rfl rfl ?_
      unfold Busy
      simp
    have same : (s.set q { s.pe q with scheduleReqEvent := some when }).pe p = s.pe p :=
      System.set_pe_of_ne s _ other.symm
    have hkind : u.type ≠ .compute := by simp [kind]
    refine first.local rfl (fun _ hq hr => Finset.mem_of_mem_insert_of_ne hr hq) ?_ ?_ hkind
    · rw [same]
      exact traffic entry
    · rw [same]
      rfl
  | sendRead event unscheduled front =>
    exact h.keep rfl rfl rfl (fun _ => .inr (.inl (by simp [front])))
  | sendWrite operate event front =>
    exact h.keep rfl rfl rfl (fun _ => .inr (.inr (.inl (by simp [front]))))
  | sendAll event front other reads calm more full =>
    refine h.frame ?_ (fun q _ => .inl (full ▸ Finset.mem_univ q))
    intro q
    refine System.set_keeps PE.lastStarted s ?_ q
    rfl
  | recvWrite flight kind =>
    apply finish_busyLast
    refine h.keep rfl rfl rfl ?_
    unfold Busy
    simp [System.record]
  | recvRead event flight kind =>
    apply finish_busyLast
    obtain ⟨tick, found, -⟩ := hn.found flight
    simp only [kind, if_true] at found
    have resps := List.ne_nil_of_mem (List.mem_of_find?_eq_some found)
    exact h.keep rfl rfl rfl (fun _ => .inr (.inr (.inr resps)))

theorem reaches_busyLast (hm : Matched cfg issuers) (hs : Sendable cfg)
    (h : (sim cfg).Reaches (fun _ _ => True) s) : BusyLast s := by
  induction h with
  | start =>
    intro p hp
    simp [Busy, sim, newPE] at hp
  | next hr _ hstep ih =>
    have hi := reaches_inv hm hs hr
    obtain ⟨⟨G, hc⟩, hn, -⟩ := hi
    obtain ⟨u, hu, move⟩ := step_move hc hn hm hs hstep
    cases hu
    exact move_busyLast ih hc hn move

/-! ## Leaving -/

theorem Phase.quiet {ready lead full : Prop} (h : Phase cfg p pe ready lead full)
    (reads : pe.waitingSendRead = []) (writes : pe.waitingSendWrite = []) : pe.Quiet := by
  cases h with
  | idle _ quiet => exact quiet
  | loading _ _ sends => exact absurd reads sends.ne_nil
  | waiting _ quiet => exact quiet
  | storing _ _ _ sends => exact absurd writes sends.ne_nil
  | synced _ quiet => exact quiet
  | leading _ _ _ sends => exact absurd reads sends.ne_nil
  | done _ quiet => exact quiet

theorem drained_iff (pe : PE n) : pe.drained = true ↔
    pe.waitingRespRead = [] ∧ pe.waitingSendRead = [] ∧ pe.waitingRespWrite = [] ∧
      pe.waitingSendWrite = [] := by
  simp [PE.drained, and_assoc]

/-- The test that takes a PE out misses only a running `COMPUTE`. -/
theorem Inv.finished (h : Inv cfg issuers s) (hm : Matched cfg issuers)
    (started : (s.pe p).trafficList.length ≤ (s.pe p).curTraffic)
    (drained : (s.pe p).drained = true) (ended : s.noBarrier = true)
    (computed : ¬ (s.pe p).computing) : Finished cfg issuers s p := by
  obtain ⟨⟨G, hc⟩, -, hh⟩ := h
  obtain ⟨resps, reads, -, writes⟩ := (drained_iff _).mp drained
  have out : p ∉ s.rdySyncList := by simp [((noBarrier_iff s).mp ended).2]
  have hG := hc.ended hm started out
  refine ⟨started, computed, drained, ?_, (hc.phase p).quiet reads writes⟩
  intro k hk
  exact hh.delivered hc hm (hG ▸ hk) resps

/-- `exitSimLoop` has been called only if no PE is left. -/
def ExitOk (s : System n) : Prop := s.exited = true → s.peList = ∅

theorem erase_exitOk (h : ExitOk s) (p : Fin n) : ExitOk (s.erase p) := by
  intro he
  simp only [System.erase, Bool.or_eq_true, decide_eq_true_eq] at he
  rcases he with he | he
  · simp [System.erase, h he]
  · exact he

theorem move_exitOk (h : ExitOk s) (move : Move cfg s a t) : ExitOk t := by
  have finished : ∀ (u : System n) (p : Fin n), ExitOk u → ExitOk (finish u p) := by
    intro u p hu
    rcases finish_cases u p with he | ⟨he, -⟩
    · rwa [he]
    · rw [he]
      exact erase_exitOk hu p
  cases move with
  | leave => exact erase_exitOk (s := s.set _ _) h _
  | recvWrite => exact finished _ _ h
  | recvRead => exact finished _ _ h
  | _ => exact h

theorem reaches_exitOk (hm : Matched cfg issuers) (hs : Sendable cfg)
    (h : (sim cfg).Reaches (fun _ _ => True) s) : ExitOk s := by
  induction h with
  | start =>
    intro he
    simp [sim] at he
  | next hr _ hstep ih =>
    obtain ⟨u, hu, move⟩ := (reaches_inv hm hs hr).step hm hs hstep
    cases hu
    exact move_exitOk ih move

theorem erase_leaves {q : Fin n} (listed : p ∈ s.peList) (left : p ∉ (s.erase q).peList) :
    p = q := by
  by_contra hne
  exact left (Finset.mem_erase.mpr ⟨hne, listed⟩)

/-- The last test of `recvTimingResp` takes out only the PE it is made for. -/
theorem finish_leaves {q : Fin n} (listed : p ∈ s.peList) (left : p ∉ (finish s q).peList) :
    p = q ∧ finish s q = s.erase q ∧ (s.pe q).drained = true ∧ s.noBarrier = true ∧
      (s.pe q).trafficList.length ≤ (s.pe q).curTraffic := by
  rcases finish_cases s q with he | ⟨he, found⟩
  · rw [he] at left
    exact absurd listed left
  · rw [he] at left
    exact ⟨erase_leaves listed left, he, found⟩

theorem finish_eq_erase (drained : (s.pe p).drained = true) (ended : s.noBarrier = true)
    (all : (s.pe p).trafficList.length ≤ (s.pe p).curTraffic) : finish s p = s.erase p := by
  simp [finish, drained, ended, all]

/-- What a step that takes a PE out of `pe_list` has found. -/
theorem move_leaves (h : BusyLast s) (hn : Net s) (move : Move cfg s a t) (listed : p ∈ s.peList)
    (left : p ∉ t.peList) :
    (t.pe p).trafficList.length ≤ (t.pe p).curTraffic ∧ (t.pe p).drained = true ∧
      t.noBarrier = true ∧ ((t.pe p).computing → Early s a) := by
  cases move with
  | @leave q idle all drained ended =>
    obtain rfl : p = q := erase_leaves (s := s.set q _) listed left
    have self : ((s.set p { s.pe p with operateNextEvent := none }).erase p).pe p =
        { s.pe p with operateNextEvent := none } := System.set_pe_self ..
    rw [self]
    refine ⟨all, drained, ended, ?_⟩
    rintro ⟨operate, -⟩
    simp at operate
  | recvWrite flight kind =>
    obtain ⟨rfl, he, drained, ended, all⟩ := finish_leaves (by exact listed) left
    rw [he]
    refine ⟨all, drained, ended, fun computing => ⟨listed, kind, ?_, ?_, ended, ?_⟩⟩
    · simpa [System.erase, System.record, PE.computing, PE.lastStarted] using computing
    · simpa [System.record] using all
    · simpa [System.record] using drained
  | recvRead event flight kind wake =>
    obtain ⟨rfl, he, drained, ended, all⟩ := finish_leaves (by exact listed) left
    rw [he]
    refine ⟨all, drained, ended, ?_⟩
    -- a PE that waited for a read has not started a `COMPUTE` since
    rintro ⟨-, u, hu, hc⟩
    obtain ⟨tick, found, -⟩ := hn.found flight
    simp only [kind, if_true] at found
    have resps := List.ne_nil_of_mem (List.mem_of_find?_eq_some found)
    refine absurd hc (h p (.inr (.inr (.inr resps))) u ?_)
    simpa [System.erase, System.record, PE.lastStarted] using hu
  | _ => exact absurd listed left

/-- An early response takes the PE out while it computes. -/
theorem early_leaves (move : Move cfg s a t) (early : Early s a) :
    ∃ p, p ∈ s.peList ∧ p ∉ t.peList ∧ (t.pe p).computing := by
  cases move with
  | @recvWrite p r flight kind =>
    obtain ⟨listed, -, computing, all, ended, drained⟩ := early
    rw [finish_eq_erase]
    · refine ⟨p, listed, by simp [System.erase], ?_⟩
      simpa [System.erase, System.record, PE.computing, PE.lastStarted] using computing
    · simpa [System.record] using drained
    · exact ended
    · simpa [System.record] using all
  | recvRead event flight kind =>
    have := early.2.1
    simp [kind] at this
  | _ => exact early.elim

/-- In every state of every run of lists that match and that the PEs can send,
`exitSimLoop` follows only on the last PE's leaving, and all PEs a step takes out
are finished unless the step is an early response. -/
theorem leaves_finished_iff (hm : Matched cfg issuers) (hs : Sendable cfg)
    (h : (sim cfg).Reaches (fun _ _ => True) s) {a : Action n}
    (hstep : (sim cfg).step s a = some (.ok t)) :
    (t.exited = true → t.peList = ∅) ∧
      ((∀ p, p ∈ s.peList → p ∉ t.peList → Finished cfg issuers t p) ↔ ¬ Early s a) := by
  have hi := reaches_inv hm hs h
  obtain ⟨u, hu, move⟩ := hi.step hm hs hstep
  cases hu
  have ht := move_inv hi hm hs move
  refine ⟨move_exitOk (reaches_exitOk hm hs h) move, ?_, ?_⟩
  · intro finished early
    obtain ⟨p, listed, left, computing⟩ := early_leaves move early
    exact (finished p listed left).computed computing
  · intro timely p listed left
    obtain ⟨all, drained, ended, computing⟩ :=
      move_leaves (reaches_busyLast hm hs h) hi.net move listed left
    exact ht.finished hm all drained ended (mt computing timely)

/-- A PE that writes a line and then computes, with nothing after that. -/
def lateConfig : Config 1 where
  traffic _ := [entry .write 0 64 .unicast, entry .compute 0 0 .unicast]
  cacheLineSize := 64
  isMemAddr addr := addr < 2 ^ 30

theorem lateConfig_matched : Matched lateConfig [] := by
  unfold Matched
  decide

theorem lateConfig_sendable : Sendable lateConfig := by
  refine ⟨?_, ?_, ?_, ?_⟩ <;> decide

/-- The `COMPUTE` starts at tick 3 and would be over at tick 103. -/
def lateRun : List (Action 1) :=
  [.wait 1, .operate 0, .wait 1, .schedule 0 true, .wait 1, .operate 0]

/-- The response of the only write. -/
def lateResponse : Action 1 := .respond 0 ⟨0, 0, 0, false, false⟩

theorem leaves_finished_after_compute :
    ∃ s t, (sim lateConfig).run (sim lateConfig).start
        (lateRun ++ [.wait 100, .operate 0]) = some s ∧
      (sim lateConfig).step s lateResponse = some (.ok t) ∧ 0 ∈ s.peList ∧ 0 ∉ t.peList ∧
      ((t.exited = true → t.peList = ∅) ∧
        ((∀ p, p ∈ s.peList → p ∉ t.peList → Finished lateConfig [] t p) ↔
          ¬ Early s lateResponse)) := by
  refine ⟨_, _, rfl, rfl, by decide, by decide, ?_⟩
  exact leaves_finished_iff lateConfig_matched lateConfig_sendable
    (Machine.Reaches.start.run (lateRun ++ [.wait 100, .operate 0]) (fun _ _ => trivial) rfl) rfl

theorem late_response_exits_early :
    Matched lateConfig [] ∧ ∃ s t,
      (sim lateConfig).run (sim lateConfig).start (lateRun ++ [.wait 47]) = some s ∧
      (sim lateConfig).step s lateResponse = some (.ok t) ∧ 0 ∈ s.peList ∧ 0 ∉ t.peList ∧
      t.exited = true ∧ t.curTick = 50 ∧ (t.pe 0).operateNextEvent = some 103 ∧
      (t.pe 0).computing := by
  refine ⟨lateConfig_matched, _, _, rfl, rfl, by decide, by decide, by decide, rfl, rfl, rfl, ?_⟩
  exact ⟨entry .compute 0 0 .unicast, rfl, rfl⟩

/-! ## Nobody stays -/

/-- A barrier that a PE is ready for is not over. -/
theorem Control.lt_of_ready (h : Control cfg issuers G s) (hm : Matched cfg issuers)
    (ready : p ∈ s.rdySyncList) : G < issuers.length := by
  have count := h.count p
  have le := passed_mono (l := cfg.traffic p) (h.bound p)
  rw [if_pos ready] at count
  rw [hm.total p] at le
  omega

/-- No barrier is left when a PE has passed all of them. -/
theorem Control.noBarrier (h : Control cfg issuers G s) (hm : Matched cfg issuers)
    (all : (s.pe p).trafficList.length ≤ (s.pe p).curTraffic) (out : p ∉ s.rdySyncList) :
    s.noBarrier = true := by
  have empty (q : Fin n) : q ∉ s.rdySyncList := fun ready =>
    (h.lt_of_ready hm ready).ne (h.ended hm all out)
  refine (noBarrier_iff s).mpr ⟨?_, Finset.eq_empty_of_forall_notMem empty⟩
  exact Option.eq_none_iff_forall_ne_some.mpr fun q hq => empty q ((h.issuer q).mp hq).1

/-- PE `p` waits for nothing but a barrier. -/
def Over (s : System n) (p : Fin n) : Prop :=
  (s.pe p).operateNextEvent = none ∧ (s.pe p).Quiet ∧ (s.pe p).drained = true ∧
    (s.pe p).trafficList.length ≤ (s.pe p).curTraffic

/-- A PE that waits for nothing has left, and the last one to leave has ended the simulation. -/
structure Left (s : System n) : Prop where
  out : ∀ p ∈ s.peList, Over s p → p ∈ s.rdySyncList
  exit : s.peList = ∅ → s.exited = true

theorem Left.keep (h : Left s) (hpe : t.pe = (s.set p pe).pe) (list : t.peList ⊆ s.peList)
    (ready : s.rdySyncList ⊆ t.rdySyncList) (own : p ∈ t.peList → Over t p → p ∈ t.rdySyncList)
    (exit : t.peList = ∅ → t.exited = true) : Left t := by
  refine ⟨fun q listed ended => ?_, exit⟩
  by_cases he : q = p
  · subst he
    exact own listed ended
  · unfold Over at ended
    rw [hpe, System.set_pe_of_ne s _ he] at ended
    exact ready (h.out q (list listed) ended)

theorem Left.finish (h : Left s) (hpe : t.pe = (s.set p pe).pe) (list : t.peList = s.peList)
    (ready : t.rdySyncList = s.rdySyncList) (exited : t.exited = s.exited)
    (ended : Over t p → p ∉ t.rdySyncList → t.noBarrier = true) : Left (finish t p) := by
  rcases finish_cases t p with he | ⟨he, -⟩
  · rw [he]
    refine h.keep hpe list.subset ready.ge (fun listed all => ?_) (list ▸ exited ▸ h.exit)
    by_contra out
    rw [← he, finish_eq_erase all.2.2.1 (ended all out) all.2.2.2] at listed
    exact Finset.notMem_erase p _ listed
  · rw [he]
    refine h.keep hpe ((Finset.erase_subset ..).trans list.subset) ready.ge
      (fun listed => absurd listed (Finset.notMem_erase p _)) fun empty => ?_
    simp [System.erase, show t.peList.erase p = ∅ from empty]

/-- `operateTraffic` without an entry left makes the same test as a response. -/
theorem operate_last (hstep : step cfg s (.operate p) = some (.ok t))
    (all : (s.pe p).trafficList.length ≤ (s.pe p).curTraffic) :
    t = finish (s.set p { s.pe p with operateNextEvent := none }) p := by
  simp only [step] at hstep
  split at hstep
  · simp [operateTraffic, List.getElem?_eq_none all] at hstep
    simp [Pe.finish, all, ← hstep]
  · cases hstep

theorem move_left (h : Left s) (hc : Control cfg issuers G s) (hm : Matched cfg issuers)
    (hstep : step cfg s a = some (.ok t)) (move : Move cfg s a t) : Left t := by
  cases move with
  | wait => exact ⟨h.out, h.exit⟩
  | rest _ all | leave _ all =>
    rw [operate_last hstep all]
    exact h.finish rfl rfl rfl rfl fun _ => hc.noBarrier hm all
  | sync | lead =>
    exact h.keep rfl subset_rfl (Finset.subset_insert ..) (fun _ _ => Finset.mem_insert_self ..)
      h.exit
  | syncLast _ _ _ _ full => exact ⟨fun q _ _ => full ▸ Finset.mem_univ q, h.exit⟩
  | compute | load | store | refuse | retry | sendRead | sendWrite =>
    refine h.keep rfl subset_rfl subset_rfl (fun _ ended => ?_) h.exit
    simp [Over, PE.Quiet, PE.drained, setResp, System.record] at ended
  | sendAll =>
    exact ⟨fun q _ ended => by simp [Over, PE.drained, setResp] at ended, h.exit⟩
  | recvWrite | recvRead =>
    refine h.finish rfl rfl rfl rfl fun ended => hc.noBarrier hm ?_
    simpa [System.record] using ended.2.2.2

theorem reaches_left (p : Fin n) (hm : Matched cfg issuers) (hs : Sendable cfg)
    (h : (sim cfg).Reaches (fun _ _ => True) s) : Left s := by
  induction h with
  | start =>
    refine ⟨fun q _ ended => absurd ended.1 (by simp [sim, newPE]), fun empty => ?_⟩
    exact absurd (Finset.mem_univ p) (Finset.eq_empty_iff_forall_notMem.mp empty p)
  | next hr _ hstep ih =>
    have inv := reaches_inv hm hs hr
    obtain ⟨u, hu, move⟩ := inv.step hm hs hstep
    cases hu
    obtain ⟨G, hc⟩ := inv.control
    exact move_left ih hc hm hstep move

/-! ## Deadlock -/

/-- A PE without an event, a refused packet or a read to wait for is done, or in a
barrier that lacks more than its packets. -/
theorem Phase.still {ready lead full : Prop} (h : Phase cfg p pe ready lead full)
    (operate : pe.operateNextEvent = none) (quiet : pe.Quiet) (resps : pe.waitingRespRead = []) :
    ready ∧ (lead → ¬ full) ∨ ¬ ready ∧ pe.trafficList.length ≤ pe.curTraffic ∧
      pe.waitingSendRead = [] ∧ pe.waitingSendWrite = [] := by
  cases h with
  | idle scheduled => simp [operate] at scheduled
  | loading _ sending => exact absurd sending quiet.not_sending
  | waiting _ _ _ _ outstanding => exact absurd resps outstanding
  | storing _ sending => exact absurd sending quiet.not_sending
  | synced _ _ _ _ inside follow => exact .inl ⟨inside, fun lead => absurd lead follow⟩
  | leading _ sending _ _ _ inside =>
    exact .inl ⟨inside, fun _ full => quiet.not_sending (sending full)⟩
  | done _ _ reads writes _ out finished => exact .inr ⟨out, finished, reads, writes⟩

/-- No event is scheduled, no packet refused and no response outstanding. -/
def System.Still (s : System n) : Prop :=
  (∀ p, (s.pe p).operateNextEvent = none ∧ (s.pe p).Quiet) ∧ s.inFlight = []

theorem Inv.finished_of_still (inv : Inv cfg issuers s) (hm : Matched cfg issuers)
    (h : s.Still) (p : Fin n) : p ∉ s.rdySyncList ∧ Finished cfg issuers s p := by
  obtain ⟨events, network⟩ := h
  obtain ⟨⟨G, hc⟩, hn, -⟩ := id inv
  have resps (q : Fin n) : (s.pe q).waitingRespRead = [] ∧ (s.pe q).waitingRespWrite = [] := by
    have reads := hn.reads q
    have writes := hn.writes q
    simp only [network, List.not_mem_nil, false_and] at reads writes
    exact ⟨List.eq_nil_iff_forall_not_mem.mpr reads, List.eq_nil_iff_forall_not_mem.mpr writes⟩
  have still (q : Fin n) := (hc.phase q).still (events q).1 (events q).2 (resps q).1
  have out (q : Fin n) : q ∉ s.rdySyncList := by
    intro ready
    -- there is a barrier left for `q`, so no PE is done: all are ready, also the issuer
    have hG := hc.lt_of_ready hm ready
    have all : s.rdySyncList = Finset.univ := by
      refine Finset.eq_univ_of_forall fun r => ?_
      by_contra missing
      obtain ⟨inside, -⟩ | ⟨-, started, -⟩ := still r
      · exact missing inside
      · exact hG.ne (hc.ended hm started missing)
    have first : issuers[G]? = some issuers[G] := List.getElem?_eq_getElem hG
    obtain ⟨-, waits⟩ | ⟨missing, -⟩ := still issuers[G]
    · exact waits first all
    · exact missing (all ▸ Finset.mem_univ _)
  obtain ⟨inside, -⟩ | ⟨-, started, reads, writes⟩ := still p
  · exact absurd inside (out p)
  · refine ⟨out p, inv.finished hm started ?_ (hc.noBarrier hm started (out p)) ?_⟩
    · exact (drained_iff _).mpr ⟨(resps p).1, reads, (resps p).2, writes⟩
    · simp [PE.computing, (events p).1]

theorem exited_of_still (hm : Matched cfg issuers) (hs : Sendable cfg)
    (h : (sim cfg).Reaches (fun _ _ => True) s) (still : s.Still) (p : Fin n) : s.exited = true := by
  have left := reaches_left p hm hs h
  refine left.exit (Finset.eq_empty_of_forall_notMem fun q listed => ?_)
  obtain ⟨out, finished⟩ := (reaches_inv hm hs h).finished_of_still hm still q
  exact out (left.out q listed
    ⟨(still.1 q).1, (still.1 q).2, finished.drained, finished.started⟩)

end Pe

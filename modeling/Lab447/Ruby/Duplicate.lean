import Lab447.Ruby.Broadcast

/-!
Duplicates and coherence. A duplicate in the mandatory queue is handled as a load
of its line, and all that keeps it from changing coherence state is the guards in
the actions; the next state of the transition is taken in any case.
-/

namespace Ruby

open Script

section
variable {cfg : Config}

theorem getOffset_makeLineAddress (a : Addr) : getOffset cfg (makeLineAddress cfg a) = 0 := by
  exact Nat.sub_mod_eq_zero_of_mod_eq (Nat.mod_mod a _).symm

theorem makeLineAddress_of_getOffset {a : Addr} (h : getOffset cfg a = 0) :
    makeLineAddress cfg a = a := by
  rw [makeLineAddress, h, Nat.sub_zero]

end

/-! ### What duplicates look like -/

/-- For one other L1. -/
def ToOther (cfg : Config) (version : Nat) (dest : NetDest) : Prop :=
  ∃ j < cfg.numL1, j ≠ version ∧ dest = [⟨.L1Cache, j⟩]

/-- Duplicates are loads of whole lines and go to one other L1, with a packet. -/
structure Addressed (cfg : Config) (v : View) : Prop where
  copies : ∀ m ∈ v.queue.messages, m.isBCDuplicate = true →
    m.type = .LD ∧ getOffset cfg m.lineAddress = 0 ∧ ToOther cfg v.version m.netDest
  answers : ∀ m ∈ v.sent,
    getOffset cfg m.addr = 0 ∧ (∃ pkt, m.packetptr = some pkt) ∧ ToOther cfg v.version m.destination

variable {m : RubyRequest}

section
variable {cfg : Config} {v v' : View} {a : Addr}

theorem mem_copies {data : DataBlock} {record : Option Packet}
    (h : m ∈ Controller.copies cfg v.machineID a data record) :
    m.type = .LD ∧ getOffset cfg m.lineAddress = 0 ∧ ToOther cfg v.version m.netDest := by
  cases record with
  | none => cases h
  | some pkt =>
    obtain ⟨mach, hmach, rfl⟩ := List.mem_map.mp h
    simp only [Controller.others, List.mem_filter, List.mem_map, List.mem_range] at hmach
    obtain ⟨⟨j, hj, rfl⟩, hne⟩ := hmach
    refine ⟨rfl, getOffset_makeLineAddress _, j, hj, ?_, rfl⟩
    rintro rfl
    simp [View.machineID] at hne

theorem isBCDuplicate_of_mem_reissued {rs : List SequencerRequest}
    (h : m ∈ Controller.reissued cfg rs) : m.isBCDuplicate = false := by
  obtain ⟨r, -, rfl⟩ := List.mem_map.mp h
  rfl

/-- The duplicates in the queue were there before or are of the right form. -/
theorem Addressed.completed {done left : List SequencerRequest} {record : Addr → Option Packet}
    {issued gone : List RubyRequest} (inv : Addressed cfg v)
    (h : Completed a done left record issued gone v v')
    (new : ∀ m ∈ issued, m.isBCDuplicate = true →
      m.type = .LD ∧ getOffset cfg m.lineAddress = 0 ∧ ToOther cfg v.version m.netDest) :
    Addressed cfg v' := by
  refine ⟨fun m hm hd => ?_, ?_⟩
  · rw [h.version]
    have := h.queue.subset (List.mem_append_right gone hm)
    obtain hm | hm := List.mem_append.mp this
    · exact new m hm hd
    · exact inv.copies m hm hd
  · rw [h.sent, h.version]
    exact inv.answers

theorem Addressed.requeue (inv : Addressed cfg v) {q : MessageBuffer RubyRequest}
    (hq : q.messages ⊆ v.queue.messages) : Addressed cfg { v with queue := q } :=
  ⟨fun m hm => inv.copies m (hq hm), inv.answers⟩

variable {response : Option ResponseMsg}

theorem Effect.version {k : Kind} (h : Effect cfg a response v v' k) : v'.version = v.version := by
  cases h with
  | idle he _ | taken _ he _ | answered _ _ he _ | received _ _ _ he _ => rw [he]
  | loadHit _ _ h | fill _ _ h => exact h.2.choose_spec.version
  | ifetchHit _ h | storeHit _ h | storeFill h => exact h.2.version

/-- No transition makes a duplicate of another form. -/
theorem Effect.addressed {k : Kind} (inv : Addressed cfg v) (h : Effect cfg a response v v' k) :
    Addressed cfg v' := by
  have loaded {gone : List RubyRequest} (h : Loaded cfg a gone v v') : Addressed cfg v' := by
    obtain ⟨-, data, done⟩ := h
    refine inv.completed done fun m hm hd => ?_
    obtain hm | hm := List.mem_append.mp hm
    · exact mem_copies hm
    · rw [isBCDuplicate_of_mem_reissued hm] at hd
      cases hd
  have rest {m : RubyRequest} {q : MessageBuffer RubyRequest}
      (hq : (m :: q.messages).Perm v.queue.messages) : q.messages ⊆ v.queue.messages :=
    fun _ hm => hq.subset (.tail m hm)
  cases h with
  | idle he hq =>
    subst he
    exact inv.requeue hq.subset
  | taken _ he hq =>
    subst he
    exact inv.requeue (rest hq)
  | answered hm hd he hq =>
    subst he
    refine ⟨fun m hm => inv.copies m (rest hq hm), fun r hr => ?_⟩
    obtain hr | hr := List.mem_append.mp hr
    · exact inv.answers r hr
    · cases List.mem_singleton.mp hr
      obtain ⟨-, aligned, other⟩ := inv.copies _ (MessageBuffer.peek_mem hm) hd
      exact ⟨aligned, ⟨_, rfl⟩, other⟩
  | loadHit _ _ h => exact loaded h
  | ifetchHit _ h =>
    refine inv.completed h.2 fun m hm hd => ?_
    rw [isBCDuplicate_of_mem_reissued hm] at hd
    cases hd
  | storeHit _ h => exact inv.completed h.2 fun _ hm => (nomatch hm)
  | received _ _ _ he hq =>
    subst he
    exact ⟨fun m hm => inv.copies m (hq.subset hm), inv.answers⟩
  | fill _ _ h => exact loaded h
  | storeFill h => exact inv.completed h.2 fun _ hm => (nomatch hm)

end

namespace System

variable {cfg : Config} {s : System cfg}

/-- In every run the controllers keep their places, and their duplicates have
the right form. -/
theorem addressed_of_reaches {allowed : System cfg → Step cfg → Prop}
    (h : (machine cfg).Reaches allowed s) (i : Fin cfg.numL1) :
    (s.l1 i).version = i ∧ Addressed cfg (s.l1 i).view := by
  refine h.invariant (I := fun s : System cfg => ∀ i, (s.l1 i).version = i ∧
    Addressed cfg (s.l1 i).view)
    (fun i => ⟨rfl, fun _ hm => (by cases hm), fun _ hm => (by cases hm)⟩) ?_ i
  intro s a t inv _ hstep
  have effect {i : Fin cfg.numL1} {c c' : Controller} {addr : Addr} {response : Option ResponseMsg}
      {k : Kind} (inv : c.version = i ∧ Addressed cfg c.view)
      (h : Effect cfg addr response c.view c'.view k) : c'.version = i ∧ Addressed cfg c'.view :=
    ⟨h.version.trans inv.1, h.addressed inv.2⟩
  refine step_keeps (P := fun i c => c.version = i ∧ Addressed cfg c.view) ?_ ?_ ?_ ?_ ?_ ?_ ?_ inv hstep
  · intro i c pkt status c' inv hc
    refine ⟨(Controller.makeRequest_served hc).version.trans inv.1, ?_⟩
    obtain ⟨-, rfl⟩ | ⟨-, primary, secondary, -, ⟨-, rfl⟩ | ⟨-, hi⟩⟩ :=
      Controller.makeRequest_cases hc
    · exact inv.2
    · exact ⟨inv.2.copies, inv.2.answers⟩
    · obtain ⟨served, queue, -⟩ := Controller.issueRequest_ok hi
      obtain ⟨version, sent⟩ := Ctx.view_served served
      refine ⟨fun m hm hd => ?_, ?_⟩
      · rw [version]
        have hm : m ∈ c'.mandatoryQueue.messages := hm
        rw [queue] at hm
        obtain rfl | hm := List.mem_cons.mp ((MessageBuffer.messages_enqueue _ _).subset hm)
        · cases hd
        · exact inv.2.copies m hm hd
      · rw [version, sent]
        exact inv.2.answers
  · intro i c victim c' inv hc
    obtain ⟨addr, k, h⟩ := Controller.mandatoryQueueIn_effect hc
    exact effect inv h
  · exact fun i c address type inv => inv
  · intro i c victim c' inv hc
    obtain ⟨addr, k, h⟩ := Controller.optionalQueueIn_effect hc
    exact effect inv h
  · intro i c m y inv hy
    obtain ⟨k, h⟩ := Controller.requestL1NetworkIn_effect hy
    exact effect inv h
  · intro i c m y inv hy
    obtain ⟨k, h⟩ := Controller.responseL1NetworkIn_effect hy
    exact effect inv h
  · intro i c out inv hout
    refine ⟨inv.1, inv.2.copies, fun m hm => inv.2.answers m ?_⟩
    exact List.filter_subset _ hout hm

end System

/-! ### Transitions that keep the state -/

variable {f : Entry → Entry}

theorem CacheMemory.modify_eq_self {k : CacheMemory} {a : Addr}
    (h : ∀ e, k.lookup a = some e → f e = e) : k.modify a f = k := by
  have same : (k.entry a).map f = k.entry a := by
    cases he : k.entry a with
    | none => rfl
    | some e => exact congrArg some (h e he)
  simp [modify, same]

variable {next : State}

namespace Ctx

variable {cfg : Config} {x y : Ctx}

theorem setTBE_eq_self (x : Ctx) : x.setTBE x.tbe = x := by
  simp [setTBE, tbe]

theorem modifyEntry_eq_self
    (h : ∀ side e, x.entry = some side → x.ctrl.lookup side x.address = some e → f e = e) :
    x.modifyEntry f = x := by
  unfold modifyEntry
  split
  · rename_i side he
    have same := CacheMemory.modify_eq_self (h side · he)
    rw [Controller.modifyEntry, same]
    cases side <;> rfl
  · rfl

theorem oneTag_of_oneCache
    (one : x.ctrl.shape .dcache x.address = none ∨ x.ctrl.shape .icache x.address = none) :
    x.oneTag = .ok () := by
  have hd := isTagPresent_eq x.ctrl .dcache x.address
  have hi := isTagPresent_eq x.ctrl .icache x.address
  simp only [Controller.cache] at hd hi
  unfold oneTag assertion
  rw [hd, hi]
  obtain e | e := one <;> simp [e]

/-- `setState` to the state that the TBE and the entry are in changes nothing. -/
theorem setState_eq_self
    (one : x.ctrl.shape .dcache x.address = none ∨ x.ctrl.shape .icache x.address = none)
    (tbe : ∀ t, x.tbe = some t → t.tbeState = next)
    (entry : ∀ side e, x.entry = some side → x.ctrl.lookup side x.address = some e →
      e.cacheState = next ∧ e.permission = next.toPermission) : x.setState next = .ok x := by
  have same : (x.tbe.map fun t => { t with tbeState := next }) = x.tbe := by
    cases ht : x.tbe with
    | none => rfl
    | some t => rw [Option.map_some, ← tbe t ht]
  rw [setState, oneTag_of_oneCache one, Except.map, same, setTBE_eq_self, modifyEntry_eq_self]
  intro side e he hl
  obtain ⟨hs, hp⟩ := entry side e he hl
  rw [← hs] at hp ⊢
  rw [← hp]

theorem doTransition_eq {event : Event} {as : List Action}
    (one : x.ctrl.shape .dcache x.address = none ∨ x.ctrl.shape .icache x.address = none)
    (row : transition x.state event = some (as, next)) :
    x.doTransition cfg event = (x.performAll cfg as).bind (setState next) := by
  rw [doTransition, getState, oneTag_of_oneCache one, Except.map, Except.bind, row]

end Ctx

/-! ### Duplicate requests -/

namespace Controller

variable {cfg : Config} {c : Controller} {a : Addr} {m : RubyRequest}

/-- What a transition for a duplicate works on. -/
def copyCtx (c : Controller) (a : Addr) : Ctx := ⟨c, a, c.entryIn .dcache a, none, none⟩

/-- The state a duplicate finds its line in. -/
def stateForCopy (c : Controller) (a : Addr) : State := (c.copyCtx a).state

variable {side : CacheSide}

theorem entry_copyCtx (he : (c.copyCtx a).entry = some side) : side = .dcache := by
  simp only [copyCtx, entryIn] at he
  split at he
  · exact (Option.some.inj he).symm
  · cases he

/-- The TBE and the entry a duplicate is given are in the state it finds. -/
theorem Coherent.copyCtx (inv : c.Coherent) (a : Addr) :
    (∀ t, (c.copyCtx a).tbe = some t → t.tbeState = c.stateForCopy a) ∧
      ∀ side e, (c.copyCtx a).entry = some side → c.lookup side a = some e →
        e.cacheState = c.stateForCopy a ∧ e.permission = (c.stateForCopy a).toPermission := by
  have tbe (t : TBE) (ht : (c.copyCtx a).tbe = some t) : t.tbeState = c.stateForCopy a := by
    simp [stateForCopy, Ctx.state, ht]
  refine ⟨tbe, fun side e he hl => ?_⟩
  cases entry_copyCtx he
  have shape : c.shape .dcache a = some (e.cacheState, e.permission) := by
    simp [Controller.shape, hl, Entry.coherence]
  have state : e.cacheState = c.stateForCopy a := by
    cases ht : (c.copyCtx a).tbe with
    | some t =>
      rw [← tbe t ht]
      exact (inv.agrees a _ _ t.tbeState shape (by
        rw [tbeState, show c.tbes a = some t from ht]; rfl)).symm
    | none =>
      have hl' : (c.copyCtx a).ctrl.lookup .dcache (c.copyCtx a).address = some e := hl
      simp [stateForCopy, Ctx.state, ht, Ctx.cacheEntry, he, hl']
  exact ⟨state, state ▸ (inv.entry _ _ _ _ shape).2⟩

theorem Coherent.valid_copyCtx (inv : c.Coherent) (hs : c.stateForCopy a ∈ [State.I, .S, .E, .M]) :
    ∃ e, (c.copyCtx a).validEntry = .ok (.dcache, e) := by
  have no_tbe : (c.copyCtx a).tbe = none := by
    cases ht : (c.copyCtx a).tbe with
    | none => rfl
    | some t =>
      have busy := inv.tbe a t.tbeState (by rw [tbeState, show c.tbes a = some t from ht]; rfl)
      rw [(inv.copyCtx a).1 t ht] at busy
      simp only [List.mem_cons, List.not_mem_nil, or_false] at hs
      obtain hs | hs | hs | hs := hs <;> rw [hs] at busy <;> cases busy
  cases he : (c.copyCtx a).cacheEntry with
  | none => simp [stateForCopy, Ctx.state, no_tbe, he] at hs
  | some e =>
    obtain ⟨side, hside, -⟩ := Option.bind_eq_some_iff.mp he
    cases entry_copyCtx hside
    exact ⟨e, by simp [Ctx.validEntry, hside, he]⟩

/-- What a duplicate request may change: the queue, and `out` is sent. -/
def passed (c : Controller) (queue : MessageBuffer RubyRequest) (out : List ResponseMsg) :
    Controller :=
  { c with mandatoryQueue := queue, responseL1NetworkOut := c.responseL1NetworkOut ++ out }

/-- A duplicate that passes leaves the line alone if the next state is the state
of the line, or if there is nothing to write it to. -/
theorem trigger_copy (inv : c.Coherent) {as : List Action} {queue : MessageBuffer RubyRequest}
    {out : List ResponseMsg} (row : transition (c.stateForCopy a) .Load = some (as, next))
    (acts : (c.copyCtx a).performAll cfg as = .ok { c.copyCtx a with ctrl := c.passed queue out })
    (same : next = c.stateForCopy a ∨ c.stateForCopy a = .NP) :
    c.trigger cfg .Load a (c.entryIn .dcache a) = .ok (c.passed queue out) := by
  obtain ⟨tbe, entry⟩ := inv.copyCtx a
  have set : Ctx.setState next { c.copyCtx a with ctrl := c.passed queue out } =
      .ok { c.copyCtx a with ctrl := c.passed queue out } := by
    obtain rfl | np := same
    · exact Ctx.setState_eq_self (inv.oneCache a) tbe entry
    · refine Ctx.setState_eq_self (inv.oneCache a) (fun t ht => ?_) (fun side e he hl => ?_)
      · have busy := inv.tbe a t.tbeState (by rw [tbeState, show c.tbes a = some t from ht]; rfl)
        rw [tbe t ht, np] at busy
        cases busy
      · have shape : c.shape side a = some (e.cacheState, e.permission) := by
          rw [Controller.shape, show c.lookup side a = some e from hl]
          rfl
        exact absurd ((entry side e he hl).1.trans np) (inv.entry _ _ _ _ shape).1
  rw [trigger, ← copyCtx, Ctx.doTransition_eq (inv.oneCache a) row, acts]
  simp only [Except.bind, set, Except.map]

/-- The actions that do nothing for a duplicate but look at it. -/
def skips : Action → Bool
  | .ooAllocateL1DCacheBlock | .iAllocateTBE | .aIssueGETS | .poObserveHit | .uuProfileDataMiss
  | .uuProfileDataHit | .poObserveMiss | .ppmObservePfMiss => true
  | _ => false

theorem perform_skips {x : Ctx} (hm : x.ctrl.mandatoryQueue.peek = some m)
    (hd : m.isBCDuplicate = true) {act : Action} (ha : skips act = true) :
    x.perform cfg act = .ok x := by
  have peek : x.peekMandatory = .ok m := by rw [Ctx.peekMandatory, hm]
  cases act <;> cases ha <;>
    simp [Ctx.perform, Ctx.ooAllocateL1DCacheBlock, Ctx.iAllocateTBE, Ctx.aIssueGETS,
      Ctx.poObserveHit, Ctx.observe, peek, hd, Except.bind, Except.map]

theorem performAll_pop {x : Ctx} (hm : x.ctrl.mandatoryQueue.peek = some m)
    (hd : m.isBCDuplicate = true) (as : List Action) (ha : ∀ act ∈ as, skips act = true) :
    x.performAll cfg (as ++ [.kPopMandatoryQueue]) =
      .ok (x.setMandatory x.ctrl.mandatoryQueue.dequeue) := by
  rw [Ctx.performAll, run_idle fun act hact => perform_skips hm hd (ha act hact)]
  simp [run, Ctx.perform, Ctx.kPopMandatoryQueue, Ctx.peekMandatory, hm, Except.map, Except.bind]

/-- A duplicate that hits is popped and answered. -/
theorem trigger_copy_hit (inv : c.Coherent) (hm : c.mandatoryQueue.peek = some m)
    (hd : m.isBCDuplicate = true) (hs : c.stateForCopy a ∈ [State.S, .E, .M]) :
    c.trigger cfg .Load a (c.entryIn .dcache a) =
      .ok (c.passed c.mandatoryQueue.dequeue [c.view.answer m]) := by
  obtain ⟨e, valid⟩ := inv.valid_copyCtx (a := a) (List.mem_cons_of_mem _ hs)
  have row : transition (c.stateForCopy a) .Load =
      some ([.hLoadHit, .uuProfileDataHit, .poObserveHit, .kPopMandatoryQueue], c.stateForCopy a) := by
    simp only [List.mem_cons, List.not_mem_nil, or_false] at hs
    obtain hs | hs | hs := hs <;> rw [hs] <;> rfl
  refine trigger_copy inv row ?_ (.inl rfl)
  refine run_cons.mpr ⟨(c.copyCtx a).enqueueResponse ((c.copyCtx a).answer m), ?_, ?_⟩
  · have peek : (c.copyCtx a).peekMandatory = .ok m := by
      rw [Ctx.peekMandatory, show (c.copyCtx a).ctrl.mandatoryQueue.peek = some m from hm]
    simp only [Ctx.perform, Ctx.hLoadHit, valid, Except.bind, peek, hd, if_true]
  · exact performAll_pop hm hd [.uuProfileDataHit, .poObserveHit] (by decide)

theorem passed_nil (c : Controller) (queue : MessageBuffer RubyRequest) :
    c.passed queue [] = { c with mandatoryQueue := queue } := by simp [passed]

/-- A duplicate for a line that is not there is popped without an answer. -/
theorem trigger_copy_absent (inv : c.Coherent) (hm : c.mandatoryQueue.peek = some m)
    (hd : m.isBCDuplicate = true) (hs : c.stateForCopy a = .NP) :
    c.trigger cfg .Load a (c.entryIn .dcache a) = .ok (c.passed c.mandatoryQueue.dequeue []) := by
  have row : transition (c.stateForCopy a) .Load = some ([.ooAllocateL1DCacheBlock, .iAllocateTBE,
      .aIssueGETS, .uuProfileDataMiss, .poObserveMiss, .kPopMandatoryQueue], .IS) := by rw [hs]; rfl
  refine trigger_copy inv row ?_ (.inr hs)
  rw [passed_nil]
  exact performAll_pop hm hd [.ooAllocateL1DCacheBlock, .iAllocateTBE, .aIssueGETS,
    .uuProfileDataMiss, .poObserveMiss] (by decide)

/-- A duplicate for a line with another transaction under way is set aside. -/
theorem trigger_copy_stall (inv : c.Coherent) (hm : c.mandatoryQueue.peek = some m)
    (ha : getOffset cfg a = 0) (hs : c.stateForCopy a ∈
      [State.IS, .IM, .IS_I, .M_I, .SM, .SINK_WB_ACK, .PF_IM, .PF_SM]) :
    c.trigger cfg .Load a (c.entryIn .dcache a) =
      .ok (c.passed (c.mandatoryQueue.stallMessage a) []) := by
  have row : transition (c.stateForCopy a) .Load =
      some ([.zStallAndWaitMandatoryQueue], c.stateForCopy a) := by
    simp only [List.mem_cons, List.not_mem_nil, or_false] at hs
    obtain hs | hs | hs | hs | hs | hs | hs | hs := hs <;> rw [hs] <;> rfl
  refine trigger_copy inv row ?_ (.inl rfl)
  rw [passed_nil]
  have peek : (c.copyCtx a).peekMandatory = .ok m := by
    rw [Ctx.peekMandatory, show (c.copyCtx a).ctrl.mandatoryQueue.peek = some m from hm]
  have line : getOffset cfg (c.copyCtx a).address = 0 := ha
  simp only [Ctx.performAll, run, Ctx.perform, Ctx.zStallAndWaitMandatoryQueue, peek, Except.bind,
    line, if_true]
  rfl

theorem stateForCopy_eq (c : Controller) (a : Addr) :
    c.stateForCopy a = (c.tbeState a).getD ((c.shape .dcache a).elim .NP Prod.fst) := by
  unfold stateForCopy Ctx.state tbeState shape
  cases ht : c.tbes a with
  | some t => simp [copyCtx, Ctx.tbe, ht]
  | none =>
    cases hl : c.lookup .dcache a with
    | some e => simp [copyCtx, Ctx.tbe, ht, Ctx.cacheEntry, entryIn, hl, Entry.coherence]
    | none => simp [copyCtx, Ctx.tbe, ht, Ctx.cacheEntry, entryIn, hl]

/-- The states in which a duplicate is handled like any other load. -/
def movedByCopy : List State := [.I, .PF_IS, .PF_IS_I]

/-- In these states a duplicate changes the state of its line. -/
theorem trigger_copy_moves (hm : c.mandatoryQueue.peek = some m) (hd : m.isBCDuplicate = true)
    (hs : c.stateForCopy a ∈ movedByCopy) {c' : Controller}
    (h : c.trigger cfg .Load a (c.entryIn .dcache a) = .ok c') :
    c'.stateForCopy a ≠ c.stateForCopy a := by
  obtain ⟨y, hy, rfl⟩ := map_eq_ok.mp h
  obtain ⟨as, next, z, row, hz, hset⟩ := Ctx.doTransition_ok hy
  have hrow : (∃ as', as = as' ++ [.kPopMandatoryQueue] ∧ ∀ act ∈ as', skips act = true) ∧
      next ≠ c.stateForCopy a := by
    have row : transition (c.stateForCopy a) .Load = some (as, next) := row
    simp only [movedByCopy, List.mem_cons, List.not_mem_nil, or_false] at hs
    obtain hs | hs | hs := hs <;> rw [hs] at row ⊢ <;> cases row
    · exact ⟨⟨[_, _, _, _, _], rfl, by decide⟩, by decide⟩
    · exact ⟨⟨[_, _], rfl, by decide⟩, by decide⟩
    · exact ⟨⟨[_, _], rfl, by decide⟩, by decide⟩
  obtain ⟨⟨as', rfl, skip⟩, moved⟩ := hrow
  rw [performAll_pop (x := ⟨c, a, c.entryIn .dcache a, none, none⟩) hm hd _ skip] at hz
  cases hz
  have tbe : y.ctrl.tbeState a = (c.tbeState a).map fun _ => next :=
    (Ctx.tbeState_setState hset a).trans (if_pos rfl)
  have shape := Ctx.shape_setState hset .dcache a
  suffices y.ctrl.stateForCopy a = next from this ▸ moved
  rw [stateForCopy_eq, tbe]
  cases ht : c.tbeState a with
  | some t => rfl
  | none =>
    cases hd : c.shape .dcache a with
    | none =>
      rw [stateForCopy_eq, ht, hd] at hs
      simp [movedByCopy] at hs
    | some p =>
      have present : c.entryIn .dcache a = some .dcache := by
        rw [entryIn_eq, Ctx.isTagPresent_eq, hd]
        rfl
      rw [shape, if_pos ⟨present, rfl⟩]
      have hz : Controller.shape (Ctx.setMandatory ⟨c, a, c.entryIn .dcache a, none, none⟩
        c.mandatoryQueue.dequeue).ctrl .dcache a = some p := hd
      rw [hz]
      rfl

/-! ### Duplicate responses -/

/-- What a duplicate response may change: the processor gets its packet, and the
messages that wait for the line are woken up. -/
def told (c : Controller) (a : Addr) (pkt : Packet) : Controller :=
  { c with
    sequencer := { c.sequencer with bcCallbacks := c.sequencer.bcCallbacks ++ [pkt] }
    mandatoryQueue := c.mandatoryQueue.reanalyzeMessages a }

/-- The entry of the line and its TBE are in the same state. -/
def EntryAgrees (c : Controller) (a : Addr) : Prop :=
  ∀ side e t, c.lookup side a = some e → c.tbes a = some t → e.cacheState = t.tbeState

theorem shape_of_lookup {e : Entry} (h : c.lookup side a = some e) :
    c.shape side a = some (e.cacheState, e.permission) := by
  rw [shape, h]
  rfl

theorem Coherent.getCacheEntry_eq (inv : c.Coherent) {e : Entry} (h : c.lookup side a = some e) :
    c.getCacheEntry a = some side := by
  have here : c.entryIn side a = some side := by simp [entryIn, h]
  cases side with
  | dcache => rw [getCacheEntry, here, Option.some_or]
  | icache =>
    have away : c.shape .dcache a = none := (inv.oneCache a).resolve_right (by
      rw [shape_of_lookup h]; simp)
    have none_there : c.entryIn .dcache a = none := by
      rw [entryIn_eq, Ctx.isTagPresent_eq, away]
      rfl
    rw [getCacheEntry, none_there, here, Option.none_or]

variable {r : ResponseMsg} {pkt : Packet}

theorem responseL1NetworkIn_eq (hd : r.isBCDuplicate = true) (free : c.isBlocked r.addr = false)
    (dest : c.machineID ∈ r.destination) : c.responseL1NetworkIn cfg r =
      some (Ctx.doTransition cfg .BC_RECEIVE ⟨c, r.addr, c.getCacheEntry r.addr, some r, none⟩) := by
  simp [responseL1NetworkIn, free, assertion, dest, responseEvent, hd, Except.bind]

theorem transition_bcReceive (st : State) : transition st .BC_RECEIVE =
    some ([.hxLoadHit, .oPopIncomingResponseQueue, .kdWakeUpDependents], st) := by
  cases st <;> rfl

theorem performAll_bcReceive (hd : r.isBCDuplicate = true) (ha : getOffset cfg r.addr = 0)
    (hp : r.packetptr = some pkt) {entry : Option CacheSide} :
    Ctx.performAll cfg [.hxLoadHit, .oPopIncomingResponseQueue, .kdWakeUpDependents]
      ⟨c, r.addr, entry, some r, none⟩ = .ok ⟨c.told r.addr pkt, r.addr, entry, none, none⟩ := by
  simp [Ctx.performAll, run, Ctx.perform, Ctx.hxLoadHit, Ctx.peekResponse, hd, hp, Ctx.callback,
    readCallbackBC, makeLineAddress_of_getOffset ha, Ctx.oPopIncomingResponseQueue, Except.map,
    Except.bind, Ctx.kdWakeUpDependents, Ctx.setMandatory, told]

/-- A duplicate response does no more than it may if the entry agrees with the
TBE. -/
theorem responseL1NetworkIn_copy (inv : c.Coherent) (hd : r.isBCDuplicate = true)
    (free : c.isBlocked r.addr = false) (dest : c.machineID ∈ r.destination)
    (ha : getOffset cfg r.addr = 0) (hp : r.packetptr = some pkt) (agrees : c.EntryAgrees r.addr) :
    c.responseL1NetworkIn cfg r =
      some (.ok ⟨c.told r.addr pkt, r.addr, c.getCacheEntry r.addr, none, none⟩) := by
  rw [responseL1NetworkIn_eq hd free dest, Ctx.doTransition_eq (inv.oneCache _)
    (transition_bcReceive _), performAll_bcReceive hd ha hp]
  refine congrArg some (Ctx.setState_eq_self (inv.oneCache _) (fun t ht => ?_) fun side e he hl => ?_)
  · have ht : c.tbes r.addr = some t := ht
    simp [Ctx.state, Ctx.tbe, ht]
  · have hl : c.lookup side r.addr = some e := hl
    have state : e.cacheState = Ctx.state ⟨c, r.addr, c.getCacheEntry r.addr, some r, none⟩ := by
      cases ht : c.tbes r.addr with
      | some t => simp [Ctx.state, Ctx.tbe, ht, agrees side e t hl ht]
      | none => simp [Ctx.state, Ctx.tbe, ht, Ctx.cacheEntry, inv.getCacheEntry_eq hl, hl]
    exact ⟨state, state ▸ (inv.entry _ _ _ _ (shape_of_lookup hl)).2⟩

/-- Otherwise it gives the entry the state of the TBE. -/
theorem entryAgrees_of_responseL1NetworkIn (inv : c.Coherent) (hd : r.isBCDuplicate = true)
    (free : c.isBlocked r.addr = false) (dest : c.machineID ∈ r.destination)
    (ha : getOffset cfg r.addr = 0) (hp : r.packetptr = some pkt) {y : Ctx}
    (h : c.responseL1NetworkIn cfg r = some (.ok y)) (same : y.ctrl.shape = c.shape) :
    c.EntryAgrees r.addr := by
  rw [responseL1NetworkIn_eq hd free dest, Ctx.doTransition_eq (inv.oneCache _)
    (transition_bcReceive _), performAll_bcReceive hd ha hp] at h
  intro side e t hl ht
  have shape := Ctx.shape_setState (Option.some.inj h) side r.addr
  have line : (c.told r.addr pkt).shape side r.addr = some (e.cacheState, e.permission) :=
    shape_of_lookup hl
  rw [if_pos ⟨inv.getCacheEntry_eq hl, rfl⟩, same, shape_of_lookup hl, line, Option.map_some,
    Option.some.injEq, Prod.mk.injEq] at shape
  rw [shape.1]
  simp [Ctx.state, Ctx.tbe, ht]

end Controller

/-! ### Duplicates in a system -/

namespace System

variable {cfg : Config} {s t : System cfg} {i j : Fin cfg.numL1}

/-- L1 `i` takes the duplicate `m` off its queue or sets it aside, sends at most
the answer to the one L1 that `m` is for, and changes nothing else. -/
def RequestInvisible (s : System cfg) (i : Fin cfg.numL1) (victim : Addr) (m : RubyRequest) : Prop :=
  ∃ queue out,
    step cfg s (.mandatoryQueue i victim) = some (.ok (s.set i ((s.l1 i).passed queue out))) ∧
    (queue = (s.l1 i).mandatoryQueue.dequeue ∨
      queue = (s.l1 i).mandatoryQueue.stallMessage m.lineAddress) ∧
    (out = [] ∨ out = [(s.l1 i).view.answer m] ∧
      ∃ j : Fin cfg.numL1, j ≠ i ∧ m.netDest = [⟨.L1Cache, j⟩])

/-- The `k`-th response of L1 `i` leaves the network, L1 `j` hands its packet to
the processor and wakes up what waits for the line, and nothing else changes. -/
def ResponseInvisible (s : System cfg) (i : Fin cfg.numL1) (k : Nat) (j : Fin cfg.numL1)
    (r : ResponseMsg) : Prop :=
  ∃ pkt, r.packetptr = some pkt ∧
    step cfg s (.deliver i k j) = some (.ok ((s.take i k).set j ((s.l1 j).told r.addr pkt)))

theorem set_injective {c c' : Controller} (h : s.set i c = s.set i c') : c = c' := by
  have := congrArg (fun s : System cfg => s.l1 i) h
  simpa [l1_set] using this

theorem putBack_none (s : System cfg) (i : Fin cfg.numL1) : s.putBack i none = s := by
  simp [putBack, set]

theorem requestInvisible_iff (inv : (s.l1 i).Coherent) (version : (s.l1 i).version = i)
    (addressed : Addressed cfg (s.l1 i).view) {victim : Addr}
    (hm : (s.l1 i).mandatoryQueue.peek = some m) (hd : m.isBCDuplicate = true) :
    s.RequestInvisible i victim m ↔
      (s.l1 i).stateForCopy m.lineAddress ∉ Controller.movedByCopy := by
  obtain ⟨type, aligned, n, hn, other, dest⟩ := addressed.copies m (MessageBuffer.peek_mem hm) hd
  have handled : step cfg s (.mandatoryQueue i victim) =
      some (((s.l1 i).trigger cfg .Load m.lineAddress
        ((s.l1 i).entryIn .dcache m.lineAddress)).map (s.set i)) := by
    simp [step, atL1, Controller.mandatoryQueueIn, hm, type, hd,
      Controller.mandatoryRequestTypeToEvent, Except.bind]
  unfold RequestInvisible
  rw [handled]
  constructor
  · rintro ⟨queue, out, h, -⟩ hs
    obtain ⟨c', hc, he⟩ := map_eq_ok.mp (Option.some.inj h)
    apply Controller.trigger_copy_moves hm hd hs hc
    rw [set_injective he]
    rfl
  · intro hs
    cases st : (s.l1 i).stateForCopy m.lineAddress <;>
      simp only [st, Controller.movedByCopy, List.mem_cons, reduceCtorEq, List.not_mem_nil, or_false,
        or_true, not_true_eq_false, not_false_eq_true] at hs
    case NP =>
      rw [Controller.trigger_copy_absent inv hm hd st]
      exact ⟨_, _, rfl, .inl rfl, .inl rfl⟩
    case S | E | M =>
      rw [Controller.trigger_copy_hit inv hm hd (by simp [st])]
      refine ⟨_, _, rfl, .inl rfl, .inr ⟨rfl, ⟨n, hn⟩, fun h => other ?_, dest⟩⟩
      exact (congrArg Fin.val h).trans version.symm
    all_goals
      rw [Controller.trigger_copy_stall inv hm aligned (by simp [st])]
      exact ⟨_, _, rfl, .inr rfl, .inl rfl⟩

theorem responseInvisible_iff (inv : (s.l1 j).Coherent) (version : ∀ i, (s.l1 i).version = i)
    (addressed : Addressed cfg (s.l1 i).view) {k : Nat} {r : ResponseMsg}
    (hk : (s.l1 i).responseL1NetworkOut[k]? = some r) (hd : r.isBCDuplicate = true)
    (dest : ⟨.L1Cache, j⟩ ∈ r.destination) (free : (s.l1 j).isBlocked r.addr = false) :
    s.ResponseInvisible i k j r ↔ (s.l1 j).EntryAgrees r.addr := by
  have sent : r ∈ (s.l1 i).view.sent :=
    List.mem_filter.mpr ⟨List.mem_of_getElem? hk, by simpa using hd⟩
  obtain ⟨aligned, ⟨pkt, hp⟩, n, -, other, only⟩ := addressed.answers r sent
  have hji : j ≠ i := by
    rintro rfl
    rw [only, List.mem_singleton, MachineID.mk.injEq] at dest
    exact other (dest.2.symm.trans (version j).symm)
  have self : (s.l1 j).machineID ∈ r.destination := by
    rw [Controller.machineID, version j]
    exact dest
  have there : (s.take i k).l1 j = s.l1 j := by rw [take, l1_set, if_neg hji]
  constructor
  · rintro ⟨pkt', hp', h⟩
    obtain ⟨r', y, hk', -, -, hy, he⟩ := deliver_ok h
    cases hk.symm.trans hk'
    rw [Controller.responseL1NetworkIn_popped hd hy, putBack_none] at he
    rw [there] at hy
    refine Controller.entryAgrees_of_responseL1NetworkIn inv hd free self aligned hp hy ?_
    rw [← set_injective he]
    rfl
  · intro agrees
    refine ⟨pkt, hp, ?_⟩
    have hy := Controller.responseL1NetworkIn_copy inv hd free self aligned hp agrees
    simp [step, deliver, hk, hd, dest, there, hy, Except.map, putBack_none]

/-- In every run, a duplicate request is invisible to coherence just if its line
is not in one of the states that a duplicate moves on, and a duplicate response
just if the entry of its line agrees with the TBE. -/
theorem duplicates_invisible_iff (h : (machine cfg).Reaches (fun _ _ => True) s) :
    (∀ i victim m, (s.l1 i).mandatoryQueue.peek = some m → m.isBCDuplicate = true →
      (s.RequestInvisible i victim m ↔
        (s.l1 i).stateForCopy m.lineAddress ∉ Controller.movedByCopy)) ∧
    ∀ i k j r, (s.l1 i).responseL1NetworkOut[k]? = some r → r.isBCDuplicate = true →
      ⟨.L1Cache, j⟩ ∈ r.destination → (s.l1 j).isBlocked r.addr = false →
      (s.ResponseInvisible i k j r ↔ (s.l1 j).EntryAgrees r.addr) := by
  have version (i : Fin cfg.numL1) := (addressed_of_reaches h i).1
  constructor
  · intro i victim m hm hd
    exact requestInvisible_iff (coherent_of_reaches h i) (version i) (addressed_of_reaches h i).2 hm hd
  · intro i k j r hk hd dest free
    exact responseInvisible_iff (coherent_of_reaches h j) version (addressed_of_reaches h i).2
      hk hd dest free

end System

/-! ### Runs of two L1s -/

/-- Two L1s with prefetching, each with an instruction and a data cache of one
line. -/
def pair : Config where
  blockSizeBits := 6
  numL1 := 2
  l2SelectNumBits := 0
  sendEvictions := false
  enablePrefetch := true
  maxOutstandingRequests := 16
  icacheSetBits := 0
  icacheAssoc := 1
  dcacheSetBits := 0
  dcacheAssoc := 1

namespace pair

def first : Fin pair.numL1 := ⟨0, by decide⟩

def second : Fin pair.numL1 := ⟨1, by decide⟩

/-- A read of eight bytes. -/
def read (i : Fin pair.numL1) (id : Nat) (addr : Addr) (isBroadcast : Bool) : Packet where
  requestorId := i
  id
  addr
  size := 8
  data := []
  isRead := true
  isWrite := false
  isLLSC := false
  isLockedRMW := false
  isInstFetch := false
  isReadModifyWrite := false
  isFlush := false
  isBroadcast

/-- Data from the L2. -/
def fill (i : Fin pair.numL1) (addr : Addr) : ResponseMsg where
  addr
  type := .DATA
  sender := ⟨.L2Cache, 0⟩
  destination := [⟨.L1Cache, i⟩]
  messageSize := .ResponseData

def invalidate (addr : Addr) : RequestMsg where
  addr
  type := .INV
  requestor := ⟨.L1Cache, second⟩
  destination := [⟨.L1Cache, first⟩]
  messageSize := .Control

/-- A broadcast read misses and is filled. -/
def filled : List (Step pair) :=
  [.makeRequest first (read first 0 64 true), .mandatoryQueue first 0, .response first (fill first 64)]

/-- The line is invalidated before it is filled. -/
def invalidated : List (Step pair) :=
  [.makeRequest first (read first 0 64 true), .mandatoryQueue first 0,
    .request first (invalidate 64), .response first (fill first 64)]

/-- After the fill the line makes room for a prefetch and is itself prefetched
into the instruction cache, and the duplicate comes in between. The other L1 sends
a duplicate of the same line. -/
def prefetched : List (Step pair) :=
  [.makeRequest first (read first 0 64 true), .mandatoryQueue first 0,
    .makeRequest first (read first 1 128 false), .response first (fill first 64),
    .enqueuePrefetch first 192 .LD, .optionalQueue first 64, .optionalQueue first 0,
    .enqueuePrefetch first 64 .IFETCH, .optionalQueue first 0,
    .mandatoryQueue first 192, .mandatoryQueue first 0,
    .makeRequest second (read second 2 64 true), .mandatoryQueue second 0,
    .response second (fill second 64), .mandatoryQueue second 0]

/-- The states of a run of two L1s. -/
theorem reaches_of_run {as : List (Step pair)} {s : System pair}
    (h : (machine pair).run (machine pair).start as = some s) :
    (machine pair).Reaches (fun _ _ => True) s :=
  Machine.Reaches.run .start as (fun _ _ => trivial) h

end pair

namespace System

open pair

theorem duplicates_invisible_filled :
    ∃ s : System pair, (machine pair).run (machine pair).start filled = some s ∧
      ∃ m, (s.l1 first).mandatoryQueue.peek = some m ∧ m.isBCDuplicate = true ∧
        s.RequestInvisible first 0 m := by
  have observed : ((machine pair).run (machine pair).start filled).map (fun s =>
      ((s.l1 first).mandatoryQueue.peek.map fun m =>
        (m.isBCDuplicate, (s.l1 first).stateForCopy m.lineAddress))) = some (some (true, .S)) := by
    decide +kernel
  obtain ⟨s, hs, hm⟩ := Option.map_eq_some_iff.mp observed
  obtain ⟨m, hm, he⟩ := Option.map_eq_some_iff.mp hm
  obtain ⟨hd, hst⟩ := Prod.mk.inj he
  refine ⟨s, hs, m, hm, hd, ((duplicates_invisible_iff (reaches_of_run hs)).1 first 0 m hm hd).mpr ?_⟩
  rw [hst]
  decide

/-- A duplicate takes the line from `I` to `IS`, and another one writes the state
of a TBE to an entry that was in a different state. -/
theorem duplicates_visible :
    (∃ s : System pair, (machine pair).run (machine pair).start invalidated = some s ∧
      ∃ m, (s.l1 first).mandatoryQueue.peek = some m ∧ m.isBCDuplicate = true ∧
        ¬ s.RequestInvisible first 0 m) ∧
    ∃ s : System pair, (machine pair).run (machine pair).start prefetched = some s ∧
      ∃ r, (s.l1 second).responseL1NetworkOut[0]? = some r ∧ r.isBCDuplicate = true ∧
        (s.l1 first).isBlocked r.addr = false ∧ ¬ s.ResponseInvisible second 0 first r := by
  constructor
  · have observed : ((machine pair).run (machine pair).start invalidated).any (fun s =>
        decide ((s.l1 first).mandatoryQueue.peek.map RubyRequest.isBCDuplicate = some true) &&
        decide ((s.l1 first).shape .dcache 64 = some (.I, .Invalid)) &&
        decide (((machine pair).act s (.mandatoryQueue first 0)).map
          (fun t => (t.l1 first).shape .dcache 64) = some (some (.IS, .Busy)))) = true := by
      decide +kernel
    obtain ⟨s, hs, he⟩ := (Option.any_eq_true _ _).mp observed
    simp only [Bool.and_eq_true, decide_eq_true_eq] at he
    obtain ⟨⟨hm, before⟩, after⟩ := he
    obtain ⟨m, hm, hd⟩ := Option.map_eq_some_iff.mp hm
    refine ⟨s, hs, m, hm, hd, ?_⟩
    rintro ⟨queue, out, h, -⟩
    rw [Machine.act_eq_some.mpr h] at after
    have same : ((s.set first ((s.l1 first).passed queue out)).l1 first).shape .dcache 64 =
        (s.l1 first).shape .dcache 64 := by
      rfl
    simp [same, before] at after
  · have observed : ((machine pair).run (machine pair).start prefetched).any (fun s =>
        decide (((s.l1 second).responseL1NetworkOut[0]?.map fun r =>
          (r.isBCDuplicate, (s.l1 first).isBlocked r.addr)) = some (true, false)) &&
        decide ((s.l1 first).shape .icache 64 = some (.PF_IS, .Busy)) &&
        decide (((machine pair).act s (.deliver second 0 first)).map
          (fun t => (t.l1 first).shape .icache 64) = some (some (.IS, .Busy)))) = true := by
      decide +kernel
    obtain ⟨s, hs, he⟩ := (Option.any_eq_true _ _).mp observed
    simp only [Bool.and_eq_true, decide_eq_true_eq] at he
    obtain ⟨⟨hr, before⟩, after⟩ := he
    obtain ⟨r, hr, he⟩ := Option.map_eq_some_iff.mp hr
    obtain ⟨hd, free⟩ := Prod.mk.inj he
    refine ⟨s, hs, r, hr, hd, free, ?_⟩
    rintro ⟨pkt, -, h⟩
    rw [Machine.act_eq_some.mpr h] at after
    have same : (((s.take second 0).set first ((s.l1 first).told r.addr pkt)).l1 first).shape
        .icache 64 = (s.l1 first).shape .icache 64 := by
      rfl
    simp [same, before] at after

end System

end Ruby

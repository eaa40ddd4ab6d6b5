import Lab447.Ruby.Duplicate

/-!
The desk of an L1: its sequencer, its mandatory queue, the duplicates it has sent,
and for each line whether a demand for it is under way. Every step of a
controller is one of a few moves on its desk, as long as duplicates are handled
only for lines that are there and not about to be invalid.
-/

namespace Ruby

open Script

/-- A demand request has left the queue and waits for its response. -/
def State.demanded : State → Bool
  | IS | IS_I | IM | SM => true
  | _ => false

namespace Controller

/-- The state of a line. -/
def lineState (c : Controller) (a : Addr) : State :=
  (c.tbeState a).getD (((c.shape .dcache a).or (c.shape .icache a)).elim .NP Prod.fst)

def pending (c : Controller) (a : Addr) : Bool := (c.lineState a).demanded

theorem pending_congr {c c' : Controller} (shape : c'.shape = c.shape)
    (tbe : c'.tbeState = c.tbeState) : c'.pending = c.pending := by
  funext a
  simp only [pending, lineState, shape, tbe]

end Controller

/-! ### The state a transition leaves -/

variable {as : List Action} {event : Event} {next : State}

namespace Ctx

variable {cfg : Config} {x y z : Ctx} {a : Action}

/-- `cache_entry` points to the one entry of the line. -/
def Pointed (x : Ctx) : Prop :=
  ∀ side, (x.ctrl.shape side x.address).isSome ↔ x.entry = some side

theorem Pointed.still (h : Still x y) (pointed : Pointed x) : Pointed y := by
  unfold Pointed
  rw [h.address, h.entry, h.shape]
  exact pointed

theorem perform_pointed (pointed : Pointed x) (h : x.perform cfg a = .ok y) : Pointed y := by
  have block {side : CacheSide} {z : Ctx} (h : x.allocateBlock cfg side = .ok z) : Pointed z := by
    obtain ⟨-, rfl⟩ | ⟨hnone, haddr, hentry, -, -, hshape⟩ := allocateBlock_ok h
    · exact pointed
    · intro side'
      have absent := (pointed side').not.mpr (by simp [hnone])
      rw [haddr, hentry, hshape]
      by_cases hs : side' = side
      · simp [hs]
      · simp only [hs, false_and, if_false, Option.some.injEq]
        exact iff_of_false absent (Ne.symm hs)
  cases a
  case ooAllocateL1DCacheBlock =>
    obtain ⟨m, -, h⟩ := bind_eq_ok.mp h
    split at h
    · cases h
      exact pointed
    · exact block h
  case ppAllocateL1ICacheBlock => exact block h
  case ffDeallocateL1CacheBlock =>
    obtain ⟨haddr, hentry, -, -, side, there, -, hshape⟩ := ffDeallocateL1CacheBlock_ok h
    intro side'
    rw [haddr, hentry, hshape]
    by_cases hs : side' = side
    · simp [hs]
    · have other : ¬ (x.ctrl.shape side' x.address).isSome := fun h' =>
        hs (Option.some.inj (((pointed side').mp h').symm.trans ((pointed side).mp there)))
      simpa [hs] using other
  case iAllocateTBE =>
    obtain ⟨-, rfl⟩ | ⟨-, t, rfl, -⟩ := iAllocateTBE_ok h
    · exact pointed
    · exact pointed
  case sDeallocateTBE =>
    obtain ⟨-, rfl⟩ | rfl := sDeallocateTBE_ok h
    · exact pointed
    · exact pointed
  all_goals exact pointed.still (perform_still rfl h)

/-- The line has a TBE or an entry. -/
def Present (x : Ctx) : Prop :=
  (x.ctrl.tbeState x.address).isSome ∨ ∃ side, (x.ctrl.shape side x.address).isSome

/-- The actions that remove a TBE or an entry. -/
def removes : Action → Bool
  | .ffDeallocateL1CacheBlock | .sDeallocateTBE => true
  | _ => false

theorem allocateBlock_present {side : CacheSide} (pointed : Pointed x)
    (h : x.allocateBlock cfg side = .ok y) : Present y := by
  obtain ⟨he, rfl⟩ | ⟨-, haddr, -, -, -, hshape⟩ := allocateBlock_ok h
  · obtain ⟨side', he⟩ := Option.isSome_iff_exists.mp he
    exact .inr ⟨side', (pointed side').mpr he⟩
  · exact .inr ⟨side, by simp [haddr, hshape]⟩

theorem perform_present (pointed : Pointed x) (ha : removes a = false) (present : Present x)
    (h : x.perform cfg a = .ok y) : Present y := by
  cases a <;> cases ha
  case ooAllocateL1DCacheBlock =>
    obtain ⟨m, -, h⟩ := bind_eq_ok.mp h
    split at h
    · cases h
      exact present
    · exact allocateBlock_present pointed h
  case ppAllocateL1ICacheBlock => exact allocateBlock_present pointed h
  case iAllocateTBE =>
    obtain ⟨-, rfl⟩ | ⟨-, t, rfl, -⟩ := iAllocateTBE_ok h
    · exact present
    · refine .inl ?_
      have := tbeState_setTBE x (some t) x.address
      rw [if_pos rfl] at this
      exact Option.isSome_of_eq_some this
  all_goals
    have still := perform_still rfl h
    unfold Present
    rw [still.address, still.tbe, still.shape]
    exact present

theorem performAll_present (pointed : Pointed x) (present : Present x)
    (ha : ∀ a ∈ as, removes a = false) (h : x.performAll cfg as = .ok y) : Present y := by
  have both := run_keeps (P := fun x => Pointed x ∧ Present x)
    (fun a hm _ _ inv hy => ⟨perform_pointed inv.1 hy, perform_present inv.1 (ha a hm) inv.2 hy⟩)
    h ⟨pointed, present⟩
  exact both.2

theorem Pointed.state_eq (pointed : Pointed x) : x.state = x.ctrl.lineState x.address := by
  unfold Controller.lineState
  cases ht : x.ctrl.tbeState x.address with
  | some t => exact state_of_tbe ht
  | none =>
    have shape (side : CacheSide) (he : x.entry = some side) :
        ∃ p, x.ctrl.shape side x.address = some p :=
      Option.isSome_iff_exists.mp ((pointed side).mpr he)
    have absent (side : CacheSide) (he : x.entry ≠ some side) :
        x.ctrl.shape side x.address = none := by
      simpa using (pointed side).not.mpr he
    cases he : x.entry with
    | none =>
      have htbe : x.ctrl.tbes x.address = none := by simpa [Controller.tbeState] using ht
      rw [absent .dcache (by simp [he]), absent .icache (by simp [he])]
      simp [state, tbe, htbe, cacheEntry, he]
    | some side =>
      obtain ⟨⟨st, p⟩, hp⟩ := shape side he
      rw [state_of_entry ht he hp]
      cases side with
      | dcache => rw [hp]; rfl
      | icache =>
        rw [absent .dcache (by simp [he]), hp]
        rfl

theorem present_of_state (h : x.state ≠ .NP) : Present x := by
  cases ht : x.tbe with
  | some t =>
    refine .inl ?_
    rw [Controller.tbeState, show x.ctrl.tbes x.address = some t from ht]
    rfl
  | none =>
    cases he : x.cacheEntry with
    | none => simp [state, ht, he] at h
    | some e =>
      obtain ⟨side, -, hl⟩ := Option.bind_eq_some_iff.mp he
      exact .inr ⟨side, by rw [Controller.shape, hl]; rfl⟩

/-- Where a demand is under way afterwards, nothing is removed, and the line was
there before or the first action allocates it. -/
theorem row_demanded {st : State} (h : transition st event = some (as, next))
    (hn : next.demanded = true) : (∀ a ∈ as, removes a = false) ∧ (st ≠ .NP ∨
      as.head? = some .ppAllocateL1ICacheBlock ∨
      as.head? = some .ooAllocateL1DCacheBlock ∧ (event = .Load ∨ event = .Store)) :=
  transition_row (P := fun st event as next => next.demanded = true →
    (∀ a ∈ as, removes a = false) ∧ (st ≠ .NP ∨ as.head? = some .ppAllocateL1ICacheBlock ∨
      as.head? = some .ooAllocateL1DCacheBlock ∧ (event = .Load ∨ event = .Store)))
    (by decide +kernel) h hn

/-- The line of a transition is in the next state afterwards, as far as demands
go; the other lines are as they were. -/
theorem doTransition_pending (pointed : Pointed x) (asked : event = .Load ∨ event = .Store →
      ∃ m, x.ctrl.mandatoryQueue.peek = some m ∧ m.isBCDuplicate = false)
    (row : transition x.state event = some (as, next)) (h : x.doTransition cfg event = .ok y) :
    y.ctrl.pending = Function.update x.ctrl.pending x.address next.demanded := by
  obtain ⟨as', next', z, row', hz, hy⟩ := doTransition_ok h
  cases row.symm.trans row'
  have near := performAll_nearby hz
  have pointedz : Pointed z :=
    run_keeps (P := Pointed) (fun _ _ _ _ pointed hw => perform_pointed pointed hw) hz pointed
  have shape := shape_setState hy
  have tbe := tbeState_setState hy
  funext b
  by_cases hb : b = x.address
  · subst hb
    rw [Function.update_self]
    have shape_line (side : CacheSide) : y.ctrl.shape side x.address =
        (z.ctrl.shape side x.address).map fun _ => (next, next.toPermission) := by
      rw [shape]
      split
      · rfl
      · rename_i hn
        have absent : z.ctrl.shape side z.address = none := by
          simpa using (pointedz side).not.mpr fun he => hn ⟨he, near.address.symm⟩
        rw [near.address] at absent
        rw [absent]
        rfl
    have present (hn : next.demanded = true) : Present z := by
      obtain ⟨keep, there | first⟩ := row_demanded row hn
      · exact performAll_present pointed (present_of_state there) keep hz
      · cases as with
        | nil => simp at first
        | cons a rest =>
          obtain ⟨u, hu, hrest⟩ := run_cons.mp hz
          have : Present u := by
            obtain first | ⟨first, he⟩ := first
            · cases first
              exact allocateBlock_present pointed hu
            · cases first
              obtain ⟨m, hm, hd⟩ := asked he
              obtain ⟨m', hm', hu⟩ := bind_eq_ok.mp hu
              cases hm.symm.trans (peekMandatory_ok hm')
              rw [hd] at hu
              exact allocateBlock_present pointed hu
          exact performAll_present (perform_pointed pointed hu) this
            (fun b hb => keep b (.tail a hb)) hrest
    unfold Controller.pending Controller.lineState
    rw [tbe, if_pos near.address.symm, shape_line, shape_line]
    cases ht : z.ctrl.tbeState x.address with
    | some t => rfl
    | none =>
      cases hd : z.ctrl.shape .dcache x.address with
      | some p => rfl
      | none =>
        cases hi : z.ctrl.shape .icache x.address with
        | some p => rfl
        | none =>
          cases hn : next.demanded with
          | false => rfl
          | true =>
            obtain h | ⟨side, h⟩ := present hn
            · simp [near.address, ht] at h
            · cases side <;> simp [near.address, hd, hi] at h
  · rw [Function.update_of_ne hb]
    have hbz : b ≠ z.address := near.address ▸ hb
    simp [Controller.pending, Controller.lineState, shape, tbe, hbz, near.shape _ b hb,
      near.tbe b hb]

end Ctx

/-! ### Moves -/

/-- What one step does to a desk: the view of the controller, and the lines a
demand is under way for. -/
inductive Move (cfg : Config) (pending pending' : Addr → Bool) (v v' : View) : Prop
  | shuffled {q : MessageBuffer RubyRequest} : v' = { v with queue := q } →
      q.messages.Perm v.queue.messages → pending' = pending → Move cfg pending pending' v v'
  | taken {m : RubyRequest} {q : MessageBuffer RubyRequest} : m.isBCDuplicate = false →
      v' = { v with queue := q } → (m :: q.messages).Perm v.queue.messages →
      pending' = Function.update pending m.lineAddress true → Move cfg pending pending' v v'
  | answered {m : RubyRequest} {q : MessageBuffer RubyRequest} : m.isBCDuplicate = true →
      v' = { v with queue := q, sent := v.sent ++ [v.answer m] } →
      (m :: q.messages).Perm v.queue.messages → pending' = pending → Move cfg pending pending' v v'
  | loadHit {m : RubyRequest} : m.isBCDuplicate = false → m ∈ v.queue.messages →
      Loaded cfg m.lineAddress [m] v v' → pending' = pending → Move cfg pending pending' v v'
  | ifetchHit {m : RubyRequest} : m.isBCDuplicate = false → m ∈ v.queue.messages →
      m.type = .IFETCH → Fetched cfg m.lineAddress [m] v v' → pending' = pending →
      Move cfg pending pending' v v'
  | storeHit {m : RubyRequest} : m.isBCDuplicate = false → m ∈ v.queue.messages →
      Stored m.lineAddress [m] v v' → pending' = pending → Move cfg pending pending' v v'
  | fill {a : Addr} : pending a = true → Loaded cfg a [] v v' →
      pending' = Function.update pending a false → Move cfg pending pending' v v'
  | storeFill {a : Addr} : pending a = true → Stored a [] v v' →
      pending' = Function.update pending a false → Move cfg pending pending' v v'

namespace Ctx

variable {cfg : Config} {x y : Ctx} {event : Event}

/-- The events of the processor's requests. -/
def demands : List Event := [.Load, .Ifetch, .Store]

/-- How a transition of each kind changes whether a demand is under way. -/
def Kind.fits : Kind → State → Event → State → Bool
  | .idle, st, _, next => next.demanded == st.demanded
  | .taken, st, event, next => !st.demanded && next.demanded && decide (event ∈ demands)
  | .loadHit, st, event, next => !st.demanded && !next.demanded && decide (event = .Load)
  | .ifetchHit, st, event, next => !st.demanded && !next.demanded && decide (event = .Ifetch)
  | .storeHit, st, event, next => !st.demanded && !next.demanded && decide (event = .Store)
  | .fill, st, event, next =>
    if event = .BC_RECEIVE then decide (next = st) else st.demanded && !next.demanded
  | .storeFill, st, _, next => st.demanded && !next.demanded

theorem row_fits {st : State} (h : transition st event = some (as, next)) :
    Kind.fits (kindOf as) st event next = true :=
  transition_row (P := fun st event as next => Kind.fits (kindOf as) st event next = true)
    (by decide +kernel) h

/-- Every transition that is not for a duplicate is a move. -/
theorem doTransition_move (pointed : Pointed x) (plain : Plain x) (ne : event ≠ .BC_RECEIVE)
    (asked : event ∈ demands → ∃ m, x.ctrl.mandatoryQueue.peek = some m ∧ m.isBCDuplicate = false ∧
      m.lineAddress = x.address ∧ (event = .Ifetch → m.type = .IFETCH))
    (h : x.doTransition cfg event = .ok y) :
    Move cfg x.ctrl.pending y.ctrl.pending x.ctrl.view y.ctrl.view := by
  obtain ⟨as, next, row, effect⟩ := doTransition_effect
    (fun he => (asked (by simp [he, demands])).imp fun _ hm => hm.1) h
  have pending := doTransition_pending pointed (fun he => (asked (by
    obtain rfl | rfl := he <;> simp [demands])).imp fun _ hm => ⟨hm.1, hm.2.1⟩) row h
  have before : x.ctrl.pending x.address = x.state.demanded := by
    rw [Controller.pending, pointed.state_eq]
  have fits := row_fits row
  have same (hn : next.demanded = x.state.demanded) : y.ctrl.pending = x.ctrl.pending := by
    rw [pending, hn, ← before, Function.update_eq_self]
  generalize kindOf as = k at effect fits
  cases effect with
  | idle he hq =>
    exact .shuffled he hq (same (by simpa [Kind.fits] using fits))
  | taken hm he hq =>
    simp only [Kind.fits, Bool.and_eq_true, Bool.not_eq_true', decide_eq_true_eq] at fits
    obtain ⟨m, hm', hd, hl, -⟩ := asked fits.2
    cases hm.symm.trans hm'
    rw [fits.1.2] at pending
    exact .taken hd he hq (hl ▸ pending)
  | answered hm hdup _ _ =>
    simp only [Kind.fits, Bool.and_eq_true, decide_eq_true_eq] at fits
    obtain ⟨m, hm', hd, -⟩ := asked (by simp [fits.2, demands])
    cases hm.symm.trans hm'
    rw [hd] at hdup
    cases hdup
  | loadHit hm hd loaded =>
    simp only [Kind.fits, Bool.and_eq_true, Bool.not_eq_true', decide_eq_true_eq] at fits
    obtain ⟨m, hm', -, hl, -⟩ := asked (by simp [fits.2, demands])
    cases hm.symm.trans hm'
    exact .loadHit hd (MessageBuffer.peek_mem hm) (hl ▸ loaded) (same (by rw [fits.1.1, fits.1.2]))
  | ifetchHit hm fetched =>
    simp only [Kind.fits, Bool.and_eq_true, Bool.not_eq_true', decide_eq_true_eq] at fits
    obtain ⟨m, hm', hd, hl, ht⟩ := asked (by simp [fits.2, demands])
    cases hm.symm.trans hm'
    exact .ifetchHit hd (MessageBuffer.peek_mem hm) (ht fits.2) (hl ▸ fetched)
      (same (by rw [fits.1.1, fits.1.2]))
  | storeHit hm stored =>
    simp only [Kind.fits, Bool.and_eq_true, Bool.not_eq_true', decide_eq_true_eq] at fits
    obtain ⟨m, hm', hd, hl, -⟩ := asked (by simp [fits.2, demands])
    cases hm.symm.trans hm'
    exact .storeHit hd (MessageBuffer.peek_mem hm) (hl ▸ stored) (same (by rw [fits.1.1, fits.1.2]))
  | received hr hdup _ _ _ =>
    rw [plain _ hr] at hdup
    cases hdup
  | fill _ _ loaded =>
    simp only [Kind.fits, if_neg ne, Bool.and_eq_true, Bool.not_eq_true'] at fits
    rw [fits.2] at pending
    exact .fill (before.trans fits.1) loaded pending
  | storeFill stored =>
    simp only [Kind.fits, Bool.and_eq_true, Bool.not_eq_true'] at fits
    rw [fits.2] at pending
    exact .storeFill (before.trans fits.1) stored pending

end Ctx

namespace Controller

variable {cfg : Config} {c c' : Controller} {a : Addr} {entry : Option CacheSide}

theorem Points.pointed (inv : c.Coherent) (h : c.Points a entry) (response : Option ResponseMsg)
    (request : Option RequestMsg) : Ctx.Pointed ⟨c, a, entry, response, request⟩ := by
  intro side
  cases h with
  | here there present =>
    rw [Ctx.isTagPresent_eq] at present
    by_cases hs : side = there
    · simp [hs, present]
    · have one := inv.oneCache a
      have absent : c.shape side a = none := by
        cases side <;> cases there <;> first | exact absurd rfl hs | skip
        · exact one.resolve_left (by intro h; simp [h] at present)
        · exact one.resolve_right (by intro h; simp [h] at present)
      simp [absent, Ne.symm hs]
  | nowhere absent =>
    have := absent side
    rw [Ctx.isTagPresent_eq] at this
    simp [this]

theorem trigger_move (inv : c.Coherent) (points : c.Points a entry) (ne : event ≠ .BC_RECEIVE)
    (asked : event ∈ Ctx.demands → ∃ m, c.mandatoryQueue.peek = some m ∧
      m.isBCDuplicate = false ∧ m.lineAddress = a ∧ (event = .Ifetch → m.type = .IFETCH))
    (h : c.trigger cfg event a entry = .ok c') : Move cfg c.pending c'.pending c.view c'.view := by
  obtain ⟨y, hy, rfl⟩ := map_eq_ok.mp h
  exact Ctx.doTransition_move (points.pointed inv _ _) (fun _ hm => by cases hm) ne asked hy

/-- The states in which a duplicate is not answered, now or later. -/
def lostToCopy : List State := .NP :: movedByCopy

theorem mandatoryQueueIn_move {victim : Addr} (inv : c.Coherent) (addressed : Addressed cfg c.view)
    (careful : ∀ m, c.mandatoryQueue.peek = some m → m.isBCDuplicate = true →
      c.stateForCopy m.lineAddress ∉ lostToCopy)
    (h : c.mandatoryQueueIn cfg victim = some (.ok c')) :
    Move cfg c.pending c'.pending c.view c'.view := by
  obtain ⟨m, hm, handled⟩ := mandatoryQueueIn_handled h
  have copy (hd : m.isBCDuplicate = true) := addressed.copies m (MessageBuffer.peek_mem hm) hd
  cases handled with
  | @demanded event entry he points plain ht =>
    have hd : m.isBCDuplicate = false := by
      obtain hi | hd := plain
      · by_contra hd
        rw [(copy (by simpa using hd)).1] at hi
        cases hi
      · exact hd
    refine trigger_move inv points ?_ (fun _ => ⟨m, hm, hd, rfl, ?_⟩) ht
    · rintro rfl
      cases hty : m.type <;> rw [hty] at he <;> cases he
    · rintro rfl
      cases hty : m.type <;> rw [hty] at he <;> cases he
  | copied he _ hd ht =>
    obtain ⟨type, aligned, -⟩ := copy hd
    rw [type] at he
    cases he
    have safe := careful m hm hd
    cases st : c.stateForCopy m.lineAddress <;>
      simp only [st, lostToCopy, movedByCopy, List.mem_cons, reduceCtorEq, List.not_mem_nil, or_false,
        or_true, not_true_eq_false, not_false_eq_true] at safe
    case S | E | M =>
      rw [trigger_copy_hit inv hm hd (by simp [st])] at ht
      cases ht
      refine .answered hd ?_ (.of_eq (MessageBuffer.messages_dequeue hm).symm) rfl
      simp [passed, view, View.answer]
    all_goals
      rw [trigger_copy_stall inv hm aligned (by simp [st])] at ht
      cases ht
      exact .shuffled (q := c.mandatoryQueue.stallMessage m.lineAddress) (by simp [passed, view])
        (MessageBuffer.messages_stallMessage _ _) rfl
  | replaced points ht =>
    exact trigger_move inv points (by simp) (by simp [Ctx.demands]) ht
  | delayed he =>
    subst he
    exact .shuffled rfl (MessageBuffer.messages_delayHead _) rfl

theorem optionalQueueIn_move {victim : Addr} (inv : c.Coherent)
    (h : c.optionalQueueIn cfg victim = some (.ok c')) :
    Move cfg c.pending c'.pending c.view c'.view := by
  obtain ⟨event, a, entry, points, he, ht⟩ := optionalQueueIn_cases h
  refine trigger_move inv points ?_ ?_ ht
  · rintro rfl
    simp at he
  · intro hd
    simp only [Ctx.demands, List.mem_cons, List.not_mem_nil, or_false] at hd
    obtain rfl | rfl | rfl := hd <;> simp at he

theorem requestL1NetworkIn_move {m : RequestMsg} {y : Ctx} (inv : c.Coherent)
    (h : c.requestL1NetworkIn cfg m = some (.ok y)) :
    Move cfg c.pending y.ctrl.pending c.view y.ctrl.view := by
  obtain ⟨event, he, hy⟩ := requestL1NetworkIn_ok h
  have he := requestEvent_mem he
  refine Ctx.doTransition_move ((points_getCacheEntry c m.addr).pointed inv _ _)
    (fun _ hm => by cases hm) ?_ ?_ hy
  · rintro rfl
    simp at he
  · intro hd
    simp only [Ctx.demands, List.mem_cons, List.not_mem_nil, or_false] at hd
    obtain rfl | rfl | rfl := hd <;> simp at he

theorem responseL1NetworkIn_move {m : ResponseMsg} {y : Ctx} (inv : c.Coherent)
    (hd : m.isBCDuplicate = false) (h : c.responseL1NetworkIn cfg m = some (.ok y)) :
    Move cfg c.pending y.ctrl.pending c.view y.ctrl.view := by
  obtain ⟨event, he, hy⟩ := responseL1NetworkIn_ok h
  obtain ⟨hdup, -⟩ | ⟨-, he⟩ := responseEvent_mem he
  · rw [hd] at hdup
    cases hdup
  refine Ctx.doTransition_move ((points_getCacheEntry c m.addr).pointed inv _ _)
    (fun m' hm => by cases hm; exact hd) ?_ ?_ hy
  · rintro rfl
    simp [responses] at he
  · intro hd
    simp only [Ctx.demands, List.mem_cons, List.not_mem_nil, or_false] at hd
    obtain rfl | rfl | rfl := hd <;> simp [responses] at he

/-- A duplicate response hands over its packet. -/
theorem responseL1NetworkIn_received {m : ResponseMsg} {y : Ctx} (inv : c.Coherent)
    (hd : m.isBCDuplicate = true) (h : c.responseL1NetworkIn cfg m = some (.ok y)) :
    ∃ pkt q, m.packetptr = some pkt ∧ y.ctrl.pending = c.pending ∧
      y.ctrl.view = { c.view with
        queue := q
        sequencer := { c.sequencer with bcCallbacks := c.sequencer.bcCallbacks ++ [pkt] } } ∧
      q.messages.Perm c.mandatoryQueue.messages := by
  obtain ⟨event, he, hy⟩ := responseL1NetworkIn_ok h
  obtain ⟨-, rfl⟩ | ⟨hdup, -⟩ := responseEvent_mem he
  · have pointed := (points_getCacheEntry c m.addr).pointed inv (some m) none
    obtain ⟨as, next, row, effect⟩ := Ctx.doTransition_effect (by simp) hy
    have pending := Ctx.doTransition_pending pointed (by simp) row hy
    obtain ⟨rfl, rfl⟩ := Ctx.row_bcReceive row
    rw [pointed.state_eq] at pending
    have same : y.ctrl.pending = c.pending :=
      pending.trans (Function.update_eq_self m.addr c.pending)
    cases effect with
    | received hr _ hp hview hq =>
      cases hr
      exact ⟨_, _, hp, same, hview, hq⟩
    | fill hr hdup _ =>
      cases hr
      rw [hd] at hdup
      cases hdup
  · rw [hd] at hdup
    cases hdup

end Controller

end Ruby

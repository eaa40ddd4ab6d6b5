import Lab447.EventQ.Bins
import Lab447.Lib.Script

/-!
Every run of the event queue: its bins hold the scheduled events, in the order in
which they are to be served.
-/

namespace EventQ

open Linked StableQueue Script

/-- `x` is served before `y`. -/
def Ahead (a : Agenda EventId Key) (x y : EventId) : Prop :=
  ∀ sx sy, a.slot x = some sx → a.slot y = some sy → sx.Before sy

/-- A change to the flags of an event only. -/
def SetsFlags (f : Event → Event) : Prop :=
  ∀ e, (f e).nextBin = e.nextBin ∧ (f e).nextInBin = e.nextInBin ∧ (f e).key = e.key

/-- The bins of the queue hold the items of the agenda, in their order, and none
of them is in the past. -/
structure Held (q : EventQueue) (a : Agenda EventId Key) (bins : List Bin) : Prop where
  represents : q.Represents bins
  binned : Binned q.key bins
  nodup : (entries bins).Nodup
  allocated : ∀ e ∈ entries bins, e < q.instanceCounter
  later : ∀ e ∈ entries bins, q.curTick ≤ (q.event e).when
  slots : ∀ e, (a.slot e).map Slot.key = if e ∈ entries bins then some (q.key e) else none
  sorted : (entries bins).Pairwise (Ahead a)
  accounted : a.Accounted

namespace Held

open EventQueue

variable {q q' : EventQueue} {a : Agenda EventId Key} {bins : List Bin} {event : EventId}

theorem length_lt (h : Held q a bins) : (entries bins).length < q.fuel := by
  have sub : (entries bins).Subperm (List.range q.instanceCounter) :=
    List.Nodup.subperm h.nodup fun e he => List.mem_range.mpr (h.allocated e he)
  have := sub.length_le
  rw [List.length_range] at this
  exact Nat.lt_succ_of_le this

theorem slot_of_mem (h : Held q a bins) (mem : event ∈ entries bins) :
    ∃ s, a.slot event = some s ∧ s.key = q.key event := by
  have := h.slots event
  rw [if_pos mem] at this
  exact Option.map_eq_some_iff.mp this

theorem slot_of_not_mem (h : Held q a bins) (mem : event ∉ entries bins) : a.slot event = none := by
  have := h.slots event
  rw [if_neg mem] at this
  exact Option.map_eq_none_iff.mp this

theorem mem_of_slot (h : Held q a bins) {s : Slot Key} (hs : a.slot event = some s) :
    event ∈ entries bins := by
  by_contra mem
  rw [h.slot_of_not_mem mem] at hs
  cases hs

/-- Flags and the times of other events do not matter. -/
theorem congr (h : Held q a bins) (head : q'.head = q.head)
    (nextBin : ∀ e ∈ entries bins, q'.nextBin e = q.nextBin e)
    (nextInBin : ∀ e ∈ entries bins, q'.nextInBin e = q.nextInBin e)
    (key : ∀ e ∈ entries bins, q'.key e = q.key e)
    (counter : q.instanceCounter ≤ q'.instanceCounter)
    (curTick : ∀ e ∈ entries bins, q'.curTick ≤ (q.event e).when) : Held q' a bins := by
  have top (b : Bin) (hb : b ∈ bins) : b.1 ∈ entries bins := mem_entries.mpr ⟨b, hb, .head _⟩
  have whens (e : EventId) (he : e ∈ entries bins) : (q'.event e).when = (q.event e).when :=
    congrArg (fun k : Key => (ofLex k).1) (key e he)
  refine ⟨⟨?_, fun b hb => ?_⟩, ⟨fun b hb e he => ?_, ?_⟩, h.nodup, fun e he => ?_, fun e he => ?_,
    fun e => ?_, h.sorted, h.accounted⟩
  · rw [head]
    exact h.represents.chain.congr fun e he => nextBin e ((tops_sublist bins).subset he)
  · rw [nextInBin b.1 (top b hb)]
    exact (h.represents.inBins b hb).congr fun e he =>
      nextInBin e (mem_entries.mpr ⟨b, hb, .tail _ he⟩)
  · rw [key e (mem_entries.mpr ⟨b, hb, he⟩), key b.1 (top b hb)]
    exact h.binned.uniform b hb e he
  · refine h.binned.increasing.imp_of_mem fun {b c} hb hc hlt => ?_
    rw [key b.1 (top b hb), key c.1 (top c hc)]
    exact hlt
  · exact (h.allocated e he).trans_le counter
  · rw [whens e he]
    exact curTick e he
  · rw [h.slots e]
    split
    · rename_i he
      rw [key e he]
    · rfl

theorem modify (h : Held q a bins) {f : Event → Event} (flags : SetsFlags f) :
    Held (q.modify event f) a bins := by
  have field {α : Type} (g : Event → α) (hg : ∀ e, g (f e) = g e) (e : EventId) :
      g ((q.modify event f).event e) = g (q.event e) := by
    rw [event_modify]
    split
    · rename_i he
      rw [hg, he]
    · rfl
  exact h.congr rfl (fun e _ => field _ (fun e => (flags e).1) e)
    (fun e _ => field _ (fun e => (flags e).2.1) e) (fun e _ => field _ (fun e => (flags e).2.2) e)
    le_rfl h.later

/-- An event that is not in the queue is given a time and inserted. -/
theorem insert (h : Held q a bins) (new : event ∉ entries bins)
    (allocated : event < q.instanceCounter) {when : Tick} (future : q.curTick ≤ when) :
    ∃ q' bins', (q.setWhen event when).insert event = .ok q' ∧
      Held q' (a.put event (q'.key event)) bins' ∧
      (∀ e, e ∈ entries bins' ↔ e = event ∨ e ∈ entries bins) ∧
      (q.setWhen event when).Relinked q' := by
  have timed : Held (q.setWhen event when) a bins := by
    have off (e : EventId) (he : e ∈ entries bins) : (q.setWhen event when).event e = q.event e := by
      rw [setWhen, event_modify, if_neg]
      rintro rfl
      exact new he
    exact h.congr rfl (fun e he => congrArg _ (off e he)) (fun e he => congrArg _ (off e he))
      (fun e he => congrArg _ (off e he)) le_rfl h.later
  have enough : bins.length < (q.setWhen event when).fuel := by
    have := (tops_sublist bins).length_le
    rw [tops, List.length_map] at this
    exact this.trans_lt timed.length_lt
  obtain ⟨q', pre, post, rfl, inserted, represents, relinked, before, after⟩ :=
    insert_represents timed.represents timed.binned timed.nodup enough new
  have nodup := timed.nodup
  have sorted := timed.sorted
  have key_eq := relinked.key
  have entries_eq : entries (pre ++ putOn (q.setWhen event when).key event post) =
      entries pre ++ event :: entries post := by rw [entries_append, entries_putOn]
  have mem (e : EventId) : e ∈ entries pre ++ event :: entries post ↔
      e = event ∨ e ∈ entries (pre ++ post) := by
    rw [entries_append, List.mem_append, List.mem_cons, List.mem_append]
    exact or_left_comm
  have old {e : EventId} (he : e ∈ entries (pre ++ post)) (k : Key) :
      (a.put event k).slot e = a.slot e := by
    rw [Agenda.slot_put, if_neg]
    rintro rfl
    exact new he
  have key_of {b : Bin} {e : EventId} (hb : b ∈ pre ++ post) (he : e ∈ b.events) {s : Slot Key}
      (hs : a.slot e = some s) : s.key = q'.key b.1 := by
    obtain ⟨s', hs', hk⟩ := timed.slot_of_mem (mem_entries.mpr ⟨b, hb, he⟩)
    cases hs.symm.trans hs'
    rw [hk, key_eq, timed.binned.uniform b hb e he]
  rw [← key_eq] at before after
  rw [entries_append] at nodup sorted
  refine ⟨q', _, inserted, ⟨represents, ?_, ?_, ?_, ?_, ?_, ?_, ?_⟩, ?_, relinked⟩
  · rw [key_eq] at before after ⊢
    exact timed.binned.putOn before after
  · rw [entries_eq, List.perm_middle.nodup_iff, List.nodup_cons, ← entries_append]
    exact ⟨new, timed.nodup⟩
  · intro e he
    rw [relinked.instanceCounter]
    rw [entries_eq] at he
    obtain rfl | he := (mem e).mp he
    · exact allocated
    · exact h.allocated e he
  · intro e he
    rw [entries_eq] at he
    have when_eq : (q'.event e).when = ((q.setWhen event when).event e).when :=
      relinked.field Event.when (fun _ => rfl) e
    rw [relinked.curTick, when_eq]
    obtain rfl | he := (mem e).mp he
    · rw [setWhen, event_modify, if_pos rfl]
      exact future
    · exact timed.later e he
  · intro e
    rw [entries_eq, Agenda.slot_put]
    by_cases he : e = event
    · subst he
      rw [if_pos rfl, if_pos ((mem e).mpr (.inl rfl))]
      rfl
    · rw [if_neg he, timed.slots e, key_eq]
      exact if_congr (by rw [mem e]; simp [he]) rfl rfl
  · rw [entries_eq, List.pairwise_append, List.pairwise_cons]
    rw [List.pairwise_append] at sorted
    have kept {x y : EventId} (hx : x ∈ entries (pre ++ post)) (hy : y ∈ entries (pre ++ post))
        (hxy : Ahead a x y) : Ahead (a.put event (q'.key event)) x y := by
      intro sx sy hsx hsy
      rw [old hx] at hsx
      rw [old hy] at hsy
      exact hxy sx sy hsx hsy
    have inl {x : EventId} (hx : x ∈ entries pre) : x ∈ entries (pre ++ post) := by
      rw [entries_append]
      exact List.mem_append_left _ hx
    have inr {x : EventId} (hx : x ∈ entries post) : x ∈ entries (pre ++ post) := by
      rw [entries_append]
      exact List.mem_append_right _ hx
    refine ⟨sorted.1.imp_of_mem fun hx hy => kept (inl hx) (inl hy), ⟨fun y hy => ?_,
      sorted.2.1.imp_of_mem fun hx hy => kept (inr hx) (inr hy)⟩, fun x hx y hy => ?_⟩
    · -- the events after the new one were inserted before it
      intro sx sy hsx hsy
      rw [Agenda.slot_put, if_pos rfl] at hsx
      cases hsx
      rw [old (inr hy)] at hsy
      obtain ⟨b, hb, hyb⟩ := mem_entries.mp hy
      obtain hlt | heq := (after b hb).lt_or_eq
      · exact .inl (by rw [key_of (List.mem_append_right _ hb) hyb hsy]; exact hlt)
      · refine .inr ⟨by rw [key_of (List.mem_append_right _ hb) hyb hsy]; exact heq, ?_⟩
        exact h.accounted.fresh y sy hsy
    · obtain rfl | hy := List.mem_cons.mp hy
      · intro sx sy hsx hsy
        rw [Agenda.slot_put, if_pos rfl] at hsy
        cases hsy
        rw [old (inl hx)] at hsx
        obtain ⟨b, hb, hxb⟩ := mem_entries.mp hx
        exact .inl (by rw [key_of (List.mem_append_left _ hb) hxb hsx]; exact before b hb)
      · exact kept (inl hx) (inr hy) (sorted.2.2 x hx y hy)
  · exact h.accounted.put (h.slot_of_not_mem new) _
  · intro e
    rw [entries_eq]
    exact mem e

/-- An event leaves the queue, and the agenda in one way or the other. -/
theorem remove (h : Held q a bins) (a' : Agenda EventId Key) (mem : event ∈ entries bins)
    (slots : a'.slot = Function.update a.slot event none) (accounted : a'.Accounted) :
    ∃ q' bins', q.remove event = .ok q' ∧ Held q' a' bins' ∧
      (∀ e, e ∈ entries bins' ↔ e ≠ event ∧ e ∈ entries bins) ∧ q.Relinked q' := by
  obtain ⟨q', pre, c, post, rfl, hmem, removed, represents, relinked⟩ :=
    remove_represents h.represents h.binned h.nodup h.length_lt mem
  have entries_eq : entries (pre ++ (cut event c ++ post)) =
      (entries (pre ++ c :: post)).erase event := by
    have nodup := h.nodup
    rw [entries_append, entries_cons] at nodup
    have off : event ∉ entries pre := fun he =>
      (List.nodup_append.mp nodup).2.2 _ he _ (List.mem_append_left _ hmem) rfl
    simp only [entries_append, entries_cons, entries_cut, List.erase_append_right _ off,
      List.erase_append_left _ hmem]
  have mem_iff (e : EventId) : e ∈ (entries (pre ++ c :: post)).erase event ↔
      e ≠ event ∧ e ∈ entries (pre ++ c :: post) := List.Nodup.mem_erase_iff h.nodup
  refine ⟨q', _, removed, ⟨represents, ?_, ?_, ?_, ?_, ?_, ?_, accounted⟩, ?_, relinked⟩
  · rw [relinked.key]
    exact h.binned.cut
  · rw [entries_eq]
    exact List.Nodup.erase _ h.nodup
  · intro e he
    rw [entries_eq, mem_iff] at he
    rw [relinked.instanceCounter]
    exact h.allocated e he.2
  · intro e he
    rw [entries_eq, mem_iff] at he
    have when_eq : (q'.event e).when = (q.event e).when := relinked.field Event.when (fun _ => rfl) e
    rw [relinked.curTick, when_eq]
    exact h.later e he.2
  · intro e
    rw [entries_eq, slots, Function.update_apply, relinked.key]
    by_cases he : e = event
    · rw [if_pos he, if_neg (by rw [mem_iff]; exact fun h => h.1 he)]
      rfl
    · rw [if_neg he, h.slots e]
      exact if_congr (by rw [mem_iff]; simp [he]) rfl rfl
  · rw [entries_eq]
    refine (h.sorted.sublist List.erase_sublist).imp fun {x y} hxy sx sy hsx hsy => ?_
    have inside {e : EventId} {s : Slot Key} (hs : a'.slot e = some s) : a.slot e = some s := by
      rw [slots, Function.update_apply] at hs
      split at hs
      · cases hs
      · exact hs
    exact hxy sx sy (inside hsx) (inside hsy)
  · intro e
    rw [entries_eq]
    exact mem_iff e

/-- The head of the queue is the item to serve first. -/
theorem first (h : Held q a bins) (head : q.head = some event) :
    event ∈ entries bins ∧ a.First event := by
  obtain ⟨b, rest, rfl⟩ : ∃ b rest, bins = b :: rest := by
    cases bins with
    | nil => cases head.symm.trans h.represents.eq_head?
    | cons b rest => exact ⟨b, rest, rfl⟩
  obtain rfl : event = b.1 := Option.some.inj (head.symm.trans h.represents.eq_head?)
  have mem : b.1 ∈ entries (b :: rest) := by simp [Bin.events]
  obtain ⟨s, hs, -⟩ := h.slot_of_mem mem
  refine ⟨mem, s, hs, fun e' s' hs' hne => ?_⟩
  have sorted := h.sorted
  rw [entries_cons, Bin.events, List.cons_append, List.pairwise_cons] at sorted
  have he' := h.mem_of_slot hs'
  rw [entries_cons, Bin.events, List.cons_append, List.mem_cons] at he'
  exact sorted.1 e' (he'.resolve_left hne) s s' hs hs'

end Held

/-! ### Steps -/

/-- The items of the agenda are the scheduled events. -/
structure Arranged (s : Sim) (bins : List Bin) : Prop extends Held s.queue s.agenda bins where
  listed : ∀ e, e ∈ entries bins ↔ (s.queue.event e).scheduled = true

/-- A call goes well, or fails because of how it was made. -/
inductive Good (s : Sim) : Except Fault Sim → Prop
  | moves {t : Sim} {bins : List Bin} : Arranged t bins → s.queue.curTick ≤ t.queue.curTick →
      Good s (.ok t)
  | fails {f : Fault} : f ≠ .notFound → f ≠ .endless → Good s (.error f)

namespace Arranged

open EventQueue

variable {s : Sim} {bins : List Bin} {event : EventId}

theorem scheduled_modify (q : EventQueue) (e event : EventId) (f : Event → Event) :
    ((q.modify event f).event e).scheduled =
      if e = event then (f (q.event event)).scheduled else (q.event e).scheduled := by
  rw [event_modify]
  split <;> rfl

theorem modify (inv : Arranged s bins) (event : EventId) {f : Event → Event} (flags : SetsFlags f)
    (same : ∀ e, (f e).scheduled = e.scheduled) :
    Arranged { s with queue := s.queue.modify event f } bins := by
  refine ⟨inv.toHeld.modify flags, fun e => ?_⟩
  rw [inv.listed e, scheduled_modify]
  split
  · rename_i he
    rw [same, he]
  · rfl

/-- Deleting an event that is not scheduled changes nothing else. -/
theorem release (inv : Arranged s bins) (event : EventId) :
    Arranged { s with queue := s.queue.release event } bins ∧
      (s.queue.release event).curTick = s.queue.curTick := by
  unfold EventQueue.release
  split
  · exact ⟨inv.modify event (f := fun e => { e with deleted := true }) (fun _ => ⟨rfl, rfl, rfl⟩)
      fun _ => rfl, rfl⟩
  · exact ⟨inv, rfl⟩

theorem constructEvent (inv : Arranged s bins) (priority : Int) (managed isExitEvent : Bool) :
    Arranged { s with queue := s.queue.constructEvent priority managed isExitEvent } bins := by
  have off {e : EventId} (he : e ∈ entries bins) :
      (s.queue.constructEvent priority managed isExitEvent).event e = s.queue.event e :=
    Function.update_of_ne (inv.allocated e he).ne _ _
  refine ⟨inv.toHeld.congr rfl (fun e he => congrArg _ (off he)) (fun e he => congrArg _ (off he))
    (fun e he => congrArg _ (off he)) (Nat.le_succ _) inv.later, fun e => ?_⟩
  by_cases he : e = s.queue.instanceCounter
  · subst he
    have new : s.queue.instanceCounter ∉ entries bins := fun he =>
      lt_irrefl _ (inv.allocated _ he)
    simp [new, EventQueue.constructEvent]
  · rw [inv.listed e]
    simp [EventQueue.constructEvent, Function.update_of_ne he]

/-- An event that is not in the queue is inserted and its flags are set. -/
theorem insert {q : EventQueue} {a : Agenda EventId Key} (held : Held q a bins)
    (listed : ∀ e, e ≠ event → (e ∈ entries bins ↔ (q.event e).scheduled = true))
    (new : event ∉ entries bins) (allocated : event < q.instanceCounter) {when : Tick}
    (future : q.curTick ≤ when) {f : Event → Event} (flags : SetsFlags f)
    (scheduled : ∀ e, (f e).scheduled = true) (processing : List EventId) :
    ∃ q', (q.setWhen event when).insert event = .ok q' ∧
      (∃ bins', Arranged ⟨q'.modify event f, processing,
        Sim.put a (q'.modify event f) event⟩ bins') ∧ q'.curTick = q.curTick := by
  obtain ⟨q', bins', inserted, held, mem, relinked⟩ := held.insert new allocated future
  have same : ((q'.modify event f).event event).key = q'.key event := by
    rw [event_modify, if_pos rfl, (flags _).2.2]
    rfl
  refine ⟨q', inserted, ⟨bins', ?_, fun e => ?_⟩, relinked.curTick⟩
  · show Held (q'.modify event f) (a.put event _) bins'
    rw [same]
    exact held.modify flags
  · rw [mem e, scheduled_modify]
    by_cases he : e = event
    · simp [he, scheduled]
    · rw [if_neg he, relinked.field Event.scheduled (fun _ => rfl), EventQueue.setWhen,
        scheduled_modify, if_neg he]
      simp [he, listed e he]

theorem schedule (inv : Arranged s bins) (allocated : event < s.queue.instanceCounter)
    (when : Tick) : Good s ((s.queue.schedule event when).map fun q =>
      { s with queue := q, agenda := Sim.put s.agenda q event }) := by
  unfold EventQueue.schedule
  split
  · exact .fails (by simp) (by simp)
  · rename_i future
    split
    · exact .fails (by simp) (by simp)
    · rename_i idle
      obtain ⟨q', inserted, ⟨bins', inv'⟩, tick⟩ := insert inv.toHeld (fun e _ => inv.listed e)
        (mt (inv.listed event).mp idle) allocated (not_lt.mp future)
        (f := fun e => { e with scheduled := true }) (fun _ => ⟨rfl, rfl, rfl⟩) (fun _ => rfl)
        s.processing
      rw [inserted]
      exact .moves inv' tick.ge

theorem deschedule (inv : Arranged s bins) (event : EventId) :
    Good s ((s.queue.deschedule event).map fun q =>
      { s with queue := q, agenda := s.agenda.drop event }) := by
  unfold EventQueue.deschedule
  split
  · rename_i scheduled
    have mem := (inv.listed event).mpr scheduled
    obtain ⟨slot, hs, -⟩ := inv.slot_of_mem mem
    obtain ⟨q', bins', removed, held, mem', relinked⟩ :=
      inv.toHeld.remove (s.agenda.drop event) mem rfl (inv.accounted.drop hs)
    have idle : Arranged ⟨q'.modify event fun e => { e with squashed := false, scheduled := false },
        s.processing, s.agenda.drop event⟩ bins' := by
      refine ⟨held.modify (f := fun e => { e with squashed := false, scheduled := false })
        fun _ => ⟨rfl, rfl, rfl⟩, fun e => ?_⟩
      rw [mem' e, inv.listed e, scheduled_modify]
      by_cases he : e = event
      · simp [he]
      · rw [if_neg he, relinked.field Event.scheduled fun _ => rfl]
        simp [he]
    rw [removed]
    obtain ⟨released, tick⟩ := idle.release event
    exact .moves released (tick.trans relinked.curTick).ge
  · exact .fails (by simp) (by simp)

theorem reschedule (inv : Arranged s bins) (allocated : event < s.queue.instanceCounter)
    (when : Tick) (always : Bool) :
    Good s ((s.queue.reschedule event when always).map fun q =>
      { s with queue := q, agenda := Sim.put (s.agenda.drop event) q event }) := by
  have out : ∃ q bins', (if (s.queue.event event).scheduled then s.queue.remove event
        else .ok s.queue) = .ok q ∧ Held q (s.agenda.drop event) bins' ∧
      (∀ e, e ∈ entries bins' ↔ e ≠ event ∧ e ∈ entries bins) ∧ s.queue.Relinked q := by
    cases scheduled : (s.queue.event event).scheduled with
    | true =>
      have mem := (inv.listed event).mpr scheduled
      obtain ⟨slot, hs, -⟩ := inv.slot_of_mem mem
      exact inv.toHeld.remove _ mem rfl (inv.accounted.drop hs)
    | false =>
      have new : event ∉ entries bins := fun mem => by
        rw [(inv.listed event).mp mem] at scheduled
        cases scheduled
      have same : s.agenda.drop event = s.agenda := by
        have idle := inv.slot_of_not_mem new
        have slots : Function.update s.agenda.slot event none = s.agenda.slot := by
          rw [← idle, Function.update_eq_self]
        simp [Agenda.drop, idle, slots]
      rw [same]
      refine ⟨s.queue, bins, rfl, inv.toHeld, fun e => ?_, .refl _⟩
      exact ⟨fun he => ⟨fun eq => new (eq ▸ he), he⟩, fun he => he.2⟩
  unfold EventQueue.reschedule
  split
  · exact .fails (by simp) (by simp)
  · rename_i future
    split
    · exact .fails (by simp) (by simp)
    · obtain ⟨q, bins', removed, held, mem, relinked⟩ := out
      obtain ⟨q', inserted, ⟨bins'', inv'⟩, tick⟩ := insert held
        (fun e he => by
          rw [mem e, inv.listed e, relinked.field Event.scheduled fun _ => rfl]
          simp [he])
        (fun he => ((mem event).mp he).1 rfl) (relinked.instanceCounter ▸ allocated)
        (relinked.curTick ▸ not_lt.mp future)
        (f := fun e => { e with squashed := false, scheduled := true })
        (fun _ => ⟨rfl, rfl, rfl⟩) (fun _ => rfl) s.processing
      rw [removed]
      simp only [Except.bind, inserted]
      exact .moves inv' (tick.trans relinked.curTick).ge

theorem popHead_eq {q : EventQueue} (head : q.head = some event) :
    q.remove event = .ok (q.popHead event) := by
  have same : (q.event event).eq (q.event event) = true := Event.eq_iff.mpr rfl
  unfold EventQueue.remove EventQueue.popHead removeItem
  rw [head]
  simp only [same, if_true]
  cases q.nextInBin event <;> rfl

/-- The head is served. Unless it is squashed, the time moves on to its time. -/
theorem serviceOne (inv : Arranged s bins) {event : EventId} (head : s.queue.head = some event) :
    ∃ q processed, s.queue.serviceOne = .ok (q, event, processed) ∧
      s.queue.curTick ≤ q.curTick ∧ ∀ processing, ∃ bins',
        Arranged ⟨q, processing, s.agenda.serve event⟩ bins' := by
  obtain ⟨mem, slot, hs, first⟩ := inv.toHeld.first head
  have idle : Held (s.queue.modify event fun e => { e with scheduled := false }) s.agenda bins :=
    inv.toHeld.modify (f := fun e => { e with scheduled := false }) fun _ => ⟨rfl, rfl, rfl⟩
  obtain ⟨q', bins', removed, held, mem', relinked⟩ :=
    idle.remove (s.agenda.serve event) mem rfl (inv.accounted.serve hs)
  cases (popHead_eq (q := s.queue.modify event fun e => { e with scheduled := false })
    head).symm.trans removed
  have listed (e : EventId) : e ∈ entries bins' ↔ (((s.queue.modify event fun e =>
      { e with scheduled := false }).popHead event).event e).scheduled = true := by
    rw [mem' e, inv.listed e, relinked.field Event.scheduled fun _ => rfl, scheduled_modify]
    by_cases he : e = event
    · simp [he]
    · simp [he]
  have popped (processing : List EventId) : Arranged ⟨(s.queue.modify event fun e =>
      { e with scheduled := false }).popHead event, processing, s.agenda.serve event⟩ bins' :=
    ⟨held, listed⟩
  simp only [EventQueue.serviceOne, head]
  split
  · refine ⟨_, _, rfl, ?_, fun processing => ⟨bins', ?_⟩⟩
    all_goals
      obtain ⟨released, tick⟩ := Arranged.release ((popped s.processing).modify event
        (f := fun e => { e with squashed := false }) (fun _ => ⟨rfl, rfl, rfl⟩) fun _ => rfl) event
    · exact (tick.trans relinked.curTick).ge
    · exact ⟨released.toHeld, released.listed⟩
  · have due : (((s.queue.modify event fun e => { e with scheduled := false }).popHead event).event
        event).when = (s.queue.event event).when := by
      rw [relinked.field Event.when fun _ => rfl, event_modify, if_pos rfl]
    refine ⟨_, _, rfl, ?_, fun processing => ⟨bins', ?_, listed⟩⟩
    · rw [due]
      exact inv.later event mem
    · refine held.congr rfl (fun _ _ => rfl) (fun _ _ => rfl) (fun _ _ => rfl) le_rfl fun e he => ?_
      rw [due, relinked.field Event.when fun _ => rfl]
      have he := (mem' e).mp he
      obtain ⟨slot', hs', key'⟩ := idle.slot_of_mem he.2
      obtain ⟨slot'', hs'', key''⟩ := inv.slot_of_mem mem
      cases hs.symm.trans hs''
      have le := (first e slot' hs' he.1).key_le
      rw [key', key''] at le
      exact Prod.Lex.monotone_fst _ _ le

/-- Every operation goes well. -/
theorem step {r : Except Fault Sim} (inv : Arranged s bins) {op : Op} (h : s.step op = some r) :
    Good s r := by
  have live {event : EventId} (hl : s.live event = true) : event < s.queue.instanceCounter := by
    simp only [Sim.live, Bool.and_eq_true, decide_eq_true_eq] at hl
    exact hl.1
  cases op with
  | constructEvent priority managed isExitEvent =>
    cases h
    exact .moves (inv.constructEvent priority managed isExitEvent) le_rfl
  | squash event =>
    simp only [Sim.step] at h
    split at h
    · cases h
      exact .moves (inv.modify event (f := fun e => { e with squashed := true })
        (fun _ => ⟨rfl, rfl, rfl⟩) fun _ => rfl) le_rfl
    · cases h
  | schedule event when =>
    simp only [Sim.step] at h
    split at h
    · rename_i hl
      cases h
      exact inv.schedule (live hl) when
    · cases h
  | deschedule event =>
    simp only [Sim.step] at h
    split at h
    · cases h
      exact inv.deschedule event
    · cases h
  | reschedule event when always =>
    simp only [Sim.step] at h
    split at h
    · rename_i hl
      cases h
      exact inv.reschedule (live hl) when always
    · cases h
  | serviceOne =>
    cases h
    cases head : s.queue.head with
    | none =>
      simp only [EventQueue.serviceOne, head]
      exact .fails (by simp) (by simp)
    | some event =>
      obtain ⟨q, processed, served, tick, inv'⟩ := inv.serviceOne head
      obtain ⟨bins', inv'⟩ := inv' (if processed then event :: s.processing else s.processing)
      rw [served]
      exact .moves inv' tick
  | processed =>
    simp only [Sim.step] at h
    split at h
    · cases h
    · rename_i event rest _
      cases h
      have inv' : Arranged { s with processing := rest } bins := ⟨inv.toHeld, inv.listed⟩
      unfold finishService
      split
      · exact .fails (by simp) (by simp)
      · split
        · exact .moves inv' le_rfl
        · obtain ⟨released, tick⟩ := inv'.release event
          exact .moves released tick.ge

end Arranged

namespace Sim

variable {s : Sim}

theorem arranged_start : Arranged start [] where
  represents := ⟨rfl, fun _ h => (nomatch h)⟩
  binned := ⟨fun _ h => (nomatch h), .nil⟩
  nodup := .nil
  allocated _ h := nomatch h
  later _ h := nomatch h
  slots _ := rfl
  sorted := .nil
  accounted := Agenda.accounted_empty
  listed _ := by simp [start]

theorem arranged_of_reaches (h : machine.Reaches (fun _ _ => True) s) :
    ∃ bins, Arranged s bins := by
  refine h.invariant (I := fun s => ∃ bins, Arranged s bins) ⟨[], arranged_start⟩ ?_
  rintro s op t ⟨bins, inv⟩ - hstep
  cases inv.step hstep with
  | moves inv' _ => exact ⟨_, inv'⟩

/-- In every state of every run the bins are in the order of time and priority
and hold exactly the scheduled events, each once and in the bin of its own time
and priority; every insertion is of a scheduled event or has ended once; removing
a scheduled event finds it and no loop runs on; time does not go back; and
`serviceOne` takes the event that is first in time and priority and was inserted
last among those, whenever there is one. -/
theorem stable_priority_queue (h : machine.Reaches (fun _ _ => True) s) :
    (∃ bins, s.queue.Represents bins ∧ Binned s.queue.key bins ∧ (entries bins).Nodup ∧
      ∀ e, e ∈ entries bins ↔ (s.queue.event e).scheduled = true) ∧
    (∀ e, (s.agenda.slot e).map Slot.key =
      if (s.queue.event e).scheduled then some (s.queue.key e) else none) ∧
    s.agenda.Accounted ∧
    (∀ op, s.step op ≠ some (.error .notFound) ∧ s.step op ≠ some (.error .endless)) ∧
    (∀ e, (s.queue.event e).scheduled = true → ∃ q, s.queue.remove e = .ok q) ∧
    (∀ op t, s.step op = some (.ok t) → s.queue.curTick ≤ t.queue.curTick) ∧
    (∀ q event processed, s.queue.serviceOne = .ok (q, event, processed) →
      s.agenda.First event) ∧
    ((∃ e, (s.queue.event e).scheduled = true) → ∃ r, s.queue.serviceOne = .ok r) := by
  obtain ⟨bins, inv⟩ := arranged_of_reaches h
  refine ⟨⟨bins, inv.represents, inv.binned, inv.nodup, inv.listed⟩, fun e => ?_, inv.accounted,
    fun op => ⟨fun hop => ?_, fun hop => ?_⟩, fun e he => ?_, fun op t hop => ?_,
    fun q event processed hq => ?_, ?_⟩
  · rw [inv.slots e]
    exact if_congr (inv.listed e) rfl rfl
  · cases inv.step hop with
    | fails hf _ => exact hf rfl
  · cases inv.step hop with
    | fails _ hf => exact hf rfl
  · have mem := (inv.listed e).mpr he
    obtain ⟨slot, hs, -⟩ := inv.slot_of_mem mem
    obtain ⟨q, -, removed, -⟩ :=
      inv.toHeld.remove (s.agenda.drop e) mem rfl (inv.accounted.drop hs)
    exact ⟨q, removed⟩
  · cases inv.step hop with
    | moves _ tick => exact tick
  · cases head : s.queue.head with
    | none =>
      simp only [EventQueue.serviceOne, head] at hq
      cases hq
    | some top =>
      obtain ⟨_, _, served, -⟩ := inv.serviceOne head
      cases served.symm.trans hq
      exact (inv.toHeld.first head).2
  · rintro ⟨e, he⟩
    cases head : s.queue.head with
    | none =>
      have mem := (inv.listed e).mpr he
      have empty : bins = [] := by
        cases hb : bins with
        | nil => rfl
        | cons b rest =>
          have start := inv.represents.eq_head?
          rw [head, hb] at start
          cases start
      rw [empty] at mem
      cases mem
    | some top =>
      obtain ⟨_, _, served, -⟩ := inv.serviceOne head
      exact ⟨_, served⟩

/-- Three events; the second is inserted last at the same time and priority as
the first. -/
def ties : List Op :=
  [.constructEvent 0 false false, .constructEvent 0 false false, .constructEvent 1 true false,
    .schedule 2 5, .schedule 0 5, .schedule 1 5]

theorem stable_priority_queue_ties :
    ∃ s, machine.run machine.start ties = some s ∧ s.agenda.First 1 := by
  have observed : (machine.run machine.start ties).any (fun s =>
      match s.queue.serviceOne with
      | .ok (_, event, _) => decide (event = 1)
      | .error _ => false) = true := by
    decide +kernel
  obtain ⟨s, hs, he⟩ := (Option.any_eq_true _ _).mp observed
  refine ⟨s, hs, ?_⟩
  split at he
  · rename_i q event processed hq
    cases of_decide_eq_true he
    have reached := Machine.Reaches.run .start ties (fun _ _ => trivial) hs
    exact (stable_priority_queue reached).2.2.2.2.2.2.1 q 1 processed hq
  · cases he

end Sim

end EventQ

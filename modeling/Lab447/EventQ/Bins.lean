import Lab447.EventQ.Model

/-!
The bins that the pointers of an event queue stand for, and what inserting and
removing an event does to them. Only the top of a bin has a `nextBin` that means
anything.
-/

namespace EventQ

open Linked

namespace Event

variable {l r : Event}

theorem lt_iff : l.lt r = true ↔ l.key < r.key := by
  simp [lt, key, Prod.Lex.lt_iff]

theorem le_iff : l.le r = true ↔ l.key ≤ r.key := by
  simp [le, key, Prod.Lex.le_iff]

theorem eq_iff : l.eq r = true ↔ l.key = r.key := by
  simp [eq, key, Prod.ext_iff]

/-- The event but for its pointers. -/
def unlinked (e : Event) : Event := { e with nextBin := none, nextInBin := none }

end Event

/-- The top of a bin and the events below it. -/
abbrev Bin := EventId × List EventId

def Bin.events (b : Bin) : List EventId := b.1 :: b.2

def entries (bins : List Bin) : List EventId := bins.flatMap Bin.events

def tops (bins : List Bin) : List EventId := bins.map Prod.fst

section
variable {bins pre post : List Bin} {b : Bin} {e : EventId}

@[simp] theorem entries_nil : entries [] = [] := rfl

@[simp] theorem entries_cons : entries (b :: bins) = b.events ++ entries bins :=
  List.flatMap_cons

@[simp] theorem entries_append : entries (pre ++ post) = entries pre ++ entries post :=
  List.flatMap_append

@[simp] theorem tops_cons : tops (b :: bins) = b.1 :: tops bins := rfl

@[simp] theorem tops_append : tops (pre ++ post) = tops pre ++ tops post := List.map_append

theorem tops_sublist (bins : List Bin) : (tops bins).Sublist (entries bins) := by
  induction bins with
  | nil => exact .slnil
  | cons b bins ih =>
    exact (ih.trans (List.sublist_append_right ..)).cons_cons _

theorem mem_entries : e ∈ entries bins ↔ ∃ b ∈ bins, e ∈ b.events := List.mem_flatMap

end

/-- The bins are in the order of their keys, and each holds the events of one. -/
structure Binned (key : EventId → Key) (bins : List Bin) : Prop where
  uniform : ∀ b ∈ bins, ∀ e ∈ b.events, key e = key b.1
  increasing : bins.Pairwise fun b c => key b.1 < key c.1

namespace EventQueue

variable {q q' : EventQueue} {bins pre post : List Bin} {b : Bin} {event : EventId}
  {p : Option EventId}

def key (q : EventQueue) (e : EventId) : Key := (q.event e).key

/-- Following the pointers from `p` gives the bins. -/
structure Hung (q : EventQueue) (p : Option EventId) (bins : List Bin) : Prop where
  chain : Chain q.nextBin p (tops bins)
  inBins : ∀ b ∈ bins, Chain q.nextInBin (q.nextInBin b.1) b.2

/-- The bins of the queue. -/
abbrev Represents (q : EventQueue) (bins : List Bin) : Prop := q.Hung q.head bins

/-- Nothing but pointers differs. -/
structure Relinked (q q' : EventQueue) : Prop where
  events : ∀ e, (q'.event e).unlinked = (q.event e).unlinked
  instanceCounter : q'.instanceCounter = q.instanceCounter
  curTick : q'.curTick = q.curTick

theorem Relinked.refl (q : EventQueue) : q.Relinked q := ⟨fun _ => rfl, rfl, rfl⟩

theorem Relinked.trans {q'' : EventQueue} (h : q.Relinked q') (h' : q'.Relinked q'') :
    q.Relinked q'' :=
  ⟨fun e => (h'.events e).trans (h.events e), h'.instanceCounter.trans h.instanceCounter,
    h'.curTick.trans h.curTick⟩

/-- What does not depend on the pointers of an event is the same. -/
theorem Relinked.field (h : q.Relinked q') {α : Type} (g : Event → α)
    (hg : ∀ e : Event, g e.unlinked = g e) (e : EventId) : g (q'.event e) = g (q.event e) := by
  rw [← hg, h.events e, hg]

theorem Relinked.key (h : q.Relinked q') : q'.key = q.key :=
  funext (h.field Event.key fun _ => rfl)

theorem event_modify (q : EventQueue) (e e' : EventId) (f : Event → Event) :
    (q.modify e f).event e' = if e' = e then f (q.event e) else q.event e' :=
  Function.update_apply ..

theorem relinked_modify (q : EventQueue) (e : EventId) (f : Event → Event)
    (h : ∀ e, (f e).unlinked = e.unlinked) : q.Relinked (q.modify e f) := by
  refine ⟨fun e' => ?_, rfl, rfl⟩
  rw [event_modify]
  split
  · rename_i he
    rw [h, he]
  · rfl

theorem relinked_nextBin (q : EventQueue) (e : EventId) (p : Option EventId) :
    q.Relinked (q.modify e fun e => { e with nextBin := p }) :=
  relinked_modify q e _ fun _ => rfl

@[simp] theorem nextInBin_setNextBin (q : EventQueue) (e : EventId) (p : Option EventId) :
    (q.modify e fun e => { e with nextBin := p }).nextInBin = q.nextInBin := by
  funext y
  rw [nextInBin, event_modify]
  split
  · rename_i hy
    rw [hy]
    rfl
  · rfl

@[simp] theorem nextBin_setNextInBin (q : EventQueue) (e : EventId) (p : Option EventId) :
    (q.modify e fun e => { e with nextInBin := p }).nextBin = q.nextBin := by
  funext y
  rw [nextBin, event_modify]
  split
  · rename_i hy
    rw [hy]
    rfl
  · rfl

theorem nextBin_setNextBin (q : EventQueue) (e y : EventId) (p : Option EventId) :
    (q.modify e fun e => { e with nextBin := p }).nextBin y = if y = e then p else q.nextBin y := by
  rw [nextBin, event_modify]
  split <;> rfl

theorem nextInBin_setNextInBin (q : EventQueue) (e y : EventId) (p : Option EventId) :
    (q.modify e fun e => { e with nextInBin := p }).nextInBin y =
      if y = e then p else q.nextInBin y := by
  rw [nextInBin, event_modify]
  split <;> rfl

/-- Events that are not in the bins do not matter for them. -/
theorem Hung.congr (h : q.Hung p bins) (same : ∀ e ∈ entries bins, q'.event e = q.event e) :
    q'.Hung p bins := by
  refine ⟨h.chain.congr fun e he => ?_, fun b hb => ?_⟩
  · rw [nextBin, same e ((tops_sublist bins).subset he)]
    rfl
  · have inside (e : EventId) (he : e ∈ b.events) : q'.nextInBin e = q.nextInBin e := by
      rw [nextInBin, same e (mem_entries.mpr ⟨b, hb, he⟩)]
      rfl
    rw [inside b.1 (.head _)]
    exact (h.inBins b hb).congr fun e he => inside e (.tail _ he)

theorem Hung.eq_head? (h : q.Hung p bins) : p = (tops bins).head? := h.chain.eq_head?

theorem Hung.rest (h : q.Hung p (pre ++ b :: post)) : q.Hung (tops post).head? post := by
  have chain := h.chain
  rw [tops_append, tops_cons] at chain
  have rest := chain.rest
  rw [rest.eq_head?] at rest
  exact ⟨rest, fun c hc => h.inBins c (List.mem_append_right _ (.tail b hc))⟩

/-! ### Inserting -/

/-- The event on top of the first bin, or in a bin of its own before it. -/
def putOn (key : EventId → Key) (event : EventId) : List Bin → List Bin
  | [] => [(event, [])]
  | b :: bins =>
    if key event < key b.1 then (event, []) :: b :: bins else (event, b.events) :: bins

theorem entries_putOn (key : EventId → Key) (event : EventId) (bins : List Bin) :
    entries (putOn key event bins) = event :: entries bins := by
  cases bins with
  | nil => rfl
  | cons b bins =>
    rw [putOn]
    split
    · simp [Bin.events]
    · simp [Bin.events]

theorem insertBefore_relinked : q.Relinked (q.insertBefore event p).1 := by
  have linked (f : Event → Event) (h : ∀ e, (f e).unlinked = e.unlinked) :
      q.Relinked (q.modify event f, event).1 := relinked_modify q event f h
  unfold insertBefore
  split
  · exact linked _ fun _ => rfl
  · split
    · exact linked _ fun _ => rfl
    · exact linked _ fun _ => rfl

theorem insertBefore_other {e : EventId} (h : e ≠ event) :
    (q.insertBefore event p).1.event e = q.event e := by
  have off (f : Event → Event) : (q.modify event f, event).1.event e = q.event e :=
    (event_modify ..).trans (if_neg h)
  unfold insertBefore
  split
  · exact off _
  · split
    · exact off _
    · exact off _

theorem insertBefore_head : (q.insertBefore event p).1.head = q.head := by
  unfold insertBefore
  split
  · rfl
  · split <;> rfl

theorem insertBefore_top : (q.insertBefore event p).2 = event := by
  unfold insertBefore
  split
  · rfl
  · split <;> rfl

theorem insertBefore_hung (h : q.Hung p bins) (new : event ∉ entries bins) :
    (q.insertBefore event p).1.Hung (some event) (putOn q.key event bins) := by
  have kept : (q.insertBefore event p).1.Hung p bins :=
    h.congr fun e he => insertBefore_other fun eq => new (eq ▸ he)
  have start := h.eq_head?
  cases bins with
  | nil =>
    have links : (q.insertBefore event p).1.nextBin event = none ∧
        (q.insertBefore event p).1.nextInBin event = none := by
      simp [start, tops, insertBefore, nextBin, nextInBin, event_modify]
    refine ⟨⟨rfl, links.1⟩, fun b hb => ?_⟩
    cases List.mem_singleton.mp hb
    exact links.2
  | cons b bins =>
    have order : (q.event event).lt (q.event b.1) = true ↔ q.key event < q.key b.1 := Event.lt_iff
    by_cases hlt : q.key event < q.key b.1
    · have links : (q.insertBefore event p).1.nextBin event = p ∧
          (q.insertBefore event p).1.nextInBin event = none := by
        simp [start, tops, insertBefore, order.mpr hlt, nextBin, nextInBin, event_modify]
      rw [putOn, if_pos hlt]
      refine ⟨⟨rfl, ?_⟩, fun c hc => ?_⟩
      · rw [links.1]
        exact kept.chain
      · obtain rfl | hc := List.mem_cons.mp hc
        · exact links.2
        · exact kept.inBins c hc
    · have links : (q.insertBefore event p).1.nextBin event = q.nextBin b.1 ∧
          (q.insertBefore event p).1.nextInBin event = some b.1 := by
        simp [start, tops, insertBefore, mt order.mp hlt, nextBin, nextInBin, event_modify]
      have same : (q.insertBefore event p).1.nextBin b.1 = q.nextBin b.1 := by
        rw [nextBin, insertBefore_other fun he => new (by simp [Bin.events, he])]
        rfl
      rw [putOn, if_neg hlt]
      refine ⟨⟨rfl, ?_⟩, fun c hc => ?_⟩
      · rw [links.1, ← same]
        exact kept.chain.2
      · obtain rfl | hc := List.mem_cons.mp hc
        · rw [links.2]
          exact ⟨rfl, kept.inBins b (.head _)⟩
        · exact kept.inBins c (.tail _ hc)

/-! ### Finding a bin -/

/-- The loop stops between the bins before the event and the others. -/
theorem findBin_eq (h : q.Hung p (b :: bins)) (binned : Binned q.key (b :: bins))
    (enough : bins.length < q.fuel) (first : q.key b.1 < q.key event) :
    ∃ pre c post, b :: bins = pre ++ c :: post ∧
      q.findBin event b.1 = some (c.1, (tops post).head?) ∧
      (∀ d ∈ pre ++ [c], q.key d.1 < q.key event) ∧ ∀ d ∈ post, q.key event ≤ q.key d.1 := by
  have lt_iff (e : EventId) : (q.event e).lt (q.event event) = true ↔ q.key e < q.key event :=
    Event.lt_iff
  obtain ⟨pre', x, split, found⟩ := advance_eq (l := tops bins)
    (c := fun curr => (q.event curr).lt (q.event event)) b.1 h.chain.2 (by simpa [tops] using enough)
  have tops_take : (tops bins).takeWhile (fun curr => (q.event curr).lt (q.event event)) =
      tops (bins.takeWhile fun d => (q.event d.1).lt (q.event event)) := List.takeWhile_map ..
  have tops_drop : (tops bins).dropWhile (fun curr => (q.event curr).lt (q.event event)) =
      tops (bins.dropWhile fun d => (q.event d.1).lt (q.event event)) := List.dropWhile_map ..
  rw [tops_take] at split
  rw [tops_drop] at found
  obtain ⟨pre, c, hc⟩ : ∃ pre c,
      b :: bins.takeWhile (fun d => (q.event d.1).lt (q.event event)) = pre ++ [c] :=
    ⟨_, _, (List.dropLast_append_getLast (List.cons_ne_nil _ _)).symm⟩
  have last : x = c.1 := by
    have : tops pre ++ [c.1] = pre' ++ [x] := by
      rw [← split, ← tops_cons, hc]
      simp [tops]
    exact (List.singleton_inj.mp (List.append_inj_right' this rfl)).symm
  subst last
  have whole : b :: bins =
      pre ++ c :: bins.dropWhile (fun d => (q.event d.1).lt (q.event event)) := by
    rw [← List.singleton_append (x := c), ← List.append_assoc, ← hc, List.cons_append,
      List.takeWhile_append_dropWhile]
  refine ⟨pre, c, _, whole, found, fun d hd => ?_, fun d hd => ?_⟩
  · rw [← hc] at hd
    obtain rfl | hd := List.mem_cons.mp hd
    · exact first
    · exact (lt_iff d.1).mp (List.all_eq_true.mp (List.all_takeWhile ..) d hd)
  · cases hpost : bins.dropWhile (fun d => (q.event d.1).lt (q.event event)) with
    | nil =>
      rw [hpost] at hd
      cases hd
    | cons e post =>
      have stop : q.key event ≤ q.key e.1 := by
        have := List.head?_dropWhile_not (fun d : Bin => (q.event d.1).lt (q.event event)) bins
        rw [hpost] at this
        exact not_lt.mp fun hlt => by simp [(lt_iff e.1).mpr hlt] at this
      rw [hpost] at hd whole
      obtain rfl | hd := List.mem_cons.mp hd
      · exact stop
      · have increasing := binned.increasing
        rw [whole, List.pairwise_append] at increasing
        obtain ⟨-, later, -⟩ := increasing
        exact stop.trans ((List.pairwise_cons.mp (List.pairwise_cons.mp later).2).1 d hd).le

/-- Other bins are hung on the top of a bin. -/
theorem Hung.rehang {q₁ : EventQueue} {p₁ : Option EventId} {bins₁ : List Bin}
    (h : q.Hung p (pre ++ b :: post)) (nodup : (entries (pre ++ [b])).Nodup)
    (kept : ∀ e ∈ entries (pre ++ [b]), q₁.event e = q.event e) (hung : q₁.Hung p₁ bins₁)
    (apart : b.1 ∉ entries bins₁) :
    (q₁.modify b.1 fun e => { e with nextBin := p₁ }).Hung p (pre ++ b :: bins₁) := by
  have before (d : Bin) (hd : d ∈ pre ++ [b]) (e : EventId) (he : e ∈ d.events) :
      q₁.event e = q.event e := kept e (mem_entries.mpr ⟨d, hd, he⟩)
  constructor
  · have chain := h.chain
    rw [tops_append, tops_cons] at chain ⊢
    refine chain.splice (fun y hy => ?_) ?_
    · have mem := (tops_sublist pre).subset hy
      rw [entries_append] at nodup kept
      have other : y ≠ b.1 := by
        rintro rfl
        exact (List.nodup_append.mp nodup).2.2 _ mem _ (by simp [Bin.events]) rfl
      rw [nextBin_setNextBin, if_neg other, nextBin, kept y (List.mem_append_left _ mem)]
      rfl
    · rw [nextBin_setNextBin, if_pos rfl]
      refine hung.chain.congr fun y hy => ?_
      rw [nextBin_setNextBin, if_neg]
      rintro rfl
      exact apart ((tops_sublist bins₁).subset hy)
  · intro d hd
    rw [nextInBin_setNextBin]
    have hd' : d ∈ pre ++ [b] ∨ d ∈ bins₁ := by
      simpa [or_assoc] using hd
    obtain hd' | hd' := hd'
    · have old : Chain q.nextInBin (q.nextInBin d.1) d.2 := by
        refine h.inBins d ?_
        simp only [List.mem_append, List.mem_singleton] at hd'
        obtain hd' | rfl := hd'
        · exact List.mem_append_left _ hd'
        · exact List.mem_append_right _ (.head _)
      rw [nextInBin, before d hd' d.1 (.head _)]
      refine old.congr fun y hy => ?_
      rw [nextInBin, before d hd' y (.tail _ hy)]
      rfl
    · exact hung.inBins d hd'

/-- The event goes between the bins with smaller keys and the others. -/
theorem insert_represents (h : q.Represents bins) (binned : Binned q.key bins)
    (nodup : (entries bins).Nodup) (enough : bins.length < q.fuel) (new : event ∉ entries bins) :
    ∃ q' pre post, bins = pre ++ post ∧ q.insert event = .ok q' ∧
      q'.Represents (pre ++ putOn q.key event post) ∧ q.Relinked q' ∧
      (∀ b ∈ pre, q.key b.1 < q.key event) ∧ ∀ b ∈ post, q.key event ≤ q.key b.1 := by
  have at_head : (q.insertAtHead event).Represents (putOn q.key event bins) ∧
      q.Relinked (q.insertAtHead event) := by
    have hung := insertBefore_hung h new
    refine ⟨⟨?_, hung.inBins⟩, insertBefore_relinked.events, insertBefore_relinked.instanceCounter,
      insertBefore_relinked.curTick⟩
    show Chain _ (some (q.insertBefore event q.head).2) _
    rw [insertBefore_top]
    exact hung.chain
  have start := h.eq_head?
  cases bins with
  | nil =>
    refine ⟨_, [], [], rfl, ?_, at_head.1, at_head.2, fun b hb => (nomatch hb),
      fun b hb => (nomatch hb)⟩
    rw [insert, start]
    rfl
  | cons b bins =>
    have le_iff : (q.event event).le (q.event b.1) = true ↔ q.key event ≤ q.key b.1 := Event.le_iff
    by_cases hle : q.key event ≤ q.key b.1
    · refine ⟨_, [], b :: bins, rfl, ?_, at_head.1, at_head.2, fun b hb => (nomatch hb),
        fun c hc => ?_⟩
      · rw [insert, start]
        simp [le_iff.mpr hle]
      · obtain rfl | hc := List.mem_cons.mp hc
        · exact hle
        · exact hle.trans ((List.pairwise_cons.mp binned.increasing).1 c hc).le
    · obtain ⟨pre, c, post, split, found, before, after⟩ := findBin_eq h binned
        ((Nat.lt_succ_self _).trans enough) (not_le.mp hle)
      have split' : b :: bins = pre ++ [c] ++ post := by rw [split]; simp
      rw [split', entries_append] at new nodup
      refine ⟨(q.insertBefore event (tops post).head?).1.modify c.1 fun e =>
        { e with nextBin := some (q.insertBefore event (tops post).head?).2 },
        pre ++ [c], post, split', ?_, ?_, ?_, before, after⟩
      · rw [insert, start]
        simp [mt le_iff.mp hle, found]
      · rw [List.append_assoc, List.singleton_append, insertBefore_top]
        rw [split] at h
        show EventQueue.Hung _ (q.insertBefore event (tops post).head?).1.head _
        rw [insertBefore_head]
        refine h.rehang (List.nodup_append.mp nodup).1 (fun e he => insertBefore_other ?_)
          (insertBefore_hung h.rest fun he => new (List.mem_append_right _ he)) ?_
        · rintro rfl
          exact new (List.mem_append_left _ he)
        · have mem : c.1 ∈ entries (pre ++ [c]) := by simp [Bin.events]
          rw [entries_putOn, List.mem_cons]
          rintro (eq | mem')
          · exact new (eq ▸ List.mem_append_left _ mem)
          · exact (List.nodup_append.mp nodup).2.2 _ mem _ mem' rfl
      · exact insertBefore_relinked.trans (relinked_nextBin ..)

/-! ### Removing -/

/-- What is left of a bin. -/
def cut (event : EventId) (b : Bin) : List Bin :=
  if event = b.1 then
    match b.2 with
    | [] => []
    | top :: rest => [(top, rest)]
  else [(b.1, b.2.erase event)]

theorem entries_cut (event : EventId) (b : Bin) : entries (cut event b) = b.events.erase event := by
  unfold cut
  split
  · rename_i he
    rw [Bin.events, he, List.erase_cons_head]
    split
    · rename_i hb
      rw [hb]
      rfl
    · rename_i hb
      rw [hb]
      simp [Bin.events]
  · rename_i he
    rw [Bin.events, List.erase_cons_tail (by simpa using Ne.symm he)]
    simp [Bin.events]

/-- A cell is taken out of a list. -/
theorem removeItem_hung (h : q.Hung p (b :: post)) (nodup : (entries (b :: post)).Nodup)
    (enough : b.2.length < q.fuel) (mem : event ∈ b.events) :
    ∃ q' top, q.removeItem event b.1 = .ok (q', top) ∧ q'.Hung top (cut event b ++ post) ∧
      (∀ e, e ∉ b.events → q'.event e = q.event e) ∧ q'.head = q.head ∧ q.Relinked q' := by
  obtain ⟨top, rest⟩ := b
  have stack : Chain q.nextInBin (q.nextInBin top) rest := h.inBins _ (.head _)
  have apart (e : EventId) (he : e ∈ entries post) : e ∉ Bin.events (top, rest) :=
    fun he' => (List.nodup_append.mp nodup).2.2 _ he' _ he rfl
  by_cases heq : event = top
  · subst heq
    have start := stack.eq_head?
    cases rest with
    | nil =>
      refine ⟨q, q.nextBin event, ?_, ?_, fun _ _ => rfl, rfl, .refl q⟩
      · simp [removeItem, start]
      · rw [cut, if_pos rfl, List.nil_append]
        exact ⟨h.chain.2, fun c hc => h.inBins c (.tail _ hc)⟩
    | cons next rest =>
      refine ⟨q.modify next fun e => { e with nextBin := q.nextBin event }, some next, ?_, ?_,
        fun e he => ?_, rfl, relinked_nextBin ..⟩
      · simp [removeItem, start]
      · rw [cut, if_pos rfl, List.singleton_append]
        refine ⟨⟨rfl, ?_⟩, fun c hc => ?_⟩
        · rw [nextBin_setNextBin, if_pos rfl]
          refine h.chain.2.congr fun y hy => ?_
          rw [nextBin_setNextBin, if_neg]
          rintro rfl
          exact apart y ((tops_sublist post).subset hy) (.tail _ (.head _))
        · rw [nextInBin_setNextBin]
          obtain rfl | hc := List.mem_cons.mp hc
          · exact stack.2
          · exact h.inBins c (.tail _ hc)
      · rw [event_modify, if_neg]
        rintro rfl
        exact he (.tail _ (.head _))
  · have mem : event ∈ rest := (List.mem_cons.mp mem).resolve_left heq
    obtain ⟨passed, after, rfl, hpassed⟩ := List.eq_append_cons_of_mem mem
    have others : ∀ e ∈ passed, decide (event ≠ e) = true := by
      intro e he
      simp only [ne_eq, decide_not, Bool.not_eq_true', decide_eq_false_iff_not]
      rintro rfl
      exact hpassed he
    obtain ⟨pre, x, split, found⟩ := advance_eq
      (c := fun next => decide (event ≠ next)) top stack enough
    rw [List.takeWhile_append_of_pos others, List.takeWhile_cons_of_neg (by simp),
      List.append_nil] at split
    rw [List.dropWhile_append_of_pos others, List.dropWhile_cons_of_neg (by simp)] at found
    have whole : top :: (passed ++ event :: after) = pre ++ x :: event :: after := by
      rw [← List.cons_append, split]
      simp
    have nodup_bin : (pre ++ x :: event :: after).Nodup := whole ▸ (List.nodup_append.mp nodup).1
    have nodup_x := (List.nodup_append.mp nodup_bin).2.1
    have hx : x ∉ after := fun hx => (List.nodup_cons.mp nodup_x).1 (.tail _ hx)
    have full : Chain q.nextInBin (some top) (pre ++ x :: event :: after) := whole ▸ ⟨rfl, stack⟩
    refine ⟨q.modify x fun e => { e with nextInBin := q.nextInBin event }, some top, ?_, ?_,
      fun e he => ?_, rfl, relinked_modify q x _ fun _ => rfl⟩
    · rw [removeItem, if_neg heq, found]
      rfl
    · have left : cut event (top, passed ++ event :: after) = [(top, passed ++ after)] := by
        rw [cut, if_neg heq, List.erase_append_right _ hpassed, List.erase_cons_head]
      rw [left, List.singleton_append]
      refine ⟨?_, fun c hc => ?_⟩
      · rw [nextBin_setNextInBin]
        exact ⟨rfl, h.chain.2⟩
      · obtain rfl | hc := List.mem_cons.mp hc
        · have spliced : Chain (q.modify x fun e =>
              { e with nextInBin := q.nextInBin event }).nextInBin (some top) (pre ++ x :: after) :=
            full.splice (fun y hy => ?_) ?_
          · rw [show pre ++ x :: after = top :: (passed ++ after) by
              rw [← List.cons_append, split]; simp] at spliced
            exact spliced.2
          · rw [nextInBin_setNextInBin, if_neg]
            rintro rfl
            exact (List.nodup_append.mp nodup_bin).2.2 _ hy _ (.head _) rfl
          · rw [nextInBin_setNextInBin, if_pos rfl]
            refine full.rest.2.congr fun y hy => ?_
            rw [nextInBin_setNextInBin, if_neg]
            rintro rfl
            exact hx hy
        · have away (y : EventId) (hy : y ∈ c.events) : y ≠ x := by
            rintro rfl
            refine apart y (mem_entries.mpr ⟨c, hc, hy⟩) ?_
            rw [Bin.events, whole]
            exact List.mem_append_right _ (.head _)
          rw [nextInBin_setNextInBin, if_neg (away c.1 (.head _))]
          refine (h.inBins c (.tail _ hc)).congr fun y hy => ?_
          rw [nextInBin_setNextInBin, if_neg (away y (.tail _ hy))]
    · rw [event_modify, if_neg]
      rintro rfl
      apply he
      rw [Bin.events, whole]
      exact List.mem_append_right _ (.head _)

/-- An event that is in a bin is found and taken out of it. -/
theorem remove_represents (h : q.Represents bins) (binned : Binned q.key bins)
    (nodup : (entries bins).Nodup) (enough : (entries bins).length < q.fuel)
    (mem : event ∈ entries bins) :
    ∃ q' pre c post, bins = pre ++ c :: post ∧ event ∈ c.events ∧ q.remove event = .ok q' ∧
      q'.Represents (pre ++ (cut event c ++ post)) ∧ q.Relinked q' := by
  have start := h.eq_head?
  have eq_iff (e : EventId) : (q.event e).eq (q.event event) = true ↔ q.key e = q.key event :=
    Event.eq_iff
  cases bins with
  | nil => cases mem
  | cons b bins =>
    obtain ⟨c, hc, hmem⟩ := mem_entries.mp mem
    have key_event : q.key event = q.key c.1 := binned.uniform c hc event hmem
    have below := (List.pairwise_cons.mp binned.increasing).1
    by_cases heq : q.key b.1 = q.key event
    · obtain rfl : c = b := by
        refine (List.mem_cons.mp hc).resolve_right fun hc => ?_
        exact absurd (heq.trans key_event) (below c hc).ne
      obtain ⟨q', top, removed, hung, -, -, relinked⟩ := removeItem_hung h nodup
        (by simp only [entries_cons, Bin.events, List.length_append, List.length_cons] at enough; omega)
        hmem
      refine ⟨{ q' with head := top }, [], c, bins, rfl, hmem, ?_, ⟨hung.chain, hung.inBins⟩,
        relinked.events, relinked.instanceCounter, relinked.curTick⟩
      rw [remove, start]
      simp [(eq_iff c.1).mpr heq, removed, Except.map]
    · have hc : c ∈ bins := (List.mem_cons.mp hc).resolve_left fun he => heq (he ▸ key_event.symm)
      have enough_bins : bins.length < q.fuel := by
        have := (tops_sublist (b :: bins)).length_le
        simp only [tops, List.length_map, List.length_cons] at this
        omega
      obtain ⟨pre, d, post, split, found, before, after⟩ := findBin_eq h binned enough_bins
        (key_event ▸ below c hc)
      have hpost : c ∈ post := by
        have hc : c ∈ pre ++ [d] ++ post := by
          rw [List.append_assoc, List.singleton_append, ← split]
          exact .tail b hc
        refine (List.mem_append.mp hc).resolve_left fun hc => ?_
        exact absurd key_event (before c hc).ne'
      obtain ⟨post, rfl⟩ : ∃ rest, post = c :: rest := by
        cases post with
        | nil => cases hpost
        | cons e rest =>
          obtain rfl | hrest := List.mem_cons.mp hpost
          · exact ⟨rest, rfl⟩
          · have increasing := binned.increasing
            rw [split, List.pairwise_append] at increasing
            have later := (List.pairwise_cons.mp increasing.2.1).2
            have := (List.pairwise_cons.mp later).1 c hrest
            exact absurd (this.trans_le (key_event ▸ le_refl _)) (not_lt.mpr (after e (.head _)))
      rw [split] at h nodup enough
      have parts : entries (pre ++ d :: c :: post) = entries (pre ++ [d]) ++ entries (c :: post) := by
        simp
      rw [parts] at nodup enough
      obtain ⟨q', top, removed, hung, kept, head, relinked⟩ := removeItem_hung h.rest
        (List.nodup_append.mp nodup).2.1 (by
          simp only [entries_cons, Bin.events, List.length_append, List.length_cons] at enough
          omega) hmem
      refine ⟨q'.modify d.1 fun e => { e with nextBin := top }, pre ++ [d], c, post,
        by rw [split]; simp, hmem, ?_, ?_, relinked.trans (relinked_nextBin ..)⟩
      · rw [remove, start]
        simp [mt (eq_iff b.1).mp heq, found, (eq_iff c.1).mpr key_event.symm, removed, Except.map]
      · show EventQueue.Hung _ q'.head _
        rw [List.append_assoc, List.singleton_append, head]
        have separate : ∀ e ∈ entries (pre ++ [d]), e ∉ entries (c :: post) :=
          fun e he he' => (List.nodup_append.mp nodup).2.2 _ he _ he' rfl
        refine h.rehang (List.nodup_append.mp nodup).1 (fun e he => kept e fun he' => ?_) hung ?_
        · exact separate e he (by rw [entries_cons]; exact List.mem_append_left _ he')
        · rw [entries_append, entries_cut]
          intro he
          refine separate d.1 (by simp [Bin.events]) ?_
          obtain he | he := List.mem_append.mp he
          · exact List.mem_append_left _ (List.mem_of_mem_erase he)
          · exact List.mem_append_right _ he

theorem cut_cases (event : EventId) (b : Bin) :
    cut event b = [] ∨ ∃ d, cut event b = [d] ∧ d.events ⊆ b.events := by
  have within {d : Bin} (h : cut event b = [d]) : d.events ⊆ b.events := by
    have := entries_cut event b
    rw [h, entries_cons, entries_nil, List.append_nil] at this
    rw [this]
    exact List.erase_subset
  cases h : cut event b with
  | nil => exact .inl rfl
  | cons d rest =>
    obtain rfl : rest = [] := by
      unfold cut at h
      split at h
      · split at h
        · cases h
        · exact (List.cons.inj h).2.symm
      · exact (List.cons.inj h).2.symm
    exact .inr ⟨d, rfl, within h⟩

end EventQueue

namespace Binned

open EventQueue

variable {key : EventId → Key} {bins pre post : List Bin} {b d : Bin} {event : EventId}

/-- A bin may be replaced by one with the same key. -/
theorem replace (h : Binned key (pre ++ b :: post)) (same : key d.1 = key b.1)
    (uniform : ∀ e ∈ d.events, key e = key d.1) : Binned key (pre ++ d :: post) := by
  refine ⟨fun c hc => ?_, ?_⟩
  · obtain hc | hc := List.mem_append.mp hc
    · exact h.uniform c (List.mem_append_left _ hc)
    · obtain rfl | hc := List.mem_cons.mp hc
      · exact uniform
      · exact h.uniform c (List.mem_append_right _ (.tail _ hc))
  · have increasing := h.increasing
    simp only [List.pairwise_append, List.pairwise_cons, List.forall_mem_cons] at increasing ⊢
    simp only [same]
    exact increasing

/-- What is left of the bins is binned. -/
theorem cut (h : Binned key (pre ++ b :: post)) :
    Binned key (pre ++ (EventQueue.cut event b ++ post)) := by
  obtain he | ⟨d, he, sub⟩ := cut_cases event b
  · rw [he, List.nil_append]
    have sub : (pre ++ post).Sublist (pre ++ b :: post) :=
      (List.Sublist.refl pre).append (List.sublist_cons_self b post)
    exact ⟨fun c hc => h.uniform c (sub.subset hc), h.increasing.sublist sub⟩
  · have uniform := h.uniform b (List.mem_append_right _ (.head _))
    have same : key d.1 = key b.1 := uniform d.1 (sub (.head _))
    rw [he, List.singleton_append]
    exact h.replace same fun e hd => (uniform e (sub hd)).trans same.symm

/-- The bins with a new event are binned. -/
theorem putOn (h : Binned key (pre ++ post)) (before : ∀ b ∈ pre, key b.1 < key event)
    (after : ∀ b ∈ post, key event ≤ key b.1) :
    Binned key (pre ++ EventQueue.putOn key event post) := by
  have alone (later : ∀ b ∈ post, key event < key b.1) :
      Binned key (pre ++ (event, []) :: post) := by
    refine ⟨fun c hc => ?_, ?_⟩
    · obtain hc | hc := List.mem_append.mp hc
      · exact h.uniform c (List.mem_append_left _ hc)
      · obtain rfl | hc := List.mem_cons.mp hc
        · exact fun e he => by rw [List.mem_singleton.mp he]
        · exact h.uniform c (List.mem_append_right _ hc)
    · have increasing := h.increasing
      rw [List.pairwise_append] at increasing ⊢
      refine ⟨increasing.1, List.pairwise_cons.mpr ⟨later, increasing.2.1⟩, fun c hc d hd => ?_⟩
      obtain rfl | hd := List.mem_cons.mp hd
      · exact before c hc
      · exact increasing.2.2 c hc d hd
  cases post with
  | nil => exact alone fun b hb => (nomatch hb)
  | cons b post =>
    rw [EventQueue.putOn]
    split
    · rename_i hlt
      refine alone fun c hc => ?_
      obtain rfl | hc := List.mem_cons.mp hc
      · exact hlt
      · have later := (List.pairwise_append.mp h.increasing).2.1
        exact hlt.trans ((List.pairwise_cons.mp later).1 c hc)
    · rename_i hge
      have same : key event = key b.1 := le_antisymm (after b (.head _)) (not_lt.mp hge)
      refine h.replace same fun e he => ?_
      obtain rfl | he := List.mem_cons.mp he
      · rfl
      · exact (h.uniform b (List.mem_append_right _ (.head _)) e he).trans same.symm

end Binned

end EventQ

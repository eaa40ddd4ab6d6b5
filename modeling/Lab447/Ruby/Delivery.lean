import Lab447.Lib.Pools
import Lab447.Ruby.Recording
import Lab447.Ruby.Tally

/-!
Delivery of broadcasts. A broadcast that is accepted is completed once, and the
copies of it that wait, are on the network or have arrived at another L1 are then
exactly one, as long as broadcasts are made with care and duplicates find their
lines.
-/

namespace Ruby

open Script Controller

/-! ### Packets that are known -/

/-- The packets an L1 has handed over or made copies of are among those it has
taken. -/
structure Known (taken : Packet → Prop) (v : View) : Prop where
  hits : ∀ q ∈ v.sequencer.hitCallbacks, ∃ p, taken p ∧ p.id = q.id
  copies : ∀ m ∈ v.queue.messages, m.isBCDuplicate = true → ∃ p, taken p ∧ p.id = m.pkt.id
  sent : ∀ r ∈ v.sent, ∀ q, r.packetptr = some q → ∃ p, taken p ∧ p.id = q.id

section
variable {cfg : Config} {taken taken' : Packet → Prop} {pending pending' : Addr → Bool}
  {v v' : View} {a : Addr}

theorem id_eq_of_blank {q q' : Packet} (h : q.blank = q'.blank) : q.id = q'.id :=
  have ids : q.blank.id = q'.blank.id := congrArg Packet.id h
  ids

theorem Known.mono (h : Known taken v) (sub : ∀ p, taken p → taken' p) : Known taken' v where
  hits q hq := (h.hits q hq).imp fun p hp => ⟨sub p hp.1, hp.2⟩
  copies m hm hd := (h.copies m hm hd).imp fun p hp => ⟨sub p hp.1, hp.2⟩
  sent r hr q hq := (h.sent r hr q hq).imp fun p hp => ⟨sub p hp.1, hp.2⟩

theorem Known.completed {done left : List SequencerRequest} {record : Addr → Option Packet}
    {issued gone : List RubyRequest} (known : Known taken v)
    (h : Completed a done left record issued gone v v') (from_table : ∀ r ∈ done, taken r.pkt)
    (new : ∀ m ∈ issued, m.isBCDuplicate = true → ∃ p, taken p ∧ p.id = m.pkt.id) :
    Known taken v' := by
  refine ⟨fun q hq => ?_, fun m hm hd => ?_, ?_⟩
  · have hq : q.blank ∈ v'.sequencer.hitCallbacks.map Packet.blank := List.mem_map_of_mem hq
    rw [h.hits] at hq
    obtain hq | hq := List.mem_append.mp hq
    · obtain ⟨q', hq', he⟩ := List.mem_map.mp hq
      obtain ⟨p, hp, hid⟩ := known.hits q' hq'
      exact ⟨p, hp, hid.trans (id_eq_of_blank he)⟩
    · obtain ⟨r, hr, he⟩ := List.mem_map.mp hq
      exact ⟨r.pkt, from_table r hr, id_eq_of_blank he⟩
  · obtain hm | hm := List.mem_append.mp (h.queue.subset (List.mem_append_right gone hm))
    · exact new m hm hd
    · exact known.copies m hm hd
  · rw [h.sent]
    exact known.sent

theorem Known.loaded {gone : List RubyRequest} (known : Known taken v) (listed : Listed cfg taken v)
    (h : Loaded cfg a gone v v') : Known taken v' := by
  obtain ⟨⟨r, rest, hr, -⟩, data, done⟩ := h
  refine known.completed done
    (fun r hr => listed.taken a r ((List.takeWhile_sublist _).subset hr)) fun m hm hd => ?_
  obtain hm | hm := List.mem_append.mp hm
  · cases hrec : v.sequencer.bcRecord a with
    | none =>
      rw [hrec] at hm
      cases hm
    | some pkt =>
      rw [hrec] at hm
      rw [listed.record, hr] at hrec
      obtain ⟨he, -⟩ := Option.filter_eq_some_iff.mp hrec
      cases he
      exact ⟨r.pkt, listed.taken a r (by rw [hr]; exact .head rest), (id_of_mem_copies hm).symm⟩
  · rw [isBCDuplicate_of_mem_reissued hm] at hd
    cases hd

theorem Known.move (known : Known taken v) (listed : Listed cfg taken v)
    (h : Move cfg pending pending' v v') : Known taken v' := by
  cases h with
  | shuffled he hq _ =>
    subst he
    exact ⟨known.hits, fun m hm => known.copies m (hq.subset hm), known.sent⟩
  | @taken m _ _ he hq _ =>
    subst he
    exact ⟨known.hits, fun m' hm => known.copies m' (hq.subset (.tail m hm)), known.sent⟩
  | @answered m _ hd he hq _ =>
    subst he
    refine ⟨known.hits, fun m' hm => known.copies m' (hq.subset (.tail m hm)), fun r hr q hp => ?_⟩
    obtain hr | hr := List.mem_append.mp hr
    · exact known.sent r hr q hp
    · cases List.mem_singleton.mp hr
      cases hp
      exact known.copies m (hq.subset (.head _)) hd
  | loadHit _ _ loaded _ => exact known.loaded listed loaded
  | ifetchHit _ _ _ fetched _ =>
    refine known.completed fetched.2
      (fun r hr => listed.taken _ r ((List.takeWhile_sublist _).subset hr)) fun m hm hd => ?_
    rw [isBCDuplicate_of_mem_reissued hm] at hd
    cases hd
  | storeHit _ _ stored _ =>
    exact known.completed stored.2 (fun r hr => listed.taken _ r hr) fun m hm => (nomatch hm)
  | fill _ loaded _ => exact known.loaded listed loaded
  | storeFill _ stored _ =>
    exact known.completed stored.2 (fun r hr => listed.taken _ r hr) fun m hm => (nomatch hm)

theorem Move.receipts (h : Move cfg pending pending' v v') :
    v'.sequencer.bcCallbacks = v.sequencer.bcCallbacks := by
  cases h with
  | shuffled he _ _ | taken _ he _ _ | answered _ he _ _ => rw [he]
  | loadHit _ _ h _ | fill _ h _ => exact h.2.choose_spec.receipts
  | ifetchHit _ _ _ h _ | storeHit _ _ h _ | storeFill _ h _ => exact h.2.receipts

end

/-! ### Runs made with care -/

/-- Broadcasts are made as `CarefulRequest` says, and a duplicate is handled only
when its line is there and will not be invalid after a pending fill. -/
def Careful {cfg : Config} (s : System cfg) : Step cfg → Prop
  | .makeRequest i pkt => CarefulRequest cfg (s.l1 i) pkt
  | .mandatoryQueue i _ => ∀ m, (s.l1 i).mandatoryQueue.peek = some m → m.isBCDuplicate = true →
    (s.l1 i).stateForCopy m.lineAddress ∉ lostToCopy
  | _ => True

namespace System

variable {cfg : Config} {s t : System cfg}

/-- The packets L1 `i` has taken. -/
def Taken (s : System cfg) (i : Fin cfg.numL1) (p : Packet) : Prop := (i, p) ∈ s.accepted

structure Delivering (s : System cfg) : Prop where
  fresh : ∀ i p, s.Taken i p → p.id < s.packets
  unique : ∀ i p i' p', s.Taken i p → s.Taken i' p' → p.id = p'.id → i = i' ∧ p = p'
  orderly : ∀ i, Orderly cfg (s.Taken i) (s.l1 i).pending (s.l1 i).view
  known : ∀ i, Known (s.Taken i) (s.l1 i).view
  receipts : ∀ i, ∀ q ∈ (s.l1 i).view.sequencer.bcCallbacks, q.id < s.packets
  tracked : ∀ i p, s.Taken i p → p.isBroadcast = true → (s.l1 i).view.Tracked p
  copies : ∀ i p, s.Taken i p → p.isBroadcast = true → ∀ j : Fin cfg.numL1, j ≠ i →
    (s.l1 i).view.waiting p.id j + (s.l1 i).view.flying p.id j + (s.l1 j).view.receipts p.id =
      (s.l1 i).view.hits p.id

theorem delivering_start : Delivering (start cfg) := by
  refine ⟨fun _ _ h => (nomatch h), fun _ _ _ _ h => (nomatch h), fun i => ?_, fun i => ?_,
    fun _ _ h => (nomatch h), fun _ _ h => (nomatch h), fun _ _ h => (nomatch h)⟩
  · refine ⟨⟨fun _ _ h => (nomatch h), fun _ _ h => (nomatch h), fun _ _ h => (nomatch h),
      fun _ _ h => (nomatch h), fun _ => rfl⟩, fun a => ?_, fun a h => ?_⟩
    · exact .refl _
    · cases h
  · exact ⟨fun _ h => (nomatch h), fun _ h => (nomatch h), fun _ h => (nomatch h)⟩

variable {c : Controller}

/-- One controller makes a move. -/
theorem Delivering.move (inv : Delivering s) (version : ∀ i, (s.l1 i).version = i)
    {l : Fin cfg.numL1} (h : Move cfg (s.l1 l).pending c.pending (s.l1 l).view c.view) :
    Delivering (s.set l c) := by
  have at_l : (s.set l c).l1 l = c := by rw [l1_set, if_pos rfl]
  have off (i : Fin cfg.numL1) (hi : i ≠ l) : (s.set l c).l1 i = s.l1 i := by rw [l1_set, if_neg hi]
  have kept (p : Packet) (hp : s.Taken l p) (hb : p.isBroadcast = true) :=
    h.kept (inv.orderly l) (fun q q' hq hq' he => (inv.unique l q l q' hq hq' he).2) hp hb
      (inv.tracked l p hp hb)
  have receipts (i : Fin cfg.numL1) : ((s.set l c).l1 i).view.sequencer.bcCallbacks =
      (s.l1 i).view.sequencer.bcCallbacks := by
    by_cases hi : i = l
    · subst hi
      rw [at_l, h.receipts]
    · rw [off i hi]
  refine ⟨inv.fresh, inv.unique, fun i => ?_, fun i => ?_, fun i => ?_, fun i p hp hb => ?_,
    fun i p hp hb j hj => ?_⟩
  · by_cases hi : i = l
    · subst hi
      rw [at_l]
      exact (inv.orderly i).move h
    · rw [off i hi]
      exact inv.orderly i
  · by_cases hi : i = l
    · subst hi
      rw [at_l]
      exact (inv.known i).move (inv.orderly i).toListed h
    · rw [off i hi]
      exact inv.known i
  · rw [receipts]
    exact inv.receipts i
  · by_cases hi : i = l
    · subst hi
      rw [at_l]
      exact (kept p hp hb).tracked
    · rw [off i hi]
      exact inv.tracked i p hp hb
  · have count := inv.copies i p hp hb j hj
    have same : ((s.set l c).l1 j).view.receipts p.id = (s.l1 j).view.receipts p.id := by
      unfold View.receipts
      rw [receipts]
    rw [same]
    by_cases hi : i = l
    · subst hi
      have made := (kept p hp hb).copies j j.isLt
        (fun he => hj (Fin.ext (he.trans (version i))))
      rw [at_l]
      omega
    · rw [off i hi]
      exact count

/-- What an accepted packet changes: it is at the end of the table of its line,
and may have been enqueued. -/
structure Enlisted (cfg : Config) (pkt : Packet) (c c' : Controller) : Prop where
  pending : c'.pending = c.pending
  sent : c'.view.sent = c.view.sent
  hitCallbacks : c'.view.sequencer.hitCallbacks = c.view.sequencer.hitCallbacks
  bcCallbacks : c'.view.sequencer.bcCallbacks = c.view.sequencer.bcCallbacks
  table : ∃ r : SequencerRequest, r.pkt = pkt ∧ ∀ b, c'.view.requests b =
    if b = makeLineAddress cfg pkt.addr then c.view.requests b ++ [r] else c.view.requests b
  queue : ∃ new : List RubyRequest, (∀ m ∈ new, m.isBCDuplicate = false) ∧
    c'.view.queue.messages.Perm (new ++ c.view.queue.messages)

variable {pkt : Packet} {c' : Controller}

theorem enlisted_of_makeRequest (h : c.makeRequest cfg pkt = .ok (.Issued, c')) :
    Enlisted cfg pkt c c' := by
  have served := makeRequest_served h
  obtain ⟨hn, -⟩ | ⟨-, primary, secondary, -, ⟨-, rfl⟩ | ⟨-, hi⟩⟩ := makeRequest_cases h
  · exact absurd rfl hn
  · exact ⟨pending_congr served.shape served.tbeState, rfl, rfl, rfl,
      ⟨_, rfl, fun b => requests_enlisted b⟩, [], fun m hm => (nomatch hm), .refl _⟩
  · obtain ⟨-, queue, seq⟩ := issueRequest_ok hi
    refine ⟨pending_congr served.shape served.tbeState, (Ctx.view_served served).2, ?_, ?_, ?_, ?_⟩
    · show c'.sequencer.hitCallbacks = _
      rw [seq]
      rfl
    · show c'.sequencer.bcCallbacks = _
      rw [seq]
      rfl
    · refine ⟨⟨pkt, primary, secondary⟩, rfl, fun b => ?_⟩
      rw [← requests_enlisted]
      show c'.sequencer.requestTable b = _
      rw [seq]
      rfl
    · refine ⟨[request cfg pkt secondary], fun m hm => by cases List.mem_singleton.mp hm; rfl, ?_⟩
      show c'.mandatoryQueue.messages.Perm _
      rw [queue]
      exact MessageBuffer.messages_enqueue _ _

theorem Enlisted.hits (h : Enlisted cfg pkt c c') (n : Nat) :
    c'.view.hits n = c.view.hits n := by rw [View.hits, h.hitCallbacks]; rfl

theorem Enlisted.waiting (h : Enlisted cfg pkt c c') (n j : Nat) :
    c'.view.waiting n j = c.view.waiting n j := by
  obtain ⟨new, plain, perm⟩ := h.queue
  have count : copiesIn c'.view.queue.messages n j = copiesIn (new ++ c.view.queue.messages) n j :=
    perm.countP_eq _
  have none_new : copiesIn new n j = 0 :=
    copiesIn_eq_zero fun m hm hd => by rw [plain m hm] at hd; cases hd
  rw [copiesIn_append, none_new, Nat.zero_add] at count
  exact count

theorem Enlisted.flying (h : Enlisted cfg pkt c c') (n j : Nat) :
    c'.view.flying n j = c.view.flying n j := by rw [View.flying, h.sent]; rfl

theorem Enlisted.tracked {p : Packet} (h : Enlisted cfg pkt c c') (hne : pkt.id ≠ p.id)
    (tracked : c.view.Tracked p) : c'.view.Tracked p := by
  obtain ⟨new, hnew, table⟩ := h.table
  unfold View.Tracked
  rw [h.hits]
  obtain ⟨h0, r, rest, hr, hp⟩ | ⟨h1, none_left⟩ := tracked
  · refine .inl ⟨h0, r, ?_⟩
    rw [table]
    split
    · exact ⟨rest ++ [new], by rw [hr]; rfl, hp⟩
    · exact ⟨rest, hr, hp⟩
  · refine .inr ⟨h1, fun b r hr => ?_⟩
    rw [table] at hr
    split at hr
    · obtain hr | hr := List.mem_append.mp hr
      · exact none_left b r hr
      · rw [List.mem_singleton.mp hr, hnew]
        exact hne
    · exact none_left b r hr

/-- A packet is accepted by L1 `l`. -/
theorem Delivering.accept (inv : Delivering s) {l : Fin cfg.numL1} (hid : pkt.id = s.packets)
    (careful : CarefulRequest cfg (s.l1 l) pkt)
    (h : (s.l1 l).makeRequest cfg pkt = .ok (.Issued, c)) :
    Delivering { s.set l c with packets := s.packets + 1, accepted := (l, pkt) :: s.accepted } := by
  have new := enlisted_of_makeRequest h
  have at_l : (s.set l c).l1 l = c := by rw [l1_set, if_pos rfl]
  have off (i : Fin cfg.numL1) (hi : i ≠ l) : (s.set l c).l1 i = s.l1 i := by rw [l1_set, if_neg hi]
  have old (i : Fin cfg.numL1) (p : Packet) (hp : s.Taken i p) : pkt.id ≠ p.id := by
    have := inv.fresh i p hp
    omega
  have orderly : Orderly cfg (fun p => (l, p) ∈ (l, pkt) :: s.accepted) c.pending c.view := by
    rw [new.pending]
    obtain ⟨hn, -⟩ | ⟨-, primary, secondary, types, ⟨hrs, rfl⟩ | ⟨hrs, hi⟩⟩ := makeRequest_cases h
    · exact absurd rfl hn
    · refine (inv.orderly l).aliased hrs ?_ (fun p hp => .tail _ hp) (.head _)
      by_contra hb
      exact hrs (careful (by simpa using hb)).1
    · exact (inv.orderly l).issued hrs careful types (fun p hp => .tail _ hp) (.head _) hi
  have known : Known (fun p => (l, p) ∈ (l, pkt) :: s.accepted) c.view := by
    have before : Known (fun p => (l, p) ∈ (l, pkt) :: s.accepted) (s.l1 l).view :=
      (inv.known l).mono fun p hp => .tail _ hp
    obtain ⟨fresh, plain, perm⟩ := new.queue
    refine ⟨?_, fun m hm hd => ?_, ?_⟩
    · rw [new.hitCallbacks]
      exact before.hits
    · obtain hm | hm := List.mem_append.mp (perm.subset hm)
      · rw [plain m hm] at hd
        cases hd
      · exact before.copies m hm hd
    · rw [new.sent]
      exact before.sent
  have receipts (i : Fin cfg.numL1) : ((s.set l c).l1 i).view.sequencer.bcCallbacks =
      (s.l1 i).view.sequencer.bcCallbacks := by
    by_cases hi : i = l
    · subst hi
      rw [at_l, new.bcCallbacks]
    · rw [off i hi]
  -- nothing is known of the number of the new packet
  have unknown (q : Packet) (hq : ∃ p, s.Taken l p ∧ p.id = q.id) : q.id ≠ pkt.id := by
    obtain ⟨p, hp, he⟩ := hq
    exact fun h => old l p hp (h.symm.trans he.symm)
  have fresh_hits : (s.l1 l).view.hits pkt.id = 0 :=
    List.countP_eq_zero.mpr fun q hq => by simpa using unknown q ((inv.known l).hits q hq)
  have fresh_counts (j : Fin cfg.numL1) : (s.l1 l).view.waiting pkt.id j +
      (s.l1 l).view.flying pkt.id j + (s.l1 j).view.receipts pkt.id = 0 := by
    have waiting : (s.l1 l).view.waiting pkt.id j = 0 :=
      copiesIn_eq_zero fun m hm hd => unknown m.pkt ((inv.known l).copies m hm hd)
    have flying : (s.l1 l).view.flying pkt.id j = 0 := by
      refine List.countP_eq_zero.mpr fun r hr => ?_
      cases hp : r.packetptr with
      | none => simp
      | some q => simp [unknown q ((inv.known l).sent r hr q hp)]
    have receipts : (s.l1 j).view.receipts pkt.id = 0 := by
      refine List.countP_eq_zero.mpr fun q hq => ?_
      have := inv.receipts j q hq
      simp only [decide_eq_true_eq]
      omega
    omega
  have fresh_tracked (hb : pkt.isBroadcast = true) : c.view.hits pkt.id = 0 ∧
      ∃ r rest, c.view.requests pkt.addr = r :: rest ∧ r.pkt = pkt := by
    obtain ⟨hrs, aligned, -⟩ := careful hb
    obtain ⟨r, hr, table⟩ := new.table
    have line := makeLineAddress_of_getOffset aligned
    rw [line] at hrs
    refine ⟨(new.hits _).trans fresh_hits, r, [], ?_, hr⟩
    rw [table, if_pos line.symm, show (s.l1 l).view.requests pkt.addr = [] from hrs]
    rfl
  refine ⟨fun i p hp => ?_, fun i p i' p' hp hp' he => ?_, fun i => ?_, fun i => ?_, fun i q hq => ?_,
    fun i p hp hb => ?_, fun i p hp hb j hj => ?_⟩
  · obtain he | hp := List.mem_cons.mp hp
    · cases he
      exact hid.trans_lt (Nat.lt_succ_self _)
    · exact (inv.fresh i p hp).trans (Nat.lt_succ_self _)
  · obtain e | hp := List.mem_cons.mp hp <;> obtain e' | hp' := List.mem_cons.mp hp'
    · cases e
      cases e'
      exact ⟨rfl, rfl⟩
    · cases e
      exact absurd he (old i' p' hp')
    · cases e'
      exact absurd he.symm (old i p hp)
    · exact inv.unique i p i' p' hp hp' he
  · by_cases hi : i = l
    · subst hi
      rw [at_l]
      exact orderly
    · rw [off i hi]
      exact (inv.orderly i).mono fun p hp => .tail _ hp
  · by_cases hi : i = l
    · subst hi
      rw [at_l]
      exact known
    · rw [off i hi]
      exact (inv.known i).mono fun p hp => .tail _ hp
  · rw [receipts] at hq
    exact (inv.receipts i q hq).trans (Nat.lt_succ_self _)
  · obtain he | was := List.mem_cons.mp hp
    · cases he
      rw [at_l]
      exact .inl (fresh_tracked hb)
    · by_cases hi : i = l
      · subst hi
        rw [at_l]
        exact new.tracked (old i p was) (inv.tracked i p was hb)
      · rw [off i hi]
        exact inv.tracked i p was hb
  · show ((s.set l c).l1 i).view.waiting p.id j + ((s.set l c).l1 i).view.flying p.id j +
      ((s.set l c).l1 j).view.receipts p.id = ((s.set l c).l1 i).view.hits p.id
    have same : ((s.set l c).l1 j).view.receipts p.id = (s.l1 j).view.receipts p.id := by
      unfold View.receipts
      rw [receipts]
    rw [same]
    obtain he | was := List.mem_cons.mp hp
    · cases he
      rw [at_l, new.waiting, new.flying, (fresh_tracked hb).1]
      exact fresh_counts j
    · by_cases hi : i = l
      · subst hi
        rw [at_l, new.waiting, new.flying, new.hits]
        exact inv.copies i p was hb j hj
      · rw [off i hi]
        exact inv.copies i p was hb j hj

/-- Only what is sent and received differs. -/
structure Alike (v v' : View) : Prop where
  table : v'.sequencer.requestTable = v.sequencer.requestTable
  record : v'.sequencer.bcRecord = v.sequencer.bcRecord
  hitCallbacks : v'.sequencer.hitCallbacks = v.sequencer.hitCallbacks
  queue : v'.queue.messages.Perm v.queue.messages

variable {v' v : View}

theorem Alike.requests (h : Alike v v') : v'.requests = v.requests := h.table

theorem Alike.hits (h : Alike v v') (n : Nat) : v'.hits n = v.hits n := by
  rw [View.hits, h.hitCallbacks]
  rfl

theorem Alike.waiting (h : Alike v v') (n j : Nat) :
    v'.waiting n j = v.waiting n j := h.queue.countP_eq _

theorem Alike.tracked {p : Packet} (h : Alike v v') (tracked : v.Tracked p) : v'.Tracked p := by
  unfold View.Tracked
  rw [h.hits, h.requests]
  exact tracked

theorem Alike.orderly {taken : Packet → Prop} {pending : Addr → Bool} (h : Alike v v')
    (inv : Orderly cfg taken pending v) : Orderly cfg taken pending v' := by
  refine ⟨⟨?_, ?_, ?_, ?_, ?_⟩, fun a => ?_, ?_⟩
  · exact h.requests ▸ inv.taken
  · exact h.requests ▸ inv.line
  · exact h.requests ▸ inv.behind
  · exact h.requests ▸ inv.broadcast
  · exact h.requests ▸ h.record ▸ inv.record
  · exact h.requests ▸ ((asksIn_perm h.queue a).map _).trans (inv.asks a)
  · exact h.requests ▸ inv.busy

variable {i : Fin cfg.numL1}

/-- The `k`-th response of L1 `i` reaches L1 `j`. -/
theorem Delivering.deliver (inv : Delivering s) (version : ∀ i, (s.l1 i).version = i)
    (coherent : ∀ i, (s.l1 i).Coherent) (addressed : ∀ i, Addressed cfg (s.l1 i).view)
    {j : Fin cfg.numL1} {k : Nat} (h : s.deliver i k j = some (.ok t)) : Delivering t := by
  obtain ⟨r, x, hk, hd, dest, hx, rfl⟩ := deliver_ok h
  rw [responseL1NetworkIn_popped hd hx, putBack_none]
  have sent : (s.l1 i).view.sent.Perm (r :: ((s.take i k).l1 i).view.sent) := by
    rw [take, l1_set, if_pos rfl]
    have perm := (Pools.perm_eraseIdx hk).filter fun m : ResponseMsg => m.isBCDuplicate
    rw [List.filter_cons_of_pos hd] at perm
    exact perm
  obtain ⟨-, ⟨pkt, hp⟩, n, -, other, only⟩ :=
    (addressed i).answers r (sent.symm.subset (.head _))
  rw [only, List.mem_singleton, MachineID.mk.injEq] at dest
  obtain rfl : n = j := dest.2.symm
  have hji : j ≠ i := fun he => other (by rw [← he]; exact (version j).symm)
  have there : (s.take i k).l1 j = s.l1 j := by rw [take, l1_set, if_neg hji]
  rw [there] at hx
  obtain ⟨pkt', q, hp', pending, view, perm⟩ := responseL1NetworkIn_received (coherent j) hd hx
  cases hp.symm.trans hp'
  have at_j : ((s.take i k).set j x.ctrl).l1 j = x.ctrl := by rw [l1_set, if_pos rfl]
  have off (l : Fin cfg.numL1) (hl : l ≠ j) :
      ((s.take i k).set j x.ctrl).l1 l = (s.take i k).l1 l := by rw [l1_set, if_neg hl]
  have away (l : Fin cfg.numL1) (hl : l ≠ j) (hi : l ≠ i) :
      ((s.take i k).set j x.ctrl).l1 l = s.l1 l := by rw [off l hl, take, l1_set, if_neg hi]
  have at_i : (s.take i k).l1 i =
      { s.l1 i with responseL1NetworkOut := (s.l1 i).responseL1NetworkOut.eraseIdx k } := by
    rw [take, l1_set, if_pos rfl]
  have alike (l : Fin cfg.numL1) :
      Alike (s.l1 l).view (((s.take i k).set j x.ctrl).l1 l).view ∧
        (((s.take i k).set j x.ctrl).l1 l).pending = (s.l1 l).pending := by
    by_cases hl : l = j
    · subst hl
      rw [at_j, view]
      exact ⟨⟨rfl, rfl, rfl, perm⟩, pending⟩
    · by_cases hi : l = i
      · subst hi
        rw [off l hl, at_i]
        exact ⟨⟨rfl, rfl, rfl, .refl _⟩, rfl⟩
      · rw [away l hl hi]
        exact ⟨⟨rfl, rfl, rfl, .refl _⟩, rfl⟩
  have sent_sub (l : Fin cfg.numL1) :
      (((s.take i k).set j x.ctrl).l1 l).view.sent ⊆ (s.l1 l).view.sent := by
    by_cases hl : l = j
    · subst hl
      rw [at_j, view]
      exact List.Subset.refl _
    · by_cases hi : l = i
      · subst hi
        rw [off l hl]
        exact fun m hm => sent.symm.subset (.tail r hm)
      · rw [away l hl hi]
        exact List.Subset.refl _
  -- the packet is one of L1 `i`
  obtain ⟨p₀, hp₀, hid₀⟩ := (inv.known i).sent r (sent.symm.subset (.head _)) pkt hp
  have receipts (l : Fin cfg.numL1) (m : Nat) :
      (((s.take i k).set j x.ctrl).l1 l).view.receipts m =
        (s.l1 l).view.receipts m + if l = j ∧ pkt.id = m then 1 else 0 := by
    by_cases hl : l = j
    · subst hl
      rw [at_j, view]
      simp [View.receipts, Controller.view, List.countP_append, List.countP_singleton]
    · by_cases hi : l = i
      · subst hi
        rw [off l hl, at_i]
        simp [hl, View.receipts, Controller.view]
      · rw [away l hl hi]
        simp [hl]
  have flying (m : Nat) (l : Fin cfg.numL1) : (s.l1 i).view.flying m l =
      (((s.take i k).set j x.ctrl).l1 i).view.flying m l + if l = j ∧ pkt.id = m then 1 else 0 := by
    have count := sent.countP_eq fun r : ResponseMsg =>
      r.packetptr.any (fun q => decide (q.id = m)) && decide (r.destination = [⟨.L1Cache, l⟩])
    have counts : (r.packetptr.any (fun q => decide (q.id = m)) &&
        decide (r.destination = [⟨.L1Cache, l⟩])) = true ↔ l = j ∧ pkt.id = m := by
      rw [hp, only]
      simp only [Option.any_some, Bool.and_eq_true, decide_eq_true_eq, List.cons.injEq, and_true,
        MachineID.mk.injEq, true_and, Fin.ext_iff]
      exact ⟨fun h => ⟨h.2.symm, h.1⟩, fun h => ⟨h.2, h.1.symm⟩⟩
    rw [off i hji.symm, View.flying, count, List.countP_cons, if_congr counts rfl rfl]
    rfl
  refine ⟨inv.fresh, inv.unique, fun l => ?_, fun l => ?_, fun l q' hq' => ?_, fun l p hp hb => ?_,
    fun l p hp hb j' hj' => ?_⟩
  · rw [(alike l).2]
    exact (alike l).1.orderly (inv.orderly l)
  · refine ⟨?_, fun m hm hd => ?_, fun r' hr' => ?_⟩
    · rw [(alike l).1.hitCallbacks]
      exact (inv.known l).hits
    · exact (inv.known l).copies m ((alike l).1.queue.subset hm) hd
    · exact (inv.known l).sent r' (sent_sub l hr')
  · by_cases hl : l = j
    · subst hl
      rw [at_j, view] at hq'
      obtain hq' | hq' := List.mem_append.mp hq'
      · exact inv.receipts l q' hq'
      · rw [List.mem_singleton.mp hq', ← hid₀]
        exact inv.fresh i p₀ hp₀
    · by_cases hi : l = i
      · subst hi
        rw [off l hl, at_i] at hq'
        exact inv.receipts l q' hq'
      · rw [away l hl hi] at hq'
        exact inv.receipts l q' hq'
  · exact (alike l).1.tracked (inv.tracked l p hp hb)
  · have count := inv.copies l p hp hb j' hj'
    rw [(alike l).1.waiting, (alike l).1.hits, receipts]
    by_cases hl : l = i
    · subst hl
      have := flying p.id j'
      omega
    · have elsewhere : ¬ (j' = j ∧ pkt.id = p.id) := fun he =>
        hl (inv.unique l p i p₀ hp hp₀ (he.2.symm.trans hid₀.symm)).1
      have same : (((s.take i k).set j x.ctrl).l1 l).view.flying p.id j' =
          (s.l1 l).view.flying p.id j' := by
        by_cases hlj : l = j
        · subst hlj
          rw [at_j, view]
          rfl
        · rw [away l hlj hl]
      rw [same, if_neg elsewhere]
      exact count

/-- Every careful step keeps the count. -/
theorem Delivering.step (inv : Delivering s) (version : ∀ i, (s.l1 i).version = i)
    (coherent : ∀ i, (s.l1 i).Coherent) (addressed : ∀ i, Addressed cfg (s.l1 i).view)
    {a : Step cfg} (careful : Careful s a) (h : Ruby.step cfg s a = some (.ok t)) :
    Delivering t := by
  cases a with
  | makeRequest i pkt =>
    obtain ⟨-, hid, status, c, hc, rfl⟩ := makeRequest_ok h
    obtain ⟨hs, rfl⟩ | ⟨rfl, -⟩ := makeRequest_cases hc
    · rw [if_neg hs]
      have same : s.set i (s.l1 i) = s := by simp [System.set]
      rw [same]
      exact inv
    · exact inv.accept hid careful hc
  | mandatoryQueue i victim =>
    obtain ⟨c, hc, rfl⟩ := atL1_ok h
    exact inv.move version (mandatoryQueueIn_move (coherent i) (addressed i) careful hc)
  | enqueuePrefetch i address type =>
    simp only [Ruby.step] at h
    split at h
    · obtain ⟨c, hc, rfl⟩ := atL1_ok h
      cases hc
      exact inv.move version (.shuffled (q := (s.l1 i).mandatoryQueue) rfl (.refl _) rfl)
    · cases h
  | optionalQueue i victim =>
    obtain ⟨c, hc, rfl⟩ := atL1_ok h
    exact inv.move version (optionalQueueIn_move (coherent i) hc)
  | request i m =>
    obtain ⟨c, hc, rfl⟩ := atL1_ok h
    obtain ⟨y, hy, rfl⟩ := map_ctrl_ok hc
    exact inv.move version (requestL1NetworkIn_move (coherent i) hy)
  | response i m =>
    simp only [Ruby.step] at h
    split at h
    · cases h
    · rename_i hd
      obtain ⟨c, hc, rfl⟩ := atL1_ok h
      obtain ⟨y, hy, rfl⟩ := map_ctrl_ok hc
      exact inv.move version (responseL1NetworkIn_move (coherent i) (by simpa using hd) hy)
  | deliver i k j => exact inv.deliver version coherent addressed h

theorem delivering_of_reaches (h : (machine cfg).Reaches Careful s) : Delivering s := by
  induction h with
  | start => exact delivering_start
  | next h careful step ih =>
    exact ih.step (fun i => (addressed_of_reaches h i).1) (coherent_of_reaches h)
      (fun i => (addressed_of_reaches h i).2) careful step

/-! ### The assertion of `recordBC` -/

theorem Delivering.readsOnly (inv : Delivering s) (i : Fin cfg.numL1) : (s.l1 i).ReadsOnly :=
  fun a r hr hb => ((inv.orderly i).broadcast a r hr hb).2.1

theorem Delivering.makeRequest_avoids (inv : Delivering s)
    (careful : CarefulRequest cfg (s.l1 i) pkt) :
    Avoids .recordBC ((s.l1 i).makeRequest cfg pkt) := by
  have types : Avoids .recordBC (requestTypes pkt) := by
    unfold requestTypes
    repeat' split
    all_goals first | exact avoids_ok | exact avoids_error (by simp)
  have issued (primary secondary : RubyRequestType) : Avoids .recordBC
      (issueRequest cfg pkt secondary (insertRequest cfg pkt primary secondary (s.l1 i)).2) := by
    unfold issueRequest
    split
    · rename_i hb
      obtain ⟨hrs, aligned, -⟩ := careful hb
      rw [makeLineAddress_of_getOffset aligned] at hrs
      have free : (insertRequest cfg pkt primary secondary (s.l1 i)).2.sequencer.bcRecord
          pkt.addr = none := by
        refine ((inv.orderly i).record pkt.addr).trans ?_
        rw [show (s.l1 i).view.requests pkt.addr = [] from hrs]
        rfl
      unfold recordBC
      rw [if_pos free]
      exact avoids_ok
    · exact avoids_ok
  unfold Controller.makeRequest
  split
  · exact avoids_ok
  · refine avoids_bind types fun ⟨primary, secondary⟩ _ => ?_
    dsimp only
    split
    · exact avoids_ok
    · have hi := issued primary secondary
      split
      · exact avoids_ok
      · rename_i he
        rw [he] at hi
        exact avoids_map hi

/-- A careful step does not run into the assertion. -/
theorem Delivering.step_ne_recordBC (inv : Delivering s) {a : Step cfg} (careful : Careful s a) :
    Ruby.step cfg s a ≠ some (.error .recordBC) := by
  have reads := inv.readsOnly
  have at_l1 {i : Fin cfg.numL1} {r : Option (Except Fault Controller)}
      (avoids : ∀ e, r = some e → Avoids .recordBC e) :
      s.atL1 i r ≠ some (.error .recordBC) := by
    intro h
    obtain ⟨e, he, h⟩ := Option.map_eq_some_iff.mp h
    exact avoids_map (avoids e he) h
  have ctrl {r : Option (Except Fault Ctx)} (avoids : ∀ e, r = some e → Avoids .recordBC e) :
      ∀ e, r.map (fun e => e.map Ctx.ctrl) = some e → Avoids .recordBC e := by
    intro e he
    obtain ⟨e', he', rfl⟩ := Option.map_eq_some_iff.mp he
    exact avoids_map (avoids e' he')
  cases a with
  | makeRequest i pkt =>
    simp only [Ruby.step, System.makeRequest]
    split
    · exact fun h => avoids_map (inv.makeRequest_avoids careful) (Option.some.inj h)
    · simp
  | mandatoryQueue i victim => exact at_l1 fun e => mandatoryQueueIn_avoids (reads i)
  | enqueuePrefetch i address type =>
    simp only [Ruby.step]
    split
    · exact at_l1 fun e he => by cases he; exact avoids_ok
    · simp
  | optionalQueue i victim => exact at_l1 fun e => optionalQueueIn_avoids (reads i)
  | request i m => exact at_l1 (ctrl fun e => requestL1NetworkIn_avoids (reads i))
  | response i m =>
    simp only [Ruby.step]
    split
    · simp
    · exact at_l1 (ctrl fun e => responseL1NetworkIn_avoids (reads i))
  | deliver i k j =>
    simp only [Ruby.step, System.deliver]
    split
    · simp
    · split
      · intro h
        obtain ⟨e, he, h⟩ := Option.map_eq_some_iff.mp h
        refine avoids_map (responseL1NetworkIn_avoids ?_ he) h
        rw [take, l1_set]
        split
        · rename_i hj
          exact hj ▸ reads i
        · exact reads j
      · simp

/-! ### Delivery -/

/-- The broadcast `p` of L1 `i` is recorded and not yet completed, or it was
completed once and is recorded no more. Once it is completed there is one copy of
it for every other L1: in the mandatory queue, on the network or handed over. -/
structure Delivers (s : System cfg) (i : Fin cfg.numL1) (p : Packet) : Prop where
  once : (s.l1 i).view.hits p.id = 0 ∧ (s.l1 i).sequencer.bcRecord p.addr = some p ∨
    (s.l1 i).view.hits p.id = 1 ∧ ∀ a q, (s.l1 i).sequencer.bcRecord a = some q → q.id ≠ p.id
  copies : ∀ j : Fin cfg.numL1, j ≠ i →
    (s.l1 i).view.waiting p.id j + (s.l1 i).view.flying p.id j + (s.l1 j).view.receipts p.id =
      (s.l1 i).view.hits p.id

theorem Delivering.delivers (inv : Delivering s) {p : Packet} (hp : s.Taken i p)
    (hb : p.isBroadcast = true) : s.Delivers i p := by
  have record := (inv.orderly i).record
  refine ⟨?_, inv.copies i p hp hb⟩
  obtain ⟨h0, r, rest, hr, rfl⟩ | ⟨h1, gone⟩ := inv.tracked i p hp hb
  · refine .inl ⟨h0, (record _).trans ?_⟩
    rw [hr]
    simp [hb]
  · refine .inr ⟨h1, fun a q hq => ?_⟩
    have hq := (record a).symm.trans hq
    obtain ⟨hq, -⟩ := Option.filter_eq_some_iff.mp hq
    obtain ⟨r, hr, rfl⟩ := Option.map_eq_some_iff.mp hq
    exact gone a r (List.mem_of_mem_head? hr)

/-- In every run made with care every broadcast that is accepted is completed at
most once, goes to every other L1 exactly once when it is, and is recorded just
until then; and the assertion of `recordBC` does not fail. -/
theorem broadcasts_delivered (h : (machine cfg).Reaches Careful s) :
    (∀ i p, (i, p) ∈ s.accepted → p.isBroadcast = true → s.Delivers i p) ∧
      ∀ a, Careful s a → Ruby.step cfg s a ≠ some (.error .recordBC) :=
  have inv := delivering_of_reaches h
  ⟨fun _ _ hp hb => inv.delivers hp hb, fun _ careful => inv.step_ne_recordBC careful⟩

end System

/-! ### Careful and careless runs -/

instance (pkt : Packet) : Decidable (∃ primary, requestTypes pkt = .ok (primary, .LD)) :=
  decidable_of_iff ((requestTypes pkt).toOption.map Prod.snd = some .LD) (by
    cases requestTypes pkt with
    | error f => simp [Except.toOption]
    | ok types =>
      obtain ⟨primary, secondary⟩ := types
      simp [Except.toOption])

instance (cfg : Config) (c : Controller) (pkt : Packet) : Decidable (CarefulRequest cfg c pkt) :=
  inferInstanceAs (Decidable (_ → _))

instance {cfg : Config} (s : System cfg) : (a : Step cfg) → Decidable (Careful s a)
  | .makeRequest i pkt => inferInstanceAs (Decidable (CarefulRequest cfg (s.l1 i) pkt))
  | .mandatoryQueue i _ => inferInstanceAs (Decidable (∀ m ∈ (s.l1 i).mandatoryQueue.peek,
      m.isBCDuplicate = true → (s.l1 i).stateForCopy m.lineAddress ∉ lostToCopy))
  | .enqueuePrefetch .. | .optionalQueue .. | .request .. | .response .. | .deliver .. =>
    .isTrue trivial

namespace pair

/-- After the fill the duplicate is handled and its answer delivered. -/
def delivered : List (Step pair) := filled ++ [.mandatoryQueue first 0, .deliver first 0 second]

/-- The duplicate finds its line invalidated. -/
def dropped : List (Step pair) := invalidated ++ [.mandatoryQueue first 0]

/-- The broadcast comes to a line that another read is waiting for. -/
def aliased : List (Step pair) :=
  [.makeRequest first (read first 0 64 false), .makeRequest first (read first 1 64 true),
    .mandatoryQueue first 0, .response first (fill first 64)]

/-- The broadcast does not begin at a line. -/
def unaligned : List (Step pair) :=
  [.makeRequest first (read first 0 72 true), .mandatoryQueue first 0, .response first (fill first 64)]

end pair

namespace System

open pair

theorem broadcasts_delivered_filled :
    ∃ s : System pair, (machine pair).runIf Careful (machine pair).start delivered = some s ∧
      (s.l1 second).view.receipts 0 = 1 ∧ s.Delivers first (read first 0 64 true) := by
  have observed : ((machine pair).runIf Careful (machine pair).start delivered).any (fun s =>
      decide ((first, read first 0 64 true) ∈ s.accepted) &&
      decide ((s.l1 second).view.receipts 0 = 1)) = true := by
    decide +kernel
  obtain ⟨s, hs, he⟩ := (Option.any_eq_true _ _).mp observed
  simp only [Bool.and_eq_true, decide_eq_true_eq] at he
  exact ⟨s, hs, he.2, (broadcasts_delivered (.runIf .start _ hs)).1 first _ he.1 rfl⟩

/-- A broadcast is completed and its duplicate is lost, or never made; and the
assertion of `recordBC` fails. -/
theorem broadcasts_lost :
    (∃ s : System pair, (machine pair).run (machine pair).start dropped = some s ∧
      (first, read first 0 64 true) ∈ s.accepted ∧ ¬ s.Delivers first (read first 0 64 true)) ∧
    (∃ s : System pair, (machine pair).run (machine pair).start aliased = some s ∧
      (first, read first 1 64 true) ∈ s.accepted ∧ ¬ s.Delivers first (read first 1 64 true)) ∧
    ∃ s : System pair, (machine pair).run (machine pair).start unaligned = some s ∧
      Ruby.step pair s (.makeRequest first (read first 1 72 true)) = some (.error .recordBC) := by
  have lost {as : List (Step pair)} {p : Packet} (observed :
      ((machine pair).run (machine pair).start as).any (fun s =>
        decide ((first, p) ∈ s.accepted) && decide ((s.l1 first).view.hits p.id = 1) &&
        decide ((s.l1 first).view.waiting p.id second + (s.l1 first).view.flying p.id second +
          (s.l1 second).view.receipts p.id = 0)) = true) :
      ∃ s : System pair, (machine pair).run (machine pair).start as = some s ∧
        (first, p) ∈ s.accepted ∧ ¬ s.Delivers first p := by
    obtain ⟨s, hs, he⟩ := (Option.any_eq_true _ _).mp observed
    simp only [Bool.and_eq_true, decide_eq_true_eq] at he
    refine ⟨s, hs, he.1.1, fun h => ?_⟩
    have count := h.copies second (by decide)
    omega
  refine ⟨lost (by decide +kernel), lost (by decide +kernel), ?_⟩
  have observed : ((machine pair).run (machine pair).start unaligned).any (fun s =>
      (Ruby.step pair s (.makeRequest first (read first 1 72 true))).any fun r =>
        match r with
        | .error .recordBC => true
        | _ => false) = true := by
    decide +kernel
  obtain ⟨s, hs, he⟩ := (Option.any_eq_true _ _).mp observed
  obtain ⟨r, hr, he⟩ := (Option.any_eq_true _ _).mp he
  refine ⟨s, hs, hr.trans ?_⟩
  split at he
  · rfl
  · cases he

end System

end Ruby

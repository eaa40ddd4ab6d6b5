import Lab447.Ruby.Desk

/-!
Counting the copies of a broadcast. As long as the desk is in order, the copies
that an L1 still has to send, or has sent, of one of its broadcasts are as many as
the callbacks for it.
-/

namespace Ruby

open Script Controller

namespace View

/-- How often the packet `n` was handed to the processor that sent it. -/
def hits (v : View) (n : Nat) : Nat := v.sequencer.hitCallbacks.countP (·.id = n)

/-- How often a copy of the packet `n` was handed to the processor. -/
def receipts (v : View) (n : Nat) : Nat := v.sequencer.bcCallbacks.countP (·.id = n)

/-- How many copies of the packet `n` for L1 `j` are in the mandatory queue. -/
def waiting (v : View) (n j : Nat) : Nat :=
  v.queue.messages.countP fun m => m.isBCDuplicate && m.pkt.id = n && m.netDest = [⟨.L1Cache, j⟩]

/-- How many copies of the packet `n` are on the network to L1 `j`. -/
def flying (v : View) (n j : Nat) : Nat :=
  v.sent.countP fun r => r.packetptr.any (·.id = n) && r.destination = [⟨.L1Cache, j⟩]

/-- The broadcast `p` is the first entry of its line, or it has been completed. -/
def Tracked (v : View) (p : Packet) : Prop :=
  (v.hits p.id = 0 ∧ ∃ r rest, v.requests p.addr = r :: rest ∧ r.pkt = p) ∨
    (v.hits p.id = 1 ∧ ∀ a, ∀ r ∈ v.requests a, r.pkt.id ≠ p.id)

end View

/-! ### Copies -/

section
variable {cfg : Config} {v : View} {a : Addr} {n j : Nat}

/-- The copies of packet `n` for L1 `j` in a list of messages. -/
def copiesIn (ms : List RubyRequest) (n j : Nat) : Nat :=
  ms.countP fun m => m.isBCDuplicate && m.pkt.id = n && m.netDest = [⟨.L1Cache, j⟩]

theorem copiesIn_append (ms ms' : List RubyRequest) (n j : Nat) :
    copiesIn (ms ++ ms') n j = copiesIn ms n j + copiesIn ms' n j := List.countP_append ..

theorem copiesIn_eq_zero {ms : List RubyRequest}
    (h : ∀ m ∈ ms, m.isBCDuplicate = true → m.pkt.id ≠ n) : copiesIn ms n j = 0 := by
  refine List.countP_eq_zero.mpr fun m hm => ?_
  cases hd : m.isBCDuplicate with
  | false => simp
  | true => simp [h m hm hd]

theorem count_others (hj : j < cfg.numL1) (hv : j ≠ v.version) :
    (others cfg v.machineID).count ⟨.L1Cache, j⟩ = 1 := by
  have nodup : (others cfg v.machineID).Nodup := by
    refine List.Nodup.filter _ (List.Nodup.map (fun x y h => ?_) List.nodup_range)
    cases h
    rfl
  refine List.count_eq_one_of_mem nodup ?_
  simp only [others, List.mem_filter, List.mem_map, List.mem_range]
  exact ⟨⟨j, hj, rfl⟩, by simpa [View.machineID] using hv⟩

/-- One copy is made for every other L1. -/
theorem copiesIn_copies {data : DataBlock} {pkt : Packet} (hj : j < cfg.numL1)
    (hv : j ≠ v.version) : copiesIn (copies cfg v.machineID a data (some pkt)) pkt.id j = 1 := by
  rw [← count_others hj hv, copiesIn, copies, List.countP_map, List.count]
  congr 1
  funext mach
  simp [duplicate, request, beq_eq_decide]

theorem id_of_mem_copies {self : MachineID} {data : DataBlock} {pkt : Packet} {m : RubyRequest}
    (h : m ∈ copies cfg self a data (some pkt)) : m.pkt.id = pkt.id := by
  obtain ⟨mach, -, rfl⟩ := List.mem_map.mp h
  rfl

end

/-! ### Moves -/

variable {cfg : Config} {taken : Packet → Prop} {pending pending' : Addr → Bool} {v v' : View}
  {a : Addr} {p : Packet}

variable {gone issued : List RubyRequest} {record : Addr → Option Packet}
  {done left : List SequencerRequest}

theorem Completed.hits_eq (h : Completed a done left record issued gone v v') (n : Nat) :
    v'.hits n = v.hits n + done.countP (·.pkt.id = n) := by
  have ids (ps : List Packet) :
      ps.countP (fun p => decide (p.id = n)) = (ps.map Packet.blank).countP (·.id = n) := by
    rw [List.countP_map]
    rfl
  rw [View.hits, ids, h.hits, List.countP_append, ← ids, List.countP_map]
  rfl

theorem Completed.waiting_eq (h : Completed a done left record issued gone v v')
    (plain : ∀ m ∈ gone, m.isBCDuplicate = false) (n j : Nat) :
    v'.waiting n j = copiesIn issued n j + v.waiting n j := by
  have count := h.queue.countP_eq
    fun m => m.isBCDuplicate && decide (m.pkt.id = n) && decide (m.netDest = [⟨.L1Cache, j⟩])
  have none_gone : copiesIn gone n j = 0 :=
    copiesIn_eq_zero fun m hm hd => by rw [plain m hm] at hd; cases hd
  rw [List.countP_append, List.countP_append] at count
  unfold copiesIn at none_gone
  rw [none_gone, Nat.zero_add] at count
  exact count

/-- What a move does for a broadcast: as many new copies for every other L1 as
callbacks. -/
structure Kept (cfg : Config) (v v' : View) (p : Packet) : Prop where
  tracked : v'.Tracked p
  copies : ∀ j < cfg.numL1, j ≠ v.version →
    v'.waiting p.id j + v'.flying p.id j + v.hits p.id =
      v.waiting p.id j + v.flying p.id j + v'.hits p.id

section
variable (listed : Listed cfg taken v) (unique : ∀ q q', taken q → taken q' → q.id = q'.id → q = q')
  (hp : taken p) (hb : p.isBroadcast = true) (tracked : v.Tracked p)

include listed unique hp hb in
/-- An entry with the number of a broadcast is that broadcast, and comes first. -/
theorem Listed.entry {r : SequencerRequest} (hr : r ∈ v.requests a) (hid : r.pkt.id = p.id) :
    r.pkt = p ∧ a = p.addr ∧ ∃ rest, v.requests a = r :: rest := by
  have same : r.pkt = p := unique _ _ (listed.taken a r hr) hp hid
  refine ⟨same, (same ▸ (listed.broadcast a r hr (same ▸ hb)).1).symm, ?_⟩
  cases hrs : v.requests a with
  | nil => simp [hrs] at hr
  | cons r₀ rest =>
    rw [hrs] at hr
    obtain rfl | hr := List.mem_cons.mp hr
    · exact ⟨rest, rfl⟩
    · have plain := listed.behind a r (by rw [hrs]; exact hr)
      rw [same, hb] at plain
      cases plain

include tracked in
/-- Completing other requests leaves a broadcast as it was. -/
theorem Completed.kept_other (h : Completed a done left record issued gone v v')
    (sub : ∀ r ∈ done ++ left, r ∈ v.requests a) (plain : ∀ m ∈ gone, m.isBCDuplicate = false)
    (issued_other : ∀ m ∈ issued, m.isBCDuplicate = true → m.pkt.id ≠ p.id)
    (other : ∀ r ∈ v.requests a, r.pkt.id ≠ p.id) : Kept cfg v v' p := by
  have hits : v'.hits p.id = v.hits p.id := by
    rw [h.hits_eq, List.countP_eq_zero.mpr, Nat.add_zero]
    intro r hr
    simpa using other r (sub r (List.mem_append_left _ hr))
  have requests (b : Addr) : v'.requests b = if b = a then left else v.requests b := by
    rw [View.requests, h.table, Function.update_apply]
    rfl
  refine ⟨?_, fun j _ _ => ?_⟩
  · unfold View.Tracked
    rw [hits]
    obtain ⟨h0, r, rest, hr, rfl⟩ | ⟨h1, gone⟩ := tracked
    · refine .inl ⟨h0, r, rest, ?_, rfl⟩
      rw [requests, if_neg, hr]
      rintro rfl
      exact other r (hr ▸ .head rest) rfl
    · refine .inr ⟨h1, fun b r hr => ?_⟩
      rw [requests] at hr
      split at hr
      · exact other r (sub r (List.mem_append_right _ hr))
      · exact gone b r hr
  · rw [hits, h.waiting_eq plain, copiesIn_eq_zero issued_other, Nat.zero_add]
    unfold View.flying
    rw [h.sent]

include listed unique hp hb tracked in
/-- Reads are completed: if the broadcast is one of them, it is the first, and its
copies are enqueued. -/
theorem Loaded.kept (h : Loaded cfg a gone v v') (plain : ∀ m ∈ gone, m.isBCDuplicate = false) :
    Kept cfg v v' p := by
  obtain ⟨⟨r, rest, hr, hread⟩, data, done⟩ := h
  have record : v.sequencer.bcRecord a = (some r.pkt).filter (·.isBroadcast) := by
    rw [listed.record, hr]
    rfl
  have first : r ∈ v.requests a := by
    rw [hr]
    exact .head rest
  by_cases hid : r.pkt.id = p.id
  · obtain ⟨rfl, rfl, -⟩ := listed.entry unique hp hb first hid
    have behind : ∀ r' ∈ rest, r'.pkt.id ≠ r.pkt.id := by
      intro r' hr' hid'
      have plain' := listed.behind r.pkt.addr r' (by rw [hr]; exact hr')
      have mem : r' ∈ v.requests r.pkt.addr := by
        rw [hr]
        exact .tail r hr'
      obtain ⟨same, -⟩ := listed.entry unique hp hb mem hid'
      rw [same, hb] at plain'
      cases plain'
    have zero : v.hits r.pkt.id = 0 := by
      obtain ⟨h0, -⟩ | ⟨-, none_left⟩ := tracked
      · exact h0
      · exact absurd rfl (none_left r.pkt.addr r first)
    have one : v'.hits r.pkt.id = 1 := by
      rw [done.hits_eq, zero, hr, reads, List.takeWhile_cons_of_pos (by exact hread),
        List.countP_cons_of_pos (by simp), List.countP_eq_zero.mpr]
      intro r' hr'
      simpa using behind r' ((List.takeWhile_sublist _).subset hr')
    refine ⟨.inr ⟨one, fun b r' hr' hid' => ?_⟩, fun j hj hv => ?_⟩
    · have requests : v'.requests b =
          if b = r.pkt.addr then remaining (v.requests r.pkt.addr) else v.requests b := by
        rw [View.requests, done.table, Function.update_apply]
        rfl
      rw [requests] at hr'
      split at hr'
      · rw [hr, remaining, List.dropWhile_cons_of_pos (by exact hread)] at hr'
        exact behind r' ((List.dropWhile_sublist _).subset hr') hid'
      · rename_i hb'
        exact hb' (listed.entry unique hp hb hr' hid').2.1
    · have reissued_none : copiesIn (reissued cfg (remaining (v.requests r.pkt.addr)))
          r.pkt.id j = 0 :=
        copiesIn_eq_zero fun m hm hd => by
          rw [isBCDuplicate_of_mem_reissued hm] at hd
          cases hd
      have flying : v'.flying r.pkt.id j = v.flying r.pkt.id j := by
        unfold View.flying
        rw [done.sent]
      have made : (some r.pkt).filter (·.isBroadcast) = some r.pkt := by
        simp [Option.filter, hb]
      rw [done.waiting_eq plain, record, made, copiesIn_append, copiesIn_copies hj hv, reissued_none,
        flying, one, zero]
      omega
  · have other : ∀ r' ∈ v.requests a, r'.pkt.id ≠ p.id := by
      intro r' hr' hid'
      obtain ⟨-, -, rest', hrs⟩ := listed.entry unique hp hb hr' hid'
      have same : r = r' := (List.cons.inj (hr.symm.trans hrs)).1
      exact hid (same ▸ hid')
    refine done.kept_other tracked ?_ plain ?_ other
    · intro r' hr'
      obtain hr' | hr' := List.mem_append.mp hr'
      · exact (List.takeWhile_sublist _).subset hr'
      · exact (List.dropWhile_sublist _).subset hr'
    · intro m hm hd
      obtain hm | hm := List.mem_append.mp hm
      · rw [record] at hm
        cases hbr : r.pkt.isBroadcast with
        | false => simp [Option.filter, hbr, copies] at hm
        | true =>
          have made : (some r.pkt).filter (·.isBroadcast) = some r.pkt := by
            simp [Option.filter, hbr]
          rw [made] at hm
          rw [id_of_mem_copies hm]
          exact hid
      · rw [isBCDuplicate_of_mem_reissued hm] at hd
        cases hd

include listed unique hp hb tracked in
/-- Without a read at the head there is no broadcast to be completed. -/
theorem Stored.kept (h : Stored a gone v v') (plain : ∀ m ∈ gone, m.isBCDuplicate = false) :
    Kept cfg v v' p := by
  obtain ⟨⟨r, rest, hr, hread⟩, done⟩ := h
  refine done.kept_other tracked (fun r' hr' => by simpa using hr') plain (fun m hm => absurd hm List.not_mem_nil) ?_
  intro r' hr' hid'
  obtain ⟨same, -, rest', hrs⟩ := listed.entry unique hp hb hr' hid'
  have read := (listed.broadcast a r' hr' (same ▸ hb)).2.1
  rw [← (List.cons.inj (hr.symm.trans hrs)).1, hread] at read
  cases read

end

/-- Every move keeps the count. -/
theorem Move.kept (inv : Orderly cfg taken pending v)
    (unique : ∀ q q', taken q → taken q' → q.id = q'.id → q = q') (hp : taken p)
    (hb : p.isBroadcast = true) (tracked : v.Tracked p) (h : Move cfg pending pending' v v') :
    Kept cfg v v' p := by
  have single {m : RubyRequest} (hd : m.isBCDuplicate = false) :
      ∀ m' ∈ [m], m'.isBCDuplicate = false := by simpa using hd
  cases h with
  | shuffled he hq _ =>
    subst he
    refine ⟨tracked, fun j _ _ => ?_⟩
    have count := hq.countP_eq fun m =>
      m.isBCDuplicate && decide (m.pkt.id = p.id) && decide (m.netDest = [⟨.L1Cache, j⟩])
    show List.countP _ _ + _ + _ = _
    rw [count]
    rfl
  | @taken m q hd he hq _ =>
    subst he
    refine ⟨tracked, fun j _ _ => ?_⟩
    have count := hq.countP_eq fun m =>
      m.isBCDuplicate && decide (m.pkt.id = p.id) && decide (m.netDest = [⟨.L1Cache, j⟩])
    rw [List.countP_cons_of_neg (by simp [hd])] at count
    show List.countP _ _ + _ + _ = _
    rw [count]
    rfl
  | @answered m q hd he hq _ =>
    subst he
    refine ⟨tracked, fun j _ _ => ?_⟩
    have count := hq.countP_eq fun m =>
      m.isBCDuplicate && decide (m.pkt.id = p.id) && decide (m.netDest = [⟨.L1Cache, j⟩])
    rw [List.countP_cons] at count
    simp only [hd, Bool.true_and, Bool.and_eq_true, decide_eq_true_eq] at count
    have sent : View.flying { v with queue := q, sent := v.sent ++ [v.answer m] } p.id j =
        v.flying p.id j + if m.pkt.id = p.id ∧ m.netDest = [⟨.L1Cache, j⟩] then 1 else 0 := by
      simp [View.flying, View.answer, List.countP_append, List.countP_singleton]
    have same : View.hits { v with queue := q, sent := v.sent ++ [v.answer m] } p.id = v.hits p.id := rfl
    show List.countP _ q.messages + _ + _ = List.countP _ v.queue.messages + _ + _
    omega
  | loadHit hd _ loaded _ => exact loaded.kept inv.toListed unique hp hb tracked (single hd)
  | @ifetchHit m hd hm ht fetched _ =>
    obtain ⟨-, -, r, rest, hr, hs⟩ := inv.asked hm hd
    refine fetched.2.kept_other tracked ?_ (single hd) ?_ ?_
    · intro r' hr'
      obtain hr' | hr' := List.mem_append.mp hr'
      · exact (List.takeWhile_sublist _).subset hr'
      · exact (List.dropWhile_sublist _).subset hr'
    · intro m' hm' hd'
      rw [isBCDuplicate_of_mem_reissued hm'] at hd'
      cases hd'
    · intro r' hr' hid'
      obtain ⟨same, -, rest', hrs⟩ := inv.toListed.entry unique hp hb hr' hid'
      have load := (inv.broadcast _ r' hr' (same ▸ hb)).2.2
      rw [← (List.cons.inj (hr.symm.trans hrs)).1, ← hs, ht] at load
      cases load
  | storeHit hd _ stored _ => exact stored.kept inv.toListed unique hp hb tracked (single hd)
  | fill _ loaded _ =>
    exact loaded.kept inv.toListed unique hp hb tracked fun m hm => absurd hm List.not_mem_nil
  | storeFill _ stored _ =>
    exact stored.kept inv.toListed unique hp hb tracked fun m hm => absurd hm List.not_mem_nil

end Ruby

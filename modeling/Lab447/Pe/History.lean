import Lab447.Pe.Network

/-!
What has happened before what. `Ordered` says of a log that no PE went past a
barrier before its packets had arrived and that no packet of a broadcast was
sent before all PEs were there; it holds of the log of every run.
-/

namespace Pe

variable {n : Nat}

/-! ## The order of a log -/

/-- PE `q` has started its `k`-th barrier. -/
def Reached (cfg : Config n) (log : List (Event n)) (q : Fin n) (k : Nat) : Prop :=
  ∃ i reqs, BarrierAt (cfg.traffic q) i k ∧ Event.operate q i reqs ∈ log

/-- `r` is a packet of the `k`-th broadcast. -/
def BroadcastPacket (cfg : Config n) (issuers : List (Fin n)) (log : List (Event n)) (k : Nat)
    (r : Request n) : Prop :=
  ∃ q i reqs, issuers[k]? = some q ∧ BarrierAt (cfg.traffic q) i k ∧
    Event.operate q i reqs ∈ log ∧ r ∈ reqs

/-- The `k`-th broadcast has been issued and PE `p` has received the response of
every packet of it. -/
def Delivered (cfg : Config n) (issuers : List (Fin n)) (log : List (Event n)) (p : Fin n)
    (k : Nat) : Prop :=
  (∃ q, issuers[k]? = some q ∧ Reached cfg log q k) ∧
    ∀ r, BroadcastPacket cfg issuers log k r → Event.receive p r ∈ log

/-- What must have happened before an event: the barriers of the list up to the
entry have been delivered, and all PEs are at the barrier of a sent packet. -/
def Permitted (cfg : Config n) (issuers : List (Fin n)) (older : List (Event n)) :
    Event n → Prop
  | .operate p i _ => ∀ j k, j < i → BarrierAt (cfg.traffic p) j k →
      Delivered cfg issuers older p k
  | .send _ r => ∀ k, BroadcastPacket cfg issuers older k r → ∀ q, Reached cfg older q k
  | .receive _ _ => True

/-- Every event of the log, newest first, was permitted by those before it. -/
def Ordered (cfg : Config n) (issuers : List (Fin n)) : List (Event n) → Prop
  | [] => True
  | e :: older => Permitted cfg issuers older e ∧ Ordered cfg issuers older

/-! ## Barriers and the log -/

variable {k : Nat} {l : List Traffic}

theorem exists_barrierAt {i : Nat} (h : k < passed l i) : ∃ j, j < i ∧ BarrierAt l j k := by
  induction i with
  | zero => simp [passed] at h
  | succ i ih =>
    cases ht : l[i]? with
    | none =>
      have hlen := List.getElem?_eq_none_iff.mp ht
      have same : passed l (i + 1) = passed l i := by
        rw [passed, passed, List.take_of_length_le hlen, List.take_of_length_le (by omega)]
      obtain ⟨j, hj, hb⟩ := ih (same ▸ h)
      exact ⟨j, by omega, hb⟩
    | some t =>
      rw [passed_succ ht] at h
      by_cases hk : k < passed l i
      · obtain ⟨j, hj, hb⟩ := ih hk
        exact ⟨j, by omega, hb⟩
      · -- the entry itself is the barrier
        cases hb : t.isBarrier with
        | false =>
          simp only [hb, Bool.false_eq_true, if_false] at h
          omega
        | true =>
          simp only [hb, if_true] at h
          exact ⟨i, by omega, by omega, t, ht, hb⟩

theorem BarrierAt.lt_passed {i j : Nat} (h : BarrierAt l j k) (hj : j < i) : k < passed l i := by
  obtain ⟨rfl, t, ht, hb⟩ := h
  have hs := passed_succ ht
  rw [if_pos hb] at hs
  have hm : passed l (j + 1) ≤ passed l i := passed_mono hj
  omega

variable {cfg : Config n} {issuers : List (Fin n)} {G : Nat} {s t : System n}

/-- `r` still waits at the issuer of the current barrier, the `k`-th one. -/
def Unsent (cfg : Config n) (s : System n) (k : Nat) (r : Request n) : Prop :=
  PacketPtr.packet r ∈ (s.pe r.owner).waitingSendRead ∧ r.owner ∈ s.rdySyncList ∧
    passed (cfg.traffic r.owner) (s.pe r.owner).curTraffic = k + 1

/-- `p` has received the response of `r` or waits for it. -/
def Arrived (s : System n) (p : Fin n) (r : Request n) : Prop :=
  Event.receive p r ∈ s.log ∨ ∃ tick, (r, tick) ∈ (s.pe p).waitingRespRead

/-- What the log tells about the state: the entries started, and where the
packets of every broadcast are. -/
structure History (cfg : Config n) (issuers : List (Fin n)) (s : System n) : Prop where
  started : ∀ p i, (∃ reqs, Event.operate p i reqs ∈ s.log) ↔ i < (s.pe p).curTraffic
  owner : ∀ p i reqs, Event.operate p i reqs ∈ s.log → ∀ r ∈ reqs, r.owner = p
  delivery : ∀ k r, BroadcastPacket cfg issuers s.log k r →
    Unsent cfg s k r ∨ ∀ p, Arrived s p r
  ordered : Ordered cfg issuers s.log

theorem History.reached (h : History cfg issuers s) {q : Fin n}
    (hk : k < passed (cfg.traffic q) (s.pe q).curTraffic) : Reached cfg s.log q k := by
  obtain ⟨j, hj, hb⟩ := exists_barrierAt hk
  obtain ⟨reqs, hm⟩ := (h.started q j).mpr hj
  exact ⟨j, reqs, hb, hm⟩

variable {r : Request n}

/-- A packet of the `k`-th broadcast belongs to its issuer, which has passed
that barrier. -/
theorem History.packet (h : History cfg issuers s) (hp : BroadcastPacket cfg issuers s.log k r) :
    issuers[k]? = some r.owner ∧
      k < passed (cfg.traffic r.owner) (s.pe r.owner).curTraffic := by
  obtain ⟨q, i, reqs, hq, hb, hm, hr⟩ := hp
  obtain rfl := h.owner q i reqs hm r hr
  exact ⟨hq, hb.lt_passed ((h.started _ i).mp ⟨reqs, hm⟩)⟩

variable {p : Fin n}

/-- Barriers that are over have been delivered to the PEs that wait for nothing. -/
theorem History.delivered (h : History cfg issuers s) (hc : Control cfg issuers G s)
    (hm : Matched cfg issuers) (hk : k < G) (resps : (s.pe p).waitingRespRead = []) :
    Delivered cfg issuers s.log p k := by
  have ended : ∀ q, k < passed (cfg.traffic q) (s.pe q).curTraffic := fun q => by
    rw [hc.count]
    omega
  have hlen : k < issuers.length := by
    have := passed_mono (l := cfg.traffic p) (hc.bound p)
    rw [hm.total p] at this
    have := ended p
    omega
  refine ⟨⟨issuers[k], List.getElem?_eq_getElem hlen, h.reached (ended _)⟩, ?_⟩
  intro r hr
  rcases h.delivery k r hr with ⟨-, ready, last⟩ | hd
  · -- only packets of the current barrier are unsent
    rw [hc.count, if_pos ready] at last
    omega
  · rcases hd p with hd | ⟨tick, hd⟩
    · exact hd
    · simp [resps] at hd

theorem BroadcastPacket.older {log : List (Event n)} {e : Event n}
    (h : BroadcastPacket cfg issuers (e :: log) k r) (he : ∀ p i reqs, e ≠ .operate p i reqs) :
    BroadcastPacket cfg issuers log k r := by
  obtain ⟨q, i, reqs, hq, hb, hm, hr⟩ := h
  rcases List.mem_cons.mp hm with rfl | hm
  · exact absurd rfl (he q i reqs)
  · exact ⟨q, i, reqs, hq, hb, hm, hr⟩

/-- Nothing is logged, and no packet moves. -/
theorem History.frame (h : History cfg issuers s) (log : t.log = s.log)
    (cur : ∀ q, (t.pe q).curTraffic = (s.pe q).curTraffic)
    (sends : ∀ q, (t.pe q).waitingSendRead = (s.pe q).waitingSendRead)
    (resps : ∀ q, (t.pe q).waitingRespRead = (s.pe q).waitingRespRead)
    (ready : t.rdySyncList = s.rdySyncList) : History cfg issuers t := by
  refine ⟨?_, log ▸ h.owner, ?_, log ▸ h.ordered⟩
  · intro p i
    rw [log, cur]
    exact h.started p i
  · intro k r hr
    unfold Unsent Arrived
    simp only [log, cur, sends, resps, ready]
    exact h.delivery k r (log ▸ hr)

/-- A send or a response is logged. -/
theorem History.log (h : History cfg issuers s) {e : Event n} (log : t.log = e :: s.log)
    (he : ∀ p i reqs, e ≠ .operate p i reqs)
    (cur : ∀ q, (t.pe q).curTraffic = (s.pe q).curTraffic)
    (permitted : Permitted cfg issuers s.log e)
    (delivery : ∀ k r, BroadcastPacket cfg issuers s.log k r →
      Unsent cfg t k r ∨ ∀ p, Arrived t p r) : History cfg issuers t := by
  have same : ∀ p i reqs, Event.operate p i reqs ∈ t.log ↔ Event.operate p i reqs ∈ s.log :=
    fun p i reqs => by
      rw [log, List.mem_cons, or_iff_right (he p i reqs).symm]
  refine ⟨?_, ?_, ?_, ?_⟩
  · intro p i
    simp only [same, cur]
    exact h.started p i
  · intro p i reqs hm
    exact h.owner p i reqs ((same p i reqs).mp hm)
  · intro k r hr
    rw [log] at hr
    exact delivery k r (hr.older he)
  · rw [log]
    exact ⟨permitted, h.ordered⟩

/-- An idle PE starts its next entry. -/
theorem History.operate (h : History cfg issuers s) (hc : Control cfg issuers G s)
    (hm : Matched cfg issuers) {reqs : List (Request n)} (idle : Idle s p)
    (log : t.log = .operate p (s.pe p).curTraffic reqs :: s.log)
    (next : (t.pe p).curTraffic = (s.pe p).curTraffic + 1)
    (cur : ∀ q, q ≠ p → (t.pe q).curTraffic = (s.pe q).curTraffic)
    (sends : ∀ q, q ≠ p → (t.pe q).waitingSendRead = (s.pe q).waitingSendRead)
    (resps : ∀ q, (t.pe q).waitingRespRead = (s.pe q).waitingRespRead)
    (ready : s.rdySyncList ⊆ t.rdySyncList) (owner : ∀ r ∈ reqs, r.owner = p)
    (queued : ∀ k, issuers[k]? = some p → BarrierAt (cfg.traffic p) (s.pe p).curTraffic k →
      ∀ r ∈ reqs, PacketPtr.packet r ∈ (t.pe p).waitingSendRead ∧ p ∈ t.rdySyncList) :
    History cfg issuers t := by
  refine ⟨?_, ?_, ?_, ?_⟩
  · intro q i
    have old := h.started q i
    by_cases hq : q = p
    · subst hq
      simp only [log, List.mem_cons, Event.operate.injEq, true_and, next]
      constructor
      · rintro ⟨us, ⟨rfl, -⟩ | hu⟩
        · omega
        · have := old.mp ⟨us, hu⟩
          omega
      · intro hi
        by_cases he : i = (s.pe q).curTraffic
        · exact ⟨reqs, .inl ⟨he, rfl⟩⟩
        · obtain ⟨us, hu⟩ := old.mpr (by omega)
          exact ⟨us, .inr hu⟩
    · simpa [log, hq, cur q hq] using old
  · intro q i us hu
    rw [log] at hu
    rcases List.mem_cons.mp hu with he | hu
    · cases he
      exact owner
    · exact h.owner q i us hu
  · intro k r hr
    obtain ⟨q, i, us, hq, hb, hu, hru⟩ := hr
    rw [log] at hu
    rcases List.mem_cons.mp hu with he | hu
    · cases he
      left
      obtain ⟨hin, hready⟩ := queued k hq hb r hru
      obtain ⟨hk, v, hv, hvb⟩ := hb
      rw [Unsent, owner r hru]
      refine ⟨hin, hready, ?_⟩
      rw [next, passed_succ hv, hk, if_pos hvb]
    · rcases h.delivery k r ⟨q, i, us, hq, hb, hu, hru⟩ with ⟨hin, hready, hlast⟩ | hd
      · -- the packets of `p` itself have all been sent
        have hne : r.owner ≠ p := fun he => by
          rw [he, idle.reads] at hin
          simp at hin
        left
        refine ⟨?_, ready hready, ?_⟩
        · rw [sends _ hne]
          exact hin
        · rw [cur _ hne]
          exact hlast
      · right
        intro v
        unfold Arrived
        rw [resps, log]
        exact (hd v).imp (List.mem_cons_of_mem _) id
  · rw [log]
    refine ⟨?_, h.ordered⟩
    intro j k hj hb
    have hk := hb.lt_passed hj
    rw [hc.count, if_neg idle.out] at hk
    exact h.delivered hc hm hk idle.resps

/-! ## Moves keep the history -/

theorem History.finish (h : History cfg issuers s) (p : Fin n) :
    History cfg issuers (finish s p) := by
  rcases finish_cases s p with he | ⟨he, -⟩
  · rwa [he]
  · rw [he]
    exact ⟨h.started, h.owner, h.delivery, h.ordered⟩

/-- A packet may be sent when every PE has passed the barriers its sender has. -/
theorem History.permits_send (h : History cfg issuers s) (owner : r.owner = p)
    (all : ∀ k, k < passed (cfg.traffic p) (s.pe p).curTraffic →
      ∀ q, k < passed (cfg.traffic q) (s.pe q).curTraffic) :
    Permitted cfg issuers s.log (.send p r) := by
  intro k hk q
  have := (h.packet hk).2
  rw [owner] at this
  exact h.reached (all k this q)

theorem Control.out_passed (hc : Control cfg issuers G s) (out : p ∉ s.rdySyncList)
    (hk : k < passed (cfg.traffic p) (s.pe p).curTraffic) (q : Fin n) :
    k < passed (cfg.traffic q) (s.pe q).curTraffic := by
  rw [hc.count, if_neg out] at hk
  rw [hc.count]
  omega

theorem sendAll_history (h : History cfg issuers s) (hc : Control cfg issuers G s)
    {rest : List (PacketPtr n)} (event : Option Nat)
    (front : (s.pe p).waitingSendRead = .packet r :: rest) (owner : r.owner = p)
    (full : s.rdySyncList = Finset.univ) (issuer : s.broadcastIssuer = some p)
    (hpe : t.pe = fun q =>
      let pe := (s.set p { s.pe p with
        scheduleReqEvent := event, retryPktTick := 0, waitingSendRead := rest }).pe q
      { pe with waitingRespRead := setResp pe.waitingRespRead r s.curTick })
    (log : t.log = .send p r :: s.log) (hr : t.rdySyncList = if rest = [] then ∅ else s.rdySyncList) :
    History cfg issuers t := by
  have ready : ∀ q, q ∈ s.rdySyncList := fun q => full ▸ Finset.mem_univ q
  have first := ((hc.issuer p).mp issuer).2
  have cur : ∀ q, (t.pe q).curTraffic = (s.pe q).curTraffic := fun q => by
    rw [hpe]
    refine System.set_keeps PE.curTraffic s ?_ q
    rfl
  have resps : ∀ q, (t.pe q).waitingRespRead =
      setResp (s.pe q).waitingRespRead r s.curTick := fun q => by
    rw [hpe]
    refine congrArg (fun w => setResp w r s.curTick)
      (System.set_keeps PE.waitingRespRead s ?_ q)
    rfl
  have arrives : ∀ u, (u = r ∨ ∀ q, Arrived s q u) → ∀ q, Arrived t q u := by
    intro u hu q
    unfold Arrived
    rw [resps, log]
    by_cases he : u = r
    · exact .inr ⟨s.curTick, mem_setResp.mpr (.inl (by rw [he]))⟩
    · rcases (hu.resolve_left he) q with hd | ⟨tick, hd⟩
      · exact .inl (List.mem_cons_of_mem _ hd)
      · exact .inr ⟨tick, mem_setResp.mpr (.inr ⟨hd, he⟩)⟩
  refine h.log log (by simp) cur ?_ ?_
  · apply h.permits_send owner
    intro k hk q
    rw [hc.count, if_pos (ready p)] at hk
    rw [hc.count, if_pos (ready q)]
    exact hk
  · intro k u hu
    rcases h.delivery k u hu with ⟨hin, hready, hlast⟩ | hd
    · -- the packet waits at `p`, which is the issuer of this barrier
      have hk : k = G := by
        rw [hc.count, if_pos hready] at hlast
        omega
      have hup : u.owner = p :=
        Option.some.inj ((h.packet hu).1.symm.trans (hk ▸ first))
      rw [hup, front] at hin
      rcases List.mem_cons.mp hin with he | hin
      · exact .inr (arrives u (.inl (PacketPtr.packet.inj he)))
      · left
        refine ⟨?_, ?_, ?_⟩
        · rw [hup, hpe]
          simpa using hin
        · rw [hr, if_neg (List.ne_nil_of_mem hin)]
          exact hready
        · rw [cur]
          exact hlast
    · exact .inr (arrives u (.inr hd))

/-- An idle PE starts its next entry and no other PE changes. -/
theorem History.start (h : History cfg issuers s) (hc : Control cfg issuers G s)
    (hm : Matched cfg issuers) {pe : PE n} {reqs : List (Request n)} (idle : Idle s p)
    (hpe : t.pe = (s.set p pe).pe) (log : t.log = .operate p (s.pe p).curTraffic reqs :: s.log)
    (next : pe.curTraffic = (s.pe p).curTraffic + 1)
    (resps : pe.waitingRespRead = (s.pe p).waitingRespRead) (ready : s.rdySyncList ⊆ t.rdySyncList)
    (owner : ∀ r ∈ reqs, r.owner = p)
    (queued : ∀ k, issuers[k]? = some p → BarrierAt (cfg.traffic p) (s.pe p).curTraffic k →
      ∀ r ∈ reqs, PacketPtr.packet r ∈ pe.waitingSendRead ∧ p ∈ t.rdySyncList) :
    History cfg issuers t := by
  have self : t.pe p = pe := by rw [hpe, System.set_pe_self]
  have others : ∀ q, q ≠ p → t.pe q = s.pe q := fun q hq => by
    rw [hpe, System.set_pe_of_ne s _ hq]
  refine h.operate hc hm idle log (self ▸ next) ?_ ?_ ?_ ready owner (self ▸ queued)
  · intro q hq
    rw [others q hq]
  · intro q hq
    rw [others q hq]
  · intro q
    rw [hpe]
    exact System.set_keeps PE.waitingRespRead s resps q

theorem not_barrierAt {i : Nat} {u : Traffic} (entry : l[i]? = some u)
    (single : u.isBarrier = false) (k : Nat) : ¬ BarrierAt l i k := by
  rintro ⟨-, v, hv, hb⟩
  rw [entry] at hv
  cases hv
  simp [single] at hb

/-- A packet that is not part of the current broadcast is sent. -/
theorem History.send (h : History cfg issuers s) (hc : Control cfg issuers G s) {pe : PE n}
    (owner : r.owner = p) (out : p ∉ s.rdySyncList) (hpe : t.pe = (s.set p pe).pe)
    (log : t.log = .send p r :: s.log) (ready : t.rdySyncList = s.rdySyncList)
    (cur : pe.curTraffic = (s.pe p).curTraffic)
    (resps : ∀ u, (∃ tick, (u, tick) ∈ (s.pe p).waitingRespRead) →
      ∃ tick, (u, tick) ∈ pe.waitingRespRead) : History cfg issuers t := by
  have others : ∀ q, q ≠ p → t.pe q = s.pe q := fun q hq => by
    rw [hpe, System.set_pe_of_ne s _ hq]
  have hcur : ∀ q, (t.pe q).curTraffic = (s.pe q).curTraffic := fun q => by
    rw [hpe]
    exact System.set_keeps PE.curTraffic s cur q
  refine h.log log (by simp) hcur (h.permits_send owner fun k hk q => hc.out_passed out hk q) ?_
  intro k u hu
  rcases h.delivery k u hu with ⟨hin, hready, hlast⟩ | hd
  · have hne : u.owner ≠ p := fun he => out (he ▸ hready)
    left
    refine ⟨?_, ready ▸ hready, ?_⟩
    · rw [others _ hne]
      exact hin
    · rw [hcur]
      exact hlast
  · right
    intro q
    rcases hd q with hd | hd
    · exact .inl (log ▸ List.mem_cons_of_mem _ hd)
    · right
      by_cases hq : q = p
      · subst hq
        rw [hpe, System.set_pe_self]
        exact resps u hd
      · rw [others q hq]
        exact hd

/-- A response arrives at `p`, which no longer waits for it. -/
theorem History.receive (h : History cfg issuers s) {pe : PE n} (hpe : t.pe = (s.set p pe).pe)
    (log : t.log = .receive p r :: s.log) (ready : t.rdySyncList = s.rdySyncList)
    (cur : pe.curTraffic = (s.pe p).curTraffic)
    (sends : pe.waitingSendRead = (s.pe p).waitingSendRead)
    (resps : ∀ u, u ≠ r → (∃ tick, (u, tick) ∈ (s.pe p).waitingRespRead) →
      ∃ tick, (u, tick) ∈ pe.waitingRespRead) : History cfg issuers t := by
  have hcur : ∀ q, (t.pe q).curTraffic = (s.pe q).curTraffic := fun q => by
    rw [hpe]
    exact System.set_keeps PE.curTraffic s cur q
  have hsends : ∀ q, (t.pe q).waitingSendRead = (s.pe q).waitingSendRead := fun q => by
    rw [hpe]
    exact System.set_keeps PE.waitingSendRead s sends q
  refine h.log log (by simp) hcur trivial ?_
  intro k u hu
  rcases h.delivery k u hu with hin | hd
  · left
    unfold Unsent
    rw [hsends, hcur, ready]
    exact hin
  · right
    intro q
    rcases hd q with hd | hd
    · exact .inl (log ▸ List.mem_cons_of_mem _ hd)
    · by_cases hq : q = p
      · subst hq
        by_cases hu : u = r
        · exact .inl (by rw [log, hu]; exact List.mem_cons_self ..)
        · right
          rw [hpe, System.set_pe_self]
          exact resps u hu hd
      · right
        rw [hpe, System.set_pe_of_ne s _ hq]
        exact hd

theorem setResp_keeps {waiting : List (Request n × Nat)} (r : Request n) (now : Nat)
    {u : Request n} (h : ∃ tick, (u, tick) ∈ waiting) :
    ∃ tick, (u, tick) ∈ setResp waiting r now := by
  obtain ⟨tick, ht⟩ := h
  by_cases hu : u = r
  · exact ⟨now, mem_setResp.mpr (.inl (by rw [hu]))⟩
  · exact ⟨tick, mem_setResp.mpr (.inr ⟨ht, hu⟩)⟩

theorem move_history (hh : History cfg issuers s) (hc : Control cfg issuers G s)
    (hm : Matched cfg issuers) {a : Action n} (h : Move cfg s a t) : History cfg issuers t := by
  cases h with
  | wait ticks => exact ⟨hh.started, hh.owner, hh.delivery, hh.ordered⟩
  | rest | refuse | retry =>
    exact hh.frame rfl (System.set_keeps PE.curTraffic s rfl)
      (System.set_keeps PE.waitingSendRead s rfl) (System.set_keeps PE.waitingRespRead s rfl) rfl
  | leave =>
    exact hh.frame rfl (System.set_keeps PE.curTraffic s rfl)
      (System.set_keeps PE.waitingSendRead s rfl) (System.set_keeps PE.waitingRespRead s rfl) rfl
  | compute when idle entry kind =>
    exact hh.start hc hm idle rfl rfl rfl rfl (Finset.Subset.refl _) (by simp) (by simp)
  | load when idle entry kind single =>
    have alone := not_barrierAt entry
      (by simp [Traffic.isBarrier, Traffic.isBroadcast, kind, single])
    exact hh.start hc hm idle rfl rfl rfl rfl (Finset.Subset.refl _)
      (fun _ hr => mem_makeRequests hr) (fun k _ hb => absurd hb (alone k))
  | store when idle entry kind single =>
    have alone := not_barrierAt entry
      (by simp [Traffic.isBarrier, Traffic.isBroadcast, kind])
    exact hh.start hc hm idle rfl rfl rfl rfl (Finset.Subset.refl _)
      (fun _ hr => mem_makeRequests hr) (fun k _ hb => absurd hb (alone k))
  | sync idle entry kind missing =>
    exact hh.start hc hm idle rfl rfl rfl rfl (Finset.subset_insert ..) (by simp) (by simp)
  | @syncLast p q u when idle entry kind full other issuer =>
    -- the issuer only gets its send scheduled
    have issuerKeeps : ∀ {α : Type} (f : PE n → α),
        f { s.pe q with scheduleReqEvent := some when } = f (s.pe q) →
        ∀ v, v ≠ p → f (((s.set q { s.pe q with scheduleReqEvent := some when }).set p
          (s.pe p).started).pe v) = f (s.pe v) := fun f hf v hv => by
      rw [System.set_pe_of_ne _ _ hv]
      exact System.set_keeps f s hf v
    refine hh.operate hc hm idle rfl (by simp [System.record, PE.started])
      (issuerKeeps PE.curTraffic rfl) (issuerKeeps PE.waitingSendRead rfl) ?_
      (Finset.subset_insert ..) (by simp) (by simp)
    intro v
    by_cases hv : v = p
    · subst hv
      simp [System.record, PE.started]
    · exact issuerKeeps PE.waitingRespRead rfl v hv
  | lead idle entry kind all event full =>
    exact hh.start hc hm idle rfl rfl rfl rfl (Finset.subset_insert ..)
      (fun _ hr => mem_makeRequests hr)
      (fun k _ _ r hr => ⟨List.mem_map.mpr ⟨r, hr, rfl⟩, Finset.mem_insert_self ..⟩)
  | sendRead event unscheduled front other reads calm more out =>
    obtain ⟨⟨owner, -⟩, -⟩ := (front ▸ reads).pop
    exact hh.send hc owner out rfl rfl rfl rfl (fun _ hu => setResp_keeps _ _ hu)
  | sendWrite operate event front other writes calm more last resps out =>
    obtain ⟨⟨owner, -⟩, -⟩ := (front ▸ writes).pop
    exact hh.send hc owner out rfl rfl rfl rfl (fun _ hu => hu)
  | sendAll event front other reads calm more full issuer =>
    obtain ⟨⟨owner, -⟩, -⟩ := (front ▸ reads).pop
    exact sendAll_history hh hc event front owner full issuer rfl rfl rfl
  | recvWrite flight kind =>
    apply History.finish
    exact hh.receive rfl rfl rfl rfl rfl (fun _ _ hu => hu)
  | recvRead event flight kind wake =>
    apply History.finish
    refine hh.receive rfl rfl rfl rfl rfl ?_
    rintro u hu ⟨tick, ht⟩
    exact ⟨tick, List.mem_filter.mpr ⟨ht, by simpa using hu⟩⟩

/-! ## Runs -/

/-- What holds in every state of every run. -/
structure Inv (cfg : Config n) (issuers : List (Fin n)) (s : System n) : Prop where
  control : ∃ G, Control cfg issuers G s
  net : Net s
  history : History cfg issuers s

theorem start_inv (cfg : Config n) (issuers : List (Fin n)) : Inv cfg issuers (sim cfg).start := by
  refine ⟨⟨0, ?_⟩, ?_, ?_⟩
  · refine ⟨fun _ => rfl, fun _ => Nat.zero_le _, fun _ => rfl, by simp [sim], by simp [sim], ?_⟩
    intro p
    exact .idle rfl ⟨rfl, rfl⟩ rfl rfl rfl (by simp [sim])
  · exact ⟨List.nodup_nil, by simp [sim, newPE], by simp [sim, newPE], by simp [sim], by simp [sim]⟩
  · exact ⟨by simp [sim, newPE], by simp [sim], by simp [sim, BroadcastPacket], trivial⟩

theorem move_inv (h : Inv cfg issuers s) (hm : Matched cfg issuers) (hs : Sendable cfg)
    {a : Action n} (move : Move cfg s a t) : Inv cfg issuers t := by
  obtain ⟨⟨G, hc⟩, hn, hh⟩ := h
  exact ⟨move_control hc hn hm hs move, move_net hn move, move_history hh hc hm move⟩

/-- Every step from a state of a run is a move to another. -/
theorem Inv.step (h : Inv cfg issuers s) (hm : Matched cfg issuers) (hs : Sendable cfg)
    {a : Action n} {r : Except Fault (System n)} (hr : step cfg s a = some r) :
    ∃ t, r = .ok t ∧ Move cfg s a t := by
  obtain ⟨⟨G, hc⟩, hn, -⟩ := h
  exact step_move hc hn hm hs hr

theorem reaches_inv (hm : Matched cfg issuers) (hs : Sendable cfg)
    {allowed : System n → Action n → Prop} (h : (sim cfg).Reaches allowed s) :
    Inv cfg issuers s := by
  refine h.invariant (start_inv cfg issuers) ?_
  intro s a t hi _ hstep
  obtain ⟨u, hu, move⟩ := hi.step hm hs hstep
  cases hu
  exact move_inv hi hm hs move

end Pe

import Lab447.Pe.Control

/-!
The network's books: the responses that are to come are exactly those the PEs
wait for, and every move keeps it so.
-/

namespace Pe

variable {n : Nat} {cfg : Config n} {issuers : List (Fin n)} {G : Nat} {s t : System n}

variable {r : Request n}

theorem mem_setResp {waiting : List (Request n × Nat)} {tick : Nat} {e : Request n × Nat} :
    e ∈ setResp waiting r tick ↔ e = (r, tick) ∨ e ∈ waiting ∧ e.1 ≠ r := by
  simp [setResp]

/-- The responses a PE waits for. -/
def PE.waitingResp (pe : PE n) (isRead : Bool) : List (Request n × Nat) :=
  if isRead then pe.waitingRespRead else pe.waitingRespWrite

theorem Net.resp (h : Net s) {q : Fin n} {isRead : Bool} {e : Request n × Nat}
    (he : e ∈ (s.pe q).waitingResp isRead) :
    (q, e.1) ∈ s.inFlight ∧ e.1.isRead = isRead ∧ e.2 ≤ s.curTick := by
  cases isRead with
  | true => exact h.reads q e he
  | false => exact h.writes q e he

theorem Net.of_resp (nodup : s.inFlight.Nodup)
    (resp : ∀ q isRead, ∀ e ∈ (s.pe q).waitingResp isRead,
      (q, e.1) ∈ s.inFlight ∧ e.1.isRead = isRead ∧ e.2 ≤ s.curTick)
    (owed : ∀ q r, (q, r) ∈ s.inFlight → ∃ tick, (r, tick) ∈ (s.pe q).waitingResp r.isRead)
    (fresh : ∀ q r, (q, r) ∈ s.inFlight →
      r.serial + (s.pe r.owner).queued < (s.pe r.owner).created) : Net s :=
  ⟨nodup, fun q => resp q true, fun q => resp q false, owed, fresh⟩

/-- Nothing is sent or received, and the packets made are queued. -/
theorem Net.frame (h : Net s) (flight : t.inFlight = s.inFlight) (tick : s.curTick ≤ t.curTick)
    (resp : ∀ q, (t.pe q).waitingResp = (s.pe q).waitingResp)
    (queued : ∀ q, (t.pe q).queued + (s.pe q).created ≤ (s.pe q).queued + (t.pe q).created) :
    Net t := by
  apply Net.of_resp (flight ▸ h.nodup)
  · intro q isRead e he
    obtain ⟨hf, hr, ht⟩ := h.resp (resp q ▸ he)
    exact ⟨flight ▸ hf, hr, ht.trans tick⟩
  · intro q r hf
    rw [resp]
    exact h.owed q r (flight ▸ hf)
  · intro q r hf
    have := h.fresh q r (flight ▸ hf)
    have := queued r.owner
    omega

variable {p : Fin n}

/-- The oldest queued request of `p` is sent and will be answered to `targets`. -/
theorem Net.send (h : Net s) {targets : List (Fin n)} (nodup : targets.Nodup) (owner : r.owner = p)
    (pos : 0 < (s.pe p).queued) (serial : r.serial + (s.pe p).queued = (s.pe p).created)
    (flight : t.inFlight = targets.map (fun q => (q, r)) ++ s.inFlight)
    (tick : t.curTick = s.curTick) (resp : ∀ q isRead, (t.pe q).waitingResp isRead =
      if q ∈ targets ∧ r.isRead = isRead then setResp ((s.pe q).waitingResp isRead) r s.curTick
      else (s.pe q).waitingResp isRead) (created : ∀ q, (t.pe q).created = (s.pe q).created)
    (queued : ∀ q, (t.pe q).queued = if q = p then (s.pe q).queued - 1 else (s.pe q).queued) :
    Net t := by
  -- requests in flight were made before all queued ones
  have new : ∀ q, (q, r) ∉ s.inFlight := fun q hq => by
    have := h.fresh q r hq
    rw [owner] at this
    omega
  have old : ∀ q u, (q, u) ∈ s.inFlight → (q, u) ∈ t.inFlight := fun q u hu => by
    rw [flight]
    exact List.mem_append_right _ hu
  have sent : ∀ q ∈ targets, (q, r) ∈ t.inFlight := fun q hq => by
    rw [flight]
    exact List.mem_append_left _ (List.mem_map.mpr ⟨q, hq, rfl⟩)
  apply Net.of_resp
  · rw [flight, List.nodup_append]
    refine ⟨nodup.map fun a b hab => (Prod.mk.inj hab).1, h.nodup, ?_⟩
    rintro a ha b hb rfl
    obtain ⟨q, -, rfl⟩ := List.mem_map.mp ha
    exact new q hb
  · intro q isRead e he
    rw [resp] at he
    rw [tick]
    split at he
    · rename_i hq
      rcases mem_setResp.mp he with rfl | ⟨he, -⟩
      · exact ⟨sent q hq.1, hq.2, Nat.le_refl _⟩
      · obtain ⟨hf, hr, ht⟩ := h.resp he
        exact ⟨old q _ hf, hr, ht⟩
    · obtain ⟨hf, hr, ht⟩ := h.resp he
      exact ⟨old q _ hf, hr, ht⟩
  · intro q u hu
    rw [flight] at hu
    rcases List.mem_append.mp hu with hu | hu
    · obtain ⟨v, hv, he⟩ := List.mem_map.mp hu
      obtain ⟨rfl, rfl⟩ := Prod.mk.inj he
      refine ⟨s.curTick, ?_⟩
      rw [resp, if_pos ⟨hv, rfl⟩]
      exact mem_setResp.mpr (.inl rfl)
    · obtain ⟨k, hk⟩ := h.owed q u hu
      have hne : u ≠ r := fun he => new q (he ▸ hu)
      refine ⟨k, ?_⟩
      rw [resp]
      split
      · exact mem_setResp.mpr (.inr ⟨hk, hne⟩)
      · exact hk
  · intro q u hu
    rw [created, queued]
    rw [flight] at hu
    rcases List.mem_append.mp hu with hu | hu
    · obtain ⟨v, hv, he⟩ := List.mem_map.mp hu
      obtain ⟨rfl, rfl⟩ := Prod.mk.inj he
      rw [if_pos owner, owner]
      omega
    · have := h.fresh q u hu
      split <;> omega

variable {pe : PE n}

/-- What a PE keeps is kept by all. -/
theorem System.set_keeps {α : Type} (f : PE n → α) (s : System n) (h : f pe = f (s.pe p))
    (q : Fin n) : f ((s.set p pe).pe q) = f (s.pe q) := by
  by_cases hq : q = p
  · subst hq
    rw [set_pe_self, h]
  · rw [set_pe_of_ne s _ hq]

theorem System.set_eq_ite {α : Type} (f : PE n → α) (s : System n) (p : Fin n) (pe : PE n)
    (q : Fin n) : f ((s.set p pe).pe q) = if q = p then f pe else f (s.pe q) := by
  by_cases hq : q = p
  · subst hq
    simp
  · simp [hq, set_pe_of_ne s _ hq]

/-- Only `p` waits for the answer. -/
theorem Net.sendOne (h : Net s) (hpe : t.pe = (s.set p pe).pe) (owner : r.owner = p)
    (serial : r.serial + (s.pe p).queued = (s.pe p).created)
    (flight : t.inFlight = (p, r) :: s.inFlight) (tick : t.curTick = s.curTick)
    (resp : ∀ isRead, pe.waitingResp isRead =
      if r.isRead = isRead then setResp ((s.pe p).waitingResp isRead) r s.curTick
      else (s.pe p).waitingResp isRead) (created : pe.created = (s.pe p).created)
    (queued : pe.queued + 1 = (s.pe p).queued) : Net t := by
  refine h.send (List.nodup_singleton p) owner (by omega) serial flight tick ?_ ?_ ?_
  · intro q isRead
    rw [hpe, System.set_eq_ite (PE.waitingResp · isRead), resp]
    by_cases hq : q = p
    · subst hq
      simp
    · simp [hq]
  · intro q
    rw [hpe]
    exact System.set_keeps PE.created s created q
  · intro q
    rw [hpe, System.set_eq_ite PE.queued]
    by_cases hq : q = p
    · subst hq
      rw [if_pos rfl, if_pos rfl]
      omega
    · rw [if_neg hq, if_neg hq]

/-- A response arrives at `p`. -/
theorem Net.receive (h : Net s) (hpe : t.pe = (s.set p pe).pe)
    (flight : t.inFlight = s.inFlight.erase (p, r)) (tick : t.curTick = s.curTick)
    (resp : ∀ isRead, pe.waitingResp isRead =
      if r.isRead = isRead then ((s.pe p).waitingResp isRead).filter fun e => e.1 ≠ r
      else (s.pe p).waitingResp isRead) (created : pe.created = (s.pe p).created)
    (queued : pe.queued = (s.pe p).queued) : Net t := by
  have left : ∀ q u, (q, u) ∈ t.inFlight ↔ (q, u) ≠ (p, r) ∧ (q, u) ∈ s.inFlight :=
    fun q u => by rw [flight, h.nodup.mem_erase_iff]
  have waits : ∀ q isRead, (t.pe q).waitingResp isRead =
      if q = p ∧ r.isRead = isRead then ((s.pe q).waitingResp isRead).filter fun e => e.1 ≠ r
      else (s.pe q).waitingResp isRead := fun q isRead => by
    rw [hpe, System.set_eq_ite (PE.waitingResp · isRead), resp]
    by_cases hq : q = p
    · subst hq
      simp
    · simp [hq]
  apply Net.of_resp (flight ▸ h.nodup.erase _)
  · intro q isRead e he
    rw [tick, left]
    rw [waits] at he
    split at he
    · obtain ⟨he, hne⟩ := List.mem_filter.mp he
      obtain ⟨hf, hr, ht⟩ := h.resp he
      exact ⟨⟨fun hpr => by simp [(Prod.mk.inj hpr).2] at hne, hf⟩, hr, ht⟩
    · rename_i hq
      obtain ⟨hf, hr, ht⟩ := h.resp he
      exact ⟨⟨fun hpr => hq ⟨(Prod.mk.inj hpr).1, (Prod.mk.inj hpr).2 ▸ hr⟩, hf⟩, hr, ht⟩
  · intro q u hu
    obtain ⟨hne, hu⟩ := (left q u).mp hu
    obtain ⟨k, hk⟩ := h.owed q u hu
    refine ⟨k, ?_⟩
    rw [waits]
    split
    · rename_i hq
      exact List.mem_filter.mpr ⟨hk, by simpa using fun hr => hne (by rw [hq.1, hr])⟩
    · exact hk
  · intro q u hu
    rw [hpe, System.set_keeps PE.created s created, System.set_keeps PE.queued s queued]
    exact h.fresh q u ((left q u).mp hu).2

theorem Net.finish (h : Net s) (p : Fin n) : Net (finish s p) := by
  rcases finish_cases s p with he | ⟨he, -⟩
  · rwa [he]
  · rw [he]
    exact ⟨h.nodup, h.reads, h.writes, h.owed, h.fresh⟩

/-- One PE changes and neither sends nor receives. -/
theorem Net.local (h : Net s) (hpe : t.pe = (s.set p pe).pe) (flight : t.inFlight = s.inFlight)
    (tick : s.curTick ≤ t.curTick) (resp : pe.waitingResp = (s.pe p).waitingResp)
    (queued : pe.queued + (s.pe p).created ≤ (s.pe p).queued + pe.created) : Net t := by
  refine h.frame flight tick ?_ ?_
  · intro q
    rw [hpe]
    exact System.set_keeps PE.waitingResp s resp q
  · intro q
    rw [hpe]
    by_cases hq : q = p
    · subst hq
      rwa [System.set_pe_self]
    · rw [System.set_pe_of_ne s _ hq]

theorem move_net (hn : Net s) {a : Action n} (h : Move cfg s a t) : Net t := by
  cases h with
  | wait ticks => exact hn.frame rfl (Nat.le_add_right ..) (fun _ => rfl) (fun _ => Nat.le_refl _)
  | rest idle all => exact hn.local rfl rfl (Nat.le_refl _) rfl (Nat.le_refl _)
  | leave idle all => exact hn.local rfl rfl (Nat.le_refl _) rfl (Nat.le_refl _)
  | compute when idle => exact hn.local rfl rfl (Nat.le_refl _) rfl (Nat.le_refl _)
  | load when idle entry kind single =>
    refine hn.local rfl rfl (Nat.le_refl _) rfl ?_
    simp [PE.queued, PE.started, idle.reads, idle.writes]
    omega
  | store when idle entry kind single =>
    refine hn.local rfl rfl (Nat.le_refl _) rfl ?_
    simp [PE.queued, PE.started, idle.reads, idle.writes]
    omega
  | sync idle => exact hn.local rfl rfl (Nat.le_refl _) rfl (Nat.le_refl _)
  | @syncLast p q u when idle entry kind full other issuer =>
    have first : Net (s.set q { s.pe q with scheduleReqEvent := some when }) :=
      hn.local rfl rfl (Nat.le_refl _) rfl (Nat.le_refl _)
    have same : (s.set q { s.pe q with scheduleReqEvent := some when }).pe p = s.pe p :=
      System.set_pe_of_ne s _ other.symm
    refine first.local rfl rfl (Nat.le_refl _) ?_ ?_
    · rw [same, PE.started]
      rfl
    · rw [same]
      exact Nat.le_refl _
  | lead idle entry kind all event full =>
    refine hn.local rfl rfl (Nat.le_refl _) rfl ?_
    simp [PE.queued, PE.started, idle.reads, idle.writes]
    omega
  | refuse => exact hn.local rfl rfl (Nat.le_refl _) rfl (Nat.le_refl _)
  | retry => exact hn.local rfl rfl (Nat.le_refl _) rfl (Nat.le_refl _)
  | @sendRead p r rest event unscheduled front other reads calm more out =>
    obtain ⟨⟨owner, -, kind, -⟩, serial, -⟩ := (front ▸ reads).pop
    have queued : (s.pe p).queued = rest.length + 1 := by simp [PE.queued, front, other]
    refine hn.sendOne rfl owner (by omega) rfl rfl ?_ rfl (by simp [PE.queued, front, other])
    intro isRead
    cases isRead <;> simp [PE.waitingResp, kind]
  | @sendWrite p r rest operate event front other writes calm more last resps out =>
    obtain ⟨⟨owner, -, kind, -⟩, serial, -⟩ := (front ▸ writes).pop
    have queued : (s.pe p).queued = rest.length + 1 := by simp [PE.queued, front, other]
    refine hn.sendOne rfl owner (by omega) rfl rfl ?_ rfl (by simp [PE.queued, front, other])
    intro isRead
    cases isRead <;> simp [PE.waitingResp, kind]
  | @sendAll p r rest event front other reads calm more full issuer =>
    obtain ⟨⟨owner, -, kind, -⟩, serial, -⟩ := (front ▸ reads).pop
    have queued : (s.pe p).queued = rest.length + 1 := by simp [PE.queued, front, other]
    refine hn.send (List.nodup_finRange n) owner (by omega) (by omega) rfl rfl ?_ ?_ ?_
    · intro q isRead
      by_cases hq : q = p
      · subst hq
        cases isRead <;> simp [PE.waitingResp, kind]
      · cases isRead <;> simp [PE.waitingResp, kind, System.set_pe_of_ne s _ hq]
    · intro q
      refine System.set_keeps PE.created s ?_ q
      rfl
    · intro q
      refine (System.set_eq_ite PE.queued s p _ q).trans ?_
      by_cases hq : q = p
      · subst hq
        simp [PE.queued, front, other]
      · simp [hq]
  | @recvWrite p r flight kind =>
    apply Net.finish
    refine hn.receive rfl rfl rfl ?_ rfl rfl
    intro isRead
    cases isRead <;> simp [PE.waitingResp, kind]
  | @recvRead p r event flight kind wake =>
    apply Net.finish
    refine hn.receive rfl rfl rfl ?_ rfl rfl
    intro isRead
    cases isRead <;> simp [PE.waitingResp, kind]

end Pe

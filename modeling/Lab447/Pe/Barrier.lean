import Lab447.Pe.History

/-!
The broadcast barrier of the PEs, over every interleaving of their events, of
refused packets and of responses.
-/

namespace Pe

variable {n : Nat} {cfg : Config n} {issuers : List (Fin n)} {s : System n}

/-- In every run of lists that match and that the PEs can send, no PE goes past
a barrier before the packets of its broadcast have arrived, the issuer sends none
of them before all PEs are at the barrier, and no assertion, panic or second
scheduling of an event can come next. -/
theorem barrier_protocol (hm : Matched cfg issuers) (hs : Sendable cfg)
    (h : (sim cfg).Reaches (fun _ _ => True) s) :
    Ordered cfg issuers s.log ∧ ∀ a f, (sim cfg).step s a ≠ some (.error f) := by
  have hi := reaches_inv hm hs h
  refine ⟨hi.history.ordered, ?_⟩
  intro a f hf
  obtain ⟨t, ht, -⟩ := hi.step hm hs hf
  cases ht

/-- An entry of a PE in row 0, as the generator writes them. -/
def entry (type : RequestType) (pe : Nat) (size : Nat) (response : TrafficType) : Traffic where
  type := type
  src := (0, pe)
  dest := (1, 0)
  addr := 0
  size := size
  request := .unicast
  response := response

/-- PE 0 broadcasts two cache lines and PE 1 writes one before it synchronises. -/
def pairConfig : Config 2 where
  traffic p := if p = 0 then [entry .read 0 128 .broadcast, entry .compute 0 0 .unicast]
    else [entry .write 1 64 .unicast, entry .sync 1 0 .unicast, entry .compute 1 0 .unicast]
  cacheLineSize := 64
  isMemAddr addr := addr < 2 ^ 30

theorem pairConfig_matched : Matched pairConfig [0] := by
  unfold Matched
  decide

theorem pairConfig_sendable : Sendable pairConfig := by
  refine ⟨?_, ?_, ?_, ?_⟩ <;> decide

/-- PE 0 is ready first, the write of PE 1 is refused once, and both lines arrive
at both PEs in different orders. -/
def pairRun : List (Action 2) :=
  let line (i : Nat) : Request 2 := ⟨0, i, 64 * i, true, true⟩
  [.wait 1, .operate 0, .operate 1, .wait 1, .schedule 1 false, .wait 3, .retry 1, .wait 1,
    .schedule 1 true, .wait 1, .operate 1, .wait 1, .schedule 0 true, .wait 1, .respond 1 (line 0),
    .schedule 0 true, .wait 5, .respond 0 (line 1), .respond 0 (line 0), .respond 1 (line 1),
    .wait 1, .operate 1, .operate 0]

theorem barrier_protocol_pair :
    ∃ s, (sim pairConfig).run (sim pairConfig).start pairRun = some s ∧ s.log.length = 12 ∧
      Ordered pairConfig [0] s.log ∧ ∀ a f, (sim pairConfig).step s a ≠ some (.error f) := by
  refine ⟨_, rfl, rfl, ?_⟩
  exact barrier_protocol pairConfig_matched pairConfig_sendable
    (Machine.Reaches.start.run pairRun (fun _ _ => trivial) rfl)

/-- One PE that broadcasts 4 GiB: the size is cut to 0, so no packet is queued. -/
def wideConfig : Config 1 where
  traffic _ := [entry .read 0 (2 ^ 32) .broadcast]
  cacheLineSize := 64
  isMemAddr _ := true

theorem wide_broadcast_fails :
    Matched wideConfig [0] ∧ ∃ s, (sim wideConfig).Reaches (fun _ _ => True) s ∧
      (sim wideConfig).step s (.schedule 0 true) = some (.error .sendWithoutPacket) := by
  refine ⟨by unfold Matched; decide, ?_⟩
  exact ⟨_, Machine.Reaches.start.run [.wait 1, .operate 0, .wait 1] (fun _ _ => trivial) rfl, rfl⟩

end Pe

import Lab447.Ruby.Broadcast

/-!
Where the assertion of `recordBC` can fail: only where a request is issued whose
packet is a broadcast. A controller issues requests by itself only when a read
callback stops at a write, so it does not fail as long as the broadcasts in its
table are reads.
-/

namespace Ruby

open Script

namespace Controller

variable {cfg : Config} {c : Controller} {side : CacheSide} {a : Addr}

/-- The broadcasts in the table are reads. -/
def ReadsOnly (c : Controller) : Prop :=
  ∀ a, ∀ r ∈ c.sequencer.requestTable a, r.pkt.isBroadcast = true → r.type.isRead = true

theorem hitCallback_avoids {success : Bool} {r : SequencerRequest} :
    Avoids .recordBC (hitCallback cfg side a success r c) := by
  unfold hitCallback
  split
  · exact avoids_error (by simp)
  · cases r.type <;> exact avoids_ok

theorem readLoop_avoids {first : Bool} {rs : List SequencerRequest}
    (reads : ∀ r ∈ rs, r.pkt.isBroadcast = true → r.type.isRead = true) :
    Avoids .recordBC (readLoop cfg side a first rs c) := by
  induction rs generalizing first c with
  | nil => exact avoids_ok
  | cons r rs ih =>
    unfold readLoop
    split
    · exact avoids_bind hitCallback_avoids fun _ _ => ih fun r' hr' => reads r' (.tail r hr')
    · rename_i hwrite
      split
      · exact avoids_error (by simp)
      · unfold issueRequest
        rw [if_neg fun hb => hwrite (reads r (.head rs) hb)]
        exact avoids_ok

theorem readCallback_avoids (inv : c.ReadsOnly) :
    Avoids .recordBC (readCallback cfg side a c) := by
  unfold readCallback
  split
  · exact avoids_error (by simp)
  · split
    · exact avoids_error (by simp)
    · exact readLoop_avoids (inv a)

theorem writeLoop_avoids {first : Bool} {rs : List SequencerRequest} :
    Avoids .recordBC (writeLoop cfg side a first rs c) := by
  induction rs generalizing first c with
  | nil => exact avoids_ok
  | cons r rs ih =>
    unfold writeLoop
    split
    · split
      · exact avoids_error (by simp)
      · exact avoids_bind hitCallback_avoids fun _ _ => ih
    · exact avoids_bind hitCallback_avoids fun _ _ => ih

theorem writeCallback_avoids : Avoids .recordBC (writeCallback cfg side a c) := by
  unfold writeCallback
  split
  · exact avoids_error (by simp)
  · split
    · exact avoids_error (by simp)
    · exact writeLoop_avoids

theorem duplicateIfBC_avoids : Avoids .recordBC (duplicateIfBC cfg side a c) := by
  unfold duplicateIfBC
  split
  · exact avoids_ok
  · unfold duplicateBC
    split
    · exact avoids_error (by simp)
    · exact avoids_ok

end Controller

variable {side : CacheSide}

namespace Ctx

variable {cfg : Config} {x y : Ctx} {a : Action}

theorem peekMandatory_avoids : Avoids .recordBC x.peekMandatory := by
  unfold peekMandatory
  split
  · exact avoids_ok
  · exact avoids_error (by simp)

theorem peekOptional_avoids : Avoids .recordBC x.peekOptional := by
  unfold peekOptional
  split
  · exact avoids_ok
  · exact avoids_error (by simp)

theorem peekResponse_avoids : Avoids .recordBC x.peekResponse := by
  unfold peekResponse
  split
  · exact avoids_ok
  · exact avoids_error (by simp)

theorem peekRequest_avoids : Avoids .recordBC x.peekRequest := by
  unfold peekRequest
  split
  · exact avoids_ok
  · exact avoids_error (by simp)

theorem validEntry_avoids : Avoids .recordBC x.validEntry := by
  unfold validEntry
  split
  · exact avoids_ok
  · exact avoids_error (by simp)

theorem validTBE_avoids : Avoids .recordBC x.validTBE := by
  unfold validTBE
  split
  · exact avoids_ok
  · exact avoids_error (by simp)

theorem allocateBlock_avoids : Avoids .recordBC (x.allocateBlock cfg side) := by
  unfold allocateBlock
  split
  · exact avoids_ok
  · split
    · exact avoids_error (by simp)
    · split
      · exact avoids_ok
      · exact avoids_error (by simp)

theorem assertion_avoids {b : Bool} {f : Fault} (h : f ≠ .recordBC) :
    Avoids .recordBC (assertion b f) := by
  unfold assertion
  split
  · exact avoids_ok
  · exact avoids_error h

theorem oneTag_avoids : Avoids .recordBC x.oneTag := assertion_avoids (by simp)

theorem duplicateIfBC_readsOnly {c c' : Controller} {addr : Addr} (inv : c.ReadsOnly)
    (h : c.duplicateIfBC cfg side addr = .ok c') : c'.ReadsOnly := by
  rw [Controller.duplicateIfBC_ok h]
  exact inv

theorem completeLoad_avoids (inv : x.ctrl.ReadsOnly) : Avoids .recordBC (x.completeLoad cfg side) :=
  avoids_map (avoids_bind Controller.duplicateIfBC_avoids fun _ hc =>
    Controller.readCallback_avoids (duplicateIfBC_readsOnly inv hc))

theorem perform_avoids (inv : x.ctrl.ReadsOnly) : Avoids .recordBC (x.perform cfg a) := by
  have store : Avoids .recordBC (x.hhStoreHit cfg) :=
    avoids_bind validEntry_avoids fun _ _ => avoids_map (avoids_map Controller.writeCallback_avoids)
  cases a
  case aIssueGETS | aiIssueGETINSTR | bIssueGETX | cIssueUPGRADE | kPopMandatoryQueue |
      uuProfileDataMiss | uuProfileDataHit | poObserveMiss | ppmObservePfMiss =>
    exact avoids_map peekMandatory_avoids
  case paIssuePfGETS | paiIssuePfGETINSTR | pbIssuePfGETX | pqPopPrefetchQueue =>
    exact avoids_map peekOptional_avoids
  case dSendDataToRequestor =>
    exact avoids_bind peekRequest_avoids fun _ _ => avoids_map validEntry_avoids
  case dtSendDataToRequestorFromTBE =>
    exact avoids_bind peekRequest_avoids fun _ _ => avoids_map validTBE_avoids
  case d2SendDataToL2 | fSendDataToL2 | gIssuePUTX | mpMarkPrefetched =>
    exact avoids_map validEntry_avoids
  case d2tSendDataToL2FromTBE | ftSendDataToL2FromTBE => exact avoids_map validTBE_avoids
  case fiSendInvAck | lPopRequestQueue => exact avoids_map peekRequest_avoids
  case jjSendExclusiveUnblock | oPopIncomingResponseQueue => exact avoids_map peekResponse_avoids
  case forwardEvictionToCpu | jSendUnblock | kdWakeUpDependents | uuProfileInstMiss |
      uuProfileInstHit => exact avoids_ok
  case hLoadHit =>
    refine avoids_bind validEntry_avoids fun _ _ => avoids_bind peekMandatory_avoids fun _ _ => ?_
    split
    · exact avoids_ok
    · exact completeLoad_avoids inv
  case hIfetchHit =>
    exact avoids_bind validEntry_avoids fun _ _ => avoids_map (Controller.readCallback_avoids inv)
  case hxLoadHit =>
    refine avoids_bind peekResponse_avoids fun _ _ => ?_
    split
    · split
      · refine avoids_map ?_
        unfold Controller.readCallbackBC
        split
        · exact avoids_error (by simp)
        · exact avoids_ok
      · exact avoids_error (by simp)
    · exact avoids_bind validEntry_avoids fun _ _ => completeLoad_avoids inv
  case hhStoreHit | hhxStoreHit => exact store
  case iAllocateTBE =>
    refine avoids_bind peekMandatory_avoids fun _ _ => ?_
    split
    · exact avoids_ok
    · refine avoids_bind validEntry_avoids fun ⟨_, e⟩ _ => ?_
      dsimp only
      split
      · exact avoids_error (by simp)
      · exact avoids_ok
  case sDeallocateTBE =>
    refine avoids_bind peekResponse_avoids fun _ _ => ?_
    split
    · exact avoids_ok
    · split
      · exact avoids_ok
      · exact avoids_error (by simp)
  case uWriteDataToL1Cache =>
    refine avoids_bind peekResponse_avoids fun _ _ => ?_
    split
    · exact avoids_ok
    · exact avoids_map validEntry_avoids
  case qUpdateAckCount =>
    exact avoids_bind peekResponse_avoids fun _ _ => avoids_map validTBE_avoids
  case ffDeallocateL1CacheBlock =>
    simp only [perform, ffDeallocateL1CacheBlock]
    split
    · exact avoids_ok
    · split
      · exact avoids_ok
      · exact avoids_error (by simp)
  case ooAllocateL1DCacheBlock =>
    refine avoids_bind peekMandatory_avoids fun _ _ => ?_
    split
    · exact avoids_ok
    · exact allocateBlock_avoids
  case ppAllocateL1ICacheBlock => exact allocateBlock_avoids
  case zStallAndWaitMandatoryQueue =>
    refine avoids_bind peekMandatory_avoids fun _ _ => ?_
    split
    · exact avoids_ok
    · exact avoids_error (by simp)
  case zStallAndWaitOptionalQueue =>
    refine avoids_bind peekOptional_avoids fun _ _ => ?_
    split
    · exact avoids_ok
    · exact avoids_error (by simp)
  case poObserveHit =>
    refine avoids_bind peekMandatory_avoids fun _ _ => ?_
    split
    · exact avoids_ok
    · exact avoids_map validEntry_avoids

/-! ### What the actions do to the table -/

/-- No action puts a request into the table. -/
theorem perform_table (h : x.perform cfg a = .ok y) (b : Addr) :
    y.ctrl.view.requests b ⊆ x.ctrl.view.requests b := by
  have same {x y : Ctx} (h : y.ctrl.view.sequencer.requestTable = x.ctrl.view.sequencer.requestTable) :
      y.ctrl.view.requests b ⊆ x.ctrl.view.requests b := by
    rw [View.requests, h]
    exact List.Subset.refl _
  have completed {done left : List SequencerRequest} {record : Addr → Option Packet}
      {issued gone : List RubyRequest} (sub : left ⊆ x.ctrl.view.requests x.address)
      (h : Completed x.address done left record issued gone x.ctrl.view y.ctrl.view) :
      y.ctrl.view.requests b ⊆ x.ctrl.view.requests b := by
    rw [View.requests, h.table]
    by_cases hb : b = x.address
    · subst hb
      rw [Function.update_self]
      exact sub
    · rw [Function.update_of_ne hb]
      exact List.Subset.refl _
  have remaining : Controller.remaining (x.ctrl.view.requests x.address) ⊆
      x.ctrl.view.requests x.address := (List.dropWhile_suffix _).subset
  have loud (hq : quiet a = false) : y.ctrl.view.requests b ⊆ x.ctrl.view.requests b := by
    cases a <;> cases hq
    case hLoadHit =>
      obtain ⟨m, -, ⟨-, rfl⟩ | ⟨-, side, hload⟩⟩ := hLoadHit_ok h
      · exact same rfl
      · obtain ⟨-, -, ⟨-, data, done⟩, -⟩ := completeLoad_loaded hload
        exact completed remaining done
    case hIfetchHit =>
      obtain ⟨⟨side, e⟩, -, hread⟩ := bind_eq_ok.mp h
      obtain ⟨c, hc, rfl⟩ := map_eq_ok.mp hread
      exact completed remaining (readCallback_fetched hc).1.2
    case hxLoadHit =>
      obtain ⟨m, -, ⟨-, pkt, -, rfl⟩ | ⟨-, side, hload⟩⟩ := hxLoadHit_ok h
      · exact same rfl
      · obtain ⟨-, -, ⟨-, data, done⟩, -⟩ := completeLoad_loaded hload
        exact completed remaining done
    case hhStoreHit | hhxStoreHit => exact completed (List.nil_subset _) (hhStoreHit_ok h).1.2
    case kPopMandatoryQueue =>
      obtain ⟨m, -, hv⟩ := kPopMandatoryQueue_ok h
      exact same (by rw [hv])
    case zStallAndWaitMandatoryQueue => exact same (by rw [zStallAndWaitMandatoryQueue_ok h])
    case kdWakeUpDependents =>
      cases h
      exact same rfl
  cases hq : quiet a with
  | true => exact same (by rw [(perform_quiet hq h).view])
  | false => exact loud hq

/-! ### Transitions -/

theorem doTransition_avoids {event : Event} (inv : x.ctrl.ReadsOnly) :
    Avoids .recordBC (x.doTransition cfg event) := by
  refine avoids_bind (avoids_map oneTag_avoids) fun st _ => ?_
  split
  · exact avoids_error (by simp)
  · refine avoids_bind ?_ fun z _ => avoids_map oneTag_avoids
    exact avoids_run inv (fun a _ x y hx h b r hr => hx b r (perform_table h b hr))
      fun a _ z hz => perform_avoids hz

end Ctx

/-! ### In-ports -/

namespace Controller

variable {cfg : Config} {c : Controller} {victim : Addr}

theorem trigger_avoids {event : Event} {a : Addr} {entry : Option CacheSide}
    (inv : c.ReadsOnly) : Avoids .recordBC (c.trigger cfg event a entry) :=
  avoids_map (Ctx.doTransition_avoids inv)

theorem mandatoryRequestTypeToEvent_avoids {type : RubyRequestType} :
    Avoids .recordBC (mandatoryRequestTypeToEvent type) := by
  cases type <;> first | exact avoids_ok | exact avoids_error (by simp)

theorem prefetchRequestTypeToEvent_avoids {type : RubyRequestType} :
    Avoids .recordBC (prefetchRequestTypeToEvent type) := by
  cases type <;> first | exact avoids_ok | exact avoids_error (by simp)

variable {r : Except Fault Controller}

theorem demand_avoids {m : RubyRequest} (inv : c.ReadsOnly)
    (h : c.demand cfg side m victim = some r) : Avoids .recordBC r := by
  obtain ⟨entry, -, rfl⟩ | ⟨line, entry, -, rfl⟩ | rfl := demand_cases h
  · exact avoids_bind mandatoryRequestTypeToEvent_avoids fun _ _ => trigger_avoids inv
  · exact trigger_avoids inv
  · exact avoids_ok

theorem mandatoryQueueIn_avoids (inv : c.ReadsOnly) (h : c.mandatoryQueueIn cfg victim = some r) :
    Avoids .recordBC r := by
  unfold mandatoryQueueIn at h
  split at h
  · cases h
  · split at h
    · exact demand_avoids inv h
    · split at h
      · cases h
        exact avoids_bind mandatoryRequestTypeToEvent_avoids fun _ _ => trigger_avoids inv
      · exact demand_avoids inv h

theorem prefetchInto_avoids {m : LineRequest} (inv : c.ReadsOnly)
    (h : c.prefetchInto cfg side m victim = some r) : Avoids .recordBC r := by
  obtain ⟨entry, -, rfl⟩ | ⟨line, entry, -, rfl⟩ := prefetchInto_cases h
  · exact avoids_bind prefetchRequestTypeToEvent_avoids fun _ _ => trigger_avoids inv
  · exact trigger_avoids inv

theorem optionalQueueIn_avoids (inv : c.ReadsOnly) (h : c.optionalQueueIn cfg victim = some r) :
    Avoids .recordBC r := by
  unfold optionalQueueIn at h
  split at h
  · cases h
  · split at h
    · exact prefetchInto_avoids inv h
    · exact prefetchInto_avoids inv h

theorem responseEvent_avoids {x : Ctx} {m : ResponseMsg} :
    Avoids .recordBC (responseEvent x m) := by
  unfold responseEvent
  split
  · exact avoids_ok
  · split
    · exact avoids_ok
    · refine avoids_bind (avoids_map Ctx.oneTag_avoids) fun _ _ => ?_
      split
      · exact avoids_ok
      · exact avoids_map (avoids_map Ctx.validTBE_avoids)
    · exact avoids_map (avoids_map Ctx.validTBE_avoids)
    · exact avoids_ok
    · exact avoids_error (by simp)

theorem responseL1NetworkIn_avoids {m : ResponseMsg} {r : Except Fault Ctx} (inv : c.ReadsOnly)
    (h : c.responseL1NetworkIn cfg m = some r) : Avoids .recordBC r := by
  unfold responseL1NetworkIn at h
  split at h
  · cases h
  · cases h
    exact avoids_bind (Ctx.assertion_avoids (by simp)) fun _ _ =>
      avoids_bind responseEvent_avoids fun _ _ => Ctx.doTransition_avoids inv

theorem requestEvent_avoids {type : CoherenceRequestType} :
    Avoids .recordBC (requestEvent type) := by
  cases type <;> first | exact avoids_ok | exact avoids_error (by simp)

theorem requestL1NetworkIn_avoids {m : RequestMsg} {r : Except Fault Ctx} (inv : c.ReadsOnly)
    (h : c.requestL1NetworkIn cfg m = some r) : Avoids .recordBC r := by
  unfold requestL1NetworkIn at h
  split at h
  · cases h
  · cases h
    exact avoids_bind (Ctx.assertion_avoids (by simp)) fun _ _ =>
      avoids_bind requestEvent_avoids fun _ _ => Ctx.doTransition_avoids inv

end Controller

end Ruby

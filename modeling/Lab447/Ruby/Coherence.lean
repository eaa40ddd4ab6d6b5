import Lab447.Ruby.Frame

/-!
The coherence state of an L1 in every run: a line is in one cache at most, an
entry has the permission of its state, an entry of the data cache agrees with its
TBE, and a TBE is in a transient state. Nothing is assumed about the requests,
the messages or the L2.
-/

namespace Ruby

open Script

/-- The states with a transaction under way. -/
def State.transient : State → Bool
  | NP | I | S | E | M => false
  | IS | IM | SM | IS_I | M_I | SINK_WB_ACK | PF_IS | PF_IM | PF_SM | PF_IS_I => true

variable {side : CacheSide} {as : List Action} {next st : State}

namespace Ctx

/-- The entries and TBEs are the same, with the same states. -/
structure Still (x y : Ctx) : Prop where
  address : y.address = x.address
  entry : y.entry = x.entry
  shape : y.ctrl.shape = x.ctrl.shape
  tbe : y.ctrl.tbeState = x.ctrl.tbeState
  response : y.response = x.response ∨ y.response = none

theorem Still.refl (x : Ctx) : Still x x := ⟨rfl, rfl, rfl, rfl, .inl rfl⟩

variable {cfg : Config} {x y : Ctx} {a : Action}

theorem Still.trans {z : Ctx} (h : Still x y) (h' : Still y z) : Still x z where
  address := h'.address.trans h.address
  entry := h'.entry.trans h.entry
  shape := h'.shape.trans h.shape
  tbe := h'.tbe.trans h.tbe
  response := h'.response.elim (fun e => e ▸ h.response) .inr

theorem still_modifyEntry {f : Entry → Entry} (hf : ∀ e, (f e).coherence = e.coherence) :
    Still x (x.modifyEntry f) := by
  unfold modifyEntry
  split
  · rename_i side _
    have served := Controller.served_modifyEntry (c := x.ctrl) side x.address hf
    exact ⟨rfl, rfl, served.shape, served.tbeState, .inl rfl⟩
  · exact .refl x

theorem still_callback {f : Controller → Except Fault Controller}
    (hf : ∀ c', f x.ctrl = .ok c' → Controller.Served x.ctrl c') (h : x.callback f = .ok y) :
    Still x y := by
  obtain ⟨c', hc, rfl⟩ := map_eq_ok.mp h
  have served := hf c' hc
  exact ⟨rfl, rfl, served.shape, served.tbeState, .inl rfl⟩

theorem completeLoad_served {c c' : Controller} {addr : Addr}
    (h : (c.duplicateIfBC cfg side addr).bind (Controller.readCallback cfg side addr) = .ok c') :
    Controller.Served c c' := by
  obtain ⟨c₁, h₁, h₂⟩ := bind_eq_ok.mp h
  have first : Controller.Served c c₁ := by
    rw [Controller.duplicateIfBC_ok h₁]
    exact ⟨rfl, rfl, rfl, rfl, rfl, rfl, rfl⟩
  exact first.trans (Controller.readCallback_ok h₂).2.served

theorem still_setTBE {t t' : TBE} (ht : x.tbe = some t) (hs : t'.tbeState = t.tbeState) :
    Still x (x.setTBE (some t')) := by
  refine ⟨rfl, rfl, rfl, ?_, .inl rfl⟩
  funext b
  by_cases hb : b = x.address
  · subst hb
    have ht : x.ctrl.tbes x.address = some t := ht
    simp [Controller.tbeState, setTBE, ht, hs]
  · simp [Controller.tbeState, setTBE, hb]

/-- The actions that add or remove an entry or a TBE. -/
def moves : Action → Bool
  | .ooAllocateL1DCacheBlock | .ppAllocateL1ICacheBlock | .ffDeallocateL1CacheBlock
  | .iAllocateTBE | .sDeallocateTBE => true
  | _ => false

/-- All other actions leave the entries and TBEs alone. -/
theorem perform_still (ha : moves a = false) (h : x.perform cfg a = .ok y) : Still x y := by
  cases a <;> cases ha
  case aIssueGETS =>
    obtain ⟨m, -, rfl⟩ := map_eq_ok.mp h
    split
    · exact .refl x
    · exact ⟨rfl, rfl, rfl, rfl, .inl rfl⟩
  case forwardEvictionToCpu =>
    cases h
    unfold forwardEvictionToCpu
    split
    · have served : Controller.Served x.ctrl (x.ctrl.evictionCallback x.address) :=
        Controller.served_llscClearMonitor x.address
      exact ⟨rfl, rfl, served.shape, served.tbeState, .inl rfl⟩
    · exact .refl x
  case jjSendExclusiveUnblock =>
    obtain ⟨m, -, rfl⟩ := map_eq_ok.mp h
    split
    · exact .refl x
    · exact ⟨rfl, rfl, rfl, rfl, .inl rfl⟩
  case hLoadHit =>
    obtain ⟨e, -, h⟩ := bind_eq_ok.mp h
    obtain ⟨m, -, h⟩ := bind_eq_ok.mp h
    split at h
    · cases h
      exact ⟨rfl, rfl, rfl, rfl, .inl rfl⟩
    · exact still_callback (fun _ => completeLoad_served) h
  case hIfetchHit =>
    obtain ⟨e, -, h⟩ := bind_eq_ok.mp h
    exact still_callback (fun _ hc => (Controller.readCallback_ok hc).2.served) h
  case hxLoadHit =>
    obtain ⟨m, -, h⟩ := bind_eq_ok.mp h
    split at h
    · split at h
      · refine still_callback (fun _ hc => ?_) h
        rw [Controller.readCallbackBC_ok hc]
        exact ⟨rfl, rfl, rfl, rfl, rfl, rfl, rfl⟩
      · cases h
    · obtain ⟨e, -, h⟩ := bind_eq_ok.mp h
      exact still_callback (fun _ => completeLoad_served) h
  case hhStoreHit | hhxStoreHit =>
    obtain ⟨e, -, h⟩ := bind_eq_ok.mp h
    obtain ⟨z, hz, rfl⟩ := map_eq_ok.mp h
    have first := still_callback (fun _ hc => (Controller.writeCallback_ok hc).2.served) hz
    exact first.trans (still_modifyEntry fun _ => rfl)
  case uWriteDataToL1Cache | poObserveHit =>
    obtain ⟨m, -, h⟩ := bind_eq_ok.mp h
    split at h
    · cases h
      exact .refl x
    · obtain ⟨e, -, rfl⟩ := map_eq_ok.mp h
      exact still_modifyEntry fun _ => rfl
  case mpMarkPrefetched =>
    obtain ⟨e, -, rfl⟩ := map_eq_ok.mp h
    exact still_modifyEntry fun _ => rfl
  case qUpdateAckCount =>
    obtain ⟨m, -, h⟩ := bind_eq_ok.mp h
    obtain ⟨t, ht, rfl⟩ := map_eq_ok.mp h
    unfold validTBE at ht
    split at ht
    · rename_i t' ht'
      cases ht
      exact still_setTBE ht' rfl
    · cases ht
  case zStallAndWaitMandatoryQueue | zStallAndWaitOptionalQueue =>
    obtain ⟨m, -, h⟩ := bind_eq_ok.mp h
    split at h
    · cases h
      exact ⟨rfl, rfl, rfl, rfl, .inl rfl⟩
    · cases h
  case dSendDataToRequestor | dtSendDataToRequestorFromTBE =>
    obtain ⟨m, -, h⟩ := bind_eq_ok.mp h
    obtain ⟨e, -, rfl⟩ := map_eq_ok.mp h
    exact ⟨rfl, rfl, rfl, rfl, .inl rfl⟩
  case jSendUnblock | kdWakeUpDependents | uuProfileInstMiss | uuProfileInstHit =>
    cases h
    exact ⟨rfl, rfl, rfl, rfl, .inl rfl⟩
  case oPopIncomingResponseQueue =>
    obtain ⟨m, -, rfl⟩ := map_eq_ok.mp h
    exact ⟨rfl, rfl, rfl, rfl, .inr rfl⟩
  all_goals
    obtain ⟨m, -, rfl⟩ := map_eq_ok.mp h
    exact ⟨rfl, rfl, rfl, rfl, .inl rfl⟩

theorem isTagPresent_eq (c : Controller) (side : CacheSide) (b : Addr) :
    (c.cache side).isTagPresent b = (c.shape side b).isSome := by
  rw [Controller.shape, Option.isSome_map]
  rfl

/-! ### Adding and removing entries and TBEs -/

theorem allocateBlock_ok (h : x.allocateBlock cfg side = .ok y) : x.entry.isSome ∧ y = x ∨
    x.entry = none ∧ y.address = x.address ∧ y.entry = some side ∧ y.response = x.response ∧
      y.ctrl.tbeState = x.ctrl.tbeState ∧
      ∀ side' b, y.ctrl.shape side' b =
        if side' = side ∧ b = x.address then some (.I, .Invalid) else x.ctrl.shape side' b := by
  unfold allocateBlock at h
  split at h
  · rename_i he
    cases h
    exact .inl ⟨he, rfl⟩
  · rename_i he
    split at h
    · cases h
    · split at h
      · cases h
        refine .inr ⟨by simpa using he, rfl, rfl, rfl, ?_, ?_⟩
        · simp
        · intro side' b
          simp only [Controller.shape, Controller.lookup, Controller.cache_setCache]
          by_cases hs : side' = side
          · subst hs
            by_cases hb : b = x.address
            · simp [hb, Entry.new, Entry.coherence]
            · simp [hb]
          · simp [hs]
      · cases h

theorem ffDeallocateL1CacheBlock_ok (h : x.ffDeallocateL1CacheBlock = .ok y) :
    y.address = x.address ∧ y.entry = none ∧ y.response = x.response ∧
      y.ctrl.tbeState = x.ctrl.tbeState ∧ ∃ side, (x.ctrl.shape side x.address).isSome ∧
        (side = .icache → x.ctrl.shape .dcache x.address = none) ∧
        ∀ side' b, y.ctrl.shape side' b =
          if side' = side ∧ b = x.address then none else x.ctrl.shape side' b := by
  have hd := isTagPresent_eq x.ctrl .dcache x.address
  have hi := isTagPresent_eq x.ctrl .icache x.address
  simp only [Controller.cache] at hd hi
  unfold ffDeallocateL1CacheBlock at h
  rw [hd, hi] at h
  split at h
  · rename_i there
    cases h
    refine ⟨rfl, rfl, rfl, rfl, .dcache, there, by simp, fun side' b => ?_⟩
    cases side' with
    | icache => simp [Controller.shape, Controller.lookup, Controller.cache]
    | dcache =>
      by_cases hb : b = x.address <;> simp [Controller.shape, Controller.lookup, Controller.cache, hb]
  · rename_i away
    split at h
    · rename_i there
      cases h
      refine ⟨rfl, rfl, rfl, rfl, .icache, there, fun _ => by simpa using away, fun side' b => ?_⟩
      · cases side' with
        | dcache => simp [Controller.shape, Controller.lookup, Controller.cache]
        | icache =>
          by_cases hb : b = x.address <;>
            simp [Controller.shape, Controller.lookup, Controller.cache, hb]
    · cases h

theorem tbeState_setTBE (x : Ctx) (t : Option TBE) (b : Addr) :
    (x.setTBE t).ctrl.tbeState b =
      if b = x.address then t.map TBE.tbeState else x.ctrl.tbeState b := by
  by_cases hb : b = x.address <;> simp [setTBE, Controller.tbeState, hb]

theorem iAllocateTBE_ok (h : x.iAllocateTBE = .ok y) :
    (∃ m, x.ctrl.mandatoryQueue.peek = some m ∧ m.isBCDuplicate = true) ∧ y = x ∨
    (∃ m, x.ctrl.mandatoryQueue.peek = some m ∧ m.isBCDuplicate = false) ∧
      ∃ t, y = x.setTBE (some t) ∧ t.tbeState = .I := by
  obtain ⟨m, hm, h⟩ := bind_eq_ok.mp h
  have hm : x.ctrl.mandatoryQueue.peek = some m := by
    unfold peekMandatory at hm
    split at hm
    · rename_i hp
      cases hm
      exact hp
    · cases hm
  split at h
  · rename_i hd
    cases h
    exact .inl ⟨⟨m, hm, hd⟩, rfl⟩
  · rename_i hd
    obtain ⟨⟨side, e⟩, -, h⟩ := bind_eq_ok.mp h
    simp only at h
    split at h
    · cases h
    · cases h
      exact .inr ⟨⟨m, hm, by simpa using hd⟩, _, rfl, rfl⟩

theorem sDeallocateTBE_ok (h : x.sDeallocateTBE = .ok y) :
    (∃ m, x.response = some m ∧ m.isBCDuplicate = true) ∧ y = x ∨ y = x.setTBE none := by
  obtain ⟨m, hm, h⟩ := bind_eq_ok.mp h
  split at h
  · rename_i hd
    cases h
    unfold peekResponse at hm
    split at hm
    · rename_i hr
      cases hm
      exact .inl ⟨⟨_, hr, hd⟩, rfl⟩
    · cases hm
  · split at h
    · cases h
      exact .inr rfl
    · cases h

theorem shape_setTBE (x : Ctx) (t : Option TBE) : (x.setTBE t).ctrl.shape = x.ctrl.shape := rfl

/-- Only the line of the transition is touched. -/
structure Nearby (x y : Ctx) : Prop where
  address : y.address = x.address
  shape : ∀ side b, b ≠ x.address → y.ctrl.shape side b = x.ctrl.shape side b
  tbe : ∀ b, b ≠ x.address → y.ctrl.tbeState b = x.ctrl.tbeState b
  response : y.response = x.response ∨ y.response = none

theorem Nearby.refl (x : Ctx) : Nearby x x := ⟨rfl, fun _ _ _ => rfl, fun _ _ => rfl, .inl rfl⟩

theorem Nearby.trans {z : Ctx} (h : Nearby x y) (h' : Nearby y z) : Nearby x z where
  address := h'.address.trans h.address
  shape side b hb := (h'.shape side b (h.address ▸ hb)).trans (h.shape side b hb)
  tbe b hb := (h'.tbe b (h.address ▸ hb)).trans (h.tbe b hb)
  response := h'.response.elim (fun e => e ▸ h.response) .inr

theorem Still.nearby (h : Still x y) : Nearby x y :=
  ⟨h.address, fun side b _ => by rw [h.shape], fun b _ => by rw [h.tbe], h.response⟩

theorem nearby_setTBE (t : Option TBE) : Nearby x (x.setTBE t) :=
  ⟨rfl, fun _ _ _ => rfl, fun b hb => by rw [tbeState_setTBE, if_neg hb], .inl rfl⟩

theorem perform_nearby (h : x.perform cfg a = .ok y) : Nearby x y := by
  have block {side : CacheSide} {z : Ctx} (h : x.allocateBlock cfg side = .ok z) : Nearby x z := by
    obtain ⟨-, rfl⟩ | ⟨-, haddr, -, hresp, htbe, hshape⟩ := allocateBlock_ok h
    · exact .refl _
    · exact ⟨haddr, fun side' b hb => by simp [hshape, hb], fun b _ => by rw [htbe], .inl hresp⟩
  cases a
  case ooAllocateL1DCacheBlock =>
    obtain ⟨m, -, h⟩ := bind_eq_ok.mp h
    split at h
    · cases h
      exact .refl _
    · exact block h
  case ppAllocateL1ICacheBlock => exact block h
  case ffDeallocateL1CacheBlock =>
    obtain ⟨haddr, -, hresp, htbe, side, -, -, hshape⟩ := ffDeallocateL1CacheBlock_ok h
    exact ⟨haddr, fun side' b hb => by simp [hshape, hb], fun b _ => by rw [htbe], .inl hresp⟩
  case iAllocateTBE =>
    obtain ⟨-, rfl⟩ | ⟨-, t, rfl, -⟩ := iAllocateTBE_ok h
    · exact .refl _
    · exact nearby_setTBE _
  case sDeallocateTBE =>
    obtain ⟨-, rfl⟩ | rfl := sDeallocateTBE_ok h
    · exact .refl _
    · exact nearby_setTBE _
  all_goals exact (perform_still rfl h).nearby

theorem performAll_nearby (h : x.performAll cfg as = .ok y) : Nearby x y :=
  run_keeps (P := Nearby x) (fun _ _ _ _ near hz => near.trans (perform_nearby hz)) h (.refl x)

/-- `cache_entry` points to the entry of the data cache if there is one. -/
def Aimed (x : Ctx) : Prop := (x.ctrl.shape .dcache x.address).isSome ↔ x.entry = some .dcache

theorem Aimed.still (h : Still x y) (aim : Aimed x) : Aimed y := by
  unfold Aimed at aim ⊢
  rw [h.address, h.entry, h.shape]
  exact aim

theorem perform_aimed (aim : Aimed x) (h : x.perform cfg a = .ok y) : Aimed y := by
  have block {side : CacheSide} {z : Ctx} (h : x.allocateBlock cfg side = .ok z) : Aimed z := by
    obtain ⟨-, rfl⟩ | ⟨hnone, haddr, hentry, -, -, hshape⟩ := allocateBlock_ok h
    · exact aim
    · unfold Aimed at aim ⊢
      rw [haddr, hentry, hshape]
      cases side with
      | dcache => simp
      | icache => simpa [hnone] using aim
  cases a
  case ooAllocateL1DCacheBlock =>
    obtain ⟨m, -, h⟩ := bind_eq_ok.mp h
    split at h
    · cases h
      exact aim
    · exact block h
  case ppAllocateL1ICacheBlock => exact block h
  case ffDeallocateL1CacheBlock =>
    obtain ⟨haddr, hentry, -, -, side, -, hside, hshape⟩ := ffDeallocateL1CacheBlock_ok h
    unfold Aimed
    rw [haddr, hentry, hshape]
    cases side with
    | dcache => simp
    | icache => simp [hside rfl]
  case iAllocateTBE =>
    obtain ⟨-, rfl⟩ | ⟨-, t, rfl, -⟩ := iAllocateTBE_ok h
    · exact aim
    · exact aim
  case sDeallocateTBE =>
    obtain ⟨-, rfl⟩ | rfl := sDeallocateTBE_ok h
    · exact aim
    · exact aim
  all_goals exact aim.still (perform_still rfl h)

/-- The actions that add an entry. -/
def allocates : Action → Bool
  | .ooAllocateL1DCacheBlock | .ppAllocateL1ICacheBlock => true
  | _ => false

theorem perform_absent (ha : allocates a = false) (absent : x.ctrl.shape side x.address = none)
    (h : x.perform cfg a = .ok y) : y.ctrl.shape side y.address = none := by
  cases a <;> cases ha
  case ffDeallocateL1CacheBlock =>
    obtain ⟨haddr, -, -, -, side, -, -, hshape⟩ := ffDeallocateL1CacheBlock_ok h
    rw [haddr, hshape, absent, ite_self]
  case iAllocateTBE =>
    obtain ⟨-, rfl⟩ | ⟨-, t, rfl, -⟩ := iAllocateTBE_ok h
    · exact absent
    · exact absent
  case sDeallocateTBE =>
    obtain ⟨-, rfl⟩ | rfl := sDeallocateTBE_ok h
    · exact absent
    · exact absent
  all_goals
    have still := perform_still rfl h
    rw [still.address, still.shape]
    exact absent

theorem perform_entry (ha : allocates a = false) (h : x.perform cfg a = .ok y) :
    y.entry = x.entry ∨ y.entry = none := by
  cases a <;> cases ha
  case ffDeallocateL1CacheBlock => exact .inr (ffDeallocateL1CacheBlock_ok h).2.1
  case iAllocateTBE =>
    obtain ⟨-, rfl⟩ | ⟨-, t, rfl, -⟩ := iAllocateTBE_ok h
    · exact .inl rfl
    · exact .inl rfl
  case sDeallocateTBE =>
    obtain ⟨-, rfl⟩ | rfl := sDeallocateTBE_ok h
    · exact .inl rfl
    · exact .inl rfl
  all_goals exact .inl (perform_still rfl h).entry

/-- The entries of the line have a state, and the permission of that state. -/
def Marked (x : Ctx) : Prop :=
  ∀ side st p, x.ctrl.shape side x.address = some (st, p) → st ≠ .NP ∧ p = st.toPermission

theorem Marked.still (h : Still x y) (marked : Marked x) : Marked y := by
  unfold Marked
  rw [h.address, h.shape]
  exact marked

theorem perform_marked (marked : Marked x) (h : x.perform cfg a = .ok y) : Marked y := by
  have block {side : CacheSide} {z : Ctx} (h : x.allocateBlock cfg side = .ok z) : Marked z := by
    obtain ⟨-, rfl⟩ | ⟨-, haddr, -, -, -, hshape⟩ := allocateBlock_ok h
    · exact marked
    · intro side' st p hs
      rw [haddr, hshape] at hs
      split at hs
      · cases hs
        exact ⟨by simp, rfl⟩
      · exact marked side' st p hs
  cases a
  case ooAllocateL1DCacheBlock =>
    obtain ⟨m, -, h⟩ := bind_eq_ok.mp h
    split at h
    · cases h
      exact marked
    · exact block h
  case ppAllocateL1ICacheBlock => exact block h
  case ffDeallocateL1CacheBlock =>
    obtain ⟨haddr, -, -, -, side, -, -, hshape⟩ := ffDeallocateL1CacheBlock_ok h
    intro side' st p hs
    rw [haddr, hshape] at hs
    split at hs
    · cases hs
    · exact marked side' st p hs
  case iAllocateTBE =>
    obtain ⟨-, rfl⟩ | ⟨-, t, rfl, -⟩ := iAllocateTBE_ok h
    · exact marked
    · exact marked
  case sDeallocateTBE =>
    obtain ⟨-, rfl⟩ | rfl := sDeallocateTBE_ok h
    · exact marked
    · exact marked
  all_goals exact marked.still (perform_still rfl h)

/-- The response, if there is one, is not a duplicate. -/
def Plain (x : Ctx) : Prop := ∀ m, x.response = some m → m.isBCDuplicate = false

theorem perform_no_tbe (ha : a ≠ .iAllocateTBE) (absent : x.ctrl.tbeState x.address = none)
    (h : x.perform cfg a = .ok y) : y.ctrl.tbeState y.address = none := by
  have block {side : CacheSide} {z : Ctx} (h : x.allocateBlock cfg side = .ok z) :
      z.ctrl.tbeState z.address = none := by
    obtain ⟨-, rfl⟩ | ⟨-, haddr, -, -, htbe, -⟩ := allocateBlock_ok h
    · exact absent
    · rw [haddr, htbe]
      exact absent
  cases a
  case ooAllocateL1DCacheBlock =>
    obtain ⟨m, -, h⟩ := bind_eq_ok.mp h
    split at h
    · cases h
      exact absent
    · exact block h
  case ppAllocateL1ICacheBlock => exact block h
  case ffDeallocateL1CacheBlock =>
    obtain ⟨haddr, -, -, htbe, -⟩ := ffDeallocateL1CacheBlock_ok h
    rw [haddr, htbe]
    exact absent
  case iAllocateTBE => exact absurd rfl ha
  case sDeallocateTBE =>
    obtain ⟨-, rfl⟩ | rfl := sDeallocateTBE_ok h
    · exact absent
    · exact (tbeState_setTBE x none x.address).trans (if_pos rfl)
  all_goals
    have still := perform_still rfl h
    rw [still.address, still.tbe]
    exact absent

theorem Plain.nearby (h : Nearby x y) (plain : Plain x) : Plain y := by
  intro m hm
  obtain e | e := h.response
  · exact plain m (e ▸ hm)
  · rw [e] at hm
    cases hm

/-- `setState` asserts that the line is in one cache at most, and then writes the
state to the TBE and to the entry. -/
theorem setState_ok (h : x.setState next = .ok y) :
    (x.ctrl.shape .dcache x.address = none ∨ x.ctrl.shape .icache x.address = none) ∧
      y = (x.setTBE (x.tbe.map fun t => { t with tbeState := next })).modifyEntry fun e =>
        { e with cacheState := next, permission := next.toPermission } := by
  obtain ⟨_, hone, rfl⟩ := map_eq_ok.mp h
  refine ⟨?_, rfl⟩
  have hd := isTagPresent_eq x.ctrl .dcache x.address
  have hi := isTagPresent_eq x.ctrl .icache x.address
  simp only [Controller.cache] at hd hi
  unfold oneTag assertion at hone
  rw [hd, hi] at hone
  split at hone
  · rename_i hp
    cases hd' : x.ctrl.shape .dcache x.address with
    | none => exact .inl rfl
    | some _ =>
      simpa [hd'] using hp
  · cases hone

theorem shape_modifyEntry (x : Ctx) (f : Entry → Entry) (side : CacheSide) (b : Addr) :
    (x.modifyEntry f).ctrl.shape side b = if x.entry = some side ∧ b = x.address then
      (x.ctrl.lookup side b).map fun e => (f e).coherence else x.ctrl.shape side b := by
  unfold modifyEntry
  split
  · rename_i side' he
    simp only [Controller.shape, Controller.lookup_modifyEntry, he, Option.some.injEq]
    by_cases hs : side = side' ∧ b = x.address
    · rw [if_pos hs, if_pos ⟨hs.1.symm, hs.2⟩, Option.map_map]
      rfl
    · rw [if_neg hs, if_neg fun h => hs ⟨h.1.symm, h.2⟩]
  · rename_i he
    simp [he]

/-- What `setState` leaves in the caches. -/
theorem shape_setState (h : x.setState next = .ok y) (side : CacheSide) (b : Addr) :
    y.ctrl.shape side b = if x.entry = some side ∧ b = x.address then
      (x.ctrl.shape side b).map fun _ => (next, next.toPermission) else x.ctrl.shape side b := by
  obtain ⟨-, rfl⟩ := setState_ok h
  rw [shape_modifyEntry, shape_setTBE]
  simp only [Controller.shape, Option.map_map]
  rfl

theorem tbeState_modifyEntry (x : Ctx) (f : Entry → Entry) :
    (x.modifyEntry f).ctrl.tbeState = x.ctrl.tbeState := by
  unfold modifyEntry
  split
  · exact Controller.tbeState_setCache
  · rfl

/-- What `setState` leaves in the TBEs. -/
theorem tbeState_setState (h : x.setState next = .ok y) (b : Addr) :
    y.ctrl.tbeState b = if b = x.address then (x.ctrl.tbeState b).map fun _ => next
      else x.ctrl.tbeState b := by
  obtain ⟨-, rfl⟩ := setState_ok h
  rw [tbeState_modifyEntry, tbeState_setTBE]
  split
  · rename_i hb
    subst hb
    simp only [tbe, Controller.tbeState, Option.map_map]
    rfl
  · rfl

/-! ### Transitions -/

theorem transition_mem {event : Event} (h : transition st event = some (as, next)) :
    ∃ t ∈ transitions, st ∈ t.states ∧ event ∈ t.events ∧ t.actions = as ∧ t.next.getD st = next := by
  obtain ⟨t, ht, he⟩ := Option.map_eq_some_iff.mp h
  have hmem := List.mem_of_find?_eq_some ht
  have hp := List.find?_some ht
  simp only [Bool.and_eq_true, decide_eq_true_eq] at hp
  cases he
  exact ⟨t, hmem, hp.1, hp.2, rfl, rfl⟩

/-- A fact about every row of the table holds of the row that is taken. -/
theorem transition_row {P : State → Event → List Action → State → Prop}
    (rows : ∀ t ∈ transitions, ∀ st ∈ t.states, ∀ ev ∈ t.events, P st ev t.actions (t.next.getD st))
    {event : Event} (h : transition st event = some (as, next)) : P st event as next := by
  obtain ⟨t, ht, hst, hev, rfl, rfl⟩ := transition_mem h
  exact rows t ht st hst event hev

theorem doTransition_ok {event : Event} (h : x.doTransition cfg event = .ok y) :
    ∃ as next z, transition x.state event = some (as, next) ∧ x.performAll cfg as = .ok z ∧
      z.setState next = .ok y := by
  obtain ⟨st, hst, h⟩ := bind_eq_ok.mp h
  obtain ⟨_, -, rfl⟩ := map_eq_ok.mp hst
  split at h
  · cases h
  · rename_i as next ht
    obtain ⟨z, hz, h⟩ := bind_eq_ok.mp h
    exact ⟨as, next, z, ht, hz, h⟩

theorem state_of_tbe {t : State} (h : x.ctrl.tbeState x.address = some t) : x.state = t := by
  obtain ⟨t', ht, rfl⟩ := Option.map_eq_some_iff.mp h
  simp [state, tbe, ht]

theorem state_of_entry {p : AccessPermission} (no_tbe : x.ctrl.tbeState x.address = none)
    (he : x.entry = some side) (h : x.ctrl.shape side x.address = some (st, p)) : x.state = st := by
  obtain ⟨e, hl, hc⟩ := Option.map_eq_some_iff.mp h
  have htbe : x.ctrl.tbes x.address = none := by simpa [Controller.tbeState] using no_tbe
  simp only [Entry.coherence, Prod.mk.injEq] at hc
  simp [state, tbe, htbe, cacheEntry, he, hl, hc.1]

end Ctx

/-- The invariant of the coherence state of a controller. -/
structure Controller.Coherent (c : Controller) : Prop where
  oneCache : ∀ a, c.shape .dcache a = none ∨ c.shape .icache a = none
  entry : ∀ side a st p, c.shape side a = some (st, p) → st ≠ .NP ∧ p = st.toPermission
  agrees : ∀ a st p t, c.shape .dcache a = some (st, p) → c.tbeState a = some t → t = st
  tbe : ∀ a t, c.tbeState a = some t → t.transient

namespace Ctx

variable {cfg : Config} {x y : Ctx} {event : Event}

/-- Entries without a state come from `NP` alone, and only if nothing is
allocated. -/
theorem row_absent (h : transition st event = some (as, next)) (hn : next = .NP) :
    st = .NP ∧ ∀ a ∈ as, allocates a = false :=
  transition_row (P := fun st _ as next => next = .NP → st = .NP ∧ ∀ a ∈ as, allocates a = false)
    (by decide +kernel) h hn

/-- A TBE is allocated on the way to a transient state, and deallocated on the
way out of the transient states. -/
theorem row_tbe (h : transition st event = some (as, next)) :
    (.iAllocateTBE ∈ as → next.transient) ∧
      (st.transient → ¬ next.transient → .sDeallocateTBE ∈ as) :=
  transition_row (P := fun st _ as next => (.iAllocateTBE ∈ as → next.transient) ∧
    (st.transient → ¬ next.transient → .sDeallocateTBE ∈ as)) (by decide +kernel) h

theorem row_bcReceive (h : transition st .BC_RECEIVE = some (as, next)) :
    next = st ∧ as = [.hxLoadHit, .oPopIncomingResponseQueue, .kdWakeUpDependents] :=
  transition_row (P := fun st ev as next => ev = .BC_RECEIVE → next = st ∧
    as = [.hxLoadHit, .oPopIncomingResponseQueue, .kdWakeUpDependents]) (by decide +kernel) h rfl

/-- The TBE a line has after a transition that allocates none was there before. -/
theorem performAll_tbe_before (hi : .iAllocateTBE ∉ as) (h : x.performAll cfg as = .ok y)
    {t : State} (ht : y.ctrl.tbeState y.address = some t) :
    ∃ t₀, x.ctrl.tbeState x.address = some t₀ := by
  apply Option.ne_none_iff_exists'.mp
  intro absent
  have gone := run_keeps (P := fun x : Ctx => x.ctrl.tbeState x.address = none)
    (fun a ha _ _ absent hy => perform_no_tbe (fun e => hi (e ▸ ha)) absent hy) h absent
  rw [gone] at ht
  cases ht

theorem performAll_tbe_kept (plain : Plain x) (hi : .iAllocateTBE ∉ as)
    (h : x.performAll cfg as = .ok y) {t : State} (ht : y.ctrl.tbeState y.address = some t) :
    .sDeallocateTBE ∉ as := by
  intro hs
  have gone := run_establishes (P := fun x : Ctx => x.ctrl.tbeState x.address = none) (Q := Plain)
    hs (fun x y plain hy => ?_)
    (fun a ha _ _ absent hy => perform_no_tbe (fun e => hi (e ▸ ha)) absent hy)
    (fun _ _ x y plain hy => plain.nearby (perform_nearby hy)) h plain
  · rw [gone] at ht
    cases ht
  · obtain ⟨⟨m, hm, hd⟩, -⟩ | rfl := sDeallocateTBE_ok hy
    · rw [plain m hm] at hd
      cases hd
    · exact (tbeState_setTBE x none x.address).trans (if_pos rfl)

/-- A line in state `NP` has no entry. -/
theorem absent_of_state (inv : x.ctrl.Coherent) (h : x.state = .NP) (entry : x.entry = some side) :
    x.ctrl.shape side x.address = none := by
  by_contra hne
  obtain ⟨⟨st, p⟩, hs⟩ := Option.ne_none_iff_exists'.mp hne
  cases ht : x.ctrl.tbeState x.address with
  | some t =>
    have busy := inv.tbe _ t ht
    rw [← state_of_tbe ht, h] at busy
    cases busy
  | none => exact (inv.entry _ _ _ _ hs).1 (state_of_entry ht entry hs ▸ h)

/-- Every transition keeps the invariant. -/
theorem doTransition_coherent (inv : x.ctrl.Coherent) (aim : Aimed x)
    (plain : Plain x ∨ event = .BC_RECEIVE) (h : x.doTransition cfg event = .ok y) :
    y.ctrl.Coherent := by
  obtain ⟨as, next, z, row, hz, hy⟩ := doTransition_ok h
  have near := performAll_nearby hz
  have aimz : Aimed z := run_keeps (P := Aimed) (fun _ _ _ _ aim hw => perform_aimed aim hw) hz aim
  have shape := shape_setState hy
  have tbe := tbeState_setState hy
  -- off the line of the transition nothing has changed
  have away (b : Addr) (hb : b ≠ x.address) :
      (∀ side, y.ctrl.shape side b = x.ctrl.shape side b) ∧
        y.ctrl.tbeState b = x.ctrl.tbeState b := by
    have hbz : b ≠ z.address := near.address ▸ hb
    exact ⟨fun side => by simp [shape, hbz, near.shape side b hb],
      by simp [tbe, hbz, near.tbe b hb]⟩
  -- a TBE that is left on the line is in the next state, which is transient
  have line_tbe (t : State) (ht : y.ctrl.tbeState x.address = some t) : t = next ∧ next.transient := by
    rw [tbe, if_pos near.address.symm] at ht
    obtain ⟨t', ht', rfl⟩ := Option.map_eq_some_iff.mp ht
    rw [← near.address] at ht'
    refine ⟨rfl, ?_⟩
    by_contra hn
    have hi : .iAllocateTBE ∉ as := fun hi => hn ((row_tbe row).1 hi)
    obtain ⟨t₀, ht₀⟩ := performAll_tbe_before hi hz ht'
    have busy : x.state.transient := state_of_tbe ht₀ ▸ inv.tbe _ _ ht₀
    obtain plain | rfl := plain
    · exact performAll_tbe_kept plain hi hz ht' ((row_tbe row).2 busy hn)
    · exact hn ((row_bcReceive row).1 ▸ busy)
  -- an entry that is left was there before or has been given the next state
  have line_entry (side : CacheSide) (st : State) (p : AccessPermission)
      (hs : y.ctrl.shape side x.address = some (st, p)) : st ≠ .NP ∧ p = st.toPermission := by
    have markedz : Marked z := run_keeps (P := Marked)
      (fun _ _ _ _ marked hw => perform_marked marked hw) hz (fun side => inv.entry side x.address)
    rw [shape] at hs
    split at hs
    · rename_i hline
      obtain ⟨q, hq, he⟩ := Option.map_eq_some_iff.mp hs
      cases he
      refine ⟨fun hn => ?_, rfl⟩
      obtain ⟨hst, none_new⟩ := row_absent row hn
      have pointer : z.entry = x.entry ∨ z.entry = none :=
        run_keeps (P := fun z : Ctx => z.entry = x.entry ∨ z.entry = none)
          (fun a ha _ _ before hw => (perform_entry (none_new a ha) hw).elim
            (fun e => by rw [e]; exact before) .inr) hz (.inl rfl)
      have entry : x.entry = some side := by
        obtain e | e := pointer
        · exact e ▸ hline.1
        · rw [e] at hline
          cases hline.1
      have gone := run_keeps (P := fun x : Ctx => x.ctrl.shape side x.address = none)
        (fun a ha _ _ absent hw => perform_absent (none_new a ha) absent hw) hz
        (absent_of_state inv hst entry)
      rw [near.address, hq] at gone
      cases gone
    · exact markedz side st p (near.address ▸ hs)
  -- an entry that is left in the data cache is in the next state
  have line_dcache (st : State) (p : AccessPermission)
      (hd : y.ctrl.shape .dcache x.address = some (st, p)) : st = next := by
    have present : (z.ctrl.shape .dcache z.address).isSome := by
      by_contra hn
      rw [Option.not_isSome_iff_eq_none] at hn
      rw [← near.address, shape, hn] at hd
      simp at hd
    rw [shape, if_pos ⟨aimz.mp present, near.address.symm⟩] at hd
    obtain ⟨q, -, hq⟩ := Option.map_eq_some_iff.mp hd
    cases hq
    rfl
  refine ⟨fun a => ?_, fun side a st p hs => ?_, fun a st p t hd ht => ?_, fun a t ht => ?_⟩
  · by_cases ha : a = x.address
    · subst ha
      have one := (setState_ok hy).1
      rw [near.address] at one
      exact one.imp (fun hn => by simp [shape, hn]) (fun hn => by simp [shape, hn])
    · rw [(away a ha).1, (away a ha).1]
      exact inv.oneCache a
  · by_cases ha : a = x.address
    · subst ha
      exact line_entry side st p hs
    · rw [(away a ha).1] at hs
      exact inv.entry side a st p hs
  · by_cases ha : a = x.address
    · subst ha
      exact (line_tbe t ht).1.trans (line_dcache st p hd).symm
    · rw [(away a ha).1] at hd
      rw [(away a ha).2] at ht
      exact inv.agrees a st p t hd ht
  · by_cases ha : a = x.address
    · subst ha
      obtain ⟨rfl, busy⟩ := line_tbe t ht
      exact busy
    · rw [(away a ha).2] at ht
      exact inv.tbe a t ht

end Ctx

/-! ### In-ports -/

namespace Controller

variable {cfg : Config} {c c' : Controller} {event : Event} {a : Addr} {entry : Option CacheSide}

theorem Coherent.congr (inv : c.Coherent) (shape : c'.shape = c.shape)
    (tbe : c'.tbeState = c.tbeState) : c'.Coherent :=
  ⟨by rw [shape]; exact inv.oneCache, by rw [shape]; exact inv.entry,
    by rw [shape, tbe]; exact inv.agrees, by rw [tbe]; exact inv.tbe⟩

theorem Coherent.served (inv : c.Coherent) (h : Served c c') : c'.Coherent :=
  inv.congr h.shape h.tbeState

/-- An entry as the in-ports pass it on: of a cache that has the line, or none if
neither has. -/
inductive Points (c : Controller) (a : Addr) : Option CacheSide → Prop
  | here (side : CacheSide) : (c.cache side).isTagPresent a = true → Points c a (some side)
  | nowhere : (∀ side, (c.cache side).isTagPresent a = false) → Points c a none

theorem Points.aimed (inv : c.Coherent) (h : c.Points a entry) (response : Option ResponseMsg)
    (request : Option RequestMsg) : Ctx.Aimed ⟨c, a, entry, response, request⟩ := by
  unfold Ctx.Aimed
  cases h with
  | here side present =>
    rw [Ctx.isTagPresent_eq] at present
    cases side with
    | dcache => simpa using present
    | icache =>
      have absent := (inv.oneCache a).resolve_right (by intro hn; simp [hn] at present)
      simp [absent]
  | nowhere absent =>
    have hd := absent .dcache
    rw [Ctx.isTagPresent_eq] at hd
    simpa using hd

theorem entryIn_eq (c : Controller) (side : CacheSide) (a : Addr) :
    c.entryIn side a = if (c.cache side).isTagPresent a then some side else none := rfl

theorem points_getCacheEntry (c : Controller) (a : Addr) : c.Points a (c.getCacheEntry a) := by
  unfold getCacheEntry
  rw [entryIn_eq, entryIn_eq]
  by_cases hd : (c.cache .dcache).isTagPresent a
  · rw [if_pos hd]
    exact .here .dcache hd
  · rw [if_neg hd, Option.none_or]
    by_cases hi : (c.cache .icache).isTagPresent a
    · rw [if_pos hi]
      exact .here .icache hi
    · rw [if_neg hi]
      refine .nowhere fun side => ?_
      cases side
      · simpa using hi
      · simpa using hd

/-- A duplicate is given the entry of the data cache. -/
theorem aimed_entryIn : Ctx.Aimed ⟨c, a, c.entryIn .dcache a, none, none⟩ := by
  unfold Ctx.Aimed
  rw [entryIn_eq, Ctx.isTagPresent_eq]
  cases h : (c.shape .dcache a).isSome <;> simp

theorem absent_both (hs : ¬ (c.cache side).isTagPresent a = true)
    (ho : ¬ (c.cache side.other).isTagPresent a = true) (side' : CacheSide) :
    (c.cache side').isTagPresent a = false := by
  cases side <;> cases side' <;> first | simpa using hs | simpa [CacheSide.other] using ho

variable {victim : Addr}

/-- What a demand request leads to: its own event, a replacement, or waiting for
a blocked victim. -/
theorem demand_cases {m : RubyRequest} {r : Except Fault Controller}
    (h : c.demand cfg side m victim = some r) :
    (∃ entry, c.Points m.lineAddress entry ∧ r = (mandatoryRequestTypeToEvent m.type).bind
        fun event => c.trigger cfg event m.lineAddress entry) ∨
      (∃ line entry, c.Points line entry ∧ r = c.trigger cfg .L1_Replacement line entry) ∨
      r = .ok { c with mandatoryQueue := c.mandatoryQueue.delayHead } := by
  simp only [demand] at h
  split at h
  · rename_i hp
    exact .inl ⟨_, .here side hp, (Option.some.inj h).symm⟩
  · rename_i hs
    split at h
    · rename_i hp
      exact .inr (.inl ⟨_, _, .here side.other hp, (Option.some.inj h).symm⟩)
    · rename_i ho
      split at h
      · exact .inl ⟨none, .nowhere (absent_both hs ho), (Option.some.inj h).symm⟩
      · split at h
        · rename_i hv
          split at h
          · exact .inr (.inr (Option.some.inj h).symm)
          · have hp := (Bool.and_eq_true_iff.mp hv).1
            exact .inr (.inl ⟨_, _, .here side hp, (Option.some.inj h).symm⟩)
        · cases h

/-- What a prefetch leads to. -/
theorem prefetchInto_cases {m : LineRequest} {r : Except Fault Controller}
    (h : c.prefetchInto cfg side m victim = some r) :
    (∃ entry, c.Points m.lineAddress entry ∧ r = (prefetchRequestTypeToEvent m.type).bind
        fun event => c.trigger cfg event m.lineAddress entry) ∨
      ∃ line entry, c.Points line entry ∧ r = c.trigger cfg .PF_L1_Replacement line entry := by
  simp only [prefetchInto] at h
  split at h
  · rename_i hp
    exact .inl ⟨_, .here side hp, (Option.some.inj h).symm⟩
  · rename_i hs
    split at h
    · rename_i hp
      exact .inl ⟨_, .here side.other hp, (Option.some.inj h).symm⟩
    · rename_i ho
      split at h
      · exact .inl ⟨none, .nowhere (absent_both hs ho), (Option.some.inj h).symm⟩
      · split at h
        · rename_i hv
          have hp := (Bool.and_eq_true_iff.mp hv).1
          exact .inr ⟨_, _, .here side hp, (Option.some.inj h).symm⟩
        · cases h

theorem trigger_coherent (inv : c.Coherent) (aim : Ctx.Aimed ⟨c, a, entry, none, none⟩)
    (h : c.trigger cfg event a entry = .ok c') : c'.Coherent := by
  obtain ⟨y, hy, rfl⟩ := map_eq_ok.mp h
  exact Ctx.doTransition_coherent inv aim (.inl fun _ hm => by cases hm) hy

theorem demand_coherent {m : RubyRequest} (inv : c.Coherent)
    (h : c.demand cfg side m victim = some (.ok c')) : c'.Coherent := by
  obtain ⟨entry, points, hr⟩ | ⟨line, entry, points, hr⟩ | hr := demand_cases h
  · obtain ⟨event, -, ht⟩ := bind_eq_ok.mp hr.symm
    exact trigger_coherent inv (points.aimed inv _ _) ht
  · exact trigger_coherent inv (points.aimed inv _ _) hr.symm
  · cases hr
    exact inv.congr rfl rfl

theorem mandatoryQueueIn_coherent (inv : c.Coherent)
    (h : c.mandatoryQueueIn cfg victim = some (.ok c')) : c'.Coherent := by
  unfold mandatoryQueueIn at h
  split at h
  · cases h
  · split at h
    · exact demand_coherent inv h
    · split at h
      · obtain ⟨ev, -, h⟩ := bind_eq_ok.mp (Option.some.inj h)
        exact trigger_coherent inv aimed_entryIn h
      · exact demand_coherent inv h

theorem prefetchInto_coherent {m : LineRequest} (inv : c.Coherent)
    (h : c.prefetchInto cfg side m victim = some (.ok c')) : c'.Coherent := by
  obtain ⟨entry, points, hr⟩ | ⟨line, entry, points, hr⟩ := prefetchInto_cases h
  · obtain ⟨event, -, ht⟩ := bind_eq_ok.mp hr.symm
    exact trigger_coherent inv (points.aimed inv _ _) ht
  · exact trigger_coherent inv (points.aimed inv _ _) hr.symm

theorem optionalQueueIn_coherent (inv : c.Coherent)
    (h : c.optionalQueueIn cfg victim = some (.ok c')) : c'.Coherent := by
  unfold optionalQueueIn at h
  split at h
  · cases h
  · split at h
    · exact prefetchInto_coherent inv h
    · exact prefetchInto_coherent inv h

variable {y : Ctx} {m : ResponseMsg}

/-- What a response that is handled was handled as. -/
theorem responseL1NetworkIn_ok (h : c.responseL1NetworkIn cfg m = some (.ok y)) :
    ∃ event, responseEvent ⟨c, m.addr, c.getCacheEntry m.addr, some m, none⟩ m = .ok event ∧
      Ctx.doTransition cfg event ⟨c, m.addr, c.getCacheEntry m.addr, some m, none⟩ = .ok y := by
  unfold responseL1NetworkIn at h
  split at h
  · cases h
  · obtain ⟨_, -, h⟩ := bind_eq_ok.mp (Option.some.inj h)
    exact bind_eq_ok.mp h

/-- A duplicate is taken off the network in any case. -/
theorem responseL1NetworkIn_popped (hd : m.isBCDuplicate = true)
    (h : c.responseL1NetworkIn cfg m = some (.ok y)) : y.response = none := by
  obtain ⟨event, he, hy⟩ := responseL1NetworkIn_ok h
  simp only [responseEvent, hd, if_true, Except.ok.injEq] at he
  subst he
  obtain ⟨as, next, z, row, hz, hset⟩ := Ctx.doTransition_ok hy
  have popped : z.response = none := by
    apply run_establishes (P := fun x : Ctx => x.response = none) (Q := fun _ => True)
      (a := .oPopIncomingResponseQueue) (by rw [(Ctx.row_bcReceive row).2]; decide) _ _ _ hz trivial
    · intro x y _ hy
      obtain ⟨_, -, rfl⟩ := map_eq_ok.mp hy
      rfl
    · intro a _ x y absent hy
      exact (Ctx.perform_nearby hy).response.elim (fun e => e.trans absent) id
    · exact fun _ _ _ _ _ _ => trivial
  obtain ⟨-, rfl⟩ := Ctx.setState_ok hset
  unfold Ctx.modifyEntry
  split <;> exact popped

theorem responseL1NetworkIn_coherent (inv : c.Coherent)
    (h : c.responseL1NetworkIn cfg m = some (.ok y)) : y.ctrl.Coherent := by
  obtain ⟨event, he, hy⟩ := responseL1NetworkIn_ok h
  refine Ctx.doTransition_coherent inv ((points_getCacheEntry c m.addr).aimed inv _ _) ?_ hy
  cases hd : m.isBCDuplicate with
  | true =>
    simp only [responseEvent, hd, if_true, Except.ok.injEq] at he
    exact .inr he.symm
  | false =>
    refine .inl fun m' hm' => ?_
    cases hm'
    exact hd

theorem requestL1NetworkIn_ok {m : RequestMsg} (h : c.requestL1NetworkIn cfg m = some (.ok y)) :
    ∃ event, requestEvent m.type = .ok event ∧
      Ctx.doTransition cfg event ⟨c, m.addr, c.getCacheEntry m.addr, none, some m⟩ = .ok y := by
  unfold requestL1NetworkIn at h
  split at h
  · cases h
  · obtain ⟨_, -, h⟩ := bind_eq_ok.mp (Option.some.inj h)
    exact bind_eq_ok.mp h

theorem requestL1NetworkIn_coherent {m : RequestMsg} (inv : c.Coherent)
    (h : c.requestL1NetworkIn cfg m = some (.ok y)) : y.ctrl.Coherent := by
  obtain ⟨event, -, hy⟩ := requestL1NetworkIn_ok h
  exact Ctx.doTransition_coherent inv ((points_getCacheEntry c m.addr).aimed inv _ _)
    (.inl fun _ hm => by cases hm) hy

theorem makeRequest_served {pkt : Packet} {status : RequestStatus}
    (h : c.makeRequest cfg pkt = .ok (status, c')) : Served c c' := by
  obtain ⟨-, rfl⟩ | ⟨-, primary, secondary, -, ⟨-, rfl⟩ | ⟨-, hi⟩⟩ := makeRequest_cases h
  · exact .refl _
  · exact insertRequest_served
  · exact insertRequest_served.trans (issueRequest_ok hi).1

end Controller

/-! ### Runs -/

namespace System

variable {cfg : Config} {s t : System cfg}

theorem l1_set (s : System cfg) (i j : Fin cfg.numL1) (c : Controller) :
    (s.set i c).l1 j = if j = i then c else s.l1 j := by
  by_cases h : j = i
  · subst h
    simp [set]
  · simp [set, h]

variable {i : Fin cfg.numL1}

theorem atL1_ok {r : Option (Except Fault Controller)} (h : s.atL1 i r = some (.ok t)) :
    ∃ c, r = some (.ok c) ∧ t = s.set i c := by
  obtain ⟨r', rfl, hr⟩ := Option.map_eq_some_iff.mp h
  obtain ⟨c, rfl, rfl⟩ := map_eq_ok.mp hr
  exact ⟨c, rfl, rfl⟩

theorem map_ctrl_ok {r : Option (Except Fault Ctx)} {c : Controller}
    (h : (r.map fun r => r.map Ctx.ctrl) = some (.ok c)) : ∃ y, r = some (.ok y) ∧ c = y.ctrl := by
  obtain ⟨r', rfl, hr⟩ := Option.map_eq_some_iff.mp h
  obtain ⟨y, rfl, rfl⟩ := map_eq_ok.mp hr
  exact ⟨y, rfl, rfl⟩

theorem makeRequest_ok {pkt : Packet} (h : s.makeRequest i pkt = some (.ok t)) :
    pkt.requestorId = i ∧ pkt.id = s.packets ∧ ∃ status c,
      (s.l1 i).makeRequest cfg pkt = .ok (status, c) ∧ t = if status = .Issued then
        { s.set i c with packets := s.packets + 1, accepted := (i, pkt) :: s.accepted }
      else s.set i c := by
  unfold makeRequest at h
  split at h
  · rename_i hp
    obtain ⟨⟨status, c⟩, hc, rfl⟩ := map_eq_ok.mp (Option.some.inj h)
    exact ⟨hp.1, hp.2, status, c, hc, rfl⟩
  · cases h

theorem deliver_ok {j : Fin cfg.numL1} {k : Nat} (h : s.deliver i k j = some (.ok t)) :
    ∃ m x, (s.l1 i).responseL1NetworkOut[k]? = some m ∧ m.isBCDuplicate ∧
      ⟨.L1Cache, j⟩ ∈ m.destination ∧
      ((s.take i k).l1 j).responseL1NetworkIn cfg m = some (.ok x) ∧
      t = ((s.take i k).set j x.ctrl).putBack i x.response := by
  unfold deliver at h
  split at h
  · cases h
  · rename_i m hm
    split at h
    · rename_i hd
      obtain ⟨r, hr, h⟩ := Option.map_eq_some_iff.mp h
      obtain ⟨x, rfl, rfl⟩ := map_eq_ok.mp h
      exact ⟨m, x, hm, hd.1, hd.2, hr, rfl⟩
    · cases h

/-- What every controller keeps in each of its steps, and does not lose when
responses are taken out of the network, all controllers keep. -/
theorem step_keeps {P : Fin cfg.numL1 → Controller → Prop} {a : Step cfg}
    (makes : ∀ i c pkt status c', P i c → c.makeRequest cfg pkt = .ok (status, c') → P i c')
    (mandatory : ∀ i c victim c', P i c → c.mandatoryQueueIn cfg victim = some (.ok c') → P i c')
    (prefetch : ∀ i c address type, P i c → P i (c.enqueuePrefetch address type))
    (optional : ∀ i c victim c', P i c → c.optionalQueueIn cfg victim = some (.ok c') → P i c')
    (request : ∀ i c m y, P i c → c.requestL1NetworkIn cfg m = some (.ok y) → P i y.ctrl)
    (response : ∀ i c m y, P i c → c.responseL1NetworkIn cfg m = some (.ok y) → P i y.ctrl)
    (network : ∀ i c out, P i c → out ⊆ c.responseL1NetworkOut →
      P i { c with responseL1NetworkOut := out })
    (inv : ∀ i, P i (s.l1 i)) (h : step cfg s a = some (.ok t)) (j : Fin cfg.numL1) :
    P j (t.l1 j) := by
  have put {s : System cfg} (inv : ∀ i, P i (s.l1 i)) {i : Fin cfg.numL1} {c : Controller}
      (hc : P i c) (j : Fin cfg.numL1) : P j ((s.set i c).l1 j) := by
    rw [l1_set]
    split
    · rename_i hj
      exact hj ▸ hc
    · exact inv j
  cases a with
  | makeRequest i pkt =>
    obtain ⟨-, -, status, c, hc, rfl⟩ := makeRequest_ok h
    have := put (i := i) inv (makes _ _ _ _ _ (inv i) hc) j
    split
    · exact this
    · exact this
  | mandatoryQueue i victim =>
    obtain ⟨c, hc, rfl⟩ := atL1_ok h
    exact put inv (mandatory _ _ _ _ (inv i) hc) j
  | enqueuePrefetch i address type =>
    simp only [step] at h
    split at h
    · obtain ⟨c, hc, rfl⟩ := atL1_ok h
      cases hc
      exact put inv (prefetch _ _ _ _ (inv i)) j
    · cases h
  | optionalQueue i victim =>
    obtain ⟨c, hc, rfl⟩ := atL1_ok h
    exact put inv (optional _ _ _ _ (inv i) hc) j
  | request i m =>
    obtain ⟨c, hc, rfl⟩ := atL1_ok h
    obtain ⟨y, hy, rfl⟩ := map_ctrl_ok hc
    exact put inv (request _ _ _ _ (inv i) hy) j
  | response i m =>
    simp only [step] at h
    split at h
    · cases h
    · obtain ⟨c, hc, rfl⟩ := atL1_ok h
      obtain ⟨y, hy, rfl⟩ := map_ctrl_ok hc
      exact put inv (response _ _ _ _ (inv i) hy) j
  | deliver i k j' =>
    obtain ⟨m, x, -, hd, -, hx, rfl⟩ := deliver_ok h
    have taken : ∀ i', P i' ((s.take i k).l1 i') :=
      put inv (network _ _ _ (inv i) (List.eraseIdx_subset))
    have handled := put (i := j') taken (response _ _ _ _ (taken j') hx)
    rw [Controller.responseL1NetworkIn_popped hd hx]
    exact put handled (network _ _ _ (handled i) (by simp)) j

/-- Every controller is coherent in every state of every run. -/
theorem coherent_of_reaches {allowed : System cfg → Step cfg → Prop}
    (h : (machine cfg).Reaches allowed s) (i : Fin cfg.numL1) : (s.l1 i).Coherent := by
  refine h.invariant (I := fun s => ∀ i, (s.l1 i).Coherent) (fun i => ?_) ?_ i
  · refine ⟨fun _ => .inl rfl, fun side _ _ _ h => ?_, fun _ _ _ _ h => (nomatch h),
      fun _ _ h => (nomatch h)⟩
    cases side <;> cases h
  · intro s a t inv _ hstep
    exact step_keeps (P := fun _ c => c.Coherent)
      (fun _ _ _ _ _ inv h => inv.served (Controller.makeRequest_served h))
      (fun _ _ _ _ inv h => Controller.mandatoryQueueIn_coherent inv h)
      (fun _ _ _ _ inv => inv.congr rfl rfl)
      (fun _ _ _ _ inv h => Controller.optionalQueueIn_coherent inv h)
      (fun _ _ _ _ inv h => Controller.requestL1NetworkIn_coherent inv h)
      (fun _ _ _ _ inv h => Controller.responseL1NetworkIn_coherent inv h)
      (fun _ _ _ inv _ => inv.congr rfl rfl) inv hstep

end System

end Ruby

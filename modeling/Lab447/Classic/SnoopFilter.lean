import Lab447.Lib.Script
import Lab447.Classic.Packet
import Mathlib.Data.Finmap

/-!
The snoop filter of a crossbar, `gem5/src/mem/snoop_filter.cc`. A mask is the set
of the ports whose bits it has, and a port that does not snoop has no bit.
Latencies and statistics are left out.
-/

namespace Classic

/-- A crossbar and its snoop filter. `takesCopies` holds for the CPU-side ports
whose peer has `generator` or `dcache` in its name. -/
structure XBarConfig where
  linesize : Nat
  maxEntryCount : Nat
  numCpuSidePorts : Nat
  isSnooping : PortID → Bool
  takesCopies : PortID → Bool
  pointOfCoherency : Bool
  pointOfUnification : Bool
  maxOutstandingSnoopCheck : Nat
  maxRoutingTableSizeCheck : Nat

/-- The panics, in the words of their messages, and all assertions as one. -/
inductive XBarFault where
  | doubleRequest | needToHoldTheValue | isNotAHolder | exceededCapacity | doesNotHaveTheLine
  | missingTheOriginalRequest | missingRequestBit | outstandingSnoopExceeded
  | routingTableExceeds | assertion
  deriving DecidableEq

structure SnoopItem where
  requested : Finset PortID := ∅
  holder : Finset PortID := ∅
  deriving DecidableEq

/-- `reqLookupResult` is the line that the last lookup found or made, with the
item as it was before; it is `none` when the iterator is at the end. -/
structure SnoopFilter where
  cachedLocations : Finmap fun _ : Nat => SnoopItem
  reqLookupResult : Option (Nat × SnoopItem)

variable (cfg : XBarConfig)

/-- The key of a line: its address, with `LineSecure` for a secure one. -/
def lineKey (pkt : Packet) : Nat :=
  pkt.getBlockAddr cfg.linesize ||| (if pkt.isSecure then 1 else 0)

def portToMask (port : PortID) : Finset PortID := if cfg.isSnooping port then {port} else ∅

def maskToPortList (mask : Finset PortID) : List PortID :=
  (List.range cfg.numCpuSidePorts).filter fun p => (mask ∩ portToMask cfg p).Nonempty

/-- The condition under which responses to a port change the filter. -/
def tracked (pkt : Packet) (port : PortID) : Bool := !pkt.req.isUncacheable && cfg.isSnooping port

namespace SnoopFilter

def empty : SnoopFilter := ⟨∅, none⟩

def set (f : SnoopFilter) (key : Nat) (item : SnoopItem) : SnoopFilter :=
  { f with cachedLocations := f.cachedLocations.insert key item }

def eraseIfNullEntry (f : SnoopFilter) (key : Nat) : SnoopFilter :=
  match f.cachedLocations.lookup key with
  | some item =>
    if item.requested ∪ item.holder = ∅ then
      { f with cachedLocations := f.cachedLocations.erase key }
    else f
  | none => f

/-- What `lookupRequest` does to the item of a line when it allocates. -/
def markRequest (item : SnoopItem) (cpkt : Packet) (reqPort : Finset PortID) :
    Except XBarFault SnoopItem :=
  if cpkt.cmd.needsResponse then
    if !cpkt.flags.cacheResponding then
      if (item.requested ∩ reqPort).Nonempty then .error .doubleRequest
      else .ok { item with requested := item.requested ∪ reqPort }
    else if item.holder ∩ reqPort = ∅ then .error .needToHoldTheValue
    else .ok item
  else if !cpkt.cmd.isEviction then .error .assertion
  else if item.holder ∩ reqPort = ∅ then .error .isNotAHolder
  else if !cpkt.flags.blockCached then .ok { item with holder := item.holder \ reqPort }
  else .ok item

/-- Returns the ports to snoop. -/
def lookupRequest (f : SnoopFilter) (cpkt : Packet) (port : PortID) :
    Except XBarFault (List PortID × SnoopFilter) :=
  let allocate := !cpkt.req.isUncacheable && cfg.isSnooping port && cpkt.cmd.fromCache
  let lineAddr := lineKey cfg cpkt
  let reqPort := portToMask cfg port
  let found := f.cachedLocations.lookup lineAddr
  if found.isNone && !allocate then .ok ([], { f with reqLookupResult := none })
  else
    let item := found.getD {}
    let dests := maskToPortList cfg ((item.holder ∪ item.requested) \ reqPort)
    (if allocate then markRequest item cpkt reqPort else .ok item).map fun marked =>
      (dests, { f.set lineAddr marked with reqLookupResult := some (lineAddr, item) })

def finishRequest (f : SnoopFilter) (willRetry : Bool) (cpkt : Packet) :
    Except XBarFault SnoopFilter :=
  match f.reqLookupResult with
  | none => .ok f
  | some (key, retryItem) =>
    if key ≠ lineKey cfg cpkt then .error .assertion
    else .ok ((if willRetry then f.set key retryItem else f).eraseIfNullEntry key)

/-- Returns the ports to snoop. -/
def lookupSnoop (f : SnoopFilter) (cpkt : Packet) : Except XBarFault (List PortID × SnoopFilter) :=
  let lineAddr := lineKey cfg cpkt
  if !cpkt.cmd.isRequest then .error .assertion
  else match f.cachedLocations.lookup lineAddr with
  | none =>
    if cfg.maxEntryCount ≤ f.cachedLocations.keys.card then .error .exceededCapacity
    else .ok ([], f)
  | some item =>
    if !(cpkt.cmd.isWriteback || cpkt.req.isUncacheable ||
        cpkt.cmd.isInvalidate == cpkt.cmd.needsWritable || cpkt.req.isCacheMaintenance) then
      .error .assertion
    else
      let dests := maskToPortList cfg (item.holder ∪ item.requested)
      if cpkt.cmd.isInvalidate && decide (item.requested = ∅) then
        .ok (dests, (f.set lineAddr { item with holder := ∅ }).eraseIfNullEntry lineAddr)
      else .ok (dests, f)

def updateSnoopResponse (f : SnoopFilter) (cpkt : Packet) (rspPort reqPort : PortID) :
    Except XBarFault SnoopFilter :=
  let lineAddr := lineKey cfg cpkt
  let rspMask := portToMask cfg rspPort
  let reqMask := portToMask cfg reqPort
  let item := (f.cachedLocations.lookup lineAddr).getD {}
  if !cpkt.cmd.isResponse || !cpkt.flags.cacheResponding then .error .assertion
  else if !tracked cfg cpkt reqPort then .ok f
  else if item.holder ∩ rspMask = ∅ then .error .doesNotHaveTheLine
  else if item.requested ∩ reqMask = ∅ then .error .missingTheOriginalRequest
  else if cpkt.cmd.isWriteback then .error .assertion
  else
    let holder := if cpkt.flags.hasSharers then item.holder else ∅
    .ok (f.set lineAddr ⟨item.requested \ reqMask, holder ∪ reqMask⟩)

def updateSnoopForward (f : SnoopFilter) (cpkt : Packet) : Except XBarFault SnoopFilter :=
  let lineAddr := lineKey cfg cpkt
  if !cpkt.cmd.isResponse || !cpkt.flags.cacheResponding then .error .assertion
  else match f.cachedLocations.lookup lineAddr with
  | none => .ok f
  | some item =>
    if cpkt.flags.hasSharers then .ok f
    else .ok ((f.set lineAddr { item with holder := ∅ }).eraseIfNullEntry lineAddr)

def updateResponse (f : SnoopFilter) (cpkt : Packet) (port : PortID) :
    Except XBarFault SnoopFilter :=
  let lineAddr := lineKey cfg cpkt
  let responseMask := portToMask cfg port
  if !cpkt.cmd.isResponse then .error .assertion
  else if !tracked cfg cpkt port then .ok f
  else match f.cachedLocations.lookup lineAddr with
  | none => .ok f
  | some item =>
    if item.requested ∩ responseMask = ∅ ∧ ¬ cpkt.req.isBroadcast then .error .missingRequestBit
    else
      let requested := item.requested \ responseMask
      if cpkt.req.isCacheMaintenance then
        let holder := if cpkt.cmd.isInvalidate then item.holder \ responseMask else item.holder
        .ok ((f.set lineAddr ⟨requested, holder⟩).eraseIfNullEntry lineAddr)
      else .ok (f.set lineAddr ⟨requested, item.holder ∪ responseMask⟩)

/-! ### The requested mask of a line -/

/-- The requested mask of a line; a line without an item has an empty one. -/
def requested (f : SnoopFilter) (key : Nat) : Finset PortID :=
  ((f.cachedLocations.lookup key).map SnoopItem.requested).getD ∅

variable {cfg} {f g : SnoopFilter} {cpkt : Packet} {port : PortID} {key : Nat}

theorem requested_set (f : SnoopFilter) (key : Nat) (item : SnoopItem) (k : Nat) :
    (f.set key item).requested k = if k = key then item.requested else f.requested k := by
  unfold requested set
  by_cases h : k = key
  · subst h
    simp
  · simp [h]

theorem requested_set_holder {item : SnoopItem} {holder : Finset PortID}
    (h : f.cachedLocations.lookup key = some item) (k : Nat) :
    (f.set key { item with holder }).requested k = f.requested k := by
  rw [requested_set]
  split
  · rename_i hk
    subst hk
    simp [requested, h]
  · rfl

theorem requested_getD (f : SnoopFilter) (key : Nat) :
    ((f.cachedLocations.lookup key).getD {}).requested = f.requested key := by
  unfold requested
  cases f.cachedLocations.lookup key <;> rfl

@[simp] theorem requested_eraseIfNullEntry (f : SnoopFilter) (key k : Nat) :
    (f.eraseIfNullEntry key).requested k = f.requested k := by
  unfold eraseIfNullEntry
  split
  · rename_i item hitem
    split
    · rename_i null
      have none_requested := (Finset.union_eq_empty.mp null).1
      by_cases h : k = key
      · subst h
        simp [requested, hitem, none_requested]
      · simp [requested, h]
    · rfl
  · rfl

theorem portToMask_of_isSnooping (h : cfg.isSnooping port = true) : portToMask cfg port = {port} := by
  simp [portToMask, h]

/-- Whether `lookupRequest` puts the port into the requested mask. -/
def marks (cfg : XBarConfig) (cpkt : Packet) (port : PortID) : Bool :=
  tracked cfg cpkt port && cpkt.cmd.fromCache && cpkt.cmd.needsResponse &&
    !cpkt.flags.cacheResponding

/-- The failures that are not about the requested masks. -/
def Untracked (fault : XBarFault) : Prop :=
  fault ≠ .doubleRequest ∧ fault ≠ .missingTheOriginalRequest ∧ fault ≠ .missingRequestBit

instance (fault : XBarFault) : Decidable (Untracked fault) := inferInstanceAs (Decidable (_ ∧ _))

/-- The port has left the requested mask of the packet's line, and nothing else
has changed in the requested masks. -/
def Answered (cfg : XBarConfig) (f : SnoopFilter) (cpkt : Packet) (port : PortID)
    (g : SnoopFilter) : Prop :=
  ∀ k, g.requested k =
    if tracked cfg cpkt port ∧ k = lineKey cfg cpkt then (f.requested k).erase port
    else f.requested k

/-- The port has entered the requested mask of the packet's line, if the request
is one to be marked and not to be sent again. -/
def Requested (cfg : XBarConfig) (f : SnoopFilter) (willRetry : Bool) (cpkt : Packet)
    (port : PortID) (g : SnoopFilter) : Prop :=
  ∀ k, g.requested k =
    if willRetry = false ∧ marks cfg cpkt port ∧ k = lineKey cfg cpkt then
      insert port (f.requested k)
    else f.requested k

theorem ends_error {X : Type} {P : X → Prop} {fault : XBarFault}
    (h : Untracked fault := by decide) :
    Script.Ends Untracked P (.error fault) := h

theorem markRequest_ends {item : SnoopItem} {mask : Finset PortID}
    (fresh : cpkt.cmd.needsResponse = true → cpkt.flags.cacheResponding = false →
      item.requested ∩ mask = ∅) :
    Script.Ends Untracked (fun marked => marked.requested =
      if cpkt.cmd.needsResponse ∧ cpkt.flags.cacheResponding = false then item.requested ∪ mask
      else item.requested) (markRequest item cpkt mask) := by
  unfold markRequest
  cases hn : cpkt.cmd.needsResponse with
  | true =>
    cases hc : cpkt.flags.cacheResponding with
    | true =>
      simp only [Bool.not_true, if_true, Bool.false_eq_true, if_false, reduceCtorEq, and_false]
      split
      · exact ends_error
      · rfl
    | false =>
      have fresh := fresh hn hc
      simp [fresh, Script.Ends]
  | false =>
    simp only [Bool.false_eq_true, if_false, false_and]
    split
    · exact ends_error
    split
    · exact ends_error
    split
    · rfl
    · rfl

/-- What a lookup leaves behind: the item of the line with the request marked on
it, and the item as it was. -/
structure Looked (cfg : XBarConfig) (f : SnoopFilter) (cpkt : Packet) (port : PortID)
    (g : SnoopFilter) : Prop where
  marked : Requested cfg f false cpkt port g
  kept : ∀ key item, g.reqLookupResult = some (key, item) →
    key = lineKey cfg cpkt ∧ item.requested = f.requested key
  skipped : g.reqLookupResult = none → marks cfg cpkt port = false

theorem lookupRequest_ends
    (fresh : marks cfg cpkt port = true → port ∉ f.requested (lineKey cfg cpkt)) :
    Script.Ends Untracked (fun r => Looked cfg f cpkt port r.2) (f.lookupRequest cfg cpkt port) := by
  have marks_eq : marks cfg cpkt port =
      ((!cpkt.req.isUncacheable && cfg.isSnooping port && cpkt.cmd.fromCache) &&
        cpkt.cmd.needsResponse && !cpkt.flags.cacheResponding) := rfl
  unfold lookupRequest
  simp only []
  generalize ha : (!cpkt.req.isUncacheable && cfg.isSnooping port && cpkt.cmd.fromCache) = allocate
    at marks_eq ⊢
  split
  · rename_i skipped
    simp only [Bool.and_eq_true, Bool.not_eq_true'] at skipped
    have unmarked : marks cfg cpkt port = false := by rw [marks_eq, skipped.2]; rfl
    refine ⟨fun k => ?_, nofun, fun _ => unmarked⟩
    simp [unmarked, requested]
  · have item_requested := requested_getD f (lineKey cfg cpkt)
    generalize (f.cachedLocations.lookup (lineKey cfg cpkt)).getD {} = item at item_requested ⊢
    apply Script.Ends.map (P := fun marked : SnoopItem => marked.requested =
      if marks cfg cpkt port then insert port item.requested else item.requested)
    · cases allocate with
      | false =>
        rw [marks_eq]
        exact rfl
      | true =>
        have mask : portToMask cfg port = {port} := by
          apply portToMask_of_isSnooping
          simp only [Bool.and_eq_true] at ha
          exact ha.1.2
        apply (markRequest_ends fun hn hc => ?_).imp
        · intro marked hm
          rw [hm, mask, Finset.union_comm, ← Finset.insert_eq, marks_eq]
          simp
        · have new := fresh (by rw [marks_eq, hn, hc]; rfl)
          rw [mask, item_requested]
          exact Finset.inter_singleton_of_notMem new
    · intro marked hm
      refine ⟨fun k => ?_, ?_, nofun⟩
      · show ((f.set (lineKey cfg cpkt) marked).requested k) = _
        rw [requested_set]
        by_cases hk : k = lineKey cfg cpkt
        · subst hk
          simp [hm, item_requested]
        · simp [hk]
      · rintro key old ⟨⟩
        exact ⟨rfl, item_requested⟩

/-- A lookup and the call that ends it, for a packet of the same line. -/
theorem Looked.finishRequest_ends {willRetry : Bool} {sent : Packet}
    (looked : Looked cfg f cpkt port g) (same : lineKey cfg sent = lineKey cfg cpkt) :
    Script.Ends Untracked (Requested cfg f willRetry cpkt port)
      (g.finishRequest cfg willRetry sent) := by
  unfold finishRequest
  split
  · rename_i hnone
    intro k
    simp [looked.marked k, looked.skipped hnone]
  · rename_i key item hsome
    obtain ⟨rfl, hitem⟩ := looked.kept key item hsome
    simp only [same, ne_eq, not_true_eq_false, if_false]
    intro k
    rw [requested_eraseIfNullEntry]
    cases willRetry with
    | false => exact looked.marked k
    | true =>
      simp only [if_true, requested_set, looked.marked k, hitem]
      by_cases hk : k = lineKey cfg cpkt
      · simp [hk]
      · simp [hk]

theorem lookupSnoop_ends :
    Script.Ends Untracked (fun r => r.2.requested = f.requested) (f.lookupSnoop cfg cpkt) := by
  unfold lookupSnoop
  simp only []
  split
  · exact ends_error
  split
  · split
    · exact ends_error
    · rfl
  rename_i item hitem
  split
  · exact ends_error
  split
  · funext k
    rw [requested_eraseIfNullEntry]
    exact requested_set_holder hitem k
  · rfl

theorem updateSnoopForward_ends :
    Script.Ends Untracked (fun g => g.requested = f.requested) (f.updateSnoopForward cfg cpkt) := by
  unfold updateSnoopForward
  simp only []
  split
  · exact ends_error
  split
  · rfl
  rename_i item hitem
  split
  · rfl
  · funext k
    rw [requested_eraseIfNullEntry]
    exact requested_set_holder hitem k

theorem mask_of_tracked (ht : tracked cfg cpkt port = true) : portToMask cfg port = {port} := by
  simp only [tracked, Bool.and_eq_true] at ht
  exact portToMask_of_isSnooping ht.2

theorem answered_set {item : SnoopItem} (ht : tracked cfg cpkt port = true)
    (hitem : item.requested = (f.requested (lineKey cfg cpkt)) \ portToMask cfg port) :
    Answered cfg f cpkt port (f.set (lineKey cfg cpkt) item) := by
  intro k
  rw [requested_set]
  by_cases hk : k = lineKey cfg cpkt
  · subst hk
    simp [ht, hitem, mask_of_tracked ht, Finset.sdiff_singleton_eq_erase]
  · simp [hk]

theorem updateSnoopResponse_ends {rspPort : PortID}
    (known : tracked cfg cpkt port = true → port ∈ f.requested (lineKey cfg cpkt)) :
    Script.Ends Untracked (Answered cfg f cpkt port)
      (f.updateSnoopResponse cfg cpkt rspPort port) := by
  have item_requested := requested_getD f (lineKey cfg cpkt)
  unfold updateSnoopResponse
  simp only []
  split
  · exact ends_error
  split
  · rename_i ht
    simp only [Bool.not_eq_true'] at ht
    intro k
    simp [ht]
  rename_i ht
  simp only [Bool.not_eq_true', Bool.not_eq_false] at ht
  split
  · exact ends_error
  split
  · rename_i missing
    rw [item_requested, mask_of_tracked ht] at missing
    have : port ∈ (∅ : Finset PortID) := by
      rw [← missing]
      exact Finset.mem_inter.mpr ⟨known ht, Finset.mem_singleton_self port⟩
    exact absurd this (Finset.notMem_empty port)
  split
  · exact ends_error
  · apply answered_set ht
    simp only [item_requested]

theorem updateResponse_ends
    (known : tracked cfg cpkt port = true → cpkt.req.isBroadcast = false →
      port ∈ f.requested (lineKey cfg cpkt)) :
    Script.Ends Untracked (Answered cfg f cpkt port) (f.updateResponse cfg cpkt port) := by
  unfold updateResponse
  simp only []
  split
  · exact ends_error
  split
  · rename_i ht
    simp only [Bool.not_eq_true'] at ht
    intro k
    simp [ht]
  rename_i ht
  simp only [Bool.not_eq_true', Bool.not_eq_false] at ht
  split
  · rename_i hnone
    intro k
    split
    · rename_i hk
      obtain ⟨-, rfl⟩ := hk
      simp [requested, hnone]
    · rfl
  rename_i item hitem
  have item_requested : item.requested = f.requested (lineKey cfg cpkt) := by simp [requested, hitem]
  split
  · rename_i missing
    have known := known ht (by simpa using missing.2)
    rw [item_requested, mask_of_tracked ht] at missing
    have : port ∈ (∅ : Finset PortID) := by
      rw [← missing.1]
      exact Finset.mem_inter.mpr ⟨known, Finset.mem_singleton_self port⟩
    exact absurd this (Finset.notMem_empty port)
  split
  · intro k
    rw [requested_eraseIfNullEntry]
    exact answered_set ht (by simp only [item_requested]) k
  · exact answered_set ht (by simp only [item_requested])

end SnoopFilter

end Classic

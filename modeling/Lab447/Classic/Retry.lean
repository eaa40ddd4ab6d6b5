import Mathlib
import Lab447.Lib.Machine
import Lab447.Classic.SnoopFilter

/-!
What the crossbar can do to its snoop filter, one whole operation at a time, and
the undo of a request whose packet has to be sent again.
-/

namespace Classic

/-- A complete operation on the filter. A request is a lookup with the call of
`finishRequest` that ends it. -/
inductive FilterCall where
  | request (cpkt : Packet) (port : PortID) (willRetry : Bool)
  | snoop (cpkt : Packet)
  | snoopResponse (cpkt : Packet) (rspPort reqPort : PortID)
  | snoopForward (cpkt : Packet)
  | response (cpkt : Packet) (port : PortID)

variable (cfg : XBarConfig)

namespace SnoopFilter

def apply (f : SnoopFilter) : FilterCall → Except XBarFault SnoopFilter
  | .request cpkt port willRetry =>
    (f.lookupRequest cfg cpkt port).bind fun r => r.2.finishRequest cfg willRetry cpkt
  | .snoop cpkt => (f.lookupSnoop cfg cpkt).map Prod.snd
  | .snoopResponse cpkt rspPort reqPort => f.updateSnoopResponse cfg cpkt rspPort reqPort
  | .snoopForward cpkt => f.updateSnoopForward cfg cpkt
  | .response cpkt port => f.updateResponse cfg cpkt port

/-- The filter of a crossbar under any sequence of operations. -/
def machine : Machine SnoopFilter FilterCall XBarFault where
  start := empty
  step f call := some (f.apply cfg call)

end SnoopFilter

/-- Neither mask of the item has a bit. -/
def SnoopItem.isNull (item : SnoopItem) : Prop := item.requested ∪ item.holder = ∅

instance (item : SnoopItem) : Decidable item.isNull :=
  inferInstanceAs (Decidable (item.requested ∪ item.holder = ∅))

namespace SnoopFilter

variable {cfg} {f g : SnoopFilter} {cpkt : Packet} {port : PortID} {key : Nat} {item : SnoopItem}

/-- No line but possibly `key` has an entry with both masks empty. -/
def NoNullBut (f : SnoopFilter) (key : Nat) : Prop :=
  ∀ k item, k ≠ key → f.cachedLocations.lookup k = some item → ¬ item.isNull

/-- No entry has both masks empty. -/
def NoNull (f : SnoopFilter) : Prop :=
  ∀ k item, f.cachedLocations.lookup k = some item → ¬ item.isNull

theorem NoNull.but (h : f.NoNull) (key : Nat) : f.NoNullBut key := by
  intro k item _ found
  exact h k item found

theorem NoNullBut.set (h : f.NoNullBut key) (item : SnoopItem) : (f.set key item).NoNullBut key := by
  intro k other hk found
  apply h k other hk
  simpa [SnoopFilter.set, Finmap.lookup_insert_of_ne _ hk] using found

theorem NoNullBut.noNull (h : f.NoNullBut key) (nonnull : ¬ item.isNull) : (f.set key item).NoNull := by
  intro k other found
  by_cases hk : k = key
  · subst hk
    have eq : item = other := by simpa [SnoopFilter.set] using found
    exact eq ▸ nonnull
  · exact h.set item k other hk found

theorem NoNullBut.eraseIfNullEntry (h : f.NoNullBut key) : (f.eraseIfNullEntry key).NoNull := by
  intro k other found
  unfold SnoopFilter.eraseIfNullEntry at found
  split at found
  · rename_i item hitem
    split at found
    · by_cases hk : k = key
      · subst hk
        simp at found
      · rw [Finmap.lookup_erase_ne hk] at found
        exact h k other hk found
    · rename_i nonnull
      by_cases hk : k = key
      · subst hk
        rw [hitem] at found
        cases found
        exact nonnull
      · exact h k other hk found
  · rename_i hnone
    by_cases hk : k = key
    · subst hk
      rw [hnone] at found
      cases found
    · exact h k other hk found

theorem not_isNull_of_mask {requested holder : Finset PortID} (ht : tracked cfg cpkt port = true) :
    ¬ SnoopItem.isNull ⟨requested, holder ∪ portToMask cfg port⟩ := by
  intro null
  have none_held := (Finset.union_eq_empty.mp null).2
  have mask := (Finset.union_eq_empty.mp none_held).2
  rw [mask_of_tracked ht] at mask
  exact Finset.singleton_ne_empty port mask

/-- What a lookup leaves in the filter: nothing new, or an item on the line of
the packet with the one that was there kept aside. -/
theorem lookupRequest_eq {dests : List PortID} (h : f.lookupRequest cfg cpkt port = .ok (dests, g)) :
    g = { f with reqLookupResult := none } ∨
    ∃ marked, g = { f.set (lineKey cfg cpkt) marked with
      reqLookupResult := some (lineKey cfg cpkt,
        (f.cachedLocations.lookup (lineKey cfg cpkt)).getD {}) } := by
  unfold lookupRequest at h
  simp only [] at h
  split at h
  · cases h
    exact .inl rfl
  · obtain ⟨marked, -, hg⟩ := Script.map_eq_ok.mp h
    cases hg
    exact .inr ⟨marked, rfl⟩

theorem finishRequest_looked {marked : SnoopItem} (willRetry : Bool) (old : SnoopItem) :
    finishRequest cfg { f.set (lineKey cfg cpkt) marked with
      reqLookupResult := some (lineKey cfg cpkt, old) } willRetry cpkt =
    .ok ({ f.set (lineKey cfg cpkt) (if willRetry then old else marked) with
      reqLookupResult := some (lineKey cfg cpkt, old) }.eraseIfNullEntry (lineKey cfg cpkt)) := by
  cases willRetry with
  | false => simp [finishRequest]
  | true => simp [finishRequest, SnoopFilter.set, Finmap.insert_insert]

theorem NoNull.request (h : f.NoNull) (willRetry : Bool) :
    Script.Ends (fun _ => True) NoNull (f.apply cfg (.request cpkt port willRetry)) := by
  cases hl : f.lookupRequest cfg cpkt port with
  | error e => simp [apply, hl, Except.bind, Script.Ends]
  | ok r =>
    obtain ⟨dests, g⟩ := r
    simp only [apply, hl, Except.bind]
    rcases lookupRequest_eq hl with rfl | ⟨marked, rfl⟩
    · exact h
    · rw [finishRequest_looked]
      exact NoNullBut.eraseIfNullEntry ((h.but (lineKey cfg cpkt)).set _)

theorem NoNull.snoop (h : f.NoNull) :
    Script.Ends (fun _ => True) NoNull (f.apply cfg (.snoop cpkt)) := by
  apply Script.Ends.map (P := fun r : List PortID × SnoopFilter => r.2.NoNull)
  · unfold lookupSnoop
    simp only []
    split
    · trivial
    split
    · split
      · trivial
      · exact h
    split
    · trivial
    split
    · exact ((h.but _).set _).eraseIfNullEntry
    · exact h
  · intro r hr
    exact hr

theorem NoNull.snoopResponse (h : f.NoNull) (rspPort : PortID) :
    Script.Ends (fun _ => True) NoNull (f.apply cfg (.snoopResponse cpkt rspPort port)) := by
  simp only [apply, updateSnoopResponse]
  split
  · trivial
  split
  · exact h
  rename_i ht
  split
  · trivial
  split
  · trivial
  split
  · trivial
  · apply (h.but _).noNull
    exact not_isNull_of_mask (by simpa using ht)

theorem NoNull.snoopForward (h : f.NoNull) :
    Script.Ends (fun _ => True) NoNull (f.apply cfg (.snoopForward cpkt)) := by
  simp only [apply, updateSnoopForward]
  split
  · trivial
  split
  · exact h
  split
  · exact h
  · exact ((h.but _).set _).eraseIfNullEntry

theorem NoNull.response (h : f.NoNull) :
    Script.Ends (fun _ => True) NoNull (f.apply cfg (.response cpkt port)) := by
  simp only [apply, updateResponse]
  split
  · trivial
  split
  · exact h
  rename_i ht
  split
  · exact h
  split
  · trivial
  split
  · exact ((h.but _).set _).eraseIfNullEntry
  · apply (h.but _).noNull
    exact not_isNull_of_mask (by simpa using ht)

theorem NoNull.apply (h : f.NoNull) (call : FilterCall) :
    Script.Ends (fun _ => True) NoNull (f.apply cfg call) := by
  cases call with
  | request cpkt port willRetry => exact h.request willRetry
  | snoop cpkt => exact h.snoop
  | snoopResponse cpkt rspPort reqPort => exact h.snoopResponse rspPort
  | snoopForward cpkt => exact h.snoopForward
  | response cpkt port => exact h.response

theorem reaches_noNull (h : (machine cfg).Reaches (fun _ _ => True) f) : f.NoNull := by
  apply h.invariant
  · intro k item found
    simp [machine, empty] at found
  · intro f call g hf _ hstep
    exact (hf.apply call).ok (Option.some.inj hstep)

/-- Putting the old item back and dropping an entry without bits undoes whatever
was written on the line. -/
theorem eraseIfNullEntry_set_old (h : f.NoNull) (saved : Option (Nat × SnoopItem)) :
    ({ f.set key ((f.cachedLocations.lookup key).getD {}) with
      reqLookupResult := saved }.eraseIfNullEntry key).cachedLocations = f.cachedLocations := by
  apply Finmap.ext_lookup
  intro k
  cases hold : f.cachedLocations.lookup key with
  | none =>
    by_cases hk : k = key
    · subst hk
      simp [SnoopFilter.eraseIfNullEntry, SnoopFilter.set, hold]
    · simp [SnoopFilter.eraseIfNullEntry, SnoopFilter.set, hk]
  | some item =>
    have nonnull : ¬ item.requested ∪ item.holder = ∅ := h key item hold
    by_cases hk : k = key
    · subst hk
      simp [SnoopFilter.eraseIfNullEntry, SnoopFilter.set, hold, nonnull]
    · simp [SnoopFilter.eraseIfNullEntry, SnoopFilter.set, hk, nonnull]

/-- A request that will be sent again leaves no trace in the filter: in every
state between operations the lookup and the call that ends it restore every entry,
and no entry is ever without a bit. -/
theorem retry_undoes_request (cfg : XBarConfig) (f : SnoopFilter)
    (h : (machine cfg).Reaches (fun _ _ => True) f) :
    (∀ key item, f.cachedLocations.lookup key = some item →
      item.requested ≠ ∅ ∨ item.holder ≠ ∅) ∧
    ∀ cpkt port dests g, f.lookupRequest cfg cpkt port = .ok (dests, g) →
      ∃ after, g.finishRequest cfg true cpkt = .ok after ∧
        after.cachedLocations = f.cachedLocations := by
  have nonnull := reaches_noNull h
  constructor
  · intro key item found
    by_contra empty
    simp only [ne_eq, not_or, not_not] at empty
    exact nonnull key item found (Finset.union_eq_empty.mpr empty)
  · intro cpkt port dests g hl
    rcases lookupRequest_eq hl with rfl | ⟨marked, rfl⟩
    · exact ⟨_, rfl, rfl⟩
    · refine ⟨_, finishRequest_looked true _, ?_⟩
      exact eraseIfNullEntry_set_old nonnull _

/-- A read from the second port while the line is requested by the first. -/
theorem second_read_undone :
    let cfg : XBarConfig := ⟨64, 8, 2, fun _ => true, fun _ => false, true, true, 8, 8⟩
    let read : Packet := { cmd := .ReadSharedReq, id := 0, req := { id := 0 }, addr := 128, size := 64 }
    ∃ f dests g, (SnoopFilter.machine cfg).run empty [.request read 0 false] = some f ∧
      f.lookupRequest cfg read 1 = .ok (dests, g) ∧ g.cachedLocations ≠ f.cachedLocations ∧
      ∃ after, g.finishRequest cfg true read = .ok after ∧
        after.cachedLocations = f.cachedLocations := by
  intro cfg read
  let f : SnoopFilter := ⟨Finmap.singleton 128 ⟨{0}, ∅⟩, some (128, {})⟩
  have reached : (SnoopFilter.machine cfg).run empty [.request read 0 false] = some f := by
    with_unfolding_all rfl
  have looked : f.lookupRequest cfg read 1 =
      .ok (maskToPortList cfg ((∅ ∪ {0}) \ portToMask cfg 1),
        { f.set 128 ⟨{0} ∪ portToMask cfg 1, ∅⟩ with reqLookupResult := some (128, ⟨{0}, ∅⟩) }) := by
    with_unfolding_all rfl
  refine ⟨f, _, _, reached, looked, by decide, ?_⟩
  apply (retry_undoes_request cfg f ?_).2 read 1 _ _ looked
  exact Machine.Reaches.start.run _ (fun _ _ => trivial) reached

end SnoopFilter

end Classic

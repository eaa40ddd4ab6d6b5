import Lab447.Lib.Machine
import Lab447.Lib.Script
import Lab447.Ruby.Types

/-!
The array of a Ruby cache, `gem5/src/mem/ruby/structures/CacheMemory.cc`: the sets
of ways and, kept apart from them, the index from a tag to its way. Entries are
known by numbers that stand for their pointers. The replacement policy, locks and
statistics are left out.
-/

namespace Ruby.CacheArray

inductive AccessPermission where
  | Read_Only | Read_Write | Maybe_Stale | Backing_Store | Backing_Store_Busy | Invalid
  | NotPresent | Busy
  deriving DecidableEq

/-- An `AbstractCacheEntry`, with the position that `setPosition` gives it. -/
structure Entry where
  address : Addr := 0
  permission : AccessPermission := .NotPresent
  set : Nat := 0
  way : Nat := 0

/-- The parameters of a cache, with what `init` asserts about them. -/
structure Params where
  size : Nat
  assoc : Nat
  blockSize : Nat
  blockSizeBits : Nat
  startIndexBit : Nat
  numSets_gt : 1 < size / assoc / blockSize

namespace Params

variable (p : Params)

def numSetBits : Nat := Nat.log2 (p.size / p.assoc / p.blockSize)

/-- `address == makeLineAddress(address)`. -/
def isLine (address : Addr) : Prop := address % 2 ^ p.blockSizeBits = 0

instance (address : Addr) : Decidable (p.isLine address) :=
  inferInstanceAs (Decidable (address % 2 ^ p.blockSizeBits = 0))

def addressToCacheSet (address : Addr) : Nat :=
  bitSelect address p.startIndexBit (p.startIndexBit + p.numSetBits - 1)

end Params

inductive Fault where
  | assertion | noAvailableEntry | nullPointer
  deriving DecidableEq

end CacheArray

/-- `cache set way` is the entry in a way of a set, if there is one. -/
structure CacheArray where
  cache : Nat → Nat → Option Nat
  tagIndex : Addr → Option Nat
  entries : Nat → CacheArray.Entry

namespace CacheArray

def empty : CacheArray := ⟨fun _ _ => none, fun _ => none, fun _ => {}⟩

def permission (c : CacheArray) (e : Nat) : AccessPermission := (c.entries e).permission

def setCache (c : CacheArray) (set way : Nat) (e : Option Nat) : CacheArray :=
  { c with cache := Function.update c.cache set (Function.update (c.cache set) way e) }

/-- The way of a tag, if it is found. -/
def findTagInSet (c : CacheArray) (cacheSet : Nat) (tag : Addr) : Except Fault (Option Nat) :=
  match c.tagIndex tag with
  | none => .ok none
  | some way =>
    match c.cache cacheSet way with
    | none => .error .nullPointer
    | some e => .ok (if c.permission e ≠ .NotPresent then some way else none)

/-- A way that has no entry, or one that is not present. -/
def isOpen (c : CacheArray) (cacheSet way : Nat) : Bool :=
  match c.cache cacheSet way with
  | none => true
  | some e => decide (c.permission e = .NotPresent)

variable (p : Params)

def lookup (c : CacheArray) (address : Addr) : Except Fault (Option Nat) :=
  if ¬ p.isLine address then .error .assertion
  else (c.findTagInSet (p.addressToCacheSet address) address).map fun loc =>
    loc.bind (c.cache (p.addressToCacheSet address))

def cacheAvail (c : CacheArray) (address : Addr) : Except Fault Bool :=
  if ¬ p.isLine address then .error .assertion
  else .ok ((List.range p.assoc).any fun way =>
    match c.cache (p.addressToCacheSet address) way with
    | some e =>
      decide ((c.entries e).address = address) || decide (c.permission e = .NotPresent)
    | none => true)

/-- The first open way of the set of a line. -/
def openWay (c : CacheArray) (address : Addr) : Option Nat :=
  (List.range p.assoc).find? fun way => c.isOpen (p.addressToCacheSet address) way

/-- The entry that is put into a way. -/
def place (c : CacheArray) (address : Addr) (entry way : Nat) : CacheArray :=
  let set := p.addressToCacheSet address
  { c.setCache set way (some entry) with
    tagIndex := Function.update c.tagIndex address (some way)
    entries := Function.update c.entries entry ⟨address, .Invalid, set, way⟩ }

def allocate (c : CacheArray) (address : Addr) (entry : Nat) : Except Fault CacheArray :=
  (c.lookup p address).bind fun found =>
  (c.cacheAvail p address).bind fun avail =>
    if found.isSome || !avail then .error .assertion
    else match c.openWay p address with
      | none => .error .noAvailableEntry
      | some way => .ok (c.place p address entry way)

def deallocate (c : CacheArray) (address : Addr) : Except Fault CacheArray :=
  (c.lookup p address).bind fun found =>
    match found with
    | none => .error .assertion
    | some e =>
      .ok { c.setCache (c.entries e).set (c.entries e).way none with
        tagIndex := Function.update c.tagIndex address none }

def changePermission (c : CacheArray) (e : Nat) (perm : AccessPermission) : CacheArray :=
  { c with entries := Function.update c.entries e { c.entries e with permission := perm } }

/-- A cache with the entry of each line that was allocated and not deallocated since;
`fresh` is the next entry that its controller makes. -/
structure Usage where
  array : CacheArray
  entryOf : Addr → Option Nat
  fresh : Nat

inductive Call where
  | allocate (address : Addr)
  | deallocate (address : Addr)
  | changePermission (address : Addr) (perm : AccessPermission)

def machine : Machine Usage Call Fault where
  start := ⟨empty, fun _ => none, 0⟩
  step u
    | .allocate a =>
      some ((u.array.allocate p a u.fresh).map fun c =>
        ⟨c, Function.update u.entryOf a (some u.fresh), u.fresh + 1⟩)
    | .deallocate a =>
      some ((u.array.deallocate p a).map fun c => { u with
        array := c
        entryOf := Function.update u.entryOf a none })
    | .changePermission a perm =>
      (u.entryOf a).map fun e => .ok { u with array := u.array.changePermission e perm }

/-! ### The map that the array stands for -/

/-- The entry of a live line. -/
def Usage.live (u : Usage) (a : Addr) : Option Nat :=
  (u.entryOf a).filter fun e => decide (u.array.permission e ≠ .NotPresent)

/-- The array is the map of the live lines to their entries: lookups give the entry
of the line, no two lines are in one place, and `cacheAvail` tells whether a line
is live or could be. -/
structure Refines (u : Usage) : Prop where
  lookup : ∀ a, p.isLine a → u.array.lookup p a = .ok (u.live a)
  address : ∀ a e, u.live a = some e → (u.array.entries e).address = a
  apart : ∀ a b e f, a ≠ b → u.live a = some e → u.live b = some f →
    ((u.array.entries e).set, (u.array.entries e).way) ≠
      ((u.array.entries f).set, (u.array.entries f).way)
  avail : ∀ a, p.isLine a → (u.array.cacheAvail p a = .ok true ↔
    (∃ c, u.array.allocate p a u.fresh = .ok c) ∨ (u.live a).isSome)

/-- A call does not put a new entry over that of another line. -/
def Spares (u : Usage) : Call → Prop
  | .allocate b => ∀ way e, u.array.openWay p b = some way →
      u.array.cache (p.addressToCacheSet b) way = some e → ∀ a, a ≠ b → u.entryOf a ≠ some e
  | _ => True

/-- The index and the array agree about the entry of each line, and any other entry
that is still in the array is not present. -/
structure Indexed (u : Usage) : Prop where
  index : ∀ a, u.array.tagIndex a = (u.entryOf a).map fun e => (u.array.entries e).way
  placed : ∀ a e, u.entryOf a = some e → p.isLine a ∧ e < u.fresh ∧
    (u.array.entries e).address = a ∧ (u.array.entries e).set = p.addressToCacheSet a ∧
    (u.array.entries e).way < p.assoc ∧
    u.array.cache (u.array.entries e).set (u.array.entries e).way = some e
  slots : ∀ set way e, u.array.cache set way = some e → e < u.fresh ∧
    (u.array.entries e).set = set ∧ (u.array.entries e).way = way ∧
    (u.array.permission e = .NotPresent ∨ u.entryOf (u.array.entries e).address = some e)

variable {p} {u v : Usage} {a b : Addr} {e way set : Nat}

theorem openWay_eq_some (h : u.array.openWay p b = some way) :
    way < p.assoc ∧ u.array.isOpen (p.addressToCacheSet b) way = true := by
  have := List.find?_some h
  exact ⟨List.mem_range.mp (List.mem_of_find?_eq_some h), this⟩

/-- A tag leads to the entry in its way, whosever it is. -/
theorem lookup_of_tagIndex {c : CacheArray} (line : p.isLine a) (tag : c.tagIndex a = some way)
    (slot : c.cache (p.addressToCacheSet a) way = some e) :
    c.lookup p a = .ok (if c.permission e ≠ .NotPresent then some e else none) := by
  unfold CacheArray.lookup findTagInSet
  rw [if_neg (not_not.mpr line), tag]
  simp only [slot, Except.map]
  split
  · simp [slot]
  · rfl

theorem Indexed.lookup (h : Indexed p u) (line : p.isLine a) :
    u.array.lookup p a = .ok (u.live a) := by
  have index := h.index a
  cases he : u.entryOf a with
  | none =>
    simp [CacheArray.lookup, findTagInSet, line, index, Usage.live, he, Except.map]
  | some e =>
    obtain ⟨-, -, -, inSet, -, slot⟩ := h.placed a e he
    rw [he] at index
    rw [inSet] at slot
    rw [lookup_of_tagIndex line index slot]
    simp [Usage.live, he, Option.filter_some]

theorem live_eq_some : u.live a = some e ↔ u.entryOf a = some e ∧ u.array.permission e ≠ .NotPresent := by
  simp [Usage.live, Option.filter_eq_some_iff]

/-- An open way is all that an allocation of a line that is not live needs. -/
theorem Indexed.allocate_eq (h : Indexed p u) (line : p.isLine b) (dead : u.live b = none)
    (hw : u.array.openWay p b = some way) :
    u.array.allocate p b u.fresh = .ok (u.array.place p b u.fresh way) := by
  have avail : u.array.cacheAvail p b = .ok true := by
    obtain ⟨lt, free⟩ := openWay_eq_some hw
    unfold cacheAvail
    rw [if_neg (not_not.mpr line)]
    congr 1
    apply List.any_eq_true.mpr
    refine ⟨way, List.mem_range.mpr lt, ?_⟩
    unfold isOpen at free
    split at free
    · rename_i hn
      simp [hn]
    · rename_i e he
      simp [he, of_decide_eq_true free]
  simp [CacheArray.allocate, h.lookup line, dead, avail, hw, Except.bind]

theorem allocate_eq_ok {c : CacheArray} {entry : Nat} (h : u.array.allocate p b entry = .ok c) :
    p.isLine b ∧ u.array.lookup p b = .ok none ∧ u.array.cacheAvail p b = .ok true ∧
      ∃ way, u.array.openWay p b = some way ∧ c = u.array.place p b entry way := by
  obtain ⟨found, hf, checked⟩ := Script.bind_eq_ok.mp h
  obtain ⟨avail, ha, placed⟩ := Script.bind_eq_ok.mp checked
  have line : p.isLine b := by
    by_contra unaligned
    simp [CacheArray.lookup, unaligned] at hf
  split at placed
  · cases placed
  rename_i ok
  simp only [Bool.or_eq_true, Bool.not_eq_true', not_or, Bool.not_eq_true, Bool.not_eq_false,
    Option.isSome_eq_false_iff, Option.isNone_iff_eq_none] at ok
  obtain ⟨rfl, rfl⟩ := ok
  split at placed
  · cases placed
  · rename_i way hw
    cases placed
    exact ⟨line, hf, ha, way, hw, rfl⟩

theorem Indexed.cacheAvail_iff (h : Indexed p u) (line : p.isLine a) :
    u.array.cacheAvail p a = .ok true ↔
      (∃ c, u.array.allocate p a u.fresh = .ok c) ∨ (u.live a).isSome := by
  constructor
  · intro avail
    cases hl : u.live a with
    | some e => exact .inr rfl
    | none =>
      left
      cases hw : u.array.openWay p a with
      | some way => exact ⟨_, h.allocate_eq line hl hw⟩
      | none =>
        -- the way that matches the line would make it live
        unfold cacheAvail at avail
        rw [if_neg (not_not.mpr line)] at avail
        obtain ⟨way, lt, found⟩ := List.any_eq_true.mp (Except.ok.inj avail)
        have closed := List.find?_eq_none.mp hw way lt
        unfold isOpen at closed
        cases hc : u.array.cache (p.addressToCacheSet a) way with
        | none => simp [hc] at closed
        | some e =>
          simp only [hc, decide_eq_true_eq] at closed
          simp only [hc, closed, decide_false, Bool.or_false, decide_eq_true_eq] at found
          obtain ⟨-, -, -, absent | own⟩ := h.slots _ _ e hc
          · exact absurd absent closed
          · rw [found] at own
            rw [live_eq_some.mpr ⟨own, closed⟩] at hl
            cases hl
  · rintro (⟨c, hc⟩ | alive)
    · exact (allocate_eq_ok hc).2.2.1
    · obtain ⟨e, he⟩ := Option.isSome_iff_exists.mp alive
      obtain ⟨own, -⟩ := live_eq_some.mp he
      obtain ⟨-, -, address, inSet, lt, slot⟩ := h.placed a e own
      rw [inSet] at slot
      unfold cacheAvail
      rw [if_neg (not_not.mpr line)]
      congr 1
      apply List.any_eq_true.mpr
      exact ⟨_, List.mem_range.mpr lt, by simp [slot, address]⟩

theorem Indexed.refines (h : Indexed p u) : Refines p u := by
  refine ⟨fun a line => h.lookup line, ?_, ?_, fun a line => h.cacheAvail_iff line⟩
  · intro a e alive
    exact (h.placed a e (live_eq_some.mp alive).1).2.2.1
  · intro a b e f ne ha hb same
    obtain ⟨-, -, address, -, -, slot⟩ := h.placed a e (live_eq_some.mp ha).1
    obtain ⟨-, -, address', -, -, slot'⟩ := h.placed b f (live_eq_some.mp hb).1
    obtain ⟨hs, hw⟩ := Prod.mk.inj same
    rw [hs, hw, slot'] at slot
    cases slot
    exact ne (address.symm.trans address')

/-! ### One call -/

theorem setCache_cache (c : CacheArray) (set way : Nat) (e : Option Nat) (s w : Nat) :
    (c.setCache set way e).cache s w = if s = set ∧ w = way then e else c.cache s w := by
  by_cases hs : s = set
  · subst hs
    by_cases hw : w = way
    · simp [setCache, hw]
    · simp [setCache, hw]
  · simp [setCache, hs]

@[simp] theorem place_cache (c : CacheArray) (b : Addr) (e way s w : Nat) :
    (c.place p b e way).cache s w =
      if s = p.addressToCacheSet b ∧ w = way then some e else c.cache s w :=
  setCache_cache c _ way (some e) s w

theorem place_entries_of_ne (c : CacheArray) (b : Addr) {e f : Nat} (way : Nat) (h : f ≠ e) :
    (c.place p b e way).entries f = c.entries f := by
  simp [place, h]

theorem place_entries_self (c : CacheArray) (b : Addr) (e way : Nat) :
    (c.place p b e way).entries e = ⟨b, .Invalid, p.addressToCacheSet b, way⟩ := by
  simp [place]

/-- The usage after an entry has been put into a way. -/
def Usage.placed (p : Params) (u : Usage) (b : Addr) (way : Nat) : Usage :=
  ⟨u.array.place p b u.fresh way, Function.update u.entryOf b (some u.fresh), u.fresh + 1⟩

theorem Indexed.place (h : Indexed p u) (line : p.isLine b) (dead : u.live b = none)
    (hw : u.array.openWay p b = some way) (spares : Spares p u (.allocate b)) :
    Indexed p (u.placed p b way) := by
  obtain ⟨lt, -⟩ := openWay_eq_some hw
  have old : ∀ a e, u.entryOf a = some e → e ≠ u.fresh := by
    intro a e he
    exact (h.placed a e he).2.1.ne
  refine ⟨?_, ?_, ?_⟩
  · intro a
    by_cases ha : a = b
    · subst ha
      simp [Usage.placed, CacheArray.place]
    · have index := h.index a
      cases he : u.entryOf a with
      | none => simp [Usage.placed, CacheArray.place, ha, index, he]
      | some e => simp [Usage.placed, CacheArray.place, ha, index, he, old a e he]
  · intro a e he
    by_cases ha : a = b
    · subst ha
      obtain rfl : u.fresh = e := by simpa [Usage.placed] using he
      simp [Usage.placed, place_entries_self, line, lt]
    · have he : u.entryOf a = some e := by simpa [Usage.placed, ha] using he
      obtain ⟨aligned, made, address, inSet, inWay, slot⟩ := h.placed a e he
      simp only [Usage.placed, place_entries_of_ne _ b way (old a e he), place_cache]
      refine ⟨aligned, by omega, address, inSet, inWay, ?_⟩
      rw [if_neg]
      · exact slot
      · rintro ⟨sameSet, sameWay⟩
        rw [sameSet, sameWay] at slot
        exact spares way e hw slot a ha he
  · intro s w e slot
    simp only [Usage.placed, place_cache] at slot
    split at slot
    · rename_i here
      cases slot
      simp [Usage.placed, place_entries_self, here]
    · obtain ⟨made, inSet, inWay, kept⟩ := h.slots s w e slot
      have ne : e ≠ u.fresh := made.ne
      simp only [Usage.placed, CacheArray.permission, place_entries_of_ne _ b way ne]
      refine ⟨by omega, inSet, inWay, ?_⟩
      rcases kept with absent | own
      · exact .inl absent
      · by_cases ha : (u.array.entries e).address = b
        · -- the entry the line had before is left behind, and it is not present
          left
          by_contra present
          rw [ha] at own
          rw [live_eq_some.mpr ⟨own, present⟩] at dead
          cases dead
        · right
          simpa [ha] using own

theorem Indexed.deallocate (h : Indexed p u) {c : CacheArray} (hc : u.array.deallocate p a = .ok c) :
    Indexed p { u with array := c, entryOf := Function.update u.entryOf a none } := by
  obtain ⟨found, hf, freed⟩ := Script.bind_eq_ok.mp hc
  have line : p.isLine a := by
    by_contra unaligned
    simp [CacheArray.lookup, unaligned] at hf
  rw [h.lookup line] at hf
  cases hf
  split at freed
  · cases freed
  rename_i e alive
  cases freed
  obtain ⟨own, -⟩ := live_eq_some.mp alive
  obtain ⟨-, -, address, -, -, slot⟩ := h.placed a e own
  refine ⟨?_, ?_, ?_⟩
  · intro b
    by_cases hb : b = a
    · subst hb
      simp
    · simp [hb, setCache, h.index b]
  · intro b f hf
    have hb : b ≠ a := by
      rintro rfl
      simp at hf
    have hf : u.entryOf b = some f := by simpa [hb] using hf
    obtain ⟨aligned, made, address', inSet, inWay, slot'⟩ := h.placed b f hf
    refine ⟨aligned, made, address', inSet, inWay, ?_⟩
    simp only [setCache_cache]
    rw [if_neg]
    · exact slot'
    · rintro ⟨sameSet, sameWay⟩
      simp only [setCache] at sameSet sameWay
      rw [sameSet, sameWay, slot] at slot'
      cases slot'
      exact hb (address'.symm.trans address)
  · intro s w f slot'
    simp only [setCache_cache] at slot'
    split at slot'
    · cases slot'
    rename_i elsewhere
    obtain ⟨made, inSet, inWay, kept⟩ := h.slots s w f slot'
    refine ⟨made, inSet, inWay, kept.imp id fun own' => ?_⟩
    have : (u.array.entries f).address ≠ a := by
      intro same
      rw [same, own] at own'
      cases own'
      exact elsewhere ⟨inSet.symm, inWay.symm⟩
    simpa [this, setCache] using own'

theorem Indexed.changePermission (h : Indexed p u) (own : u.entryOf a = some e)
    (perm : AccessPermission) :
    Indexed p { u with array := u.array.changePermission e perm } := by
  have same : ∀ f, ((u.array.changePermission e perm).entries f).address = (u.array.entries f).address ∧
      ((u.array.changePermission e perm).entries f).set = (u.array.entries f).set ∧
      ((u.array.changePermission e perm).entries f).way = (u.array.entries f).way := by
    intro f
    by_cases hf : f = e
    · subst hf
      simp [CacheArray.changePermission]
    · simp [CacheArray.changePermission, hf]
  refine ⟨?_, ?_, ?_⟩
  · intro b
    simp only [(same _).2.2]
    exact h.index b
  · intro b f hf
    simp only [(same f).1, (same f).2.1, (same f).2.2]
    exact h.placed b f hf
  · intro s w f slot
    obtain ⟨made, inSet, inWay, kept⟩ := h.slots s w f slot
    simp only [(same f).1, (same f).2.1, (same f).2.2]
    refine ⟨made, inSet, inWay, ?_⟩
    by_cases hf : f = e
    · subst hf
      right
      rw [(h.placed a f own).2.2.1]
      exact own
    · simpa [CacheArray.permission, CacheArray.changePermission, hf] using kept

theorem Indexed.step (h : Indexed p u) {call : Call} (hs : (machine p).step u call = some (.ok v))
    (spares : Spares p u call) : Indexed p v := by
  cases call with
  | allocate b =>
    obtain ⟨c, hc, rfl⟩ := Script.map_eq_ok.mp (Option.some.inj hs)
    obtain ⟨line, found, -, way, hw, rfl⟩ := allocate_eq_ok hc
    rw [h.lookup line] at found
    exact h.place line (Except.ok.inj found) hw spares
  | deallocate a =>
    obtain ⟨c, hc, rfl⟩ := Script.map_eq_ok.mp (Option.some.inj hs)
    exact h.deallocate hc
  | changePermission a perm =>
    obtain ⟨e, own, changed⟩ := Option.map_eq_some_iff.mp hs
    cases changed
    exact h.changePermission own perm

/-- An entry put over that of another line answers to both tags. -/
theorem Indexed.spares_of_refines (h : Indexed p u) {call : Call}
    (hs : (machine p).step u call = some (.ok v)) (refines : Refines p v) : Spares p u call := by
  cases call with
  | deallocate a => trivial
  | changePermission a perm => trivial
  | allocate b =>
    obtain ⟨c, hc, rfl⟩ := Script.map_eq_ok.mp (Option.some.inj hs)
    obtain ⟨-, -, -, way, hw, rfl⟩ := allocate_eq_ok hc
    intro way' e hw' slot a ne own
    cases hw.symm.trans hw'
    obtain ⟨line, made, address, inSet, -, -⟩ := h.placed a e own
    obtain ⟨-, sameSet, sameWay, -⟩ := h.slots _ _ e slot
    have absent : u.array.permission e = .NotPresent := by
      have free := (openWay_eq_some hw).2
      simpa [isOpen, slot] using free
    have found := refines.lookup a line
    have index : u.array.tagIndex a = some way := by
      rw [h.index a, own, Option.map_some, sameWay]
    have old : e ≠ u.fresh := made.ne
    have dead : (u.placed p b way).live a = none := by
      have kept : (u.placed p b way).array.permission e = .NotPresent := by
        simpa [Usage.placed, permission, place_entries_of_ne _ b way old] using absent
      have same : (u.placed p b way).entryOf a = some e := by simpa [Usage.placed, ne] using own
      simp [Usage.live, same, kept, Option.filter_some]
    change (u.array.place p b u.fresh way).lookup p a = .ok ((u.placed p b way).live a) at found
    rw [dead] at found
    have tag : (u.array.place p b u.fresh way).tagIndex a = some way := by
      simpa [CacheArray.place, ne] using index
    have here : (u.array.place p b u.fresh way).cache (p.addressToCacheSet a) way = some u.fresh := by
      rw [place_cache, if_pos ⟨inSet.symm.trans sameSet, rfl⟩]
    have present : (u.array.place p b u.fresh way).permission u.fresh ≠ .NotPresent := by
      simp [permission, place_entries_self]
    rw [lookup_of_tagIndex line tag here, if_pos present] at found
    cases found

/-- The array refines the map of live lines in a run exactly as long as no
allocation takes the way of an entry that is not present but still belongs to
another line, whose tag stays in the index. -/
theorem refines_iff (p : Params) (calls : List Call) (last : Usage)
    (hr : (machine p).run (machine p).start calls = some last) :
    (∀ before after, calls = before ++ after →
      ∀ u, (machine p).run (machine p).start before = some u → Refines p u) ↔
    ∀ before call after, calls = before ++ call :: after →
      ∀ u, (machine p).run (machine p).start before = some u → Spares p u call := by
  apply Machine.forall_run_iff (I := Indexed p) _ _ _ _ hr
  · intro u indexed
    exact indexed.refines
  · intro u call v indexed hs spares
    exact indexed.step hs spares
  · intro u call v indexed hs refines
    exact indexed.spares_of_refines hs refines
  · exact ⟨fun _ => rfl, by simp [machine], by simp [machine, empty]⟩

/-- A cache of two sets of one way with lines of 64 bytes. -/
def twoSets : Params := ⟨128, 1, 64, 6, 6, by decide⟩

/-- A line in each of the two sets. -/
theorem two_lines_refine :
    ∃ u, (machine twoSets).run (machine twoSets).start [.allocate 0, .allocate 64] = some u ∧
      Refines twoSets u ∧ u.array.lookup twoSets 64 = .ok (some 1) := by
  refine ⟨_, rfl, ?_, rfl⟩
  apply (refines_iff twoSets [.allocate 0, .allocate 64] _ rfl).mpr _ _ []
    (List.append_nil _).symm _ rfl
  intro before call after split u hu
  cases before with
  | nil =>
    cases split
    cases hu
    intro way e _ slot
    cases slot
  | cons first rest =>
    cases rest with
    | nil =>
      cases split
      cases hu
      intro way e found slot
      cases slot
    | cons second rest =>
      simp at split

/-- A line whose entry is not present gives its way to another line of the set, and
is found again under its own tag with the entry of the other line. -/
theorem stale_tag_finds_other_line :
    ∃ u, (machine twoSets).run (machine twoSets).start
        [.allocate 0, .changePermission 0 .NotPresent, .allocate 128] = some u ∧
      u.array.lookup twoSets 0 = .ok (some 1) ∧ (u.array.entries 1).address = 128 :=
  ⟨_, rfl, rfl, rfl⟩

end CacheArray

end Ruby

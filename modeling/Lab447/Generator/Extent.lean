import Lab447.Lib.Walk
import Lab447.Generator.Calls
import Lab447.Generator.Order
import Lab447.Generator.Workload

/-!
Where the generated traffic goes. A generator walks over each tensor in steps of
one tile from the tensor's base address; whether it stays inside the tensor is a
matter of how many pieces it takes.
-/

namespace Generator

open Command Walk

/-- The end of the range `[address, address + original_size)` of a tensor. -/
def Tensor.stop (x : Tensor) : Nat := x.address + x.originalSize

/-- The ranges of the tensors do not meet. -/
def Tensor.Apart (x y : Tensor) : Prop := x.stop ≤ y.address ∨ y.stop ≤ x.address

/-- An entry addresses only bytes of the tensor. -/
def Inside (t : Traffic) (x : Tensor) : Prop := Within x.address x.stop t.addr t.size

/-- Every access is inside the tensor of the node it is made for. -/
def StaysInside (node : Node) (heap : Heap) (s : State) : Prop :=
  ∀ a ∈ s.accesses, Inside a.2 (heap (node.pointer a.1))

/-! ## The walk over one tensor -/

namespace TrafficGenerator

variable {g : TrafficGenerator} {heap : Heap} {p : Nat}

/-- The accesses made through one pointer. -/
def through (g : TrafficGenerator) (p : Nat) (s : State) : List (Slot × Traffic) :=
  s.accesses.filter fun a => g.pointer a.1 = p

/-- The size of a tile as the helpers take it. -/
def tile (heap : Heap) (p : Nat) : Nat := uint64 (heap p).size

/-- The accesses through `p` are consecutive tiles from its base address on, and
its address is where the next one goes. -/
structure Walked (g : TrafficGenerator) (heap : Heap) (p : Nat) (s : State) : Prop where
  size : ∀ q, (s.heap q).size = (heap q).size
  address : (s.heap p).address =
    piece (2 ^ 64) (heap p).address (tile heap p) (g.through p s).length
  entries : ∀ k a, (g.through p s)[k]? = some a →
    a.2.addr = piece (2 ^ 64) (heap p).address (tile heap p) k ∧ a.2.size = tile heap p

theorem uint64_add (a b : Nat) : uint64 (a + b) = (a + b) % 2 ^ 64 := by
  simp only [uint64]
  omega

theorem through_access (type : RequestType) (response : TrafficType) (size : Int) (slot : Slot)
    (i : Nat) (s : State) : g.through p (g.access type response size slot i s) =
      g.through p s ++
        if g.pointer slot = p then [(slot, g.entry type response size slot i s)] else [] := by
  simp only [through, access, List.filter_append]
  split
  · rename_i h
    simp [h]
  · rename_i h
    simp [h]

theorem walked_access (type : RequestType) (response : TrafficType) (slot : Slot) (i : Nat) :
    Keeps (Walked g heap p) (g.access type response (heap (g.pointer slot)).size slot i) := by
  intro s hs
  have size : ∀ q, ((g.access type response (heap (g.pointer slot)).size slot i s).heap q).size =
      (heap q).size := by
    intro q
    rw [← hs.size q]
    simp only [access, Heap.modify]
    split
    · rename_i h
      rw [h]
    · rfl
  by_cases hp : g.pointer slot = p
  · have grown := through_access (g := g) (p := p) type response (heap (g.pointer slot)).size slot i s
    rw [if_pos hp] at grown
    refine ⟨size, ?_, ?_⟩
    · rw [grown, List.length_append, List.length_singleton, ← piece_succ, ← hs.address]
      simp only [access, Heap.modify, hp, if_true, uint64_add]
      rfl
    · intro k a ha
      rw [grown, List.getElem?_append] at ha
      split at ha
      · exact hs.entries k a ha
      · rw [List.getElem?_singleton] at ha
        split at ha
        · cases ha
          have last : k = (g.through p s).length := by omega
          rw [last, ← hs.address, ← hp]
          exact ⟨rfl, rfl⟩
        · cases ha
  · have same := through_access (g := g) (p := p) type response (heap (g.pointer slot)).size slot i s
    rw [if_neg hp, List.append_nil] at same
    refine ⟨size, ?_, ?_⟩
    · rw [same, ← hs.address]
      simp only [access, Heap.modify, if_neg (Ne.symm hp)]
    · rw [same]
      exact hs.entries

theorem walked_push (t : Traffic) : Keeps (Walked g heap p) (push t) :=
  fun _ hs => ⟨hs.size, hs.address, hs.entries⟩

theorem walked_calls : Calls g (Walked g heap p) := by
  have unicast (type : RequestType) (k : Nat) (slot : Slot) :
      Keeps (Walked g heap p) (g.unicast type k (heap (g.pointer slot)).size slot) :=
    .each fun i _ => walked_access type .unicast slot i
  constructor
  · intro k _ slot s hs
    rw [read, unicastRead, TrafficGenerator.size, hs.size]
    exact unicast .read k slot s hs
  · intro k _ slot s hs
    rw [write, unicastWrite, TrafficGenerator.size, hs.size]
    exact unicast .write k slot s hs
  · intro slot s hs
    rw [broadcast, TrafficGenerator.size, hs.size]
    have first : Keeps (Walked g heap p) _ := walked_access .read .broadcast slot 0
    exact Keeps.cons first (.cons (.each fun i _ => walked_push _) .nil) s hs
  · intro k _
    exact .each fun i _ => walked_push _

/-- After a generator that takes its sizes from the tiles. -/
theorem walked_generateTraffic (pos : 0 < g.numPE) {kind : Kind}
    (plain : ¬(kind = .convOutputReduction ∨ kind = .batchnormReduction))
    (start : (heap p).address < 2 ^ 64) :
    Walked g heap p (g.generateTraffic kind (State.new heap)) := by
  refine walked_calls.generateTraffic pos kind (fun h => absurd h plain) _ ⟨fun _ => rfl, ?_, ?_⟩
  · rw [through, State.new, List.filter_nil, List.length_nil, piece_eq (by omega)]
    simp
  · intro k a ha
    simp [through, State.new] at ha

/-- The recorded accesses are the reads and writes of the traffic list. -/
def Recorded (s : State) : Prop :=
  s.accesses.map Prod.snd = s.trafficList.filter Traffic.isAccess

theorem recorded_access {type : RequestType} (h : type ∈ [RequestType.read, .write])
    (response : TrafficType) (size : Int) (slot : Slot) (i : Nat) :
    Keeps Recorded (g.access type response size slot i) := by
  intro s hs
  have access : (g.entry type response size slot i s).isAccess = true := by
    obtain rfl | rfl : type = .read ∨ type = .write := by simpa using h
    all_goals rfl
  rw [Recorded, TrafficGenerator.access, List.map_append, List.filter_append, hs]
  simp [access]

theorem recorded_mark {type : RequestType} (h : type ∈ [RequestType.compute, .sync]) (i : Nat) :
    Keeps Recorded (push (mark type i)) := by
  intro s hs
  have other : (mark type i).isAccess = false := by
    obtain rfl | rfl : type = .compute ∨ type = .sync := by simpa using h
    all_goals rfl
  rw [Recorded, push, List.filter_append, hs]
  simp [other]

theorem recorded_generateTraffic (pos : 0 < g.numPE) (kind : Kind) :
    Recorded (g.generateTraffic kind (State.new heap)) := by
  have broadcastRead (size slot) : Keeps Recorded (g.broadcastRead size slot) :=
    .cons (recorded_access (by decide) _ _ _ _) <|
      .cons (.each fun i _ => recorded_mark (by decide) i) .nil
  refine (Calls.of_access (fun type h size slot i _ => recorded_access h _ _ _ _) broadcastRead
    fun k _ => .each fun i _ => recorded_mark (by decide) i).generateTraffic pos kind
    (fun _ _ => broadcastRead _ _) _ rfl

/-! ## Distinct tensors -/

theorem tally_order (s : State) (slot : Slot) :
    tally slot (order s) = (s.accesses.filter fun a => a.1 = slot).length := by
  rw [tally, FreeAddMonoid.countP_apply, order, FreeAddMonoid.toList_ofList, List.countP_map,
    List.countP_eq_length_filter]
  rfl

theorem pieces_pos_of_mem {kind : Kind} (arity : g.Arity kind) {a : Slot × Traffic}
    (ha : a ∈ (g.generateTraffic kind (State.new heap)).accesses) : 0 < g.pieces kind a.1 := by
  rw [← tally_generateTraffic heap kind arity, tally_order]
  exact List.length_pos_of_mem (List.mem_filter.mpr ⟨ha, by simp⟩)

theorem Walked.all_iff {s : State} (h : Walked g heap p s) (lo hi : Nat) :
    (∀ a ∈ g.through p s, Within lo hi a.2.addr a.2.size) ↔
      ∀ k < (g.through p s).length,
        Within lo hi (piece (2 ^ 64) (heap p).address (tile heap p) k) (tile heap p) := by
  constructor
  · intro all k hk
    have entry := h.entries k _ (List.getElem?_eq_getElem hk)
    rw [← entry.1, ← entry.2]
    exact all _ (List.getElem_mem hk)
  · intro all a ha
    obtain ⟨k, hk, rfl⟩ := List.mem_iff_getElem.mp ha
    have entry := h.entries k _ (List.getElem?_eq_getElem hk)
    rw [entry.1, entry.2]
    exact all k hk

/-- When the accessed tensors are distinct, a generator stays inside all of them
exactly when its pieces of each one fit. -/
theorem staysInside_iff {kind : Kind} (pos : 0 < g.numPE)
    (plain : ¬(kind = .convOutputReduction ∨ kind = .batchnormReduction)) (arity : g.Arity kind)
    (distinct : ∀ a b, 0 < g.pieces kind a → 0 < g.pieces kind b →
      g.pointer a = g.pointer b → a = b)
    (fits : ∀ slot, 0 < g.pieces kind slot → (heap (g.pointer slot)).stop < 2 ^ 64) :
    StaysInside g.splitNode heap (g.generateTraffic kind (State.new heap)) ↔
      ∀ slot, g.pieces kind slot * tile heap (g.pointer slot) ≤
        (heap (g.pointer slot)).originalSize := by
  set s := g.generateTraffic kind (State.new heap) with hs
  have count (slot : Slot) :
      (s.accesses.filter fun a => a.1 = slot).length = g.pieces kind slot := by
    rw [← tally_order, hs, tally_generateTraffic heap kind arity]
  have used {a : Slot × Traffic} (ha : a ∈ s.accesses) : 0 < g.pieces kind a.1 :=
    pieces_pos_of_mem arity ha
  have same {slot : Slot} (h : 0 < g.pieces kind slot) :
      g.through (g.pointer slot) s = s.accesses.filter fun a => a.1 = slot := by
    refine List.filter_congr fun a ha => ?_
    rw [decide_eq_decide]
    exact ⟨distinct _ _ (used ha) h, fun e => by rw [e]⟩
  have one {slot : Slot} (h : 0 < g.pieces kind slot) :
      (∀ a ∈ g.through (g.pointer slot) s, Inside a.2 (heap (g.pointer slot))) ↔
        g.pieces kind slot * tile heap (g.pointer slot) ≤ (heap (g.pointer slot)).originalSize := by
    have inside := fits slot h
    have walked : Walked g heap (g.pointer slot) s :=
      walked_generateTraffic pos plain (lt_of_le_of_lt (Nat.le_add_right _ _) inside)
    refine (walked.all_iff _ _).trans ?_
    rw [same h, count]
    exact walk_within_iff inside
  constructor
  · intro inside slot
    obtain none | many := Nat.eq_zero_or_pos (g.pieces kind slot)
    · simp [none]
    · refine (one many).mp fun a ha => ?_
      obtain ⟨ha, hp⟩ := List.mem_filter.mp ha
      rw [← of_decide_eq_true hp]
      exact inside a ha
  · intro small a ha
    exact (one (used ha)).mpr (small a.1) a (List.mem_filter.mpr ⟨ha, by simp⟩)

/-! ## One tensor as input and output -/

theorem toList_copies_of (k : Nat) (slot : Slot) :
    (copies k (FreeAddMonoid.of slot)).toList = List.replicate k slot := by
  induction k with
  | zero => rfl
  | succ k ih =>
    rw [copies, succ_nsmul', FreeAddMonoid.toList_add]
    exact congrArg (slot :: ·) ih

/-- There is nothing but one whole round exactly when there are as many subgraphs as PEs. -/
theorem one_round_iff (pos : 0 < g.numPE) (many : 0 < g.numSubgraph) :
    g.round = 1 ∧ g.remainder = 0 ↔ g.numSubgraph = g.numPE := by
  rw [round, remainder, Nat.div_eq_iff pos]
  constructor
  · rintro ⟨⟨-, upper⟩, whole⟩
    exact le_antisymm (by omega) (Nat.le_of_dvd many (Nat.dvd_of_mod_eq_zero whole))
  · intro h
    rw [h, Nat.mod_self]
    omega

/-- With one tensor as input the first PEs read and then write; more than one round
goes on with a read. -/
theorem slots_elementWise (heap : Heap) (one : g.inputs = 1) (pos : 0 < g.numPE)
    (many : 0 < g.numSubgraph) :
    ∃ rest, (g.generateTraffic .elementWise (State.new heap)).accesses.map Prod.fst =
        List.replicate g.numPE (.input 0) ++ (List.replicate g.numPE .output ++ rest) ∧
      (g.numSubgraph = g.numPE → rest = []) ∧
      (g.numSubgraph ≠ g.numPE → ∃ more, rest = .input 0 :: more) := by
  have single : inputsWord (List.range 1) g.numPE = copies g.numPE (.of (.input 0)) := by
    simp [inputsWord]
  have word : order (g.generateTrafficElementWise (State.new heap)) = _ :=
    order_elementWise (State.new heap)
  rw [order_new, zero_add, one, single] at word
  have begins (k : Nat) : ∃ more, (copies g.numPE (.of (.input 0)) +
      copies k (.of .output)).toList = Slot.input 0 :: more := by
    obtain ⟨n, hn⟩ : ∃ n, g.numPE = n + 1 := ⟨g.numPE - 1, by omega⟩
    rw [FreeAddMonoid.toList_add, toList_copies_of, hn, List.replicate_succ]
    exact ⟨_, rfl⟩
  obtain ⟨r, hr⟩ : ∃ r, g.round = r + 1 := by
    have : 0 < g.round := Nat.div_pos (by omega) pos
    exact ⟨g.round - 1, by omega⟩
  rw [hr, copies, succ_nsmul', add_assoc, add_assoc] at word
  have slots := congrArg FreeAddMonoid.toList word
  rw [FreeAddMonoid.toList_add, FreeAddMonoid.toList_add, toList_copies_of,
    toList_copies_of] at slots
  refine ⟨_, slots, ?_, ?_⟩
  · intro h
    obtain ⟨h1, h0⟩ := (one_round_iff pos many).mpr h
    have : r = 0 := by omega
    subst r
    rw [zero_nsmul, zero_add, h0]
    rfl
  · intro h
    have more : r ≠ 0 ∨ g.remainder ≠ 0 := by
      by_contra none
      exact h ((one_round_iff pos many).mp (by omega))
    obtain zero | ⟨r', hr'⟩ : r = 0 ∨ ∃ r', r = r' + 1 := by
      cases r with
      | zero => exact .inl rfl
      | succ r' => exact .inr ⟨r', rfl⟩
    · obtain ⟨m, hm⟩ := begins g.remainder
      have extra_one : extra g.remainder = 1 := if_neg (by omega)
      refine ⟨m, ?_⟩
      rw [zero, zero_nsmul, zero_add, extra_one, copies, one_nsmul, hm]
    · obtain ⟨m, hm⟩ := begins g.numPE
      rw [hr', succ_nsmul', add_assoc, FreeAddMonoid.toList_add, hm]
      exact ⟨_, rfl⟩

end TrafficGenerator

/-- Where the tiles of one round fit when the writes go on from the reads: the
reads into `x`, the writes into `y`. -/
def GoesOn (x y : Tensor) (bytes : Nat) : Prop :=
  bytes ≤ x.originalSize ∧ y.address ≤ x.address + bytes ∧ x.address + 2 * bytes ≤ y.stop

section

variable {x y : Tensor} {n size : Nat} {rest : List Slot}

/-- Pieces of one walk from the base of `x` on, meant for `x` or, where the slot is
the output, for `y`. -/
def MeantFor (x y : Tensor) (size : Nat) (slots : List Slot) : Prop :=
  ∀ k slot, slots[k]? = some slot →
    Within (if slot = .output then y else x).address (if slot = .output then y else x).stop
      (piece (2 ^ 64) x.address size k) size

theorem first_slot {k : Nat} (h : k < n) :
    (List.replicate n (Slot.input 0) ++ (List.replicate n .output ++ rest))[k]? =
      some (.input 0) := by
  rw [List.getElem?_append_left (by simpa using h)]
  simp [h]

theorem second_slot {k : Nat} (low : n ≤ k) (high : k < n + n) :
    (List.replicate n (Slot.input 0) ++ (List.replicate n .output ++ rest))[k]? =
      some .output := by
  rw [List.getElem?_append_right (by simpa using low),
    List.getElem?_append_left (by rw [List.length_replicate, List.length_replicate]; omega),
    List.getElem?_replicate, List.length_replicate, if_pos (by omega)]

/-- One round of reads and one of writes: both stay inside exactly when the writes
go on from the reads. -/
theorem meantFor_iff_goesOn (pos : 0 < n) (tiles : 0 < size) (hx : x.stop < 2 ^ 64)
    (hy : y.stop < 2 ^ 64) :
    (∀ k < n, Within x.address x.stop (piece (2 ^ 64) x.address size k) size) ∧
      (∀ k, n ≤ k → k < n + n →
        Within y.address y.stop (piece (2 ^ 64) x.address size k) size) ↔
      GoesOn x y (n * size) := by
  have reads : (∀ k < n, Within x.address x.stop (piece (2 ^ 64) x.address size k) size) ↔
      n * size ≤ x.originalSize :=
    walk_within_iff hx
  have twice : (n + n) * size = 2 * (n * size) := by ring
  constructor
  · rintro ⟨first, second⟩
    have fits := reads.mp first
    have start : x.address + n * size < 2 ^ 64 := by
      have := hx
      unfold Tensor.stop at this
      omega
    have writes := (pieces_within_iff tiles pos start hy).mp second
    rw [twice] at writes
    exact ⟨fits, writes⟩
  · rintro ⟨fits, low, high⟩
    have start : x.address + n * size < 2 ^ 64 := by
      omega
    refine ⟨reads.mpr fits, (pieces_within_iff tiles pos start hy).mpr ⟨low, ?_⟩⟩
    rw [twice]
    exact high

theorem meantFor_iff (pos : 0 < n) (tiles : 0 < size) (hx : x.stop < 2 ^ 64)
    (hy : y.stop < 2 ^ 64) (apart : x.Apart y)
    (next : rest = [] ∨ ∃ more, rest = .input 0 :: more) :
    MeantFor x y size (List.replicate n (.input 0) ++ (List.replicate n .output ++ rest)) ↔
      rest = [] ∧ GoesOn x y (n * size) := by
  have round := meantFor_iff_goesOn (n := n) pos tiles hx hy
  constructor
  · intro h
    have goesOn := round.mp ⟨fun k hk => h k _ (first_slot hk),
      fun k low high => h k _ (second_slot low high)⟩
    refine ⟨?_, goesOn⟩
    obtain none | ⟨more, rfl⟩ := next
    · exact none
    · -- the next read would have to be back inside `x`, past `y`
      have back := h (n + n) (.input 0) (by
        simp)
      obtain ⟨fits, low, high⟩ := goesOn
      have twice : (n + n) * size = 2 * (n * size) := by ring
      have bytes : 0 < n * size := Nat.mul_pos pos tiles
      rw [piece_eq (by omega), twice] at back
      have inside := (within_iff tiles).mp back
      simp only [reduceCtorEq, if_false] at inside
      obtain apart | apart := apart
      · omega
      · omega
  · rintro ⟨rfl, goesOn⟩ k slot hk
    obtain ⟨reads, writes⟩ := round.mpr goesOn
    obtain first | last := lt_or_ge k n
    · rw [first_slot first] at hk
      cases hk
      exact reads k first
    · have bound : k < n + n := by
        have := (List.getElem?_eq_some_iff.mp hk).1
        simpa using this
      rw [second_slot last bound] at hk
      cases hk
      exact writes k last bound

end

namespace TrafficGenerator

variable {g : TrafficGenerator} {heap : Heap}

/-- One tensor is walked over by the reads, meant for `x`, and by the writes, meant
for `y`. Both stay inside only if there is a single round in which the writes go on
from the reads. -/
theorem shared_inside_iff {x y : Tensor} (one : g.inputs = 1) (pos : 0 < g.numPE)
    (many : 0 < g.numSubgraph) (shared : g.pointer .output = g.pointer (.input 0))
    (base : (heap (g.pointer (.input 0))).address = x.address) (hx : x.stop < 2 ^ 64)
    (hy : y.stop < 2 ^ 64) (apart : x.Apart y) :
    (∀ a ∈ (g.generateTraffic .elementWise (State.new heap)).accesses,
        Inside a.2 (if a.1 = .output then y else x)) ↔
      tile heap (g.pointer (.input 0)) = 0 ∨
        g.numSubgraph = g.numPE ∧ GoesOn x y (g.numPE * tile heap (g.pointer (.input 0))) := by
  obtain ⟨rest, slots, short, long⟩ := slots_elementWise heap one pos many
  set s := g.generateTraffic .elementWise (State.new heap) with hs
  have walked : Walked g heap (g.pointer (.input 0)) s :=
    walked_generateTraffic pos (by decide) (by
      rw [base]
      exact lt_of_le_of_lt (Nat.le_add_right _ _) hx)
  have known (a) (ha : a ∈ s.accesses) : a.1 = .input 0 ∨ a.1 = .output := by
    have arity : g.Arity .elementWise := trivial
    have used := pieces_pos_of_mem arity ha
    revert used
    rcases a.1 with (_ | j) | _
    · simp
    · simp [pieces, perTensor, one]
    · simp
  have all : g.through (g.pointer (.input 0)) s = s.accesses := by
    refine List.filter_eq_self.mpr fun a ha => ?_
    obtain h | h := known a ha
    · simp [h]
    · simp [h, shared]
  have meant : (∀ a ∈ s.accesses, Inside a.2 (if a.1 = .output then y else x)) ↔
      MeantFor x y (tile heap (g.pointer (.input 0))) (s.accesses.map Prod.fst) := by
    have entry {k a} (ha : s.accesses[k]? = some a) := walked.entries k a (all ▸ ha)
    rw [base] at entry
    constructor
    · intro inside k slot hk
      obtain ⟨a, ha, rfl⟩ := Option.map_eq_some_iff.mp (List.getElem?_map ▸ hk)
      have here := inside a (List.mem_of_getElem? ha)
      rwa [Inside, (entry ha).1, (entry ha).2] at here
    · intro meant a ha
      obtain ⟨k, hk⟩ := List.mem_iff_getElem?.mp ha
      rw [Inside, (entry hk).1, (entry hk).2]
      exact meant k a.1 (by rw [List.getElem?_map, hk]; rfl)
  rw [meant, slots]
  obtain zero | tiles := Nat.eq_zero_or_pos (tile heap (g.pointer (.input 0)))
  · simp only [zero, true_or, iff_true]
    exact fun k slot _ => within_zero _ _ _
  · have next : rest = [] ∨ ∃ more, rest = .input 0 :: more := by
      by_cases h : g.numSubgraph = g.numPE
      · exact .inl (short h)
      · exact .inr (long h)
    have rounds : rest = [] ↔ g.numSubgraph = g.numPE := by
      refine ⟨fun h => ?_, short⟩
      by_contra more
      obtain ⟨more, hm⟩ := long more
      simp [hm] at h
    rw [meantFor_iff pos tiles hx hy apart next, rounds]
    simp [tiles.ne']

end TrafficGenerator

end Generator

import Lab447.Generator.Extent

/-!
The traffic of the generator that `top.cpp` selects, and when it stays inside the
tensors of the node.
-/

namespace Generator

open Command

/-! ## What the analysis leaves alone -/

/-- The ranges of the tensors are those of `heap`. -/
def Kept (heap after : Heap) : Prop :=
  ∀ p, (after p).address = (heap p).address ∧ (after p).originalSize = (heap p).originalSize

variable {heap : Heap} {node : Node} {strategy : Strategy} {numPE : Nat}

theorem kept_modify (p : Nat) {f : Heap → Tensor → Tensor}
    (h : ∀ after x, (f after x).address = x.address ∧ (f after x).originalSize = x.originalSize) :
    Keeps (Kept heap) fun after => after.modify p (f after) := by
  intro after kept q
  rw [← (kept q).1, ← (kept q).2]
  simp only [Heap.modify]
  split
  · rename_i hq
    rw [hq]
    exact h after (after p)
  · exact ⟨rfl, rfl⟩

theorem kept_divide (p j k : Nat) : Keeps (Kept heap) (Heap.divide p j k) :=
  kept_modify p fun _ _ => ⟨rfl, rfl⟩

theorem kept_setDim (p j : Nat) (x : Heap → Int) :
    Keeps (Kept heap) fun after => after.setDim p j (x after) :=
  kept_modify p fun _ _ => ⟨rfl, rfl⟩

theorem kept_setSize (p : Nat) (x : Heap → Int) :
    Keeps (Kept heap) fun after => after.setSize p (x after) :=
  kept_modify p fun _ _ => ⟨rfl, rfl⟩

namespace Workload

theorem kept_split : Keeps (Kept heap) (split node strategy) :=
  .each fun _ _ => .each fun _ _ => kept_divide _ _ _

theorem kept_convTiles : Keeps (Kept heap) (convTiles node strategy) := by
  intro after kept
  refine Keeps.cons (kept_divide _ _ _) (.cons (kept_divide _ _ _) <|
    .cons (.onlyIf _ fun _ => kept_setDim _ _ _) <|
    .cons (.onlyIf _ fun _ => kept_setDim _ _ _) <|
    .cons (.each fun _ _ => kept_divide _ _ _) .nil) _ ?_
  exact Keeps.cons (kept_divide _ _ _) (.cons (kept_divide _ _ _) <|
    .cons (kept_divide _ _ _) <| .cons (kept_divide _ _ _) .nil) after kept

theorem kept_convSplit : Keeps (Kept heap) (convSplit node strategy) :=
  .cons kept_convTiles <| .cons (.onlyIf _ fun _ => kept_divide _ _ _) .nil

theorem kept_splitFrom (first : Nat) : Keeps (Kept heap) (splitFrom node strategy first) :=
  .onlyIf _ fun _ => .each fun _ _ => kept_divide _ _ _

theorem kept_convBatchnormSplit : Keeps (Kept heap) (convBatchnormSplit node strategy) := by
  refine .cons kept_convTiles <| .cons ?_ .nil
  split
  · exact .cons (kept_divide _ _ _) <| .cons (kept_splitFrom _) .nil
  · exact kept_splitFrom _

theorem kept_batchnormSplit : Keeps (Kept heap) (batchnormSplit node strategy) :=
  .cons (.each fun _ _ => .cons (kept_divide _ _ _) <| .cons (kept_divide _ _ _) .nil) <|
    .cons (.each fun _ _ => kept_divide _ _ _) .nil

theorem kept_avgPoolSplit : Keeps (Kept heap) (avgPoolSplit node strategy) :=
  .cons (kept_divide _ _ _) <| .cons (kept_divide _ _ _) .nil

theorem kept_maxPoolSplit : Keeps (Kept heap) (maxPoolSplit node strategy) := by
  intro after kept
  refine Keeps.cons (kept_setDim _ _ fun _ => _) (.cons (kept_setDim _ _ fun _ => _) .nil) _ ?_
  exact Keeps.cons (kept_divide _ _ _) (.cons (kept_divide _ _ _) <|
    .cons (kept_divide _ _ _) <| .cons (kept_divide _ _ _) .nil) after kept

theorem kept_computeSize : Keeps (Kept heap) (computeSize node) :=
  .each fun _ _ => kept_setSize _ _

theorem kept_computeOriginalSize (node : Node) :
    Keeps (Kept heap) fun after => (computeOriginalSize node after).2 :=
  fun after kept => Keeps.each (fun _ _ => kept_setSize _ _) after kept

end Workload

/-! ## The selected generator -/

/-- The functions `top.cpp` can select for a node. -/
def Node.kinds (node : Node) : List Kind :=
  match node.op with
  | .conv =>
    if node.inputs.length ≤ 3 then [.convWeightStationary, .convOutputStationary]
    else [.convBatchnormWeight, .convBatchnormOutput]
  | .batchnormal => [.batchnorm]
  | .relu | .maxpool | .avgpool => [.elementWise]
  | .gemm | .softmax | .reshape => []

/-- The generator works on the tensors of the node, where they were placed; only
Relu has its output replaced by its input. -/
structure Planned (numPE : Nat) (node : Node) (strategy : Strategy) (heap : Heap) (plan : Plan) :
    Prop where
  kept : Kept heap plan.heap
  numPE : plan.generator.numPE = numPE
  kind : plan.kind ∈ node.kinds
  inputs : plan.generator.splitNode.inputs = node.inputs
  outputs : plan.generator.splitNode.outputs =
    if node.op = .relu then node.outputs.map fun _ => node.pointer (.input 0) else node.outputs
  numSubgraph : node.op = .relu → plan.generator.numSubgraph = getNumSubgraph strategy

theorem weightOrOutput_mem {weight output kind : Kind} {mapping : Mapping}
    (h : weightOrOutput weight output mapping = some kind) : kind ∈ [weight, output] := by
  cases mapping
  all_goals simp_all [weightOrOutput]

theorem plan_planned {p : Plan} (h : plan numPE node strategy heap = some p) :
    Planned numPE node strategy heap p := by
  have start : Kept heap heap := fun _ => ⟨rfl, rfl⟩
  have original := Workload.kept_computeOriginalSize node heap start
  unfold plan at h
  split at h
  · rename_i op
    dsimp only at h
    split at h
    · rename_i short
      obtain ⟨kind, hk, rfl⟩ := Option.map_eq_some_iff.mp h
      refine ⟨?_, rfl, ?_, rfl, ?_, by simp [op]⟩
      · exact Workload.kept_computeSize _ (Workload.kept_convSplit _ original)
      · simpa [Node.kinds, op, short] using weightOrOutput_mem hk
      · simp [op, Workload.computeOriginalSize]
    · rename_i long
      obtain ⟨kind, hk, rfl⟩ := Option.map_eq_some_iff.mp h
      refine ⟨?_, rfl, ?_, rfl, ?_, by simp [op]⟩
      · exact Workload.kept_computeSize _ (Workload.kept_convBatchnormSplit _ original)
      · simpa [Node.kinds, op, long] using weightOrOutput_mem hk
      · simp [op, Workload.computeOriginalSize]
  · rename_i op
    cases h
    refine ⟨?_, rfl, by simp [Node.kinds, op], rfl, ?_, by simp [op]⟩
    · exact Workload.kept_computeSize _ (Workload.kept_batchnormSplit _ original)
    · simp [op]
  · rename_i op
    cases h
    refine ⟨?_, rfl, by simp [Node.kinds, op, planElementWise], rfl, ?_, fun _ => rfl⟩
    · exact Workload.kept_computeSize _ (Workload.kept_split _ start)
    · simp [op, planElementWise, Workload.splitNode, Workload.input]
  · rename_i op
    cases h
    refine ⟨?_, rfl, by simp [Node.kinds, op, planElementWise], rfl, ?_, fun _ => rfl⟩
    · exact Workload.kept_computeSize _ (Workload.kept_maxPoolSplit _ start)
    · simp [op, planElementWise]
  · rename_i op
    cases h
    refine ⟨?_, rfl, by simp [Node.kinds, op, planElementWise], rfl, ?_, fun _ => rfl⟩
    · exact Workload.kept_computeSize _ (Workload.kept_avgPoolSplit _ start)
    · simp [op, planElementWise]
  all_goals cases h

/-! ## Nodes with their tensors -/

/-- The number of inputs of a node: a convolution may have a bias and, fused with a
batch normalisation, the four parameters of that. -/
def Node.arityOk (node : Node) : Prop :=
  match node.op with
  | .conv => node.inputs.length ∈ [2, 3, 6, 7]
  | .batchnormal => node.inputs.length = 5
  | .relu | .maxpool | .avgpool => node.inputs.length = 1
  | .gemm | .softmax | .reshape => True

/-- The tensors of the node lie in disjoint ranges below `2 ^ 64`. -/
structure Placed (node : Node) (heap : Heap) : Prop where
  arity : node.arityOk
  output : node.outputs.length = 1
  distinct : (node.inputs ++ node.outputs).Nodup
  range : ∀ p ∈ node.inputs ++ node.outputs, (heap p).stop < 2 ^ 64
  apart : ∀ p ∈ node.inputs ++ node.outputs, ∀ q ∈ node.inputs ++ node.outputs, p ≠ q →
    (heap p).Apart (heap q)

/-- The node has a tensor in the slot. -/
def Node.Has (node : Node) : Slot → Prop
  | .input j => j < node.inputs.length
  | .output => True

/-- The position of a slot among inputs and output. -/
def Node.position (node : Node) : Slot → Nat
  | .input j => j
  | .output => node.inputs.length

theorem pointer_eq {slot : Slot} (one : node.outputs.length = 1) (h : node.Has slot) :
    (node.inputs ++ node.outputs)[node.position slot]? = some (node.pointer slot) := by
  cases slot with
  | input j =>
    have hj : j < node.inputs.length := h
    simp [Node.position, Node.pointer, List.getElem?_append_left hj, List.getElem?_eq_getElem hj]
  | output =>
    obtain ⟨p, hp⟩ := List.length_eq_one_iff.mp one
    simp [Node.position, Node.pointer, hp]

theorem pointer_mem {slot : Slot} (one : node.outputs.length = 1) (h : node.Has slot) :
    node.pointer slot ∈ node.inputs ++ node.outputs :=
  List.mem_of_getElem? (pointer_eq one h)

theorem position_inj {a b : Slot} (ha : node.Has a) (hb : node.Has b)
    (h : node.position a = node.position b) : a = b := by
  cases a <;> cases b <;> simp_all [Node.position, Node.Has]

theorem Placed.pointer_inj (placed : Placed node heap) {a b : Slot} (ha : node.Has a)
    (hb : node.Has b) (h : node.pointer a = node.pointer b) : a = b := by
  have here := pointer_eq placed.output ha
  have there := pointer_eq placed.output hb
  rw [h] at here
  obtain ⟨i, hi⟩ := List.getElem?_eq_some_iff.mp here
  obtain ⟨j, hj⟩ := List.getElem?_eq_some_iff.mp there
  exact position_inj ha hb ((List.Nodup.getElem_inj_iff placed.distinct).mp (hi.trans hj.symm))

/-- The selected functions with the number of inputs they are selected for. -/
theorem kinds_cases {kind : Kind} (h : kind ∈ node.kinds) (arity : node.arityOk) :
    ((kind = .convWeightStationary ∨ kind = .convOutputStationary) ∧ 2 ≤ node.inputs.length) ∨
    ((kind = .convBatchnormWeight ∨ kind = .convBatchnormOutput) ∧
      (node.inputs.length = 6 ∨ node.inputs.length = 7)) ∨
    (kind = .batchnorm ∧ 0 < node.inputs.length) ∨ kind = .elementWise := by
  unfold Node.kinds at h
  unfold Node.arityOk at arity
  cases op : node.op
  all_goals simp only [op] at h arity
  case conv =>
    simp only [List.mem_cons, List.not_mem_nil, or_false] at arity
    split at h
    · exact .inl ⟨by simpa using h, by omega⟩
    · exact .inr (.inl ⟨by simpa using h, by omega⟩)
  case batchnormal => exact .inr (.inr (.inl ⟨by simpa using h, by omega⟩))
  case relu | maxpool | avgpool => exact .inr (.inr (.inr (by simpa using h)))
  all_goals simp at h

section

variable {p : Plan}

theorem Planned.plain (planned : Planned numPE node strategy heap p) (arity : node.arityOk) :
    ¬(p.kind = .convOutputReduction ∨ p.kind = .batchnormReduction) := by
  obtain ⟨h | h, -⟩ | ⟨h | h, -⟩ | ⟨h, -⟩ | h := kinds_cases planned.kind arity
  all_goals simp [h]

theorem Planned.length (planned : Planned numPE node strategy heap p) :
    p.generator.inputs = node.inputs.length := by
  rw [TrafficGenerator.inputs, planned.inputs]

theorem Planned.arityOk (planned : Planned numPE node strategy heap p) (arity : node.arityOk) :
    p.generator.Arity p.kind := by
  have length := planned.length
  obtain ⟨h | h, -⟩ | ⟨h | h, six⟩ | ⟨h, some⟩ | h := kinds_cases planned.kind arity
  all_goals simp only [h, TrafficGenerator.Arity]
  all_goals omega

theorem perTensor_eq_zero {n j : Nat} (h : n ≤ j) (input : Nat → Nat) (output : Nat) :
    TrafficGenerator.perTensor n input output (.input j) = 0 :=
  if_neg (by omega)

theorem perConvTensor_eq_zero {n j : Nat} (h : n ≤ j) (two : 2 ≤ j) (input weight : Nat)
    (other : Nat → Nat) (output : Nat) :
    TrafficGenerator.perConvTensor n input weight other output (.input j) = 0 := by
  obtain ⟨i, rfl⟩ : ∃ i, j = i + 2 := ⟨j - 2, by omega⟩
  exact if_neg (by omega)

/-- Only tensors of the node are accessed. -/
theorem Planned.has (planned : Planned numPE node strategy heap p) (arity : node.arityOk)
    {slot : Slot} (h : 0 < p.generator.pieces p.kind slot) : node.Has slot := by
  have length := planned.length
  cases slot with
  | output => trivial
  | input j =>
    by_contra out
    have none : p.generator.inputs ≤ j := by
      rw [length]
      exact Nat.le_of_not_lt out
    have absent : p.generator.pieces p.kind (.input j) = 0 := by
      obtain ⟨kind | kind, two⟩ | ⟨kind | kind, six⟩ | ⟨kind, -⟩ | kind :=
        kinds_cases planned.kind arity
      · simp only [kind, TrafficGenerator.pieces]
        exact perConvTensor_eq_zero (by omega) (by omega) _ _ _ _
      · simp only [kind, TrafficGenerator.pieces]
        exact perConvTensor_eq_zero (by omega) (by omega) _ _ _ _
      · simp only [kind, TrafficGenerator.pieces]
        exact perConvTensor_eq_zero none (by omega) _ _ _ _
      · simp only [kind, TrafficGenerator.pieces]
        exact perConvTensor_eq_zero none (by omega) _ _ _ _
      · simp only [kind, TrafficGenerator.pieces]
        split
        · exact perTensor_eq_zero none _ _
        split
        · exact perTensor_eq_zero none _ _
        split
        · exact perTensor_eq_zero none _ _
        · rfl
      · simp only [kind, TrafficGenerator.pieces]
        exact perTensor_eq_zero none _ _
    omega

theorem Planned.pointer (planned : Planned numPE node strategy heap p) (op : node.op ≠ .relu)
    (slot : Slot) : p.generator.pointer slot = node.pointer slot := by
  have outputs := planned.outputs
  rw [if_neg op] at outputs
  cases slot
  · simp only [TrafficGenerator.pointer, Node.pointer, planned.inputs]
  · simp only [TrafficGenerator.pointer, Node.pointer, outputs]

theorem Kept.stop {after : Heap} (kept : Kept heap after) (q : Nat) :
    (after q).stop = (heap q).stop := by
  rw [Tensor.stop, Tensor.stop, (kept q).1, (kept q).2]

/-- Every operator but Relu. -/
theorem staysInside_iff_pieces (pos : 0 < numPE) (placed : Placed node heap)
    (planned : Planned numPE node strategy heap p) (op : node.op ≠ .relu) :
    StaysInside node heap p.run ↔ ∀ slot, p.generator.pieces p.kind slot *
      TrafficGenerator.tile p.heap (node.pointer slot) ≤ (heap (node.pointer slot)).originalSize := by
  have pointer := planned.pointer op
  have has {slot} (h : 0 < p.generator.pieces p.kind slot) := planned.has placed.arity h
  have same : StaysInside node heap p.run ↔ StaysInside p.generator.splitNode p.heap p.run := by
    refine forall₂_congr fun a _ => ?_
    have ptr : p.generator.splitNode.pointer a.1 = node.pointer a.1 := pointer a.1
    rw [Inside, Inside, ptr, planned.kept.stop, (planned.kept _).1]
  rw [same]
  refine (TrafficGenerator.staysInside_iff (planned.numPE ▸ pos) (planned.plain placed.arity)
    (planned.arityOk placed.arity) ?_ ?_).trans ?_
  · intro a b ha hb h
    rw [pointer, pointer] at h
    exact placed.pointer_inj (has ha) (has hb) h
  · intro slot h
    rw [pointer, planned.kept.stop]
    exact placed.range _ (pointer_mem placed.output (has h))
  · refine forall_congr' fun slot => ?_
    rw [pointer, (planned.kept _).2]

/-- Relu walks over its input for the output as well. -/
theorem relu_staysInside_iff (pos : 0 < numPE) (placed : Placed node heap)
    (planned : Planned numPE node strategy heap p) (op : node.op = .relu)
    (many : 0 < getNumSubgraph strategy) :
    StaysInside node heap p.run ↔ TrafficGenerator.tile p.heap (node.pointer (.input 0)) = 0 ∨
      getNumSubgraph strategy = numPE ∧
        GoesOn (heap (node.pointer (.input 0))) (heap (node.pointer .output))
          (numPE * TrafficGenerator.tile p.heap (node.pointer (.input 0))) := by
  have one : node.inputs.length = 1 := by
    have := placed.arity
    simpa only [Node.arityOk, op] using this
  have kind : p.kind = .elementWise := by
    have := planned.kind
    simpa only [Node.kinds, op, List.mem_singleton] using this
  have input : p.generator.pointer (.input 0) = node.pointer (.input 0) := by
    simp only [TrafficGenerator.pointer, Node.pointer, planned.inputs]
  have shared : p.generator.pointer .output = p.generator.pointer (.input 0) := by
    have outputs := planned.outputs
    rw [if_pos op] at outputs
    obtain ⟨q, hq⟩ := List.length_eq_one_iff.mp placed.output
    rw [input]
    simp [TrafficGenerator.pointer, Node.pointer, outputs, hq]
  have hasInput : node.Has (.input 0) := by
    show 0 < node.inputs.length
    omega
  have inputMem := pointer_mem placed.output hasInput
  have hasOutput : node.Has .output := trivial
  have outputMem := pointer_mem placed.output hasOutput
  have ne : node.pointer (.input 0) ≠ node.pointer .output := fun h => by
    cases placed.pointer_inj hasInput hasOutput h
  have meant : StaysInside node heap p.run ↔ ∀ a ∈ p.run.accesses,
      Inside a.2 (if a.1 = .output then heap (node.pointer .output)
        else heap (node.pointer (.input 0))) := by
    refine forall₂_congr fun a ha => ?_
    have has := planned.has placed.arity
      (TrafficGenerator.pieces_pos_of_mem (planned.arityOk placed.arity) ha)
    obtain ⟨slot, t⟩ := a
    cases slot with
    | output => rfl
    | input j =>
      have : j < node.inputs.length := has
      obtain rfl : j = 0 := by omega
      rfl
  rw [meant, Plan.run, kind, ← input, ← planned.numPE, ← planned.numSubgraph op]
  refine TrafficGenerator.shared_inside_iff (planned.length.trans one) (planned.numPE ▸ pos)
    (planned.numSubgraph op ▸ many) shared (planned.kept _).1 ?_ ?_ ?_
  · rw [input]
    exact placed.range _ inputMem
  · exact placed.range _ outputMem
  · rw [input]
    exact placed.apart _ inputMem _ outputMem ne

end

/-! ## The condition -/

def Node.slots (node : Node) : List Slot := (List.range node.inputs.length).map .input ++ [.output]

theorem mem_slots_iff {slot : Slot} : slot ∈ node.slots ↔ node.Has slot := by
  cases slot <;> simp [Node.slots, Node.Has]

/-- The size of a tile of the tensor in a slot. -/
def Plan.tile (plan : Plan) (node : Node) (slot : Slot) : Nat :=
  TrafficGenerator.tile plan.heap (node.pointer slot)

/-- The pieces of every tensor fit into it. For Relu, whose writes continue where its
reads have stopped, there must be one round only, which ends in the output. -/
def Fits (numPE : Nat) (node : Node) (strategy : Strategy) (heap : Heap) (plan : Plan) : Prop :=
  if node.op = .relu then
    plan.tile node (.input 0) = 0 ∨ getNumSubgraph strategy = numPE ∧
      GoesOn (heap (node.pointer (.input 0))) (heap (node.pointer .output))
        (numPE * plan.tile node (.input 0))
  else
    ∀ slot ∈ node.slots, plan.generator.pieces plan.kind slot * plan.tile node slot ≤
      (heap (node.pointer slot)).originalSize

/-- A global average pooling of three channels of 2 x 2, split by channel. -/
def threeChannels : Node := ⟨.avgpool, [0], [1], [], []⟩

def threeChannelsHeap : Heap := fun p =>
  if p = 0 then ⟨[1, 3, 2, 2], 0, 0, 48⟩ else ⟨[1, 3, 1, 1], 0, 48, 12⟩

def byChannel : Strategy := ⟨[[1, 3, 1, 1]], .output⟩

theorem threeChannels_placed : Placed threeChannels threeChannelsHeap where
  arity := rfl
  output := rfl
  distinct := by decide
  range := by decide
  apart := by
    simp only [threeChannels, List.cons_append, List.nil_append, List.mem_cons, List.not_mem_nil,
      or_false]
    rintro p (rfl | rfl) q (rfl | rfl) h
    · exact absurd rfl h
    · exact .inl (by decide)
    · exact .inr (by decide)
    · exact absurd rfl h

end Generator

import Lab447.Generator.Model

/-!
From a graph to its generator (`top.cpp` and `workload_analysis/operator`): the
nodes of the graph are fused, the tensors are cut to the shape of one tile, and
the operator and the mapping select the generator. `TRAFFIC_OPTIMIZE` is off, and
`isRunnable` returns true.

A split node is a copy of its node but shares the tensors with it.
-/

namespace Generator

open Command

/-! ## Tiles -/

namespace Heap

/-- `t->shape[j]` -/
def dim (heap : Heap) (p j : Nat) : Int := (heap p).shape.getD j 0

def setDim (p j : Nat) (x : Int) (heap : Heap) : Heap :=
  heap.modify p fun t => { t with shape := t.shape.set j x }

/-- `t->shape[j] /= k` -/
def divide (p j k : Nat) (heap : Heap) : Heap := heap.setDim p j ((heap.dim p j).tdiv k)

def setSize (p : Nat) (size : Int) (heap : Heap) : Heap :=
  heap.modify p fun t => { t with size := size }

/-- The product of the shape. -/
def elements (heap : Heap) (p : Nat) : Int := (heap p).shape.foldl (· * ·) 1

end Heap

/-- `attributes[k]->data[0]` -/
def Node.attribute (node : Node) (k : Nat) : Int := (node.attributes.getD k []).getD 0 0

namespace Workload

variable (node : Node) (strategy : Strategy)

def input (j : Nat) : Nat := node.pointer (.input j)

def output : Nat := node.pointer .output

/-- `Workload::split`, used by Relu. -/
def split : Heap → Heap :=
  each (List.range strategy.splitSize.length) fun i =>
    each (List.range 4) fun j => Heap.divide (input node i) j (strategy.split i j)

/-- The outputs of the split node are its first input then. -/
def splitNode : Node := { node with outputs := node.outputs.map fun _ => input node 0 }

/-- The tiles of a convolution: output, input with its halo, weight. -/
def convTiles (heap : Heap) : Heap :=
  let heap := block [
    Heap.divide (output node) 1 (strategy.split 1 0),
    Heap.divide (output node) 2 (strategy.split 0 2),
    Heap.divide (output node) 3 (strategy.split 0 3),
    Heap.divide (input node 0) 1 (strategy.split 0 1)] heap
  let pad := node.attribute 3
  let stride := node.attribute 4
  let r := heap.dim (input node 1) 2
  let s := heap.dim (input node 1) 3
  block [
    Heap.divide (input node 0) 2 (strategy.split 0 2),
    Heap.divide (input node 0) 3 (strategy.split 0 3),
    onlyIf (1 < strategy.split 0 2) fun heap =>
      heap.setDim (input node 0) 2 ((heap.dim (output node) 2 - 1) * stride + r - pad),
    onlyIf (1 < strategy.split 0 3) fun heap =>
      heap.setDim (input node 0) 3 ((heap.dim (output node) 3 - 1) * stride + s - pad),
    each (List.range 4) fun i => Heap.divide (input node 1) i (strategy.split 1 i)] heap

def convSplit : Heap → Heap :=
  block [
    convTiles node strategy,
    onlyIf (2 < node.inputs.length) (Heap.divide (input node 2) 0 (strategy.split 1 0))]

/-- `shape[0] /= splitSize[1][0]` for the inputs from `first` on. -/
def splitFrom (first : Nat) : Heap → Heap :=
  onlyIf (1 < strategy.split 1 0)
    (each (List.range' first (node.inputs.length - first)) fun i =>
      Heap.divide (input node i) 0 (strategy.split 1 0))

def convBatchnormSplit : Heap → Heap :=
  block [
    convTiles node strategy,
    if node.inputs.length = 7 then
      block [Heap.divide (input node 2) 0 (strategy.split 1 0), splitFrom node strategy 3]
    else
      splitFrom node strategy 2]

def batchnormSplit : Heap → Heap :=
  block [
    each (List.range 4) fun j => block [
      Heap.divide (input node 0) j (strategy.split 0 j),
      Heap.divide (output node) j (strategy.split 0 j)],
    each (List.range' 1 4) fun i => Heap.divide (input node i) 0 (strategy.split 0 0)]

def avgPoolSplit : Heap → Heap :=
  block [
    Heap.divide (input node 0) 1 (strategy.split 0 1),
    Heap.divide (output node) 1 (strategy.split 0 1)]

/-- The input tile takes both its sides from the height of the output tile. -/
def maxPoolSplit (heap : Heap) : Heap :=
  let heap := block [
    Heap.divide (input node 0) 1 (strategy.split 0 1),
    Heap.divide (output node) 1 (strategy.split 0 1),
    Heap.divide (output node) 2 (strategy.split 0 2),
    Heap.divide (output node) 3 (strategy.split 0 3)] heap
  let kernel := node.attribute 0
  let stride := node.attribute 2
  let outputH := heap.dim (output node) 2
  block [
    Heap.setDim (input node 0) 2 ((outputH - 1) * stride + kernel),
    Heap.setDim (input node 0) 3 ((outputH - 1) * stride + kernel)] heap

/-- The size of a tile in bytes, for every tensor of the node. -/
def computeSize : Heap → Heap :=
  each (node.inputs ++ node.outputs) fun p heap => heap.setSize p (heap.elements p * 4)

/-- The sizes before the split, in elements; the node keeps them. -/
def computeOriginalSize (heap : Heap) : Node × Heap :=
  ({ node with originalInputSize := node.originalInputSize ++ node.inputs.map heap.elements },
   each node.inputs (fun p heap => heap.setSize p (heap.elements p)) heap)

end Workload

/-! ## The choice of the generator -/

def getNumSubgraph (strategy : Strategy) : Nat :=
  if strategy.splitSize.length = 2 then
    strategy.split 0 2 * strategy.split 0 3 * (strategy.splitSize.getD 1 []).prod
  else
    (strategy.splitSize.getD 0 []).prod

/-- The first node takes over the parameters and the output of the second. -/
def fuse : List Node → Option Node
  | [] => none
  | [a, b, _] =>
    some { a with inputs := a.inputs ++ b.inputs.tail, outputs := [b.pointer .output] }
  | [a, b] =>
    if b.op = .batchnormal then
      some { a with inputs := a.inputs ++ b.inputs.tail, outputs := [b.pointer .output] }
    else if b.op = .relu then
      some { a with outputs := [b.pointer .output] }
    else
      some a
  | a :: _ => some a

/-- What `top.cpp` runs: a generator, one of its functions, and the tensors cut to tiles. -/
structure Plan where
  kind : Kind
  generator : TrafficGenerator
  heap : Heap

def weightOrOutput (weight output : Kind) : Mapping → Option Kind
  | .weight => some weight
  | .output => some output
  | .other => none

/-- The element-wise generators are not given the strategy, and do not use one. -/
def planElementWise (numPE : Nat) (strategy : Strategy) (node : Node) (heap : Heap) : Plan where
  kind := .elementWise
  generator := ⟨numPE, getNumSubgraph strategy, node, ⟨[], .other⟩⟩
  heap := Workload.computeSize node heap

/-- `none` for an operator or a mapping without a generator. -/
def plan (numPE : Nat) (node : Node) (strategy : Strategy) (heap : Heap) : Option Plan :=
  match node.op with
  | .conv =>
    let (copy, heap) := Workload.computeOriginalSize node heap
    if node.inputs.length ≤ 3 then
      (weightOrOutput .convWeightStationary .convOutputStationary strategy.mappingStrategy).map
        fun kind =>
          { kind := kind, generator := ⟨numPE, getNumSubgraph strategy, copy, strategy⟩,
            heap := Workload.computeSize copy (Workload.convSplit copy strategy heap) }
    else
      (weightOrOutput .convBatchnormWeight .convBatchnormOutput strategy.mappingStrategy).map
        fun kind =>
          { kind := kind, generator := ⟨numPE, 1, copy, strategy⟩,
            heap := Workload.computeSize copy (Workload.convBatchnormSplit copy strategy heap) }
  | .batchnormal =>
    let (copy, heap) := Workload.computeOriginalSize node heap
    some
      { kind := .batchnorm, generator := ⟨numPE, getNumSubgraph strategy, copy, strategy⟩,
        heap := Workload.computeSize copy (Workload.batchnormSplit copy strategy heap) }
  | .relu =>
    some (planElementWise numPE strategy (Workload.splitNode node)
      (Workload.split node strategy heap))
  | .maxpool =>
    some (planElementWise numPE strategy node (Workload.maxPoolSplit node strategy heap))
  | .avgpool =>
    some (planElementWise numPE strategy node (Workload.avgPoolSplit node strategy heap))
  | .gemm | .softmax | .reshape => none

def Plan.run (plan : Plan) : State := plan.generator.generateTraffic plan.kind (State.new plan.heap)

/-- `main`, up to the writing of the file. -/
def top (numPE : Nat) (nodes : List Node) (strategy : Strategy) (heap : Heap) :
    Option (List Traffic) := do
  let node ← fuse nodes
  let plan ← plan numPE node strategy heap
  return plan.run.trafficList

end Generator

import Lab447.Lib.Command
import Lab447.Traffic

/-!
The traffic generator (`traffic_generator/traffic_generator.hpp`). A generator
walks over the tensors of a node tile by tile: each read or write appends an
entry at the tensor's `address` and moves that address on by the tile's size.

`double` division and `ceil` in the constructor are exact for `int`s, so
`round` is the rounded up quotient. Loop bounds and counts are natural numbers.
-/

namespace Generator

open Command

/-- Conversion to `uint64_t`. -/
def uint64 (x : Int) : Nat := (x % 2 ^ 64).toNat

/-- A tensor of `graph.hpp`; `size` is the size of one tile in bytes and
`originalSize` that of the whole tensor. -/
structure Tensor where
  shape : List Int
  size : Int
  address : Nat
  originalSize : Nat
  deriving DecidableEq, Repr

inductive Operator where
  | conv
  | gemm
  | relu
  | maxpool
  | batchnormal
  | softmax
  | reshape
  | avgpool
  deriving DecidableEq, Repr

/-- A node holds pointers to its tensors; of an attribute only the data is read. -/
structure Node where
  op : Operator
  inputs : List Nat
  outputs : List Nat
  attributes : List (List Int)
  originalInputSize : List Int
  deriving DecidableEq, Repr

/-- The tensors a generator names: `inputs[j]` and `outputs[0]`. -/
inductive Slot where
  | input (j : Nat)
  | output
  deriving DecidableEq, Repr

def Node.pointer (node : Node) : Slot → Nat
  | .input j => node.inputs.getD j 0
  | .output => node.outputs.getD 0 0

inductive Mapping where
  | weight
  | output
  | other
  deriving DecidableEq, Repr

structure Strategy where
  splitSize : List (List Nat)
  mappingStrategy : Mapping
  deriving DecidableEq, Repr

/-- `splitSize[i][j]`. -/
def Strategy.split (strategy : Strategy) (i j : Nat) : Nat :=
  (strategy.splitSize.getD i []).getD j 0

/-- The tensors, by pointer. -/
abbrev Heap := Nat → Tensor

def Heap.modify (heap : Heap) (p : Nat) (f : Tensor → Tensor) : Heap :=
  fun q => if q = p then f (heap p) else heap q

/-- The tensors and the traffic so far. `accesses` repeats the reads and writes
of `trafficList` with the tensor each one is made for; nothing reads it. -/
structure State where
  heap : Heap
  trafficList : List Traffic
  accesses : List (Slot × Traffic)

/-- `TrafficGenerator`, without the fields that no function reads. -/
structure TrafficGenerator where
  numPE : Nat
  numSubgraph : Nat
  splitNode : Node
  strategy : Strategy

/-- An entry of PE `i` that moves no data. The address of a compute entry is the
global `addr`, which stays 0. -/
def mark (type : RequestType) (i : Nat) : Traffic where
  type := type
  src := (0, i)
  dest := (1, 0)
  addr := 0
  size := 0
  request := .unicast
  response := .unicast

def push (t : Traffic) (s : State) : State :=
  { s with trafficList := s.trafficList ++ [t] }

namespace TrafficGenerator

variable (g : TrafficGenerator)

def round : Nat := (g.numSubgraph + g.numPE - 1) / g.numPE

def remainder : Nat := g.numSubgraph % g.numPE

def pointer (slot : Slot) : Nat := g.splitNode.pointer slot

def inputs : Nat := g.splitNode.inputs.length

/-- The entry of an access of PE `i` at the current address of a tensor. -/
def entry (type : RequestType) (response : TrafficType) (size : Int) (slot : Slot) (i : Nat)
    (s : State) : Traffic where
  type := type
  src := (0, i)
  dest := (1, 0)
  addr := (s.heap (g.pointer slot)).address
  size := uint64 size
  request := .unicast
  response := response

/-- An access appends its entry and moves the address on. -/
def access (type : RequestType) (response : TrafficType) (size : Int) (slot : Slot) (i : Nat)
    (s : State) : State where
  heap := s.heap.modify (g.pointer slot) fun x =>
    { x with address := uint64 (x.address + uint64 size) }
  trafficList := s.trafficList ++ [g.entry type response size slot i s]
  accesses := s.accesses ++ [(slot, g.entry type response size slot i s)]

def unicast (type : RequestType) (k : Nat) (size : Int) (slot : Slot) : State → State :=
  each (List.range k) (g.access type .unicast size slot)

def unicastRead : Nat → Int → Slot → State → State := g.unicast .read

def unicastWrite : Nat → Int → Slot → State → State := g.unicast .write

def sync (i : Nat) : State → State := push (mark .sync i)

def broadcastRead (size : Int) (slot : Slot) : State → State :=
  block [g.access .read .broadcast size slot 0, each (List.range' 1 (g.numPE - 1)) sync]

def compute (k : Nat) : State → State := each (List.range k) fun i => push (mark .compute i)

def size (slot : Slot) (s : State) : Int := (s.heap (g.pointer slot)).size

/-- `unicast_read(k, t->size, t->address)` -/
def read (k : Nat) (slot : Slot) (s : State) : State := g.unicastRead k (g.size slot s) slot s

/-- `unicast_write(k, t->size, t->address)` -/
def write (k : Nat) (slot : Slot) (s : State) : State := g.unicastWrite k (g.size slot s) slot s

/-- `broadcast_read(t->size, t->address)` -/
def broadcast (slot : Slot) (s : State) : State := g.broadcastRead (g.size slot s) slot s

/-! ## Element-wise operators -/

def generateTrafficElementWise : State → State :=
  block [
    times g.round (block [
      each (List.range g.inputs) fun j => g.read g.numPE (.input j),
      compute g.numPE,
      g.write g.numPE .output]),
    onlyIf (g.remainder ≠ 0) (block [
      each (List.range g.inputs) fun j => g.read g.numPE (.input j),
      compute g.remainder,
      g.write g.remainder .output])]

/-! ## Convolution -/

/-- `K / PE` -/
def weightRound : Nat := g.strategy.split 1 0 / g.numPE

def c : Nat := g.strategy.split 0 1

def knum : Nat := g.strategy.split 1 0

def hw : Nat := g.strategy.split 0 2 * g.strategy.split 0 3

def inputRound : Nat := g.hw / g.numPE

def inputRemainder : Nat := g.hw % g.numPE

/-- The loop over the input tiles of one weight tile, the same in the three
weight stationary generators. -/
def weightTile : State → State :=
  block [
    g.read g.numPE (.input 1),
    times g.hw (block [
      g.broadcast (.input 0),
      compute g.numPE,
      g.write g.numPE .output])]

def generateTrafficConvWeightStationary : State → State :=
  times g.weightRound (block [
    onlyIf (2 < g.inputs) (g.read g.numPE (.input 2)),
    times g.c g.weightTile])

def generateTrafficConvOutputStationary : State → State :=
  block [
    times g.c (block [
      times g.inputRound (block [
        g.read g.numPE (.input 0),
        times g.knum (block [
          g.broadcast (.input 1),
          onlyIf (2 < g.inputs) (g.read g.numPE (.input 2)),
          compute g.numPE])]),
      onlyIf (g.inputRemainder ≠ 0) (block [
        g.read g.inputRemainder (.input 0),
        onlyIf (2 < g.inputs) (g.read g.inputRemainder (.input 2)),
        times g.knum (block [
          g.broadcast (.input 1),
          onlyIf (2 < g.inputs) (g.read g.numPE (.input 2)),
          compute g.inputRemainder])])]),
    g.write g.numPE .output]

/-! ## Batch normalisation -/

/-- The parameters: scale, B, mean, var. -/
def parameters : List Nat := List.range' 1 (g.inputs - 1)

/-- Read, compute and write one tile on each of `k` PEs. -/
def batchnormTiles (k : Nat) : State → State :=
  block [g.read k (.input 0), compute k, g.write k .output]

def generateTrafficBatchnorm : State → State :=
  if 1 < g.c ∧ g.strategy.split 0 2 = 1 ∧ g.strategy.split 0 3 = 1 then
    block [
      times (g.c / g.numPE) (block [
        g.read g.numPE (.input 0),
        each g.parameters fun j => g.read g.numPE (.input j),
        compute g.numPE,
        g.write g.numPE .output]),
      onlyIf (g.c % g.numPE ≠ 0) (block [
        g.read (g.c % g.numPE) (.input 0),
        each g.parameters fun j => g.broadcast (.input j),
        compute (g.c % g.numPE),
        g.write (g.c % g.numPE) .output])]
  else if 1 < g.c ∧ g.strategy.split 0 2 ≠ 1 ∧ g.strategy.split 0 3 ≠ 1 then
    times g.c (block [
      each g.parameters fun j => g.broadcast (.input j),
      times g.inputRound (g.batchnormTiles g.numPE),
      onlyIf (g.inputRemainder ≠ 0) (g.batchnormTiles g.inputRemainder)])
  else if g.c = 1 then
    block [
      each g.parameters fun j => g.broadcast (.input j),
      times g.round (g.batchnormTiles g.numPE),
      -- the remainder reads a tile for every PE, not for the remaining ones
      onlyIf (g.remainder ≠ 0) (block [
        g.read g.numPE (.input 0),
        compute g.remainder,
        g.write g.remainder .output])]
  else
    id

/-! ## Traffic reduction -/

def generateTrafficConvWeightReduction : State → State :=
  block [
    onlyIf (2 < g.inputs) (g.broadcast (.input 2)),
    times g.weightRound (times g.c g.weightTile)]

/-- `origianl_input_size[j]` -/
def originalInputSize (j : Nat) : Int := g.splitNode.originalInputSize.getD j 0

def generateTrafficConvOutputReduction : State → State :=
  block [
    onlyIf (2 < g.inputs) (g.broadcastRead (g.originalInputSize 2) (.input 2)),
    times g.c (block [
      times g.inputRound (block [
        g.read g.numPE (.input 0),
        times g.knum (block [g.broadcast (.input 1), compute g.numPE])]),
      onlyIf (g.inputRemainder ≠ 0) (block [
        g.read g.inputRemainder (.input 0),
        onlyIf (2 < g.inputs) (g.read g.inputRemainder (.input 2)),
        times g.knum (block [g.broadcast (.input 1), compute g.inputRemainder])])]),
    g.write g.numPE .output]

/-- The local `num_subgraph` of the reduction. -/
def subgraphs : Nat := g.strategy.split 0 1 * g.strategy.split 0 2 * g.strategy.split 0 3

def generateTrafficBatchnormReduction : State → State :=
  block [
    each (List.range' 1 (g.splitNode.originalInputSize.length - 1)) fun j =>
      g.broadcastRead (g.originalInputSize j) (.input j),
    times (g.subgraphs / g.numPE) (g.batchnormTiles g.numPE),
    onlyIf (g.subgraphs % g.numPE ≠ 0) (g.batchnormTiles (g.subgraphs % g.numPE))]

/-! ## Fused convolution and batch normalisation -/

/-- The batch-norm tensors are the last four inputs. -/
def readBatchnormWeight : State → State :=
  each (List.range 4) fun j => g.read g.numPE (.input (g.inputs - 1 - j))

def generateTrafficConvBatchnormWeight : State → State :=
  times g.weightRound (block [
    onlyIf (g.inputs = 7) (g.read g.numPE (.input 2)),
    g.readBatchnormWeight,
    times g.c g.weightTile])

def generateTrafficConvBatchnormOutput : State → State :=
  block [
    times g.c (block [
      times g.inputRound (block [
        g.read g.numPE (.input 0),
        times g.knum (block [
          g.broadcast (.input 1),
          onlyIf (g.inputs = 7) (g.read g.numPE (.input 2)),
          g.readBatchnormWeight,
          compute g.numPE])]),
      onlyIf (g.inputRemainder ≠ 0) (block [
        g.read g.inputRemainder (.input 0),
        onlyIf (g.inputs = 7) (g.read g.numPE (.input 2)),
        times g.knum (block [
          g.broadcast (.input 1),
          -- guarded by the input count of a plain convolution here
          onlyIf (2 < g.inputs) (g.read g.numPE (.input 2)),
          g.readBatchnormWeight,
          compute g.inputRemainder])])]),
    g.write g.numPE .output]

end TrafficGenerator

/-- The `generate_traffic_*` functions. -/
inductive Kind where
  | elementWise
  | convWeightStationary
  | convOutputStationary
  | batchnorm
  | convWeightReduction
  | convOutputReduction
  | batchnormReduction
  | convBatchnormWeight
  | convBatchnormOutput
  deriving DecidableEq, Repr

def TrafficGenerator.generateTraffic (g : TrafficGenerator) : Kind → State → State
  | .elementWise => g.generateTrafficElementWise
  | .convWeightStationary => g.generateTrafficConvWeightStationary
  | .convOutputStationary => g.generateTrafficConvOutputStationary
  | .batchnorm => g.generateTrafficBatchnorm
  | .convWeightReduction => g.generateTrafficConvWeightReduction
  | .convOutputReduction => g.generateTrafficConvOutputReduction
  | .batchnormReduction => g.generateTrafficBatchnormReduction
  | .convBatchnormWeight => g.generateTrafficConvBatchnormWeight
  | .convBatchnormOutput => g.generateTrafficConvBatchnormOutput

/-- A new generator has an empty traffic list. -/
def State.new (heap : Heap) : State := { heap := heap, trafficList := [], accesses := [] }

/-- The traffic list of a new generator after one of the functions. -/
def TrafficGenerator.generated (g : TrafficGenerator) (kind : Kind) (heap : Heap) : List Traffic :=
  (g.generateTraffic kind (State.new heap)).trafficList

end Generator

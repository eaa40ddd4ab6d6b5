import Lab447.Generator.Model

/-!
A generator as the word of the helper calls it makes, and its traffic list with
every entry marked with the tensor it is for.
-/

namespace Generator

open Command

/-! ## Entries and their tensors -/

/-- The entries of a list with their tensors: a read or write is for the tensor it
was recorded with, and a `SYNC` for that of the broadcast before it. -/
def label : Option Slot → List Traffic → List (Slot × Traffic) → List (Option Slot × Traffic)
  | _, [], _ => []
  | last, t :: ts, accesses =>
    match t.type, accesses with
    | .sync, _ => (last, t) :: label last ts accesses
    | .compute, _ => (none, t) :: label last ts accesses
    | _, (slot, _) :: rest =>
      (some slot, t) :: label (if t.response = .broadcast then some slot else last) ts rest
    | _, [] => (none, t) :: label last ts []

def State.labelled (s : State) : List (Option Slot × Traffic) :=
  label none s.trafficList s.accesses

/-- The traffic list of a new generator, with the tensors. -/
def TrafficGenerator.labelled (g : TrafficGenerator) (kind : Kind) (heap : Heap) :
    List (Option Slot × Traffic) :=
  (g.generateTraffic kind (State.new heap)).labelled

theorem map_snd_label (last : Option Slot) (l : List Traffic) (accesses : List (Slot × Traffic)) :
    (label last l accesses).map Prod.snd = l := by
  induction l generalizing last accesses with
  | nil => rfl
  | cons t ts ih =>
    unfold label
    split <;> simp [ih]

theorem TrafficGenerator.map_snd_labelled (g : TrafficGenerator) (kind : Kind) (heap : Heap) :
    (g.labelled kind heap).map Prod.snd = g.generated kind heap :=
  map_snd_label _ _ _

/-! ## Operations -/

/-- One entry to be made; a `SYNC` knows the tensor that is broadcast. -/
inductive Op where
  | read (response : TrafficType) (size : Int) (slot : Slot) (pe : Nat)
  | write (size : Int) (slot : Slot) (pe : Nat)
  | sync (slot : Slot) (pe : Nat)
  | compute (pe : Nat)
  deriving DecidableEq

namespace Op

def slot : Op → Option Slot
  | read _ _ slot _ => some slot
  | write _ slot _ => some slot
  | sync slot _ => some slot
  | compute _ => none

variable (g : TrafficGenerator)

def perform : Op → State → State
  | read response size slot i => g.access .read response size slot i
  | write size slot i => g.access .write .unicast size slot i
  | sync _ i => push (mark .sync i)
  | compute i => push (mark .compute i)

/-- The entry that is made when the tensors are these. -/
def entry (heap : Heap) : Op → Traffic
  | read response size slot i => g.entry .read response size slot i (State.new heap)
  | write size slot i => g.entry .write .unicast size slot i (State.new heap)
  | sync _ i => mark .sync i
  | compute i => mark .compute i

/-- The tensors after it. -/
def move (op : Op) (heap : Heap) : Heap := (op.perform g (State.new heap)).heap

theorem heap_perform (op : Op) (s : State) : (op.perform g s).heap = op.move g s.heap := by
  cases op <;> rfl

theorem trafficList_perform (op : Op) (s : State) :
    (op.perform g s).trafficList = s.trafficList ++ [op.entry g s.heap] := by
  cases op <;> rfl

end Op

/-- The entries of a list of operations, with their tensors. -/
def emit (g : TrafficGenerator) : List Op → Heap → List (Option Slot × Traffic)
  | [], _ => []
  | op :: ops, heap => (op.slot, op.entry g heap) :: emit g ops (op.move g heap)

/-- The reads and writes of a list of entries. -/
def recorded (es : List (Option Slot × Traffic)) : List (Slot × Traffic) :=
  es.filterMap fun e => if e.2.isAccess then e.1.map fun slot => (slot, e.2) else none

variable {g : TrafficGenerator}

theorem trafficList_each (ops : List Op) (s : State) :
    (each ops (Op.perform g) s).trafficList = s.trafficList ++ (emit g ops s.heap).map Prod.snd := by
  induction ops generalizing s with
  | nil => simp [emit]
  | cons op ops ih =>
    rw [each_cons, ih, op.trafficList_perform, op.heap_perform]
    simp [emit]

theorem accesses_each (ops : List Op) (s : State) :
    (each ops (Op.perform g) s).accesses = s.accesses ++ recorded (emit g ops s.heap) := by
  induction ops generalizing s with
  | nil => simp [emit, recorded]
  | cons op ops ih =>
    rw [each_cons, ih, op.heap_perform]
    have one : (op.perform g s).accesses =
        s.accesses ++ recorded [(op.slot, op.entry g s.heap)] := by
      cases op with
      | read => rfl
      | write => rfl
      | sync => exact (List.append_nil _).symm
      | compute => exact (List.append_nil _).symm
    rw [one, List.append_assoc, recorded, recorded, ← List.filterMap_append]
    rfl

/-- Every `SYNC` comes after a broadcast of its tensor, with no other in between;
`last` is the tensor that was broadcast last. -/
def Tidy : Option Slot → List Op → Prop
  | _, [] => True
  | last, .sync slot _ :: ops => last = some slot ∧ Tidy last ops
  | last, .read response _ slot _ :: ops =>
    Tidy (if response = .broadcast then some slot else last) ops
  | last, .write .. :: ops => Tidy last ops
  | last, .compute _ :: ops => Tidy last ops

theorem label_emit {last : Option Slot} {ops : List Op} (tidy : Tidy last ops) (heap : Heap) :
    label last ((emit g ops heap).map Prod.snd) (recorded (emit g ops heap)) =
      emit g ops heap := by
  induction ops generalizing last heap with
  | nil => rfl
  | cons op ops ih =>
    cases op with
    | read response size slot pe =>
      have rest := ih tidy (Op.move g (.read response size slot pe) heap)
      exact congrArg (List.cons _) rest
    | write size slot pe =>
      have rest := ih tidy (Op.move g (.write size slot pe) heap)
      exact congrArg (List.cons _) rest
    | sync slot pe =>
      obtain ⟨rfl, tidy⟩ := tidy
      exact congrArg (List.cons _) (ih tidy heap)
    | compute pe => exact congrArg (List.cons _) (ih tidy heap)

/-! ## Calls -/

/-- The helper functions a generator calls. -/
inductive Call where
  | unicastRead (k : Nat) (size : Int) (slot : Slot)
  | unicastWrite (k : Nat) (size : Int) (slot : Slot)
  | broadcastRead (size : Int) (slot : Slot)
  | compute (k : Nat)
  deriving DecidableEq

namespace Call

def perform (g : TrafficGenerator) : Call → State → State
  | unicastRead k size slot => g.unicastRead k size slot
  | unicastWrite k size slot => g.unicastWrite k size slot
  | broadcastRead size slot => g.broadcastRead size slot
  | compute k => TrafficGenerator.compute k

def slot : Call → Option Slot
  | unicastRead _ _ slot => some slot
  | unicastWrite _ _ slot => some slot
  | broadcastRead _ slot => some slot
  | compute _ => none

def ops (numPE : Nat) : Call → List Op
  | unicastRead k size slot => (List.range k).map (Op.read .unicast size slot)
  | unicastWrite k size slot => (List.range k).map (Op.write size slot)
  | broadcastRead size slot =>
    Op.read .broadcast size slot 0 :: (List.range' 1 (numPE - 1)).map (Op.sync slot)
  | compute k => (List.range k).map Op.compute

theorem perform_eq (call : Call) : call.perform g = each (call.ops g.numPE) (Op.perform g) := by
  have each_map (xs : List Nat) (f : Nat → Op) :
      each (xs.map f) (Op.perform g) = each xs fun i => (f i).perform g := by
    rw [each, each, List.map_map]
    rfl
  cases call with
  | unicastRead k size slot => exact (each_map (List.range k) (.read .unicast size slot)).symm
  | unicastWrite k size slot => exact (each_map (List.range k) (.write size slot)).symm
  | broadcastRead size slot =>
    have syncs := each_map (List.range' 1 (g.numPE - 1)) (.sync slot)
    exact funext fun s => congrFun syncs.symm _
  | compute k => exact (each_map (List.range k) .compute).symm

theorem slot_of_mem_ops {call : Call} {numPE : Nat} {op : Op} (h : op ∈ call.ops numPE) :
    op.slot = call.slot := by
  cases call with
  | broadcastRead size slot =>
    obtain rfl | h := List.mem_cons.mp h
    · rfl
    · obtain ⟨i, -, rfl⟩ := List.mem_map.mp h
      rfl
  | _ =>
    obtain ⟨i, -, rfl⟩ := List.mem_map.mp h
    rfl

end Call

theorem tidy_map {last : Option Slot} {f : Nat → Op} {ops : List Op} (xs : List Nat)
    (step : ∀ i ops, Tidy last ops → Tidy last (f i :: ops)) (tidy : Tidy last ops) :
    Tidy last (xs.map f ++ ops) := by
  induction xs with
  | nil => exact tidy
  | cons x xs ih => exact step x _ ih

/-- The operations of the calls of a word. -/
def opsOf (numPE : Nat) (w : List Call) : List Op := w.flatMap (Call.ops numPE)

theorem tidy_opsOf (numPE : Nat) (w : List Call) (last : Option Slot) :
    Tidy last (opsOf numPE w) := by
  induction w generalizing last with
  | nil => trivial
  | cons call w ih =>
    cases call with
    | unicastRead k size slot => exact tidy_map _ (fun _ _ h => h) (ih last)
    | unicastWrite k size slot => exact tidy_map _ (fun _ _ h => h) (ih last)
    | compute k => exact tidy_map _ (fun _ _ h => h) (ih last)
    | broadcastRead size slot =>
      have syncs : Tidy (some slot)
          ((List.range' 1 (numPE - 1)).map (Op.sync slot) ++ opsOf numPE w) :=
        tidy_map _ (fun _ _ h => ⟨rfl, h⟩) (ih (some slot))
      exact syncs

theorem each_perform (w : List Call) (s : State) :
    each w (Call.perform g) s = each (opsOf g.numPE w) (Op.perform g) s := by
  induction w generalizing s with
  | nil => rfl
  | cons call w ih =>
    rw [each_cons, ih, call.perform_eq, ← each_append]
    rfl

/-- The entries of a word of calls, with their tensors. -/
def TrafficGenerator.emitted (g : TrafficGenerator) (w : List Call) (heap : Heap) :
    List (Option Slot × Traffic) :=
  emit g (opsOf g.numPE w) heap

theorem labelled_each (w : List Call) (heap : Heap) :
    (each w (Call.perform g) (State.new heap)).labelled = g.emitted w heap := by
  rw [each_perform, State.labelled, trafficList_each, accesses_each]
  exact label_emit (tidy_opsOf g.numPE w none) heap

/-! ## The words of the generators -/

/-- The tiles have the sizes they have in `heap`. -/
def Sized (heap : Heap) (s : State) : Prop := ∀ p, (s.heap p).size = (heap p).size

namespace TrafficGenerator

variable {heap : Heap}

theorem sized_access (type : RequestType) (response : TrafficType) (size : Int) (slot : Slot)
    (i : Nat) : Keeps (Sized heap) (g.access type response size slot i) := by
  intro s hs p
  rw [← hs p]
  simp only [access, Heap.modify]
  split
  · rename_i hp
    rw [hp]
  · rfl

theorem sized_perform (call : Call) : Keeps (Sized heap) (call.perform g) := by
  rw [call.perform_eq]
  refine .each fun op _ => ?_
  cases op with
  | read => exact sized_access _ _ _ _ _
  | write => exact sized_access _ _ _ _ _
  | sync => exact fun _ hs => hs
  | compute => exact fun _ hs => hs

variable (g heap)

/-- The size of a tile. -/
def tileSize (slot : Slot) : Int := (heap (g.pointer slot)).size

def readCall (k : Nat) (slot : Slot) : Call := .unicastRead k (g.tileSize heap slot) slot

def writeCall (k : Nat) (slot : Slot) : Call := .unicastWrite k (g.tileSize heap slot) slot

def broadcastCall (slot : Slot) : Call := .broadcastRead (g.tileSize heap slot) slot

/-- `c` makes the calls of the word, in every state with the tile sizes of `heap`. -/
def Makes (c : State → State) (w : List Call) : Prop := Spells (Call.perform g) (Sized heap) c w

/-- `w`, `k` times. -/
def repeated (k : Nat) (w : List Call) : List Call := (List.replicate k w).flatten

variable {g heap} {c : State → State} {w ws : List Call}

namespace Makes

theorem congr {v : List Call} (h : g.Makes heap c w) (eq : w = v) : g.Makes heap c v := eq ▸ h

theorem cons {cs : List (State → State)} (h : g.Makes heap c w) (hs : g.Makes heap (block cs) ws) :
    g.Makes heap (block (c :: cs)) (w ++ ws) :=
  Spells.cons sized_perform h hs

theorem nil : g.Makes heap (block []) [] := Spells.nil

theorem times (k : Nat) (h : g.Makes heap c w) : g.Makes heap (times k c) (repeated k w) :=
  Spells.times sized_perform k h

theorem each {xs : List Nat} {c : Nat → State → State} {w : Nat → List Call}
    (h : ∀ x ∈ xs, g.Makes heap (c x) (w x)) : g.Makes heap (each xs c) (xs.flatMap w) :=
  Spells.each sized_perform h

theorem onlyIf (p : Prop) [Decidable p] (h : g.Makes heap c w) :
    g.Makes heap (onlyIf p c) (if p then w else []) :=
  Spells.onlyIf p h

theorem read (k : Nat) (slot : Slot) : g.Makes heap (g.read k slot) [g.readCall heap k slot] := by
  intro s hs
  rw [TrafficGenerator.read, TrafficGenerator.size, hs]
  rfl

theorem write (k : Nat) (slot : Slot) : g.Makes heap (g.write k slot) [g.writeCall heap k slot] := by
  intro s hs
  rw [TrafficGenerator.write, TrafficGenerator.size, hs]
  rfl

theorem one (call : Call) : g.Makes heap (call.perform g) [call] := Spells.one call

theorem broadcast (slot : Slot) : g.Makes heap (g.broadcast slot) [g.broadcastCall heap slot] := by
  intro s hs
  rw [TrafficGenerator.broadcast, TrafficGenerator.size, hs]
  rfl

theorem compute (k : Nat) : g.Makes heap (compute k) [.compute k] := .one (.compute k)

theorem labelled_eq (h : g.Makes heap c w) : (c (State.new heap)).labelled = g.emitted w heap := by
  rw [h (State.new heap) fun _ => rfl, labelled_each]

theorem accesses_eq (h : g.Makes heap c w) :
    (c (State.new heap)).accesses = recorded (g.emitted w heap) := by
  rw [h (State.new heap) fun _ => rfl, each_perform, accesses_each]
  rfl

end Makes

variable (g heap)

/-- The calls for a tile on each of `k` PEs of an element-wise operator. -/
def elementCalls (k : Nat) : List Call :=
  (List.range g.inputs).map (fun j => g.readCall heap g.numPE (.input j)) ++
    [.compute k, g.writeCall heap k .output]

def elementWiseCalls : List Call :=
  repeated g.round (g.elementCalls heap g.numPE) ++
    if g.remainder ≠ 0 then g.elementCalls heap g.remainder else []

def weightTileCalls : List Call :=
  g.readCall heap g.numPE (.input 1) :: repeated g.hw
    [g.broadcastCall heap (.input 0), .compute g.numPE, g.writeCall heap g.numPE .output]

/-- The calls of a weight stationary convolution, with `first` before the weight
tiles of every round. -/
def weightCalls (first : List Call) : List Call :=
  repeated g.weightRound (first ++ repeated g.c (g.weightTileCalls heap))

/-- The read of the bias by `k` PEs, if there is one. -/
def biasCalls (k : Nat) : List Call :=
  if 2 < g.inputs then [g.readCall heap k (.input 2)] else []

def batchnormWeightCalls : List Call :=
  (if g.inputs = 7 then [g.readCall heap g.numPE (.input 2)] else []) ++
    (List.range 4).map fun j => g.readCall heap g.numPE (.input (g.inputs - 1 - j))

/-- The calls of an output stationary convolution, with `bias` after every
broadcast of a weight tile, and `first` before those of the remainder. -/
def outputCalls (bias first : List Call) : List Call :=
  repeated g.c (
    repeated g.inputRound (g.readCall heap g.numPE (.input 0) ::
      repeated g.knum (g.broadcastCall heap (.input 1) :: (bias ++ [.compute g.numPE]))) ++
    if g.inputRemainder ≠ 0 then
      g.readCall heap g.inputRemainder (.input 0) :: (first ++
        repeated g.knum (g.broadcastCall heap (.input 1) :: (bias ++ [.compute g.inputRemainder])))
    else []) ++
  [g.writeCall heap g.numPE .output]

variable {g heap}

theorem makes_elementWise :
    g.Makes heap g.generateTrafficElementWise (g.elementWiseCalls heap) :=
  .congr (.cons
    (.times _ <| .cons (.each fun _ _ => .read _ _) <| .cons (.compute _) <|
      .cons (.write _ _) .nil) <| .cons
    (.onlyIf _ <| .cons (.each fun _ _ => .read _ _) <| .cons (.compute _) <|
      .cons (.write _ _) .nil)
    .nil) (by simp [elementWiseCalls, elementCalls, List.map_eq_flatMap])

theorem makes_weightTile : g.Makes heap g.weightTile (g.weightTileCalls heap) :=
  .congr (.cons (.read _ _) <| .cons
    (.times _ <| .cons (.broadcast _) <| .cons (.compute _) <| .cons (.write _ _) .nil)
    .nil) (by simp [weightTileCalls])

theorem makes_convWeightStationary : g.Makes heap g.generateTrafficConvWeightStationary
    (g.weightCalls heap (g.biasCalls heap g.numPE)) :=
  .congr (.times _ <| .cons (.onlyIf _ <| .read _ _) <| .cons (.times _ makes_weightTile) .nil)
    (by simp [weightCalls, biasCalls])

theorem makes_convBatchnormWeight : g.Makes heap g.generateTrafficConvBatchnormWeight
    (g.weightCalls heap (g.batchnormWeightCalls heap)) :=
  .congr (.times _ <| .cons (.onlyIf _ <| .read _ _) <|
    .cons (.each fun _ _ => .read _ _) <| .cons (.times _ makes_weightTile) .nil)
    (by simp [weightCalls, batchnormWeightCalls, List.map_eq_flatMap])

theorem makes_convOutputStationary : g.Makes heap g.generateTrafficConvOutputStationary
    (g.outputCalls heap (g.biasCalls heap g.numPE) (g.biasCalls heap g.inputRemainder)) :=
  .congr (.cons
    (.times _ <| .cons
      (.times _ <| .cons (.read _ _) <| .cons
        (.times _ <| .cons (.broadcast _) <| .cons (.onlyIf _ <| .read _ _) <|
          .cons (.compute _) .nil)
        .nil) <| .cons
      (.onlyIf _ <| .cons (.read _ _) <| .cons (.onlyIf _ <| .read _ _) <| .cons
        (.times _ <| .cons (.broadcast _) <| .cons (.onlyIf _ <| .read _ _) <|
          .cons (.compute _) .nil)
        .nil)
      .nil) <|
    .cons (.write _ _) .nil) (by simp [outputCalls, biasCalls])

theorem makes_convWeightReduction : g.Makes heap g.generateTrafficConvWeightReduction
    ((if 2 < g.inputs then [g.broadcastCall heap (.input 2)] else []) ++ g.weightCalls heap []) :=
  .congr (.cons (.onlyIf _ <| .broadcast _) <| .cons (.times _ <| .times _ makes_weightTile) .nil)
    (by simp [weightCalls])

theorem makes_convOutputReduction : g.Makes heap g.generateTrafficConvOutputReduction
    ((if 2 < g.inputs then [.broadcastRead (g.originalInputSize 2) (.input 2)] else []) ++
      g.outputCalls heap [] (g.biasCalls heap g.inputRemainder)) :=
  .congr (.cons (.onlyIf _ <| .one (.broadcastRead (g.originalInputSize 2) (.input 2))) <| .cons
    (.times _ <| .cons
      (.times _ <| .cons (.read _ _) <| .cons
        (.times _ <| .cons (.broadcast _) <| .cons (.compute _) .nil)
        .nil) <| .cons
      (.onlyIf _ <| .cons (.read _ _) <| .cons (.onlyIf _ <| .read _ _) <| .cons
        (.times _ <| .cons (.broadcast _) <| .cons (.compute _) .nil)
        .nil)
      .nil) <|
    .cons (.write _ _) .nil) (by simp [outputCalls, biasCalls])

end TrafficGenerator

end Generator

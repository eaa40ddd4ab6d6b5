import Lab447.Generator.Model

/-!
The order in which a generator accesses the tensors, as a word over the slots,
and from it how many pieces of each tensor it accesses.
-/

namespace Generator

open Command FreeAddMonoid

/-- The tensors accessed so far, in order. -/
def order (s : State) : FreeAddMonoid Slot := ofList (s.accesses.map Prod.fst)

/-- `w`, `k` times. -/
def copies (k : Nat) (w : FreeAddMonoid Slot) : FreeAddMonoid Slot := k • w

/-- One more round when something is left over. -/
def extra (remainder : Nat) : Nat := if remainder = 0 then 0 else 1

theorem extra_mul_self (r : Nat) : extra r * r = r := by
  unfold extra
  split <;> simp_all

theorem ite_eq_copies (r : Nat) (w : FreeAddMonoid Slot) :
    (if r ≠ 0 then w else 0) = copies (extra r) w := by
  unfold extra copies
  split <;> simp_all

/-- The accesses to one tensor in a word. -/
def tally (slot : Slot) : FreeAddMonoid Slot →+ Nat := countP (· = slot)

@[simp] theorem tally_of (slot slot' : Slot) :
    tally slot (of slot') = if slot' = slot then 1 else 0 :=
  countP_of _ _

@[simp] theorem tally_ite (slot : Slot) (p : Prop) [Decidable p] (u v : FreeAddMonoid Slot) :
    tally slot (if p then u else v) = if p then tally slot u else tally slot v :=
  apply_ite _ _ _ _

@[simp] theorem tally_copies (slot : Slot) (k : Nat) (w : FreeAddMonoid Slot) :
    tally slot (copies k w) = k * tally slot w :=
  map_nsmul _ _ _

@[simp] theorem order_new (heap : Heap) : order (State.new heap) = 0 := rfl

namespace TrafficGenerator

variable {g : TrafficGenerator} {heap : Heap}

/-! ## The helpers -/

theorem order_access (type : RequestType) (response : TrafficType) (size : Int) (slot : Slot)
    (i : Nat) : Adds order (g.access type response size slot i) (of slot) := by
  intro s
  simp [order, access, ofList_append]

theorem order_push (t : Traffic) : Adds order (push t) 0 := fun s => (add_zero (order s)).symm

theorem order_unicast (type : RequestType) (k : Nat) (size : Int) (slot : Slot) :
    Adds order (g.unicast type k size slot) (copies k (of slot)) :=
  .congr (.each _ fun _ _ => order_access _ _ _ _ _) (by simp [copies])

theorem order_read (k : Nat) (slot : Slot) : Adds order (g.read k slot) (copies k (of slot)) :=
  fun s => order_unicast .read k _ slot s

theorem order_write (k : Nat) (slot : Slot) : Adds order (g.write k slot) (copies k (of slot)) :=
  fun s => order_unicast .write k _ slot s

theorem order_compute (k : Nat) : Adds order (compute k) 0 :=
  .congr (.each _ fun _ _ => order_push _) (by simp)

theorem order_broadcastRead (size : Int) (slot : Slot) :
    Adds order (g.broadcastRead size slot) (of slot) :=
  .congr (.cons (order_access _ _ _ _ _) <| .cons (.each _ fun _ _ => order_push _) .nil) (by simp)

theorem order_broadcast (slot : Slot) : Adds order (g.broadcast slot) (of slot) :=
  fun s => order_broadcastRead _ slot s

/-! ## The generators -/

/-- `k` copies of each of the inputs `js`. -/
def inputsWord (js : List Nat) (k : Nat) : FreeAddMonoid Slot :=
  (js.map fun j => copies k (of (.input j))).sum

theorem order_readEach (js : List Nat) (k : Nat) :
    Adds order (each js fun j => g.read k (.input j)) (inputsWord js k) :=
  Adds.each js fun _ _ => order_read _ _

theorem order_broadcastEach (js : List Nat) :
    Adds order (each js fun j => g.broadcast (.input j)) (inputsWord js 1) :=
  .congr (.each js fun _ _ => order_broadcast _) (by simp [inputsWord, copies])

theorem order_elementWise : Adds order g.generateTrafficElementWise
    (copies g.round (inputsWord (List.range g.inputs) g.numPE + copies g.numPE (of .output)) +
      copies (extra g.remainder)
        (inputsWord (List.range g.inputs) g.numPE + copies g.remainder (of .output))) :=
  .congr (.cons
    (.times _ <| .cons (order_readEach _ _) <| .cons (order_compute _) <|
      .cons (order_write _ _) .nil) <| .cons
    (.onlyIf _ <| .cons (order_readEach _ _) <| .cons (order_compute _) <|
      .cons (order_write _ _) .nil)
    .nil) (by simp only [ite_eq_copies, copies, zero_add, add_zero])

/-- The accesses of one weight tile. -/
def weightTileWord (g : TrafficGenerator) : FreeAddMonoid Slot :=
  copies g.numPE (of (.input 1)) + copies g.hw (of (.input 0) + copies g.numPE (of .output))

theorem order_weightTile : Adds order g.weightTile g.weightTileWord :=
  .congr (.cons (order_read _ _) <| .cons
    (.times _ <| .cons (order_broadcast _) <| .cons (order_compute _) <|
      .cons (order_write _ _) .nil)
    .nil) (by simp [weightTileWord, copies])

theorem order_convWeightStationary : Adds order g.generateTrafficConvWeightStationary
    (copies g.weightRound ((if 2 < g.inputs then copies g.numPE (of (.input 2)) else 0) +
      copies g.c g.weightTileWord)) :=
  .congr (.times _ <| .cons (.onlyIf _ <| order_read _ _) <|
    .cons (.times _ order_weightTile) .nil) (by simp [copies])

theorem order_convWeightReduction : Adds order g.generateTrafficConvWeightReduction
    ((if 2 < g.inputs then of (.input 2) else 0) +
      copies g.weightRound (copies g.c g.weightTileWord)) :=
  .congr (.cons (.onlyIf _ <| order_broadcast _) <|
    .cons (.times _ <| .times _ order_weightTile) .nil) (by simp [copies])

/-- The last four inputs, from the last one on. -/
def lastFour (g : TrafficGenerator) : List Nat := (List.range 4).map fun j => g.inputs - 1 - j

theorem order_readBatchnormWeight : Adds order g.readBatchnormWeight
    (inputsWord g.lastFour g.numPE) :=
  .congr (.each _ fun _ _ => order_read _ _) (by simp [inputsWord, lastFour, Function.comp_def])

theorem order_convBatchnormWeight : Adds order g.generateTrafficConvBatchnormWeight
    (copies g.weightRound ((if g.inputs = 7 then copies g.numPE (of (.input 2)) else 0) +
      (inputsWord g.lastFour g.numPE + copies g.c g.weightTileWord))) :=
  .congr (.times _ <| .cons (.onlyIf _ <| order_read _ _) <| .cons order_readBatchnormWeight <|
    .cons (.times _ order_weightTile) .nil) (by simp [copies])

/-- The accesses of an output stationary convolution: in each channel `k` PEs read
an input tile and then go over the weights, in rounds and once for the remainder,
which reads `first` before the weights. -/
def outputWord (g : TrafficGenerator) (first : FreeAddMonoid Slot)
    (weights weights' : FreeAddMonoid Slot) : FreeAddMonoid Slot :=
  copies g.c
    (copies g.inputRound (copies g.numPE (of (.input 0)) + copies g.knum weights) +
      copies (extra g.inputRemainder)
        (copies g.inputRemainder (of (.input 0)) + (first + copies g.knum weights'))) +
  copies g.numPE (of .output)

theorem order_convOutputStationary : Adds order g.generateTrafficConvOutputStationary
    (g.outputWord (if 2 < g.inputs then copies g.inputRemainder (of (.input 2)) else 0)
      (of (.input 1) + if 2 < g.inputs then copies g.numPE (of (.input 2)) else 0)
      (of (.input 1) + if 2 < g.inputs then copies g.numPE (of (.input 2)) else 0)) :=
  .congr (.cons
    (.times _ <| .cons
      (.times _ <| .cons (order_read _ _) <| .cons
        (.times _ <| .cons (order_broadcast _) <| .cons (.onlyIf _ <| order_read _ _) <|
          .cons (order_compute _) .nil)
        .nil) <| .cons
      (.onlyIf _ <| .cons (order_read _ _) <| .cons (.onlyIf _ <| order_read _ _) <| .cons
        (.times _ <| .cons (order_broadcast _) <| .cons (.onlyIf _ <| order_read _ _) <|
          .cons (order_compute _) .nil)
        .nil)
      .nil) <|
    .cons (order_write _ _) .nil)
    (by simp only [ite_eq_copies, outputWord, copies, add_zero])

theorem order_convOutputReduction : Adds order g.generateTrafficConvOutputReduction
    ((if 2 < g.inputs then of (.input 2) else 0) +
      g.outputWord (if 2 < g.inputs then copies g.inputRemainder (of (.input 2)) else 0)
        (of (.input 1)) (of (.input 1))) :=
  .congr (.cons (.onlyIf _ <| order_broadcastRead _ _) <| .cons
    (.times _ <| .cons
      (.times _ <| .cons (order_read _ _) <| .cons
        (.times _ <| .cons (order_broadcast _) <| .cons (order_compute _) .nil)
        .nil) <| .cons
      (.onlyIf _ <| .cons (order_read _ _) <| .cons (.onlyIf _ <| order_read _ _) <| .cons
        (.times _ <| .cons (order_broadcast _) <| .cons (order_compute _) .nil)
        .nil)
      .nil) <|
    .cons (order_write _ _) .nil)
    (by simp only [ite_eq_copies, outputWord, copies, add_zero])

theorem order_convBatchnormOutput : Adds order g.generateTrafficConvBatchnormOutput
    (g.outputWord (if g.inputs = 7 then copies g.numPE (of (.input 2)) else 0)
      (of (.input 1) + ((if g.inputs = 7 then copies g.numPE (of (.input 2)) else 0) +
        inputsWord g.lastFour g.numPE))
      (of (.input 1) + ((if 2 < g.inputs then copies g.numPE (of (.input 2)) else 0) +
        inputsWord g.lastFour g.numPE))) :=
  .congr (.cons
    (.times _ <| .cons
      (.times _ <| .cons (order_read _ _) <| .cons
        (.times _ <| .cons (order_broadcast _) <| .cons (.onlyIf _ <| order_read _ _) <|
          .cons order_readBatchnormWeight <| .cons (order_compute _) .nil)
        .nil) <| .cons
      (.onlyIf _ <| .cons (order_read _ _) <| .cons (.onlyIf _ <| order_read _ _) <| .cons
        (.times _ <| .cons (order_broadcast _) <| .cons (.onlyIf _ <| order_read _ _) <|
          .cons order_readBatchnormWeight <| .cons (order_compute _) .nil)
        .nil)
      .nil) <|
    .cons (order_write _ _) .nil)
    (by simp only [ite_eq_copies, outputWord, copies, add_zero])

/-- The accesses of `k` batch-norm tiles. -/
def tilesWord (k : Nat) : FreeAddMonoid Slot := copies k (of (.input 0)) + copies k (of .output)

theorem order_batchnormTiles (k : Nat) : Adds order (g.batchnormTiles k) (tilesWord k) :=
  .congr (.cons (order_read _ _) <| .cons (order_compute _) <| .cons (order_write _ _) .nil)
    (by simp [tilesWord])

/-- The tiles of all rounds and of the remainder. -/
def roundsWord (k numPE : Nat) : FreeAddMonoid Slot :=
  copies (k / numPE) (tilesWord numPE) + copies (extra (k % numPE)) (tilesWord (k % numPE))

theorem order_batchnorm : Adds order g.generateTrafficBatchnorm
    (if 1 < g.c ∧ g.strategy.split 0 2 = 1 ∧ g.strategy.split 0 3 = 1 then
      copies (g.c / g.numPE) (copies g.numPE (of (.input 0)) +
          (inputsWord g.parameters g.numPE + copies g.numPE (of .output))) +
        copies (extra (g.c % g.numPE)) (copies (g.c % g.numPE) (of (.input 0)) +
          (inputsWord g.parameters 1 + copies (g.c % g.numPE) (of .output)))
    else if 1 < g.c ∧ g.strategy.split 0 2 ≠ 1 ∧ g.strategy.split 0 3 ≠ 1 then
      copies g.c (inputsWord g.parameters 1 + roundsWord g.hw g.numPE)
    else if g.c = 1 then
      inputsWord g.parameters 1 + (copies g.round (tilesWord g.numPE) +
        copies (extra g.remainder)
          (copies g.numPE (of (.input 0)) + copies g.remainder (of .output)))
    else 0) := by
  unfold generateTrafficBatchnorm
  split
  · exact .congr (.cons
      (.times _ <| .cons (order_read _ _) <| .cons (order_readEach _ _) <|
        .cons (order_compute _) <| .cons (order_write _ _) .nil) <| .cons
      (.onlyIf _ <| .cons (order_read _ _) <| .cons (order_broadcastEach _) <|
        .cons (order_compute _) <| .cons (order_write _ _) .nil)
      .nil) (by simp only [ite_eq_copies, copies, zero_add, add_zero])
  split
  · exact .congr (.times _ <| .cons (order_broadcastEach _) <|
      .cons (.times _ <| order_batchnormTiles _) <|
      .cons (.onlyIf _ <| order_batchnormTiles _) .nil)
      (by simp only [ite_eq_copies, add_zero]; rfl)
  split
  · exact .congr (.cons (order_broadcastEach _) <| .cons (.times _ <| order_batchnormTiles _) <|
      .cons
      (.onlyIf _ <| .cons (order_read _ _) <| .cons (order_compute _) <|
        .cons (order_write _ _) .nil)
      .nil) (by simp only [ite_eq_copies, copies, zero_add, add_zero])
  · exact Adds.nil

theorem order_batchnormReduction : Adds order g.generateTrafficBatchnormReduction
    (inputsWord (List.range' 1 (g.splitNode.originalInputSize.length - 1)) 1 +
      roundsWord g.subgraphs g.numPE) :=
  .congr (.cons (.each _ fun _ _ => order_broadcastRead _ _) <|
    .cons (.times _ <| order_batchnormTiles _) <|
    .cons (.onlyIf _ <| order_batchnormTiles _) .nil)
    (by simp only [ite_eq_copies, inputsWord, roundsWord, copies, one_nsmul, add_zero])

/-! ## Pieces -/

/-- A number for each tensor: the inputs before `n`, and the output. -/
def perTensor (n : Nat) (input : Nat → Nat) (output : Nat) : Slot → Nat
  | .input j => if j < n then input j else 0
  | .output => output

/-- A number for the input, the weight and each of the other inputs before `n`. -/
def perConvTensor (n input weight : Nat) (other : Nat → Nat) (output : Nat) : Slot → Nat
  | .input 0 => input
  | .input 1 => weight
  | .input (j + 2) => if j + 2 < n then other (j + 2) else 0
  | .output => output

/-- How many pieces of each tensor a generator accesses. -/
def pieces (g : TrafficGenerator) : Kind → Slot → Nat
  | .elementWise =>
    perTensor g.inputs (fun _ => (g.round + extra g.remainder) * g.numPE)
      (g.round * g.numPE + g.remainder)
  | .convWeightStationary =>
    perConvTensor (min g.inputs 3) (g.weightRound * g.c * g.hw) (g.weightRound * g.c * g.numPE)
      (fun _ => g.weightRound * g.numPE) (g.weightRound * g.c * g.hw * g.numPE)
  | .convWeightReduction =>
    perConvTensor (min g.inputs 3) (g.weightRound * g.c * g.hw) (g.weightRound * g.c * g.numPE)
      (fun _ => 1) (g.weightRound * g.c * g.hw * g.numPE)
  | .convBatchnormWeight =>
    perConvTensor g.inputs (g.weightRound * g.c * g.hw) (g.weightRound * g.c * g.numPE)
      (fun _ => g.weightRound * g.numPE) (g.weightRound * g.c * g.hw * g.numPE)
  | .convOutputStationary =>
    perConvTensor (min g.inputs 3) (g.c * g.hw)
      (g.c * ((g.inputRound + extra g.inputRemainder) * g.knum))
      (fun _ => g.c * ((g.inputRound + extra g.inputRemainder) * g.knum * g.numPE +
        g.inputRemainder)) g.numPE
  | .convOutputReduction =>
    perConvTensor (min g.inputs 3) (g.c * g.hw)
      (g.c * ((g.inputRound + extra g.inputRemainder) * g.knum))
      (fun _ => 1 + g.c * g.inputRemainder) g.numPE
  | .convBatchnormOutput =>
    -- without a bias the remainder takes the first parameter for one and reads it twice
    perConvTensor g.inputs (g.c * g.hw)
      (g.c * ((g.inputRound + extra g.inputRemainder) * g.knum))
      (fun j => g.c * ((g.inputRound + extra g.inputRemainder) * g.knum * g.numPE +
        if j = 2 then extra g.inputRemainder * (if g.inputs = 7 then 1 else g.knum) * g.numPE
        else 0)) g.numPE
  | .batchnorm =>
    if 1 < g.c ∧ g.strategy.split 0 2 = 1 ∧ g.strategy.split 0 3 = 1 then
      perTensor g.inputs
        (fun j => if j = 0 then g.c else g.c / g.numPE * g.numPE + extra (g.c % g.numPE)) g.c
    else if 1 < g.c ∧ g.strategy.split 0 2 ≠ 1 ∧ g.strategy.split 0 3 ≠ 1 then
      perTensor g.inputs (fun j => if j = 0 then g.c * g.hw else g.c) (g.c * g.hw)
    else if g.c = 1 then
      perTensor g.inputs
        (fun j => if j = 0 then (g.round + extra g.remainder) * g.numPE else 1)
        (g.round * g.numPE + g.remainder)
    else fun _ => 0
  | .batchnormReduction =>
    perTensor g.splitNode.originalInputSize.length (fun j => if j = 0 then g.subgraphs else 1)
      g.subgraphs

@[simp] theorem tally_inputsWord_input (js : List Nat) (k j : Nat) :
    tally (.input j) (inputsWord js k) = js.count j * k := by
  induction js with
  | nil => simp [inputsWord]
  | cons i js ih =>
    have step : inputsWord (i :: js) k = copies k (of (.input i)) + inputsWord js k := rfl
    rw [step, map_add, ih, tally_copies, tally_of, List.count_cons]
    by_cases h : i = j
    · simp only [h, if_true, beq_self_eq_true]
      ring
    · simp [h]

@[simp] theorem tally_inputsWord_output (js : List Nat) (k : Nat) :
    tally .output (inputsWord js k) = 0 := by
  induction js with
  | nil => simp [inputsWord]
  | cons i js ih =>
    have step : inputsWord (i :: js) k = copies k (of (.input i)) + inputsWord js k := rfl
    rw [step, map_add, ih]
    simp

/-- The inputs a generator expects its node to have. -/
def Arity (g : TrafficGenerator) : Kind → Prop
  | .batchnorm => 0 < g.inputs
  | .batchnormReduction => 0 < g.splitNode.originalInputSize.length
  | .convBatchnormWeight | .convBatchnormOutput => g.inputs = 6 ∨ g.inputs = 7
  | _ => True

/-! The words counted. -/

theorem tally_elementWise (slot : Slot) :
    tally slot (order (g.generateTrafficElementWise (State.new heap))) =
      g.pieces .elementWise slot := by
  rw [order_elementWise]
  cases slot with
  | input j =>
    by_cases hj : j < g.inputs
    · simp [List.count_range, pieces, perTensor, hj, Nat.add_mul]
    · simp [List.count_range, pieces, perTensor, hj]
  | output => simp [pieces, perTensor, extra_mul_self]

theorem tally_convWeightStationary (slot : Slot) :
    tally slot (order (g.generateTrafficConvWeightStationary (State.new heap))) =
      g.pieces .convWeightStationary slot := by
  rw [order_convWeightStationary]
  rcases slot with (_ | _ | _ | j) | _
  all_goals simp [weightTileWord, pieces, perConvTensor, Nat.mul_assoc]

theorem tally_convWeightReduction (slot : Slot) :
    tally slot (order (g.generateTrafficConvWeightReduction (State.new heap))) =
      g.pieces .convWeightReduction slot := by
  rw [order_convWeightReduction]
  rcases slot with (_ | _ | _ | j) | _
  all_goals simp [weightTileWord, pieces, perConvTensor, Nat.mul_assoc]

theorem tally_outputWord (first weights weights' : FreeAddMonoid Slot) (slot : Slot) :
    tally slot (g.outputWord first weights weights') =
      g.c * (g.inputRound * (g.knum * tally slot weights) +
        extra g.inputRemainder * (tally slot first + g.knum * tally slot weights')) +
      perConvTensor 0 (g.c * g.hw) 0 (fun _ => 0) g.numPE slot := by
  have whole : g.inputRound * g.numPE + g.inputRemainder = g.hw := Nat.div_add_mod' _ _
  have part := extra_mul_self g.inputRemainder
  rcases slot with (_ | _ | j) | _
  · simp only [outputWord, map_add, tally_copies, tally_of, if_true, mul_one, reduceCtorEq,
      if_false, mul_zero, add_zero, perConvTensor]
    rw [Nat.mul_add (extra _), part, ← whole]
    ring
  all_goals simp [outputWord, perConvTensor]

theorem count_lastFour (h : g.inputs = 6 ∨ g.inputs = 7) (j : Nat) :
    g.lastFour.count j = if g.inputs ≤ j + 4 ∧ j < g.inputs then 1 else 0 := by
  have reversed : g.lastFour = (List.range' (g.inputs - 4) 4).reverse := by
    obtain h | h := h
    all_goals simp [lastFour, h, List.range_succ, List.range'_succ]
  rw [reversed, List.count_reverse, List.count_range_1']
  exact if_congr (by omega) rfl rfl

theorem tally_convOutputStationary (slot : Slot) :
    tally slot (order (g.generateTrafficConvOutputStationary (State.new heap))) =
      g.pieces .convOutputStationary slot := by
  have part := extra_mul_self g.inputRemainder
  rw [order_convOutputStationary, order_new, zero_add, tally_outputWord]
  rcases slot with (_ | _ | _ | j) | _
  · simp [pieces, perConvTensor]
  · simp [pieces, perConvTensor, Nat.add_mul]
  · by_cases h : 2 < g.inputs
    · simp [pieces, perConvTensor, h, Nat.mul_add, part]
      ring
    · simp [pieces, perConvTensor, h]
  · simp [pieces, perConvTensor]
  · simp [pieces, perConvTensor]

theorem tally_convOutputReduction (slot : Slot) :
    tally slot (order (g.generateTrafficConvOutputReduction (State.new heap))) =
      g.pieces .convOutputReduction slot := by
  have part := extra_mul_self g.inputRemainder
  rw [order_convOutputReduction, order_new, zero_add, map_add, tally_outputWord]
  rcases slot with (_ | _ | _ | j) | _
  · simp [pieces, perConvTensor]
  · simp [pieces, perConvTensor, Nat.add_mul]
  · by_cases h : 2 < g.inputs
    · simp [pieces, perConvTensor, h, part]
    · simp [pieces, perConvTensor, h]
  · simp [pieces, perConvTensor]
  · simp [pieces, perConvTensor]

/-- Of the inputs after the weight the last four are all but the bias. -/
theorem count_lastFour_add_three (h : g.inputs = 6 ∨ g.inputs = 7) (j : Nat) :
    g.lastFour.count (j + 3) = if j + 3 < g.inputs then 1 else 0 := by
  rw [count_lastFour h]
  exact if_congr (by omega) rfl rfl

theorem tally_convBatchnormWeight (h : g.inputs = 6 ∨ g.inputs = 7) (slot : Slot) :
    tally slot (order (g.generateTrafficConvBatchnormWeight (State.new heap))) =
      g.pieces .convBatchnormWeight slot := by
  have first := count_lastFour h
  have others := count_lastFour_add_three h
  rw [order_convBatchnormWeight]
  rcases slot with (_ | _ | _ | j) | _
  · obtain h | h := h <;> simp [weightTileWord, pieces, perConvTensor, first, h, Nat.mul_assoc]
  · obtain h | h := h <;> simp [weightTileWord, pieces, perConvTensor, first, h, Nat.mul_assoc]
  · obtain h | h := h <;> simp [weightTileWord, pieces, perConvTensor, first, h]
  · by_cases hj : j + 3 < g.inputs
    · simp [weightTileWord, pieces, perConvTensor, others, hj]
    · simp [weightTileWord, pieces, perConvTensor, others, hj]
  · simp [weightTileWord, pieces, perConvTensor, Nat.mul_assoc]

theorem tally_convBatchnormOutput (h : g.inputs = 6 ∨ g.inputs = 7) (slot : Slot) :
    tally slot (order (g.generateTrafficConvBatchnormOutput (State.new heap))) =
      g.pieces .convBatchnormOutput slot := by
  have first := count_lastFour h
  have others := count_lastFour_add_three h
  rw [order_convBatchnormOutput, order_new, zero_add, tally_outputWord]
  rcases slot with (_ | _ | _ | j) | _
  · obtain h | h := h <;> simp [pieces, perConvTensor, first, h]
  · obtain h | h := h <;> simp [pieces, perConvTensor, first, h, Nat.add_mul]
  · obtain h | h := h
    · simp [pieces, perConvTensor, first, h, -mul_eq_mul_left_iff]
      ring
    · simp [pieces, perConvTensor, first, h, -mul_eq_mul_left_iff]
      ring
  · by_cases hj : j + 3 < g.inputs
    · simp [pieces, perConvTensor, others, hj, Nat.add_mul, Nat.mul_assoc]
    · simp [pieces, perConvTensor, others, hj]
  · simp [pieces, perConvTensor]

theorem tally_roundsWord (k numPE : Nat) (slot : Slot) :
    tally slot (roundsWord k numPE) = perTensor 1 (fun _ => k) k slot := by
  have whole : k / numPE * numPE + k % numPE = k := Nat.div_add_mod' _ _
  have part := extra_mul_self (k % numPE)
  rcases slot with (_ | j) | _
  · simp [roundsWord, tilesWord, perTensor, part, whole]
  · simp [roundsWord, tilesWord, perTensor]
  · simp [roundsWord, tilesWord, perTensor, part, whole]

theorem count_from_one (n j : Nat) :
    (List.range' 1 (n - 1)).count j = if j ≠ 0 ∧ j < n then 1 else 0 := by
  rw [List.count_range_1']
  exact if_congr (by omega) rfl rfl

theorem tally_batchnorm (h : 0 < g.inputs) (slot : Slot) :
    tally slot (order (g.generateTrafficBatchnorm (State.new heap))) =
      g.pieces .batchnorm slot := by
  have count : ∀ j, g.parameters.count j = if j ≠ 0 ∧ j < g.inputs then 1 else 0 :=
    count_from_one g.inputs
  rw [order_batchnorm, order_new, zero_add, pieces]
  split
  · have whole : g.c / g.numPE * g.numPE + g.c % g.numPE = g.c := Nat.div_add_mod' _ _
    have part := extra_mul_self (g.c % g.numPE)
    rcases slot with (_ | j) | _
    · simp [perTensor, count, h, part, whole]
    · by_cases hj : j + 1 < g.inputs
      · simp [perTensor, count, hj]
      · simp [perTensor, count, hj]
    · simp [perTensor, part, whole]
  split
  · rcases slot with (_ | j) | _
    · simp [perTensor, count, tally_roundsWord, h]
    · by_cases hj : j + 1 < g.inputs
      · simp [perTensor, count, tally_roundsWord, hj]
      · simp [perTensor, count, tally_roundsWord, hj]
    · simp [perTensor, tally_roundsWord]
  split
  · have part := extra_mul_self g.remainder
    rcases slot with (_ | j) | _
    · simp [perTensor, count, tilesWord, h, Nat.add_mul]
    · by_cases hj : j + 1 < g.inputs
      · simp [perTensor, count, tilesWord, hj]
      · simp [perTensor, count, tilesWord, hj]
    · simp [perTensor, tilesWord, part]
  · simp

theorem tally_batchnormReduction (h : 0 < g.splitNode.originalInputSize.length) (slot : Slot) :
    tally slot (order (g.generateTrafficBatchnormReduction (State.new heap))) =
      g.pieces .batchnormReduction slot := by
  have count := count_from_one g.splitNode.originalInputSize.length
  rw [order_batchnormReduction, order_new, zero_add, map_add, tally_roundsWord]
  rcases slot with (_ | j) | _
  · rw [tally_inputsWord_input, count]
    simp [pieces, perTensor, h]
  · rw [tally_inputsWord_input, count]
    by_cases hj : j + 1 < g.splitNode.originalInputSize.length
    · simp [pieces, perTensor, hj]
    · simp [pieces, perTensor, hj]
  · simp [pieces, perTensor]

/-- A generator accesses exactly `pieces` tiles of every tensor. -/
theorem tally_generateTraffic (heap : Heap) (kind : Kind) (h : g.Arity kind) (slot : Slot) :
    tally slot (order (g.generateTraffic kind (State.new heap))) = g.pieces kind slot := by
  cases kind with
  | elementWise => exact tally_elementWise slot
  | convWeightStationary => exact tally_convWeightStationary slot
  | convOutputStationary => exact tally_convOutputStationary slot
  | batchnorm => exact tally_batchnorm h slot
  | convWeightReduction => exact tally_convWeightReduction slot
  | convOutputReduction => exact tally_convOutputReduction slot
  | batchnormReduction => exact tally_batchnormReduction h slot
  | convBatchnormWeight => exact tally_convBatchnormWeight h slot
  | convBatchnormOutput => exact tally_convBatchnormOutput h slot

end TrafficGenerator

end Generator

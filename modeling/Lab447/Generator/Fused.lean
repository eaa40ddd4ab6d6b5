import Lab447.Lib.Cut
import Lab447.Generator.Weights

/-!
The fused convolution and batch normalisation, output stationary: which PEs read
the parameters and the bias, compute step by compute step. The whole rounds and the
remainder guard the bias differently.
-/

namespace Generator

open Command Cut

variable {g : TrafficGenerator} {heap : Heap}

/-! ## Counting by PE -/

/-- The reads of a tensor by PE `p`. -/
def readsOf (p : Nat) (slot : Slot) (es : List (Option Slot × Traffic)) : Nat :=
  es.countP fun e => e.1 = some slot ∧ e.2.type = .read ∧ e.2.src = (0, (p : Int))

/-- The compute steps of a traffic list: the entries up to a group of `COMPUTE`s and
the group. What stands behind the last group has no `COMPUTE`. -/
def steps (es : List (Option Slot × Traffic)) : List (List (Option Slot × Traffic)) :=
  cutAfter (fun e => decide (e.2.type = .compute)) es

namespace Call

def readsBy (p : Nat) (slot : Slot) : Call → Nat
  | unicastRead k _ slot' => if slot' = slot ∧ p < k then 1 else 0
  | broadcastRead _ slot' => if slot' = slot ∧ p = 0 then 1 else 0
  | unicastWrite _ _ _ => 0
  | compute _ => 0

def computesBy (p : Nat) : Call → Nat
  | compute k => if p < k then 1 else 0
  | _ => 0

end Call

variable {f : Option Slot × Traffic → Bool}

/-- A count of entries that looks at their tensor, type and PE, over a word. -/
theorem countP_emitted {count : Call → Nat}
    (one : ∀ (call : Call) heap, (emit g (call.ops g.numPE) heap).countP f = count call)
    (w : List Call) (heap : Heap) : (g.emitted w heap).countP f = (w.map count).sum := by
  induction w generalizing heap with
  | nil => rfl
  | cons call w ih =>
    have split : g.emitted (call :: w) heap =
        emit g (call.ops g.numPE) heap ++ g.emitted w (after g (call.ops g.numPE) heap) :=
      emit_append _ _ _
    rw [split, List.countP_append, one, ih, List.map_cons, List.sum_cons]

theorem countP_range (k p : Nat) :
    (List.range k).countP (fun i => i = p) = if p < k then 1 else 0 := by
  rw [List.range_eq_range', countP_eq_range']
  exact if_congr (by omega) rfl rfl

/-- The operations of a call that are made one for every PE. -/
theorem countP_emit_map {op : Nat → Op} {p : Nat}
    (mine : ∀ i heap, f ((op i).slot, (op i).entry g heap) = decide (i = p)) (k : Nat) (heap : Heap) :
    (emit g ((List.range k).map op) heap).countP f = if p < k then 1 else 0 := by
  have loop (xs : List Nat) (heap : Heap) :
      (emit g (xs.map op) heap).countP f = xs.countP fun i => i = p := by
    induction xs generalizing heap with
    | nil => rfl
    | cons x xs ih => rw [List.map_cons, emit, List.countP_cons, ih, mine, List.countP_cons]
  rw [loop, countP_range]

theorem countP_emit_eq_zero {ops : List Op}
    (none : ∀ op ∈ ops, ∀ heap, f (op.slot, op.entry g heap) = false) (heap : Heap) :
    (emit g ops heap).countP f = 0 := by
  induction ops generalizing heap with
  | nil => rfl
  | cons op ops ih =>
    rw [emit, List.countP_cons, ih fun op h => none op (List.mem_cons_of_mem _ h),
      none op List.mem_cons_self]
    rfl

theorem countP_emit_map_eq_zero {op : Nat → Op}
    (none : ∀ i heap, f ((op i).slot, (op i).entry g heap) = false) (xs : List Nat) (heap : Heap) :
    (emit g (xs.map op) heap).countP f = 0 := by
  refine countP_emit_eq_zero (fun op' h heap => ?_) heap
  obtain ⟨i, -, rfl⟩ := List.mem_map.mp h
  exact none i heap

theorem readsOf_emitted (p : Nat) (slot : Slot) (w : List Call) (heap : Heap) :
    readsOf p slot (g.emitted w heap) = (w.map (Call.readsBy p slot)).sum := by
  refine countP_emitted (fun call heap => ?_) w heap
  cases call with
  | unicastRead k size slot' =>
    by_cases same : slot' = slot
    · subst same
      rw [Call.ops, countP_emit_map (p := p) fun i heap => ?_]
      · simp [Call.readsBy]
      · simp [Op.slot, Op.entry, TrafficGenerator.entry]
    · rw [Call.ops, countP_emit_map_eq_zero fun i heap => ?_]
      · simp [Call.readsBy, same]
      · simp [Op.slot, same]
  | unicastWrite k size slot' =>
    refine countP_emit_map_eq_zero (fun i heap => ?_) _ heap
    simp [Op.entry, TrafficGenerator.entry]
  | broadcastRead size slot' =>
    have syncs : (emit g ((List.range' 1 (g.numPE - 1)).map (Op.sync slot'))
        (Op.move g (.read .broadcast size slot' 0) heap)).countP
        (fun e => e.1 = some slot ∧ e.2.type = .read ∧ e.2.src = (0, (p : Int))) = 0 := by
      refine countP_emit_map_eq_zero (fun i heap => ?_) _ _
      simp [Op.entry, mark]
    have zero : (0 : Int) = p ↔ p = 0 := by omega
    rw [Call.ops, emit, List.countP_cons, syncs]
    simp [Op.slot, Op.entry, TrafficGenerator.entry, Call.readsBy, zero]
  | compute k =>
    refine countP_emit_map_eq_zero (fun i heap => ?_) _ heap
    simp [Op.slot]

theorem computesOf_emitted (p : Nat) (w : List Call) (heap : Heap) :
    computesOf p (g.emitted w heap) = (w.map (Call.computesBy p)).sum := by
  refine countP_emitted (fun call heap => ?_) w heap
  cases call with
  | compute k =>
    rw [Call.ops, countP_emit_map (p := p) fun i heap => ?_]
    · rfl
    · simp [Op.entry, mark]
  | unicastRead k size slot =>
    refine countP_emit_map_eq_zero (fun i heap => ?_) _ heap
    simp [Op.entry, TrafficGenerator.entry]
  | unicastWrite k size slot =>
    refine countP_emit_map_eq_zero (fun i heap => ?_) _ heap
    simp [Op.entry, TrafficGenerator.entry]
  | broadcastRead size slot =>
    refine countP_emit_eq_zero (fun op h heap => ?_) heap
    obtain rfl | h := List.mem_cons.mp h
    · simp [Op.entry, TrafficGenerator.entry]
    · obtain ⟨i, -, rfl⟩ := List.mem_map.mp h
      simp [Op.entry, mark]

variable {w : List Call}

/-- Only the calls without a tensor compute. -/
theorem Call.sum_computesBy (slots : ∀ call ∈ w, call.slot ≠ none) (p : Nat) :
    (w.map (Call.computesBy p)).sum = 0 := by
  rw [List.sum_eq_zero_iff]
  intro k hk
  obtain ⟨call, h, rfl⟩ := List.mem_map.mp hk
  cases call with
  | compute m => exact absurd rfl (slots _ h)
  | _ => rfl

/-! ## Blocks of calls -/

/-- The entries of each block, from the tensors that the blocks before it leave. -/
def emitAll (g : TrafficGenerator) : List (List Call) → Heap → List (List (Option Slot × Traffic))
  | [], _ => []
  | w :: ws, heap => g.emitted w heap :: emitAll g ws (after g (opsOf g.numPE w) heap)

theorem flatten_emitAll (ws : List (List Call)) (heap : Heap) :
    (emitAll g ws heap).flatten = g.emitted ws.flatten heap := by
  induction ws generalizing heap with
  | nil => rfl
  | cons w ws ih =>
    rw [emitAll, List.flatten_cons, ih, List.flatten_cons, TrafficGenerator.emitted,
      TrafficGenerator.emitted, TrafficGenerator.emitted, ← emit_append, opsOf, opsOf, opsOf,
      List.flatMap_append]

theorem emitAll_append (ws : List (List Call)) (w : List Call) (heap : Heap) :
    ∃ heap', emitAll g (ws ++ [w]) heap = emitAll g ws heap ++ [g.emitted w heap'] := by
  induction ws generalizing heap with
  | nil => exact ⟨heap, rfl⟩
  | cons v ws ih =>
    obtain ⟨heap', eq⟩ := ih (after g (opsOf g.numPE v) heap)
    exact ⟨heap', congrArg (List.cons _) eq⟩

theorem exists_of_mem_emitAll {ws : List (List Call)} {es : List (Option Slot × Traffic)}
    (h : es ∈ emitAll g ws heap) : ∃ w ∈ ws, ∃ heap', es = g.emitted w heap' := by
  induction ws generalizing heap with
  | nil => cases h
  | cons w ws ih =>
    obtain rfl | h := List.mem_cons.mp h
    · exact ⟨w, List.mem_cons_self, heap, rfl⟩
    · obtain ⟨w', hw, heap', eq⟩ := ih h
      exact ⟨w', List.mem_cons_of_mem _ hw, heap', eq⟩

theorem exists_mem_emitAll {ws : List (List Call)} (h : w ∈ ws) (heap : Heap) :
    ∃ heap', g.emitted w heap' ∈ emitAll g ws heap := by
  induction ws generalizing heap with
  | nil => cases h
  | cons v ws ih =>
    obtain rfl | h := List.mem_cons.mp h
    · exact ⟨heap, List.mem_cons_self⟩
    · obtain ⟨heap', mem⟩ := ih h (after g (opsOf g.numPE v) heap)
      exact ⟨heap', List.mem_cons_of_mem _ mem⟩

/-- Calls that end in the `COMPUTE`s of a step. -/
structure StepCalls (w : List Call) : Prop where
  split : ∃ u slot size m, w = u ++ [.compute m] ∧ 0 < m ∧ (∀ call ∈ u, call.slot ≠ none) ∧
    .broadcastRead size slot ∈ u

variable {e : Option Slot × Traffic}

theorem type_of_emitted (slots : ∀ call ∈ w, call.slot ≠ none) {heap : Heap}
    (h : e ∈ g.emitted w heap) : e.2.type ≠ .compute := by
  obtain ⟨op, hop, -, type⟩ := exists_op_of_mem_emit h
  obtain ⟨call, hcall, hop⟩ := List.mem_flatMap.mp hop
  have slot := slots call hcall
  rw [← Call.slot_of_mem_ops hop] at slot
  rw [type]
  cases op with
  | compute => exact absurd rfl slot
  | _ => exact fun h => by cases h

theorem emitted_ne_nil {op : Op} (h : op ∈ opsOf g.numPE w) (heap : Heap) :
    g.emitted w heap ≠ [] := by
  rw [TrafficGenerator.emitted]
  cases hops : opsOf g.numPE w with
  | nil =>
    rw [hops] at h
    cases h
  | cons op ops => exact List.cons_ne_nil _ _

theorem StepCalls.isStep (h : StepCalls w) (heap : Heap) :
    IsStep (fun e : Option Slot × Traffic => decide (e.2.type = .compute)) (g.emitted w heap) := by
  obtain ⟨u, slot, size, m, rfl, pos, slots, first⟩ := h
  have split : g.emitted (u ++ [.compute m]) heap =
      g.emitted u heap ++ emit g ((Call.compute m).ops g.numPE) (after g (opsOf g.numPE u) heap) := by
    rw [TrafficGenerator.emitted, TrafficGenerator.emitted, ← emit_append, opsOf, opsOf,
      List.flatMap_append, List.flatMap_singleton]
  rw [split]
  refine ⟨_, _, rfl, ?_, ?_, fun e he => ?_, fun e he => ?_⟩
  · have mem : Op.read .broadcast size slot 0 ∈ opsOf g.numPE u :=
      List.mem_flatMap.mpr ⟨_, first, List.mem_cons_self⟩
    exact emitted_ne_nil mem heap
  · rw [emit_compute]
    simp [pos.ne']
  · simpa using type_of_emitted slots he
  · rw [emit_compute] at he
    obtain ⟨i, -, rfl⟩ := List.mem_map.mp he
    rfl

/-! ## The calls of the generator -/

namespace TrafficGenerator

section

variable (g heap)

def parameterCalls : List Call :=
  (List.range 4).map fun j => g.readCall heap g.numPE (.input (g.inputs - 1 - j))

/-- The bias, as the whole rounds guard it. -/
def fusedBias : List Call := if g.inputs = 7 then [g.readCall heap g.numPE (.input 2)] else []

/-- The calls up to a `COMPUTE` on `m` PEs. -/
def fusedStep (bias : List Call) (m : Nat) : List Call :=
  g.broadcastCall heap (.input 1) :: (bias ++ g.parameterCalls heap) ++ [.compute m]

def fusedRow (first bias : List Call) (m : Nat) : List Call :=
  first ++ repeated g.knum (g.fusedStep heap bias m)

/-- A row on every PE. -/
def wholeRow : List Call :=
  g.fusedRow heap [g.readCall heap g.numPE (.input 0)] (g.fusedBias heap) g.numPE

/-- A row on the PEs of the remainder, where the bias is guarded as in a plain
convolution. -/
def remainderRow : List Call :=
  g.fusedRow heap (g.readCall heap g.inputRemainder (.input 0) :: g.fusedBias heap)
    (g.biasCalls heap g.numPE) g.inputRemainder

def fusedCalls : List Call :=
  repeated g.c (repeated g.inputRound (g.wholeRow heap) ++
    if g.inputRemainder ≠ 0 then g.remainderRow heap else []) ++
  [g.writeCall heap g.numPE .output]

end

theorem makes_convBatchnormOutput :
    g.Makes heap g.generateTrafficConvBatchnormOutput (g.fusedCalls heap) :=
  .congr (.cons
    (.times _ <| .cons
      (.times _ <| .cons (.read _ _) <| .cons
        (.times _ <| .cons (.broadcast _) <| .cons (.onlyIf _ <| .read _ _) <|
          .cons (.each fun _ _ => .read _ _) <| .cons (.compute _) .nil)
        .nil) <| .cons
      (.onlyIf _ <| .cons (.read _ _) <| .cons (.onlyIf _ <| .read _ _) <| .cons
        (.times _ <| .cons (.broadcast _) <| .cons (.onlyIf _ <| .read _ _) <|
          .cons (.each fun _ _ => .read _ _) <| .cons (.compute _) .nil)
        .nil)
      .nil) <|
    .cons (.write _ _) .nil)
    (by simp [fusedCalls, wholeRow, remainderRow, fusedRow, fusedStep, fusedBias, biasCalls,
      parameterCalls, List.map_eq_flatMap])

/-! ## The tensors of the calls -/

variable {call : Call}

theorem slot_parameterCalls (h : call ∈ g.parameterCalls heap) :
    ∃ j < 4, call.slot = some (.input (g.inputs - 1 - j)) := by
  obtain ⟨j, hj, rfl⟩ := List.mem_map.mp h
  exact ⟨j, List.mem_range.mp hj, rfl⟩

theorem slot_fusedBias (h : call ∈ g.fusedBias heap) :
    g.inputs = 7 ∧ call.slot = some (.input 2) := by
  unfold fusedBias at h
  split at h
  · rename_i seven
    rw [List.mem_singleton.mp h]
    exact ⟨seven, rfl⟩
  · cases h

theorem slot_biasCalls {k : Nat} (h : call ∈ g.biasCalls heap k) : call.slot = some (.input 2) := by
  unfold biasCalls at h
  split at h
  · rw [List.mem_singleton.mp h]
    rfl
  · cases h

theorem slot_wholeFirst (h : call ∈ [g.readCall heap g.numPE (.input 0)]) : call.slot ≠ none := by
  rw [List.mem_singleton.mp h]
  exact Option.some_ne_none _

theorem slot_remainderFirst
    (h : call ∈ g.readCall heap g.inputRemainder (.input 0) :: g.fusedBias heap) :
    call.slot ≠ none := by
  obtain rfl | h := List.mem_cons.mp h
  · exact Option.some_ne_none _
  · simp [(slot_fusedBias h).2]

/-! ## Sums over the calls -/

theorem sum_fusedStep (f : Call → Nat) (bias : List Call) (m : Nat) :
    ((g.fusedStep heap bias m).map f).sum = f (g.broadcastCall heap (.input 1)) +
      (bias.map f).sum + ((g.parameterCalls heap).map f).sum + f (.compute m) := by
  simp [fusedStep, Nat.add_assoc]

theorem sum_fusedRow (f : Call → Nat) (first bias : List Call) (m : Nat) :
    ((g.fusedRow heap first bias m).map f).sum =
      (first.map f).sum + g.knum * (f (g.broadcastCall heap (.input 1)) + (bias.map f).sum +
        ((g.parameterCalls heap).map f).sum + f (.compute m)) := by
  rw [fusedRow, List.map_append, List.sum_append, sum_map_repeated, sum_fusedStep]

theorem sum_fusedCalls (f : Call → Nat) :
    ((g.fusedCalls heap).map f).sum = g.c * (g.inputRound * ((g.wholeRow heap).map f).sum +
      if g.inputRemainder ≠ 0 then ((g.remainderRow heap).map f).sum else 0) +
        f (g.writeCall heap g.numPE .output) := by
  rw [fusedCalls, List.map_append, List.sum_append, sum_map_repeated, List.map_append,
    List.sum_append, sum_map_repeated]
  split <;> simp

section

variable (fused : g.inputs = 6 ∨ g.inputs = 7)

include fused

theorem sum_parameterCalls {i : Nat} (hi : i < 4) (p : Nat) :
    ((g.parameterCalls heap).map (Call.readsBy p (.input (g.inputs - 1 - i)))).sum =
      if p < g.numPE then 1 else 0 := by
  have range : List.range 4 = [0, 1, 2, 3] := rfl
  obtain six | seven := fused
  · interval_cases i <;> simp [parameterCalls, range, readCall, Call.readsBy, six]
  · interval_cases i <;> simp [parameterCalls, range, readCall, Call.readsBy, seven]

/-- No parameter is input 0, input 1 or the bias. -/
theorem parameter_ne {i : Nat} (hi : i < 4) : g.inputs - 1 - i ≠ 0 ∧ g.inputs - 1 - i ≠ 1 ∧
    (g.inputs = 7 → g.inputs - 1 - i ≠ 2) := by
  omega

theorem sum_fusedBias {i : Nat} (hi : i < 4) (p : Nat) :
    ((g.fusedBias heap).map (Call.readsBy p (.input (g.inputs - 1 - i)))).sum = 0 := by
  have other := (parameter_ne fused hi).2.2
  unfold fusedBias
  split
  · rename_i seven
    simp [readCall, Call.readsBy, Ne.symm (other seven)]
  · rfl

/-- How often a PE reads a parameter. In the remainder the third input is read once
more, which is a parameter if there is no bias. -/
theorem readsOf_parameter {i p : Nat} (hi : i < 4) (hp : p < g.numPE) :
    readsOf p (.input (g.inputs - 1 - i)) (g.emitted (g.fusedCalls heap) heap) =
      g.c * (g.inputRound * g.knum + if g.inputRemainder ≠ 0 then
        g.knum * (if g.inputs - 1 - i = 2 then 2 else 1) else 0) := by
  obtain ⟨zero, one, -⟩ := parameter_ne fused hi
  have bias : ((g.biasCalls heap g.numPE).map (Call.readsBy p (.input (g.inputs - 1 - i)))).sum =
      if g.inputs - 1 - i = 2 then 1 else 0 := by
    rw [biasCalls, if_pos (by omega)]
    simp [readCall, Call.readsBy, hp, eq_comm]
  have input (k : Nat) : Call.readsBy p (.input (g.inputs - 1 - i))
      (g.readCall heap k (.input 0)) = 0 := by
    simp [readCall, Call.readsBy, Ne.symm zero]
  have weight : Call.readsBy p (.input (g.inputs - 1 - i)) (g.broadcastCall heap (.input 1)) = 0 := by
    simp [broadcastCall, Call.readsBy, Ne.symm one]
  have whole : ((g.wholeRow heap).map (Call.readsBy p (.input (g.inputs - 1 - i)))).sum =
      g.knum := by
    rw [wholeRow, sum_fusedRow, weight, sum_fusedBias fused hi, sum_parameterCalls fused hi,
      if_pos hp, List.map_singleton, List.sum_singleton, input]
    simp [Call.readsBy]
  have rest : ((g.remainderRow heap).map (Call.readsBy p (.input (g.inputs - 1 - i)))).sum =
      g.knum * (if g.inputs - 1 - i = 2 then 2 else 1) := by
    rw [remainderRow, sum_fusedRow, weight, bias, sum_parameterCalls fused hi, if_pos hp,
      List.map_cons, List.sum_cons, input, sum_fusedBias fused hi]
    split <;> simp [Call.readsBy]
  rw [readsOf_emitted, sum_fusedCalls, whole, rest]
  rfl

end

variable {bias : List Call}

theorem sum_computesBy_fusedStep (slots : ∀ call ∈ bias, call.slot ≠ none) (p m : Nat) :
    ((g.fusedStep heap bias m).map (Call.computesBy p)).sum = if p < m then 1 else 0 := by
  have parameters : ∀ call ∈ g.parameterCalls heap, call.slot ≠ none := fun call h => by
    obtain ⟨j, -, slot⟩ := slot_parameterCalls h
    simp [slot]
  rw [sum_fusedStep, Call.sum_computesBy slots, Call.sum_computesBy parameters]
  simp [broadcastCall, Call.computesBy]

theorem computesOf_fusedCalls (p : Nat) :
    computesOf p (g.emitted (g.fusedCalls heap) heap) =
      g.c * (g.inputRound * (g.knum * if p < g.numPE then 1 else 0) +
        if g.inputRemainder ≠ 0 then g.knum * (if p < g.inputRemainder then 1 else 0) else 0) := by
  have whole : ((g.wholeRow heap).map (Call.computesBy p)).sum =
      g.knum * if p < g.numPE then 1 else 0 := by
    rw [wholeRow, fusedRow, List.map_append, List.sum_append, sum_map_repeated,
      Call.sum_computesBy fun _ => slot_wholeFirst,
      sum_computesBy_fusedStep fun call h => by simp [(slot_fusedBias h).2], Nat.zero_add]
  have rest : ((g.remainderRow heap).map (Call.computesBy p)).sum =
      g.knum * if p < g.inputRemainder then 1 else 0 := by
    rw [remainderRow, fusedRow, List.map_append, List.sum_append, sum_map_repeated,
      Call.sum_computesBy fun _ => slot_remainderFirst,
      sum_computesBy_fusedStep fun call h => by simp [slot_biasCalls h], Nat.zero_add]
  rw [computesOf_emitted, sum_fusedCalls, whole, rest]
  rfl

/-! ## The compute steps -/

section

variable (g heap)

/-- The steps of a row: the first one starts with what the row reads once. -/
def rowSteps (first bias : List Call) (m : Nat) : List (List Call) :=
  (first ++ g.fusedStep heap bias m) :: List.replicate (g.knum - 1) (g.fusedStep heap bias m)

def wholeSteps : List (List Call) :=
  g.rowSteps heap [g.readCall heap g.numPE (.input 0)] (g.fusedBias heap) g.numPE

def remainderSteps : List (List Call) :=
  g.rowSteps heap (g.readCall heap g.inputRemainder (.input 0) :: g.fusedBias heap)
    (g.biasCalls heap g.numPE) g.inputRemainder

def fusedSteps : List (List Call) :=
  (List.replicate g.c ((List.replicate g.inputRound (g.wholeSteps heap)).flatten ++
    if g.inputRemainder ≠ 0 then g.remainderSteps heap else [])).flatten

end

theorem flatten_rowSteps (some : 0 < g.knum) (first bias : List Call) (m : Nat) :
    (g.rowSteps heap first bias m).flatten = g.fusedRow heap first bias m := by
  obtain ⟨k, hk⟩ := Nat.exists_eq_add_of_lt some
  rw [rowSteps, fusedRow, hk, repeated, List.flatten_cons, Nat.add_sub_cancel,
    List.replicate_succ, List.flatten_cons, List.append_assoc]

theorem flatten_flatten_replicate (k : Nat) (ws : List (List Call)) :
    (List.replicate k ws).flatten.flatten = repeated k ws.flatten := by
  rw [repeated, List.flatten_flatten, List.map_replicate]

theorem flatten_fusedSteps (some : 0 < g.knum) :
    (g.fusedSteps heap ++ [[g.writeCall heap g.numPE .output]]).flatten = g.fusedCalls heap := by
  have whole : (g.wholeSteps heap).flatten = g.wholeRow heap := flatten_rowSteps some _ _ _
  have rest : (g.remainderSteps heap).flatten = g.remainderRow heap := flatten_rowSteps some _ _ _
  rw [List.flatten_append, List.flatten_singleton, fusedSteps, flatten_flatten_replicate,
    List.flatten_append, flatten_flatten_replicate, whole, fusedCalls]
  congr 3
  split
  · exact rest
  · rfl

theorem eq_of_mem_rowSteps {first : List Call} {m : Nat} (h : w ∈ g.rowSteps heap first bias m) :
    ∃ u, (u = first ∨ u = []) ∧ w = u ++ g.fusedStep heap bias m := by
  obtain rfl | h := List.mem_cons.mp h
  · exact ⟨first, .inl rfl, rfl⟩
  · exact ⟨[], .inr rfl, List.eq_of_mem_replicate h⟩

theorem mem_fusedSteps : w ∈ g.fusedSteps heap ↔
    0 < g.c ∧ (0 < g.inputRound ∧ w ∈ g.wholeSteps heap ∨
      g.inputRemainder ≠ 0 ∧ w ∈ g.remainderSteps heap) := by
  unfold fusedSteps
  split <;> simp [*, Nat.pos_iff_ne_zero, and_assoc]

theorem stepCalls_append {u : List Call} {m : Nat} (pos : 0 < m) (hu : ∀ call ∈ u, call.slot ≠ none)
    (hb : ∀ call ∈ bias, call.slot ≠ none) : StepCalls (u ++ g.fusedStep heap bias m) := by
  refine ⟨u ++ g.broadcastCall heap (.input 1) :: (bias ++ g.parameterCalls heap), .input 1, _, m,
    by simp [fusedStep], pos, fun call h => ?_, List.mem_append_right _ List.mem_cons_self⟩
  obtain h | h := List.mem_append.mp h
  · exact hu call h
  obtain rfl | h := List.mem_cons.mp h
  · exact Option.some_ne_none _
  obtain h | h := List.mem_append.mp h
  · exact hb call h
  · obtain ⟨j, -, slot⟩ := slot_parameterCalls h
    simp [slot]

theorem stepCalls_whole (pos : 0 < g.numPE) (h : w ∈ g.wholeSteps heap) : StepCalls w := by
  obtain ⟨u, hu, rfl⟩ := eq_of_mem_rowSteps h
  refine stepCalls_append pos (fun call h => ?_) fun call h => by simp [(slot_fusedBias h).2]
  obtain rfl | rfl := hu
  · exact slot_wholeFirst h
  · cases h

theorem stepCalls_remainder (pos : g.inputRemainder ≠ 0) (h : w ∈ g.remainderSteps heap) :
    StepCalls w := by
  obtain ⟨u, hu, rfl⟩ := eq_of_mem_rowSteps h
  refine stepCalls_append (Nat.pos_of_ne_zero pos) (fun call h => ?_) fun call h => by
    simp [slot_biasCalls h]
  obtain rfl | rfl := hu
  · exact slot_remainderFirst h
  · cases h

theorem stepCalls_of_mem (pos : 0 < g.numPE) (h : w ∈ g.fusedSteps heap) : StepCalls w := by
  obtain ⟨-, ⟨-, h⟩ | ⟨rest, h⟩⟩ := mem_fusedSteps.mp h
  · exact stepCalls_whole pos h
  · exact stepCalls_remainder rest h

theorem write_not_compute {heap' : Heap}
    (h : e ∈ g.emitted [g.writeCall heap g.numPE .output] heap') : e.2.type ≠ .compute := by
  refine type_of_emitted (fun call hc => ?_) h
  rw [List.mem_singleton.mp hc]
  exact Option.some_ne_none _

/-- The compute steps of the list, with the write at the end. -/
theorem steps_fusedCalls (pos : 0 < g.numPE) (some : 0 < g.knum) :
    steps (g.emitted (g.fusedCalls heap) heap) =
      emitAll g (g.fusedSteps heap ++ [[g.writeCall heap g.numPE .output]]) heap := by
  obtain ⟨heap', eq⟩ := emitAll_append (g := g) (g.fusedSteps heap)
    [g.writeCall heap g.numPE .output] heap
  rw [← flatten_fusedSteps some, ← flatten_emitAll, eq]
  refine cutAfter_flatten (fun es h => ?_) ?_ fun e h => ?_
  · obtain ⟨w, hw, heap', rfl⟩ := exists_of_mem_emitAll h
    exact (stepCalls_of_mem pos hw).isStep heap'
  · have mem : Op.write (g.tileSize heap .output) .output 0 ∈
        opsOf g.numPE [g.writeCall heap g.numPE .output] :=
      List.mem_flatMap.mpr ⟨_, List.mem_cons_self,
        List.mem_map_of_mem (List.mem_range.mpr pos)⟩
    exact emitted_ne_nil mem heap'
  · simpa using write_not_compute h

theorem readsBy_bias (seven : g.inputs = 7) (p : Nat) :
    ((g.parameterCalls heap).map (Call.readsBy p (.input 2))).sum = 0 := by
  have range : List.range 4 = [0, 1, 2, 3] := rfl
  simp [parameterCalls, range, readCall, Call.readsBy, seven]

/-- Whole steps of a node with a bias: the PEs that read it compute. -/
theorem reads_bias_whole (seven : g.inputs = 7) (h : w ∈ g.wholeSteps heap) (p : Nat) (heap' : Heap) :
    readsOf p (.input 2) (g.emitted w heap') = computesOf p (g.emitted w heap') := by
  obtain ⟨u, hu, rfl⟩ := eq_of_mem_rowSteps h
  have reads : (u.map (Call.readsBy p (.input 2))).sum = 0 := by
    obtain rfl | rfl := hu <;> simp [readCall, Call.readsBy]
  have computes : (u.map (Call.computesBy p)).sum = 0 := by
    obtain rfl | rfl := hu
    · exact Call.sum_computesBy (fun _ => slot_wholeFirst) p
    · rfl
  rw [readsOf_emitted, computesOf_emitted, List.map_append, List.sum_append, List.map_append,
    List.sum_append, reads, computes, sum_computesBy_fusedStep fun call h => by simp [(slot_fusedBias h).2],
    sum_fusedStep, readsBy_bias seven]
  simp [fusedBias, seven, readCall, broadcastCall, Call.readsBy]

/-- In the steps of the remainder every PE reads the bias, also those that do not
compute. -/
theorem reads_bias_remainder (seven : g.inputs = 7) (h : w ∈ g.remainderSteps heap) {p : Nat}
    (idle : g.inputRemainder ≤ p) (hp : p < g.numPE) (heap' : Heap) :
    0 < readsOf p (.input 2) (g.emitted w heap') ∧ computesOf p (g.emitted w heap') = 0 := by
  obtain ⟨u, hu, rfl⟩ := eq_of_mem_rowSteps h
  have computes : (u.map (Call.computesBy p)).sum = 0 := by
    obtain rfl | rfl := hu
    · exact Call.sum_computesBy (fun _ => slot_remainderFirst) p
    · rfl
  constructor
  · rw [readsOf_emitted, List.map_append, List.sum_append, sum_fusedStep]
    simp [biasCalls, seven, readCall, Call.readsBy, hp]
  · rw [computesOf_emitted, List.map_append, List.sum_append, computes,
      sum_computesBy_fusedStep fun call h => by simp [slot_biasCalls h], if_neg (by omega)]

/-! ## Uniform parameters -/

/-- The input, the weight, the bias or one of the batch-norm tensors. -/
def IsFusedInput (g : TrafficGenerator) (slot : Option Slot) : Prop :=
  slot = some (.input 0) ∨ slot = some (.input 1) ∨ (g.inputs = 7 ∧ slot = some (.input 2)) ∨
    ∃ j < 4, slot = some (.input (g.inputs - 1 - j))

/-- The PEs that compute read the batch-norm tensors equally often, those that compute
in a step are those that read the bias there, and nothing else is read than the input,
the weight, the bias and the four tensors. -/
structure UniformParameters (g : TrafficGenerator) (es : List (Option Slot × Traffic)) : Prop where
  parameters : ∀ p, 0 < computesOf p es → ∀ i < 4, ∀ j < 4,
    readsOf p (.input (g.inputs - 1 - i)) es = readsOf p (.input (g.inputs - 1 - j)) es
  bias : g.inputs = 7 → ∀ step ∈ steps es, (∃ e ∈ step, e.2.type = .compute) →
    ∀ p, 0 < readsOf p (.input 2) step ↔ 0 < computesOf p step
  others : ∀ e ∈ es, e.2.type = .read → g.IsFusedInput e.1

theorem isFusedInput_parameterCalls (h : call ∈ g.parameterCalls heap) :
    g.IsFusedInput call.slot := .inr (.inr (.inr (slot_parameterCalls h)))

theorem isFusedInput_fusedBias (h : call ∈ g.fusedBias heap) :
    g.IsFusedInput call.slot := .inr (.inr (.inl (slot_fusedBias h)))

/-- Without a bias the third input is the last of the batch-norm tensors. -/
theorem isFusedInput_biasCalls (fused : g.inputs = 6 ∨ g.inputs = 7) {k : Nat}
    (h : call ∈ g.biasCalls heap k) : g.IsFusedInput call.slot := by
  rw [slot_biasCalls h]
  obtain six | seven := fused
  · refine .inr (.inr (.inr ⟨3, by decide, ?_⟩))
    rw [six]
  · exact .inr (.inr (.inl ⟨seven, rfl⟩))

/-- The calls of a row read these tensors, apart from the compute steps. -/
theorem isFusedInput_fusedRow {first : List Call} {m : Nat}
    (hfirst : ∀ call ∈ first, g.IsFusedInput call.slot)
    (hbias : ∀ call ∈ bias, g.IsFusedInput call.slot) (h : call ∈ g.fusedRow heap first bias m) :
    g.IsFusedInput call.slot ∨ 0 < g.knum ∧ call = .compute m := by
  obtain h | h := List.mem_append.mp h
  · exact .inl (hfirst call h)
  have some : 0 < g.knum := by
    by_contra none
    rw [Nat.eq_zero_of_not_pos none] at h
    cases h
  obtain h | h := List.mem_append.mp (mem_repeated h)
  · obtain rfl | h := List.mem_cons.mp h
    · exact .inl (.inr (.inl rfl))
    obtain h | h := List.mem_append.mp h
    · exact .inl (hbias call h)
    · exact .inl (isFusedInput_parameterCalls h)
  · exact .inr ⟨some, List.mem_singleton.mp h⟩

theorem isFusedInput_fusedCalls (fused : g.inputs = 6 ∨ g.inputs = 7) (h : call ∈ g.fusedCalls heap) :
    g.IsFusedInput call.slot ∨ (0 < g.knum ∧ ∃ m, call = .compute m) ∨
      call = g.writeCall heap g.numPE .output := by
  obtain h | h := List.mem_append.mp h
  · have row : g.IsFusedInput call.slot ∨ 0 < g.knum ∧ ∃ m, call = .compute m := by
      obtain h | h := List.mem_append.mp (mem_repeated h)
      · refine (isFusedInput_fusedRow ?_ ?_ (mem_repeated h)).imp_right fun h => ⟨h.1, _, h.2⟩
        · intro call h
          exact .inl (congrArg Call.slot (List.mem_singleton.mp h))
        · exact fun call h => isFusedInput_fusedBias h
      · split at h
        · refine (isFusedInput_fusedRow ?_ ?_ h).imp_right fun h => ⟨h.1, _, h.2⟩
          · intro call h
            obtain rfl | h := List.mem_cons.mp h
            · exact .inl rfl
            · exact isFusedInput_fusedBias h
          · exact fun call h => isFusedInput_biasCalls fused h
        · cases h
    exact row.imp_right .inl
  · exact .inr (.inr (List.mem_singleton.mp h))

theorem isFusedInput_of_read (fused : g.inputs = 6 ∨ g.inputs = 7)
    (h : e ∈ g.emitted (g.fusedCalls heap) heap) (read : e.2.type = .read) :
    g.IsFusedInput e.1 := by
  obtain ⟨op, hop, slot, type⟩ := exists_op_of_mem_emit h
  obtain ⟨call, hcall, hop⟩ := List.mem_flatMap.mp hop
  rw [slot, Call.slot_of_mem_ops hop]
  rw [read] at type
  obtain input | ⟨-, m, rfl⟩ | rfl := isFusedInput_fusedCalls fused hcall
  · exact input
  · obtain ⟨i, -, rfl⟩ := List.mem_map.mp hop
    cases type
  · obtain ⟨i, -, rfl⟩ := List.mem_map.mp hop
    cases type

/-- Without kernels nothing is computed. -/
theorem not_compute_of_knum (fused : g.inputs = 6 ∨ g.inputs = 7) (none : g.knum = 0)
    (h : e ∈ g.emitted (g.fusedCalls heap) heap) : e.2.type ≠ .compute := by
  refine type_of_emitted (fun call hcall => ?_) h
  obtain input | ⟨some, -⟩ | rfl := isFusedInput_fusedCalls fused hcall
  · obtain slot | slot | ⟨-, slot⟩ | ⟨j, -, slot⟩ := input <;> simp [slot]
  · omega
  · exact Option.some_ne_none _

theorem lt_numPE_of_computes (pos : 0 < g.numPE) {p : Nat}
    (h : 0 < computesOf p (g.emitted (g.fusedCalls heap) heap)) :
    g.c ≠ 0 ∧ g.knum ≠ 0 ∧ p < g.numPE := by
  have less : g.inputRemainder < g.numPE := Nat.mod_lt _ pos
  rw [computesOf_fusedCalls] at h
  refine ⟨fun none => ?_, fun none => ?_, ?_⟩
  · rw [none, Nat.zero_mul] at h
    exact Nat.lt_irrefl 0 h
  · simp [none] at h
  · by_contra outside
    have idle : ¬p < g.inputRemainder := by omega
    simp [outside, idle] at h

/-- What is true without a remainder. -/
theorem uniformParameters_of_whole (pos : 0 < g.numPE) (fused : g.inputs = 6 ∨ g.inputs = 7)
    (whole : g.inputRemainder = 0 ∨ g.c = 0 ∨ g.knum = 0) :
    g.UniformParameters (g.emitted (g.fusedCalls heap) heap) where
  parameters p computes i hi j hj := by
    obtain ⟨hc, hk, hp⟩ := lt_numPE_of_computes pos computes
    have none : ¬g.inputRemainder ≠ 0 := by omega
    rw [readsOf_parameter fused hi hp, readsOf_parameter fused hj hp, if_neg none, if_neg none]
  bias seven step hstep computes p := by
    obtain ⟨e, he, compute⟩ := computes
    obtain none | some := Nat.eq_zero_or_pos g.knum
    · exact absurd compute (not_compute_of_knum fused none (mem_of_mem_cutAfter hstep he))
    rw [steps_fusedCalls pos some] at hstep
    obtain ⟨w, hw, heap', rfl⟩ := exists_of_mem_emitAll hstep
    obtain hw | hw := List.mem_append.mp hw
    · obtain ⟨hc, ⟨-, hw⟩ | ⟨rest, -⟩⟩ := mem_fusedSteps.mp hw
      · rw [reads_bias_whole seven hw]
      · omega
    · rw [List.mem_singleton.mp hw] at he
      exact absurd compute (write_not_compute he)
  others e he read := isFusedInput_of_read fused he read

theorem not_uniformParameters_six (pos : 0 < g.numPE) (six : g.inputs = 6)
    (rest : g.inputRemainder ≠ 0) (hc : 0 < g.c) (hk : 0 < g.knum) :
    ¬g.UniformParameters (g.emitted (g.fusedCalls heap) heap) := by
  intro uniform
  have computes : 0 < computesOf 0 (g.emitted (g.fusedCalls heap) heap) := by
    rw [computesOf_fusedCalls, if_pos rest, if_pos (Nat.pos_of_ne_zero rest)]
    exact Nat.mul_pos hc (by omega)
  have same := uniform.parameters 0 computes 3 (by decide) 0 (by decide)
  rw [readsOf_parameter (.inl six) (by decide) pos, readsOf_parameter (.inl six) (by decide) pos,
    six, if_pos rest, if_pos rest] at same
  have cut := Nat.eq_of_mul_eq_mul_left hc same
  rw [if_pos (by decide), if_neg (by decide)] at cut
  omega

theorem not_uniformParameters_seven (pos : 0 < g.numPE) (seven : g.inputs = 7)
    (rest : g.inputRemainder ≠ 0) (hc : 0 < g.c) (hk : 0 < g.knum) :
    ¬g.UniformParameters (g.emitted (g.fusedCalls heap) heap) := by
  intro uniform
  obtain ⟨w, hw⟩ : ∃ w, w ∈ g.remainderSteps heap := ⟨_, List.mem_cons_self⟩
  have mem : w ∈ g.fusedSteps heap := mem_fusedSteps.mpr ⟨hc, .inr ⟨rest, hw⟩⟩
  obtain ⟨heap', hstep⟩ := exists_mem_emitAll (g := g) (List.mem_append_left _ mem) heap
  rw [← steps_fusedCalls pos hk] at hstep
  obtain ⟨u, v, eq, -, some, -, last⟩ := (stepCalls_remainder (g := g) rest hw).isStep heap'
  have computes : ∃ e ∈ g.emitted w heap', e.2.type = .compute := by
    obtain ⟨e, he⟩ := List.exists_mem_of_ne_nil v some
    refine ⟨e, ?_, by simpa using last e he⟩
    rw [eq]
    exact List.mem_append_right u he
  -- the first PE behind the remainder reads the bias and stays idle
  have less : g.inputRemainder < g.numPE := Nat.mod_lt _ pos
  obtain ⟨reads, idle⟩ := reads_bias_remainder seven hw (Nat.le_refl _) less heap'
  have busy := (uniform.bias seven _ hstep computes g.inputRemainder).mp reads
  omega

end TrafficGenerator

/-- A fused node on two PEs, without bias or with one, for an input of `h * w` tiles. -/
def fusedOn (inputs : List Nat) (h w : Nat) : TrafficGenerator where
  numPE := 2
  numSubgraph := h * w
  splitNode := ⟨.conv, inputs, [7], [], []⟩
  strategy := ⟨[[1, 1, h, w], [1]], .output⟩

end Generator

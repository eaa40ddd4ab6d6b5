import Lab447.Generator.Trace

/-!
The traffic reduction of the convolutions. Leaving out what is for one tensor
changes nothing about the other entries, so two generators whose calls differ
only in the bias make the same list apart from the bias.
-/

namespace Generator

variable {g : TrafficGenerator}

/-- Not for the tensor `p`. -/
def TrafficGenerator.Spares (g : TrafficGenerator) (p : Nat) (slot : Option Slot) : Prop :=
  slot.map g.pointer ≠ some p

instance (p : Nat) (slot : Option Slot) : Decidable (g.Spares p slot) :=
  inferInstanceAs (Decidable (_ ≠ _))

/-! ## One tensor left out -/

variable {heap heap' : Heap}

/-- What an operation does to a tensor depends on that tensor alone. -/
theorem Op.move_congr (op : Op) {q : Nat} (same : heap q = heap' q) :
    op.move g heap q = op.move g heap' q := by
  have access (type : RequestType) (response : TrafficType) (size : Int) (slot : Slot) (i : Nat) :
      (g.access type response size slot i (State.new heap)).heap q =
        (g.access type response size slot i (State.new heap')).heap q := by
    simp only [TrafficGenerator.access, Heap.modify, State.new]
    split
    · rename_i here
      rw [← here, same]
    · exact same
  cases op with
  | read response size slot i => exact access .read response size slot i
  | write size slot i => exact access .write .unicast size slot i
  | sync => exact same
  | compute => exact same

theorem Op.move_of_spares {op : Op} {q : Nat} (spares : g.Spares q op.slot) :
    op.move g heap q = heap q := by
  have access (type : RequestType) (response : TrafficType) (size : Int) (slot : Slot) (i : Nat)
      (other : g.Spares q (some slot)) :
      (g.access type response size slot i (State.new heap)).heap q = heap q :=
    if_neg fun here => other (congrArg some here.symm)
  cases op with
  | read response size slot i => exact access .read response size slot i spares
  | write size slot i => exact access .write .unicast size slot i spares
  | sync => rfl
  | compute => rfl

theorem Op.entry_congr {op : Op}
    (same : ∀ slot, op.slot = some slot → heap (g.pointer slot) = heap' (g.pointer slot)) :
    op.entry g heap = op.entry g heap' := by
  cases op with
  | read response size slot i =>
    simp only [Op.entry, TrafficGenerator.entry, State.new, same slot rfl]
  | write size slot i => simp only [Op.entry, TrafficGenerator.entry, State.new, same slot rfl]
  | sync => rfl
  | compute => rfl

/-- The entries that are not for `p` are those of the operations that are not, even
from tensors that differ in `p`. -/
theorem filter_emit {p : Nat} (ops : List Op) (same : ∀ q, q ≠ p → heap q = heap' q) :
    (emit g ops heap).filter (fun e => g.Spares p e.1) =
      emit g (ops.filter fun op => g.Spares p op.slot) heap' := by
  induction ops generalizing heap heap' with
  | nil => rfl
  | cons op ops ih =>
    rw [emit, List.filter_cons, List.filter_cons]
    by_cases spares : g.Spares p op.slot
    · have entry : op.entry g heap = op.entry g heap' :=
        Op.entry_congr fun slot hs => same _ fun h => spares (by rw [hs, ← h]; rfl)
      have rest := ih fun q hq => op.move_congr (g := g) (same q hq)
      rw [if_pos (decide_eq_true spares), if_pos (decide_eq_true spares), emit, entry, rest]
    · have rest : ∀ q, q ≠ p → op.move g heap q = heap' q := by
        intro q hq
        have other : g.Spares q op.slot := fun h => hq (by
          rw [TrafficGenerator.Spares, not_not, h] at spares
          exact Option.some.inj spares)
        rw [Op.move_of_spares other, same q hq]
      rw [if_neg (by simpa using spares), if_neg (by simpa using spares), ih rest]

theorem filter_opsOf {p numPE : Nat} (w : List Call) :
    (opsOf numPE w).filter (fun op => g.Spares p op.slot) =
      opsOf numPE (w.filter fun call => g.Spares p call.slot) := by
  induction w with
  | nil => rfl
  | cons call w ih =>
    have one : (call.ops numPE).filter (fun op => g.Spares p op.slot) =
        if g.Spares p call.slot then call.ops numPE else [] := by
      split
      · rename_i spares
        refine List.filter_eq_self.mpr fun op hop => ?_
        rw [Call.slot_of_mem_ops hop]
        exact decide_eq_true spares
      · rename_i spares
        refine List.filter_eq_nil_iff.mpr fun op hop => ?_
        rw [Call.slot_of_mem_ops hop, decide_eq_true_eq]
        exact spares
    rw [opsOf, List.flatMap_cons, List.filter_append, one, List.filter_cons]
    simp only [decide_eq_true_eq]
    split
    · exact congrArg _ ih
    · exact ih

/-- Calls that agree apart from `p` make the same entries apart from `p`. -/
theorem filter_emitted_congr {p : Nat} {v w : List Call} (heap : Heap)
    (same : v.filter (fun call => g.Spares p call.slot) =
      w.filter fun call => g.Spares p call.slot) :
    (g.emitted v heap).filter (fun e => g.Spares p e.1) =
      (g.emitted w heap).filter fun e => g.Spares p e.1 := by
  have only (u : List Call) : (emit g (opsOf g.numPE u) heap).filter (fun e => g.Spares p e.1) =
      emit g ((opsOf g.numPE u).filter fun op => g.Spares p op.slot) heap :=
    filter_emit _ fun _ _ => rfl
  rw [TrafficGenerator.emitted, TrafficGenerator.emitted, only, only, filter_opsOf, filter_opsOf,
    same]

/-! ## The bias left out -/

namespace TrafficGenerator

/-- A traffic list without the entries for the bias tensor, the `SYNC`s of its
broadcasts among them. -/
def withoutBias (g : TrafficGenerator) (es : List (Option Slot × Traffic)) : List Traffic :=
  (if 2 < g.inputs then es.filter fun e => g.Spares (g.pointer (.input 2)) e.1 else es).map Prod.snd

theorem filter_repeated (f : Call → Bool) (k : Nat) (w : List Call) :
    (repeated k w).filter f = repeated k (w.filter f) := by
  rw [repeated, repeated, List.filter_flatten, List.map_replicate]

variable {heap : Heap}

theorem filter_biasCalls (k : Nat) :
    (g.biasCalls heap k).filter (fun call => g.Spares (g.pointer (.input 2)) call.slot) = [] := by
  unfold biasCalls
  split
  · exact List.filter_cons_of_neg (by simp [Spares, readCall, Call.slot])
  · rfl

theorem filter_weightCalls {f : Call → Bool} {first : List Call} (none : first.filter f = []) :
    (g.weightCalls heap first).filter f = (g.weightCalls heap []).filter f := by
  simp only [weightCalls, filter_repeated, List.filter_append, none, List.filter_nil]

theorem filter_outputCalls {f : Call → Bool} {bias : List Call} (first : List Call)
    (none : bias.filter f = []) :
    (g.outputCalls heap bias first).filter f = (g.outputCalls heap [] first).filter f := by
  unfold outputCalls
  split
  all_goals
    simp only [filter_repeated, List.filter_append, List.filter_cons, none, List.nil_append]

/-- Two generators whose calls agree apart from the bias make the same list apart
from the bias. -/
theorem withoutBias_congr {v w : List Call}
    (biased : 2 < g.inputs → v.filter (fun call => g.Spares (g.pointer (.input 2)) call.slot) =
      w.filter fun call => g.Spares (g.pointer (.input 2)) call.slot)
    (unbiased : ¬2 < g.inputs → v = w) :
    g.withoutBias (g.emitted v heap) = g.withoutBias (g.emitted w heap) := by
  unfold withoutBias
  split
  · rename_i h
    rw [filter_emitted_congr heap (biased h)]
  · rename_i h
    rw [unbiased h]

/-- The traffic reductions only change the traffic of the bias: without it, the
lists are those of the plain generators, entry by entry. -/
theorem reduction_same_but_bias (g : TrafficGenerator) (heap : Heap) :
    g.withoutBias (g.labelled .convWeightReduction heap) =
      g.withoutBias (g.labelled .convWeightStationary heap) ∧
    g.withoutBias (g.labelled .convOutputReduction heap) =
      g.withoutBias (g.labelled .convOutputStationary heap) := by
  have bias (k : Nat) (h : ¬2 < g.inputs) : g.biasCalls heap k = [] := if_neg h
  constructor
  · have reduced : g.labelled .convWeightReduction heap = _ :=
      makes_convWeightReduction.labelled_eq
    have plain : g.labelled .convWeightStationary heap = _ :=
      makes_convWeightStationary.labelled_eq
    rw [reduced, plain]
    refine withoutBias_congr (fun h => ?_) fun h => ?_
    · rw [filter_weightCalls (filter_biasCalls g.numPE), if_pos h, List.filter_append]
      simp [Spares, broadcastCall, Call.slot]
    · rw [bias _ h, if_neg h]
      rfl
  · have reduced : g.labelled .convOutputReduction heap = _ :=
      makes_convOutputReduction.labelled_eq
    have plain : g.labelled .convOutputStationary heap = _ :=
      makes_convOutputStationary.labelled_eq
    rw [reduced, plain]
    refine withoutBias_congr (fun h => ?_) fun h => ?_
    · rw [filter_outputCalls _ (filter_biasCalls g.numPE), if_pos h, List.filter_append]
      simp [Spares, Call.slot]
    · rw [bias _ h, bias _ h, if_neg h]
      rfl

end TrafficGenerator

end Generator

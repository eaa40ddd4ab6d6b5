import Lab447.Generator.Reduction
import Lab447.Generator.Weights

/-!
The traffic reduction of the batch normalisation. Without the traffic of the
parameters both generators are rounds in which some PEs read a tile, compute and
write; the rounds differ.
-/

namespace Generator

open Walk

variable {g : TrafficGenerator} {heap : Heap}

/-! ## Several tensors left out -/

/-- Not for one of the tensors `ps`. -/
def TrafficGenerator.SparesAll (g : TrafficGenerator) (ps : List Nat) (slot : Option Slot) : Prop :=
  ∀ p ∈ ps, g.Spares p slot

instance (ps : List Nat) (slot : Option Slot) : Decidable (g.SparesAll ps slot) :=
  inferInstanceAs (Decidable (∀ p ∈ ps, _))

theorem filter_sparesAll_cons {α : Type} (slot : α → Option Slot) (p : Nat) (ps : List Nat)
    (xs : List α) : xs.filter (fun x => g.SparesAll (p :: ps) (slot x)) =
      (xs.filter fun x => g.Spares p (slot x)).filter fun x => g.SparesAll ps (slot x) := by
  rw [List.filter_filter]
  refine List.filter_congr fun x _ => ?_
  rw [← Bool.decide_and, decide_eq_decide, TrafficGenerator.SparesAll, List.forall_mem_cons]
  exact and_comm

/-- The entries that are for none of the tensors are those of the calls that are for
none of them. -/
theorem filter_emitted (ps : List Nat) (w : List Call) (heap : Heap) :
    (g.emitted w heap).filter (fun e => g.SparesAll ps e.1) =
      g.emitted (w.filter fun call => g.SparesAll ps call.slot) heap := by
  induction ps generalizing w with
  | nil =>
    have all {α : Type} (slot : α → Option Slot) (xs : List α) :
        xs.filter (fun x => g.SparesAll [] (slot x)) = xs :=
      List.filter_eq_self.mpr fun x _ => by simp [TrafficGenerator.SparesAll]
    rw [all Prod.fst, all Call.slot]
  | cons p ps ih =>
    have one : (g.emitted w heap).filter (fun e => g.Spares p e.1) =
        g.emitted (w.filter fun call => g.Spares p call.slot) heap := by
      rw [TrafficGenerator.emitted, filter_emit _ fun _ _ => rfl, filter_opsOf]
      rfl
    rw [filter_sparesAll_cons Prod.fst, filter_sparesAll_cons Call.slot, one, ih]

/-! ## Tiles of one tensor -/

theorem spans_append (type : RequestType) (slot : Slot) (es es' : List (Option Slot × Traffic)) :
    spans type slot (es ++ es') = spans type slot es ++ spans type slot es' := by
  simp [spans]

theorem spans_one {op : Op} {slot : Slot} (here : op.slot = some slot)
    (type : op.type = slot.type) (heap : Heap) :
    spans slot.type slot (emit g [op] heap) = [span (op.entry g heap)] := by
  rw [spans, emit, emit, List.filter_cons_of_pos (by simp [here, op.type_entry, type])]
  rfl

theorem spans_other {op : Op} {slot : Slot} (there : op.slot ≠ some slot) (type : RequestType)
    (heap : Heap) : spans type slot (emit g [op] heap) = [] := by
  rw [spans, emit, emit, List.filter_cons_of_neg (by simp [there])]
  rfl

theorem Op.hits_of_ne {op : Op} {q : Nat} (ne : ∀ slot, op.slot = some slot → g.pointer slot ≠ q) :
    op.hits g q = 0 := by
  cases op with
  | read _ _ slot _ => exact if_neg (ne slot rfl)
  | write _ slot _ => exact if_neg (ne slot rfl)
  | sync => rfl
  | compute => rfl

/-- Operations that access a tensor tile by tile, under one name, go through its
tiles in order. -/
theorem spans_emit {slot : Slot} {ops : List Op} (whole : ∀ op ∈ ops, op.Whole g heap)
    (named : ∀ op ∈ ops, ∀ other, op.slot = some other → g.pointer other = g.pointer slot →
      other = slot)
    (typed : ∀ op ∈ ops, op.slot = some slot → op.type = slot.type)
    (start : ∀ p, (heap p).address < 2 ^ 64) :
    spans slot.type slot (emit g ops heap) =
      g.tiles heap slot (hits g (g.pointer slot) ops) := by
  induction ops using List.reverseRecOn with
  | nil => rfl
  | append_singleton ops op ih =>
    have mem : op ∈ ops ++ [op] := List.mem_append_right _ (List.mem_singleton_self op)
    have whole' : ∀ op ∈ ops, op.Whole g heap := fun op h => whole op (List.mem_append_left _ h)
    have before := ih whole' (fun op h => named op (List.mem_append_left _ h))
      fun op h => typed op (List.mem_append_left _ h)
    have one : hits g (g.pointer slot) [op] = op.hits g (g.pointer slot) := by simp [hits]
    rw [emit_append, spans_append, before, hits_append, one]
    by_cases here : op.slot = some slot
    · have type := typed op mem here
      have next : op.hits g (g.pointer slot) = 1 ∧ span (op.entry g (after g ops heap)) =
          g.tileAt heap slot (hits g (g.pointer slot) ops) := by
        rw [TrafficGenerator.tileAt, ← address_after whole' start]
        have size := whole op mem
        cases op with
        | read response size' slot' i =>
          cases here
          cases size
          exact ⟨if_pos rfl, rfl⟩
        | write size' slot' i =>
          cases here
          cases size
          exact ⟨if_pos rfl, rfl⟩
        | sync slot' i => cases slot <;> cases type
        | compute i => cases here
      rw [spans_one here type, next.1, next.2, TrafficGenerator.tiles, TrafficGenerator.tiles,
        List.range_succ, List.map_append]
      rfl
    · have none : op.hits g (g.pointer slot) = 0 := by
        refine Op.hits_of_ne fun other name same => here ?_
        rw [name, named op mem other name same]
      rw [spans_other here, none, List.append_nil, Nat.add_zero]

theorem hits_opsOf (q numPE : Nat) (w : List Call) :
    hits g q (opsOf numPE w) = (w.map fun call => hits g q (call.ops numPE)).sum := by
  induction w with
  | nil => rfl
  | cons call w ih =>
    rw [List.map_cons, List.sum_cons, ← ih, ← hits_append]
    rfl

/-! ## Rounds -/

namespace TrafficGenerator

section

variable (g heap)

/-- `k` PEs read a tile, `l` of them compute and write. -/
def activity (k l : Nat) : List Call :=
  [g.readCall heap k (.input 0), .compute l, g.writeCall heap l .output]

def activities (rounds : List (Nat × Nat)) : List Call :=
  rounds.flatMap fun r => g.activity heap r.1 r.2

/-- The entries are reads of the input, `COMPUTE`s and writes of the output, and
each of `n` tiles is read, computed and written once. -/
structure EachTileOnce (n : Nat) (es : List (Option Slot × Traffic)) : Prop where
  only : ∀ e ∈ es, e.1 = some (.input 0) ∧ e.2.type = .read ∨
    e.1 = none ∧ e.2.type = .compute ∨ e.1 = some .output ∧ e.2.type = .write
  reads : spans .read (.input 0) es = g.tiles heap (.input 0) n
  computed : computes (es.map Prod.snd) = n
  writes : spans .write .output es = g.tiles heap .output n

end

variable {rounds : List (Nat × Nat)}

theorem op_of_activities {numPE : Nat} {op : Op}
    (h : op ∈ opsOf numPE (g.activities heap rounds)) :
    (∃ i, op = .read .unicast (g.tileSize heap (.input 0)) (.input 0) i) ∨
      (∃ i, op = .compute i) ∨ ∃ i, op = .write (g.tileSize heap .output) .output i := by
  obtain ⟨call, hcall, hop⟩ := List.mem_flatMap.mp h
  obtain ⟨r, -, hcall⟩ := List.mem_flatMap.mp hcall
  simp only [activity, List.mem_cons, List.not_mem_nil, or_false] at hcall
  obtain rfl | rfl | rfl := hcall
  · obtain ⟨i, -, rfl⟩ := List.mem_map.mp hop
    exact .inl ⟨i, rfl⟩
  · obtain ⟨i, -, rfl⟩ := List.mem_map.mp hop
    exact .inr (.inl ⟨i, rfl⟩)
  · obtain ⟨i, -, rfl⟩ := List.mem_map.mp hop
    exact .inr (.inr ⟨i, rfl⟩)

theorem hits_activities (apart : g.pointer (.input 0) ≠ g.pointer .output) (numPE : Nat) :
    hits g (g.pointer (.input 0)) (opsOf numPE (g.activities heap rounds)) =
        (rounds.map Prod.fst).sum ∧
      hits g (g.pointer .output) (opsOf numPE (g.activities heap rounds)) =
        (rounds.map Prod.snd).sum := by
  rw [hits_opsOf, hits_opsOf]
  induction rounds with
  | nil => exact ⟨rfl, rfl⟩
  | cons r rounds ih =>
    have head : g.activities heap (r :: rounds) =
        g.activity heap r.1 r.2 ++ g.activities heap rounds := rfl
    rw [head, List.map_append, List.sum_append, ih.1, List.map_append, List.sum_append, ih.2]
    simp [activity, hits_call, readCall, writeCall, apart, apart.symm]

theorem computes_activities :
    ((g.activities heap rounds).map Call.computes).sum = (rounds.map Prod.snd).sum := by
  induction rounds with
  | nil => rfl
  | cons r rounds ih =>
    have head : g.activities heap (r :: rounds) =
        g.activity heap r.1 r.2 ++ g.activities heap rounds := rfl
    rw [head, List.map_append, List.sum_append, ih]
    simp [activity, readCall, writeCall, Call.computes]

/-- The rounds handle `n` tiles once if they read and compute `n` tiles. -/
theorem eachTileOnce_iff {n : Nat} (apart : g.pointer (.input 0) ≠ g.pointer .output)
    (start : ∀ p, (heap p).address < 2 ^ 64) :
    g.EachTileOnce heap n (g.emitted (g.activities heap rounds) heap) ↔
      (rounds.map Prod.fst).sum = n ∧ (rounds.map Prod.snd).sum = n := by
  have whole : ∀ op ∈ opsOf g.numPE (g.activities heap rounds), op.Whole g heap := by
    intro op h
    obtain ⟨i, rfl⟩ | ⟨i, rfl⟩ | ⟨i, rfl⟩ := op_of_activities h
    · exact rfl
    · trivial
    · exact rfl
  have typed (slot : Slot) : ∀ op ∈ opsOf g.numPE (g.activities heap rounds),
      op.slot = some slot → op.type = slot.type := by
    intro op h name
    obtain ⟨i, rfl⟩ | ⟨i, rfl⟩ | ⟨i, rfl⟩ := op_of_activities h <;> cases name <;> rfl
  have named {slot : Slot} (used : slot = .input 0 ∨ slot = .output) :
      ∀ op ∈ opsOf g.numPE (g.activities heap rounds), ∀ other, op.slot = some other →
        g.pointer other = g.pointer slot → other = slot := by
    intro op h other name same
    obtain ⟨i, rfl⟩ | ⟨i, rfl⟩ | ⟨i, rfl⟩ := op_of_activities h <;> cases name <;>
      obtain rfl | rfl := used
    · rfl
    · exact absurd same apart
    · exact absurd same.symm apart
    · rfl
  obtain ⟨inputs, outputs⟩ : _ ∧ hits g (g.pointer .output) (opsOf g.numPE
    (g.activities heap rounds)) = _ := hits_activities apart g.numPE
  have reads : spans .read (.input 0) (g.emitted (g.activities heap rounds) heap) =
      g.tiles heap (.input 0) (rounds.map Prod.fst).sum := by
    rw [← inputs]
    exact spans_emit whole (named (.inl rfl)) (typed (.input 0)) start
  have writes : spans .write .output (g.emitted (g.activities heap rounds) heap) =
      g.tiles heap .output (rounds.map Prod.snd).sum := by
    rw [← outputs]
    exact spans_emit whole (named (.inr rfl)) (typed .output) start
  constructor
  · intro once
    have read := congrArg List.length (reads.symm.trans once.reads)
    have written := congrArg List.length (writes.symm.trans once.writes)
    rw [length_tiles, length_tiles] at read written
    exact ⟨read, written⟩
  · rintro ⟨read, written⟩
    refine ⟨fun e he => ?_, by rw [reads, read], ?_, by rw [writes, written]⟩
    · obtain ⟨op, hop, slot, type⟩ := exists_op_of_mem_emit he
      rw [slot, type]
      obtain ⟨i, rfl⟩ | ⟨i, rfl⟩ | ⟨i, rfl⟩ := op_of_activities hop
      · exact .inl ⟨rfl, rfl⟩
      · exact .inr (.inl ⟨rfl, rfl⟩)
      · exact .inr (.inr ⟨rfl, rfl⟩)
    · rw [computes_emitted, computes_activities, written]

/-! ## The parameters left out -/

section

variable (g heap)

/-- The tensors of the parameters. -/
def parameterTensors : List Nat := g.parameters.map fun j => g.pointer (.input j)

/-- A traffic list without the entries for the parameters, the `SYNC`s of their
broadcasts among them. -/
def withoutParameters (es : List (Option Slot × Traffic)) : List (Option Slot × Traffic) :=
  es.filter fun e => g.SparesAll g.parameterTensors e.1

def batchnormCalls : List Call :=
  if 1 < g.c ∧ g.strategy.split 0 2 = 1 ∧ g.strategy.split 0 3 = 1 then
    repeated (g.c / g.numPE) (g.readCall heap g.numPE (.input 0) ::
        (g.parameters.map (fun j => g.readCall heap g.numPE (.input j)) ++
          [.compute g.numPE, g.writeCall heap g.numPE .output])) ++
      if g.c % g.numPE ≠ 0 then
        g.readCall heap (g.c % g.numPE) (.input 0) ::
          (g.parameters.map (fun j => g.broadcastCall heap (.input j)) ++
            [.compute (g.c % g.numPE), g.writeCall heap (g.c % g.numPE) .output])
      else []
  else if 1 < g.c ∧ g.strategy.split 0 2 ≠ 1 ∧ g.strategy.split 0 3 ≠ 1 then
    repeated g.c (g.parameters.map (fun j => g.broadcastCall heap (.input j)) ++
      (repeated g.inputRound (g.activity heap g.numPE g.numPE) ++
        if g.inputRemainder ≠ 0 then g.activity heap g.inputRemainder g.inputRemainder else []))
  else if g.c = 1 then
    g.parameters.map (fun j => g.broadcastCall heap (.input j)) ++
      (repeated g.round (g.activity heap g.numPE g.numPE) ++
        if g.remainder ≠ 0 then g.activity heap g.numPE g.remainder else [])
  else []

/-- `n` tiles in rounds of `m`, and the rest. -/
def evenRounds (n m : Nat) : List (Nat × Nat) :=
  List.replicate (n / m) (m, m) ++ if n % m ≠ 0 then [(n % m, n % m)] else []

/-- The rounds: how many PEs read, and how many compute and write. -/
def batchnormRounds : List (Nat × Nat) :=
  if 1 < g.c ∧ g.strategy.split 0 2 = 1 ∧ g.strategy.split 0 3 = 1 then
    evenRounds g.c g.numPE
  else if 1 < g.c ∧ g.strategy.split 0 2 ≠ 1 ∧ g.strategy.split 0 3 ≠ 1 then
    (List.replicate g.c (evenRounds g.hw g.numPE)).flatten
  else if g.c = 1 then
    List.replicate g.round (g.numPE, g.numPE) ++
      if g.remainder ≠ 0 then [(g.numPE, g.remainder)] else []
  else []

def batchnormReductionCalls : List Call :=
  (List.range' 1 (g.splitNode.originalInputSize.length - 1)).map
      (fun j => .broadcastRead (g.originalInputSize j) (.input j)) ++
    (repeated (g.subgraphs / g.numPE) (g.activity heap g.numPE g.numPE) ++
      if g.subgraphs % g.numPE ≠ 0 then
        g.activity heap (g.subgraphs % g.numPE) (g.subgraphs % g.numPE)
      else [])

end

theorem makes_batchnormTiles (k : Nat) :
    g.Makes heap (g.batchnormTiles k) (g.activity heap k k) :=
  .cons (.read _ _) <| .cons (.compute _) <| .cons (.write _ _) .nil

theorem makes_batchnorm : g.Makes heap g.generateTrafficBatchnorm (g.batchnormCalls heap) := by
  unfold generateTrafficBatchnorm batchnormCalls
  split
  · exact .congr (.cons
      (.times _ <| .cons (.read _ _) <| .cons (.each fun _ _ => .read _ _) <|
        .cons (.compute _) <| .cons (.write _ _) .nil) <| .cons
      (.onlyIf _ <| .cons (.read _ _) <| .cons (.each fun _ _ => .broadcast _) <|
        .cons (.compute _) <| .cons (.write _ _) .nil)
      .nil) (by simp [List.map_eq_flatMap])
  split
  · exact .congr (.times _ <| .cons (.each fun _ _ => .broadcast _) <|
      .cons (.times _ (makes_batchnormTiles _)) <|
      .cons (.onlyIf _ (makes_batchnormTiles _)) .nil) (by simp [List.map_eq_flatMap])
  split
  · exact .congr (.cons (.each fun _ _ => .broadcast _) <|
      .cons (.times _ (makes_batchnormTiles _)) <|
      .cons (.onlyIf _ <| .cons (.read _ _) <| .cons (.compute _) <| .cons (.write _ _) .nil)
      .nil) (by simp [List.map_eq_flatMap, activity])
  · exact .nil

theorem makes_batchnormReduction : g.Makes heap g.generateTrafficBatchnormReduction
    (g.batchnormReductionCalls heap) :=
  .congr (.cons (.each fun j _ => .one (.broadcastRead (g.originalInputSize j) (.input j))) <|
    .cons (.times _ (makes_batchnormTiles _)) <| .cons (.onlyIf _ (makes_batchnormTiles _)) .nil)
    (by simp [batchnormReductionCalls, List.map_eq_flatMap])

theorem activities_append (rs rs' : List (Nat × Nat)) :
    g.activities heap (rs ++ rs') = g.activities heap rs ++ g.activities heap rs' :=
  List.flatMap_append

theorem activities_replicate (k : Nat) (rs : List (Nat × Nat)) :
    g.activities heap (List.replicate k rs).flatten = repeated k (g.activities heap rs) := by
  induction k with
  | zero => rfl
  | succ k ih =>
    rw [List.replicate_succ, List.flatten_cons, activities_append, ih]
    rfl

theorem activities_replicate_one (k : Nat) (r : Nat × Nat) :
    g.activities heap (List.replicate k r) = repeated k (g.activity heap r.1 r.2) := by
  induction k with
  | zero => rfl
  | succ k ih => exact congrArg (g.activity heap r.1 r.2 ++ ·) ih

theorem activities_if (p : Prop) [Decidable p] (r : Nat × Nat) :
    g.activities heap (if p then [r] else []) = if p then g.activity heap r.1 r.2 else [] := by
  split
  · exact List.append_nil _
  · rfl

theorem activities_evenRounds (n m : Nat) : g.activities heap (evenRounds n m) =
    repeated (n / m) (g.activity heap m m) ++
      if n % m ≠ 0 then g.activity heap (n % m) (n % m) else [] := by
  rw [evenRounds, activities_append, activities_replicate_one, activities_if]

theorem mem_parameters {j : Nat} (some : 0 < g.inputs) :
    j ∈ g.parameters ↔ 0 < j ∧ j < g.inputs := by
  rw [parameters, List.mem_range'_1]
  omega

theorem filter_parameterCalls {f : Nat → Call} (slots : ∀ j, (f j).slot = .some (.input j))
    {js : List Nat} (sub : ∀ j ∈ js, j ∈ g.parameters) :
    (js.map f).filter (fun call => g.SparesAll g.parameterTensors call.slot) = [] := by
  refine List.filter_eq_nil_iff.mpr fun call h => ?_
  obtain ⟨j, hj, rfl⟩ := List.mem_map.mp h
  rw [decide_eq_true_eq, slots]
  exact fun spares => spares _ (List.mem_map_of_mem (sub j hj)) rfl

section

variable (distinct : g.splitNode.Distinct) (some : 0 < g.inputs)

include distinct some

theorem sparesAll_input : g.SparesAll g.parameterTensors (.some (.input 0)) := by
  intro p hp same
  obtain ⟨j, hj, rfl⟩ := List.mem_map.mp hp
  obtain ⟨pos, less⟩ := (mem_parameters some).mp hj
  have name := distinct.eq (a := .input 0) (b := .input j) some less (Option.some.inj same)
  cases name
  exact absurd pos (lt_irrefl 0)

theorem sparesAll_output : g.SparesAll g.parameterTensors (.some .output) := by
  intro p hp same
  obtain ⟨j, hj, rfl⟩ := List.mem_map.mp hp
  obtain ⟨-, less⟩ := (mem_parameters some).mp hj
  cases distinct.eq (a := .output) (b := .input j) trivial less (Option.some.inj same)

theorem filter_activity (k l : Nat) :
    (g.activity heap k l).filter (fun call => g.SparesAll g.parameterTensors call.slot) =
      g.activity heap k l := by
  refine List.filter_eq_self.mpr fun call h => decide_eq_true ?_
  simp only [activity, List.mem_cons, List.not_mem_nil, or_false] at h
  obtain rfl | rfl | rfl := h
  · exact sparesAll_input distinct some
  · exact fun _ _ h => by cases h
  · exact sparesAll_output distinct some

/-- Without the parameters the calls of the batch normalisation are its rounds. -/
theorem filter_batchnormCalls :
    (g.batchnormCalls heap).filter (fun call => g.SparesAll g.parameterTensors call.slot) =
      g.activities heap g.batchnormRounds := by
  have activity (k l : Nat) : (g.activity heap k l).filter _ = _ :=
    filter_activity distinct some k l
  have broadcasts : (g.parameters.map fun j => g.broadcastCall heap (.input j)).filter
      (fun call => g.SparesAll g.parameterTensors call.slot) = [] :=
    filter_parameterCalls (fun _ => rfl) fun _ h => h
  have reads : (g.parameters.map fun j => g.readCall heap g.numPE (.input j)).filter
      (fun call => g.SparesAll g.parameterTensors call.slot) = [] :=
    filter_parameterCalls (fun _ => rfl) fun _ h => h
  -- the parameters stand between the read and the rest of an activity
  have around {ps : List Call} (k l : Nat)
      (none : ps.filter (fun call => g.SparesAll g.parameterTensors call.slot) = []) :
      (g.readCall heap k (.input 0) :: (ps ++ [.compute l, g.writeCall heap l .output])).filter
        (fun call => g.SparesAll g.parameterTensors call.slot) = g.activity heap k l := by
    rw [← activity k l, TrafficGenerator.activity, List.filter_cons, List.filter_cons,
      List.filter_append, none]
    rfl
  have last (p : Prop) [Decidable p] (k l : Nat) :
      (if p then g.activity heap k l else []).filter
        (fun call => g.SparesAll g.parameterTensors call.slot) =
        g.activities heap (if p then [(k, l)] else []) := by
    split
    · exact activity k l
    · rfl
  unfold batchnormCalls batchnormRounds
  split
  · rw [List.filter_append, filter_repeated, around _ _ reads, activities_evenRounds]
    refine congrArg _ ?_
    split
    · exact around _ _ broadcasts
    · rfl
  split
  · rw [filter_repeated, activities_replicate, List.filter_append, broadcasts, List.nil_append,
      List.filter_append, filter_repeated, activity, last, activities_if, activities_evenRounds]
    rfl
  split
  · rw [List.filter_append, broadcasts, List.nil_append, List.filter_append, filter_repeated,
      activity, last, activities_append, activities_replicate_one]
  · rfl

theorem filter_batchnormReductionCalls
    (sized : g.splitNode.originalInputSize.length ≤ g.inputs) :
    (g.batchnormReductionCalls heap).filter
        (fun call => g.SparesAll g.parameterTensors call.slot) =
      g.activities heap (evenRounds g.subgraphs g.numPE) := by
  have activity (k l : Nat) : (g.activity heap k l).filter _ = _ :=
    filter_activity distinct some k l
  have broadcasts : ((List.range' 1 (g.splitNode.originalInputSize.length - 1)).map
      fun j => Call.broadcastRead (g.originalInputSize j) (.input j)).filter
      (fun call => g.SparesAll g.parameterTensors call.slot) = [] := by
    refine filter_parameterCalls (fun _ => rfl) fun j hj => ?_
    rw [List.mem_range'_1] at hj
    exact (mem_parameters some).mpr (by omega)
  rw [batchnormReductionCalls, List.filter_append, broadcasts, List.nil_append,
    List.filter_append, filter_repeated, activity, activities_evenRounds]
  refine congrArg _ ?_
  split
  · exact activity _ _
  · rfl

end

/-! ## The rounds -/

/-- Channels are cut, with both other axes or neither of them; or they are not, and
the PEs divide the tiles. -/
def BatchnormCovered (g : TrafficGenerator) : Prop :=
  1 < g.c ∧ (g.strategy.split 0 2 = 1 ↔ g.strategy.split 0 3 = 1) ∨ g.c = 1 ∧ g.numPE ∣ g.hw

instance : Decidable g.BatchnormCovered := inferInstanceAs (Decidable (_ ∨ _))

theorem sum_evenRounds {n m : Nat} :
    ((evenRounds n m).map Prod.fst).sum = n ∧ ((evenRounds n m).map Prod.snd).sum = n := by
  have all := Nat.div_add_mod' n m
  rw [evenRounds]
  split
  · simpa using all
  · rename_i none
    rw [not_not.mp none] at all
    simpa using all

theorem sum_flatten_replicate (k : Nat) (rs : List (Nat × Nat)) (f : Nat × Nat → Nat) :
    ((List.replicate k rs).flatten.map f).sum = k * (rs.map f).sum := by
  simp [List.map_flatten, List.sum_flatten]

/-- The plain generator handles `c * h * w` tiles once exactly when no case of the
split is left out and no tile is left over. -/
theorem sum_batchnormRounds_iff (pos : 0 < g.numPE) (cut : 0 < g.c) (rows : 0 < g.strategy.split 0 2)
    (columns : 0 < g.strategy.split 0 3) (total : g.numSubgraph = g.subgraphs) :
    (g.batchnormRounds.map Prod.fst).sum = g.subgraphs ∧
        (g.batchnormRounds.map Prod.snd).sum = g.subgraphs ↔ g.BatchnormCovered := by
  have tiles : g.subgraphs = g.c * g.hw := Nat.mul_assoc _ _ _
  have many : 0 < g.hw := Nat.mul_pos rows columns
  unfold batchnormRounds BatchnormCovered
  split
  · rename_i h
    have one : g.hw = 1 := by rw [hw, h.2.1, h.2.2]
    rw [tiles, one, Nat.mul_one]
    exact iff_of_true sum_evenRounds (.inl ⟨h.1, iff_of_true h.2.1 h.2.2⟩)
  split
  · rename_i h
    rw [sum_flatten_replicate, sum_flatten_replicate, sum_evenRounds.1, sum_evenRounds.2, tiles]
    exact iff_of_true ⟨rfl, rfl⟩ (.inl ⟨h.1, iff_of_false h.2.1 h.2.2⟩)
  split
  · rename_i h
    rw [tiles, h, Nat.one_mul] at total ⊢
    have iff := round_add_remainder_iff pos
    rw [total] at iff
    have computed : ((List.replicate g.round (g.numPE, g.numPE) ++
        if g.remainder ≠ 0 then [(g.numPE, g.remainder)] else []).map Prod.snd).sum =
          g.round * g.numPE + g.remainder := by
      split
      · simp
      · rename_i none
        simp [not_not.mp none]
    rw [computed, iff]
    constructor
    · exact fun divides => .inr ⟨rfl, divides.2⟩
    · intro covered
      have divides : g.numPE ∣ g.hw := by
        obtain ⟨more, -⟩ | ⟨-, divides⟩ := covered
        · exact absurd more (lt_irrefl 1)
        · exact divides
      obtain ⟨rounds, none⟩ := round_eq_of_dvd pos (total ▸ divides)
      refine ⟨?_, divides⟩
      rw [if_neg (not_not.mpr none), List.append_nil]
      simpa using rounds.trans total
  · -- the channels are cut with one of the other axes: there is no traffic
    rename_i neither notBoth cutChannels
    have some : 0 < g.subgraphs := tiles ▸ Nat.mul_pos cut many
    refine iff_of_false (fun h => some.ne h.1) ?_
    rintro (⟨more, same⟩ | ⟨one, -⟩)
    · by_cases row : g.strategy.split 0 2 = 1
      · exact neither ⟨more, row, same.mp row⟩
      · exact notBoth ⟨more, row, fun column => row (same.mpr column)⟩
    · exact cutChannels one

/-- Apart from the parameters the plain generator and the reduction handle each of
the `c * h * w` activation tiles once, at the same addresses, exactly when the split
is one that the plain generator covers. -/
theorem batchnorm_reduction_iff (g : TrafficGenerator) (heap : Heap) (pos : 0 < g.numPE)
    (cut : 0 < g.c) (rows : 0 < g.strategy.split 0 2) (columns : 0 < g.strategy.split 0 3)
    (total : g.numSubgraph = g.subgraphs) (some : 0 < g.inputs)
    (sized : g.splitNode.originalInputSize.length ≤ g.inputs) (distinct : g.splitNode.Distinct)
    (start : ∀ p, (heap p).address < 2 ^ 64) :
    g.EachTileOnce heap g.subgraphs (g.withoutParameters (g.labelled .batchnorm heap)) ∧
        g.EachTileOnce heap g.subgraphs
          (g.withoutParameters (g.labelled .batchnormReduction heap)) ↔ g.BatchnormCovered := by
  have apart : g.pointer (.input 0) ≠ g.pointer .output := by
    intro same
    cases distinct.eq (a := .input 0) (b := .output) some trivial same
  have plain : g.labelled .batchnorm heap = g.emitted (g.batchnormCalls heap) heap :=
    makes_batchnorm.labelled_eq
  have reduced : g.labelled .batchnormReduction heap =
      g.emitted (g.batchnormReductionCalls heap) heap := makes_batchnormReduction.labelled_eq
  rw [withoutParameters, withoutParameters, plain, reduced, filter_emitted, filter_emitted,
    filter_batchnormCalls distinct some, filter_batchnormReductionCalls distinct some sized,
    eachTileOnce_iff apart start, eachTileOnce_iff apart start,
    sum_batchnormRounds_iff pos cut rows columns total]
  exact and_iff_left sum_evenRounds

end TrafficGenerator

/-- A batch normalisation on two PEs, split in `c * h * w` tiles. -/
def batchnormOn (c h w : Nat) : TrafficGenerator where
  numPE := 2
  numSubgraph := c * h * w
  splitNode := ⟨.batchnormal, [0, 1, 2, 3, 4], [5], [], [12, 2, 2, 2, 2]⟩
  strategy := ⟨[[1, c, h, w]], .other⟩

/-- Channels cut together with the rows only: the plain generator makes nothing. -/
theorem batchnorm_rows_missing :
    (batchnormOn 2 2 1).generated .batchnorm apart64 = [] ∧
      ¬(batchnormOn 2 2 1).EachTileOnce apart64 4
        ((batchnormOn 2 2 1).withoutParameters ((batchnormOn 2 2 1).labelled .batchnorm apart64)) ∧
      (batchnormOn 2 2 1).EachTileOnce apart64 4 ((batchnormOn 2 2 1).withoutParameters
        ((batchnormOn 2 2 1).labelled .batchnormReduction apart64)) := by
  refine ⟨by decide, fun once => absurd once.computed (by decide), ?_⟩
  exact ⟨by decide, by decide, by decide, by decide⟩

theorem batchnorm_channels_covered :
    (batchnormOn 3 1 1).EachTileOnce apart64 3
      ((batchnormOn 3 1 1).withoutParameters ((batchnormOn 3 1 1).labelled .batchnorm apart64)) :=
  ((TrafficGenerator.batchnorm_reduction_iff (batchnormOn 3 1 1) apart64 (by decide) (by decide)
    (by decide) (by decide) rfl (by decide) (by decide) (by decide) address_apart64).mpr
    (by decide)).1

end Generator

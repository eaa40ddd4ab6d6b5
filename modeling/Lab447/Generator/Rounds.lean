import Lab447.Generator.Inside
import Lab447.Generator.Trace

/-!
Whether a generator handles every tile once: how many `COMPUTE`s it makes, and
which tiles of each tensor it reads and writes.
-/

namespace Generator

open Command Walk

/-! ## Entries by type and tensor -/

def span (t : Traffic) : Nat × Nat := (t.addr, t.size)

/-- The addresses and sizes of the entries of one type for one tensor. -/
def spans (type : RequestType) (slot : Slot) (es : List (Option Slot × Traffic)) :
    List (Nat × Nat) :=
  (es.filter fun e => e.1 = some slot ∧ e.2.type = type).map fun e => span e.2

/-- The addresses and sizes of the writes of a traffic list. -/
def writes (l : List Traffic) : List (Nat × Nat) := (l.filter fun t => t.type = .write).map span

def computes (l : List Traffic) : Nat := l.countP fun t => t.type = .compute

/-- The type of the accesses to a tensor. -/
def Slot.type : Slot → RequestType
  | input _ => .read
  | output => .write

namespace Call

/-- Only the output is written, and only inputs are read. -/
def Proper : Call → Prop
  | unicastRead _ _ slot => slot.type = .read
  | unicastWrite _ _ slot => slot.type = .write
  | broadcastRead _ slot => slot.type = .read
  | compute _ => True

/-- The `COMPUTE`s of a call. -/
def computes : Call → Nat
  | compute k => k
  | _ => 0

end Call

/-- The type of the entry an operation makes. -/
def Op.type : Op → RequestType
  | read .. => .read
  | write .. => .write
  | sync .. => .sync
  | compute _ => .compute

variable {g : TrafficGenerator} {heap : Heap}

theorem Op.type_entry (op : Op) : (op.entry g heap).type = op.type := by cases op <;> rfl

theorem exists_op_of_mem_emit {ops : List Op} {e : Option Slot × Traffic} (h : e ∈ emit g ops heap) :
    ∃ op ∈ ops, e.1 = op.slot ∧ e.2.type = op.type := by
  induction ops generalizing heap with
  | nil => cases h
  | cons op ops ih =>
    obtain rfl | h := List.mem_cons.mp h
    · exact ⟨op, List.mem_cons_self, rfl, op.type_entry⟩
    · obtain ⟨op', h, eq⟩ := ih h
      exact ⟨op', List.mem_cons_of_mem _ h, eq⟩

theorem Call.Proper.type_of_mem_ops {call : Call} (h : call.Proper) {numPE : Nat} {op : Op}
    (hop : op ∈ call.ops numPE) {slot : Slot} (hs : op.slot = some slot)
    (access : op.type ≠ .sync) : op.type = slot.type := by
  cases call with
  | unicastRead k size slot' =>
    obtain ⟨i, -, rfl⟩ := List.mem_map.mp hop
    cases hs
    exact h.symm
  | unicastWrite k size slot' =>
    obtain ⟨i, -, rfl⟩ := List.mem_map.mp hop
    cases hs
    exact h.symm
  | broadcastRead size slot' =>
    obtain rfl | hop := List.mem_cons.mp hop
    · cases hs
      exact h.symm
    · obtain ⟨i, -, rfl⟩ := List.mem_map.mp hop
      exact absurd rfl access
  | compute k =>
    obtain ⟨i, -, rfl⟩ := List.mem_map.mp hop
    cases hs

section

variable {w : List Call} (proper : ∀ call ∈ w, call.Proper) {e : Option Slot × Traffic}
  (h : e ∈ g.emitted w heap)

include proper h

/-- The type of a labelled access follows from its tensor. -/
theorem type_of_mem_emitted {slot : Slot} (hs : e.1 = some slot) :
    e.2.isAccess = true ↔ e.2.type = slot.type := by
  obtain ⟨op, hop, hslot, htype⟩ := exists_op_of_mem_emit h
  obtain ⟨call, hcall, hop⟩ := List.mem_flatMap.mp hop
  constructor
  · intro access
    rw [htype]
    refine (proper call hcall).type_of_mem_ops hop (hslot ▸ hs) ?_
    intro sync
    simp [Traffic.isAccess, htype, sync] at access
  · intro type
    cases slot with
    | input j => simp [Traffic.isAccess, type, Slot.type]
    | output => simp [Traffic.isAccess, type, Slot.type]

theorem slot_of_write (write : e.2.type = .write) : e.1 = some .output := by
  obtain ⟨op, -, hslot, htype⟩ := exists_op_of_mem_emit h
  obtain ⟨slot, hs⟩ : ∃ slot, op.slot = some slot := by
    rw [write] at htype
    cases op with
    | read _ _ slot _ => exact ⟨slot, rfl⟩
    | write _ slot _ => exact ⟨slot, rfl⟩
    | sync slot _ => exact ⟨slot, rfl⟩
    | compute => cases htype
  have labelled : e.1 = some slot := hslot.trans hs
  have type := (type_of_mem_emitted proper h labelled).mp (by simp [Traffic.isAccess, write])
  rw [write] at type
  cases slot with
  | input j => cases type
  | output => exact labelled

end

/-! ## Tiles -/

namespace TrafficGenerator

/-- Address and size of tile `k` of a tensor. -/
def tileAt (g : TrafficGenerator) (heap : Heap) (slot : Slot) (k : Nat) : Nat × Nat :=
  (piece (2 ^ 64) (heap (g.pointer slot)).address (tile heap (g.pointer slot)) k,
    tile heap (g.pointer slot))

/-- The first `n` tiles of a tensor. -/
def tiles (g : TrafficGenerator) (heap : Heap) (slot : Slot) (n : Nat) : List (Nat × Nat) :=
  (List.range n).map (g.tileAt heap slot)

@[simp] theorem length_tiles (slot : Slot) (n : Nat) : (g.tiles heap slot n).length = n := by
  simp [tiles]

theorem Walked.spans_eq {s : State} {slot : Slot} (h : Walked g heap (g.pointer slot) s) :
    (g.through (g.pointer slot) s).map (fun a => span a.2) =
      g.tiles heap slot (g.through (g.pointer slot) s).length := by
  refine List.ext_getElem (by simp) fun k hk _ => ?_
  have hk : k < (g.through (g.pointer slot) s).length := by simpa using hk
  have entry := h.entries k _ (List.getElem?_eq_getElem hk)
  simp only [List.getElem_map, tiles, List.getElem_range, tileAt, span, entry]

theorem spans_eq_recorded {slot : Slot} {es : List (Option Slot × Traffic)}
    (typed : ∀ e ∈ es, e.1 = some slot → (e.2.isAccess = true ↔ e.2.type = slot.type)) :
    spans slot.type slot es =
      ((recorded es).filter fun a => a.1 = slot).map fun a => span a.2 := by
  induction es with
  | nil => rfl
  | cons e es ih =>
    have rest := ih fun e he => typed e (List.mem_cons_of_mem _ he)
    have here := typed e List.mem_cons_self
    obtain ⟨label, t⟩ := e
    have split : recorded ((label, t) :: es) = recorded [(label, t)] ++ recorded es :=
      List.filterMap_append (l := [(label, t)])
    rw [split, List.filter_append, List.map_append, ← rest, spans, spans, List.filter_cons]
    by_cases hs : label = some slot
    · have type : t.isAccess = true ↔ t.type = slot.type := here hs
      subst hs
      by_cases access : t.isAccess = true
      · simp [recorded, access, type.mp access]
      · have other : ¬t.type = slot.type := fun h => access (type.mpr h)
        simp [recorded, access, other]
    · have other : (recorded [(label, t)]).filter (fun a => a.1 = slot) = [] := by
        cases label with
        | none => simp [recorded]
        | some slot' =>
          have ne : slot' ≠ slot := fun h => hs (congrArg some h)
          unfold recorded
          by_cases access : t.isAccess = true
          · simp [access, ne]
          · simp [access]
      simp [other, hs]

theorem computes_emitted (w : List Call) (heap : Heap) :
    computes ((g.emitted w heap).map Prod.snd) = (w.map Call.computes).sum := by
  have entries (ops : List Op) (heap : Heap) :
      computes ((emit g ops heap).map Prod.snd) = ops.countP fun op => op.type = .compute := by
    induction ops generalizing heap with
    | nil => rfl
    | cons op ops ih =>
      have rest := ih (op.move g heap)
      rw [computes] at rest ⊢
      rw [emit, List.map_cons, List.countP_cons, rest, List.countP_cons, op.type_entry]
  have one (call : Call) : (call.ops g.numPE).countP (fun op => op.type = .compute) =
      call.computes := by
    cases call with
    | unicastRead k size slot => simp [Call.ops, Call.computes, Op.type]
    | unicastWrite k size slot => simp [Call.ops, Call.computes, Op.type]
    | broadcastRead size slot => simp [Call.ops, Call.computes, Op.type]
    | compute k =>
      have all := List.countP_eq_length (l := (List.range k).map Op.compute)
        (p := fun op => op.type = .compute)
      rw [Call.ops, all.mpr (by simp [Op.type])]
      simp [Call.computes]
  rw [emitted, entries, opsOf, List.countP_flatMap]
  exact congrArg List.sum (List.map_congr_left fun call _ => one call)

section

variable {kind : Kind} {w : List Call} (makes : g.Makes heap (g.generateTraffic kind) w)
  (proper : ∀ call ∈ w, call.Proper)

include makes proper

/-- The accesses to a tensor are its first tiles in order, as many as the generator
takes, when the tensors are distinct. -/
theorem spans_labelled (pos : 0 < g.numPE)
    (plain : ¬(kind = .convOutputReduction ∨ kind = .batchnormReduction)) (arity : g.Arity kind)
    (distinct : ∀ a b, 0 < g.pieces kind a → 0 < g.pieces kind b →
      g.pointer a = g.pointer b → a = b)
    (start : ∀ p, (heap p).address < 2 ^ 64) (slot : Slot) :
    spans slot.type slot (g.labelled kind heap) = g.tiles heap slot (g.pieces kind slot) := by
  have labels : g.labelled kind heap = g.emitted w heap := makes.labelled_eq
  have accesses := makes.accesses_eq
  rw [labels, spans_eq_recorded fun e he hs => type_of_mem_emitted proper he hs, ← accesses]
  have count : ((g.generateTraffic kind (State.new heap)).accesses.filter
      fun a => a.1 = slot).length = g.pieces kind slot := by
    rw [← tally_order, tally_generateTraffic heap kind arity]
  obtain none | used := Nat.eq_zero_or_pos (g.pieces kind slot)
  · rw [List.length_eq_zero_iff.mp (count.trans none), none]
    rfl
  · have same : g.through (g.pointer slot) (g.generateTraffic kind (State.new heap)) =
        (g.generateTraffic kind (State.new heap)).accesses.filter fun a => a.1 = slot := by
      refine List.filter_congr fun a ha => ?_
      rw [decide_eq_decide]
      exact ⟨distinct _ _ (pieces_pos_of_mem arity ha) used, fun e => by rw [e]⟩
    have walked : Walked g heap (g.pointer slot) (g.generateTraffic kind (State.new heap)) :=
      walked_generateTraffic pos plain (start _)
    have tiles := walked.spans_eq
    rw [same, count] at tiles
    exact tiles

theorem writes_generated :
    writes (g.generated kind heap) = spans .write .output (g.labelled kind heap) := by
  have labels : g.labelled kind heap = g.emitted w heap := makes.labelled_eq
  rw [← g.map_snd_labelled, labels, writes, spans, List.filter_map, List.map_map]
  refine congrArg (List.map _) (List.filter_congr fun e he => ?_)
  simp only [Function.comp, decide_eq_decide]
  exact ⟨fun write => ⟨slot_of_write proper he write, write⟩, fun h => h.2⟩

omit proper in
theorem computes_generated : computes (g.generated kind heap) = (w.map Call.computes).sum := by
  have labels : g.labelled kind heap = g.emitted w heap := makes.labelled_eq
  rw [← g.map_snd_labelled, labels, computes_emitted]

end

/-! ## The tensors of a node -/

end TrafficGenerator

/-- The inputs and the output are different tensors. -/
def Node.Distinct (node : Node) : Prop := (node.pointer .output :: node.inputs).Nodup

instance (node : Node) : Decidable node.Distinct := inferInstanceAs (Decidable (List.Nodup _))

theorem Node.Distinct.eq {node : Node} (h : node.Distinct) {a b : Slot} (ha : node.Has a)
    (hb : node.Has b) (same : node.pointer a = node.pointer b) : a = b := by
  obtain ⟨fresh, nodup⟩ := List.nodup_cons.mp h
  have input {j : Nat} (hj : j < node.inputs.length) : node.pointer (.input j) = node.inputs[j] :=
    List.getD_eq_getElem _ _ hj
  have apart {j : Nat} (hj : j < node.inputs.length) :
      node.pointer .output ≠ node.pointer (.input j) := by
    intro h
    rw [h, input hj] at fresh
    exact fresh (List.getElem_mem hj)
  cases a with
  | input i =>
    cases b with
    | input j =>
      rw [input ha, input hb] at same
      exact congrArg Slot.input ((nodup.getElem_inj_iff).mp same)
    | output => exact absurd same.symm (apart ha)
  | output =>
    cases b with
    | input j => exact absurd same (apart hb)
    | output => rfl

theorem mem_repeated {k : Nat} {w : List Call} {call : Call}
    (h : call ∈ TrafficGenerator.repeated k w) : call ∈ w := by
  obtain ⟨l, hl, h⟩ := List.mem_flatten.mp h
  rw [List.mem_replicate] at hl
  exact hl.2 ▸ h

namespace TrafficGenerator

theorem sum_map_repeated (f : Call → Nat) (k : Nat) (w : List Call) :
    ((repeated k w).map f).sum = k * (w.map f).sum := by
  rw [repeated, List.map_flatten, List.sum_flatten, List.map_map, List.map_replicate,
    List.sum_replicate, smul_eq_mul]
  rfl

/-! ## Element-wise operators -/

theorem proper_elementCalls (k : Nat) : ∀ call ∈ g.elementCalls heap k, call.Proper := by
  intro call h
  obtain h | h := List.mem_append.mp h
  · obtain ⟨j, -, rfl⟩ := List.mem_map.mp h
    rfl
  · obtain rfl | rfl : call = .compute k ∨ call = g.writeCall heap k .output := by simpa using h
    · trivial
    · rfl

theorem proper_elementWiseCalls : ∀ call ∈ g.elementWiseCalls heap, call.Proper := by
  intro call h
  obtain h | h := List.mem_append.mp h
  · exact proper_elementCalls _ call (mem_repeated h)
  · split at h
    · exact proper_elementCalls _ call h
    · cases h

theorem computes_elementWise (heap : Heap) :
    computes (g.generated .elementWise heap) = g.round * g.numPE + g.remainder := by
  have one (k : Nat) : ((g.elementCalls heap k).map Call.computes).sum = k := by
    simp [elementCalls, Call.computes, readCall, writeCall, Function.comp_def]
  have makes : g.Makes heap (g.generateTraffic .elementWise) _ := makes_elementWise
  rw [computes_generated makes, elementWiseCalls, List.map_append, List.sum_append,
    sum_map_repeated, one]
  split
  · rw [one]
  · simp_all

/-- Every subgraph is handled once: it has one `COMPUTE`, one tile of each input and
one tile of the output, in the order of the tiles. -/
structure EachOnce (g : TrafficGenerator) (heap : Heap) : Prop where
  computed : computes (g.generated .elementWise heap) = g.numSubgraph
  written : writes (g.generated .elementWise heap) = g.tiles heap .output g.numSubgraph
  read : ∀ j < g.inputs,
    spans .read (.input j) (g.labelled .elementWise heap) = g.tiles heap (.input j) g.numSubgraph

theorem round_eq_of_dvd (pos : 0 < g.numPE) (whole : g.numPE ∣ g.numSubgraph) :
    g.round * g.numPE = g.numSubgraph ∧ g.remainder = 0 := by
  obtain ⟨q, hq⟩ := whole
  have quotient : g.round = q := by
    exact (Nat.div_eq_iff pos).mpr (by
      rw [Nat.mul_comm q]
      omega)
  rw [quotient, remainder, hq, Nat.mul_mod_right]
  exact ⟨Nat.mul_comm _ _, rfl⟩

/-- The rounds already cover a part of a round: the remainder comes on top. -/
theorem round_add_remainder_iff (pos : 0 < g.numPE) :
    g.round * g.numPE + g.remainder = g.numSubgraph ↔ g.numPE ∣ g.numSubgraph := by
  constructor
  · intro h
    have cover : g.numSubgraph ≤ g.round * g.numPE := by
      have := Nat.lt_div_mul_add pos (a := g.numSubgraph + g.numPE - 1)
      rw [round]
      omega
    have none : g.remainder = 0 := by omega
    exact Nat.dvd_of_mod_eq_zero none
  · intro whole
    obtain ⟨rounds, none⟩ := round_eq_of_dvd pos whole
    omega

/-- An element-wise operator handles every subgraph once exactly when the PEs
divide the subgraphs. -/
theorem elementWise_once_iff (pos : 0 < g.numPE) (distinct : g.splitNode.Distinct)
    (start : ∀ p, (heap p).address < 2 ^ 64) :
    g.EachOnce heap ↔ g.numPE ∣ g.numSubgraph := by
  have makes : g.Makes heap (g.generateTraffic .elementWise) _ := makes_elementWise
  have has {slot : Slot} (h : 0 < g.pieces .elementWise slot) : g.splitNode.Has slot := by
    cases slot with
    | input j =>
      by_contra none
      exact absurd h (by simp [pieces, perTensor, show ¬j < g.inputs from none])
    | output => trivial
  have tiles := spans_labelled makes proper_elementWiseCalls pos (by decide) trivial
    (fun a b ha hb => distinct.eq (has ha) (has hb)) start
  have output : writes (g.generated .elementWise heap) =
      g.tiles heap .output (g.round * g.numPE + g.remainder) :=
    (writes_generated makes proper_elementWiseCalls).trans (tiles .output)
  constructor
  · intro once
    rw [← round_add_remainder_iff pos, ← computes_elementWise heap]
    exact once.computed
  · intro whole
    have all := (round_add_remainder_iff pos).mpr whole
    obtain ⟨rounds, none⟩ := round_eq_of_dvd pos whole
    refine ⟨by rw [computes_elementWise, all], by rw [output, all], fun j hj => ?_⟩
    have input := tiles (.input j)
    rw [pieces, perTensor, if_pos hj, none, extra, if_pos rfl, Nat.add_zero, rounds] at input
    exact input

end TrafficGenerator

/-- Tensors that start 64 bytes apart, with tiles of 4 bytes. -/
def apart64 : Heap := fun p => ⟨[], 4, 64 * min p 3, 64⟩

theorem address_apart64 (p : Nat) : (apart64 p).address < 2 ^ 64 := by
  simp only [apart64]
  omega

/-- An activation over `numSubgraph` tiles on two PEs. -/
def twoPEs (numSubgraph : Nat) : TrafficGenerator where
  numPE := 2
  numSubgraph := numSubgraph
  splitNode := ⟨.relu, [0], [1], [], []⟩
  strategy := ⟨[], .other⟩

theorem elementWise_once_four : (twoPEs 4).EachOnce apart64 :=
  (TrafficGenerator.elementWise_once_iff (by decide) (by decide) address_apart64).mpr (by decide)

/-- With three subgraphs there are two whole rounds and one more tile. -/
theorem elementWise_three_repeats :
    computes ((twoPEs 3).generated .elementWise apart64) = 5 ∧ ¬(twoPEs 3).EachOnce apart64 := by
  have five : computes ((twoPEs 3).generated .elementWise apart64) = 5 := by decide
  refine ⟨five, fun once => ?_⟩
  have three := once.computed
  cases three

/-! ## Output stationary convolution -/

namespace TrafficGenerator

theorem proper_biasCalls (k : Nat) : ∀ call ∈ g.biasCalls heap k, call.Proper := by
  intro call h
  unfold biasCalls at h
  split at h
  · cases List.mem_singleton.mp h
    rfl
  · cases h

theorem proper_outputCalls {bias first : List Call} (hbias : ∀ call ∈ bias, call.Proper)
    (hfirst : ∀ call ∈ first, call.Proper) :
    ∀ call ∈ g.outputCalls heap bias first, call.Proper := by
  have kernel (k : Nat) : ∀ call ∈ repeated g.knum
      (g.broadcastCall heap (.input 1) :: (bias ++ [.compute k])), call.Proper := by
    intro call h
    obtain rfl | h := List.mem_cons.mp (mem_repeated h)
    · rfl
    obtain h | h := List.mem_append.mp h
    · exact hbias call h
    · cases List.mem_singleton.mp h
      trivial
  intro call h
  obtain h | h := List.mem_append.mp h
  · obtain h | h := List.mem_append.mp (mem_repeated h)
    · obtain rfl | h := List.mem_cons.mp (mem_repeated h)
      · rfl
      · exact kernel _ call h
    · split at h
      · obtain rfl | h := List.mem_cons.mp h
        · rfl
        obtain h | h := List.mem_append.mp h
        · exact hfirst call h
        · exact kernel _ call h
      · cases h
  · cases List.mem_singleton.mp h
    rfl

theorem computes_biasCalls (k : Nat) : ((g.biasCalls heap k).map Call.computes).sum = 0 := by
  unfold biasCalls
  split <;> rfl

theorem computes_convOutputStationary (heap : Heap) :
    computes (g.generated .convOutputStationary heap) = g.c * g.hw * g.knum := by
  have makes : g.Makes heap (g.generateTraffic .convOutputStationary) _ :=
    makes_convOutputStationary
  have kernel (k : Nat) : ((repeated g.knum (g.broadcastCall heap (.input 1) ::
      (g.biasCalls heap g.numPE ++ [.compute k]))).map Call.computes).sum = g.knum * k := by
    rw [sum_map_repeated, List.map_cons, List.map_append, List.sum_cons, List.sum_append,
      computes_biasCalls]
    simp [broadcastCall, Call.computes]
  have rest : ((if g.inputRemainder ≠ 0 then
      g.readCall heap g.inputRemainder (.input 0) :: (g.biasCalls heap g.inputRemainder ++
        repeated g.knum (g.broadcastCall heap (.input 1) ::
          (g.biasCalls heap g.numPE ++ [.compute g.inputRemainder])))
      else []).map Call.computes).sum = g.knum * g.inputRemainder := by
    split
    · rw [List.map_cons, List.map_append, List.sum_cons, List.sum_append, computes_biasCalls,
        kernel]
      simp [readCall, Call.computes]
    · rename_i none
      rw [not_not.mp none]
      rfl
  have whole : g.inputRound * g.numPE + g.inputRemainder = g.hw := Nat.div_add_mod' _ _
  rw [computes_generated makes, outputCalls, List.map_append, List.sum_append, sum_map_repeated,
    List.map_append, List.sum_append, sum_map_repeated, List.map_cons, List.sum_cons, kernel, rest]
  simp only [readCall, writeCall, Call.computes, List.map_cons, List.map_nil, List.sum_cons,
    List.sum_nil, Nat.zero_add, Nat.add_zero]
  rw [← whole]
  ring

/-- Every output tile is computed from all channels and stored once, and every input
tile is read once. -/
structure OutputStored (g : TrafficGenerator) (heap : Heap) : Prop where
  computed : computes (g.generated .convOutputStationary heap) = g.c * g.hw * g.knum
  read : (spans .read (.input 0) (g.labelled .convOutputStationary heap)).Perm
    (g.tiles heap (.input 0) (g.c * g.hw))
  written : (writes (g.generated .convOutputStationary heap)).Perm
    (g.tiles heap .output (g.knum * g.hw))

/-- The slots of a convolution that are accessed are tensors of the node. -/
theorem has_of_perConvTensor {n input weight : Nat} {other : Nat → Nat} {output : Nat}
    (two : 2 ≤ g.inputs) (le : n ≤ g.inputs) {slot : Slot}
    (h : 0 < perConvTensor n input weight other output slot) : g.splitNode.Has slot := by
  rcases slot with (_ | _ | j) | _
  · exact lt_of_lt_of_le (by decide) two
  · exact lt_of_lt_of_le (by decide) two
  · by_contra none
    have beyond : ¬j + 2 < n := fun h => none (lt_of_lt_of_le h le)
    simp [perConvTensor, beyond] at h
  · trivial

/-- An output stationary convolution makes the right `COMPUTE`s and reads every input
tile once, but it stores one tile for every PE: all output tiles are stored exactly
when there are as many as PEs. -/
theorem convOutput_stored_iff (pos : 0 < g.numPE) (two : 2 ≤ g.inputs)
    (distinct : g.splitNode.Distinct) (start : ∀ p, (heap p).address < 2 ^ 64) :
    g.OutputStored heap ↔ g.numPE = g.knum * g.hw := by
  have makes : g.Makes heap (g.generateTraffic .convOutputStationary) _ :=
    makes_convOutputStationary
  have proper : ∀ call ∈ g.outputCalls heap (g.biasCalls heap g.numPE)
      (g.biasCalls heap g.inputRemainder), call.Proper :=
    proper_outputCalls (proper_biasCalls g.numPE) (proper_biasCalls g.inputRemainder)
  have has {slot : Slot} (h : 0 < g.pieces .convOutputStationary slot) : g.splitNode.Has slot := by
    rw [pieces] at h
    exact has_of_perConvTensor two (Nat.min_le_left _ _) h
  have tiles := spans_labelled makes proper pos (by decide) trivial
    (fun a b ha hb => distinct.eq (has ha) (has hb)) start
  have output : writes (g.generated .convOutputStationary heap) = g.tiles heap .output g.numPE :=
    (writes_generated makes proper).trans (tiles .output)
  constructor
  · intro stored
    have length := stored.written.length_eq
    rw [output, length_tiles, length_tiles] at length
    exact length
  · intro exactly
    refine ⟨computes_convOutputStationary heap, .of_eq (tiles (.input 0)), ?_⟩
    rw [output, ← exactly]

end TrafficGenerator

/-- A convolution without bias: one channel of two input tiles, two weight tiles. -/
def twoByTwo (numPE : Nat) : TrafficGenerator where
  numPE := numPE
  numSubgraph := 4
  splitNode := ⟨.conv, [0, 1], [2], [], []⟩
  strategy := ⟨[[1, 1, 2, 1], [2, 1, 1, 1]], .output⟩

theorem convOutput_stored_four : (twoByTwo 4).OutputStored apart64 :=
  (TrafficGenerator.convOutput_stored_iff (by decide) (by decide) (by decide)
    address_apart64).mpr (by decide)

/-- Two PEs compute four output tiles and store two. -/
theorem convOutput_two_lost :
    computes ((twoByTwo 2).generated .convOutputStationary apart64) = 4 ∧
      writes ((twoByTwo 2).generated .convOutputStationary apart64) = [(128, 4), (132, 4)] ∧
      ¬(twoByTwo 2).OutputStored apart64 := by
  have two : writes ((twoByTwo 2).generated .convOutputStationary apart64) =
      [(128, 4), (132, 4)] := by decide
  refine ⟨by decide, two, fun stored => ?_⟩
  have length := stored.written.length_eq
  revert length
  decide

end Generator

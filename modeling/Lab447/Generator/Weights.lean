import Lab447.Generator.Rounds

/-!
The weight stationary convolutions, tile by tile. The state of the walk after a
word of calls is summed up by how many weight tiles each PE has read, how many
input tiles were broadcast, and how many tiles each PE has computed.
-/

namespace Generator

open Walk

variable {g : TrafficGenerator} {heap : Heap} {p : Nat}

/-! ## Where the next access goes -/

/-- The accesses of an operation to the tensor `q`. -/
def Op.hits (g : TrafficGenerator) (q : Nat) : Op → Nat
  | read _ _ slot _ => if g.pointer slot = q then 1 else 0
  | write _ slot _ => if g.pointer slot = q then 1 else 0
  | sync _ _ => 0
  | compute _ => 0

/-- An access has the size of a tile. -/
def Op.Whole (g : TrafficGenerator) (heap : Heap) : Op → Prop
  | read _ size slot _ => size = g.tileSize heap slot
  | write size slot _ => size = g.tileSize heap slot
  | sync _ _ => True
  | compute _ => True

def hits (g : TrafficGenerator) (q : Nat) (ops : List Op) : Nat := (ops.map (Op.hits g q)).sum

/-- The tensors after the operations. -/
def after (g : TrafficGenerator) (ops : List Op) (heap : Heap) : Heap :=
  ops.foldl (fun heap op => op.move g heap) heap

theorem emit_append (u v : List Op) (heap : Heap) :
    emit g (u ++ v) heap = emit g u heap ++ emit g v (after g u heap) := by
  induction u generalizing heap with
  | nil => rfl
  | cons op u ih => exact congrArg (List.cons _) (ih (op.move g heap))

theorem after_append (u v : List Op) (heap : Heap) :
    after g (u ++ v) heap = after g v (after g u heap) :=
  List.foldl_append

@[simp] theorem hits_append (q : Nat) (u v : List Op) :
    hits g q (u ++ v) = hits g q u + hits g q v := by
  simp [hits]

variable {ops : List Op}

/-- The address of a tensor is that of the tile after those that were accessed. -/
theorem address_after (whole : ∀ op ∈ ops, op.Whole g heap) (start : ∀ p, (heap p).address < 2 ^ 64)
    (q : Nat) : (after g ops heap q).address =
      piece (2 ^ 64) (heap q).address (TrafficGenerator.tile heap q) (hits g q ops) := by
  induction ops using List.reverseRecOn with
  | nil =>
    have none : hits g q [] = 0 := rfl
    rw [none, piece, Nat.zero_mul, Nat.add_zero, Nat.mod_eq_of_lt (start q)]
    rfl
  | append_singleton ops op ih =>
    have before := ih fun op h => whole op (List.mem_append_left _ h)
    have here := whole op (List.mem_append_right _ (List.mem_singleton_self op))
    have access (type : RequestType) (response : TrafficType) (size : Int) (slot : Slot) (i : Nat)
        (tiled : size = g.tileSize heap slot) :
        ((g.access type response size slot i (State.new (after g ops heap))).heap q).address =
          piece (2 ^ 64) (heap q).address (TrafficGenerator.tile heap q)
            (hits g q ops + if g.pointer slot = q then 1 else 0) := by
      simp only [TrafficGenerator.access, Heap.modify, State.new]
      by_cases hq : g.pointer slot = q
      · subst hq
        rw [if_pos rfl, if_pos rfl, ← piece_succ, ← before, TrafficGenerator.uint64_add, tiled]
        rfl
      · rw [if_neg (Ne.symm hq), if_neg hq, before, Nat.add_zero]
    have last : after g (ops ++ [op]) heap = op.move g (after g ops heap) := by
      rw [after, List.foldl_append]
      rfl
    have one : hits g q [op] = op.hits g q := by simp [hits]
    rw [last, hits_append, one]
    cases op with
    | read response size slot i => exact access .read response size slot i here
    | write size slot i => exact access .write .unicast size slot i here
    | sync => exact before
    | compute => exact before

/-! ## What a PE has seen -/

/-- The weight tiles PE `p` has read. -/
def weightsOf (p : Nat) (es : List (Option Slot × Traffic)) : List (Nat × Nat) :=
  (es.filter fun e => e.1 = some (.input 1) ∧ e.2.type = .read ∧ e.2.src = (0, (p : Int))).map
    fun e => span e.2

/-- The input tiles that were broadcast. -/
def broadcastsOf (es : List (Option Slot × Traffic)) : List (Nat × Nat) :=
  (es.filter fun e => e.1 = some (.input 0) ∧ e.2.isBroadcast = true).map fun e => span e.2

/-- The broadcasts of input tiles PE `p` took part in, with a read or a `SYNC`. -/
def barriersOf (p : Nat) (es : List (Option Slot × Traffic)) : Nat :=
  es.countP fun e => e.1 = some (.input 0) ∧ e.2.isBarrier = true ∧ e.2.src = (0, (p : Int))

def computesOf (p : Nat) (es : List (Option Slot × Traffic)) : Nat :=
  es.countP fun e => e.2.type = .compute ∧ e.2.src = (0, (p : Int))

@[simp] theorem weightsOf_append (es es' : List (Option Slot × Traffic)) :
    weightsOf p (es ++ es') = weightsOf p es ++ weightsOf p es' := by
  simp [weightsOf]

@[simp] theorem broadcastsOf_append (es es' : List (Option Slot × Traffic)) :
    broadcastsOf (es ++ es') = broadcastsOf es ++ broadcastsOf es' := by
  simp [broadcastsOf]

@[simp] theorem barriersOf_append (es es' : List (Option Slot × Traffic)) :
    barriersOf p (es ++ es') = barriersOf p es + barriersOf p es' :=
  List.countP_append

@[simp] theorem computesOf_append (es es' : List (Option Slot × Traffic)) :
    computesOf p (es ++ es') = computesOf p es + computesOf p es' :=
  List.countP_append

section

variable {ops : List Op}

theorem weightsOf_other (other : ∀ op ∈ ops, op.slot ≠ some (.input 1)) :
    weightsOf p (emit g ops heap) = [] := by
  refine List.map_eq_nil_iff.mpr (List.filter_eq_nil_iff.mpr fun e he => ?_)
  obtain ⟨op, hop, slot, -⟩ := exists_op_of_mem_emit he
  simp [slot, other op hop]

theorem broadcastsOf_other (other : ∀ op ∈ ops, op.slot ≠ some (.input 0)) :
    broadcastsOf (emit g ops heap) = [] := by
  refine List.map_eq_nil_iff.mpr (List.filter_eq_nil_iff.mpr fun e he => ?_)
  obtain ⟨op, hop, slot, -⟩ := exists_op_of_mem_emit he
  simp [slot, other op hop]

theorem barriersOf_other (other : ∀ op ∈ ops, op.slot ≠ some (.input 0)) :
    barriersOf p (emit g ops heap) = 0 := by
  refine List.countP_eq_zero.mpr fun e he => ?_
  obtain ⟨op, hop, slot, -⟩ := exists_op_of_mem_emit he
  simp [slot, other op hop]

theorem computesOf_other (other : ∀ op ∈ ops, op.type ≠ .compute) :
    computesOf p (emit g ops heap) = 0 := by
  refine List.countP_eq_zero.mpr fun e he => ?_
  obtain ⟨op, hop, -, type⟩ := exists_op_of_mem_emit he
  simp [type, other op hop]

end

/-! ## Served tiles -/

/-- Before its next `COMPUTE` a PE has read the weight tile of that `COMPUTE`, which
serves `hw` of them, and has taken part in the broadcast of its input tile. The
number of that tile is `input`, applied to the number of the `COMPUTE`. -/
def Ready (g : TrafficGenerator) (heap : Heap) (input : Nat → Nat) (p : Nat)
    (es : List (Option Slot × Traffic)) : Prop :=
  (weightsOf p es).getLast? =
      some (g.tileAt heap (.input 1) (computesOf p es / g.hw * g.numPE + p)) ∧
    barriersOf p es = computesOf p es + 1 ∧
    (broadcastsOf es)[computesOf p es]? = some (g.tileAt heap (.input 0) (input (computesOf p es)))

/-- Every `COMPUTE` of the list comes when its PE is ready for it. -/
def Served (g : TrafficGenerator) (heap : Heap) (input : Nat → Nat)
    (es : List (Option Slot × Traffic)) : Prop :=
  ∀ p < g.numPE, ∀ before e later, es = before ++ e :: later → e.2.type = .compute →
    e.2.src = (0, (p : Int)) → Ready g heap input p before

variable {es : List (Option Slot × Traffic)} {input : Nat → Nat}

theorem Served.append {es' : List (Option Slot × Traffic)} (h : Served g heap input es)
    (next : ∀ p < g.numPE, ∀ before e later, es' = before ++ e :: later → e.2.type = .compute →
      e.2.src = (0, (p : Int)) → Ready g heap input p (es ++ before)) :
    Served g heap input (es ++ es') := by
  intro p hp before e later split type src
  obtain ⟨rest, rfl, hes⟩ | ⟨rest, rfl, hes⟩ := List.append_eq_append_iff.mp split
  · exact next p hp rest e later hes type src
  · cases rest with
    | nil =>
      have ready := next p hp [] e later hes.symm type src
      simpa using ready
    | cons e' rest =>
      cases hes
      exact h p hp before e rest rfl type src

theorem Served.append_other {heap' : Heap} (h : Served g heap input es)
    (other : ∀ op ∈ ops, op.type ≠ .compute) : Served g heap input (es ++ emit g ops heap') := by
  refine h.append fun p _ before e later split type _ => ?_
  have mem : e ∈ emit g ops heap' := by rw [split]; simp
  obtain ⟨op, hop, -, eq⟩ := exists_op_of_mem_emit mem
  exact absurd (eq.symm.trans type) (other op hop)

/-! ## Progress -/

/-- After these operations each PE has read `w` weight tiles and made `m`
`COMPUTE`s, and `b` input tiles have been broadcast, all in order. -/
structure Progress (g : TrafficGenerator) (heap : Heap) (w b m : Nat) (ops : List Op) : Prop where
  whole : ∀ op ∈ ops, op.Whole g heap
  weightHits : hits g (g.pointer (.input 1)) ops = w * g.numPE
  inputHits : hits g (g.pointer (.input 0)) ops = b
  weights : ∀ p < g.numPE, weightsOf p (emit g ops heap) =
    (List.range w).map fun r => g.tileAt heap (.input 1) (r * g.numPE + p)
  broadcasts : broadcastsOf (emit g ops heap) = g.tiles heap (.input 0) b
  barriers : ∀ p < g.numPE, barriersOf p (emit g ops heap) = b
  computed : ∀ p < g.numPE, computesOf p (emit g ops heap) = m
  served : Served g heap id (emit g ops heap)

namespace Progress

variable {w b m : Nat} {ops : List Op}

theorem nil : Progress g heap 0 0 0 [] where
  whole := by simp
  weightHits := by simp [hits]
  inputHits := rfl
  weights := by simp [emit, weightsOf]
  broadcasts := rfl
  barriers := by simp [emit, barriersOf]
  computed := by simp [emit, computesOf]
  served := by simp [Served, emit]

theorem append (h : Progress g heap w b m ops) {dw db dm : Nat} {v : List Op}
    (whole : ∀ op ∈ v, op.Whole g heap)
    (weightHits : hits g (g.pointer (.input 1)) v = dw * g.numPE)
    (inputHits : hits g (g.pointer (.input 0)) v = db)
    (weights : ∀ p < g.numPE, weightsOf p (emit g v (after g ops heap)) =
      (List.range dw).map fun r => g.tileAt heap (.input 1) ((w + r) * g.numPE + p))
    (broadcasts : broadcastsOf (emit g v (after g ops heap)) =
      (List.range db).map fun i => g.tileAt heap (.input 0) (b + i))
    (barriers : ∀ p < g.numPE, barriersOf p (emit g v (after g ops heap)) = db)
    (computed : ∀ p < g.numPE, computesOf p (emit g v (after g ops heap)) = dm)
    (served : Served g heap id (emit g ops heap ++ emit g v (after g ops heap))) :
    Progress g heap (w + dw) (b + db) (m + dm) (ops ++ v) where
  whole := fun op hop => (List.mem_append.mp hop).elim (h.whole op) (whole op)
  weightHits := by rw [hits_append, h.weightHits, weightHits, Nat.add_mul]
  inputHits := by rw [hits_append, h.inputHits, inputHits]
  weights := by
    intro p hp
    rw [emit_append, weightsOf_append, h.weights p hp, weights p hp, List.range_add,
      List.map_append, List.map_map]
    rfl
  broadcasts := by
    rw [emit_append, broadcastsOf_append, h.broadcasts, broadcasts, TrafficGenerator.tiles,
      TrafficGenerator.tiles, List.range_add, List.map_append, List.map_map]
    rfl
  barriers := fun p hp => by rw [emit_append, barriersOf_append, h.barriers p hp, barriers p hp]
  computed := fun p hp => by rw [emit_append, computesOf_append, h.computed p hp, computed p hp]
  served := by rwa [emit_append]

/-- Operations on tensors other than the input and the weight. -/
theorem other (h : Progress g heap w b m ops) {v : List Op} (whole : ∀ op ∈ v, op.Whole g heap)
    (slots : ∀ op ∈ v, op.slot ≠ some (.input 0) ∧ op.slot ≠ some (.input 1))
    (pointers : hits g (g.pointer (.input 0)) v = 0 ∧ hits g (g.pointer (.input 1)) v = 0)
    (types : ∀ op ∈ v, op.type ≠ .compute) : Progress g heap w b m (ops ++ v) := by
  have grown : Progress g heap (w + 0) (b + 0) (m + 0) (ops ++ v) :=
    h.append whole (by rw [pointers.2, Nat.zero_mul]) pointers.1
      (fun _ _ => weightsOf_other fun op hop => (slots op hop).2)
      (broadcastsOf_other fun op hop => (slots op hop).1)
      (fun _ _ => barriersOf_other fun op hop => (slots op hop).1)
      (fun _ _ => computesOf_other types) (h.served.append_other types)
  exact grown

end Progress

/-! ## The calls -/

theorem hits_call (q numPE : Nat) (call : Call) : hits g q (call.ops numPE) =
    match call with
    | .unicastRead k _ slot => if g.pointer slot = q then k else 0
    | .unicastWrite k _ slot => if g.pointer slot = q then k else 0
    | .broadcastRead _ slot => if g.pointer slot = q then 1 else 0
    | .compute _ => 0 := by
  cases call with
  | unicastRead k size slot => simp [hits, Call.ops, Op.hits, Function.comp_def]
  | unicastWrite k size slot => simp [hits, Call.ops, Op.hits, Function.comp_def]
  | broadcastRead size slot => simp [hits, Call.ops, Op.hits, Function.comp_def]
  | compute k => simp [hits, Call.ops, Op.hits, Function.comp_def]

/-- The accesses of a call have the size of a tile. -/
def Call.Whole (g : TrafficGenerator) (heap : Heap) : Call → Prop
  | unicastRead _ size slot => size = g.tileSize heap slot
  | unicastWrite _ size slot => size = g.tileSize heap slot
  | broadcastRead size slot => size = g.tileSize heap slot
  | compute _ => True

theorem Call.Whole.of_mem_ops {call : Call} (h : call.Whole g heap) {numPE : Nat} {op : Op}
    (hop : op ∈ call.ops numPE) : op.Whole g heap := by
  cases call with
  | broadcastRead size slot =>
    obtain rfl | hop := List.mem_cons.mp hop
    · exact h
    · obtain ⟨i, -, rfl⟩ := List.mem_map.mp hop
      trivial
  | _ =>
    obtain ⟨i, -, rfl⟩ := List.mem_map.mp hop
    exact h

theorem weightsOf_reads (whole : ∀ op ∈ ops, op.Whole g heap)
    (start : ∀ p, (heap p).address < 2 ^ 64) (k numPE : Nat) :
    weightsOf p (emit g ((g.readCall heap k (.input 1)).ops numPE) (after g ops heap)) =
      if p < k then [g.tileAt heap (.input 1) (hits g (g.pointer (.input 1)) ops + p)] else [] := by
  induction k with
  | zero => rfl
  | succ k ih =>
    set reads := (g.readCall heap k (.input 1)).ops numPE with hreads
    have split : (g.readCall heap (k + 1) (.input 1)).ops numPE =
        reads ++ [.read .unicast (g.tileSize heap (.input 1)) (.input 1) k] := by
      rw [hreads]
      simp [TrafficGenerator.readCall, Call.ops, List.range_succ]
    have all : ∀ op ∈ ops ++ reads, op.Whole g heap := by
      intro op hop
      obtain hop | hop := List.mem_append.mp hop
      · exact whole op hop
      · have tiled : (g.readCall heap k (.input 1)).Whole g heap := rfl
        exact tiled.of_mem_ops hop
    have address := address_after all start (g.pointer (.input 1))
    rw [hits_append, hits_call] at address
    simp only [TrafficGenerator.readCall, if_true] at address
    rw [split, emit_append, weightsOf_append, ih, ← after_append]
    have last : weightsOf p (emit g [.read .unicast (g.tileSize heap (.input 1)) (.input 1) k]
        (after g (ops ++ reads) heap)) =
        if k = p then [g.tileAt heap (.input 1) (hits g (g.pointer (.input 1)) ops + k)] else [] := by
      have span_eq : span (Op.entry g (after g (ops ++ reads) heap)
          (.read .unicast (g.tileSize heap (.input 1)) (.input 1) k)) =
          g.tileAt heap (.input 1) (hits g (g.pointer (.input 1)) ops + k) := by
        rw [TrafficGenerator.tileAt, ← address]
        rfl
      by_cases hk : k = p
      · rw [if_pos hk, ← span_eq, hk]
        simp [weightsOf, emit, Op.slot, Op.entry, TrafficGenerator.entry]
      · simp [weightsOf, emit, Op.entry, TrafficGenerator.entry, hk]
    rw [last]
    by_cases hk : k = p
    · subst hk
      simp
    · rw [if_neg hk, List.append_nil]
      exact if_congr (by omega) rfl rfl

theorem emit_marks (f : Nat → Op) (slot : Option Slot) (type : RequestType) (xs : List Nat)
    (heap : Heap) (slots : ∀ i, (f i).slot = slot) (entries : ∀ i heap, (f i).entry g heap = mark type i)
    (moves : ∀ i heap, (f i).move g heap = heap) :
    emit g (xs.map f) heap = xs.map fun i => (slot, mark type i) := by
  induction xs with
  | nil => rfl
  | cons x xs ih => rw [List.map_cons, emit, moves, ih, slots, entries, List.map_cons]

theorem emit_compute (k numPE : Nat) (heap : Heap) :
    emit g ((Call.compute k).ops numPE) heap =
      (List.range k).map fun i => (none, mark .compute i) :=
  emit_marks _ _ _ _ _ (fun _ => rfl) (fun _ _ => rfl) fun _ _ => rfl

theorem emit_broadcast (size : Int) (slot : Slot) (numPE : Nat) (heap : Heap) :
    emit g ((Call.broadcastRead size slot).ops numPE) heap =
      (some slot, g.entry .read .broadcast size slot 0 (State.new heap)) ::
        (List.range' 1 (numPE - 1)).map fun i => (some slot, mark .sync i) :=
  congrArg (List.cons _)
    (emit_marks _ _ _ _ _ (fun _ => rfl) (fun _ _ => rfl) fun _ _ => rfl)

theorem countP_eq_range' (a n : Nat) (p : Nat) :
    (List.range' a n).countP (fun i => i = p) = if a ≤ p ∧ p < a + n then 1 else 0 := by
  rw [← List.count_range_1']
  exact List.countP_congr fun i _ => by simp

theorem computesOf_compute {k : Nat} (h : p < k) (numPE : Nat) (heap : Heap) :
    computesOf p (emit g ((Call.compute k).ops numPE) heap) = 1 := by
  have own : computesOf p (emit g ((Call.compute k).ops numPE) heap) =
      (List.range' 0 k).countP fun i => i = p := by
    rw [emit_compute, computesOf, List.countP_map, List.range_eq_range']
    refine List.countP_congr fun i _ => ?_
    simp [mark]
  rw [own, countP_eq_range', if_pos (by omega)]

theorem barriersOf_broadcast (size : Int) {numPE : Nat} (h : p < numPE) (heap : Heap) :
    barriersOf p (emit g ((Call.broadcastRead size (.input 0)).ops numPE) heap) = 1 := by
  have syncs : barriersOf p ((List.range' 1 (numPE - 1)).map
      fun i => (some (.input 0), mark .sync i)) = if p = 0 then 0 else 1 := by
    have own : barriersOf p ((List.range' 1 (numPE - 1)).map
        fun i => (some (.input 0), mark .sync i)) =
          (List.range' 1 (numPE - 1)).countP fun i => i = p := by
      rw [barriersOf, List.countP_map]
      refine List.countP_congr fun i _ => ?_
      simp [mark, Traffic.isBarrier]
    rw [own, countP_eq_range']
    split <;> split <;> omega
  rw [emit_broadcast, ← List.singleton_append, barriersOf_append, syncs]
  by_cases hp : p = 0
  · simp [barriersOf, TrafficGenerator.entry, Traffic.isBarrier, Traffic.isBroadcast, hp]
  · have other : ¬(0 : Int) = p := by omega
    simp [barriersOf, TrafficGenerator.entry, hp, other]

theorem broadcastsOf_broadcast (whole : ∀ op ∈ ops, op.Whole g heap)
    (start : ∀ p, (heap p).address < 2 ^ 64) (numPE : Nat) :
    broadcastsOf (emit g ((g.broadcastCall heap (.input 0)).ops numPE) (after g ops heap)) =
      [g.tileAt heap (.input 0) (hits g (g.pointer (.input 0)) ops)] := by
  have syncs : broadcastsOf ((List.range' 1 (numPE - 1)).map
      fun i => (some (.input 0), mark .sync i)) = [] := by
    refine List.map_eq_nil_iff.mpr (List.filter_eq_nil_iff.mpr fun e he => ?_)
    obtain ⟨i, -, rfl⟩ := List.mem_map.mp he
    simp [mark, Traffic.isBroadcast]
  have address := address_after whole start (g.pointer (.input 0))
  rw [TrafficGenerator.broadcastCall, emit_broadcast, ← List.singleton_append, broadcastsOf_append,
    syncs, TrafficGenerator.tileAt, ← address]
  simp [broadcastsOf, TrafficGenerator.entry, Traffic.isBroadcast, span, State.new,
    TrafficGenerator.tile, TrafficGenerator.tileSize]

namespace Progress

variable {w b m : Nat} {u : List Call}

/-- The input and the weight are different tensors, and all addresses are of 64 bits. -/
structure Separate (g : TrafficGenerator) (heap : Heap) : Prop where
  start : ∀ p, (heap p).address < 2 ^ 64
  pointers : g.pointer (.input 0) ≠ g.pointer (.input 1)

variable (sep : Separate g heap) (h : Progress g heap w b m (opsOf g.numPE u))

theorem opsOf_snoc (numPE : Nat) (u : List Call) (call : Call) :
    opsOf numPE (u ++ [call]) = opsOf numPE u ++ call.ops numPE := by
  simp [opsOf]

include sep h

theorem readWeights : Progress g heap (w + 1) b m
    (opsOf g.numPE (u ++ [g.readCall heap g.numPE (.input 1)])) := by
  set call := g.readCall heap g.numPE (.input 1) with hcall
  have slots (op) (hop : op ∈ call.ops g.numPE) : op.slot ≠ some (.input 0) := by
    rw [Call.slot_of_mem_ops hop]
    exact fun h => by cases h
  have types (op) (hop : op ∈ call.ops g.numPE) : op.type ≠ .compute := by
    obtain ⟨i, -, rfl⟩ := List.mem_map.mp hop
    exact fun h => by cases h
  have whole : call.Whole g heap := rfl
  have weight : hits g (g.pointer (.input 1)) (call.ops g.numPE) = 1 * g.numPE := by
    rw [hits_call, Nat.one_mul]
    exact if_pos rfl
  have input : hits g (g.pointer (.input 0)) (call.ops g.numPE) = 0 := by
    rw [hits_call]
    exact if_neg sep.pointers.symm
  rw [opsOf_snoc]
  have grown : Progress g heap (w + 1) (b + 0) (m + 0) (opsOf g.numPE u ++ call.ops g.numPE) := by
    refine h.append (fun op hop => whole.of_mem_ops hop) weight input ?_
      (broadcastsOf_other slots) (fun p _ => barriersOf_other slots)
      (fun p _ => computesOf_other types) (h.served.append_other types)
    intro p hp
    rw [hcall, weightsOf_reads h.whole sep.start, if_pos hp, h.weightHits]
    rfl
  exact grown

theorem broadcastInput : Progress g heap w (b + 1) m
    (opsOf g.numPE (u ++ [g.broadcastCall heap (.input 0)])) := by
  set call := g.broadcastCall heap (.input 0) with hcall
  have slots (op) (hop : op ∈ call.ops g.numPE) : op.slot ≠ some (.input 1) := by
    rw [Call.slot_of_mem_ops hop]
    exact fun h => by cases h
  have types (op) (hop : op ∈ call.ops g.numPE) : op.type ≠ .compute := by
    obtain rfl | hop := List.mem_cons.mp hop
    · exact fun h => by cases h
    · obtain ⟨i, -, rfl⟩ := List.mem_map.mp hop
      exact fun h => by cases h
  have whole : call.Whole g heap := rfl
  have weight : hits g (g.pointer (.input 1)) (call.ops g.numPE) = 0 * g.numPE := by
    rw [hits_call, Nat.zero_mul]
    exact if_neg sep.pointers
  have input : hits g (g.pointer (.input 0)) (call.ops g.numPE) = 1 := by
    rw [hits_call]
    exact if_pos rfl
  rw [opsOf_snoc]
  have grown : Progress g heap (w + 0) (b + 1) (m + 0) (opsOf g.numPE u ++ call.ops g.numPE) := by
    refine h.append (fun op hop => whole.of_mem_ops hop) weight input
      (fun p _ => weightsOf_other slots) ?_ (fun p hp => barriersOf_broadcast _ hp _)
      (fun p _ => computesOf_other types) (h.served.append_other types)
    rw [hcall, broadcastsOf_broadcast h.whole sep.start, h.inputHits]
    rfl
  exact grown

omit sep

/-- A `COMPUTE` on every PE, once the weight tile of it and its input tile are there. -/
theorem compute (weight : w = m / g.hw + 1) (input : b = m + 1) :
    Progress g heap w b (m + 1) (opsOf g.numPE (u ++ [.compute g.numPE])) := by
  have slots (op) (hop : op ∈ (Call.compute g.numPE).ops g.numPE) (slot : Slot) :
      op.slot ≠ some slot := by
    rw [Call.slot_of_mem_ops hop]
    exact fun h => by cases h
  have whole : (Call.compute g.numPE).Whole g heap := trivial
  have none (q : Nat) : hits g q ((Call.compute g.numPE).ops g.numPE) = 0 := hits_call q _ _
  set es := emit g ((Call.compute g.numPE).ops g.numPE) (after g (opsOf g.numPE u) heap) with hes
  have noWeights (p) : weightsOf p es = [] := weightsOf_other fun op hop => slots op hop _
  have noBroadcasts : broadcastsOf es = [] := broadcastsOf_other fun op hop => slots op hop _
  have noBarriers (p) : barriersOf p es = 0 := barriersOf_other fun op hop => slots op hop _
  have one (p) (hp : p < g.numPE) : computesOf p es = 1 := computesOf_compute hp _ _
  rw [opsOf_snoc]
  have grown : Progress g heap (w + 0) (b + 0) (m + 1)
      (opsOf g.numPE u ++ (Call.compute g.numPE).ops g.numPE) := by
    refine h.append (fun op hop => whole.of_mem_ops hop) (by rw [none, Nat.zero_mul]) (none _)
      (fun p _ => noWeights p) noBroadcasts (fun p _ => noBarriers p) one (h.served.append ?_)
    intro p hp before e later split type src
    -- what comes before the `COMPUTE` of `p` in this call are those of other PEs
    have own : computesOf p before = 0 := by
      have total := one p hp
      have here : computesOf p (e :: later) = computesOf p later + 1 := by
        rw [computesOf, List.countP_cons_of_pos (by simp [type, src])]
        rfl
      rw [hes, split, computesOf_append, here] at total
      omega
    have weights : weightsOf p before = [] := by
      have all := noWeights p
      rw [hes, split, weightsOf_append] at all
      exact (List.append_eq_nil_iff.mp all).1
    have broadcasts : broadcastsOf before = [] := by
      rw [hes, split, broadcastsOf_append] at noBroadcasts
      exact (List.append_eq_nil_iff.mp noBroadcasts).1
    have barriers : barriersOf p before = 0 := by
      have all := noBarriers p
      rw [hes, split, barriersOf_append] at all
      omega
    rw [Ready, weightsOf_append, broadcastsOf_append, barriersOf_append, computesOf_append, own,
      weights, broadcasts, barriers, h.weights p hp, h.broadcasts, h.barriers p hp,
      h.computed p hp]
    simp only [Nat.add_zero, List.append_nil, weight, input]
    refine ⟨?_, trivial, ?_⟩
    · rw [List.range_succ, List.map_append]
      simp
    · simp [TrafficGenerator.tiles]
  exact grown

/-- A call for a tensor other than the input and the weight. -/
theorem otherCall {call : Call} {slot : Slot} (whole : call.Whole g heap)
    (hs : call.slot = some slot) (input : g.pointer slot ≠ g.pointer (.input 0))
    (weight : g.pointer slot ≠ g.pointer (.input 1)) :
    Progress g heap w b m (opsOf g.numPE (u ++ [call])) := by
  rw [opsOf_snoc]
  refine h.other (fun op hop => whole.of_mem_ops hop) (fun op hop => ?_) ?_ fun op hop => ?_
  · rw [Call.slot_of_mem_ops hop, hs]
    constructor
    · exact fun h => input (congrArg g.pointer (Option.some.inj h))
    · exact fun h => weight (congrArg g.pointer (Option.some.inj h))
  · cases call with
    | compute k => cases hs
    | _ =>
      cases hs
      rw [hits_call, hits_call]
      exact ⟨if_neg input, if_neg weight⟩
  · have slotted := (Call.slot_of_mem_ops hop).trans hs
    cases op with
    | compute i => cases slotted
    | _ => exact fun h => by cases h

end Progress

/-! ## The loops -/

theorem repeated_induction {P : Nat → List Call → Prop} {v : List Call} {k : Nat}
    (step : ∀ i < k, ∀ u, P i u → P (i + 1) (u ++ v)) {u : List Call} (h : P 0 u) :
    P k (u ++ TrafficGenerator.repeated k v) := by
  induction k with
  | zero => simpa [TrafficGenerator.repeated] using h
  | succ k ih =>
    have before := ih fun i hi => step i (Nat.lt_succ_of_lt hi)
    have last := step k (Nat.lt_succ_self k) _ before
    rwa [List.append_assoc, TrafficGenerator.repeated, ← List.flatten_concat,
      ← List.replicate_succ'] at last

/-- Each PE has read `w` weight tiles and has used each of them for all input tiles
that belong to it. -/
def AtTile (g : TrafficGenerator) (heap : Heap) (w : Nat) (u : List Call) : Prop :=
  Progress g heap w (w * g.hw) (w * g.hw) (opsOf g.numPE u)

/-- A call that only reads or writes a tensor other than the input and the weight. -/
def Call.Aside (g : TrafficGenerator) (heap : Heap) (call : Call) : Prop :=
  call.Whole g heap ∧ ∃ slot, call.slot = some slot ∧
    g.pointer slot ≠ g.pointer (.input 0) ∧ g.pointer slot ≠ g.pointer (.input 1)

variable {first : List Call}

section

variable (sep : Progress.Separate g heap) (output : (g.writeCall heap g.numPE .output).Aside g heap)

include sep output

theorem atTile_weightTile (w : Nat) (u : List Call) (h : AtTile g heap w u) :
    AtTile g heap (w + 1) (u ++ g.weightTileCalls heap) := by
  obtain ⟨whole, slot, hs, input, weight⟩ := output
  have loop := repeated_induction (v := [g.broadcastCall heap (.input 0), .compute g.numPE,
      g.writeCall heap g.numPE .output]) (k := g.hw)
    (P := fun i u => Progress g heap (w + 1) (w * g.hw + i) (w * g.hw + i) (opsOf g.numPE u))
    ?_ (h.readWeights sep)
  · rw [AtTile, Nat.succ_mul, TrafficGenerator.weightTileCalls, ← List.singleton_append,
      ← List.append_assoc]
    exact loop
  · intro i hi u h
    have tile : (w * g.hw + i) / g.hw = w := by
      rw [Nat.mul_comm, Nat.mul_add_div (by omega), Nat.div_eq_of_lt hi, Nat.add_zero]
    have computed := (h.broadcastInput sep).compute (by rw [tile]) rfl
    have written := computed.otherCall whole hs input weight
    rw [List.append_assoc, List.append_assoc] at written
    exact written

theorem atTile_weightCalls (aside : ∀ call ∈ first, call.Aside g heap) :
    AtTile g heap (g.weightRound * g.c) (g.weightCalls heap first) := by
  have before (w : Nat) (u : List Call) (h : AtTile g heap w u) : AtTile g heap w (u ++ first) := by
    induction first generalizing u with
    | nil => simpa using h
    | cons call first ih =>
      obtain ⟨whole, slot, hs, input, weight⟩ := aside call List.mem_cons_self
      have one : AtTile g heap w (u ++ [call]) := h.otherCall whole hs input weight
      have rest := ih (fun c hc => aside c (List.mem_cons_of_mem _ hc)) _ one
      rwa [List.append_assoc] at rest
  have rounds := repeated_induction (u := []) (k := g.weightRound)
    (v := first ++ TrafficGenerator.repeated g.c (g.weightTileCalls heap))
    (P := fun j u => AtTile g heap (j * g.c) u) ?_ (by
      rw [AtTile, Nat.zero_mul, Nat.zero_mul]
      exact Progress.nil)
  · exact rounds
  · intro j _ u h
    have tiles := repeated_induction (k := g.c) (v := g.weightTileCalls heap)
      (P := fun i u => AtTile g heap (j * g.c + i) u)
      (fun i _ u h => atTile_weightTile sep output _ u h) (before _ u h)
    rwa [List.append_assoc, ← Nat.succ_mul] at tiles

end

/-! ## Every tile -/

theorem exists_split_of_lt_countP {α : Type} {f : α → Bool} {l : List α} {m : Nat}
    (h : m < l.countP f) : ∃ before e later, l = before ++ e :: later ∧ f e = true ∧
      before.countP f = m := by
  induction l generalizing m with
  | nil => cases h
  | cons x l ih =>
    by_cases hx : f x = true
    · rw [List.countP_cons_of_pos hx] at h
      cases m with
      | zero => exact ⟨[], x, l, rfl, hx, rfl⟩
      | succ m =>
        obtain ⟨before, e, later, rfl, he, count⟩ := ih (Nat.lt_of_succ_lt_succ h)
        refine ⟨x :: before, e, later, rfl, he, ?_⟩
        rw [List.countP_cons_of_pos hx, count]
    · rw [List.countP_cons_of_neg hx] at h
      obtain ⟨before, e, later, rfl, he, count⟩ := ih h
      refine ⟨x :: before, e, later, rfl, he, ?_⟩
      rw [List.countP_cons_of_neg hx, count]

/-- Numbering the input tiles in another way is right exactly when it gives the same
tiles for all `COMPUTE`s of a PE. -/
theorem served_iff {m : Nat} (pos : 0 < g.numPE) (served : Served g heap id es)
    (computed : ∀ p < g.numPE, computesOf p es = m) : Served g heap input es ↔
      ∀ k < m, g.tileAt heap (.input 0) (input k) = g.tileAt heap (.input 0) k := by
  constructor
  · intro other k hk
    rw [← computed 0 pos] at hk
    obtain ⟨before, e, later, split, he, count⟩ := exists_split_of_lt_countP hk
    obtain ⟨type, src⟩ := of_decide_eq_true he
    have own := (served 0 pos before e later split type src).2.2
    have this := (other 0 pos before e later split type src).2.2
    rw [own, computesOf, count] at this
    exact (Option.some.inj this).symm
  · intro same p hp before e later split type src
    obtain ⟨weight, barriers, broadcast⟩ := served p hp before e later split type src
    refine ⟨weight, barriers, ?_⟩
    have total := computed p hp
    rw [split, computesOf_append] at total
    have here : 0 < computesOf p (e :: later) :=
      List.countP_pos_iff.mpr ⟨e, List.mem_cons_self, by simp [type, src]⟩
    rw [broadcast, same _ (by omega)]
    rfl

namespace TrafficGenerator

/-- Every pair of a weight tile and an input tile of its channel is computed: there
are as many `COMPUTE`s, every weight tile is read once, and every `COMPUTE` has its
tiles. -/
structure Processed (g : TrafficGenerator) (kind : Kind) (heap : Heap) (input : Nat → Nat) :
    Prop where
  computed : computes (g.generated kind heap) = g.knum * g.c * g.hw
  weights : (spans .read (.input 1) (g.labelled kind heap)).Perm
    (g.tiles heap (.input 1) (g.knum * g.c))
  served : Served g heap input (g.labelled kind heap)

theorem whole_rounds_iff :
    g.weightRound * g.c * g.numPE = g.knum * g.c ↔ g.c = 0 ∨ g.numPE ∣ g.knum := by
  rw [Nat.mul_right_comm, mul_eq_mul_right_iff, or_comm]
  refine or_congr_right ⟨fun h => ?_, fun h => Nat.div_mul_cancel h⟩
  exact Dvd.intro_left _ h

/-- The walk over the input starts again at its first tile only if there is one round
or the tiles of a round fill the address space. -/
theorem tileAt_mod_iff (pos : 0 < g.numPE) (whole : g.c = 0 ∨ g.numPE ∣ g.knum) :
    (∀ k < g.weightRound * g.c * g.hw,
      g.tileAt heap (.input 0) (k % (g.c * g.hw)) = g.tileAt heap (.input 0) k) ↔
      g.knum ≤ g.numPE ∨ 2 ^ 64 ∣ g.c * g.hw * tile heap (g.pointer (.input 0)) := by
  set base := (heap (g.pointer (.input 0))).address with hbase
  set size := tile heap (g.pointer (.input 0)) with hsize
  have tile_eq (i k : Nat) : g.tileAt heap (.input 0) i = g.tileAt heap (.input 0) k ↔
      (base + i * size) % 2 ^ 64 = (base + k * size) % 2 ^ 64 := by
    simp [tileAt, piece, ← hbase, ← hsize]
  obtain empty | channels := Nat.eq_zero_or_pos (g.c * g.hw)
  · rw [Nat.mul_assoc, empty]
    simp
  have rounds : g.weightRound ≤ 1 ↔ g.knum ≤ g.numPE := by
    have divides : g.numPE ∣ g.knum := whole.resolve_left fun h => by simp [h] at channels
    obtain ⟨q, hq⟩ := divides
    have quotient : g.weightRound = q := by
      rw [weightRound, show g.strategy.split 1 0 = g.numPE * q from hq, Nat.mul_div_cancel_left _ pos]
    rw [quotient, hq, mul_le_iff_le_one_right pos]
  rw [← rounds]
  constructor
  · intro same
    by_contra none
    push Not at none
    obtain ⟨many, left⟩ := none
    have first := same (g.c * g.hw) (by
      rw [Nat.mul_assoc]
      exact lt_mul_of_one_lt_left channels many)
    rw [Nat.mod_self, tile_eq, Nat.zero_mul, Nat.add_zero] at first
    exact left ((Nat.modEq_iff_dvd' (Nat.le_add_right _ _)).mp first |>.trans (by simp))
  · rintro (single | ⟨q, fills⟩) k hk
    · have inside : k < g.c * g.hw := by
        rw [Nat.mul_assoc] at hk
        have once := Nat.mul_le_mul_right (g.c * g.hw) single
        omega
      rw [Nat.mod_eq_of_lt inside]
    · have turns : k * size = k % (g.c * g.hw) * size + 2 ^ 64 * (k / (g.c * g.hw) * q) := by
        conv_lhs => rw [← Nat.mod_add_div k (g.c * g.hw), Nat.add_mul]
        rw [Nat.mul_right_comm, fills]
        ring
      rw [tile_eq, turns, ← Nat.add_assoc, Nat.add_mul_mod_self_left]

theorem aside_of_has {slot : Slot} {call : Call} (distinct : g.splitNode.Distinct)
    (two : 2 ≤ g.inputs) (whole : call.Whole g heap) (hs : call.slot = some slot)
    (has : g.splitNode.Has slot) (input : slot ≠ .input 0) (weight : slot ≠ .input 1) :
    call.Aside g heap := by
  have first : g.splitNode.Has (.input 0) := lt_of_lt_of_le (by decide) two
  have second : g.splitNode.Has (.input 1) := lt_of_lt_of_le (by decide) two
  exact ⟨whole, slot, hs, fun h => input (distinct.eq has first h),
    fun h => weight (distinct.eq has second h)⟩

/-- The calls of the two weight stationary generators: `first` reads other inputs. -/
theorem exists_weightCalls (heap : Heap) {kind : Kind}
    (weight : kind = .convWeightStationary ∨ kind = .convBatchnormWeight) (two : 2 ≤ g.inputs)
    (arity : g.Arity kind) (distinct : g.splitNode.Distinct) :
    ∃ first, g.Makes heap (g.generateTraffic kind) (g.weightCalls heap first) ∧
      (∀ call ∈ first, call.Aside g heap ∧ call.Proper ∧ call.computes = 0) := by
  have read {j : Nat} (low : 2 ≤ j) (high : j < g.inputs) :
      (g.readCall heap g.numPE (.input j)).Aside g heap ∧
        (g.readCall heap g.numPE (.input j)).Proper ∧
        (g.readCall heap g.numPE (.input j)).computes = 0 := by
    have here : g.splitNode.Has (.input j) := high
    have other (i : Nat) (h : i < 2) : Slot.input j ≠ .input i := by
      intro eq
      cases eq
      omega
    exact ⟨aside_of_has distinct two rfl rfl here (other 0 (by decide)) (other 1 (by decide)),
      rfl, rfl⟩
  obtain rfl | rfl := weight
  · refine ⟨_, makes_convWeightStationary, fun call h => ?_⟩
    unfold biasCalls at h
    split at h
    · rename_i bias
      cases List.mem_singleton.mp h
      exact read le_rfl bias
    · cases h
  · refine ⟨_, makes_convBatchnormWeight, fun call h => ?_⟩
    have count : g.inputs = 6 ∨ g.inputs = 7 := arity
    obtain h | h := List.mem_append.mp h
    · split at h
      · cases List.mem_singleton.mp h
        exact read le_rfl (by omega)
      · cases h
    · obtain ⟨j, hj, rfl⟩ := List.mem_map.mp h
      rw [List.mem_range] at hj
      exact read (by omega) (by omega)

theorem proper_weightCalls (hfirst : ∀ call ∈ first, call.Proper) :
    ∀ call ∈ g.weightCalls heap first, call.Proper := by
  intro call h
  obtain h | h := List.mem_append.mp (mem_repeated h)
  · exact hfirst call h
  obtain rfl | h := List.mem_cons.mp (mem_repeated h)
  · rfl
  have inner := mem_repeated h
  simp only [List.mem_cons, List.not_mem_nil, or_false] at inner
  obtain rfl | rfl | rfl := inner
  · rfl
  · trivial
  · rfl

theorem computes_weightCalls (none : ∀ call ∈ first, call.computes = 0) :
    ((g.weightCalls heap first).map Call.computes).sum =
      g.weightRound * g.c * g.numPE * g.hw := by
  have before : (first.map Call.computes).sum = 0 := by
    refine List.sum_eq_zero fun k hk => ?_
    obtain ⟨call, h, rfl⟩ := List.mem_map.mp hk
    exact none call h
  rw [weightCalls, sum_map_repeated, List.map_append, List.sum_append, before, sum_map_repeated,
    weightTileCalls, List.map_cons, List.sum_cons, sum_map_repeated]
  simp only [readCall, broadcastCall, writeCall, Call.computes, List.map_cons, List.map_nil,
    List.sum_cons, List.sum_nil]
  ring

end TrafficGenerator

end Generator

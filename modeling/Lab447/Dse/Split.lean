import Lab447.Dse.Space
import Lab447.Generator.Tiles
import Lab447.Generator.Rounds

/-!
The splits that the software searches propose (`encode` and `genSplit` of
`DSE/GA.py`, the operators of `DSE/MOGA.py`), and what `Conv::split` makes of them.
Every gene is a factor of one dimension, and the input channels share theirs with
the channels of the weight.
-/

namespace Dse

open Command Generator Workload

/-! ## Individuals -/

inductive Dataflow where
  | nvdla
  | shi
  | random
  deriving DecidableEq, Repr

/-- The `Mapping` of the exported design point. -/
def Dataflow.mapping : Dataflow → Mapping
  | nvdla => .weight
  | shi => .output
  | random => .weight

/-- The positions that a dataflow does not overwrite with `[1]`. -/
def Dataflow.keeps (opType : OpType) : Dataflow → Nat → Bool
  | nvdla, i => i = 1 || opType = .conv && i = 4
  | shi, i => i = 2 || i = 3
  | random, _ => true

/-- The entries of a design point that become genes. The channels of a weight, which
stand at position 5, do not. -/
def selected {α : Type} (opType : OpType) (xs : List α) : List α :=
  if opType = .conv then xs.take 5 ++ xs.drop 6 else xs.take 5

def encode (opType : OpType) (dataflow : Dataflow) (designPoint : List (List Nat)) :
    List (List Nat) :=
  (selected opType designPoint).mapIdx fun i genes =>
    if dataflow.keeps opType i then genes else [1]

/-- `custom_mutate`; `draws` holds what `random.choice` gives for the genes that are
changed. -/
def customMutate (individual : List Nat) (draws : List (Option Nat)) : List Nat :=
  List.zipWith (fun gene draw => draw.getD gene) individual draws

/-- The individuals of a search: drawn from the gene space, mutated, or with every
gene from one of two parents. -/
inductive Individual (geneSpace : List (List Nat)) : List Nat → Prop
  | init {individual : List Nat} : List.Forall₂ (· ∈ ·) individual geneSpace →
      Individual geneSpace individual
  | mutate {individual : List Nat} {draws : List (Option Nat)} : Individual geneSpace individual →
      List.Forall₂ (fun draw genes => ∀ gene ∈ draw, gene ∈ genes) draws geneSpace →
      Individual geneSpace (customMutate individual draws)
  | mate {a b child : List Nat} : Individual geneSpace a → Individual geneSpace b →
      child.length = a.length → (∀ i : Nat, child[i]? = a[i]? ∨ child[i]? = b[i]?) →
      Individual geneSpace child

variable {individual : List Nat} {geneSpace : List (List Nat)}

theorem forall₂_customMutate {draws : List (Option Nat)}
    (h : List.Forall₂ (· ∈ ·) individual geneSpace)
    (drawn : List.Forall₂ (fun draw genes => ∀ gene ∈ draw, gene ∈ genes) draws geneSpace) :
    List.Forall₂ (· ∈ ·) (customMutate individual draws) geneSpace := by
  induction h generalizing draws with
  | nil =>
    exact .nil
  | cons hgene _ ih =>
    cases drawn with
    | @cons draw _ _ _ hdraw rest =>
      refine .cons ?_ (ih rest)
      cases draw with
      | none => exact hgene
      | some gene => exact hdraw gene rfl

theorem forall₂_mate {a b child : List Nat} (ha : List.Forall₂ (· ∈ ·) a geneSpace)
    (hb : List.Forall₂ (· ∈ ·) b geneSpace) (length : child.length = a.length)
    (either : ∀ i : Nat, child[i]? = a[i]? ∨ child[i]? = b[i]?) :
    List.Forall₂ (· ∈ ·) child geneSpace := by
  obtain ⟨la, -⟩ := List.forall₂_iff_get.mp ha
  refine List.forall₂_iff_get.mpr ⟨length.trans la, fun i hi hg => ?_⟩
  have inherits {parent : List Nat} (hp : List.Forall₂ (· ∈ ·) parent geneSpace)
      (eq : child[i]? = parent[i]?) : child.get ⟨i, hi⟩ ∈ geneSpace.get ⟨i, hg⟩ := by
    obtain ⟨lp, hp⟩ := List.forall₂_iff_get.mp hp
    have hip : i < parent.length := by omega
    rw [List.getElem?_eq_getElem hi, List.getElem?_eq_getElem hip] at eq
    have same : child.get ⟨i, hi⟩ = parent.get ⟨i, hip⟩ := Option.some.inj eq
    rw [same]
    exact hp i hip hg
  obtain eq | eq := either i
  · exact inherits ha eq
  · exact inherits hb eq

/-- No operator of a search leaves the gene space. -/
theorem individual_iff :
    Individual geneSpace individual ↔ List.Forall₂ (· ∈ ·) individual geneSpace := by
  constructor
  · intro h
    induction h with
    | init h => exact h
    | mutate _ drawn ih => exact forall₂_customMutate ih drawn
    | mate _ _ length either iha ihb => exact forall₂_mate iha ihb length either
  · exact .init

/-- The largest gene at every position. -/
def limits (opType : OpType) (dataflow : Dataflow) (dims : List Nat) : List Nat :=
  (selected opType dims).mapIdx fun i d => if dataflow.keeps opType i then d else 1

theorem selected_map {α β : Type} (f : α → β) (opType : OpType) (xs : List α) :
    selected opType (xs.map f) = (selected opType xs).map f := by
  rw [selected, selected]
  split <;> simp

variable {opType : OpType}

theorem mem_of_mem_selected {α : Type} {xs : List α} {x : α} (h : x ∈ selected opType xs) :
    x ∈ xs := by
  rw [selected] at h
  split at h
  · obtain h | h := List.mem_append.mp h
    · exact List.mem_of_mem_take h
    · exact List.mem_of_mem_drop h
  · exact List.mem_of_mem_take h

theorem encode_factors (opType : OpType) (dataflow : Dataflow) (dims : List Nat) :
    encode opType dataflow (dims.map factors) = (limits opType dataflow dims).map factors := by
  have one : factors 1 = [1] := by decide
  rw [encode, limits, selected_map]
  refine List.ext_getElem (by simp) fun i _ _ => ?_
  simp only [List.getElem_mapIdx, List.getElem_map]
  split
  · rfl
  · exact one.symm

variable {dataflow : Dataflow}

theorem limits_pos {dims : List Nat} (pos : ∀ d ∈ dims, 0 < d) :
    ∀ x ∈ limits opType dataflow dims, 0 < x := by
  intro x hx
  rw [limits, List.mem_mapIdx] at hx
  obtain ⟨i, hi, rfl⟩ := hx
  split
  · exact pos _ (mem_of_mem_selected (List.getElem_mem hi))
  · exact Nat.one_pos

theorem forall₂_mem_factors {limits : List Nat} (pos : ∀ x ∈ limits, 0 < x) :
    List.Forall₂ (· ∈ ·) individual (limits.map factors) ↔
      List.Forall₂ (· ∣ ·) individual limits := by
  rw [List.forall₂_map_right_iff]
  induction limits generalizing individual with
  | nil => simp
  | cons x limits ih =>
    cases individual with
    | nil => simp
    | cons gene individual =>
      obtain ⟨hx, pos⟩ := List.forall_mem_cons.mp pos
      rw [List.forall₂_cons, List.forall₂_cons, mem_factors hx, ih pos]

/-- The individuals of a layer are the factors of its limits. -/
theorem individual_encode_iff {dims : List Nat} (pos : ∀ d ∈ dims, 0 < d) :
    Individual (encode opType dataflow (dims.map factors)) individual ↔
      List.Forall₂ (· ∣ ·) individual (limits opType dataflow dims) := by
  rw [individual_iff, encode_factors, forall₂_mem_factors (limits_pos pos)]

/-! ## Splits -/

/-- `genSplit`: the tile counts of the input and, for a convolution, of the weight. -/
def genSplit (opType : OpType) (solution : List Nat) : Except Raise (List (List Nat)) :=
  if opType = .conv then
    match solution[4]?, solution[1]?, solution[5]?, solution[6]? with
    | some k, some c, some r, some s => .ok [solution.take 4, [k, c, r, s]]
    | _, _, _, _ => .error .indexError
  else .ok [solution.take 4]

/-- The genes of a convolution that `genSplit` reads. -/
structure Genes where
  (n c h w k r s : Nat)

namespace Genes

variable (genes : Genes)

def inputTile : List Nat := [genes.n, genes.c, genes.h, genes.w]

/-- The channels of the weight are split as those of the input. -/
def weightTile : List Nat := [genes.k, genes.c, genes.r, genes.s]

def splitTile : List (List Nat) := [genes.inputTile, genes.weightTile]

end Genes

/-- A convolution of a model, as a layer of the search and as a node of the traffic
generator, over tensors of its own. The weight has `d` channels, one group's. -/
structure ConvLayer where
  input : TensorInfo
  weight : TensorInfo
  bias : Option TensorInfo
  node : Node
  heap : Heap
  (n c h w k d r s outN outH outW : Nat)
  positive : ∀ x ∈ [n, c, h, w, k, d, r, s, outN, outH, outW], 0 < x
  inputShape : input.shape = [n, c, h, w]
  weightShape : weight.shape = [k, d, r, s]
  biasShape : ∀ t ∈ bias, t.shape = [k]
  inputs : node.inputs.length = 2 + bias.toList.length
  heapInput : (heap (Workload.input node 0)).shape = [(n : Int), c, h, w]
  heapWeight : (heap (Workload.input node 1)).shape = [(k : Int), d, r, s]
  heapBias : bias.isSome → (heap (Workload.input node 2)).shape = [(k : Int)]
  heapOutput : (heap (output node)).shape = [(outN : Int), k, outH, outW]
  distinct : node.Distinct

namespace ConvLayer

variable (conv : ConvLayer) (dataflow : Dataflow)

def layer : Layer := ⟨.conv, conv.input :: conv.weight :: conv.bias.toList, 0⟩

/-- The tensors after `Conv::split`. -/
def after (splitTile : List (List Nat)) : Heap :=
  convSplit conv.node ⟨splitTile, dataflow.mapping⟩ conv.heap

/-- No dimension of a tensor becomes zero, and the tiles of the weight and of the
input make up the tensor. A height or width that is cut has its size from the
output and the padding instead. -/
structure CutsExactly (inputTile weightTile : List Nat) : Prop where
  nonzero : ∀ p ∈ output conv.node :: conv.node.inputs,
    ∀ x ∈ (conv.after dataflow [inputTile, weightTile] p).shape, x ≠ 0
  weight : ∀ j < 4, (conv.after dataflow [inputTile, weightTile]).dim
    (Workload.input conv.node 1) j * weightTile.getD j 0 =
      conv.heap.dim (Workload.input conv.node 1) j
  input : ∀ j < 4, (1 < j → inputTile.getD j 0 ≤ 1) →
    (conv.after dataflow [inputTile, weightTile]).dim (Workload.input conv.node 0) j *
      inputTile.getD j 0 = conv.heap.dim (Workload.input conv.node 0) j

/-- Every individual gives factors of the shapes that cut the tensors exactly. -/
def SplitsExactly : Prop :=
  ∀ point, getDesignPoint conv.layer = .ok (some point) →
    ∀ solution, Individual (encode .conv dataflow point) solution →
      ∃ inputTile weightTile, genSplit .conv solution = .ok [inputTile, weightTile] ∧
        List.Forall₂ (· ∣ ·) inputTile conv.input.shape ∧
        List.Forall₂ (· ∣ ·) weightTile conv.weight.shape ∧
        conv.CutsExactly dataflow inputTile weightTile

end ConvLayer

/-- The extent of an input tile along one axis, cut `f` times. -/
def cutAxis (size out kernel f : Nat) (pad stride : Int) : Int :=
  if 1 < f then ((out / f : Nat) - 1) * stride + kernel - pad else (size / f : Nat)

/-- No factor of the axis leaves an output or an input tile empty. -/
def Cuttable (size out kernel : Nat) (pad stride : Int) : Prop :=
  ∀ f ∈ factors size, f ≤ out ∧ cutAxis size out kernel f pad stride ≠ 0

instance (size out kernel : Nat) (pad stride : Int) :
    Decidable (Cuttable size out kernel pad stride) :=
  inferInstanceAs (Decidable (∀ f ∈ factors size, _))

namespace ConvLayer

/-- Both tensors have genes, the channels of the input are those of the weight if
they are split, the batch is not split, and rows and columns can be cut. -/
structure Splittable (conv : ConvLayer) (dataflow : Dataflow) : Prop where
  input_genes : conv.input.isBias = false
  weight_genes : conv.weight.isBias = false
  channels : dataflow ≠ .shi → conv.c ∣ conv.d
  batch : dataflow = .random → conv.n = 1
  rows : dataflow ≠ .nvdla →
    Cuttable conv.h conv.outH conv.r (conv.node.attribute 3) (conv.node.attribute 4)
  columns : dataflow ≠ .nvdla →
    Cuttable conv.w conv.outW conv.s (conv.node.attribute 3) (conv.node.attribute 4)

variable {conv : ConvLayer} {dataflow : Dataflow}

theorem sizes_pos (conv : ConvLayer) : 0 < conv.n ∧ 0 < conv.c ∧ 0 < conv.h ∧ 0 < conv.w ∧
    0 < conv.k ∧ 0 < conv.d ∧ 0 < conv.r ∧ 0 < conv.s ∧ 0 < conv.outN ∧ 0 < conv.outH ∧
      0 < conv.outW := by
  have pos := conv.positive
  simpa only [List.forall_mem_cons, List.not_mem_nil, false_implies, implies_true,
    and_true] using pos

theorem positive_layer (conv : ConvLayer) : conv.layer.Positive := by
  obtain ⟨n, c, h, w, k, d, r, s, -⟩ := conv.sizes_pos
  refine List.forall_mem_cons.mpr ⟨?_, List.forall_mem_cons.mpr ⟨?_, fun t ht => ?_⟩⟩
  · rw [conv.inputShape]
    simp [n, c, h, w]
  · rw [conv.weightShape]
    simp [k, d, r, s]
  · rw [conv.biasShape t (Option.mem_toList.mp ht)]
    simp [k]

theorem mapped_layer (conv : ConvLayer) : conv.layer.Mapped := by
  refine List.forall_mem_cons.mpr ⟨fun _ => ?_, List.forall_mem_cons.mpr ⟨fun _ => ?_, ?_⟩⟩
  · rw [conv.inputShape]
    exact le_rfl
  · rw [conv.weightShape]
    exact le_rfl
  · intro t ht _
    rw [conv.biasShape t (Option.mem_toList.mp ht)]
    exact Nat.le_of_ble_eq_true rfl

theorem dims_pos {layer : Layer} (pos : layer.Positive) : ∀ d ∈ layer.dims, 0 < d := by
  intro d hd
  obtain ⟨t, ht, hd⟩ := List.mem_flatMap.mp hd
  exact pos t (List.mem_filter.mp ht).1 d hd

/-- The design point of a convolution always exists. -/
theorem splitsExactly_iff : conv.SplitsExactly dataflow ↔
    ∀ solution, List.Forall₂ (· ∣ ·) solution (limits .conv dataflow conv.layer.dims) →
      ∃ inputTile weightTile, genSplit .conv solution = .ok [inputTile, weightTile] ∧
        List.Forall₂ (· ∣ ·) inputTile conv.input.shape ∧
        List.Forall₂ (· ∣ ·) weightTile conv.weight.shape ∧
        conv.CutsExactly dataflow inputTile weightTile := by
  have point : getDesignPoint conv.layer = .ok (some (conv.layer.dims.map factors)) :=
    getDesignPoint_eq rfl conv.positive_layer conv.mapped_layer
  have genes {solution : List Nat} :
      Individual (encode .conv dataflow (conv.layer.dims.map factors)) solution ↔
        List.Forall₂ (· ∣ ·) solution (limits .conv dataflow conv.layer.dims) :=
    individual_encode_iff (dims_pos conv.positive_layer)
  constructor
  · intro h solution hs
    exact h _ point solution (genes.mpr hs)
  · intro h point' hp solution hs
    rw [point] at hp
    obtain rfl := Option.some.inj (Except.ok.inj hp)
    exact h solution (genes.mp hs)

/-! ### What the split leaves -/

theorem two_le_inputs (conv : ConvLayer) : 2 ≤ conv.node.inputs.length := by
  rw [conv.inputs]
  exact Nat.le_add_right 2 _

theorem length_inputs (conv : ConvLayer) (some : conv.bias.isSome) :
    conv.node.inputs.length = 3 := by
  rw [conv.inputs]
  cases h : conv.bias with
  | none => simp [h] at some
  | some => rfl

theorem input_ne_input (conv : ConvLayer) {i j : Nat} (hi : i < conv.node.inputs.length)
    (hj : j < conv.node.inputs.length) (ne : i ≠ j) :
    Workload.input conv.node i ≠ Workload.input conv.node j := by
  intro same
  exact ne (Slot.input.inj (conv.distinct.eq hi hj same))

theorem input_ne_output (conv : ConvLayer) {i : Nat} (hi : i < conv.node.inputs.length) :
    Workload.input conv.node i ≠ output conv.node := by
  intro same
  cases conv.distinct.eq (a := .input i) (b := .output) hi trivial same

section

variable (conv : ConvLayer) (dataflow : Dataflow) (genes : Genes)

/-- The shapes of the three tensors that are cut. -/
def CutShapes (tile : Heap) : Prop :=
  (tile (Workload.input conv.node 0)).shape =
      [(conv.n : Int), (conv.c / genes.c : Nat),
        cutAxis conv.h conv.outH conv.r genes.h (conv.node.attribute 3) (conv.node.attribute 4),
        cutAxis conv.w conv.outW conv.s genes.w (conv.node.attribute 3) (conv.node.attribute 4)] ∧
    (tile (Workload.input conv.node 1)).shape =
      [((conv.k / genes.k : Nat) : Int), (conv.d / genes.c : Nat), (conv.r / genes.r : Nat),
        (conv.s / genes.s : Nat)] ∧
    (tile (output conv.node)).shape =
      [(conv.outN : Int), (conv.k / genes.k : Nat), (conv.outH / genes.h : Nat),
        (conv.outW / genes.w : Nat)]

theorem shape_convTiles : CutShapes conv genes
    (convTiles conv.node ⟨genes.splitTile, dataflow.mapping⟩ conv.heap) := by
  have two := conv.two_le_inputs
  have iw := conv.input_ne_input (i := 0) (j := 1) (by omega) (by omega) (by decide)
  have io := conv.input_ne_output (i := 0) (by omega)
  have wo := conv.input_ne_output (i := 1) (by omega)
  have hin := conv.heapInput
  have hw := conv.heapWeight
  have hout := conv.heapOutput
  have range : List.range 4 = [0, 1, 2, 3] := rfl
  unfold CutShapes convTiles cutAxis
  simp only [block_cons, block_nil, range, each_cons, each_nil, onlyIf, Heap.dim,
    Strategy.split, Genes.splitTile, Genes.inputTile, Genes.weightTile, List.getD_cons_zero,
    List.getD_cons_succ]
  split <;> split <;>
    simp [Heap.shape_divide_self, Heap.shape_divide_of_ne, Heap.shape_setDim_self,
      Heap.shape_setDim_of_ne, iw, io, wo, iw.symm, io.symm, wo.symm, hin, hw, hout]

/-- `convTiles` cuts the input, the weight and the output only. -/
theorem shape_convTiles_of_ne {q : Nat} (input : q ≠ Workload.input conv.node 0)
    (weight : q ≠ Workload.input conv.node 1) (out : q ≠ output conv.node)
    (strategy : Strategy) :
    (convTiles conv.node strategy conv.heap q).shape = (conv.heap q).shape := by
  have range : List.range 4 = [0, 1, 2, 3] := rfl
  unfold convTiles
  simp only [block_cons, block_nil, range, each_cons, each_nil, onlyIf]
  split <;> split <;>
    simp only [Heap.shape_divide_of_ne, Heap.shape_setDim_of_ne, input, weight, out, ne_eq,
      not_false_eq_true]

theorem shape_after {q : Nat} (ne : conv.bias.isSome → q ≠ Workload.input conv.node 2) :
    (conv.after dataflow genes.splitTile q).shape =
      (convTiles conv.node ⟨genes.splitTile, dataflow.mapping⟩ conv.heap q).shape := by
  rw [after, convSplit, block_cons, block_cons, block_nil, onlyIf]
  split
  · rename_i three
    have some : conv.bias.isSome := by
      rw [conv.inputs] at three
      cases h : conv.bias with
      | none => simp [h] at three
      | some => rfl
    exact Heap.shape_divide_of_ne (ne some)
  · rfl

theorem shape_after_split : CutShapes conv genes (conv.after dataflow genes.splitTile) := by
  have input {j : Nat} (hj : j < 2) (some : conv.bias.isSome) :
      Workload.input conv.node j ≠ Workload.input conv.node 2 := by
    have three := conv.length_inputs some
    exact conv.input_ne_input (by omega) (by omega) (by omega)
  have out (some : conv.bias.isSome) : output conv.node ≠ Workload.input conv.node 2 := by
    have three := conv.length_inputs some
    exact (conv.input_ne_output (by omega)).symm
  have tiles := shape_convTiles conv dataflow genes
  simp only [CutShapes, shape_after conv dataflow genes (input (j := 0) (by decide)),
    shape_after conv dataflow genes (input (j := 1) (by decide)),
    shape_after conv dataflow genes out]
  exact tiles

theorem shape_after_bias (some : conv.bias.isSome) :
    (conv.after dataflow genes.splitTile (Workload.input conv.node 2)).shape =
      [((conv.k / genes.k : Nat) : Int)] := by
  have three := conv.length_inputs some
  have hi := conv.input_ne_input (i := 2) (j := 0) (by omega) (by omega) (by decide)
  have hw := conv.input_ne_input (i := 2) (j := 1) (by omega) (by omega) (by decide)
  have ho := conv.input_ne_output (i := 2) (by omega)
  rw [after, convSplit, block_cons, block_cons, block_nil, onlyIf, if_pos (by omega),
    Heap.shape_divide_self, shape_convTiles_of_ne conv hi hw ho, conv.heapBias some]
  simp [Strategy.split, Genes.splitTile, Genes.weightTile]

end

/-- The genes divide the dimensions they are drawn for. -/
structure Divides (genes : Genes) (conv : ConvLayer) : Prop where
  n : genes.n ∣ conv.n
  c : genes.c ∣ conv.c
  h : genes.h ∣ conv.h
  w : genes.w ∣ conv.w
  k : genes.k ∣ conv.k
  r : genes.r ∣ conv.r
  s : genes.s ∣ conv.s

theorem forall_tensors {P : Nat → Prop} : (∀ p ∈ output conv.node :: conv.node.inputs, P p) ↔
    P (output conv.node) ∧ P (Workload.input conv.node 0) ∧ P (Workload.input conv.node 1) ∧
      (conv.bias.isSome → P (Workload.input conv.node 2)) := by
  have inputs := conv.inputs
  cases h : conv.bias with
  | none =>
    rw [h] at inputs
    obtain ⟨i, w, hi⟩ := List.length_eq_two.mp inputs
    simp [Workload.input, Node.pointer, hi]
  | some t =>
    rw [h] at inputs
    obtain ⟨i, w, b, hi⟩ := List.length_eq_three.mp inputs
    simp [Workload.input, Node.pointer, hi]

theorem div_ne_zero {x f : Nat} (pos : 0 < x) (h : f ∣ x) : ((x / f : Nat) : Int) ≠ 0 := by
  have : 0 < x / f := Nat.div_pos (Nat.le_of_dvd pos h) (Nat.pos_of_dvd_of_pos h pos)
  omega

theorem div_ne_zero_iff {x f : Nat} (pos : 0 < f) : ((x / f : Nat) : Int) ≠ 0 ↔ f ≤ x := by
  rw [Int.natCast_ne_zero, Nat.div_ne_zero_iff]
  omega

section

variable {genes : Genes} (divides : Divides genes conv)

/-- The two axes can be cut by these genes. -/
def CutsAxes (conv : ConvLayer) (genes : Genes) : Prop :=
  (genes.h ≤ conv.outH ∧ cutAxis conv.h conv.outH conv.r genes.h (conv.node.attribute 3)
    (conv.node.attribute 4) ≠ 0) ∧
  (genes.w ≤ conv.outW ∧ cutAxis conv.w conv.outW conv.s genes.w (conv.node.attribute 3)
    (conv.node.attribute 4) ≠ 0)

include divides

theorem nonzero_iff (channels : genes.c ∣ conv.d) :
    (∀ p ∈ output conv.node :: conv.node.inputs,
      ∀ x ∈ (conv.after dataflow genes.splitTile p).shape, x ≠ 0) ↔ conv.CutsAxes genes := by
  obtain ⟨n, c, h, w, k, d, r, s, outN, -, -⟩ := conv.sizes_pos
  obtain ⟨hi, hw, ho⟩ := conv.shape_after_split dataflow genes
  rw [forall_tensors, hi, hw, ho]
  have hpos := Nat.pos_of_dvd_of_pos divides.h h
  have wpos := Nat.pos_of_dvd_of_pos divides.w w
  have biasTile : conv.bias.isSome → ∀ x ∈ (conv.after dataflow genes.splitTile
      (Workload.input conv.node 2)).shape, x ≠ 0 := by
    intro some x hx
    rw [shape_after_bias conv dataflow genes some, List.mem_singleton] at hx
    rw [hx]
    exact div_ne_zero k divides.k
  simp only [List.forall_mem_cons, List.not_mem_nil, false_implies, implies_true, and_true,
    div_ne_zero c divides.c, div_ne_zero k divides.k, div_ne_zero d channels,
    div_ne_zero r divides.r, div_ne_zero s divides.s, div_ne_zero_iff hpos, div_ne_zero_iff wpos,
    Int.natCast_ne_zero.mpr n.ne', Int.natCast_ne_zero.mpr outN.ne', ne_eq, not_false_eq_true,
    true_and, CutsAxes]
  tauto

theorem cutsExactly_iff (channels : genes.c ∣ conv.d) :
    conv.CutsExactly dataflow genes.inputTile genes.weightTile ↔
      genes.n = 1 ∧ conv.CutsAxes genes := by
  obtain ⟨n, -⟩ := conv.sizes_pos
  obtain ⟨hi, hw, -⟩ := conv.shape_after_split dataflow genes
  have exact {x f : Nat} (h : f ∣ x) : ((x / f : Nat) : Int) * f = x := by
    exact_mod_cast Nat.div_mul_cancel h
  -- an axis that is not cut keeps its size
  have whole {x f out kernel : Nat} {pad stride : Int} (h : f ∣ x) (one : f ≤ 1) :
      cutAxis x out kernel f pad stride * f = x := by
    rw [cutAxis, if_neg (by omega)]
    exact exact h
  constructor
  · intro cut
    refine ⟨?_, (nonzero_iff divides channels).mp cut.nonzero⟩
    have batch := cut.input 0 (by decide) fun h => absurd h (by decide)
    rw [Heap.dim, Heap.dim, show [genes.inputTile, genes.weightTile] = genes.splitTile from rfl,
      hi, conv.heapInput] at batch
    change (conv.n : Int) * genes.n = conv.n at batch
    have : conv.n * genes.n = conv.n := by exact_mod_cast batch
    exact Nat.eq_of_mul_eq_mul_left n (by rw [this, Nat.mul_one])
  · rintro ⟨one, axes⟩
    refine ⟨(nonzero_iff divides channels).mpr axes, ?_, ?_⟩
    · intro j hj
      rw [Heap.dim, Heap.dim, show [genes.inputTile, genes.weightTile] = genes.splitTile from rfl,
        hw, conv.heapWeight]
      interval_cases j
      · exact exact divides.k
      · exact exact channels
      · exact exact divides.r
      · exact exact divides.s
    · intro j hj uncut
      rw [Heap.dim, Heap.dim, show [genes.inputTile, genes.weightTile] = genes.splitTile from rfl,
        hi, conv.heapInput]
      interval_cases j
      · simp [Genes.inputTile, one]
      · exact exact divides.c
      · exact whole divides.h (uncut (by decide))
      · exact whole divides.w (uncut (by decide))

end

/-! ### All individuals of a convolution -/

/-- The largest gene of a dimension of size `x` at position `i`. -/
def limit (dataflow : Dataflow) (i x : Nat) : Nat := if dataflow.keeps .conv i then x else 1

theorem limit_dvd (dataflow : Dataflow) (i x : Nat) : limit dataflow i x ∣ x := by
  rw [limit]
  split
  · exact dvd_rfl
  · exact one_dvd x

/-- Genes that an individual can have. -/
structure Possible (conv : ConvLayer) (dataflow : Dataflow) (genes : Genes) : Prop where
  n : genes.n ∣ limit dataflow 0 conv.n
  c : genes.c ∣ limit dataflow 1 conv.c
  h : genes.h ∣ limit dataflow 2 conv.h
  w : genes.w ∣ limit dataflow 3 conv.w
  k : genes.k ∣ limit dataflow 4 conv.k
  r : genes.r ∣ limit dataflow 5 conv.r
  s : genes.s ∣ limit dataflow 6 conv.s

theorem Possible.divides {genes : Genes} (h : conv.Possible dataflow genes) :
    Divides genes conv where
  n := h.n.trans (limit_dvd ..)
  c := h.c.trans (limit_dvd ..)
  h := h.h.trans (limit_dvd ..)
  w := h.w.trans (limit_dvd ..)
  k := h.k.trans (limit_dvd ..)
  r := h.r.trans (limit_dvd ..)
  s := h.s.trans (limit_dvd ..)

theorem limits_layer (conv : ConvLayer) (dataflow : Dataflow)
    (input : conv.input.isBias = false) (weight : conv.weight.isBias = false) :
    ∃ rest, limits .conv dataflow conv.layer.dims =
      limit dataflow 0 conv.n :: limit dataflow 1 conv.c :: limit dataflow 2 conv.h ::
        limit dataflow 3 conv.w :: limit dataflow 4 conv.k :: limit dataflow 5 conv.r ::
        limit dataflow 6 conv.s :: rest := by
  simp only [limits, selected, Layer.dims, layer, input, weight, List.filter_cons, Bool.not_false,
    if_true, List.flatMap_cons, conv.inputShape, conv.weightShape, List.cons_append, List.nil_append,
    List.take_succ_cons, List.take_zero, List.drop_succ_cons, List.drop_zero, List.mapIdx_cons]
  exact ⟨_, rfl⟩

/-- Without the name of a bias among them, input and weight have the first seven
genes. -/
theorem splitsExactly_iff_genes (input : conv.input.isBias = false)
    (weight : conv.weight.isBias = false) : conv.SplitsExactly dataflow ↔
      ∀ genes, conv.Possible dataflow genes →
        genes.c ∣ conv.d ∧ genes.n = 1 ∧ conv.CutsAxes genes := by
  obtain ⟨rest, hlimits⟩ := conv.limits_layer dataflow input weight
  rw [splitsExactly_iff, hlimits]
  constructor
  · intro h genes possible
    have solution : List.Forall₂ (· ∣ ·)
        (genes.n :: genes.c :: genes.h :: genes.w :: genes.k :: genes.r :: genes.s :: rest) _ :=
      .cons possible.n <| .cons possible.c <| .cons possible.h <| .cons possible.w <|
        .cons possible.k <| .cons possible.r <| .cons possible.s <| List.forall₂_refl rest
    obtain ⟨inputTile, weightTile, split, -, dvd, cut⟩ := h _ solution
    have tiles : [genes.inputTile, genes.weightTile] = [inputTile, weightTile] :=
      Except.ok.inj split
    obtain ⟨rfl, rfl⟩ : genes.inputTile = inputTile ∧ genes.weightTile = weightTile := by
      simpa using tiles
    rw [conv.weightShape, Genes.weightTile] at dvd
    simp only [List.forall₂_cons] at dvd
    exact ⟨dvd.2.1, (cutsExactly_iff possible.divides dvd.2.1).mp cut⟩
  · intro h solution hs
    obtain _ | ⟨hn, _ | ⟨hc, _ | ⟨hh, _ | ⟨hw, _ | ⟨hk, _ | ⟨hr, _ | ⟨hs, -⟩⟩⟩⟩⟩⟩⟩ := hs
    have possible : conv.Possible dataflow ⟨_, _, _, _, _, _, _⟩ := ⟨hn, hc, hh, hw, hk, hr, hs⟩
    have divides := possible.divides
    obtain ⟨channels, cut⟩ := h _ possible
    refine ⟨_, _, rfl, ?_, ?_,
      (cutsExactly_iff divides channels).mpr cut⟩
    · rw [conv.inputShape]
      exact .cons divides.n <| .cons divides.c <| .cons divides.h <| .cons divides.w .nil
    · rw [conv.weightShape]
      exact .cons divides.k <| .cons channels <| .cons divides.r <| .cons divides.s .nil

theorem genSplit_short {solution : List Nat} (short : solution.length ≤ 6) :
    genSplit .conv solution = .error .indexError := by
  have last : solution[6]? = none := List.getElem?_eq_none short
  rw [genSplit, if_pos rfl, last]
  split
  · rename_i h
    cases h
  · rfl

theorem length_dims_cons (data : TensorInfo) (rest : List TensorInfo) :
    (((data :: rest).filter fun data => !data.isBias).flatMap TensorInfo.shape).length =
      (if data.isBias then 0 else data.shape.length) +
        ((rest.filter fun data => !data.isBias).flatMap TensorInfo.shape).length := by
  cases h : data.isBias <;> simp [h]

/-- A tensor named as a bias has no genes, and `genSplit` misses them. -/
theorem not_splitsExactly (bias : conv.input.isBias = true ∨ conv.weight.isBias = true) :
    ¬ conv.SplitsExactly dataflow := by
  have dims : conv.layer.dims.length ≤ 5 := by
    have rest : ((conv.bias.toList.filter fun data => !data.isBias).flatMap
        TensorInfo.shape).length ≤ 1 := by
      have shape := conv.biasShape
      cases h : conv.bias with
      | none => exact Nat.zero_le 1
      | some t =>
        rw [h] at shape
        cases hb : t.isBias <;> simp [hb, shape t rfl]
    rw [Layer.dims, layer, length_dims_cons, length_dims_cons, conv.inputShape, conv.weightShape]
    simp only [List.length_cons, List.length_nil]
    obtain h | h := bias
    · rw [if_pos h]
      split <;> omega
    · split <;> omega
  rw [splitsExactly_iff]
  intro h
  obtain ⟨_, _, split, -⟩ := h _ (List.forall₂_refl _)
  rw [genSplit_short] at split
  · cases split
  · simp [limits, selected]
    omega

theorem cuttable_of_limit {size out kernel i f : Nat} {pad stride : Int} (hs : 0 < size)
    (ho : 0 < out) (cuttable : dataflow ≠ .nvdla → Cuttable size out kernel pad stride)
    (axis : i = 2 ∨ i = 3) (h : f ∣ limit dataflow i size) :
    f ≤ out ∧ cutAxis size out kernel f pad stride ≠ 0 := by
  by_cases flow : dataflow = .nvdla
  · have one : f = 1 := by
      obtain rfl | rfl := axis <;> simpa [limit, flow, Dataflow.keeps] using h
    subst one
    rw [cutAxis, if_neg (by decide), Nat.div_one]
    omega
  · exact cuttable flow f ((mem_factors hs).mpr (h.trans (limit_dvd ..)))

theorem splitsExactly_iff_splittable : conv.SplitsExactly dataflow ↔ conv.Splittable dataflow := by
  by_cases bias : conv.input.isBias = true ∨ conv.weight.isBias = true
  · refine iff_of_false (not_splitsExactly bias) fun h => ?_
    rw [h.input_genes, h.weight_genes] at bias
    simp at bias
  · rw [not_or, Bool.not_eq_true, Bool.not_eq_true] at bias
    obtain ⟨input, weight⟩ := bias
    rw [splitsExactly_iff_genes input weight]
    obtain ⟨-, -, hh, hw, -, -, -, -, -, outH, outW⟩ := conv.sizes_pos
    constructor
    · intro h
      refine ⟨input, weight, fun kept => ?_, fun kept => ?_, fun kept f hf => ?_,
        fun kept f hf => ?_⟩
      · refine (h ⟨1, conv.c, 1, 1, 1, 1, 1⟩ ?_).1
        constructor <;> cases dataflow <;> simp [limit, Dataflow.keeps] at kept ⊢
      · refine (h ⟨conv.n, 1, 1, 1, 1, 1, 1⟩ ?_).2.1
        constructor <;> simp [limit, Dataflow.keeps, kept]
      · have dvd := (mem_factors hh).mp hf
        refine (h ⟨1, 1, f, 1, 1, 1, 1⟩ ?_).2.2.1
        constructor <;> cases dataflow <;> simp [limit, Dataflow.keeps, dvd] at kept ⊢
      · have dvd := (mem_factors hw).mp hf
        refine (h ⟨1, 1, 1, f, 1, 1, 1⟩ ?_).2.2.2
        constructor <;> cases dataflow <;> simp [limit, Dataflow.keeps, dvd] at kept ⊢
    · intro h genes possible
      refine ⟨?_, ?_, cuttable_of_limit hh outH h.rows (.inl rfl) possible.h,
        cuttable_of_limit hw outW h.columns (.inr rfl) possible.w⟩
      · by_cases flow : dataflow = .shi
        · have one : genes.c ∣ 1 := by simpa [limit, flow, Dataflow.keeps] using possible.c
          exact one.trans (one_dvd _)
        · exact possible.divides.c.trans (h.channels flow)
      · by_cases flow : dataflow = .random
        · exact Nat.dvd_one.mp (h.batch flow ▸ possible.divides.n)
        · have one := possible.n
          cases dataflow <;> simp_all [limit, Dataflow.keeps]

end ConvLayer

/-! ### The other operators -/

/-- Every individual gives a tile with a factor for each dimension of the input. -/
def SplitsInput (opType : OpType) (dataflow : Dataflow) (point : List (List Nat))
    (shape : List Nat) : Prop :=
  ∀ solution, Individual (encode opType dataflow point) solution →
    ∃ inputTile, genSplit opType solution = .ok [inputTile] ∧
      List.Forall₂ (· ∣ ·) inputTile shape

theorem forall₂_dvd_trans {xs ys zs : List Nat} (h : List.Forall₂ (· ∣ ·) xs ys)
    (h' : List.Forall₂ (· ∣ ·) ys zs) : List.Forall₂ (· ∣ ·) xs zs := by
  induction h generalizing zs with
  | nil => exact h'
  | cons hd _ ih =>
    cases h' with
    | cons hd' tl' => exact .cons (hd.trans hd') (ih tl')

/-- The individual with the largest genes decides for all of them. -/
theorem splitsInput_iff {layer : Layer} {shape : List Nat} (pos : layer.Positive)
    (op : layer.opType ≠ .conv) : SplitsInput layer.opType dataflow (layer.dims.map factors) shape ↔
      List.Forall₂ (· ∣ ·) ((limits layer.opType dataflow layer.dims).take 4) shape := by
  have split (solution : List Nat) : genSplit layer.opType solution = .ok [solution.take 4] :=
    if_neg op
  simp only [SplitsInput, individual_encode_iff (ConvLayer.dims_pos pos), split]
  constructor
  · intro h
    obtain ⟨tile, eq, dvd⟩ := h _ (List.forall₂_refl _)
    obtain rfl := List.singleton_inj.mp (Except.ok.inj eq)
    exact dvd
  · intro h solution hs
    refine ⟨_, rfl, ?_⟩
    exact forall₂_dvd_trans (List.forall₂_take 4 hs) h

/-- If the input has four dimensions and genes, every operator other than a
convolution splits it exactly. -/
theorem limits_of_input {layer : Layer} {input : TensorInfo} {rest : List TensorInfo}
    (tensors : layer.inputTensor = input :: rest) (op : layer.opType ≠ .conv)
    (genes : input.isBias = false) (four : input.shape.length = 4) :
    List.Forall₂ (· ∣ ·) ((limits layer.opType dataflow layer.dims).take 4) input.shape := by
  have dims : layer.dims.take 4 = input.shape := by
    rw [Layer.dims, tensors, List.filter_cons, genes, Bool.not_false, if_pos rfl,
      List.flatMap_cons, ← four, List.take_left]
  rw [← dims]
  refine List.forall₂_iff_get.mpr ⟨by simp [limits, selected, op]; omega, fun i hi _ => ?_⟩
  simp only [limits, selected, op, if_false, List.get_eq_getElem, List.getElem_take,
    List.getElem_mapIdx]
  split
  · exact dvd_rfl
  · exact one_dvd _

/-- The searched splits of a convolution are exact under `Splittable` only. Those of
another operator are exact when the largest ones divide the shape of its input. -/
theorem genSplit_exact_iff (dataflow : Dataflow) :
    (∀ conv : ConvLayer, conv.SplitsExactly dataflow ↔ conv.Splittable dataflow) ∧
    ∀ (layer : Layer) (input : TensorInfo) (rest : List TensorInfo) (point : List (List Nat)),
      layer.opType ≠ .conv → layer.inputTensor = input :: rest → layer.Positive →
      getDesignPoint layer = .ok (some point) →
      (SplitsInput layer.opType dataflow point input.shape ↔
        List.Forall₂ (· ∣ ·) ((limits layer.opType dataflow layer.dims).take 4) input.shape) := by
  refine ⟨fun conv => ConvLayer.splitsExactly_iff_splittable, ?_⟩
  intro layer input rest point op _ pos hpoint
  rw [eq_of_getDesignPoint pos hpoint]
  exact splitsInput_iff pos op

/-- A depthwise convolution of four channels. -/
def depthwise : ConvLayer where
  input := ⟨"data", [1, 4, 2, 2]⟩
  weight := ⟨"weight", [4, 1, 1, 1]⟩
  bias := none
  node := ⟨.conv, [0, 1], [2], [[], [], [], [0], [1]], []⟩
  heap p := ⟨if p = 1 then [4, 1, 1, 1] else [1, 4, 2, 2], 0, 0, 0⟩
  n := 1
  c := 4
  h := 2
  w := 2
  k := 4
  d := 1
  r := 1
  s := 1
  outN := 1
  outH := 2
  outW := 2
  positive := by decide
  inputShape := rfl
  weightShape := rfl
  biasShape := by simp
  inputs := rfl
  heapInput := rfl
  heapWeight := rfl
  heapBias := by simp
  heapOutput := rfl
  distinct := by decide

/-- Splitting the four channels leaves weight tiles without channels. -/
theorem depthwise_empty_weight :
    Individual (encode .conv .nvdla (depthwise.layer.dims.map factors)) [1, 4, 1, 1, 1, 1, 1] ∧
      getDesignPoint depthwise.layer = .ok (some (depthwise.layer.dims.map factors)) ∧
      genSplit .conv [1, 4, 1, 1, 1, 1, 1] = .ok [[1, 4, 1, 1], [1, 4, 1, 1]] ∧
      ¬ List.Forall₂ (· ∣ ·) [1, 4, 1, 1] depthwise.weight.shape ∧
      (depthwise.after .nvdla [[1, 4, 1, 1], [1, 4, 1, 1]]).dim
        (Workload.input depthwise.node 1) 1 = 0 ∧
      ¬ depthwise.SplitsExactly .nvdla := by
  have drawn : Individual (encode .conv .nvdla (depthwise.layer.dims.map factors))
      [1, 4, 1, 1, 1, 1, 1] := .init (by decide)
  have point : getDesignPoint depthwise.layer = .ok (some (depthwise.layer.dims.map factors)) := by
    decide
  refine ⟨drawn, point, rfl, by decide, by decide, fun h => ?_⟩
  obtain ⟨inputTile, weightTile, split, -, dvd, -⟩ := h _ point _ drawn
  obtain ⟨rfl, rfl⟩ : [1, 4, 1, 1] = inputTile ∧ [1, 4, 1, 1] = weightTile := by
    simpa using Except.ok.inj split
  exact absurd dvd (by decide)

/-- A convolution of two channels whose splits are exact. -/
def pointwise : ConvLayer where
  input := ⟨"data", [1, 2, 4, 4]⟩
  weight := ⟨"weight", [2, 2, 1, 1]⟩
  bias := some ⟨"bias", [2]⟩
  node := ⟨.conv, [0, 1, 2], [3], [[], [], [], [0], [1]], []⟩
  heap p := ⟨if p = 1 then [2, 2, 1, 1] else if p = 2 then [2] else [1, 2, 4, 4], 0, 0, 0⟩
  n := 1
  c := 2
  h := 4
  w := 4
  k := 2
  d := 2
  r := 1
  s := 1
  outN := 1
  outH := 4
  outW := 4
  positive := by decide
  inputShape := rfl
  weightShape := rfl
  biasShape := by simp
  inputs := rfl
  heapInput := rfl
  heapWeight := rfl
  heapBias _ := rfl
  heapOutput := rfl
  distinct := by decide

def reluLayer : Layer := ⟨.relu, [⟨"data", [1, 2, 4, 4]⟩], 0⟩

theorem pointwise_relu_exact : pointwise.SplitsExactly .random ∧
    SplitsInput .relu .random (reluLayer.dims.map factors) [1, 2, 4, 4] := by
  constructor
  · apply ((genSplit_exact_iff .random).1 pointwise).mpr
    exact ⟨by decide, by decide, fun _ => by decide, fun _ => rfl, fun _ => by decide,
      fun _ => by decide⟩
  · apply ((genSplit_exact_iff .random).2 reluLayer _ [] _ (by decide) rfl
      (by simp [Layer.Positive, reluLayer]) (by decide)).mpr
    exact limits_of_input rfl (by decide) (by decide) rfl

end Dse

import Lab447.Generator.Workload

/-!
The shapes of the tiles. The analysis cuts the shapes of a node's tensors; here is
what is left of them, and whether an input tile holds what its output tile is
computed from.
-/

namespace Generator

open Command

/-! ## Shapes -/

namespace Heap

variable {heap : Heap} {p q j k : Nat} {x : Int}

theorem shape_setDim : (heap.setDim p j x q).shape =
    if q = p then (heap p).shape.set j x else (heap q).shape := by
  unfold setDim modify
  split <;> rfl

theorem shape_setDim_self : (heap.setDim p j x p).shape = (heap p).shape.set j x := by
  rw [shape_setDim, if_pos rfl]

theorem shape_setDim_of_ne (h : q ≠ p) : (heap.setDim p j x q).shape = (heap q).shape := by
  rw [shape_setDim, if_neg h]

theorem shape_divide_self : (heap.divide p j k p).shape =
    (heap p).shape.set j (((heap p).shape.getD j 0).tdiv k) :=
  shape_setDim_self

theorem shape_divide_of_ne (h : q ≠ p) : (heap.divide p j k q).shape = (heap q).shape :=
  shape_setDim_of_ne h

end Heap

/-! ## Receptive fields -/

/-- The size of an output axis. -/
def outputSize (size pad kernel stride : Nat) : Nat := (size + 2 * pad - kernel) / stride + 1

/-- The rows of the input, without padding, from the first to the last one that the
outputs `[k * h, (k + 1) * h)` are computed from. -/
def receptiveField (size pad kernel stride h k : Nat) : Finset Nat :=
  (Finset.range size).filter fun x =>
    k * h * stride ≤ x + pad ∧ x + pad < k * h * stride + ((h - 1) * stride + kernel)

theorem card_receptiveField (size pad kernel stride h k : Nat) :
    (receptiveField size pad kernel stride h k).card =
      min size (k * h * stride + ((h - 1) * stride + kernel) - pad) - (k * h * stride - pad) := by
  have rows : receptiveField size pad kernel stride h k = Finset.Ico (k * h * stride - pad)
      (min size (k * h * stride + ((h - 1) * stride + kernel) - pad)) := by
    ext x
    simp only [receptiveField, Finset.mem_filter, Finset.mem_range, Finset.mem_Ico]
    omega
  rw [rows, Nat.card_Ico]

theorem card_receptiveField_le (size pad kernel stride h k : Nat) :
    (receptiveField size pad kernel stride h k).card ≤ size := by
  rw [card_receptiveField]
  omega

/-- `n` tiles, one every `S` rows and each of `T` rows with the padding, over
`size` rows that are padded on both sides, of which `rest` are not used. All tiles
can do without `pad` of their rows exactly when there is no padding, or two tiles
that use it up, or so much of it that every tile has `pad` rows of it. -/
theorem tiles_short_iff {size pad n S T rest : Nat} (many : 2 ≤ n) (move : rest < S)
    (total : size + 2 * pad = (n - 1) * S + T + rest) :
    (∀ k < n, ((min size (k * S + T - pad) - (k * S - pad) : Nat) : Int) ≤ (T : Int) - pad) ↔
      pad = 0 ∨ pad ≤ T ∧ (n = 2 ∧ rest = 0 ∨ rest + (n - 1) * S ≤ pad) := by
  constructor
  · intro h
    have second := h 1 (by omega)
    rw [Nat.one_mul] at second
    obtain rfl | more := eq_or_lt_of_le many
    · omega
    · have : 2 * S ≤ (n - 1) * S := Nat.mul_le_mul_right S (by omega)
      omega
  · intro h k hk
    have start : k = 0 ∨ S ≤ k * S := by
      obtain rfl | pos := Nat.eq_zero_or_pos k
      · exact .inl rfl
      · exact .inr (Nat.le_mul_of_pos_left S pos)
    obtain rfl | ⟨fits, ⟨rfl, rfl⟩ | much⟩ := h
    · omega
    · obtain rfl | low := start
      · omega
      · omega
    · omega

/-- The extent of the input tile along one axis, as the convolutions compute it. -/
def tileAxis (size pad kernel stride tiles : Nat) : Int :=
  if 1 < tiles then
    ((outputSize size pad kernel stride : Int).tdiv tiles - 1) * stride + kernel - pad
  else (size : Int).tdiv tiles

/-- The axis is not cut, or there is no padding; or it is cut in two and the kernel
stops at the end of the padding, or every tile lies in the padding with as many rows
as there are on one side. -/
def AxisCovered (size pad kernel stride tiles : Nat) : Prop :=
  let h := outputSize size pad kernel stride / tiles
  let rest := (size + 2 * pad - kernel) % stride
  tiles = 1 ∨ pad = 0 ∨ pad ≤ (h - 1) * stride + kernel ∧
    (tiles = 2 ∧ rest = 0 ∨ rest + (tiles - 1) * (h * stride) ≤ pad)

instance (size pad kernel stride tiles : Nat) :
    Decidable (AxisCovered size pad kernel stride tiles) :=
  inferInstanceAs (Decidable (_ ∨ _))

theorem tileAxis_iff {size pad kernel stride tiles : Nat} (step : 0 < stride)
    (fits : kernel ≤ size + 2 * pad) (dvd : tiles ∣ outputSize size pad kernel stride) :
    (∀ k < tiles, ((receptiveField size pad kernel stride
        (outputSize size pad kernel stride / tiles) k).card : Int) ≤
      tileAxis size pad kernel stride tiles) ↔ AxisCovered size pad kernel stride tiles := by
  have pos : 0 < tiles := Nat.pos_of_dvd_of_pos dvd (Nat.succ_pos _)
  unfold tileAxis AxisCovered
  obtain rfl | many := eq_or_lt_of_le (Nat.succ_le_of_lt pos)
  · have whole (k : Nat) := card_receptiveField_le size pad kernel stride
      (outputSize size pad kernel stride / 1) k
    simp only [Nat.lt_irrefl, if_false, true_or, iff_true]
    intro k _
    rw [Nat.cast_one, Int.tdiv_one]
    exact_mod_cast whole k
  · obtain ⟨h, hh⟩ := dvd
    have hpos : 0 < h := by
      have : 0 < outputSize size pad kernel stride := Nat.succ_pos _
      exact Nat.pos_of_mul_pos_left (hh ▸ this)
    have quotient : outputSize size pad kernel stride / tiles = h := by
      rw [hh, Nat.mul_div_cancel_left h pos]
    have tdiv : (outputSize size pad kernel stride : Int).tdiv tiles = h := by
      rw [hh, Nat.cast_mul, Int.mul_tdiv_cancel_left _ (by omega)]
    -- what the kernel does not reach at the end of the axis
    have total : size + 2 * pad = (tiles - 1) * (h * stride) + ((h - 1) * stride + kernel) +
        (size + 2 * pad - kernel) % stride := by
      have rows := Nat.div_add_mod' (size + 2 * pad - kernel) stride
      have outputs : (size + 2 * pad - kernel) / stride + 1 = tiles * h := hh
      have last : (tiles - 1) * (h * stride) + (h - 1) * stride =
          (size + 2 * pad - kernel) / stride * stride := by
        rw [← Nat.mul_assoc, ← Nat.add_mul]
        congr 1
        obtain ⟨m, rfl⟩ : ∃ m, tiles = m + 1 := ⟨tiles - 1, by omega⟩
        have grow : (m + 1) * h = m * h + h := Nat.succ_mul m h
        rw [Nat.add_sub_cancel]
        omega
      omega
    have move : (size + 2 * pad - kernel) % stride < h * stride :=
      lt_of_lt_of_le (Nat.mod_lt _ step) (Nat.le_mul_of_pos_left stride hpos)
    have window : (((h : Int) - 1) * stride + kernel : Int) =
        (((h - 1) * stride + kernel : Nat) : Int) := by
      push_cast [hpos]
      ring
    simp only [quotient, tdiv, if_pos many, card_receptiveField, Nat.mul_assoc, window]
    rw [tiles_short_iff many move total]
    have several : tiles ≠ 1 := by omega
    simp only [several, false_or]

/-! ## Convolutions -/

section

open Workload

/-- A convolution of an `H × W` input with an `r × s` kernel, over tensors of
its own. -/
structure IsConv (node : Node) (heap : Heap) (H W r s pad stride : Nat) : Prop where
  inputShape : ∃ n c : Int, (heap (input node 0)).shape = [n, c, H, W]
  weightShape : ∃ k c : Int, (heap (input node 1)).shape = [k, c, r, s]
  outputShape : ∃ n k : Int, (heap (output node)).shape =
    [n, k, outputSize H pad r stride, outputSize W pad s stride]
  pads : node.attribute 3 = pad
  strides : node.attribute 4 = stride
  step : 0 < stride
  height : r ≤ H + 2 * pad
  width : s ≤ W + 2 * pad
  input_ne_weight : input node 0 ≠ input node 1
  input_ne_output : input node 0 ≠ output node
  weight_ne_output : input node 1 ≠ output node

/-- The input tile has as many rows and columns as the receptive field of each of
the output tiles. -/
def HoldsFields (tile : Heap) (node : Node) (H W r s pad stride nh nw : Nat) : Prop :=
  (∀ k < nh, ((receptiveField H pad r stride (outputSize H pad r stride / nh) k).card : Int) ≤
    tile.dim (input node 0) 2) ∧
  ∀ k < nw, ((receptiveField W pad s stride (outputSize W pad s stride / nw) k).card : Int) ≤
    tile.dim (input node 0) 3

variable {node : Node} {heap : Heap} {strategy : Strategy} {H W r s pad stride : Nat}

theorem IsConv.shape_convTiles (conv : IsConv node heap H W r s pad stride)
    (strategy : Strategy) :
    ∃ n c : Int, (convTiles node strategy heap (input node 0)).shape =
      [n, c, tileAxis H pad r stride (strategy.split 0 2),
        tileAxis W pad s stride (strategy.split 0 3)] := by
  obtain ⟨n, c, hin⟩ := conv.inputShape
  obtain ⟨k, c', hweight⟩ := conv.weightShape
  obtain ⟨n', k', hout⟩ := conv.outputShape
  have iw := conv.input_ne_weight
  have io := conv.input_ne_output
  have wo := conv.weight_ne_output
  refine ⟨n, c.tdiv (strategy.split 0 1), ?_⟩
  unfold convTiles tileAxis
  have range : List.range 4 = [0, 1, 2, 3] := rfl
  simp only [block_cons, block_nil, range, each_cons, each_nil, onlyIf, conv.pads, conv.strides,
    Heap.dim]
  split <;> split <;>
    simp [Heap.shape_divide_self, Heap.shape_divide_of_ne, Heap.shape_setDim_self,
      Heap.shape_setDim_of_ne, iw, io, wo, iw.symm, io.symm, hin, hweight, hout]

/-- Cutting the first dimension of a tensor changes no other one. -/
theorem dim_divide_first {p q k j : Nat} (h : j ≠ 0) :
    (heap.divide p 0 k).dim q j = heap.dim q j := by
  unfold Heap.dim
  by_cases hq : q = p
  · subst hq
    rw [Heap.shape_divide_self]
    simp [List.getD_eq_getElem?_getD, Ne.symm h]
  · rw [Heap.shape_divide_of_ne hq]

theorem dim_convSplit {q j : Nat} (h : j ≠ 0) :
    (convSplit node strategy heap).dim q j = (convTiles node strategy heap).dim q j := by
  unfold convSplit
  simp only [block_cons, block_nil, onlyIf]
  split
  · exact dim_divide_first h
  · rfl

theorem dim_splitFrom {first q j : Nat} (h : j ≠ 0) :
    (splitFrom node strategy first heap).dim q j = heap.dim q j := by
  have keeps : Keeps (fun after : Heap => after.dim q j = heap.dim q j)
      (splitFrom node strategy first) :=
    .onlyIf _ fun _ => .each fun _ _ after same => (dim_divide_first h).trans same
  exact keeps heap rfl

theorem dim_convBatchnormSplit {q j : Nat} (h : j ≠ 0) :
    (convBatchnormSplit node strategy heap).dim q j = (convTiles node strategy heap).dim q j := by
  unfold convBatchnormSplit
  split
  · simp only [block_cons, block_nil]
    rw [dim_splitFrom h, dim_divide_first h]
  · exact dim_splitFrom h

/-- The input tiles of a convolution, alone or fused with a batch normalisation,
hold the receptive fields of all output tiles exactly when both axes do. -/
theorem conv_tiles_iff (node : Node) (heap : Heap) (strategy : Strategy)
    (H W r s pad stride nh nw : Nat) (conv : IsConv node heap H W r s pad stride)
    (rows : strategy.split 0 2 = nh) (columns : strategy.split 0 3 = nw)
    (rows_dvd : nh ∣ outputSize H pad r stride) (columns_dvd : nw ∣ outputSize W pad s stride) :
    (HoldsFields (convSplit node strategy heap) node H W r s pad stride nh nw ↔
      AxisCovered H pad r stride nh ∧ AxisCovered W pad s stride nw) ∧
    (HoldsFields (convBatchnormSplit node strategy heap) node H W r s pad stride nh nw ↔
      AxisCovered H pad r stride nh ∧ AxisCovered W pad s stride nw) := by
  obtain ⟨n, c, shape⟩ := conv.shape_convTiles strategy
  rw [rows, columns] at shape
  have height : (convTiles node strategy heap).dim (input node 0) 2 =
      tileAxis H pad r stride nh := by
    rw [Heap.dim, shape]
    rfl
  have width : (convTiles node strategy heap).dim (input node 0) 3 =
      tileAxis W pad s stride nw := by
    rw [Heap.dim, shape]
    rfl
  have axes := and_congr (tileAxis_iff conv.step conv.height rows_dvd)
    (tileAxis_iff conv.step conv.width columns_dvd)
  unfold HoldsFields
  rw [dim_convSplit (by decide), dim_convSplit (by decide), dim_convBatchnormSplit (by decide),
    dim_convBatchnormSplit (by decide), height, width]
  exact ⟨axes, axes⟩

/-- A 3 × 3 convolution with padding 1, of a `12 × 12` input. -/
def paddedConv : Node := ⟨.conv, [0, 1], [2], [[], [], [], [1], [1]], []⟩

def paddedConvHeap : Heap := fun p =>
  ⟨if p = 1 then [1, 1, 3, 3] else [1, 1, 12, 12], 0, 0, 0⟩

theorem paddedConv_isConv : IsConv paddedConv paddedConvHeap 12 12 3 3 1 1 where
  inputShape := ⟨1, 1, rfl⟩
  weightShape := ⟨1, 1, rfl⟩
  outputShape := ⟨1, 1, rfl⟩
  pads := rfl
  strides := rfl
  step := by decide
  height := by decide
  width := by decide
  input_ne_weight := by decide
  input_ne_output := by decide
  weight_ne_output := by decide

theorem conv_tiles_halves : HoldsFields
    (convSplit paddedConv ⟨[[1, 1, 2, 1], [1, 1, 1, 1]], .weight⟩ paddedConvHeap) paddedConv
      12 12 3 3 1 1 2 1 := by
  apply (conv_tiles_iff paddedConv paddedConvHeap ⟨[[1, 1, 2, 1], [1, 1, 1, 1]], .weight⟩
    12 12 3 3 1 1 2 1 paddedConv_isConv rfl rfl (by decide) (by decide)).1.mpr
  decide

/-- The second of three tiles of four rows needs six, and the tile has five. -/
theorem conv_tiles_thirds_short : IsConv paddedConv paddedConvHeap 12 12 3 3 1 1 ∧
    ¬ HoldsFields (convSplit paddedConv ⟨[[1, 1, 3, 1], [1, 1, 1, 1]], .weight⟩ paddedConvHeap)
      paddedConv 12 12 3 3 1 1 3 1 ∧
    ¬ HoldsFields
      (convBatchnormSplit paddedConv ⟨[[1, 1, 3, 1], [1, 1, 1, 1]], .weight⟩ paddedConvHeap)
      paddedConv 12 12 3 3 1 1 3 1 := by
  refine ⟨paddedConv_isConv, fun h => ?_, fun h => ?_⟩
  · exact absurd (h.1 1 (by decide)) (by decide)
  · exact absurd (h.1 1 (by decide)) (by decide)

/-! ## Pooling -/

/-- A pooling node with an `H × W` output, over tensors of its own. -/
structure IsPool (node : Node) (heap : Heap) (C H W kernel stride : Nat) : Prop where
  inputShape : ∃ n h w : Int, (heap (input node 0)).shape = [n, C, h, w]
  outputShape : ∃ n : Int, (heap (output node)).shape = [n, C, H, W]
  kernels : node.attribute 0 = kernel
  strides : node.attribute 2 = stride
  step : 0 < stride
  input_ne_output : input node 0 ≠ output node

/-- The input tile has the rows, columns and channels of the windows of its output
tile. -/
def HoldsWindows (tile : Heap) (node : Node) (C H W kernel stride c nh nw : Nat) : Prop :=
  ((H / nh : Nat) - 1 : Int) * stride + kernel ≤ tile.dim (input node 0) 2 ∧
  ((W / nw : Nat) - 1 : Int) * stride + kernel ≤ tile.dim (input node 0) 3 ∧
  tile.dim (input node 0) 1 = (C / c : Nat)

theorem IsPool.shape_maxPoolSplit {C H W kernel stride : Nat}
    (pool : IsPool node heap C H W kernel stride) (strategy : Strategy) :
    ∃ n : Int, (maxPoolSplit node strategy heap (input node 0)).shape =
      [n, (C / strategy.split 0 1 : Nat),
        ((H / strategy.split 0 2 : Nat) - 1 : Int) * stride + kernel,
        ((H / strategy.split 0 2 : Nat) - 1 : Int) * stride + kernel] := by
  obtain ⟨n, h, w, hin⟩ := pool.inputShape
  obtain ⟨n', hout⟩ := pool.outputShape
  have io := pool.input_ne_output
  unfold maxPoolSplit
  simp [Heap.shape_divide_self, Heap.shape_divide_of_ne, Heap.shape_setDim_self, io, io.symm,
    Heap.dim, pool.kernels, pool.strides, hin, hout]

/-- An input tile of a maximum pooling holds the windows of its output tile exactly
when the output tile is not wider than it is high. -/
theorem maxpool_tiles_iff (node : Node) (heap : Heap) (strategy : Strategy)
    (C H W kernel stride c nh nw : Nat) (pool : IsPool node heap C H W kernel stride)
    (split : strategy.splitSize = [[1, c, nh, nw]]) :
    HoldsWindows (maxPoolSplit node strategy heap) node C H W kernel stride c nh nw ↔
      W / nw ≤ H / nh := by
  obtain ⟨n, shape⟩ := pool.shape_maxPoolSplit strategy
  have factors : strategy.split 0 1 = c ∧ strategy.split 0 2 = nh := by
    simp [Strategy.split, split]
  rw [factors.1, factors.2] at shape
  have step : (0 : Int) < stride := by exact_mod_cast pool.step
  simp only [HoldsWindows, Heap.dim, shape, List.getD_cons_succ, List.getD_cons_zero, le_refl,
    true_and, and_true, add_le_add_iff_right]
  rw [mul_le_mul_iff_left₀ step]
  omega

/-- A `2 × 2` pooling with stride 2 to a `4 × 8` output. -/
def widePool : Node := ⟨.maxpool, [0], [1], [[2], [0], [2]], []⟩

def widePoolHeap : Heap := fun p => ⟨if p = 0 then [1, 2, 8, 16] else [1, 2, 4, 8], 0, 0, 0⟩

theorem widePool_isPool : IsPool widePool widePoolHeap 2 4 8 2 2 where
  inputShape := ⟨1, 8, 16, rfl⟩
  outputShape := ⟨1, rfl⟩
  kernels := rfl
  strides := rfl
  step := by decide
  input_ne_output := by decide

theorem maxpool_tiles_square :
    HoldsWindows (maxPoolSplit widePool ⟨[[1, 2, 2, 4]], .output⟩ widePoolHeap) widePool
      2 4 8 2 2 2 2 4 :=
  (maxpool_tiles_iff widePool widePoolHeap ⟨[[1, 2, 2, 4]], .output⟩ 2 4 8 2 2 2 2 4
    widePool_isPool rfl).mpr (by decide)

/-- Without a split the input tile is `8 × 8`, and the windows are 16 columns wide. -/
theorem maxpool_tiles_narrow : IsPool widePool widePoolHeap 2 4 8 2 2 ∧
    ¬ HoldsWindows (maxPoolSplit widePool ⟨[[1, 1, 1, 1]], .output⟩ widePoolHeap) widePool
      2 4 8 2 2 1 1 1 :=
  ⟨widePool_isPool, fun h => absurd h.2.1 (by decide)⟩

/-! ## Work -/

theorem computeSize_apply (p : Nat) : computeSize node heap p =
    if p ∈ node.inputs ++ node.outputs then { heap p with size := heap.elements p * 4 }
    else heap p := by
  unfold computeSize
  generalize node.inputs ++ node.outputs = ps
  induction ps generalizing heap with
  | nil => rfl
  | cons q ps ih =>
    rw [each_cons, ih]
    by_cases hq : p = q
    · subst hq
      simp [Heap.setSize, Heap.modify, Heap.elements]
    · simp [Heap.setSize, Heap.modify, Heap.elements, hq]

theorem planElementWise_work {numPE a b c d : Nat} {p : Nat}
    (split : strategy.splitSize = [[a, b, c, d]]) (out : node.outputs = [p]) :
    (planElementWise numPE strategy node heap).generator.numSubgraph *
        ((planElementWise numPE strategy node heap).heap
          ((planElementWise numPE strategy node heap).generator.splitNode.pointer .output)).size =
      (a * b * c * d : Nat) * (heap.elements p * 4) := by
  have pointer : node.pointer .output = p := by simp [Node.pointer, out]
  simp only [planElementWise, getNumSubgraph, split, pointer, computeSize_apply, out]
  simp [mul_assoc]

/-- A Relu, maximum pooling or global average pooling of an `n × k × h × w` input to
an `h' × w'` output. -/
structure IsElementWise (node : Node) (heap : Heap) (n k h w h' w' : Nat) : Prop where
  op : node.op = .relu ∨ node.op = .maxpool ∨ node.op = .avgpool
  inputs : ∃ p, node.inputs = [p] ∧ (heap p).shape = [(n : Int), k, h, w]
  outputs : ∃ q, node.outputs = [q] ∧ (heap q).shape = [(n : Int), k, h', w']
  positive : 0 < n * k * h' * w'
  relu : node.op = .relu → h' = h ∧ w' = w
  pools : node.op ≠ .relu → node.inputs ≠ node.outputs
  global : node.op = .avgpool → h' = 1 ∧ w' = 1

/-- The tiles of the plan add up to the output tensor. -/
def ConservesWork (numPE : Nat) (node : Node) (strategy : Strategy) (heap : Heap) : Prop :=
  ∀ p, plan numPE node strategy heap = some p →
    p.generator.numSubgraph * (p.heap (p.generator.splitNode.pointer .output)).size =
      4 * heap.elements (output node)

/-- The dimensions that the split of the operator leaves whole are not split. -/
def SplitsOwnDims (node : Node) (n h w : Nat) : Prop :=
  match node.op with
  | .maxpool => n = 1
  | .avgpool => n = 1 ∧ h = 1 ∧ w = 1
  | _ => True

variable {numPE a b c d n k h w h' w' : Nat}

theorem elements_eq {p : Nat} {x y z u : Nat} (h : (heap p).shape = [(x : Int), y, z, u]) :
    heap.elements p = (x * y * z * u : Nat) := by
  simp [Heap.elements, h]

/-- `tiles` tiles of the given parts of each dimension. A tile is counted once more
for every factor that divides no dimension. -/
theorem work_eq {tiles lost a b c d x y z u : Nat} (count : tiles = lost * (a * b * c * d))
    (ha : a ∣ x) (hb : b ∣ y) (hc : c ∣ z) (hd : d ∣ u) :
    tiles * (x / a * (y / b) * (z / c) * (u / d) * 4) = lost * (4 * (x * y * z * u)) := by
  calc tiles * (x / a * (y / b) * (z / c) * (u / d) * 4)
      = lost * (4 * (a * (x / a) * (b * (y / b)) * (c * (z / c)) * (d * (u / d)))) := by
        rw [count]
        ring
    _ = lost * (4 * (x * y * z * u)) := by
      rw [Nat.mul_div_cancel' ha, Nat.mul_div_cancel' hb, Nat.mul_div_cancel' hc,
        Nat.mul_div_cancel' hd]

/-- A plan whose tiles are cut by these factors conserves work exactly when no factor
of the strategy is lost. -/
theorem conserves_iff {node' : Node} {heap' : Heap} {q lost a' b' c' d' : Nat}
    (planned : plan numPE node strategy heap =
      some (planElementWise numPE strategy node' heap'))
    (split : strategy.splitSize = [[a, b, c, d]]) (outs : node'.outputs = [q])
    (tile : (heap' q).shape = [((n / a' : Nat) : Int), (k / b' : Nat), (h' / c' : Nat),
      (w' / d' : Nat)])
    (whole : (heap (output node)).shape = [(n : Int), k, h', w'])
    (count : a * b * c * d = lost * (a' * b' * c' * d'))
    (dvd : a' ∣ n ∧ b' ∣ k ∧ c' ∣ h' ∧ d' ∣ w') (pos : 0 < n * k * h' * w') :
    ConservesWork numPE node strategy heap ↔ lost = 1 := by
  have work := work_eq count dvd.1 dvd.2.1 dvd.2.2.1 dvd.2.2.2
  simp only [ConservesWork, planned, Option.some.injEq, forall_eq']
  rw [planElementWise_work split outs, elements_eq tile, elements_eq whole]
  norm_cast
  rw [work, Nat.mul_eq_right (by omega)]

/-- A global average pooling of four channels of `7 × 7`. -/
def globalPool : Node := ⟨.avgpool, [0], [1], [], []⟩

def globalPoolHeap : Heap := fun p => ⟨if p = 0 then [1, 4, 7, 7] else [1, 4, 1, 1], 0, 0, 0⟩

theorem globalPool_isElementWise : IsElementWise globalPool globalPoolHeap 1 4 7 7 1 1 where
  op := by decide
  inputs := ⟨0, rfl, rfl⟩
  outputs := ⟨1, rfl, rfl⟩
  positive := by decide
  relu := by decide
  pools := by decide
  global := by decide

end

end Generator

import Lab447.Dse.Space

/-!
The marking of fused layers (`onnx_parser/src/fuse.py`). A convolution is marked
with the length of the group it starts, 3 or 2, or with 0.
-/

namespace Dse

open Command

/-- `data[k]['op_type']` -/
def opAt (data : List Layer) (k : Nat) : Option OpType := data[k]?.map Layer.opType

/-- The mark of layer `i`. A group is only looked for where three layers are left. -/
def fuseAt (data : List Layer) (i : Nat) : Nat :=
  if opAt data i = some .conv then
    if i + 1 < data.length ∧ i + 2 < data.length then
      if opAt data (i + 1) = some .batchNormalization ∧ opAt data (i + 2) = some .relu then 3
      else if opAt data (i + 1) = some .batchNormalization then 2
      else if opAt data (i + 1) = some .relu then 2
      else 0
    else 0
  else 0

/-- `data[i]['fuse'] = ...` -/
def setFuse (i : Nat) (data : List Layer) : List Layer :=
  data.modify i fun layer => { layer with fuse := fuseAt data i }

def fuse (data : List Layer) : List Layer := each (List.range data.length) setFuse data

/-! ## The marks -/

variable {data : List Layer} {i : Nat}

theorem getElem?_setFuse (data : List Layer) (j k : Nat) : (setFuse j data)[k]? =
    data[k]?.map fun layer => if j = k then { layer with fuse := fuseAt data j } else layer :=
  List.getElem?_modify ..

theorem opAt_setFuse (data : List Layer) (j k : Nat) : opAt (setFuse j data) k = opAt data k := by
  rw [opAt, getElem?_setFuse, Option.map_map]
  split <;> rfl

theorem length_setFuse (data : List Layer) (j : Nat) : (setFuse j data).length = data.length :=
  List.length_modify ..

theorem fuseAt_setFuse (data : List Layer) (j : Nat) : fuseAt (setFuse j data) = fuseAt data := by
  funext i
  simp only [fuseAt, opAt_setFuse, length_setFuse]

/-- Every layer gets its mark; the marks are not read, so their order is immaterial. -/
theorem getElem?_fuse (data : List Layer) (i : Nat) :
    (fuse data)[i]? = data[i]?.map fun layer => { layer with fuse := fuseAt data i } := by
  have loop (is : List Nat) (data : List Layer) : (each is setFuse data)[i]? =
      data[i]?.map fun layer => if i ∈ is then { layer with fuse := fuseAt data i } else layer := by
    induction is generalizing data with
    | nil => simp
    | cons j is ih =>
      rw [each_cons, ih, fuseAt_setFuse, getElem?_setFuse, Option.map_map]
      refine congrArg (data[i]?.map ·) (funext fun layer => ?_)
      simp only [Function.comp]
      by_cases here : j = i
      · subst here
        rw [if_pos rfl, if_pos List.mem_cons_self, ite_self]
      · rw [if_neg here]
        exact if_congr (by simp [Ne.symm here]) rfl rfl
  rw [fuse, loop]
  cases h : data[i]? with
  | none => rfl
  | some layer =>
    obtain ⟨inside, -⟩ := List.getElem?_eq_some_iff.mp h
    rw [Option.map_some, Option.map_some, if_pos (List.mem_range.mpr inside)]

theorem length_fuse (data : List Layer) : (fuse data).length = data.length := by
  have loop (is : List Nat) (data : List Layer) : (each is setFuse data).length = data.length := by
    induction is generalizing data with
    | nil => rfl
    | cons j is ih => rw [each_cons, ih, length_setFuse]
  exact loop _ data

/-! ## The groups -/

/-- Layers `i`, `i + 1` and `i + 2` can be fused. -/
def Triple (data : List Layer) (i : Nat) : Prop :=
  opAt data i = some .conv ∧ opAt data (i + 1) = some .batchNormalization ∧
    opAt data (i + 2) = some .relu

/-- Layers `i` and `i + 1` can be fused. -/
def Pair (data : List Layer) (i : Nat) : Prop :=
  opAt data i = some .conv ∧
    (opAt data (i + 1) = some .batchNormalization ∨ opAt data (i + 1) = some .relu)

/-- Every mark is the length of the longest group that starts at its layer, and
the groups are inside the model and apart from each other. -/
structure MarksGroups (data marked : List Layer) : Prop where
  three : ∀ i layer, marked[i]? = some layer → (layer.fuse = 3 ↔ Triple data i)
  two : ∀ i layer, marked[i]? = some layer → (layer.fuse = 2 ↔ Pair data i ∧ ¬Triple data i)
  zero : ∀ i layer, marked[i]? = some layer → (layer.fuse = 0 ↔ ¬Pair data i ∧ ¬Triple data i)
  inside : ∀ i layer, marked[i]? = some layer → i + layer.fuse ≤ marked.length
  apart : ∀ i j (a b : Layer), marked[i]? = some a → marked[j]? = some b → i ≠ j →
    Disjoint (Finset.Ico i (i + a.fuse)) (Finset.Ico j (j + b.fuse))

theorem lt_length_of_opAt {op : OpType} (h : opAt data i = some op) : i < data.length := by
  obtain ⟨layer, hl, -⟩ := Option.map_eq_some_iff.mp h
  exact (List.getElem?_eq_some_iff.mp hl).1

/-- The marks in terms of the groups, except for a pair at the end. -/
theorem fuseAt_eq (data : List Layer) (i : Nat) [Decidable (Triple data i)] [Decidable (Pair data i)] :
    fuseAt data i = if Triple data i then 3 else if Pair data i ∧ i + 2 < data.length then 2 else 0 := by
  unfold fuseAt
  by_cases conv : opAt data i = some .conv
  · by_cases room : i + 1 < data.length ∧ i + 2 < data.length
    · simp only [conv, room, Triple, Pair, true_and, and_true, if_true]
      split
      · rfl
      · split
        · rename_i h
          rw [if_pos (.inl h)]
        · rename_i none
          simp only [none, false_or]
    · have short : ¬i + 2 < data.length := by omega
      have none : ¬Triple data i := fun h => short (lt_length_of_opAt h.2.2)
      rw [if_pos conv, if_neg room, if_neg none, if_neg fun h => short h.2]
  · rw [if_neg conv, if_neg fun h => conv h.1, if_neg fun h => conv h.1.1]

/-- Inside a group only its first layer is a convolution. -/
theorem opAt_inside_group {k : Nat} (low : i < k) (high : k < i + fuseAt data i) :
    opAt data k ≠ some .conv := by
  classical
  rw [fuseAt_eq] at high
  split at high
  · rename_i h
    obtain rfl | rfl : k = i + 1 ∨ k = i + 2 := by omega
    · rw [h.2.1]
      decide
    · rw [h.2.2]
      decide
  · split at high
    · rename_i h
      obtain rfl : k = i + 1 := by omega
      obtain second | second := h.1.2
      · rw [second]
        decide
      · rw [second]
        decide
    · omega

theorem conv_of_group (h : 0 < fuseAt data i) : opAt data i = some .conv := by
  classical
  rw [fuseAt_eq] at h
  split at h
  · rename_i t
    exact t.1
  · split at h
    · rename_i p
      exact p.1.1
    · omega

theorem group_inside (inside : i < data.length) : i + fuseAt data i ≤ data.length := by
  classical
  rw [fuseAt_eq]
  split
  · rename_i h
    have := lt_length_of_opAt h.2.2
    omega
  · split
    · omega
    · omega

theorem groups_apart {j : Nat} (ne : i ≠ j) :
    Disjoint (Finset.Ico i (i + fuseAt data i)) (Finset.Ico j (j + fuseAt data j)) := by
  rw [Finset.disjoint_left]
  intro k hi hj
  rw [Finset.mem_Ico] at hi hj
  -- the group that starts first would hold the convolution of the other
  obtain before | after := Nat.lt_or_gt_of_ne ne
  · have first : opAt data j = some .conv := conv_of_group (by omega)
    exact opAt_inside_group before (by omega) first
  · have first : opAt data i = some .conv := conv_of_group (by omega)
    exact opAt_inside_group after (by omega) first

/-- The layers at the end that can be fused but are not. -/
def PairAtEnd (data : List Layer) : Prop := ∃ i, i + 2 = data.length ∧ Pair data i

theorem fuse_of_getElem? {layer : Layer} (h : (fuse data)[i]? = some layer) :
    layer.fuse = fuseAt data i ∧ i < data.length := by
  rw [getElem?_fuse] at h
  obtain ⟨original, there, rfl⟩ := Option.map_eq_some_iff.mp h
  exact ⟨rfl, (List.getElem?_eq_some_iff.mp there).1⟩

/-- Without a pair at the end, every mark is the length of the longest group. -/
theorem fuseAt_iff (whole : ¬PairAtEnd data) (i : Nat) :
    (fuseAt data i = 3 ↔ Triple data i) ∧ (fuseAt data i = 2 ↔ Pair data i ∧ ¬Triple data i) ∧
      (fuseAt data i = 0 ↔ ¬Pair data i ∧ ¬Triple data i) := by
  classical
  have room (pair : Pair data i) : i + 2 < data.length := by
    have notLast : i + 2 ≠ data.length := fun h => whole ⟨i, h, pair⟩
    have second : i + 1 < data.length := pair.2.elim lt_length_of_opAt lt_length_of_opAt
    omega
  rw [fuseAt_eq]
  by_cases triple : Triple data i
  · simp [triple]
  · by_cases pair : Pair data i
    · simp [triple, pair, room pair]
    · simp [triple, pair]

/-- The marks are the longest groups exactly when the model does not end in a group
of two. -/
theorem fuse_marksGroups_iff (data : List Layer) :
    MarksGroups data (fuse data) ↔ ¬PairAtEnd data := by
  classical
  constructor
  · rintro marks ⟨i, last, pair⟩
    have inside := lt_length_of_opAt pair.1
    have triple : ¬Triple data i := fun h => by
      have := lt_length_of_opAt h.2.2
      omega
    have here : (fuse data)[i]? = some { data[i] with fuse := fuseAt data i } := by
      rw [getElem?_fuse, List.getElem?_eq_getElem inside]
      rfl
    have two := (marks.two i _ here).mpr ⟨pair, triple⟩
    rw [(fuse_of_getElem? here).1, fuseAt_eq, if_neg triple, if_neg (by omega)] at two
    omega
  · intro whole
    constructor
    · intro i layer h
      rw [(fuse_of_getElem? h).1]
      exact (fuseAt_iff whole i).1
    · intro i layer h
      rw [(fuse_of_getElem? h).1]
      exact (fuseAt_iff whole i).2.1
    · intro i layer h
      rw [(fuse_of_getElem? h).1]
      exact (fuseAt_iff whole i).2.2
    · intro i layer h
      obtain ⟨eq, inside⟩ := fuse_of_getElem? h
      rw [eq, length_fuse]
      exact group_inside inside
    · intro i j a b ha hb ne
      rw [(fuse_of_getElem? ha).1, (fuse_of_getElem? hb).1]
      exact groups_apart ne

/-- A convolution with a Relu behind it, as the whole model. -/
def convRelu : List Layer := [⟨.conv, [], 0⟩, ⟨.relu, [], 0⟩]

theorem convRelu_unmarked :
    (fuse convRelu).map Layer.fuse = [0, 0] ∧ ¬MarksGroups convRelu (fuse convRelu) := by
  refine ⟨by decide, fun marks => ?_⟩
  have two := (marks.two 0 ⟨.conv, [], 0⟩ (by decide)).mpr ⟨by unfold Pair; decide, by unfold Triple; decide⟩
  exact absurd two (by decide)

end Dse

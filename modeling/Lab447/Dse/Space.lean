import Lab447.Lib.Command
import Lab447.Lib.Script

/-!
The software design space of `DSE/design_space.py`. The factors a dimension can
be split by come from a table of all ways to write a number as a product, filled
level by level; a design point lists them for the dimensions of a layer.
-/

namespace Dse

open Command

/-! ## Layers -/

/-- `op_type`; the five operators that can be searched, and any other. -/
inductive OpType where
  | conv
  | batchNormalization
  | relu
  | globalAveragePool
  | maxPool
  | other (name : String)
  deriving DecidableEq, Repr

structure TensorInfo where
  name : String
  shape : List Nat
  deriving DecidableEq, Repr

/-- A layer of the model file. -/
structure Layer where
  opType : OpType
  inputTensor : List TensorInfo
  fuse : Nat
  deriving DecidableEq, Repr

/-- `layer_type in ["Conv", ...]` -/
def OpType.supported : OpType → Bool
  | other _ => false
  | _ => true

/-! ## The table of factorisations -/

/-- `dp` of `_get_all_combinations`: row `i` holds the combinations of `i` factors. -/
abbrev Table := Nat → Nat → List (List Nat)

/-- `dp[i][v].append(combination)` -/
def Table.append (i v : Nat) (combination : List Nat) (dp : Table) : Table :=
  fun i' v' => if i' = i ∧ v' = v then dp i v ++ [combination] else dp i' v'

/-- `range(a, b)` -/
def range (a b : Nat) : List Nat := List.range' a (b - a)

/-- The combinations of `v` that end in `pv`. -/
def extend (i v pv : Nat) (dp : Table) : Table :=
  each (dp (i - 1) (v / pv)) (fun prev => Table.append i v (prev ++ [pv])) dp

def fillCell (i v : Nat) : Table → Table :=
  each (range 1 (v + 1)) fun pv => onlyIf (v % pv = 0) (extend i v pv)

def fillRow (V i : Nat) : Table → Table := each (range 1 (V + 1)) (fillCell i)

def fillTable (n V : Nat) : Table :=
  block [
    each (range 1 (V + 1)) fun v => Table.append 1 v [v],
    each (range 2 (n + 1)) (fillRow V)] fun _ _ => []

/-- `_get_all_combinations(n, V)`: the combinations and their number. -/
def getAllCombinations (n V : Nat) : List (List Nat) × Nat :=
  let dp := fillTable n V
  (dp n V, (dp n V).length)

/-! ## What the table holds -/

theorem mem_range {a b x : Nat} : x ∈ range a b ↔ a ≤ x ∧ x < b := by
  rw [range, List.mem_range'_1]
  omega

theorem nodup_range (a b : Nat) : (range a b).Nodup := List.nodup_range'

/-- The factors of `v` that the innermost loop finds. -/
def factors (v : Nat) : List Nat := (range 1 (v + 1)).filter fun pv => v % pv = 0

variable {v : Nat}

theorem mem_factors {pv : Nat} (pos : 0 < v) : pv ∈ factors v ↔ pv ∣ v := by
  rw [factors, List.mem_filter, mem_range, decide_eq_true_eq, ← Nat.dvd_iff_mod_eq_zero]
  constructor
  · exact fun h => h.2
  · intro h
    exact ⟨⟨Nat.pos_of_dvd_of_pos h pos, Nat.lt_succ_of_le (Nat.le_of_dvd pos h)⟩, h⟩

/-- The combinations of `v` over a row of shorter ones. -/
def longer (row : Nat → List (List Nat)) (v : Nat) : List (List Nat) :=
  (factors v).flatMap fun pv => (row (v / pv)).map (· ++ [pv])

/-- The combinations of `n` factors, in the order in which they are found. -/
def combinations : Nat → Nat → List (List Nat)
  | 0, _ => []
  | 1, v => [[v]]
  | n + 2, v => longer (combinations (n + 1)) v

/-- The table with `found` added to one cell. -/
def Table.added (i v : Nat) (found : List (List Nat)) (dp : Table) : Table :=
  fun i' v' => if i' = i ∧ v' = v then dp i v ++ found else dp i' v'

namespace Table

variable {dp : Table} {i v : Nat}

theorem added_nil : added i v [] dp = dp := by
  funext i' v'
  rw [added, List.append_nil]
  split
  · rename_i here
    rw [here.1, here.2]
  · rfl

theorem added_added (xs ys : List (List Nat)) :
    added i v ys (added i v xs dp) = added i v (xs ++ ys) dp := by
  funext i' v'
  simp only [added]
  split
  · simp
  · rfl

theorem added_here (xs : List (List Nat)) : added i v xs dp i v = dp i v ++ xs :=
  if_pos ⟨rfl, rfl⟩

theorem added_above (xs : List (List Nat)) {i' : Nat} (ne : i' ≠ i) (v' : Nat) :
    added i v xs dp i' v' = dp i' v' :=
  if_neg fun h => ne h.1

theorem added_beside (xs : List (List Nat)) {v' : Nat} (ne : v' ≠ v) :
    added i v xs dp i v' = dp i v' :=
  if_neg fun h => ne h.2

theorem each_append_eq (xs : List (List Nat)) (f : List Nat → List Nat) (dp : Table) :
    each xs (fun x => append i v (f x)) dp = added i v (xs.map f) dp := by
  induction xs generalizing dp with
  | nil => exact added_nil.symm
  | cons x xs ih =>
    rw [each_cons, ih]
    exact added_added [f x] (xs.map f)

end Table

theorem extend_eq (i v pv : Nat) (dp : Table) :
    extend i v pv dp = dp.added i v ((dp (i - 1) (v / pv)).map (· ++ [pv])) :=
  Table.each_append_eq _ _ _

/-- Filling a cell reads the row above it only. -/
theorem fillCell_eq {i : Nat} (pos : 0 < i) (v : Nat) (dp : Table) :
    fillCell i v dp = dp.added i v (longer (dp (i - 1)) v) := by
  have loop (pvs : List Nat) (dp : Table) :
      each pvs (fun pv => onlyIf (v % pv = 0) (extend i v pv)) dp =
        dp.added i v ((pvs.filter fun pv => v % pv = 0).flatMap
          fun pv => (dp (i - 1) (v / pv)).map (· ++ [pv])) := by
    induction pvs generalizing dp with
    | nil => exact Table.added_nil.symm
    | cons pv pvs ih =>
      rw [each_cons, onlyIf, List.filter_cons]
      by_cases divides : v % pv = 0
      · -- the row that is read stays as it is
        have above : (extend i v pv dp) (i - 1) = dp (i - 1) := by
          funext v'
          rw [extend_eq, Table.added_above _ (by omega)]
        rw [if_pos divides, if_pos (decide_eq_true divides), ih, above, extend_eq,
          Table.added_added, List.flatMap_cons]
      · rw [if_neg divides, if_neg (by simpa using divides), ih]
  exact loop _ dp

/-- A loop that fills cells of one row, each from the other rows. -/
theorem each_cells {i : Nat} {c : Nat → Table → Table} (found : Table → Nat → List (List Nat))
    (fills : ∀ v dp, c v dp = dp.added i v (found dp v))
    (others : ∀ u xs v (dp : Table), found (dp.added i u xs) v = found dp v)
    {vs : List Nat} (nodup : vs.Nodup) (dp : Table) (i' v : Nat) :
    each vs c dp i' v = if i' = i ∧ v ∈ vs then dp i v ++ found dp v else dp i' v := by
  induction vs generalizing dp with
  | nil => simp
  | cons u vs ih =>
    obtain ⟨fresh, nodup⟩ := List.nodup_cons.mp nodup
    rw [each_cons, fills, ih nodup, others]
    by_cases row : i' = i
    · subst row
      by_cases here : v = u
      · subst here
        rw [if_neg fun h => fresh h.2, if_pos ⟨rfl, List.mem_cons_self⟩, Table.added_here]
      · rw [Table.added_beside _ here]
        exact if_congr (by simp [here]) rfl rfl
    · rw [if_neg fun h => row h.1, if_neg fun h => row h.1, Table.added_above _ row]

theorem firstRow_eq (V i v : Nat) :
    each (range 1 (V + 1)) (fun v => Table.append 1 v [v]) (fun _ _ => []) i v =
      if i = 1 ∧ v ∈ range 1 (V + 1) then [[v]] else [] :=
  each_cells (fun _ v => [[v]]) (fun _ _ => rfl) (fun _ _ _ _ => rfl) (nodup_range _ _) _ i v

theorem fillRow_eq (V i : Nat) (dp : Table) (i' v : Nat) :
    fillRow V (i + 1) dp i' v =
      if i' = i + 1 ∧ v ∈ range 1 (V + 1) then dp (i + 1) v ++ longer (dp i) v else dp i' v := by
  refine each_cells (fun dp => longer (dp i)) (fillCell_eq i.succ_pos) ?_
    (nodup_range _ _) dp i' v
  intro u xs v dp
  have above : (dp.added (i + 1) u xs) i = dp i :=
    funext fun v' => Table.added_above _ (by omega) v'
  rw [above]

/-- The rows up to `n` are filled and the others are empty. -/
def Filled (V n : Nat) (dp : Table) : Prop :=
  ∀ v, v ∈ range 1 (V + 1) → (∀ i, 0 < i → i ≤ n → dp i v = combinations i v) ∧
    ∀ i, n < i → dp i v = []

theorem div_mem_range {V pv : Nat} (hv : v ∈ range 1 (V + 1)) (hpv : pv ∈ factors v) :
    v / pv ∈ range 1 (V + 1) := by
  obtain ⟨low, high⟩ := mem_range.mp hv
  have divides := (mem_factors low).mp hpv
  refine mem_range.mpr ⟨?_, lt_of_le_of_lt (Nat.div_le_self v pv) high⟩
  exact Nat.div_pos (Nat.le_of_dvd low divides) (Nat.pos_of_dvd_of_pos divides low)

variable {n : Nat}

theorem Filled.next {V : Nat} (pos : 0 < n) {dp : Table} (h : Filled V n dp) :
    Filled V (n + 1) (fillRow V (n + 1) dp) := by
  intro v hv
  have row : longer (dp n) v = combinations (n + 1) v := by
    obtain ⟨m, rfl⟩ : ∃ m, n = m + 1 := ⟨n - 1, by omega⟩
    refine List.flatMap_congr fun pv hpv => ?_
    rw [(h _ (div_mem_range hv hpv)).1 (m + 1) pos le_rfl]
  constructor
  · intro i low high
    rw [fillRow_eq]
    by_cases last : i = n + 1
    · rw [if_pos ⟨last, hv⟩, (h v hv).2 (n + 1) n.lt_succ_self, row, last]
      rfl
    · rw [if_neg fun h => last h.1]
      exact (h v hv).1 i low (by omega)
  · intro i high
    rw [fillRow_eq, if_neg fun h => by omega]
    exact (h v hv).2 i (by omega)

theorem fillTable_filled (pos : 0 < n) (V : Nat) : Filled V n (fillTable n V) := by
  obtain ⟨m, rfl⟩ : ∃ m, n = m + 1 := ⟨n - 1, by omega⟩
  have first : Filled V 1 (each (range 1 (V + 1)) (fun v => Table.append 1 v [v]) fun _ _ => []) := by
    intro v hv
    constructor
    · intro i low high
      obtain rfl : i = 1 := by omega
      rw [firstRow_eq, if_pos ⟨rfl, hv⟩]
      rfl
    · intro i high
      rw [firstRow_eq, if_neg fun h => by omega]
  have rows (k : Nat) (dp : Table) (h : Filled V 1 dp) :
      Filled V (k + 1) (each (List.range' 2 k) (fillRow V) dp) := by
    induction k with
    | zero => exact h
    | succ k ih =>
      rw [List.range'_1_concat, each_append, Nat.add_comm 2 k]
      exact Filled.next k.succ_pos ih
  have whole := rows m _ first
  exact whole

theorem getAllCombinations_eq {V : Nat} (hn : 0 < n) (hV : 0 < V) :
    getAllCombinations n V = (combinations n V, (combinations n V).length) := by
  have cell : fillTable n V n V = combinations n V :=
    (fillTable_filled hn V V (mem_range.mpr ⟨hV, V.lt_succ_self⟩)).1 n hn le_rfl
  simp only [getAllCombinations, cell]

/-! ## Every factorisation once -/

/-- `n` positive numbers whose product is `v`. -/
structure Factorises (n v : Nat) (t : List Nat) : Prop where
  length : t.length = n
  positive : ∀ x ∈ t, 0 < x
  product : t.prod = v

theorem factorises_concat {pv : Nat} {t : List Nat} (pos : 0 < v) :
    Factorises (n + 1) v (t ++ [pv]) ↔ pv ∣ v ∧ Factorises n (v / pv) t := by
  constructor
  · rintro ⟨length, positive, product⟩
    have hpv : 0 < pv := positive pv (by simp)
    rw [List.prod_append, List.prod_singleton] at product
    refine ⟨⟨t.prod, by rw [← product, Nat.mul_comm]⟩, ⟨by simpa using length, ?_, ?_⟩⟩
    · exact fun x hx => positive x (List.mem_append_left _ hx)
    · rw [← product, Nat.mul_div_cancel _ hpv]
  · rintro ⟨divides, length, positive, product⟩
    refine ⟨by simpa using length, fun x hx => ?_, ?_⟩
    · obtain hx | hx := List.mem_append.mp hx
      · exact positive x hx
      · rw [List.mem_singleton.mp hx]
        exact Nat.pos_of_dvd_of_pos divides pos
    · rw [List.prod_append, List.prod_singleton, product, Nat.div_mul_cancel divides]

theorem mem_combinations (pos : 0 < v) (t : List Nat) :
    t ∈ combinations (n + 1) v ↔ Factorises (n + 1) v t := by
  induction n generalizing v t with
  | zero =>
    rw [combinations, List.mem_singleton]
    constructor
    · rintro rfl
      exact ⟨rfl, by simpa using pos, by simp⟩
    · rintro ⟨length, -, product⟩
      obtain ⟨x, rfl⟩ := List.length_eq_one_iff.mp length
      rw [← product, List.prod_singleton]
  | succ n ih =>
    rw [combinations, longer, List.mem_flatMap]
    constructor
    · rintro ⟨pv, hpv, ht⟩
      obtain ⟨prev, hprev, rfl⟩ := List.mem_map.mp ht
      have divides := (mem_factors pos).mp hpv
      have less : 0 < v / pv :=
        Nat.div_pos (Nat.le_of_dvd pos divides) (Nat.pos_of_dvd_of_pos divides pos)
      exact (factorises_concat pos).mpr ⟨divides, (ih less prev).mp hprev⟩
    · intro h
      obtain rfl | ⟨prev, pv, rfl⟩ := List.eq_nil_or_concat t
      · exact absurd h.length (by simp)
      · rw [List.concat_eq_append] at h ⊢
        obtain ⟨divides, rest⟩ := (factorises_concat pos).mp h
        have less : 0 < v / pv :=
          Nat.div_pos (Nat.le_of_dvd pos divides) (Nat.pos_of_dvd_of_pos divides pos)
        exact ⟨pv, (mem_factors pos).mpr divides, List.mem_map_of_mem ((ih less prev).mpr rest)⟩

theorem nodup_combinations (n v : Nat) : (combinations (n + 1) v).Nodup := by
  induction n generalizing v with
  | zero => exact List.nodup_singleton _
  | succ n ih =>
    have last {prev : List Nat} {pv : Nat} : (prev ++ [pv]).getLast? = some pv := by simp
    refine List.nodup_flatMap.mpr ⟨fun pv _ => ?_, ?_⟩
    · exact (ih _).map fun a b h => List.append_cancel_right h
    · -- combinations that end in different factors are different
      refine ((nodup_range _ _).filter _).imp fun {pv pv'} ne t ht ht' => ?_
      obtain ⟨prev, -, rfl⟩ := List.mem_map.mp ht
      obtain ⟨prev', -, eq⟩ := List.mem_map.mp ht'
      have same := congrArg List.getLast? eq
      rw [last, last] at same
      exact ne (Option.some.inj same).symm

/-- `_get_all_combinations` finds every way to write `V` as a product of `n` positive
numbers, once, and counts them. -/
theorem getAllCombinations_exact (n V : Nat) (hn : 1 ≤ n) (hV : 1 ≤ V) :
    (∀ t, t ∈ (getAllCombinations n V).1 ↔ Factorises n V t) ∧
      (getAllCombinations n V).1.Nodup ∧
      (getAllCombinations n V).2 = (getAllCombinations n V).1.length := by
  obtain ⟨m, rfl⟩ : ∃ m, n = m + 1 := ⟨n - 1, by omega⟩
  rw [getAllCombinations_eq hn hV]
  exact ⟨mem_combinations hV, nodup_combinations _ _, rfl⟩

theorem getAllCombinations_two_six :
    (getAllCombinations 2 6).1 = [[6, 1], [3, 2], [2, 3], [1, 6]] ∧
      ∀ t, t ∈ (getAllCombinations 2 6).1 ↔ Factorises 2 6 t :=
  ⟨by decide, (getAllCombinations_exact 2 6 (by decide) (by decide)).1⟩

/-! ## Design points -/

/-- What Python raises. -/
inductive Raise where
  | keyError
  | indexError
  deriving DecidableEq, Repr

/-- `_kernel_matching`: the second factor of every pair. Only N, C, H and W have an
entry in `mapping`. -/
def kernelMatching (arr : List (List Nat)) (idx : Nat) : Except Raise (List Nat) :=
  if idx < 4 then .ok (arr.map fun i => i.getD 1 0) else .error .keyError

/-- `"bias" in data["name"]` -/
def TensorInfo.isBias (data : TensorInfo) : Bool := "bias".toList <:+: data.name.toList

/-- `dim["input"].append(pruned)` -/
def appendPruned (size : Nat × Nat) (dim : List (List Nat)) : Except Raise (List (List Nat)) :=
  (kernelMatching (getAllCombinations 2 size.1).1 size.2).map fun pruned => dim ++ [pruned]

def appendTensor (data : TensorInfo) (dim : List (List Nat)) : Except Raise (List (List Nat)) :=
  if data.isBias then .ok dim else Script.run appendPruned data.shape.zipIdx dim

/-- `getDesignPoint`; `None` for an operator that is not searched. -/
def getDesignPoint (layer : Layer) : Except Raise (Option (List (List Nat))) :=
  if layer.opType.supported then (Script.run appendTensor layer.inputTensor []).map some
  else .ok none

theorem second_combinations (pos : 0 < v) :
    ((getAllCombinations 2 v).1.map fun i => i.getD 1 0) = factors v := by
  rw [getAllCombinations_eq (by decide) pos]
  simp [combinations, longer, List.map_flatMap, List.flatMap_singleton']

/-- The dimensions of the layer that are split. -/
def Layer.dims (layer : Layer) : List Nat :=
  (layer.inputTensor.filter fun data => !data.isBias).flatMap TensorInfo.shape

def Layer.Positive (layer : Layer) : Prop := ∀ data ∈ layer.inputTensor, ∀ x ∈ data.shape, 0 < x

/-- Every tensor that is read has at most the four dimensions of `mapping`. -/
def Layer.Mapped (layer : Layer) : Prop :=
  ∀ data ∈ layer.inputTensor, data.isBias = false → data.shape.length ≤ 4

theorem run_appendPruned {shape : List Nat} (pos : ∀ x ∈ shape, 0 < x) {k : Nat} (hk : k ≤ 4)
    (dim : List (List Nat)) : Script.run appendPruned (shape.zipIdx k) dim =
      if k + shape.length ≤ 4 then .ok (dim ++ shape.map factors) else .error .keyError := by
  induction shape generalizing k dim with
  | nil => simp [Script.run, hk]
  | cons x shape ih =>
    have first := second_combinations (pos x List.mem_cons_self)
    rw [List.zipIdx_cons, Script.run, appendPruned, kernelMatching]
    by_cases mapped : k < 4
    · rw [if_pos mapped, first]
      have rest := ih (fun y hy => pos y (List.mem_cons_of_mem _ hy)) mapped (dim ++ [factors x])
      simp only [Except.map, Except.bind, rest, List.length_cons, List.map_cons,
        List.append_assoc, List.singleton_append]
      exact if_congr (by omega) rfl rfl
    · rw [if_neg mapped, if_neg (by rw [List.length_cons]; omega)]
      rfl

theorem appendTensor_eq {data : TensorInfo} (pos : ∀ x ∈ data.shape, 0 < x)
    (mapped : data.isBias = false → data.shape.length ≤ 4) (dim : List (List Nat)) :
    appendTensor data dim =
      .ok (dim ++ (if data.isBias then [] else data.shape).map factors) := by
  rw [appendTensor]
  cases bias : data.isBias with
  | true => simp
  | false =>
    rw [if_neg (by decide), if_neg (by decide), run_appendPruned pos (by decide), Nat.zero_add,
      if_pos (mapped bias)]

theorem run_appendTensor {inputTensor : List TensorInfo}
    (pos : ∀ data ∈ inputTensor, ∀ x ∈ data.shape, 0 < x)
    (mapped : ∀ data ∈ inputTensor, data.isBias = false → data.shape.length ≤ 4)
    (dim : List (List Nat)) : Script.run appendTensor inputTensor dim =
      .ok (dim ++ ((inputTensor.filter fun data => !data.isBias).flatMap
        TensorInfo.shape).map factors) := by
  induction inputTensor generalizing dim with
  | nil => simp [Script.run]
  | cons data rest ih =>
    rw [Script.run, appendTensor_eq (pos data List.mem_cons_self)
      (mapped data List.mem_cons_self)]
    simp only [Except.bind]
    rw [ih (fun t ht => pos t (List.mem_cons_of_mem _ ht))
      fun t ht => mapped t (List.mem_cons_of_mem _ ht)]
    cases bias : data.isBias <;> simp [bias]

theorem mapped_of_run {inputTensor : List TensorInfo} {dim after : List (List Nat)}
    (pos : ∀ data ∈ inputTensor, ∀ x ∈ data.shape, 0 < x)
    (h : Script.run appendTensor inputTensor dim = .ok after) :
    ∀ data ∈ inputTensor, data.isBias = false → data.shape.length ≤ 4 := by
  induction inputTensor generalizing dim with
  | nil => simp
  | cons data rest ih =>
    obtain ⟨next, first, h⟩ := Script.run_cons.mp h
    have later := ih (fun t ht => pos t (List.mem_cons_of_mem _ ht)) h
    refine List.forall_mem_cons.mpr ⟨fun bias => ?_, later⟩
    rw [appendTensor, bias, if_neg (by decide), run_appendPruned (pos data List.mem_cons_self)
      (by decide), Nat.zero_add] at first
    by_contra long
    rw [if_neg long] at first
    cases first

/-- A design point lists the factors of every dimension that is split. -/
theorem getDesignPoint_eq {layer : Layer} (supported : layer.opType.supported = true)
    (pos : layer.Positive) (mapped : layer.Mapped) :
    getDesignPoint layer = .ok (some (layer.dims.map factors)) := by
  rw [getDesignPoint, if_pos supported, run_appendTensor pos mapped]
  rfl

theorem eq_of_getDesignPoint {layer : Layer} {point : List (List Nat)} (pos : layer.Positive)
    (h : getDesignPoint layer = .ok (some point)) : point = layer.dims.map factors := by
  by_cases supported : layer.opType.supported = true
  · have run := h
    rw [getDesignPoint, if_pos supported] at run
    obtain ⟨after, run, -⟩ := Script.map_eq_ok.mp run
    have mapped : layer.Mapped := mapped_of_run pos run
    rw [getDesignPoint_eq supported pos mapped] at h
    exact (Option.some.inj (Except.ok.inj h)).symm
  · rw [getDesignPoint, if_neg supported] at h
    cases h

end Dse

import Lab447.Lib.Script
import Lab447.MemTable.Policy

/-!
The placement of the tensors of an ONNX graph (`placeTensor` of
`mem/python/utils.py`). The tensors are given to a table that nothing is ever
freed in, so its free part is what is left at the end.
-/

namespace MemTable

open Script

/-- A tensor of the graph, with the static values of its dimensions. -/
structure ValueInfo where
  name : String
  dims : List Nat
  deriving DecidableEq, Repr

/-- A node names its tensors; `placeTensor` adds attributes to it. -/
structure GraphNode where
  input : List String
  output : List String
  attributes : List (String × Int × Nat)
  deriving DecidableEq, Repr

structure Graph where
  input : List ValueInfo
  valueInfo : List ValueInfo
  output : List ValueInfo
  node : List GraphNode
  deriving DecidableEq, Repr

/-- The `RuntimeError`s of `placeTensor`. -/
inductive PlaceError where
  | unknownDtype
  | insufficient (what : String) (tensorSize remain : Nat)
  | inputNotFound (name : String)
  | outputNotFound (name : String)
  deriving DecidableEq, Repr

def PlaceError.message : PlaceError → String
  | unknownDtype => "Unknown dtype"
  | insufficient what tensorSize remain =>
    s!"Insufficient memory capacity while allocating {what}, try {tensorSize}, remain {remain}"
  | inputNotFound name => s!"input tensor not found: {name}"
  | outputNotFound name => s!"output tensor not found: {name}"

def dtype2byte (dtype : String) : Except PlaceError Nat :=
  if dtype = "int8" then .ok 1
  else if dtype = "int32" ∨ dtype = "float32" then .ok 4
  else if dtype = "float64" then .ok 8
  else .error .unknownDtype

def ValueInfo.tensorSize (v : ValueInfo) (bytes : Nat) : Nat := v.dims.foldl (· * ·) 1 * bytes

/-- `tensor_mem_info`: address and size by name. -/
abbrev TensorMemInfo := String → Option (Int × Nat)

/-- `mem_table.table[-1]["size"]` -/
def remaining (t : MemTable) : Nat := (t.table.getLast?.map Block.size).getD 0

/-- The body of the three loops over tensors; `what` is the text of the error. -/
def placeOne (what dtype : String) (v : ValueInfo) (s : MemTable × TensorMemInfo) :
    Except PlaceError (MemTable × TensorMemInfo) :=
  (dtype2byte dtype).bind fun bytes =>
    let tensorSize := v.tensorSize bytes
    let ((remainSize, addr), t) := s.1.allocate v.name tensorSize
    if addr = -1 then .error (.insufficient what tensorSize (remaining t))
    else if remainSize ≠ 0 then .ok (t, s.2)
    else .ok (t, Function.update s.2 v.name (some (addr, tensorSize)))

/-- The loops over inputs, activations and outputs. -/
def placeAll (graph : Graph) (dtype : String) (memSize : Nat) :
    Except PlaceError (MemTable × TensorMemInfo) :=
  ((run (placeOne "input and weights" dtype) graph.input (new memSize .bestFit, fun _ => none)).bind
    (run (placeOne "activation" dtype) graph.valueInfo)).bind
    (run (placeOne "activation" dtype) graph.output)

/-- `node.attribute.insert(0, ...)` for one name of a node. -/
def attach (info : TensorMemInfo) (missing : String → PlaceError) (name : String)
    (node : GraphNode) : Except PlaceError GraphNode :=
  match info name with
  | none => .error (missing name)
  | some (addr, size) => .ok { node with attributes := (name, addr, size) :: node.attributes }

def attachNode (info : TensorMemInfo) (node : GraphNode) : Except PlaceError GraphNode :=
  (run (attach info .inputNotFound) node.input node).bind
    (run (attach info .outputNotFound) node.output)

def attachAll (info : TensorMemInfo) (nodes : List GraphNode) : Except PlaceError (List GraphNode) :=
  run (fun node done => (attachNode info node).map fun node => done ++ [node]) nodes []

def placeTensor (graph : Graph) (dtype : String) (memSize : Nat) : Except PlaceError Graph :=
  (placeAll graph dtype memSize).bind fun (_, info) =>
    (attachAll info graph.node).map fun nodes => { graph with node := nodes }

/-! ## The free part of the table -/

/-- `used` bytes are taken from the start of the memory. -/
structure Bumped (S used : Nat) (t : MemTable) : Prop where
  size : t.size = S
  policyName : t.policyName = .bestFit
  within : used ≤ S
  table : ∃ taken, (∀ b ∈ taken, b.valid = false) ∧
    (t.table = taken ∧ used = S ∨
      ∃ free, t.table = taken ++ [free] ∧ free.valid = true ∧ free.addr = used ∧
        free.size = S - used)

variable {S used : Nat} {t : MemTable}

theorem bestFitLoop_skip (size : Nat) {taken : List Block} (used : ∀ b ∈ taken, b.valid = false)
    (rest : List Block) (idx : Nat) (bestIdx : Option Nat) (bestSize : Nat) :
    bestFitLoop size (taken ++ rest) idx bestIdx bestSize =
      bestFitLoop size rest (idx + taken.length) bestIdx bestSize := by
  induction taken generalizing idx with
  | nil => rfl
  | cons b taken ih =>
    obtain ⟨here, later⟩ := List.forall_mem_cons.mp used
    rw [List.cons_append, bestFitLoop, if_pos here, ih later, List.length_cons]
    congr 1
    omega

theorem new_bumped (S : Nat) : Bumped S 0 (new S .bestFit) where
  size := rfl
  policyName := rfl
  within := Nat.zero_le _
  table := ⟨[], by simp, .inr ⟨_, rfl, rfl, rfl, rfl⟩⟩

/-- Best fit takes the next bytes, if there are enough. -/
theorem Bumped.allocate (h : Bumped S used t) (name : String) {n : Nat} (pos : 0 < n) :
    if used + n ≤ S then ∃ t', t.allocate name n = ((0, (used : Int)), t') ∧ Bumped S (used + n) t'
    else t.allocate name n = ((n, -1), t) := by
  obtain ⟨size, policyName, within, taken, inUse, full | ⟨free, table, valid, addr, free_size⟩⟩ := h
  · rw [if_neg (by omega)]
    have idx : getBlkIdx t.table n t.size t.policyName = none := by
      have loop := bestFitLoop_skip n inUse [] 0 none (S + 1)
      rw [List.append_nil] at loop
      simp only [getBlkIdx, policyName, size, full.1, loop, bestFitLoop, ite_self]
    simp only [MemTable.allocate, idx]
  · have loop := bestFitLoop_skip n inUse [free] 0 none (S + 1)
    split
    · rename_i fits
      have idx : getBlkIdx t.table n t.size t.policyName = some taken.length := by
        have here : n ≤ free.size ∧ free.size < S + 1 := by omega
        have some : ¬S < n := by omega
        simp only [getBlkIdx, policyName, size, table, loop, bestFitLoop, valid, here, some,
          if_false, if_true, Bool.true_eq_false, and_self, Nat.zero_add]
      have at_free : t.table[taken.length]? = some free := by rw [table]; simp
      have placed : t.allocate name n =
          ((0, (used : Int)), { t with table := place t.table taken.length free name n }) := by
        simp only [MemTable.allocate, idx, at_free, addr]
      refine ⟨_, placed, size, policyName, fits, ?_⟩
      rw [table, place_split]
      split
      · refine ⟨taken ++ [{ free with valid := false, tensorName := name }], ?_, .inl ⟨rfl, by omega⟩⟩
        exact List.forall_mem_append.mpr ⟨inUse, by simp⟩
      · refine ⟨taken ++ [{ valid := false, addr := free.addr, size := n, tensorName := name }], ?_,
          .inr ⟨{ free with addr := free.addr + n, size := free.size - n }, by simp, valid, ?_, ?_⟩⟩
        · exact List.forall_mem_append.mpr ⟨inUse, by simp⟩
        · simp only [addr]
        · simp only [free_size]
          omega
    · have idx : getBlkIdx t.table n t.size t.policyName = none := by
        have out : ¬(n ≤ free.size ∧ free.size < S + 1) := by omega
        simp only [getBlkIdx, policyName, size, table, loop, bestFitLoop, valid, out,
          if_false, Bool.true_eq_false, ite_self]
      simp only [MemTable.allocate, idx]

/-! ## Whole graphs -/

/-- The entries of tensors that are placed one behind the other from `used` on. -/
def entriesFrom (bytes : Nat) : Nat → List ValueInfo → List (String × Int × Nat)
  | _, [] => []
  | used, v :: vs =>
    (v.name, (used : Int), v.tensorSize bytes) :: entriesFrom bytes (used + v.tensorSize bytes) vs

/-- `tensor_mem_info` with entries added. -/
def TensorMemInfo.add (info : TensorMemInfo) (es : List (String × Int × Nat)) : TensorMemInfo :=
  es.foldl (fun info e => Function.update info e.1 (some e.2)) info

def totalSize (bytes : Nat) (vs : List ValueInfo) : Nat := (vs.map (·.tensorSize bytes)).sum

variable {bytes : Nat}

theorem tensorSize_pos {v : ValueInfo} (pos : 0 < bytes) (dims : ∀ d ∈ v.dims, 0 < d) :
    0 < v.tensorSize bytes := by
  have product : 0 < v.dims.foldl (· * ·) 1 := by
    rw [← List.prod_eq_foldl]
    exact List.prod_pos dims
  exact Nat.mul_pos product pos

theorem bytes_pos {dtype : String} (known : dtype2byte dtype = .ok bytes) : 0 < bytes := by
  unfold dtype2byte at known
  split at known
  · cases known
    decide
  · split at known
    · cases known
      decide
    · split at known
      · cases known
        decide
      · cases known

theorem totalSize_append (bytes : Nat) (vs ws : List ValueInfo) :
    totalSize bytes (vs ++ ws) = totalSize bytes vs + totalSize bytes ws := by
  simp [totalSize]

theorem entriesFrom_append (bytes used : Nat) (vs ws : List ValueInfo) :
    entriesFrom bytes used (vs ++ ws) =
      entriesFrom bytes used vs ++ entriesFrom bytes (used + totalSize bytes vs) ws := by
  induction vs generalizing used with
  | nil => rfl
  | cons v vs ih =>
    have total : totalSize bytes (v :: vs) = v.tensorSize bytes + totalSize bytes vs := rfl
    rw [List.cons_append, entriesFrom, entriesFrom, ih, total, ← Nat.add_assoc]
    rfl

/-- The outcome of a loop over `vs`: all are placed from `used` on, or one does not fit. -/
def Places (S bytes used : Nat) (info : TensorMemInfo) (vs : List ValueInfo)
    (r : Except PlaceError (MemTable × TensorMemInfo)) : Prop :=
  if used + totalSize bytes vs ≤ S then
    ∃ t, r = .ok (t, info.add (entriesFrom bytes used vs)) ∧ Bumped S (used + totalSize bytes vs) t
  else ∃ what size remain, r = .error (.insufficient what size remain)

variable {vs : List ValueInfo}

section

variable {what dtype : String} {bytes : Nat} {info : TensorMemInfo}

/-- One loop after another. -/
theorem Places.bind {ws : List ValueInfo} {r : Except PlaceError (MemTable × TensorMemInfo)}
    {next : MemTable × TensorMemInfo → Except PlaceError (MemTable × TensorMemInfo)}
    (first : Places S bytes used info vs r) (second : ∀ t, Bumped S (used + totalSize bytes vs) t →
      Places S bytes (used + totalSize bytes vs) (info.add (entriesFrom bytes used vs)) ws
        (next (t, info.add (entriesFrom bytes used vs)))) :
    Places S bytes used info (vs ++ ws) (r.bind next) := by
  unfold Places at first second ⊢
  rw [totalSize_append, entriesFrom_append, ← Nat.add_assoc]
  by_cases room : used + totalSize bytes vs ≤ S
  · rw [if_pos room] at first
    obtain ⟨t, rfl, bumped⟩ := first
    have joined (es es' : List (String × Int × Nat)) : (info.add es).add es' = info.add (es ++ es') :=
      List.foldl_append.symm
    rw [← joined]
    exact second t bumped
  · rw [if_neg room] at first
    obtain ⟨what, size, remain, rfl⟩ := first
    rw [if_neg (by omega)]
    exact ⟨what, size, remain, rfl⟩

variable (known : dtype2byte dtype = .ok bytes)

include known

theorem placeOne_places (h : Bumped S used t) (what : String) (info : TensorMemInfo) {v : ValueInfo}
    (pos : 0 < v.tensorSize bytes) :
    Places S bytes used info [v] (placeOne what dtype v (t, info)) := by
  have allocated := h.allocate v.name pos
  have total : totalSize bytes [v] = v.tensorSize bytes := by simp [totalSize]
  unfold Places
  rw [total]
  split
  · rename_i fits
    rw [if_pos fits] at allocated
    obtain ⟨t', eq, bumped⟩ := allocated
    refine ⟨t', ?_, bumped⟩
    have here : (used : Int) ≠ -1 := by omega
    simp only [placeOne, known, Except.bind, eq, here, if_false, ne_eq, not_true_eq_false]
    rfl
  · rename_i short
    rw [if_neg short] at allocated
    refine ⟨what, v.tensorSize bytes, remaining t, ?_⟩
    simp only [placeOne, known, Except.bind, allocated, if_true]

theorem run_places (h : Bumped S used t) (what : String) (info : TensorMemInfo)
    (pos : ∀ v ∈ vs, 0 < v.tensorSize bytes) :
    Places S bytes used info vs (run (placeOne what dtype) vs (t, info)) := by
  induction vs generalizing used t info with
  | nil =>
    unfold Places
    rw [if_pos (show used + totalSize bytes [] ≤ S from h.within)]
    exact ⟨t, rfl, h⟩
  | cons v vs ih =>
    obtain ⟨here, later⟩ := List.forall_mem_cons.mp pos
    exact (placeOne_places known h what info here).bind fun t' bumped => ih bumped _ later

end

def Graph.tensors (graph : Graph) : List ValueInfo := graph.input ++ graph.valueInfo ++ graph.output

theorem placeAll_places {graph : Graph} {dtype : String} (known : dtype2byte dtype = .ok bytes)
    (pos : ∀ v ∈ graph.tensors, 0 < v.tensorSize bytes) (S : Nat) :
    Places S bytes 0 (fun _ => none) graph.tensors (placeAll graph dtype S) := by
  have inputs : ∀ v ∈ graph.input, 0 < v.tensorSize bytes := fun v hv => pos v (by simp [Graph.tensors, hv])
  have values : ∀ v ∈ graph.valueInfo, 0 < v.tensorSize bytes :=
    fun v hv => pos v (by simp [Graph.tensors, hv])
  have outputs : ∀ v ∈ graph.output, 0 < v.tensorSize bytes :=
    fun v hv => pos v (by simp [Graph.tensors, hv])
  refine Places.bind (Places.bind (run_places known (new_bumped S) _ _ inputs) ?_) ?_
  · exact fun t bumped => run_places known bumped _ _ values
  · exact fun t bumped => run_places known bumped _ _ outputs

/-! ## The addresses -/

/-- Every tensor stands behind those before it, inside the memory. -/
structure BumpPlaced (S bytes : Nat) (tensors : List ValueInfo) (info : TensorMemInfo) : Prop where
  address : ∀ k v, tensors[k]? = some v →
    info v.name = some ((totalSize bytes (tensors.take k) : Int), v.tensorSize bytes)
  inside : ∀ v ∈ tensors, ∀ a n, info v.name = some (a, n) → 0 ≤ a ∧ a + n ≤ S
  disjoint : ∀ v ∈ tensors, ∀ w ∈ tensors, v ≠ w → ∀ a n b m, info v.name = some (a, n) →
    info w.name = some (b, m) → a + n ≤ b ∨ b + m ≤ a

theorem getElem?_entriesFrom (bytes used k : Nat) (vs : List ValueInfo) :
    (entriesFrom bytes used vs)[k]? = vs[k]?.map fun v =>
      (v.name, ((used + totalSize bytes (vs.take k) : Nat) : Int), v.tensorSize bytes) := by
  induction vs generalizing used k with
  | nil => rfl
  | cons v vs ih =>
    cases k with
    | zero => rfl
    | succ k =>
      rw [entriesFrom, List.getElem?_cons_succ, ih, List.getElem?_cons_succ, List.take_succ_cons]
      have total : totalSize bytes (v :: vs.take k) =
        v.tensorSize bytes + totalSize bytes (vs.take k) := rfl
      rw [total, ← Nat.add_assoc]

theorem names_entriesFrom (bytes used : Nat) (vs : List ValueInfo) :
    (entriesFrom bytes used vs).map Prod.fst = vs.map ValueInfo.name := by
  induction vs generalizing used with
  | nil => rfl
  | cons v vs ih => rw [entriesFrom, List.map_cons, List.map_cons, ih]

theorem add_of_notMem (info : TensorMemInfo) {es : List (String × Int × Nat)} {name : String}
    (h : name ∉ es.map Prod.fst) : info.add es name = info name := by
  induction es generalizing info with
  | nil => rfl
  | cons e es ih =>
    rw [List.map_cons, List.mem_cons, not_or] at h
    have rest := ih (Function.update info e.1 (some e.2)) h.2
    rw [Function.update_of_ne h.1] at rest
    exact rest

theorem add_of_mem (info : TensorMemInfo) {es : List (String × Int × Nat)}
    (nodup : (es.map Prod.fst).Nodup) {e : String × Int × Nat} (h : e ∈ es) :
    info.add es e.1 = some e.2 := by
  induction es generalizing info with
  | nil => cases h
  | cons e' es ih =>
    obtain ⟨fresh, nodup⟩ := List.nodup_cons.mp nodup
    obtain rfl | h := List.mem_cons.mp h
    · have kept := add_of_notMem (Function.update info e.1 (some e.2)) fresh
      rw [Function.update_self] at kept
      exact kept
    · exact ih _ nodup h

/-- The sizes before `j` hold those before `i` and that of `i`. -/
theorem totalSize_take_le (bytes : Nat) {i j : Nat} {v : ValueInfo} (hv : vs[i]? = some v)
    (less : i < j) :
    totalSize bytes (vs.take i) + v.tensorSize bytes ≤ totalSize bytes (vs.take j) := by
  obtain ⟨inside, rfl⟩ := List.getElem?_eq_some_iff.mp hv
  have upTo : vs.take (i + 1) = vs.take i ++ [vs[i]] := List.take_concat_get' vs i inside |>.symm
  have rest : vs.take j = vs.take (i + 1) ++ (vs.take j).drop (i + 1) := by
    have := List.take_append_drop (i + 1) (vs.take j)
    rwa [List.take_take, Nat.min_eq_left less, eq_comm] at this
  rw [rest, totalSize_append, upTo, totalSize_append]
  simp only [totalSize, List.map_cons, List.map_nil, List.sum_singleton]
  omega

theorem bumpPlaced_of_add {tensors : List ValueInfo} (names : (tensors.map ValueInfo.name).Nodup)
    (room : totalSize bytes tensors ≤ S) :
    BumpPlaced S bytes tensors (TensorMemInfo.add (fun _ => none) (entriesFrom bytes 0 tensors)) := by
  set info := TensorMemInfo.add (fun _ => none) (entriesFrom bytes 0 tensors) with hinfo
  have address (k : Nat) (v : ValueInfo) (hv : tensors[k]? = some v) :
      info v.name = some ((totalSize bytes (tensors.take k) : Int), v.tensorSize bytes) := by
    have entry := getElem?_entriesFrom bytes 0 k tensors
    rw [hv, Option.map_some, Nat.zero_add] at entry
    have nodup := names_entriesFrom bytes 0 tensors ▸ names
    exact add_of_mem _ nodup (List.mem_of_getElem? entry)
  refine ⟨address, ?_, ?_⟩
  · intro v hv a n found
    obtain ⟨i, hi⟩ := List.getElem?_of_mem hv
    rw [address i v hi] at found
    cases found
    have inside := (List.getElem?_eq_some_iff.mp hi).1
    have last := totalSize_take_le bytes hi inside
    rw [List.take_length] at last
    omega
  · intro v hv w hw ne a n b m hv' hw'
    obtain ⟨i, hi⟩ := List.getElem?_of_mem hv
    obtain ⟨j, hj⟩ := List.getElem?_of_mem hw
    rw [address i v hi] at hv'
    rw [address j w hj] at hw'
    cases hv'
    cases hw'
    have apart : i ≠ j := by
      rintro rfl
      exact ne (Option.some.inj (hi.symm.trans hj))
    obtain before | after := Nat.lt_or_gt_of_ne apart
    · have := totalSize_take_le bytes hi before
      omega
    · have := totalSize_take_le bytes hj after
      omega

theorem attachAll_ne_insufficient (info : TensorMemInfo) (nodes : List GraphNode) (what : String)
    (size remain : Nat) : attachAll info nodes ≠ .error (.insufficient what size remain) := by
  have one (missing : String → PlaceError) (ne : ∀ name, missing name ≠ .insufficient what size remain)
      (names : List String) (node : GraphNode) :
      run (attach info missing) names node ≠ .error (.insufficient what size remain) := by
    intro h
    obtain ⟨name, -, node', -, fails⟩ := run_error (P := fun _ => True) trivial (by simp) h
    unfold attach at fails
    split at fails
    · exact ne _ (Except.error.inj fails)
    · cases fails
  intro h
  obtain ⟨node, -, done, -, fails⟩ := run_error (P := fun _ => True) trivial (by simp) h
  rw [map_eq_error, attachNode] at fails
  obtain first | ⟨node', -, second⟩ := bind_eq_error.mp fails
  · exact one .inputNotFound (by simp) _ _ first
  · exact one .outputNotFound (by simp) _ _ second

/-- One input, one weight and one output of 16 bytes each. -/
def threeTensors : Graph :=
  ⟨[⟨"x", [2, 2]⟩, ⟨"w", [4]⟩], [], [⟨"y", [4, 1]⟩], [⟨["x", "w"], ["y"], []⟩]⟩

end MemTable

import Lab447.Dse.Space

/-!
The search drivers over the layers of a model: the latency and the both loops of
`sw_dse` (`DSE/main.py`) and `co_sw_dse` (`DSE/MOGA.py`). The loop index `i` and the
cursor `design_space.layer` are moved on in different functions. A driver leaves
its loop after the first layer that is searched.
-/

namespace Dse

inductive CostModel where
  | maestro
  | gem5
  deriving DecidableEq, Repr

inductive Driver where
  | latency
  | both
  | coSwDse
  deriving DecidableEq, Repr

/-- `getDesignPoint` reads the layer at the cursor; a search works on that layer,
and the driver then takes the fuse count of layer `i`. -/
inductive Event where
  | read (layer : Nat)
  | searched (i layer : Nat)
  deriving DecidableEq, Repr

/-- Whether `SW_GA.run` and `SW_MOGA.setup` go on to a search. -/
def searches (costModel : CostModel) (opType : OpType) : Bool :=
  match costModel with
  | .maestro => opType = .conv
  | .gem5 => opType.supported

/-- The counters when the driver leaves its loop, after a search at `i`. -/
def leave (driver : Driver) (layers : List Layer) (i : Nat) : Nat × Nat :=
  let fuseNum := (layers[i]?.map Layer.fuse).getD 0
  let i := i + fuseNum
  let i := if fuseNum = 0 then i + 1 else i
  match driver with
  | .latency => (i, i)
  | .both | .coSwDse => (i + 1, i + 1)

/-- `setNextLayer()` at the start of every round of `co_sw_dse`. -/
def Driver.cursor (driver : Driver) (layer : Nat) : Nat :=
  if driver = .coSwDse then layer + 1 else layer

/-- The loop of a driver from `i` and `layer` on, with what happened in it and the
counters at its end. A read outside of the model raises an `IndexError`. -/
def loop (driver : Driver) (costModel : CostModel) (layers : List Layer) :
    Nat → Nat → Nat → List Event × Nat × Nat
  | 0, i, layer => ([], i, layer)
  | fuel + 1, i, layer =>
    if i < layers.length then
      let layer := driver.cursor layer
      match layers[layer]? with
      | none => ([.read layer], i, layer)
      | some found =>
        if searches costModel found.opType then
          ([.read layer, .searched i layer], leave driver layers i)
        else
          let rest := loop driver costModel layers fuel (i + 1) (layer + 1)
          (.read layer :: rest.1, rest.2)
    else ([], i, layer)

def drive (driver : Driver) (costModel : CostModel) (layers : List Layer) :
    List Event × Nat × Nat :=
  loop driver costModel layers layers.length 0 0

variable {driver : Driver} {costModel : CostModel} {layers : List Layer} {fuel i layer : Nat}

/-- A round for each layer is enough. -/
theorem loop_succ_fuel (enough : layers.length ≤ i + fuel) :
    loop driver costModel layers (fuel + 1) i layer = loop driver costModel layers fuel i layer := by
  induction fuel generalizing i layer with
  | zero =>
    have outside : ¬i < layers.length := by omega
    simp only [loop, if_neg outside]
  | succ fuel ih =>
    have next (k : Nat) : loop driver costModel layers (fuel + 1) (i + 1) k =
        loop driver costModel layers fuel (i + 1) k := ih (by omega)
    rw [loop]
    conv_rhs => rw [loop]
    simp only [next]

/-! ## The cursor and the index -/

/-- The cursor is a valid index when it is read, and the index of the loop when a
layer is searched. -/
def Event.InStep (layers : List Layer) : Event → Prop
  | read layer => layer < layers.length
  | searched i layer => layer = i

def InStep (layers : List Layer) (events : List Event) : Prop := ∀ e ∈ events, e.InStep layers

/-- The loops of `sw_dse` move both counters on by one. -/
theorem loop_inStep (plain : driver ≠ .coSwDse) :
    InStep layers (loop driver costModel layers fuel i i).1 := by
  have cursor (k : Nat) : driver.cursor k = k := if_neg plain
  induction fuel generalizing i with
  | zero => exact List.forall_mem_nil _
  | succ fuel ih =>
    rw [loop]
    split
    · rename_i inside
      simp only [cursor, List.getElem?_eq_getElem inside]
      split
      · exact List.forall_mem_cons.mpr ⟨inside, List.forall_mem_singleton.mpr rfl⟩
      · exact List.forall_mem_cons.mpr ⟨inside, ih⟩
    · exact List.forall_mem_nil _

/-- `co_sw_dse` moves the cursor on twice for a layer that is skipped. -/
theorem loop_coSwDse_not_inStep (enough : layers.length ≤ i + fuel) (inside : i < layers.length) :
    ¬InStep layers (loop .coSwDse costModel layers fuel i (2 * i)).1 := by
  induction fuel generalizing i with
  | zero => omega
  | succ fuel ih =>
    intro steps
    rw [loop, if_pos inside] at steps
    dsimp only at steps
    rw [Driver.cursor, if_pos rfl] at steps
    split at steps
    · rename_i outside
      have valid : 2 * i + 1 < layers.length := steps _ (List.mem_singleton_self _)
      rw [List.getElem?_eq_getElem valid] at outside
      cases outside
    · rename_i found there
      have valid := (List.getElem?_eq_some_iff.mp there).1
      split at steps
      · have same : 2 * i + 1 = i := steps (.searched i (2 * i + 1)) (by simp)
        omega
      · refine ih (i := i + 1) (by omega) (by omega) fun e he => ?_
        exact steps e (List.mem_cons_of_mem _ he)

/-- The cursor stays in step in the loops of `sw_dse`, and in `co_sw_dse` only for
an empty model. -/
theorem drive_inStep_iff (driver : Driver) (costModel : CostModel) (layers : List Layer) :
    InStep layers (drive driver costModel layers).1 ↔ driver ≠ .coSwDse ∨ layers = [] := by
  constructor
  · intro steps
    by_contra other
    obtain ⟨co, some⟩ := not_or.mp other
    rw [not_not.mp co] at steps
    have inside : 0 < layers.length := List.length_pos_iff.mpr some
    exact loop_coSwDse_not_inStep (by omega) inside steps
  · rintro (plain | rfl)
    · exact loop_inStep plain
    · exact List.forall_mem_nil _

/-- Two convolutions: `co_sw_dse` searches the second and takes the fuse count of
the first. -/
theorem coSwDse_searches_second :
    let layers : List Layer := [⟨.conv, [], 0⟩, ⟨.conv, [], 0⟩]
    (drive .coSwDse .gem5 layers).1 = [.read 1, .searched 0 1] ∧
      ¬InStep layers (drive .coSwDse .gem5 layers).1 := by
  refine ⟨by decide, fun steps => ?_⟩
  have same : (1 : Nat) = 0 := steps (.searched 0 1) (by decide)
  cases same

end Dse

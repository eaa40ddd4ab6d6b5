import Lab447.Dse.Driver

/-!
The fitness of a candidate in the single objective searches, `SW_GA.fitness` and
`HW_GA.fitness` (`DSE/GA.py`). The search maximises it. What the tools answer is
part of a candidate here: the traffic generator, the simulator and the report for
gem5, the reported cycles for MAESTRO.
-/

namespace Dse

open scoped NNRat

/-- The software and the hardware search. -/
inductive Search where
  | sw
  | hw
  deriving DecidableEq, Repr

/-- `1e16` -/
def penalty : ℚ := 10 ^ 16

/-- `int(x)` -/
def int (x : ℚ≥0) : Nat := x.num / x.den

/-- What ends the program instead of a fitness. -/
inductive Stop where
  | exit
  | valueError
  | typeError
  deriving DecidableEq, Repr

/-- What the tools answer for one design point: whether the traffic generator and
the simulator succeed, and the final tick of the report, if there is one. -/
structure Answers where
  trafficGenerator : Bool
  simulator : Bool
  report : Option ℚ≥0
  deriving DecidableEq

/-- `latency, energy, error_msg = GetReportAPI()`. A report that fails is answered
with two values, which cannot be unpacked into three. -/
def getReport (a : Answers) : Except Stop ℚ≥0 :=
  match a.report with
  | some latency => .ok latency
  | none => .error .valueError

/-- `trafficGeneratorCstr`, for the tiles of the split. -/
def trafficGeneratorCstr (splitTile : List (List Nat)) : Bool :=
  (splitTile.map List.prod).prod < 100000

/-- A candidate as its search sees it. `swDse` is the attribute `sw_dse` that the
hardware search calls; its results are taken by their latencies. -/
inductive Candidate : Search → CostModel → Type where
  | swMaestro (latency : ℚ≥0) : Candidate .sw .maestro
  | swGem5 (splitTile : List (List Nat)) (answers : Answers) : Candidate .sw .gem5
  | hwMaestro (swDse : Option (List ℚ≥0)) : Candidate .hw .maestro
  | hwGem5 (fixedSw : List Answers) : Candidate .hw .gem5

/-- A report that was read: a latency of 1 stands for a failure. -/
def reportFitness (latency : ℚ≥0) : ℚ := if latency = 1 then penalty else -(int latency : ℚ)

def swMaestroFitness (latency : ℚ≥0) : ℚ := if latency = 0 then penalty else latency

def swGem5Fitness (splitTile : List (List Nat)) (a : Answers) : Except Stop ℚ :=
  if trafficGeneratorCstr splitTile = false then .ok penalty
  else if a.trafficGenerator = false then .ok penalty
  else if a.simulator = false then .error .exit
  else (getReport a).map reportFitness

/-- Calling the attribute fails as long as it is `None`. -/
def hwMaestroFitness (swDse : Option (List ℚ≥0)) : Except Stop ℚ :=
  match swDse with
  | none => .error .typeError
  | some latencies => .ok (-(latencies.sum : ℚ≥0) : ℚ)

/-- The loop over the files is left after the first. -/
def hwGem5Fitness (fixedSw : List Answers) : Except Stop ℚ :=
  match fixedSw with
  | [] => .ok (-(int 0 : ℚ))
  | a :: _ =>
    if a.trafficGenerator = false then .ok penalty
    else if a.simulator = false then .ok penalty
    else (getReport a).map reportFitness

def Candidate.fitness {s : Search} {m : CostModel} : Candidate s m → Except Stop ℚ
  | swMaestro latency => .ok (swMaestroFitness latency)
  | swGem5 splitTile a => swGem5Fitness splitTile a
  | hwMaestro swDse => hwMaestroFitness swDse
  | hwGem5 fixedSw => hwGem5Fitness fixedSw

/-! ## Ranking -/

namespace Candidate

variable {s : Search} {m : CostModel}

/-- The latency of a candidate that was simulated; `none` for one that is rejected. -/
def latency : Candidate s m → Option ℚ≥0
  | swMaestro latency => if latency = 0 then none else some latency
  | swGem5 splitTile a =>
    if trafficGeneratorCstr splitTile && a.trafficGenerator && a.simulator then a.report else none
  | hwMaestro none => none
  | hwMaestro (some latencies) => if 0 ∈ latencies then none else some latencies.sum
  | hwGem5 [] => some 0
  | hwGem5 (a :: _) => if a.trafficGenerator && a.simulator then a.report else none

/-- A rejected `x` is not better than a simulated `y`, and of two simulated ones the
faster is better. -/
structure Ranked (x y : Candidate s m) : Prop where
  rejected : x.latency = none → ∀ l, y.latency = some l →
    ∀ f g, x.fitness = .ok f → y.fitness = .ok g → f ≤ g
  faster : ∀ l l', x.latency = some l → y.latency = some l' → l < l' →
    ∃ f g, x.fitness = .ok f ∧ y.fitness = .ok g ∧ g < f

/-- Rejected with the penalty as its fitness, not with the end of the program. -/
def penalised : Candidate s m → Bool
  | swMaestro latency => latency = 0
  | swGem5 splitTile a => !(trafficGeneratorCstr splitTile && a.trafficGenerator)
  | hwMaestro _ => false
  | hwGem5 [] => false
  | hwGem5 (a :: _) => !(a.trafficGenerator && a.simulator)

/-- When the fitness ranks `x` and `y` as it should, for each search. -/
def RankedWhen (x y : Candidate s m) : Prop :=
  match x, y with
  | swMaestro l, swMaestro l' => (l = 0 → l' = 0 ∨ penalty ≤ l') ∧ (l = 0 ∨ l' ≤ l)
  | hwMaestro none, _ => True
  | hwMaestro (some _), hwMaestro none => True
  | hwMaestro (some ls), hwMaestro (some ls') => 0 ∈ ls → 0 ∈ ls' ∨ ls'.sum ≤ ls.sum
  | swGem5 t a, swGem5 t' a' =>
    ((swGem5 t a).penalised → ∀ l', (swGem5 t' a').latency = some l' → l' = 1) ∧
      ∀ l l', (swGem5 t a).latency = some l → (swGem5 t' a').latency = some l' → l < l' →
        l = 1 ∨ l' ≠ 1 ∧ int l < int l'
  | hwGem5 fs, hwGem5 fs' =>
    ((hwGem5 fs).penalised → ∀ l', (hwGem5 fs').latency = some l' → l' = 1) ∧
      ∀ l l', (hwGem5 fs).latency = some l → (hwGem5 fs').latency = some l' → l < l' →
        l = 1 ∨ l' ≠ 1 ∧ int l < int l'

end Candidate

theorem reportFitness_lt_penalty {l : ℚ≥0} (h : l ≠ 1) : reportFitness l < penalty := by
  rw [reportFitness, if_neg h, penalty]
  linarith

theorem penalty_le_reportFitness_iff (l : ℚ≥0) : penalty ≤ reportFitness l ↔ l = 1 := by
  constructor
  · intro h
    by_contra ne
    exact absurd h (not_le.mpr (reportFitness_lt_penalty ne))
  · rintro rfl
    exact (if_pos rfl).ge

/-- The order of two reports. -/
theorem reportFitness_lt_iff {l l' : ℚ≥0} (faster : l < l') :
    reportFitness l' < reportFitness l ↔ l = 1 ∨ l' ≠ 1 ∧ int l < int l' := by
  by_cases one : l = 1
  · have other : l' ≠ 1 := fun h => absurd faster (by rw [one, h]; exact lt_irrefl _)
    have here : reportFitness l = penalty := if_pos one
    rw [here]
    exact ⟨fun _ => .inl one, fun _ => reportFitness_lt_penalty other⟩
  · by_cases one' : l' = 1
    · have here : reportFitness l' = penalty := if_pos one'
      rw [here]
      constructor
      · intro h
        exact absurd h (not_lt.mpr (reportFitness_lt_penalty one).le)
      · rintro (h | h)
        · exact absurd h one
        · exact absurd one' h.1
    · rw [reportFitness, reportFitness, if_neg one, if_neg one', neg_lt_neg_iff, Nat.cast_lt]
      exact ⟨fun h => .inr ⟨one', h⟩, fun h => h.elim (fun h => absurd h one) fun h => h.2⟩

namespace Candidate

variable {s : Search} {m : CostModel}

/-- A search whose fitness is the penalty, the end of the program or that of a report. -/
theorem ranked_iff_of_report {x y : Candidate s m}
    (reported : ∀ z ∈ [x, y], ∀ l, z.latency = some l → z.fitness = .ok (reportFitness l))
    (rejected : x.latency = none → ∀ f, x.fitness = .ok f ↔ x.penalised ∧ f = penalty)
    (simulated : x.penalised → x.latency = none) :
    Ranked x y ↔ (x.penalised → ∀ l, y.latency = some l → l = 1) ∧
      ∀ l l', x.latency = some l → y.latency = some l' → l < l' →
        l = 1 ∨ l' ≠ 1 ∧ int l < int l' := by
  constructor
  · intro ranked
    constructor
    · intro penalised l hl
      have none := simulated penalised
      refine (penalty_le_reportFitness_iff l).mp ?_
      exact ranked.rejected none l hl _ _ ((rejected none _).mpr ⟨penalised, rfl⟩)
        (reported y (by simp) l hl)
    · intro l l' hl hl' faster
      obtain ⟨f, g, hf, hg, better⟩ := ranked.faster l l' hl hl' faster
      rw [reported x (by simp) l hl] at hf
      rw [reported y (by simp) l' hl'] at hg
      cases hf
      cases hg
      exact (reportFitness_lt_iff faster).mp better
  · rintro ⟨one, order⟩
    constructor
    · intro none l hl f g hf hg
      obtain ⟨penalised, rfl⟩ := (rejected none f).mp hf
      rw [reported y (by simp) l hl] at hg
      cases hg
      exact (penalty_le_reportFitness_iff l).mpr (one penalised l hl)
    · intro l l' hl hl' faster
      exact ⟨_, _, reported x (by simp) l hl, reported y (by simp) l' hl',
        (reportFitness_lt_iff faster).mpr (order l l' hl hl' faster)⟩

theorem swGem5_reported {t : List (List Nat)} {a : Answers} {l : ℚ≥0}
    (h : (swGem5 t a).latency = some l) : (swGem5 t a).fitness = .ok (reportFitness l) := by
  simp only [latency, Option.ite_none_right_eq_some, Bool.and_eq_true] at h
  obtain ⟨⟨⟨cstr, generator⟩, simulator⟩, report⟩ := h
  simp [fitness, swGem5Fitness, getReport, cstr, generator, simulator, report, Except.map]

theorem swGem5_rejected {t : List (List Nat)} {a : Answers} (none : (swGem5 t a).latency = none)
    (f : ℚ) : (swGem5 t a).fitness = .ok f ↔ (swGem5 t a).penalised ∧ f = penalty := by
  simp only [latency, ite_eq_right_iff, Bool.and_eq_true] at none
  simp only [fitness, swGem5Fitness, penalised]
  cases cstr : trafficGeneratorCstr t
  · simp [eq_comm]
  · cases generator : a.trafficGenerator
    · simp [eq_comm]
    · cases simulator : a.simulator
      · simp
      · have report := none ⟨⟨cstr, generator⟩, simulator⟩
        simp [getReport, report, Except.map]

theorem hwGem5_reported {fs : List Answers} {l : ℚ≥0} (h : (hwGem5 fs).latency = some l) :
    (hwGem5 fs).fitness = .ok (reportFitness l) := by
  cases fs with
  | nil =>
    cases h
    rfl
  | cons a fs =>
    simp only [latency, Option.ite_none_right_eq_some, Bool.and_eq_true] at h
    obtain ⟨⟨generator, simulator⟩, report⟩ := h
    simp [fitness, hwGem5Fitness, getReport, generator, simulator, report, Except.map]

theorem hwGem5_rejected {fs : List Answers} (none : (hwGem5 fs).latency = none) (f : ℚ) :
    (hwGem5 fs).fitness = .ok f ↔ (hwGem5 fs).penalised ∧ f = penalty := by
  cases fs with
  | nil => cases none
  | cons a fs =>
    simp only [latency, ite_eq_right_iff, Bool.and_eq_true] at none
    simp only [fitness, hwGem5Fitness, penalised]
    cases generator : a.trafficGenerator
    · simp [eq_comm]
    · cases simulator : a.simulator
      · simp [eq_comm]
      · have report := none ⟨generator, simulator⟩
        simp [getReport, report, Except.map]

theorem ranked_swMaestro_iff (l l' : ℚ≥0) :
    Ranked (swMaestro l) (swMaestro l') ↔
      (l = 0 → l' = 0 ∨ penalty ≤ l') ∧ (l = 0 ∨ l' ≤ l) := by
  have latency_eq (k : ℚ≥0) : (swMaestro k).latency = if k = 0 then none else some k := rfl
  have fitness_eq (k : ℚ≥0) : (swMaestro k).fitness = .ok (if k = 0 then penalty else (k : ℚ)) := rfl
  constructor
  · intro ranked
    constructor
    · intro zero
      by_cases zero' : l' = 0
      · exact .inl zero'
      · have le := ranked.rejected (by rw [latency_eq, if_pos zero]) l'
          (by rw [latency_eq, if_neg zero']) penalty l' (by rw [fitness_eq, if_pos zero])
          (by rw [fitness_eq, if_neg zero'])
        exact .inr le
    · by_contra other
      obtain ⟨some, less⟩ := not_or.mp other
      have faster : l < l' := not_le.mp less
      have some' : l' ≠ 0 := (pos_of_gt faster).ne'
      obtain ⟨f, g, hf, hg, better⟩ := ranked.faster l l' (by rw [latency_eq, if_neg some])
        (by rw [latency_eq, if_neg some']) faster
      rw [fitness_eq, if_neg some] at hf
      rw [fitness_eq, if_neg some'] at hg
      cases hf
      cases hg
      exact absurd faster (not_lt.mpr (by exact_mod_cast better.le))
  · rintro ⟨rejects, slower⟩
    constructor
    · intro none k hk f g hf hg
      rw [latency_eq] at none hk
      rw [fitness_eq] at hf hg
      by_cases zero : l = 0
      · by_cases zero' : l' = 0
        · simp [zero'] at hk
        · rw [if_pos zero] at hf
          rw [if_neg zero'] at hg
          cases hf
          cases hg
          exact (rejects zero).resolve_left zero'
      · simp [zero] at none
    · intro k k' hk hk' faster
      rw [latency_eq] at hk hk'
      by_cases zero : l = 0
      · simp [zero] at hk
      · by_cases zero' : l' = 0
        · simp [zero'] at hk'
        · rw [if_neg zero] at hk
          rw [if_neg zero'] at hk'
          cases hk
          cases hk'
          exact absurd faster (not_lt.mpr (slower.resolve_left zero))

theorem ranked_hwMaestro_iff (ls ls' : List ℚ≥0) :
    Ranked (hwMaestro (some ls)) (hwMaestro (some ls')) ↔ (0 ∈ ls → 0 ∈ ls' ∨ ls'.sum ≤ ls.sum) := by
  have latency_eq (k : List ℚ≥0) :
      (hwMaestro (some k)).latency = if 0 ∈ k then none else some k.sum := rfl
  have fitness_eq (k : List ℚ≥0) : (hwMaestro (some k)).fitness = .ok (-(k.sum : ℚ≥0) : ℚ) := rfl
  constructor
  · intro ranked zero
    by_cases zero' : 0 ∈ ls'
    · exact .inl zero'
    · have le := ranked.rejected (by rw [latency_eq, if_pos zero]) _
        (by rw [latency_eq, if_neg zero']) _ _ (fitness_eq ls) (fitness_eq ls')
      exact .inr (by exact_mod_cast neg_le_neg_iff.mp le)
  · intro rejects
    constructor
    · intro none k hk f g hf hg
      rw [latency_eq] at none hk
      cases hf
      cases hg
      have zero : 0 ∈ ls := by
        by_contra zero
        simp [zero] at none
      have some : 0 ∉ ls' := by
        intro zero'
        simp [zero'] at hk
      exact neg_le_neg (by exact_mod_cast (rejects zero).resolve_left some)
    · intro k k' hk hk' faster
      rw [latency_eq, Option.ite_none_left_eq_some] at hk hk'
      cases hk.2
      cases hk'.2
      exact ⟨_, _, rfl, rfl, neg_lt_neg (by exact_mod_cast faster)⟩

/-- When the fitness ranks two candidates of a search by their latency. -/
theorem ranked_iff (x y : Candidate s m) : Ranked x y ↔ RankedWhen x y := by
  cases x with
  | swMaestro l =>
    cases y with
    | swMaestro l' => exact ranked_swMaestro_iff l l'
  | swGem5 t a =>
    cases y with
    | swGem5 t' a' =>
      refine ranked_iff_of_report ?_ swGem5_rejected fun penalised => ?_
      · intro z hz l
        obtain rfl | rfl : z = swGem5 t a ∨ z = swGem5 t' a' := by simpa using hz
        all_goals exact swGem5_reported
      · simp only [Candidate.penalised, Bool.not_eq_true', Bool.and_eq_false_iff] at penalised
        simp only [latency]
        obtain h | h := penalised <;> simp [h]
  | hwMaestro sols =>
    cases y with
    | hwMaestro sols' =>
      cases sols with
      | none =>
        refine ⟨fun _ => trivial, fun _ => ⟨?_, ?_⟩⟩
        · intro _ _ _ f g hf
          cases hf
        · intro l l' hl
          cases hl
      | some ls =>
        cases sols' with
        | none =>
          refine ⟨fun _ => trivial, fun _ => ⟨?_, ?_⟩⟩
          · intro _ l hl
            cases hl
          · intro l l' _ hl'
            cases hl'
        | some ls' => exact ranked_hwMaestro_iff ls ls'
  | hwGem5 fs =>
    cases y with
    | hwGem5 fs' =>
      refine ranked_iff_of_report ?_ hwGem5_rejected fun penalised => ?_
      · intro z hz l
        obtain rfl | rfl : z = hwGem5 fs ∨ z = hwGem5 fs' := by simpa using hz
        all_goals exact hwGem5_reported
      · cases fs with
        | nil => cases penalised
        | cons a fs =>
          simp only [Candidate.penalised, Bool.not_eq_true', Bool.and_eq_false_iff] at penalised
          simp only [latency]
          obtain h | h := penalised <;> simp [h]

/-- A split that the constraint rejects is better than one that was simulated. -/
theorem rejected_split_wins :
    let x : Candidate .sw .gem5 := swGem5 [[1, 64, 56, 56]] ⟨true, true, some 1000⟩
    let y : Candidate .sw .gem5 := swGem5 [[1, 2, 2, 2]] ⟨true, true, some 1000⟩
    x.latency = none ∧ y.latency = some 1000 ∧ ¬Ranked x y := by
  intro x y
  have large : trafficGeneratorCstr [[1, 64, 56, 56]] = false := by decide
  have small : trafficGeneratorCstr [[1, 2, 2, 2]] = true := by decide
  have hx : x.latency = none := by simp [x, latency, large]
  have hy : y.latency = some 1000 := by simp [y, latency, small]
  refine ⟨hx, hy, fun ranked => ?_⟩
  have le := ranked.rejected hx 1000 hy penalty (reportFitness 1000)
    (by simp [x, fitness, swGem5Fitness, large]) (swGem5_reported hy)
  rw [penalty_le_reportFitness_iff] at le
  norm_num at le

end Candidate

end Dse

import Mathlib.Init

/-!
Machines whose actions can be disabled or fail. A run is a sequence of
successful actions; every action of it was allowed by a condition on the state
it was taken in, so a result about "every run whose steps all meet a condition"
is a result about `Reaches`.
-/

/-- `step s a` is `none` when `a` is not possible in `s`, an error when taking
it ends in a failure of the program, and the next state otherwise. -/
structure Machine (State Action Fault : Type) where
  start : State
  step : State → Action → Option (Except Fault State)

namespace Machine

variable {State Action Fault : Type} (M : Machine State Action Fault)

/-- The states of the runs whose actions all meet `allowed`. -/
inductive Reaches (allowed : State → Action → Prop) : State → Prop
  | start : Reaches allowed M.start
  | next {s t : State} {a : Action} : Reaches allowed s → allowed s a →
      M.step s a = some (.ok t) → Reaches allowed t

/-- One action run on a state; disabled and failing actions end the run. -/
def act (s : State) (a : Action) : Option State :=
  match M.step s a with
  | some (.ok t) => some t
  | _ => none

/-- A whole run from `s`, when every action of it succeeds. -/
def run (s : State) : List Action → Option State
  | [] => some s
  | a :: as => (M.act s a).bind fun t => run t as

/-- A whole run from `s`, in which every action is also checked to be allowed. -/
def runIf (allowed : State → Action → Prop) [∀ s a, Decidable (allowed s a)] (s : State) :
    List Action → Option State
  | [] => some s
  | a :: as => if allowed s a then (M.act s a).bind fun t => runIf allowed t as else none

variable {M} {allowed : State → Action → Prop}

/-- What the start state has and every allowed step keeps holds in every
state of every run. -/
theorem Reaches.invariant {I : State → Prop} (start : I M.start)
    (step : ∀ s a t, I s → allowed s a → M.step s a = some (.ok t) → I t)
    {s : State} (h : M.Reaches allowed s) : I s := by
  induction h with
  | start => exact start
  | next _ ok hstep ih => exact step _ _ _ ih ok hstep

theorem act_eq_some {s t : State} {a : Action} :
    M.act s a = some t ↔ M.step s a = some (.ok t) := by
  unfold act
  split
  · rename_i u hu
    rw [hu]
    simp
  · rename_i hn
    constructor
    · simp
    · intro h
      exact absurd h (hn t)

theorem Reaches.run {s t : State} (h : M.Reaches allowed s) (as : List Action)
    (ok : ∀ s a, allowed s a) (hr : M.run s as = some t) : M.Reaches allowed t := by
  induction as generalizing s with
  | nil =>
    cases hr
    exact h
  | cons a as ih =>
    simp only [Machine.run, Option.bind_eq_some_iff] at hr
    obtain ⟨u, hu, hr⟩ := hr
    exact ih (h.next (ok s a) (act_eq_some.mp hu)) hr

theorem Reaches.runIf [∀ s a, Decidable (allowed s a)] {s t : State} (h : M.Reaches allowed s)
    (as : List Action) (hr : M.runIf allowed s as = some t) : M.Reaches allowed t := by
  induction as generalizing s with
  | nil =>
    cases hr
    exact h
  | cons a as ih =>
    simp only [Machine.runIf] at hr
    split at hr
    · rename_i ok
      obtain ⟨u, hu, hr⟩ := Option.bind_eq_some_iff.mp hr
      exact ih (h.next ok (act_eq_some.mp hu)) hr
    · cases hr

/-- Where a state with `I` has `P`, a good step keeps `I` and any other step leads
to a state without `P`, a run has `P` all along exactly when all its steps are good. -/
theorem forall_run_iff {I P : State → Prop} {Good : State → Action → Prop}
    (holds : ∀ s, I s → P s)
    (keeps : ∀ s a t, I s → M.step s a = some (.ok t) → Good s a → I t)
    (only : ∀ s a t, I s → M.step s a = some (.ok t) → P t → Good s a)
    {s u : State} {as : List Action} (start : I s) (hr : M.run s as = some u) :
    (∀ bs cs, as = bs ++ cs → ∀ t, M.run s bs = some t → P t) ↔
    ∀ bs a cs, as = bs ++ a :: cs → ∀ t, M.run s bs = some t → Good t a := by
  induction as generalizing s with
  | nil =>
    constructor
    · intro _ bs a cs split
      simp at split
    · intro _ bs cs split t ht
      obtain ⟨rfl, -⟩ := List.append_eq_nil_iff.mp split.symm
      cases ht
      exact holds s start
  | cons a as ih =>
    obtain ⟨t, ht, hr⟩ := Option.bind_eq_some_iff.mp hr
    have step := act_eq_some.mp ht
    constructor
    · intro all bs b cs split v hv
      have good : Good s a := only s a t start step (all [a] as rfl t (by simp [Machine.run, ht]))
      cases bs with
      | nil =>
        cases hv
        cases split
        exact good
      | cons c bs =>
        cases split
        apply (ih (keeps s a t start step good) hr).mp _ bs b cs rfl v
        · simpa [Machine.run, ht] using hv
        · intro bs' cs' split' w hw
          apply all (a :: bs') cs' (by rw [split', List.cons_append]) w
          simpa [Machine.run, ht] using hw
    · intro all bs cs split v hv
      have good : Good s a := all [] a as rfl s rfl
      cases bs with
      | nil =>
        cases hv
        exact holds s start
      | cons c bs =>
        cases split
        apply (ih (keeps s a t start step good) hr).mpr _ bs cs rfl v
        · simpa [Machine.run, ht] using hv
        · intro bs' b cs' split' w hw
          apply all (a :: bs') b cs' (by rw [split', List.cons_append]) w
          simpa [Machine.run, ht] using hw

end Machine

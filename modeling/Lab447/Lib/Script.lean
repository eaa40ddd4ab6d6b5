import Mathlib.Init

/-!
Sequences of actions that can fail. An action either gives the next state or
ends the whole sequence with a failure.
-/

namespace Script

variable {A X Y F : Type}

variable {e : Except F X}

theorem map_eq_ok {f : X → Y} {y : Y} : e.map f = .ok y ↔ ∃ x, e = .ok x ∧ f x = y := by
  cases e <;> simp [Except.map]

variable {fault : F}

theorem map_eq_error {f : X → Y} : e.map f = .error fault ↔ e = .error fault := by
  cases e <;> simp [Except.map]

variable {f : X → Except F Y}

theorem bind_eq_ok {y : Y} : e.bind f = .ok y ↔ ∃ x, e = .ok x ∧ f x = .ok y := by
  cases e <;> simp [Except.bind]

theorem bind_eq_error :
    e.bind f = .error fault ↔ e = .error fault ∨ ∃ x, e = .ok x ∧ f x = .error fault := by
  cases e <;> simp [Except.bind]

variable (act : A → X → Except F X)

def run : List A → X → Except F X
  | [], x => .ok x
  | a :: as, x => (act a x).bind (run as)

variable {act} {as : List A} {x y : X}

theorem run_cons {a : A} :
    run act (a :: as) x = .ok y ↔ ∃ z, act a x = .ok z ∧ run act as z = .ok y :=
  bind_eq_ok

/-- Actions that leave the state as it is can be left out. -/
theorem run_idle (idle : ∀ a ∈ as, act a x = .ok x) (bs : List A) :
    run act (as ++ bs) x = run act bs x := by
  induction as with
  | nil => rfl
  | cons a as ih =>
    rw [List.cons_append, run, idle a (.head as)]
    exact ih fun b hb => idle b (.tail a hb)

variable {P : X → Prop}

/-- What every action of the sequence keeps, the sequence keeps. -/
theorem run_keeps (keeps : ∀ a ∈ as, ∀ x y, P x → act a x = .ok y → P y) (h : run act as x = .ok y)
    (start : P x) : P y := by
  induction as generalizing x with
  | nil =>
    cases h
    exact start
  | cons a as ih =>
    obtain ⟨z, hz, h⟩ := run_cons.mp h
    apply ih (fun b hb => keeps b (.tail a hb)) h
    exact keeps a (.head as) x z start hz

/-- What one action of the sequence brings about and none of them undoes holds
in the end. -/
theorem run_establishes {Q : X → Prop} {a : A} (mem : a ∈ as)
    (brings : ∀ x y, Q x → act a x = .ok y → P y)
    (keeps : ∀ b ∈ as, ∀ x y, P x → act b x = .ok y → P y)
    (before : ∀ b ∈ as, ∀ x y, Q x → act b x = .ok y → Q y) (h : run act as x = .ok y) (start : Q x) :
    P y := by
  induction as generalizing x with
  | nil => cases mem
  | cons b as ih =>
    obtain ⟨z, hz, hrest⟩ := run_cons.mp h
    have later : ∀ b ∈ as, ∀ x y, P x → act b x = .ok y → P y := fun b hb => keeps b (.tail _ hb)
    obtain rfl | mem := List.mem_cons.mp mem
    · exact run_keeps later hrest (brings x z start hz)
    · exact ih mem later (fun b hb => before b (.tail _ hb)) hrest
        (before b (.head as) x z start hz)

/-- A sequence that fails does so at one of its actions, in a state its earlier
actions lead to. -/
theorem run_error (start : P x) (keeps : ∀ a ∈ as, ∀ x y, P x → act a x = .ok y → P y)
    (h : run act as x = .error fault) : ∃ a ∈ as, ∃ z, P z ∧ act a z = .error fault := by
  induction as generalizing x with
  | nil => cases h
  | cons a as ih =>
    obtain h | ⟨z, hz, h⟩ := bind_eq_error.mp h
    · exact ⟨a, .head as, x, start, h⟩
    · have later : ∀ b ∈ as, ∀ x y, P x → act b x = .ok y → P y := fun b hb => keeps b (.tail _ hb)
      obtain ⟨b, hb, w, hw, hf⟩ := ih (keeps a (.head as) x z start hz) later h
      exact ⟨b, .tail a hb, w, hw, hf⟩

variable (act) in
/-- A run seen through a relation: the listed actions are taken one after the
other, and between them the state only moves along `R`. -/
inductive Along (R : X → X → Prop) : List A → X → X → Prop
  | done {x y : X} : R x y → Along R [] x y
  | step {x y z w : X} {a : A} {as : List A} : R x y → act a y = .ok z → Along R as z w →
      Along R (a :: as) x w

variable {R : X → X → Prop}

theorem Along.after (trans : ∀ x y z, R x y → R y z → R x z) {z : X} (first : R x y)
    (h : Along act R as y z) : Along act R as x z := by
  cases h with
  | done h => exact .done (trans _ _ _ first h)
  | step h ha rest => exact .step (trans _ _ _ first h) ha rest

theorem Along.before (trans : ∀ x y z, R x y → R y z → R x z) {z : X} (h : Along act R as x y)
    (last : R y z) : Along act R as x z := by
  induction h with
  | done h => exact .done (trans _ _ _ h last)
  | step h ha _ ih => exact .step h ha (ih last)

theorem Along.cons_inv {a : A} (h : Along act R (a :: as) x y) :
    ∃ u v, R x u ∧ act a u = .ok v ∧ Along act R as v y := by
  cases h with
  | step first ha rest => exact ⟨_, _, first, ha, rest⟩

theorem Along.nil_inv (h : Along act R [] x y) : R x y := by
  cases h with
  | done h => exact h

/-- Actions that move the state along `R` can be left out of a run. -/
theorem along_of_run (refl : ∀ x, R x x) (trans : ∀ x y z, R x y → R y z → R x z) (quiet : A → Bool)
    (moves : ∀ a, quiet a = true → ∀ x y, act a x = .ok y → R x y) (h : run act as x = .ok y) :
    Along act R (as.filter fun a => !quiet a) x y := by
  induction as generalizing x with
  | nil =>
    cases h
    exact .done (refl _)
  | cons a as ih =>
    obtain ⟨z, hz, h⟩ := run_cons.mp h
    have rest := ih h
    cases hq : quiet a with
    | true =>
      rw [List.filter_cons_of_neg (by simp [hq])]
      exact rest.after trans (moves a hq x z hz)
    | false =>
      rw [List.filter_cons_of_pos (by simp [hq])]
      exact .step (refl x) hz rest

/-! ### Failures that do not happen -/

/-- The outcome is not this failure. -/
def Avoids (fault : F) (e : Except F X) : Prop := e ≠ .error fault

theorem avoids_ok {x : X} : Avoids fault (.ok x : Except F X) := nofun

theorem avoids_error {f : F} (h : f ≠ fault) : Avoids fault (.error f : Except F X) :=
  fun he => h (Except.error.inj he)

theorem avoids_map {f : X → Y} (h : Avoids fault e) :
    Avoids fault (e.map f) := fun he => h (map_eq_error.mp he)

theorem avoids_bind (h : Avoids fault e) (hf : ∀ x, e = .ok x → Avoids fault (f x)) :
    Avoids fault (e.bind f) := by
  intro he
  obtain he | ⟨x, hx, he⟩ := bind_eq_error.mp he
  · exact h he
  · exact hf x hx he

theorem avoids_run (start : P x) (keeps : ∀ a ∈ as, ∀ x y, P x → act a x = .ok y → P y)
    (avoids : ∀ a ∈ as, ∀ z, P z → Avoids fault (act a z)) : Avoids fault (run act as x) := by
  intro he
  obtain ⟨a, ha, z, hz, hf⟩ := run_error start keeps he
  exact avoids a ha z hz hf

/-! ### Outcomes -/

/-- The outcome has `P`, unless it is a failure that may happen. -/
def Ends (may : F → Prop) (P : X → Prop) : Except F X → Prop
  | .ok x => P x
  | .error f => may f

variable {may : F → Prop} {P : X → Prop}

theorem Ends.ok (h : Ends may P e) (he : e = .ok x) : P x := by
  subst he
  exact h

theorem Ends.error {f : F} (h : Ends may P e) (he : e = .error f) : may f := by
  subst he
  exact h

theorem Ends.imp {Q : X → Prop} (h : Ends may P e) (imp : ∀ x, P x → Q x) : Ends may Q e := by
  cases e with
  | ok x => exact imp x h
  | error f => exact h

theorem Ends.map {f : X → Y} {Q : Y → Prop} (h : Ends may P e) (hf : ∀ x, P x → Q (f x)) :
    Ends may Q (e.map f) := by
  cases e with
  | ok x => exact hf x h
  | error f => exact h

theorem Ends.bind {Q : Y → Prop} (h : Ends may P e) (hf : ∀ x, P x → Ends may Q (f x)) :
    Ends may Q (e.bind f) := by
  cases e with
  | ok x => exact hf x h
  | error f => exact h

theorem Ends.run (start : P x) (keeps : ∀ a ∈ as, ∀ x, P x → Ends may P (act a x)) :
    Ends may P (run act as x) := by
  induction as generalizing x with
  | nil => exact start
  | cons a as ih =>
    apply (keeps a (.head as) x start).bind
    exact fun y hy => ih hy fun b hb => keeps b (.tail a hb)

end Script

import Mathlib

/-!
Commands on a state, as functions, with rules for what they keep and for what
they add to a measure of the state. The rules follow the text of a command:
blocks, counted loops and conditionals.
-/

namespace Command

variable {σ α M : Type}

/-- The commands one after the other. -/
def block (cs : List (σ → σ)) (s : σ) : σ := cs.foldl (fun s c => c s) s

/-- `c`, `k` times. -/
def times : Nat → (σ → σ) → σ → σ
  | 0, _, s => s
  | k + 1, c, s => times k c (c s)

/-- `c x` for every `x` of the list. -/
def each (xs : List α) (c : α → σ → σ) : σ → σ := block (xs.map c)

/-- `c` if the condition holds. -/
def onlyIf (p : Prop) [Decidable p] (c : σ → σ) (s : σ) : σ := if p then c s else s

@[simp] theorem block_nil (s : σ) : block [] s = s := rfl

@[simp] theorem block_cons (c : σ → σ) (cs : List (σ → σ)) (s : σ) :
    block (c :: cs) s = block cs (c s) := rfl

@[simp] theorem each_nil (c : α → σ → σ) (s : σ) : each [] c s = s := rfl

@[simp] theorem each_cons (x : α) (xs : List α) (c : α → σ → σ) (s : σ) :
    each (x :: xs) c s = each xs c (c x s) := rfl

/-! ## Invariants -/

/-- `c` keeps `P`. -/
def Keeps (P : σ → Prop) (c : σ → σ) : Prop := ∀ s, P s → P (c s)

variable {c : σ → σ} {cs : List (σ → σ)}

section

variable {P : σ → Prop}

theorem Keeps.nil : Keeps P (block []) := fun _ hs => hs

theorem Keeps.cons (h : Keeps P c) (hs : Keeps P (block cs)) : Keeps P (block (c :: cs)) :=
  fun s hp => hs _ (h s hp)

theorem Keeps.times (k : Nat) (h : Keeps P c) : Keeps P (times k c) := by
  induction k with
  | zero => exact fun _ hs => hs
  | succ k ih => exact fun s hs => ih _ (h s hs)

theorem Keeps.each {xs : List α} {c : α → σ → σ} (h : ∀ x ∈ xs, Keeps P (c x)) :
    Keeps P (each xs c) := by
  induction xs with
  | nil => exact Keeps.nil
  | cons x xs ih =>
    have rest := ih fun y hy => h y (List.mem_cons_of_mem _ hy)
    exact Keeps.cons (h x List.mem_cons_self) rest

theorem Keeps.onlyIf (p : Prop) [Decidable p] (h : p → Keeps P c) : Keeps P (onlyIf p c) := by
  intro s hs
  unfold Command.onlyIf
  split
  · rename_i hp
    exact h hp s hs
  · exact hs

end

/-! ## Measures -/

/-- `c` adds `d` to the measure `f`, in every state. -/
def Adds [AddMonoid M] (f : σ → M) (c : σ → σ) (d : M) : Prop := ∀ s, f (c s) = f s + d

section

variable [AddMonoid M] {f : σ → M}

theorem Adds.congr {d e : M} (h : Adds f c d) (eq : d = e) : Adds f c e := eq ▸ h

theorem Adds.nil : Adds f (block []) 0 := fun s => (add_zero (f s)).symm

theorem Adds.cons {d ds : M} (h : Adds f c d) (hs : Adds f (block cs) ds) :
    Adds f (block (c :: cs)) (d + ds) := by
  intro s
  rw [block_cons, hs, h, add_assoc]

theorem Adds.times (k : Nat) {d : M} (h : Adds f c d) : Adds f (times k c) (k • d) := by
  induction k with
  | zero =>
    intro s
    rw [zero_nsmul, add_zero]
    rfl
  | succ k ih =>
    intro s
    calc f (Command.times (k + 1) c s) = f (c s) + k • d := ih (c s)
      _ = f s + (k + 1) • d := by rw [h, add_assoc, succ_nsmul']

theorem Adds.each (xs : List α) {c : α → σ → σ} {d : α → M}
    (h : ∀ x ∈ xs, Adds f (c x) (d x)) : Adds f (each xs c) (xs.map d).sum := by
  induction xs with
  | nil => exact Adds.nil
  | cons x xs ih =>
    have rest := ih fun y hy => h y (List.mem_cons_of_mem _ hy)
    exact Adds.cons (h x List.mem_cons_self) rest

theorem Adds.onlyIf (p : Prop) [Decidable p] {d : M} (h : Adds f c d) :
    Adds f (onlyIf p c) (if p then d else 0) := by
  intro s
  unfold Command.onlyIf
  split
  · exact h s
  · exact (add_zero _).symm

end

/-! ## Words -/

/-- In every state with `P`, `c` does what the actions of the word do one after
the other. -/
def Spells {A : Type} (act : A → σ → σ) (P : σ → Prop) (c : σ → σ) (w : List A) : Prop :=
  ∀ s, P s → c s = each w act s

section

variable {A : Type} {act : A → σ → σ} {P : σ → Prop}

theorem each_append (u v : List α) (c : α → σ → σ) (s : σ) :
    each (u ++ v) c s = each v c (each u c s) := by
  induction u generalizing s with
  | nil => rfl
  | cons x u ih => exact ih (c x s)

theorem Spells.one (a : A) : Spells act P (act a) [a] := fun _ _ => rfl

theorem Spells.nil : Spells act P (block []) [] := fun _ _ => rfl

variable (keeps : ∀ a, Keeps P (act a))

include keeps

theorem Spells.cons {w ws : List A} (h : Spells act P c w) (hs : Spells act P (block cs) ws) :
    Spells act P (block (c :: cs)) (w ++ ws) := by
  intro s hp
  have later : P (Command.each w act s) := Keeps.each (fun a _ => keeps a) s hp
  rw [block_cons, h s hp, hs _ later, each_append]

theorem Spells.times (k : Nat) {w : List A} (h : Spells act P c w) :
    Spells act P (times k c) (List.replicate k w).flatten := by
  induction k with
  | zero => exact fun _ _ => rfl
  | succ k ih =>
    intro s hp
    have later : P (Command.each w act s) := Keeps.each (fun a _ => keeps a) s hp
    rw [List.replicate_succ, List.flatten_cons, each_append, Command.times, h s hp, ih _ later]

theorem Spells.each {xs : List α} {c : α → σ → σ} {w : α → List A}
    (h : ∀ x ∈ xs, Spells act P (c x) (w x)) : Spells act P (each xs c) (xs.flatMap w) := by
  induction xs with
  | nil => exact Spells.nil
  | cons x xs ih =>
    have rest := ih fun y hy => h y (List.mem_cons_of_mem _ hy)
    exact Spells.cons keeps (h x List.mem_cons_self) rest

omit keeps in
theorem Spells.onlyIf (p : Prop) [Decidable p] {w : List A} (h : Spells act P c w) :
    Spells act P (onlyIf p c) (if p then w else []) := by
  intro s hp
  unfold Command.onlyIf
  split
  · exact h s hp
  · rfl

end

end Command

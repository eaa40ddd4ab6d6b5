import Mathlib.Data.List.Basic

/-!
Singly linked lists in a heap. A cell is known by its address, `next` gives the
address its pointer field holds, and the null pointer is `none`.
-/

namespace Linked

variable {ε : Type}

/-- Following `next` from the pointer `p` visits exactly the cells of the list. -/
def Chain (next : ε → Option ε) : Option ε → List ε → Prop
  | p, [] => p = none
  | p, x :: xs => p = some x ∧ Chain next (next x) xs

variable {next next' : ε → Option ε} {p p' : Option ε} {x : ε} {l pre post post' : List ε}

theorem Chain.eq_head? (h : Chain next p l) : p = l.head? := by
  cases l with
  | nil => exact h
  | cons x xs => exact h.1

theorem Chain.congr (h : Chain next p l) (same : ∀ x ∈ l, next' x = next x) :
    Chain next' p l := by
  induction l generalizing p with
  | nil => exact h
  | cons x xs ih =>
    refine ⟨h.1, ?_⟩
    rw [same x (.head xs)]
    exact ih h.2 fun y hy => same y (.tail x hy)

/-- What hangs on a cell of the list. -/
theorem Chain.rest (h : Chain next p (pre ++ x :: post)) : Chain next (next x) post := by
  induction pre generalizing p with
  | nil => exact h.2
  | cons y ys ih => exact ih h.2

/-- The list up to a cell stays, and something else is hung on that cell. -/
theorem Chain.splice (h : Chain next p (pre ++ x :: post)) (same : ∀ y ∈ pre, next' y = next y)
    (hung : Chain next' (next' x) post') : Chain next' p (pre ++ x :: post') := by
  induction pre generalizing p with
  | nil => exact ⟨h.1, hung⟩
  | cons y ys ih =>
    refine ⟨h.1, ?_⟩
    rw [same y (.head ys)]
    exact ih h.2 fun z hz => same z (.tail y hz)

/-- `while (curr && c(curr)) { prev = curr; curr = curr->next; }`, for at most
`fuel` tests. -/
def advance (next : ε → Option ε) (c : ε → Bool) : Nat → ε → Option ε → Option (ε × Option ε)
  | 0, _, _ => none
  | fuel + 1, prev, curr =>
    match curr with
    | none => some (prev, none)
    | some x => if c x then advance next c fuel x (next x) else some (prev, some x)

/-- The loop ends at the first cell that fails the test. -/
theorem advance_eq {c : ε → Bool} {fuel : Nat} (prev : ε) (h : Chain next p l)
    (enough : l.length < fuel) : ∃ pre x, prev :: l.takeWhile c = pre ++ [x] ∧
      advance next c fuel prev p = some (x, (l.dropWhile c).head?) := by
  induction l generalizing fuel prev p with
  | nil =>
    cases h
    obtain ⟨fuel, rfl⟩ := Nat.exists_eq_add_of_lt enough
    exact ⟨[], prev, rfl, rfl⟩
  | cons y ys ih =>
    obtain ⟨rfl, h⟩ := h
    obtain ⟨fuel, rfl⟩ : ∃ f, fuel = f + 1 := ⟨fuel - 1, by omega⟩
    cases hc : c y with
    | false =>
      refine ⟨[], prev, ?_, ?_⟩
      · rw [List.takeWhile_cons_of_neg (by simp [hc])]
        rfl
      · simp [advance, hc]
    | true =>
      obtain ⟨pre, x, split, found⟩ := ih y h (by simpa using enough)
      refine ⟨prev :: pre, x, ?_, ?_⟩
      · rw [List.takeWhile_cons_of_pos hc, split]
        rfl
      · rw [List.dropWhile_cons_of_pos hc, ← found]
        simp [advance, hc]

end Linked

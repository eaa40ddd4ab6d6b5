import Mathlib

/-!
Distances in weighted graphs, and matrices of distances that are improved entry by
entry. A large number stands for no path: only the entries below it are distances.
-/

namespace Distance

variable {V : Type}

/-- There is a path of this weight. -/
inductive Path (edge : V → V → ℕ → Prop) : V → V → ℕ → Prop
  | nil (i : V) : Path edge i i 0
  | cons {i j k : V} {w x : ℕ} (first : edge i j w) (rest : Path edge j k x) : Path edge i k (w + x)

variable {edge : V → V → ℕ → Prop}

variable {i j : V}

theorem Path.single {w : ℕ} (h : edge i j w) : Path edge i j w :=
  .cons h (.nil j)

theorem Path.append {k : V} {w x : ℕ} (first : Path edge i j w) (rest : Path edge j k x) :
    Path edge i k (w + x) := by
  induction first with
  | nil => simpa using rest
  | cons e _ ih =>
    rw [Nat.add_assoc]
    exact .cons e (ih rest)

/-- A potential that no edge lets drop by more than its weight bounds all paths. -/
theorem Path.le_potential {f : V → ℕ} (step : ∀ i j w, edge i j w → f i ≤ w + f j) {w : ℕ}
    (h : Path edge i j w) : f i ≤ w + f j := by
  induction h with
  | nil => simp
  | cons first _ ih =>
    have := step _ _ _ first
    omega

/-- The entries below `bound` are weights of paths. -/
structure Sound (edge : V → V → ℕ → Prop) (bound : ℤ) (D : V → V → ℤ) : Prop where
  nonneg : ∀ i j, 0 ≤ D i j
  path : ∀ i j, D i j < bound → ∃ w : ℕ, Path edge i j w ∧ D i j = w

/-- No entry can be improved through a third vertex of `S`. -/
def Closed (S : V → Prop) (D : V → V → ℤ) : Prop :=
  ∀ i j k, S i → S j → S k → D i j ≤ D i k + D k j

/-- The entries are at most the weights of edges, which join vertices of `S`. -/
def Direct (S : V → Prop) (edge : V → V → ℕ → Prop) (D : V → V → ℤ) : Prop :=
  ∀ i j w, edge i j w → S i ∧ S j ∧ D i j ≤ w

section
variable {bound : ℤ} {D : V → V → ℤ} {S : V → Prop}

theorem Closed.le_path (closed : Closed S D) (direct : Direct S edge D) {w : ℕ}
    (h : Path edge i j w) : i = j ∨ S i ∧ S j ∧ D i j ≤ w := by
  induction h with
  | nil => exact .inl rfl
  | @cons i j k w x first _ ih =>
    obtain ⟨hi, hj, le⟩ := direct i j w first
    obtain rfl | ⟨-, hk, rest⟩ := ih
    · exact .inr ⟨hi, hj, le.trans (by simp)⟩
    · have := closed i k j hi hk hj
      refine .inr ⟨hi, hk, ?_⟩
      omega

/-- A matrix that cannot be improved has the distances below the bound. -/
theorem eq_of_isLeast (sound : Sound edge bound D) (closed : Closed S D) (direct : Direct S edge D)
    {d : ℕ} (least : IsLeast {w | Path edge i j w} d) (small : (d : ℤ) < bound) (ne : i ≠ j) :
    D i j = d := by
  obtain eq | ⟨-, -, le⟩ := closed.le_path direct least.1
  · exact absurd eq ne
  · obtain ⟨w, path, eq⟩ := sound.path i j (le.trans_lt small)
    have := least.2 path
    omega

/-- The first edge of a shortest path. -/
theorem exists_next (sound : Sound edge bound D) (closed : Closed S D) (direct : Direct S edge D)
    {t : V} (zero : D t t = 0) (ne : i ≠ t) (small : D i t < bound) :
    ∃ j w, edge i j w ∧ w + D j t = D i t := by
  obtain ⟨weight, path, eq⟩ := sound.path i t small
  cases path with
  | nil => exact absurd rfl ne
  | @cons _ j _ w x first rest =>
    obtain ⟨hi, hj, le⟩ := direct i j w first
    refine ⟨j, w, first, ?_⟩
    obtain rfl | ⟨-, ht, below⟩ := closed.le_path direct rest
    · omega
    · have := closed i t j hi ht hj
      omega

end

section
variable [DecidableEq V] {bound : ℤ} {D : V → V → ℤ}

def set (D : V → V → ℤ) (i j : V) (m : ℤ) : V → V → ℤ :=
  fun a b => if a = i ∧ b = j then m else D a b

/-- An entry may be improved through a third vertex. -/
theorem Sound.set (h : Sound edge bound D) {k : V} : Sound edge bound
    (set D i j (D i k + D k j)) := by
  have left := h.nonneg i k
  have right := h.nonneg k j
  constructor
  · intro a b
    unfold Distance.set
    split
    · omega
    · exact h.nonneg a b
  · intro a b small
    unfold Distance.set at small ⊢
    split at small
    next same =>
      obtain ⟨rfl, rfl⟩ := same
      obtain ⟨w, first, hw⟩ := h.path a k (by omega)
      obtain ⟨x, rest, hx⟩ := h.path k b (by omega)
      exact ⟨w + x, first.append rest, by simp [hw, hx]⟩
    next other =>
      rw [if_neg other]
      exact h.path a b small

/-- What is left to improve. -/
def total (S : Finset (V × V)) (D : V → V → ℤ) : ℕ := ∑ p ∈ S, (D p.1 p.2).toNat

theorem total_set_lt {S : Finset (V × V)} {m : ℤ} (mem : (i, j) ∈ S) (pos : 0 ≤ m)
    (less : m < D i j) : total S (set D i j m) < total S D := by
  apply Finset.sum_lt_sum
  · rintro ⟨a, b⟩ -
    simp only [set]
    split
    next same =>
      obtain ⟨rfl, rfl⟩ := same
      exact Int.toNat_le_toNat less.le
    next => exact Nat.le_refl _
  · refine ⟨(i, j), mem, ?_⟩
    simp only [set, and_self, if_true]
    omega

end

theorem foldl_min_spec {K : Type} (f : K → ℤ) (ks : List K) (a : ℤ) :
    let m := ks.foldl (fun m k => min m (f k)) a
    m ≤ a ∧ (∀ k ∈ ks, m ≤ f k) ∧ (m = a ∨ ∃ k ∈ ks, m = f k) := by
  induction ks generalizing a with
  | nil => simp
  | cons k ks ih =>
    obtain ⟨le, all, eq⟩ := ih (min a (f k))
    refine ⟨le.trans (min_le_left _ _), ?_, ?_⟩
    · intro x mem
      obtain rfl | mem := List.mem_cons.mp mem
      · exact le.trans (min_le_right _ _)
      · exact all x mem
    · obtain eq | ⟨x, mem, eq⟩ := eq
      · obtain least | least := min_choice a (f k)
        · exact .inl (eq.trans least)
        · exact .inr ⟨k, List.mem_cons_self, eq.trans least⟩
      · exact .inr ⟨x, List.mem_cons_of_mem _ mem, eq⟩

end Distance

import Mathlib

/-!
A pointer that is moved on by a fixed step, with wrap-around: when the pieces it
passes stay inside a range.
-/

namespace Walk

/-- The bytes `[a, a + size)` are all in `[lo, hi)`. -/
def Within (lo hi a size : Nat) : Prop := ∀ b, a ≤ b → b < a + size → lo ≤ b ∧ b < hi

theorem within_zero (lo hi a : Nat) : Within lo hi a 0 := by
  intro b low high
  omega

theorem within_iff {lo hi a size : Nat} (pos : 0 < size) :
    Within lo hi a size ↔ lo ≤ a ∧ a + size ≤ hi := by
  constructor
  · intro h
    have first := h a le_rfl (by omega)
    have last := h (a + size - 1) (by omega) (by omega)
    omega
  · intro h b low high
    omega

/-- The address of piece `k`. -/
def piece (modulus base size k : Nat) : Nat := (base + k * size) % modulus

theorem piece_eq {modulus base size k : Nat} (h : base + k * size < modulus) :
    piece modulus base size k = base + k * size :=
  Nat.mod_eq_of_lt h

theorem piece_succ (modulus base size k : Nat) :
    (piece modulus base size k + size) % modulus = piece modulus base size (k + 1) := by
  rw [piece, piece, Nat.mod_add_mod, Nat.add_assoc, Nat.succ_mul]

/-- The pieces from `m` up to `m + n` are inside the range exactly when the first
one starts after its lower end and the last one stops before its upper end. -/
theorem pieces_within_iff {modulus base size m n lo hi : Nat} (pos : 0 < size) (many : 0 < n)
    (start : base + m * size < modulus) (stop : hi < modulus) :
    (∀ k, m ≤ k → k < m + n → Within lo hi (piece modulus base size k) size) ↔
      lo ≤ base + m * size ∧ base + (m + n) * size ≤ hi := by
  have next (k : Nat) : base + (k + 1) * size = base + k * size + size := by
    rw [Nat.succ_mul, Nat.add_assoc]
  constructor
  · intro h
    -- each piece inside keeps the next one from wrapping around
    have exact_until (i : Nat) (hi' : i < n) : base + (m + i + 1) * size ≤ hi := by
      induction i with
      | zero =>
        have first := (within_iff pos).mp (h m le_rfl (by omega))
        rw [piece_eq start] at first
        rw [Nat.add_zero, next]
        exact first.2
      | succ i ih =>
        have here := ih (by omega)
        have inside := (within_iff pos).mp (h (m + i + 1) (by omega) (by omega))
        rw [piece_eq (lt_of_le_of_lt here stop)] at inside
        rw [← Nat.add_assoc, next]
        exact inside.2
    have first := (within_iff pos).mp (h m le_rfl (by omega))
    rw [piece_eq start] at first
    have last := exact_until (n - 1) (by omega)
    rw [show m + (n - 1) + 1 = m + n by omega] at last
    exact ⟨first.1, last⟩
  · rintro ⟨low, high⟩ k first last
    have before : base + m * size ≤ base + k * size :=
      Nat.add_le_add_left (Nat.mul_le_mul_right _ first) _
    have after : base + (k + 1) * size ≤ base + (m + n) * size :=
      Nat.add_le_add_left (Nat.mul_le_mul_right _ last) _
    rw [next] at after
    rw [piece_eq (by omega)]
    exact (within_iff pos).mpr ⟨by omega, by omega⟩

/-- A walk from the lower end of a range stays in it exactly when it is not longer. -/
theorem walk_within_iff {modulus base size n length : Nat} (stop : base + length < modulus) :
    (∀ k < n, Within base (base + length) (piece modulus base size k) size) ↔
      n * size ≤ length := by
  obtain zero | pos := Nat.eq_zero_or_pos size
  · simp [zero, within_zero]
  obtain zero | many := Nat.eq_zero_or_pos n
  · simp [zero]
  have start : base + 0 * size < modulus := by omega
  have walk : (∀ k, 0 ≤ k → k < 0 + n →
      Within base (base + length) (piece modulus base size k) size) ↔
      base ≤ base + 0 * size ∧ base + (0 + n) * size ≤ base + length :=
    pieces_within_iff pos many start stop
  simpa using walk

end Walk

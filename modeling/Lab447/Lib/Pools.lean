import Mathlib.Data.List.Range
import Mathlib.Data.List.Perm.Basic
import Mathlib.Logic.Function.Basic

/-!
Families of queues, numbered from 0: what is in all of them together.
-/

namespace Pools

variable {α β : Type} {n k : Nat} {q : Nat → List α}

/-- Everything in the first `n` queues. -/
def pool (n : Nat) (q : Nat → List α) : List α := (List.range n).flatMap q

theorem mem_pool {x : α} : x ∈ pool n q ↔ ∃ k < n, x ∈ q k := by
  simp [pool, List.mem_flatMap]

theorem pool_succ : pool (n + 1) q = pool n q ++ q n := by
  simp [pool, List.range_succ]

theorem pool_congr {q' : Nat → List α} (h : ∀ k < n, q' k = q k) : pool n q' = pool n q := by
  induction n with
  | zero => rfl
  | succ n ih =>
    rw [pool_succ, pool_succ, h n (Nat.lt_succ_self n),
      ih fun k hk => h k (hk.trans (Nat.lt_succ_self n))]

theorem perm_eraseIdx {l : List α} {x : α} (h : l[k]? = some x) : l.Perm (x :: l.eraseIdx k) := by
  obtain ⟨hk, rfl⟩ := List.getElem?_eq_some_iff.mp h
  exact (List.getElem_cons_eraseIdx_perm hk).symm

/-- One queue changes: what it gains all of them gain, and what it loses. -/
theorem pool_update (lost gained : List α) {l : List α} (hk : k < n)
    (h : (lost ++ l).Perm (gained ++ q k)) :
    (lost ++ pool n (Function.update q k l)).Perm (gained ++ pool n q) := by
  induction n with
  | zero => cases hk
  | succ n ih =>
    rw [pool_succ, pool_succ]
    obtain hk | rfl := Nat.lt_succ_iff_lt_or_eq.mp hk
    · rw [Function.update_of_ne (by omega), ← List.append_assoc, ← List.append_assoc]
      exact (ih hk).append_right _
    · have same : pool k (Function.update q k l) = pool k q :=
        pool_congr fun j hj => Function.update_of_ne hj.ne l q
      rw [Function.update_self, same]
      calc (lost ++ (pool k q ++ l)).Perm (pool k q ++ (lost ++ l)) := by
            rw [← List.append_assoc, ← List.append_assoc]
            exact List.perm_append_comm.append_right _
        _ |>.Perm (pool k q ++ (gained ++ q k)) := h.append_left _
        _ |>.Perm (gained ++ (pool k q ++ q k)) := by
            rw [← List.append_assoc, ← List.append_assoc]
            exact List.perm_append_comm.append_right _

/-- Moving things from one queue to another changes nothing as a whole. -/
theorem pool_move {j : Nat} {kept moved : List α} (hk : k < n) (hj : j < n) (hne : k ≠ j)
    (h : (moved ++ kept).Perm (q k)) :
    (pool n (Function.update (Function.update q k kept) j (q j ++ moved))).Perm (pool n q) := by
  have out : (moved ++ pool n (Function.update q k kept)).Perm (pool n q) :=
    pool_update moved [] hk h
  apply List.Perm.trans _ out
  apply pool_update [] moved hj
  rw [Function.update_of_ne hne.symm, List.nil_append]
  exact List.perm_append_comm

/-- Queues with something in them that has a property are at most as many as such
things. -/
theorem countP_any_le (f : α → Bool) :
    (List.range n).countP (fun k => (q k).any f) ≤ (pool n q).countP f := by
  induction n with
  | zero => rfl
  | succ n ih =>
    rw [List.range_succ, List.countP_append, pool_succ, List.countP_append, List.countP_singleton]
    apply Nat.add_le_add ih
    split
    · rename_i h
      exact List.countP_pos_iff.mpr (List.any_eq_true.mp h)
    · exact Nat.zero_le _

theorem map_pool (f : α → β) : (pool n q).map f = pool n fun k => (q k).map f := by
  simp [pool, List.map_flatMap]

end Pools

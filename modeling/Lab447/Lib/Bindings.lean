import Mathlib.Data.List.Nodup
import Mathlib.Logic.Function.Basic

/-!
A list of bindings as a finite map: the list names every key at most once, and
holds exactly the pairs of the map.
-/

namespace Bindings

variable {κ ν : Type}

/-- The list holds exactly the bindings of `m`, each once. -/
structure Represents (es : List (κ × ν)) (m : κ → Option ν) : Prop where
  unique : (es.map Prod.fst).Nodup
  mem_iff : ∀ k v, (k, v) ∈ es ↔ m k = some v

variable {es₁ es₂ : List (κ × ν)} {m : κ → Option ν} {k : κ} {v : ν}

theorem represents_nil : Represents ([] : List (κ × ν)) fun _ => none :=
  ⟨.nil, by simp⟩

theorem Represents.none_iff {es : List (κ × ν)} (h : Represents es m) :
    m k = none ↔ k ∉ es.map Prod.fst := by
  rw [Option.eq_none_iff_forall_ne_some]
  simp only [← (not_congr (h.mem_iff k _)), List.mem_map, not_exists, not_and]
  constructor
  · rintro hk ⟨k', v⟩ hmem rfl
    exact hk v hmem
  · intro hk v hmem
    exact hk (k, v) hmem rfl

variable [DecidableEq κ]

/-- A new key can be bound anywhere in the list. -/
theorem Represents.insert (h : Represents (es₁ ++ es₂) m) (hk : m k = none) :
    Represents (es₁ ++ (k, v) :: es₂) (Function.update m k (some v)) where
  unique := by
    have hnot := h.none_iff.mp hk
    rw [List.map_append] at hnot ⊢
    rw [List.map_cons, List.nodup_middle, List.nodup_cons, ← List.map_append]
    exact ⟨by simpa using hnot, h.unique⟩
  mem_iff k' v' := by
    by_cases he : k' = k
    · subst he
      have hnot := h.none_iff.mp hk
      have hv' : (k', v') ∉ es₁ ++ es₂ := fun hmem => hnot (List.mem_map_of_mem hmem)
      rw [List.mem_append, not_or] at hv'
      simp [hv'.1, hv'.2, eq_comm]
    · rw [Function.update_of_ne he, ← h.mem_iff]
      simp [he]

/-- The binding of a key can be taken out. -/
theorem Represents.remove (h : Represents (es₁ ++ (k, v) :: es₂) m) :
    Represents (es₁ ++ es₂) (Function.update m k none) := by
  have hu := h.unique
  rw [List.map_append, List.map_cons, List.nodup_middle, List.nodup_cons, ← List.map_append] at hu
  refine ⟨hu.2, fun k' v' => ?_⟩
  by_cases he : k' = k
  · subst he
    simp only [Function.update_self, reduceCtorEq, iff_false]
    exact fun hmem => hu.1 (List.mem_map.mpr ⟨(k', v'), hmem, rfl⟩)
  · rw [Function.update_of_ne he, ← h.mem_iff]
    simp [he]

/-- Taking out a key that is not bound changes nothing. -/
theorem update_none_of_none (hk : m k = none) : Function.update m k none = m := by
  rw [← hk, Function.update_eq_self]

end Bindings

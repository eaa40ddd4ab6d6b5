import Mathlib

/-!
Stable priority queues. Each insertion has a number; the item to serve next has
the least key and, among those, was inserted last.
-/

namespace StableQueue

variable {ε κ : Type}

/-- The key of an item in the queue and the number of its insertion. -/
structure Slot (κ : Type) where
  key : κ
  order : Nat

section
variable [LinearOrder κ]

def Slot.Before (a b : Slot κ) : Prop := a.key < b.key ∨ a.key = b.key ∧ b.order < a.order

theorem Slot.Before.key_le {a b : Slot κ} (h : a.Before b) : a.key ≤ b.key := by
  obtain h | ⟨h, -⟩ := h
  · exact h.le
  · exact h.le

end

/-- The items in the queue, the number of insertions so far, and the insertions
that have ended, because the item was served or was taken out. -/
structure Agenda (ε κ : Type) where
  slot : ε → Option (Slot κ)
  insertions : Nat
  served : List Nat
  dropped : List Nat

namespace Agenda

def empty : Agenda ε κ := ⟨fun _ => none, 0, [], []⟩

/-- The item to serve next. -/
def First [LinearOrder κ] (a : Agenda ε κ) (e : ε) : Prop :=
  ∃ s, a.slot e = some s ∧ ∀ e' s', a.slot e' = some s' → e' ≠ e → s.Before s'

/-- Every insertion is either of an item in the queue, and of one only, or has
ended, and ended once. -/
structure Accounted (a : Agenda ε κ) : Prop where
  fresh : ∀ e s, a.slot e = some s → s.order < a.insertions
  unique : ∀ e e' s s', a.slot e = some s → a.slot e' = some s' → s.order = s'.order → e = e'
  open_ended : ∀ e s, a.slot e = some s → s.order ∉ a.served ++ a.dropped
  once : (a.served ++ a.dropped).Nodup
  none_lost : ∀ n, n < a.insertions ↔
    n ∈ a.served ++ a.dropped ∨ ∃ e s, a.slot e = some s ∧ s.order = n

theorem accounted_empty : Accounted (empty : Agenda ε κ) where
  fresh _ _ h := nomatch h
  unique _ _ _ _ h := nomatch h
  open_ended _ _ h := nomatch h
  once := .nil
  none_lost n := by simp [empty]

variable [DecidableEq ε] {a : Agenda ε κ} {e : ε} {s : Slot κ}

def put (a : Agenda ε κ) (e : ε) (key : κ) : Agenda ε κ :=
  { a with
    slot := Function.update a.slot e (some ⟨key, a.insertions⟩)
    insertions := a.insertions + 1 }

def drop (a : Agenda ε κ) (e : ε) : Agenda ε κ :=
  { a with
    slot := Function.update a.slot e none
    dropped := (a.slot e).toList.map Slot.order ++ a.dropped }

def serve (a : Agenda ε κ) (e : ε) : Agenda ε κ :=
  { a with
    slot := Function.update a.slot e none
    served := (a.slot e).toList.map Slot.order ++ a.served }

theorem slot_put (a : Agenda ε κ) (e e' : ε) (key : κ) :
    (a.put e key).slot e' = if e' = e then some ⟨key, a.insertions⟩ else a.slot e' :=
  Function.update_apply ..

theorem Accounted.put (h : Accounted a) (free : a.slot e = none) (key : κ) :
    Accounted (a.put e key) := by
  have cases_slot {e' : ε} {s : Slot κ} (hs : (a.put e key).slot e' = some s) :
      e' = e ∧ s = ⟨key, a.insertions⟩ ∨ e' ≠ e ∧ a.slot e' = some s := by
    rw [slot_put] at hs
    split at hs
    · rename_i he
      exact .inl ⟨he, (Option.some.inj hs).symm⟩
    · rename_i he
      exact .inr ⟨he, hs⟩
  refine ⟨fun e' s hs => ?_, fun e₁ e₂ s₁ s₂ h₁ h₂ same => ?_, fun e' s hs => ?_, h.once,
    fun n => ?_⟩
  · obtain ⟨-, rfl⟩ | ⟨-, hs⟩ := cases_slot hs
    · exact Nat.lt_succ_self _
    · exact (h.fresh e' s hs).trans (Nat.lt_succ_self _)
  · obtain ⟨he₁, hs₁⟩ | ⟨-, h₁⟩ := cases_slot h₁ <;>
      obtain ⟨he₂, hs₂⟩ | ⟨-, h₂⟩ := cases_slot h₂
    · exact he₁.trans he₂.symm
    · have := h.fresh _ _ h₂
      rw [← same, hs₁] at this
      exact absurd this (lt_irrefl _)
    · have := h.fresh _ _ h₁
      rw [same, hs₂] at this
      exact absurd this (lt_irrefl _)
    · exact h.unique _ _ _ _ h₁ h₂ same
  · obtain ⟨-, rfl⟩ | ⟨-, hs⟩ := cases_slot hs
    · intro ended
      exact lt_irrefl _ ((h.none_lost _).mpr (.inl ended))
    · exact h.open_ended e' s hs
  · constructor
    · intro hn
      obtain hn | rfl := Nat.lt_succ_iff_lt_or_eq.mp hn
      · refine ((h.none_lost n).mp hn).imp_right ?_
        rintro ⟨e', s, hs, rfl⟩
        refine ⟨e', s, ?_, rfl⟩
        rw [slot_put, if_neg]
        · exact hs
        · rintro rfl
          rw [free] at hs
          cases hs
      · exact .inr ⟨e, ⟨key, a.insertions⟩, by rw [slot_put, if_pos rfl], rfl⟩
    · rintro (ended | ⟨e', s, hs, rfl⟩)
      · exact ((h.none_lost n).mpr (.inl ended)).trans (Nat.lt_succ_self _)
      · obtain ⟨-, rfl⟩ | ⟨-, hs⟩ := cases_slot hs
        · exact Nat.lt_succ_self _
        · exact (h.fresh e' s hs).trans (Nat.lt_succ_self _)

/-- Ending the insertion of an item in the queue, one way or the other. -/
theorem Accounted.close {a' : Agenda ε κ} (h : Accounted a) (hs : a.slot e = some s)
    (slots : a'.slot = Function.update a.slot e none) (same : a'.insertions = a.insertions)
    (ended : (a'.served ++ a'.dropped).Perm (s.order :: (a.served ++ a.dropped))) :
    Accounted a' := by
  have cases_slot {e' : ε} {s' : Slot κ} (hs' : a'.slot e' = some s') :
      e' ≠ e ∧ a.slot e' = some s' := by
    rw [slots, Function.update_apply] at hs'
    split at hs'
    · cases hs'
    · rename_i he
      exact ⟨he, hs'⟩
  refine ⟨fun e' s' hs' => ?_, fun e₁ e₂ s₁ s₂ h₁ h₂ => ?_, fun e' s' hs' => ?_, ?_, fun n => ?_⟩
  · exact same ▸ h.fresh e' s' (cases_slot hs').2
  · exact h.unique _ _ _ _ (cases_slot h₁).2 (cases_slot h₂).2
  · obtain ⟨he, hs'⟩ := cases_slot hs'
    intro mem
    obtain eq | mem := List.mem_cons.mp (ended.subset mem)
    · exact he (h.unique _ _ _ _ hs' hs eq)
    · exact h.open_ended e' s' hs' mem
  · exact ended.nodup_iff.mpr (List.nodup_cons.mpr ⟨h.open_ended e s hs, h.once⟩)
  · rw [same, h.none_lost n, ended.mem_iff, List.mem_cons]
    constructor
    · rintro (mem | ⟨e', s', hs', rfl⟩)
      · exact .inl (.inr mem)
      · by_cases he : e' = e
        · subst he
          cases hs.symm.trans hs'
          exact .inl (.inl rfl)
        · exact .inr ⟨e', s', by rw [slots, Function.update_of_ne he]; exact hs', rfl⟩
    · rintro ((rfl | mem) | ⟨e', s', hs', rfl⟩)
      · exact .inr ⟨e, s, hs, rfl⟩
      · exact .inl mem
      · exact .inr ⟨e', s', (cases_slot hs').2, rfl⟩

theorem Accounted.drop (h : Accounted a) (hs : a.slot e = some s) : Accounted (a.drop e) := by
  refine h.close hs rfl rfl ?_
  rw [Agenda.drop, hs]
  exact List.perm_middle

theorem Accounted.serve (h : Accounted a) (hs : a.slot e = some s) : Accounted (a.serve e) := by
  refine h.close hs rfl rfl ?_
  rw [Agenda.serve, hs]
  exact .refl _

end Agenda

end StableQueue

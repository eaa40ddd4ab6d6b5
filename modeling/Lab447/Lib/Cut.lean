import Mathlib

/-!
A list cut into steps: what does not have a property, up to and with what has it.
-/

namespace Cut

variable {α : Type} (q : α → Bool)

/-- The list, cut where `q` stops to hold. -/
def cutAfter (l : List α) : List (List α) := l.splitBy fun a b => !q a || q b

/-- Some elements without `q` and then some with it. -/
structure IsStep (l : List α) : Prop where
  split : ∃ u v, l = u ++ v ∧ u ≠ [] ∧ v ≠ [] ∧ (∀ a ∈ u, q a = false) ∧ ∀ a ∈ v, q a = true

variable {q}

theorem isChain_of_not {l : List α} (h : ∀ a ∈ l, q a = false) :
    l.IsChain fun a b => (!q a || q b) = true :=
  List.Pairwise.isChain (List.pairwise_of_forall_mem_list fun a ha _ _ => by simp [h a ha])

theorem IsStep.isChain {l : List α} (h : IsStep q l) :
    l.IsChain fun a b => (!q a || q b) = true := by
  obtain ⟨u, v, rfl, -, -, hu, hv⟩ := h
  refine List.isChain_append.mpr ⟨isChain_of_not hu, ?_, fun a ha b _ => ?_⟩
  · exact List.Pairwise.isChain (List.pairwise_of_forall_mem_list fun _ _ b hb => by simp [hv b hb])
  · simp [hu a (List.mem_of_getLast? ha)]

theorem IsStep.cut {l l' : List α} (h : IsStep q l) (ne : l' ≠ []) (head : q (l'.head ne) = false) :
    ∃ ha hb, (!q (l.getLast ha) || q (l'.head hb)) = false := by
  obtain ⟨u, v, rfl, -, hne, -, hv⟩ := h
  have last : (u ++ v).getLast (List.append_ne_nil_of_right_ne_nil u hne) = v.getLast hne :=
    List.getLast_append_of_ne_nil _ hne
  refine ⟨List.append_ne_nil_of_right_ne_nil u hne, ne, ?_⟩
  rw [last, hv _ (List.getLast_mem hne), head]
  rfl

theorem IsStep.head {l : List α} (h : IsStep q l) : ∃ ne : l ≠ [], q (l.head ne) = false := by
  obtain ⟨u, v, rfl, hne, -, hu, -⟩ := h
  refine ⟨List.append_ne_nil_of_left_ne_nil hne v, ?_⟩
  rw [List.head_append_of_ne_nil hne]
  exact hu _ (List.head_mem hne)

/-- Steps that stand one after the other, with a rest that has no `q`, are what the
list is cut into. -/
theorem cutAfter_flatten {m : List (List α)} {z : List α} (steps : ∀ l ∈ m, IsStep q l)
    (ne : z ≠ []) (rest : ∀ a ∈ z, q a = false) :
    cutAfter q (m ++ [z]).flatten = m ++ [z] := by
  refine List.splitBy_flatten ?_ ?_ ?_
  · intro h
    obtain h | h := List.mem_append.mp h
    · exact (steps [] h).head.1 rfl
    · exact ne (List.mem_singleton.mp h).symm
  · intro l h
    obtain h | h := List.mem_append.mp h
    · exact (steps l h).isChain
    · rw [List.mem_singleton.mp h]
      exact isChain_of_not rest
  · induction m with
    | nil => exact List.isChain_singleton z
    | cons l m ih =>
      have first := steps l List.mem_cons_self
      have later := ih fun l h => steps l (List.mem_cons_of_mem _ h)
      rw [List.cons_append, List.isChain_cons]
      refine ⟨fun l' h => ?_, later⟩
      have next : ∃ ne : l' ≠ [], q (l'.head ne) = false := by
        obtain h | h := List.mem_append.mp (List.mem_of_mem_head? h)
        · exact (steps l' (List.mem_cons_of_mem _ h)).head
        · obtain rfl := List.mem_singleton.mp h
          exact ⟨ne, rest _ (List.head_mem ne)⟩
      exact first.cut next.1 next.2

theorem mem_of_mem_cutAfter {l step : List α} {a : α} (h : step ∈ cutAfter q l) (ha : a ∈ step) :
    a ∈ l := by
  rw [← List.flatten_splitBy (fun a b => !q a || q b) l]
  exact List.mem_flatten_of_mem h ha

end Cut

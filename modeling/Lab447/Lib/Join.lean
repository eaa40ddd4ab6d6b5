import Mathlib.Data.List.Perm.Basic
import Mathlib.Order.Nat
import Mathlib.Tactic.ByContra

/-!
Fork and join by counters. Jobs are numbered in the order in which they come. A
job is split into parts that finish one by one, and it is answered when no part of
it is left. The parts of a job share a counter, except that a job of one part may
do without.
-/

namespace Join

variable {P C : Type} (job : P → Nat) (counter : P → Option Nat) (left : C → Nat)

/-- How many parts of a job are not finished. -/
def waiting (parts : List P) (j : Nat) : Nat := parts.countP fun p => job p = j

/-- `parts` are the parts that are not finished, `heap` the counters in use, each
with how many parts it still waits for, and `answered` the jobs answered so far. -/
structure Joined (parts : List P) (heap : Nat → Option C) (answered : List Nat) (jobs : Nat) :
    Prop where
  known : ∀ p ∈ parts, job p < jobs
  answered_known : ∀ j ∈ answered, j < jobs
  once : ∀ j < jobs, answered.count j = if waiting job parts j = 0 then 1 else 0
  alone : ∀ p ∈ parts, counter p = none → waiting job parts (job p) = 1
  counted : ∀ p ∈ parts, ∀ x, counter p = some x →
    ∃ c, heap x = some c ∧ left c = waiting job parts (job p)
  shared : ∀ p ∈ parts, ∀ q ∈ parts, job p = job q → counter p = counter q
  own : ∀ p ∈ parts, ∀ q ∈ parts, ∀ x, counter p = some x → counter q = some x → job p = job q
  live : ∀ x c, heap x = some c → ∃ p ∈ parts, counter p = some x

variable {job counter left} {parts rest : List P} {heap heap' : Nat → Option C}
  {answered : List Nat} {jobs : Nat} {p : P}

theorem waiting_cons {j : Nat} :
    waiting job (p :: rest) j = waiting job rest j + if job p = j then 1 else 0 := by
  simp [waiting, List.countP_cons]

theorem waiting_append {new : List P} {j : Nat} :
    waiting job (new ++ parts) j = waiting job new j + waiting job parts j :=
  List.countP_append

theorem waiting_eq_zero {j : Nat} : waiting job parts j = 0 ↔ ∀ p ∈ parts, job p ≠ j := by
  simp [waiting, List.countP_eq_zero]

theorem waiting_of_forall {j : Nat} (h : ∀ p ∈ parts, job p = j) :
    waiting job parts j = parts.length :=
  List.countP_eq_length.mpr fun p hp => decide_eq_true (h p hp)

theorem Joined.start : Joined job counter left ([] : List P) (fun _ => (none : Option C)) [] 0 where
  known := nofun
  answered_known := nofun
  once := nofun
  alone := nofun
  counted := nofun
  shared := nofun
  own := nofun
  live := nofun

/-- The order of the parts is of no account. -/
theorem Joined.perm {parts' : List P} (h : Joined job counter left parts heap answered jobs)
    (hp : parts'.Perm parts) : Joined job counter left parts' heap answered jobs := by
  have same : ∀ j, waiting job parts' j = waiting job parts j := fun j => hp.countP_eq _
  constructor
  case known => exact fun p hm => h.known p (hp.subset hm)
  case answered_known => exact h.answered_known
  case once =>
    intro j hj
    rw [same]
    exact h.once j hj
  case alone =>
    intro p hm hc
    rw [same]
    exact h.alone p (hp.subset hm) hc
  case counted =>
    intro p hm x hx
    rw [same]
    exact h.counted p (hp.subset hm) x hx
  case shared => exact fun p hm q hq => h.shared p (hp.subset hm) q (hp.subset hq)
  case own => exact fun p hm q hq => h.own p (hp.subset hm) q (hp.subset hq)
  case live =>
    intro x c hx
    obtain ⟨p, hm, hc⟩ := h.live x c hx
    exact ⟨p, hp.symm.subset hm, hc⟩

theorem Joined.unknown (h : Joined job counter left parts heap answered jobs) :
    waiting job parts jobs = 0 ∧ answered.count jobs = 0 := by
  constructor
  · exact waiting_eq_zero.mpr fun p hm => (h.known p hm).ne
  · exact List.count_eq_zero.mpr fun hm => (h.answered_known jobs hm).false

/-- A job with nothing left to do is answered at once. -/
theorem Joined.reply (h : Joined job counter left parts heap answered jobs) :
    Joined job counter left parts heap (jobs :: answered) (jobs + 1) := by
  obtain ⟨idle, new⟩ := h.unknown
  refine { h with known := ?_, answered_known := ?_, once := ?_ }
  · exact fun p hm => (h.known p hm).trans (Nat.lt_succ_self jobs)
  · rintro j (_ | ⟨_, hm⟩)
    · exact Nat.lt_succ_self jobs
    · exact (h.answered_known j hm).trans (Nat.lt_succ_self jobs)
  · intro j hj
    obtain hj | rfl := Nat.lt_succ_iff_lt_or_eq.mp hj
    · simp [h.once j hj, hj.ne']
    · simp [new, idle]

/-- A job is split. Its parts either get a counter that is not in use, which waits
for all of them, or there is only one. -/
theorem Joined.fork (h : Joined job counter left parts heap answered jobs) {new : List P}
    {k : Option Nat} (nonempty : new ≠ []) (mine : ∀ p ∈ new, job p = jobs)
    (via : ∀ p ∈ new, counter p = k) (one : k = none → new.length = 1)
    (fresh : ∀ x, k = some x → heap x = none)
    (set : ∀ x, k = some x → ∃ c, heap' x = some c ∧ left c = new.length)
    (same : ∀ x, k ≠ some x → heap' x = heap x) :
    Joined job counter left (new ++ parts) heap' answered (jobs + 1) := by
  obtain ⟨idle, unanswered⟩ := h.unknown
  have all : waiting job new jobs = new.length := waiting_of_forall mine
  have mineWaits : waiting job (new ++ parts) jobs = new.length := by
    rw [waiting_append, all, idle, Nat.add_zero]
  have othersWait : ∀ j, j ≠ jobs → waiting job (new ++ parts) j = waiting job parts j := by
    intro j hj
    rw [waiting_append, waiting_eq_zero.mpr fun p hm => by rw [mine p hm]; exact hj.symm,
      Nat.zero_add]
  have length : 0 < new.length := List.length_pos_iff.mpr nonempty
  -- no part that was there before uses the counter
  have apart : ∀ p ∈ parts, ∀ x, counter p = some x → k ≠ some x := by
    intro p hm x hx hk
    obtain ⟨c, hc, -⟩ := h.counted p hm x hx
    cases (fresh x hk).symm.trans hc
  constructor
  case known =>
    intro p hm
    obtain hm | hm := List.mem_append.mp hm
    · exact (mine p hm).trans_lt (Nat.lt_succ_self jobs)
    · exact (h.known p hm).trans (Nat.lt_succ_self jobs)
  case answered_known => exact fun j hm => (h.answered_known j hm).trans (Nat.lt_succ_self jobs)
  case once =>
    intro j hj
    obtain hj | rfl := Nat.lt_succ_iff_lt_or_eq.mp hj
    · rw [othersWait j hj.ne]
      exact h.once j hj
    · rw [mineWaits, unanswered, if_neg length.ne']
  case alone =>
    intro p hm hc
    obtain hm | hm := List.mem_append.mp hm
    · rw [mine p hm, mineWaits]
      exact one ((via p hm).symm.trans hc)
    · rw [othersWait _ (h.known p hm).ne]
      exact h.alone p hm hc
  case counted =>
    intro p hm x hx
    obtain hm | hm := List.mem_append.mp hm
    · rw [mine p hm, mineWaits]
      exact set x ((via p hm).symm.trans hx)
    · rw [othersWait _ (h.known p hm).ne, same x (apart p hm x hx)]
      exact h.counted p hm x hx
  case shared =>
    intro p hm q hq hj
    obtain hm | hm := List.mem_append.mp hm <;> obtain hq | hq := List.mem_append.mp hq
    · rw [via p hm, via q hq]
    · exact absurd ((mine p hm).symm.trans hj) (h.known q hq).ne'
    · exact absurd (hj.trans (mine q hq)) (h.known p hm).ne
    · exact h.shared p hm q hq hj
  case own =>
    intro p hm q hq x hp hx
    obtain hm | hm := List.mem_append.mp hm <;> obtain hq | hq := List.mem_append.mp hq
    · rw [mine p hm, mine q hq]
    · exact absurd ((via p hm).symm.trans hp) (apart q hq x hx)
    · exact absurd ((via q hq).symm.trans hx) (apart p hm x hp)
    · exact h.own p hm q hq x hp hx
  case live =>
    intro x c hx
    by_cases hk : k = some x
    · obtain ⟨p, hm⟩ := List.exists_mem_of_ne_nil new nonempty
      exact ⟨p, List.mem_append_left _ hm, (via p hm).trans hk⟩
    · rw [same x hk] at hx
      obtain ⟨p, hm, hc⟩ := h.live x c hx
      exact ⟨p, List.mem_append_right _ hm, hc⟩

/-- What is known of a part that is about to finish. -/
theorem Joined.head (h : Joined job counter left (p :: rest) heap answered jobs) :
    match counter p with
    | none => waiting job rest (job p) = 0
    | some x => ∃ c, heap x = some c ∧ left c = waiting job rest (job p) + 1 := by
  split
  · rename_i hc
    have alone := h.alone p (.head rest) hc
    rw [waiting_cons, if_pos rfl] at alone
    omega
  · rename_i x hc
    obtain ⟨c, hx, counted⟩ := h.counted p (.head rest) x hc
    rw [waiting_cons, if_pos rfl] at counted
    exact ⟨c, hx, counted⟩

/-- The last part of a job finishes: the job is answered and its counter freed. -/
theorem Joined.last (h : Joined job counter left (p :: rest) heap answered jobs)
    (none_left : waiting job rest (job p) = 0)
    (freed : ∀ x, counter p = some x → heap' x = none)
    (same : ∀ x, counter p ≠ some x → heap' x = heap x) :
    Joined job counter left rest heap' (job p :: answered) jobs := by
  have other : ∀ q ∈ rest, job p ≠ job q := fun q hq => (waiting_eq_zero.mp none_left q hq).symm
  have keeps : ∀ j, job p ≠ j → waiting job (p :: rest) j = waiting job rest j := by
    intro j hj
    rw [waiting_cons, if_neg hj, Nat.add_zero]
  have apart : ∀ q ∈ rest, ∀ x, counter q = some x → counter p ≠ some x := by
    intro q hq x hx hp
    exact other q hq (h.own p (.head rest) q (.tail p hq) x hp hx)
  constructor
  case known => exact fun q hq => h.known q (.tail p hq)
  case answered_known =>
    rintro j (_ | ⟨_, hj⟩)
    · exact h.known p (.head rest)
    · exact h.answered_known j hj
  case once =>
    intro j hj
    have once := h.once j hj
    by_cases hp : job p = j
    · subst hp
      rw [waiting_cons, if_pos rfl, if_neg (Nat.succ_ne_zero _)] at once
      simp [once, none_left]
    · rw [keeps j hp] at once
      simp [once, hp]
  case alone =>
    intro q hq hc
    rw [← keeps _ (other q hq)]
    exact h.alone q (.tail p hq) hc
  case counted =>
    intro q hq x hx
    rw [← keeps _ (other q hq), same x (apart q hq x hx)]
    exact h.counted q (.tail p hq) x hx
  case shared => exact fun q hq r hr => h.shared q (.tail p hq) r (.tail p hr)
  case own => exact fun q hq r hr => h.own q (.tail p hq) r (.tail p hr)
  case live =>
    intro x c hx
    by_cases hp : counter p = some x
    · cases (freed x hp).symm.trans hx
    · rw [same x hp] at hx
      obtain ⟨q, hq, hc⟩ := h.live x c hx
      obtain _ | ⟨_, hq⟩ := hq
      · exact absurd hc hp
      · exact ⟨q, hq, hc⟩

/-- A part finishes that is not the last of its job. -/
theorem Joined.finish (h : Joined job counter left (p :: rest) heap answered jobs)
    (some_left : waiting job rest (job p) ≠ 0) {x : Nat} {c : C} (hx : counter p = some x)
    (hc : left c = waiting job rest (job p)) :
    Joined job counter left rest (Function.update heap x (some c)) answered jobs := by
  have keeps : ∀ j, job p ≠ j → waiting job (p :: rest) j = waiting job rest j := by
    intro j hj
    rw [waiting_cons, if_neg hj, Nat.add_zero]
  constructor
  case known => exact fun q hq => h.known q (.tail p hq)
  case answered_known => exact h.answered_known
  case once =>
    intro j hj
    have once := h.once j hj
    by_cases hp : job p = j
    · subst hp
      rw [waiting_cons, if_pos rfl, if_neg (Nat.succ_ne_zero _)] at once
      rw [once, if_neg some_left]
    · rw [once, keeps j hp]
  case alone =>
    intro q hq hn
    by_cases hj : job p = job q
    · have hs := h.shared p (.head rest) q (.tail p hq) hj
      rw [hx, hn] at hs
      cases hs
    · rw [← keeps _ hj]
      exact h.alone q (.tail p hq) hn
  case counted =>
    intro q hq y hy
    by_cases hj : job p = job q
    · have hs := h.shared p (.head rest) q (.tail p hq) hj
      rw [hx, hy] at hs
      cases hs
      exact ⟨c, Function.update_self .., hj ▸ hc⟩
    · have hne : y ≠ x := by
        rintro rfl
        exact hj (h.own p (.head rest) q (.tail p hq) y hx hy)
      rw [← keeps _ hj, Function.update_of_ne hne]
      exact h.counted q (.tail p hq) y hy
  case shared => exact fun q hq r hr => h.shared q (.tail p hq) r (.tail p hr)
  case own => exact fun q hq r hr => h.own q (.tail p hq) r (.tail p hr)
  case live =>
    intro y d hy
    by_cases hne : y = x
    · subst hne
      obtain ⟨q, hq, hj⟩ : ∃ q ∈ rest, job q = job p := by
        by_contra hno
        exact some_left (waiting_eq_zero.mpr fun q hq hj => hno ⟨q, hq, hj⟩)
      exact ⟨q, hq, (h.shared p (.head rest) q (.tail p hq) hj.symm).symm.trans hx⟩
    · rw [Function.update_of_ne hne] at hy
      obtain ⟨q, hq, hc⟩ := h.live y d hy
      obtain _ | ⟨_, hq⟩ := hq
      · exact absurd (Option.some.inj (hx.symm.trans hc)).symm hne
      · exact ⟨q, hq, hc⟩

end Join

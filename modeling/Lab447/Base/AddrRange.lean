import Mathlib

/-!
Address ranges, `gem5/src/base/addr_range.hh`. An interleaved range has a mask for
every bit of its selector. The selector is a natural number; the source shifts an
`int`, which is undefined for more than 32 masks.
-/

namespace Base

abbrev Addr := BitVec 64

def popCount (x : Addr) : Nat := (List.range 64).countP x.getLsbD

/-- 64 for zero, as in the source. -/
def ctz64 (x : Addr) : Nat := x.ctz.toNat

/-- `panic`, `fatal`, a failed assertion, and a shift by the width of its operand or more. -/
inductive RangeFault where
  | panic | fatal | assertion | undefinedShift
  deriving DecidableEq

structure AddrRange where
  start : Addr
  end_ : Addr
  masks : List Addr := []
  intlvMatch : Nat := 0
  deriving DecidableEq

namespace AddrRange

variable (q r : AddrRange)

def interleaved : Bool := !r.masks.isEmpty

def size : Addr := (r.end_ - r.start) >>> r.masks.length

/-- The `int` that collects the masks has 32 bits, and is extended with its sign. -/
def granularity : Except RangeFault Addr :=
  if r.interleaved then
    let combinedMask := r.masks.foldl (fun c mask => c ||| mask.setWidth 32) (0 : BitVec 32)
    let lowestBit := ctz64 (combinedMask.signExtend 64)
    if lowestBit < 64 then .ok (BitVec.twoPow 64 lowestBit) else .error .undefinedShift
  else .ok r.size

def mergesWith : Bool :=
  decide (r.start = q.start) && decide (r.end_ = q.end_) && decide (r.masks = q.masks)

/-- The loop of `contains` over the masks from the `i`-th one on. -/
def selector (a : Addr) : List Addr → (i sel : Nat) → Nat
  | [], _, sel => sel
  | mask :: masks, i, sel => selector a masks (i + 1) (sel ||| (popCount (a &&& mask) % 2) <<< i)

def contains (a : Addr) : Bool :=
  decide (r.start ≤ a ∧ a < r.end_) && decide (selector a r.masks 0 0 = r.intlvMatch)

def intersects : Except RangeFault Bool :=
  if r.end_ ≤ q.start ∨ q.end_ ≤ r.start then .ok false
  else if !q.interleaved && !r.interleaved then .ok true
  else if r.size = 1 then .ok (q.contains r.start)
  else if q.mergesWith r then .ok (decide (q.intlvMatch = r.intlvMatch))
  else .error .panic

/-- The granularity is only looked at if `r` contains both ends. -/
def isSubset : Except RangeFault Bool :=
  if q.interleaved then .error .panic
  else if r.interleaved then
    if r.contains q.start && r.contains (q.end_ - 1) then
      r.granularity.map fun g => decide (q.size ≤ g)
    else .ok false
  else .ok (decide (r.start ≤ q.start) && decide (q.end_ ≤ r.end_))

/-- `operator<`. -/
def lt : Bool :=
  if q.start ≠ r.start then decide (q.start < r.start)
  else if q.interleaved && r.interleaved then decide (q.intlvMatch < r.intlvMatch)
  else q.interleaved

/-- The loop of `exclude` from `nextStart` on, with the ranges made so far. -/
def excludeLoop : List AddrRange → Addr → List AddrRange → Except RangeFault (List AddrRange)
  | [], nextStart, ranges =>
    .ok (if nextStart < r.end_ then ranges ++ [⟨nextStart, r.end_, [], 0⟩] else ranges)
  | e :: es, nextStart, ranges =>
    if e.interleaved then .error .assertion
    else (r.intersects e).bind fun hit =>
      if !hit then excludeLoop es nextStart ranges
      else if e.start ≤ nextStart then
        if e.end_ < r.end_ then
          excludeLoop es (if nextStart < e.end_ then e.end_ else nextStart) ranges
        else .ok ranges
      else if e.end_ < r.end_ then
        excludeLoop es e.end_ (ranges ++ [⟨nextStart, e.start, [], 0⟩])
      else .ok (ranges ++ [⟨nextStart, e.start, [], 0⟩])

/-- `std::list::sort` is stable, like the insertion of each range behind its equals. -/
def exclude (excludeRanges : List AddrRange) : Except RangeFault (List AddrRange) :=
  if r.interleaved then .error .assertion
  else r.excludeLoop (excludeRanges.insertionSort fun a b => b.lt a = false) r.start []

/-- The addresses between the ends. -/
def Spans (a : Addr) : Prop := r.start ≤ a ∧ a < r.end_

instance (a : Addr) : Decidable (r.Spans a) := inferInstanceAs (Decidable (_ ∧ _))

/-! ### Exclusion -/

variable {q r}

theorem intersects_of_not_interleaved (hq : q.interleaved = false) (hr : r.interleaved = false) :
    q.intersects r = .ok (decide (q.start < r.end_ ∧ r.start < q.end_)) := by
  unfold intersects
  split
  · congr
    simp only [false_eq_decide_iff, not_and]
    bv_omega
  · rw [if_pos (by simp [hq, hr])]
    congr
    simp only [true_eq_decide_iff]
    bv_omega

/-- What the loop adds for the exclusions that are left: ranges one behind the other, for
exactly the addresses from `nextStart` on that are in none of them. -/
theorem excludeLoop_spec {es : List AddrRange} (hr : r.interleaved = false)
    (plain : ∀ e ∈ es, e.interleaved = false)
    (sorted : es.Pairwise fun a b => a.start ≤ b.start)
    (valid : ∀ e ∈ es, r.start < e.end_ → e.start < r.end_ → e.start ≤ e.end_)
    (nextStart : Addr) (ranges : List AddrRange) (low : r.start ≤ nextStart) :
    ∃ out, r.excludeLoop es nextStart ranges = .ok (ranges ++ out) ∧
      out.Pairwise (fun x y => x.end_ ≤ y.start) ∧
      (∀ x ∈ out, x.interleaved = false ∧ nextStart ≤ x.start ∧ x.start < x.end_) ∧
      ∀ a, (∃ x ∈ out, x.Spans a) ↔
        (nextStart ≤ a ∧ a < r.end_) ∧ ∀ e ∈ es, ¬ e.Spans a := by
  induction es generalizing nextStart ranges with
  | nil =>
    unfold excludeLoop
    split
    · exact ⟨[⟨nextStart, r.end_, [], 0⟩], rfl, by simp, by simp [interleaved, *], by simp [Spans]⟩
    · refine ⟨[], by simp, by simp, by simp, fun a => ?_⟩
      simp only [List.not_mem_nil, false_and, exists_false, false_iff]
      bv_omega
  | cons e es ih =>
    have he := plain e List.mem_cons_self
    obtain ⟨first, sorted⟩ := List.pairwise_cons.mp sorted
    have ih := ih (fun e h => plain e (List.mem_cons_of_mem _ h)) sorted
      fun e h => valid e (List.mem_cons_of_mem _ h)
    have ok := valid e List.mem_cons_self
    rw [excludeLoop, if_neg (by simp [he]), intersects_of_not_interleaved hr he]
    simp only [Except.bind, Bool.not_eq_true', decide_eq_false_iff_not, List.forall_mem_cons]
    split
    · -- outside `r`, so no address is lost
      obtain ⟨out, eq, apart, each, exact_⟩ := ih nextStart ranges low
      refine ⟨out, eq, apart, each, fun a => ?_⟩
      rw [exact_, and_congr_right_iff]
      simp only [iff_and_self]
      unfold Spans
      bv_omega
    · split
      · split
        · obtain ⟨out, eq, apart, each, exact_⟩ :=
            ih (if nextStart < e.end_ then e.end_ else nextStart) ranges (by split <;> bv_omega)
          refine ⟨out, eq, apart, fun x hx => ?_, fun a => ?_⟩
          · obtain ⟨plain, from_, nonempty⟩ := each x hx
            refine ⟨plain, ?_, nonempty⟩
            split at from_ <;> bv_omega
          · rw [exact_, ← and_assoc]
            refine and_congr_left fun _ => ?_
            unfold Spans
            split <;> bv_omega
        · refine ⟨[], by simp, by simp, by simp, fun a => ?_⟩
          simp only [List.not_mem_nil, false_and, exists_false, false_iff]
          unfold Spans
          bv_omega
      · have new : (⟨nextStart, e.start, [], 0⟩ : AddrRange).interleaved = false := rfl
        -- the addresses before `e` are in none of the later exclusions either
        have before (a : Addr) (h : a < e.start) : ∀ e' ∈ es, ¬ e'.Spans a := by
          intro e' h' spans
          have := first e' h'
          unfold Spans at spans
          bv_omega
        split
        · obtain ⟨out, eq, apart, each, exact_⟩ :=
            ih e.end_ (ranges ++ [⟨nextStart, e.start, [], 0⟩]) (by bv_omega)
          refine ⟨⟨nextStart, e.start, [], 0⟩ :: out, by simp [eq], ?_, ?_, fun a => ?_⟩
          · refine List.pairwise_cons.mpr ⟨fun x hx => ?_, apart⟩
            have := (each x hx).2.1
            bv_omega
          · refine List.forall_mem_cons.mpr ⟨⟨new, by dsimp only; bv_omega⟩, fun x hx => ?_⟩
            obtain ⟨plain, from_, nonempty⟩ := each x hx
            exact ⟨plain, by bv_omega, nonempty⟩
          · rw [List.exists_mem_cons_iff, exact_]
            have := before a
            unfold Spans at this ⊢
            constructor
            · rintro (h | ⟨h, rest⟩)
              · exact ⟨by bv_omega, by bv_omega, this h.2⟩
              · exact ⟨by bv_omega, by bv_omega, rest⟩
            · rintro ⟨h, out, rest⟩
              by_cases early : a < e.start
              · exact .inl ⟨h.1, early⟩
              · exact .inr ⟨by bv_omega, rest⟩
        · refine ⟨[⟨nextStart, e.start, [], 0⟩], rfl, by simp, ?_, fun a => ?_⟩
          · simp only [List.mem_singleton, forall_eq]
            exact ⟨new, by bv_omega, by bv_omega⟩
          · simp only [List.mem_singleton, exists_eq_left]
            have := before a
            unfold Spans at this ⊢
            constructor
            · intro h
              exact ⟨by bv_omega, by bv_omega, this h.2⟩
            · bv_omega

theorem le_of_lt_eq_false (h : q.lt r = false) : r.start ≤ q.start := by
  unfold lt at h
  split at h <;> simp_all

/-- Neither range comes after itself through a third one. -/
theorem lt_trans_false {a b c : AddrRange} (hab : b.lt a = false) (hbc : c.lt b = false) :
    c.lt a = false := by
  have first := le_of_lt_eq_false hab
  have second := le_of_lt_eq_false hbc
  unfold lt at hab hbc ⊢
  by_cases same : c.start = a.start
  · have mid : b.start = a.start := by bv_omega
    cases ha : a.interleaved <;> cases hb : b.interleaved <;> cases hc : c.interleaved <;>
      simp_all
    omega
  · rw [if_pos same]
    simp only [decide_eq_false_iff_not]
    bv_omega

theorem lt_total_false (a b : AddrRange) : b.lt a = false ∨ a.lt b = false := by
  unfold lt
  by_cases same : a.start = b.start
  · simp only [same, ne_eq, not_true_eq_false, if_false]
    cases ha : a.interleaved <;> cases hb : b.interleaved <;> simp
    omega
  · rw [if_pos (Ne.symm same), if_pos same]
    simp only [decide_eq_false_iff_not]
    bv_omega

/-- `exclude` is the exact difference of sets, for a range and a list of ranges that are
not interleaved, in any order and overlapping or not, if those that `intersects` finds
to overlap with `r` do not end before they start. -/
theorem exclude_exact (r : AddrRange) (list : List AddrRange) (hr : r.interleaved = false)
    (plain : ∀ e ∈ list, e.interleaved = false)
    (valid : ∀ e ∈ list, r.intersects e = .ok true → e.start ≤ e.end_) :
    ∃ out, r.exclude list = .ok out ∧
      out.Pairwise (fun x y => x.end_ ≤ y.start) ∧
      (∀ x ∈ out, x.interleaved = false ∧ x.start < x.end_) ∧
      ∀ a, (∃ x ∈ out, x.Spans a) ↔ r.Spans a ∧ ∀ e ∈ list, ¬ e.Spans a := by
  let le (a b : AddrRange) : Prop := b.lt a = false
  have total : Std.Total le := ⟨lt_total_false⟩
  have trans : IsTrans AddrRange le := ⟨fun _ _ _ => lt_trans_false⟩
  have sorted := (List.pairwise_insertionSort le list).imp le_of_lt_eq_false
  have mem (e : AddrRange) : e ∈ list.insertionSort le ↔ e ∈ list := List.mem_insertionSort le
  obtain ⟨out, eq, apart, each, exact_⟩ := excludeLoop_spec hr
    (fun e h => plain e ((mem e).mp h)) sorted
    (fun e h above below => valid e ((mem e).mp h) (by
      rw [intersects_of_not_interleaved hr (plain e ((mem e).mp h)), decide_eq_true ⟨above, below⟩]))
    r.start [] (BitVec.le_refl _)
  refine ⟨out, ?_, apart, fun x hx => ⟨(each x hx).1, (each x hx).2.2⟩, fun a => ?_⟩
  · rw [exclude, if_neg (by simp [hr])]
    exact eq
  · rw [exact_]
    exact and_congr_right fun _ => forall_congr' fun e => imp_congr_left (mem e)

/-- [8, 3) ends before it starts, and both ranges that are left have the address 5. -/
theorem exclude_invalid_overlaps :
    AddrRange.exclude ⟨0, 10, [], 0⟩ [⟨8, 3, [], 0⟩] = .ok [⟨0, 8, [], 0⟩, ⟨3, 10, [], 0⟩] ∧
    AddrRange.Spans ⟨0, 8, [], 0⟩ 5 ∧ AddrRange.Spans ⟨3, 10, [], 0⟩ 5 := by
  decide

theorem nested_and_empty_excluded : ∃ out,
    AddrRange.exclude ⟨0, 10, [], 0⟩ [⟨2, 6, [], 0⟩, ⟨3, 4, [], 0⟩, ⟨1, 0, [], 0⟩] = .ok out ∧
    ∀ a, (∃ x ∈ out, x.Spans a) ↔ AddrRange.Spans ⟨0, 10, [], 0⟩ a ∧
      ∀ e ∈ [⟨2, 6, [], 0⟩, ⟨3, 4, [], 0⟩, ⟨1, 0, [], 0⟩], ¬ AddrRange.Spans e a := by
  obtain ⟨out, eq, -, -, exact_⟩ := exclude_exact ⟨0, 10, [], 0⟩
    [⟨2, 6, [], 0⟩, ⟨3, 4, [], 0⟩, ⟨1, 0, [], 0⟩] rfl (by decide) (by decide)
  exact ⟨out, eq, exact_⟩

/-! ### Selectors -/

/-- The number of masked bits that are set is odd. -/
def odd (a mask : Addr) : Bool := decide (popCount (a &&& mask) % 2 = 1)

theorem testBit_selector (a : Addr) (masks : List Addr) (i sel j : Nat) :
    (selector a masks i sel).testBit j =
      (sel.testBit j || (decide (i ≤ j) && masks[j - i]?.any (odd a))) := by
  induction masks generalizing i sel with
  | nil => simp [selector]
  | cons mask masks ih =>
    have bit : ((popCount (a &&& mask) % 2) <<< i).testBit j =
        (decide (j = i) && odd a mask) := by
      obtain h | h := Nat.mod_two_eq_zero_or_one (popCount (a &&& mask))
      · simp [h, odd]
      · rw [h, Nat.one_shiftLeft, Nat.testBit_two_pow, odd, h]
        simp [eq_comm]
    rw [selector, ih, Nat.testBit_or, bit, Bool.or_assoc]
    obtain lt | rfl | gt := Nat.lt_trichotomy j i
    · simp [show ¬ i ≤ j by omega, show ¬ i + 1 ≤ j by omega, show j ≠ i by omega]
    · simp
    · obtain ⟨k, rfl⟩ := Nat.exists_eq_add_of_lt gt
      simp [show i + k + 1 - i = k + 1 by omega, show i + k + 1 - (i + 1) = k by omega,
        show i + k + 1 ≠ i by omega, show i ≤ i + k + 1 by omega]

variable {a : Addr}

/-- A selector is known by the parities of the masked bits. -/
theorem selector_eq_iff {b : Addr} {masks : List Addr} :
    selector a masks 0 0 = selector b masks 0 0 ↔ ∀ mask ∈ masks, odd a mask = odd b mask := by
  constructor
  · intro eq mask hm
    obtain ⟨i, hi⟩ := List.mem_iff_getElem?.mp hm
    have bit := congrArg (fun n => n.testBit i) eq
    simpa [testBit_selector, hi] using bit
  · intro same
    apply Nat.eq_of_testBit_eq
    intro j
    rw [testBit_selector, testBit_selector]
    cases h : masks[j - 0]? with
    | none => rfl
    | some mask => simp [same mask (List.mem_of_getElem? h)]

theorem countP_flip {n l : Nat} {p q : Nat → Bool} (hl : l < n) (off : p l = false)
    (on : q l = true) (same : ∀ j, j ≠ l → q j = p j) :
    (List.range n).countP q = (List.range n).countP p + 1 := by
  induction n with
  | zero => omega
  | succ n ih =>
    rw [List.range_succ, List.countP_append, List.countP_append]
    by_cases last : l = n
    · subst last
      have rest : (List.range l).countP q = (List.range l).countP p := by
        apply List.countP_congr
        intro j hj
        rw [same j (by have := List.mem_range.mp hj; omega)]
      simp [rest, off, on]
    · simp only [List.countP_singleton, same n (Ne.symm last)]
      omega

theorem odd_comm (a b : Addr) : odd a b = odd b a := by
  rw [odd, odd, BitVec.and_comm]

theorem odd_or_twoPow {mask : Addr} {p : Nat} (hp : p < 64) (new : mask.getLsbD p = false) :
    odd a (BitVec.twoPow 64 p ||| mask) = (a.getLsbD p ^^ odd a mask) := by
  have same (k : Nat) (ne : k ≠ p) :
      (a &&& (BitVec.twoPow 64 p ||| mask)).getLsbD k = (a &&& mask).getLsbD k := by
    simp [BitVec.getLsbD_twoPow, Ne.symm ne]
  cases ha : a.getLsbD p
  · have eq : a &&& (BitVec.twoPow 64 p ||| mask) = a &&& mask := by
      apply BitVec.eq_of_getLsbD_eq
      intro k _
      by_cases at_ : k = p
      · simp [at_, ha]
      · exact same k at_
    simp [odd, eq]
  · have count : popCount (a &&& (BitVec.twoPow 64 p ||| mask)) = popCount (a &&& mask) + 1 := by
      apply countP_flip hp
      · simp [new]
      · simp [ha, hp]
      · exact same
    rw [odd, odd, count, Bool.true_xor, ← decide_not, decide_eq_decide]
    omega

theorem ctz64_eq {x : Addr} {l : Nat} (on : x.getLsbD l = true)
    (below : ∀ j < l, x.getLsbD j = false) : ctz64 x = l := by
  have ne : x ≠ 0#64 := by
    rintro rfl
    simp at on
  obtain lt | eq | gt := Nat.lt_trichotomy (ctz64 x) l
  · have := below _ lt
    rw [ctz64, BitVec.getLsbD_true_ctz_of_ne_zero ne] at this
    cases this
  · exact eq
  · rw [BitVec.getLsbD_false_of_lt_ctz gt] at on
    cases on

/-! ### Subsets -/

/-- The lowest bit of all masks together, 64 if they have none. -/
def lowestBit (r : AddrRange) : Nat := ctz64 (r.masks.foldl (· ||| ·) 0)

theorem getLsbD_foldl_or (masks : List Addr) (x : Addr) (j : Nat) :
    (masks.foldl (· ||| ·) x).getLsbD j = (x.getLsbD j || masks.any fun m => m.getLsbD j) := by
  induction masks generalizing x with
  | nil => simp
  | cons mask masks ih => rw [List.foldl_cons, ih, BitVec.getLsbD_or, List.any_cons, Bool.or_assoc]

theorem setWidth_foldl_or (masks : List Addr) (x : Addr) :
    masks.foldl (fun c mask => c ||| mask.setWidth 32) (x.setWidth 32) =
      (masks.foldl (· ||| ·) x).setWidth 32 := by
  induction masks generalizing x with
  | nil => rfl
  | cons mask masks ih => rw [List.foldl_cons, ← BitVec.setWidth_or, ih, List.foldl_cons]

theorem below_lowestBit {mask : Addr} {j : Nat} (hm : mask ∈ r.masks) (hj : j < r.lowestBit) :
    mask.getLsbD j = false := by
  have none := BitVec.getLsbD_false_of_lt_ctz hj
  rw [getLsbD_foldl_or, Bool.or_eq_false_iff, List.any_eq_false] at none
  simpa using none.2 mask hm

theorem exists_lowestBit (h : r.lowestBit < 64) :
    ∃ mask ∈ r.masks, mask.getLsbD r.lowestBit = true := by
  have ne : r.masks.foldl (· ||| ·) 0 ≠ (0 : Addr) := by
    intro zero
    rw [lowestBit, zero] at h
    exact absurd h (by decide +kernel)
  have some_ := BitVec.getLsbD_true_ctz_of_ne_zero ne
  rw [getLsbD_foldl_or] at some_
  simpa [lowestBit, ctz64] using some_

/-- The `int` of `granularity` loses the bits from 32 on. -/
theorem granularity_eq (h : r.interleaved = true) :
    r.granularity = if r.lowestBit < 32 then .ok (BitVec.twoPow 64 r.lowestBit)
      else .error .undefinedShift := by
  have narrow : r.masks.foldl (fun c mask => c ||| mask.setWidth 32) (0 : BitVec 32) =
      (r.masks.foldl (· ||| ·) 0).setWidth 32 := setWidth_foldl_or r.masks 0
  rw [granularity, if_pos h, narrow]
  dsimp only
  by_cases low : r.lowestBit < 32
  · have ctz : ctz64 (((r.masks.foldl (· ||| ·) 0).setWidth 32).signExtend 64) = r.lowestBit := by
      obtain ⟨mask, hm, on⟩ := exists_lowestBit (show r.lowestBit < 64 by omega)
      apply ctz64_eq
      · rw [BitVec.getLsbD_signExtend, if_pos low, BitVec.getLsbD_setWidth, getLsbD_foldl_or,
          List.any_eq_true.mpr ⟨mask, hm, on⟩]
        simp [low, show r.lowestBit < 64 by omega]
      · intro j hj
        rw [BitVec.getLsbD_signExtend, if_pos (by omega), BitVec.getLsbD_setWidth,
          BitVec.getLsbD_false_of_lt_ctz hj]
        simp
    rw [ctz, if_pos (by omega), if_pos low]
  · have zero : (r.masks.foldl (· ||| ·) 0).setWidth 32 = 0#32 := by
      apply BitVec.eq_of_getLsbD_eq
      intro j hj
      rw [BitVec.getLsbD_setWidth, BitVec.getLsbD_false_of_lt_ctz (show j < r.lowestBit by omega)]
      simp
    rw [zero, if_neg (by decide +kernel), if_neg low]

/-- Addresses with the same bits from the lowest one on are selected alike. -/
theorem contains_of_div_eq {b : Addr} (spans : r.Spans b)
    (block : a.toNat / 2 ^ r.lowestBit = b.toNat / 2 ^ r.lowestBit) (h : r.contains a = true) :
    r.contains b = true := by
  have same : selector b r.masks 0 0 = selector a r.masks 0 0 := by
    apply selector_eq_iff.mpr
    intro mask hm
    suffices masked : b &&& mask = a &&& mask by rw [odd, odd, masked]
    apply BitVec.eq_of_getLsbD_eq
    intro j _
    by_cases hj : j < r.lowestBit
    · simp [below_lowestBit hm hj]
    · obtain ⟨k, rfl⟩ := Nat.exists_eq_add_of_le (Nat.not_lt.mp hj)
      have bit := congrArg (fun n => n.testBit k) block
      simp only [Nat.testBit_div_two_pow, Nat.add_comm k, BitVec.testBit_toNat] at bit
      simp [bit]
  simp only [contains, Bool.and_eq_true, decide_eq_true_eq] at h ⊢
  exact ⟨spans, same.trans h.2⟩

/-- Two addresses that differ in the lowest bit only are never both selected. -/
theorem not_contains_both (low : r.lowestBit < 64) (even : a.toNat / 2 ^ r.lowestBit % 2 = 0)
    (ha : r.contains a = true) : r.contains (a + BitVec.twoPow 64 r.lowestBit) = false := by
  obtain ⟨mask, hm, on⟩ := exists_lowestBit low
  have off : a.getLsbD r.lowestBit = false := by
    rw [← BitVec.testBit_toNat, Nat.testBit_eq_decide_div_mod_eq, even]
    rfl
  have sum : a + BitVec.twoPow 64 r.lowestBit = a ||| BitVec.twoPow 64 r.lowestBit := by
    apply BitVec.add_eq_or_of_and_eq_zero
    apply BitVec.eq_of_getLsbD_eq
    intro j hj
    rw [BitVec.getLsbD_and, BitVec.getLsbD_twoPow]
    by_cases h : r.lowestBit = j <;> simp_all
  have flip : odd (a + BitVec.twoPow 64 r.lowestBit) mask = !odd a mask := by
    rw [sum, BitVec.or_comm, odd_comm, odd_or_twoPow low off, on, odd_comm, Bool.true_xor]
  rw [Bool.eq_false_iff]
  intro hb
  simp only [contains, Bool.and_eq_true, decide_eq_true_eq] at ha hb
  have same := selector_eq_iff.mp (hb.2.trans ha.2.symm) mask hm
  rw [flip] at same
  simp at same

theorem spans_of_contains (h : r.contains a = true) : r.Spans a := by
  simp only [contains, Bool.and_eq_true, decide_eq_true_eq] at h
  exact h.1

/-- What lies between two contained addresses is contained if it is in the block of one
of them. -/
theorem contains_between (first : r.contains q.start = true) (last : r.contains (q.end_ - 1) = true)
    (spans : q.Spans a) (block : q.start.toNat / 2 ^ r.lowestBit = a.toNat / 2 ^ r.lowestBit ∨
      (q.end_ - 1).toNat / 2 ^ r.lowestBit = a.toNat / 2 ^ r.lowestBit) : r.contains a = true := by
  have inside : r.Spans a := by
    have h := spans_of_contains first
    have h' := spans_of_contains last
    unfold Spans at h h' spans ⊢
    bv_omega
  obtain block | block := block
  · exact contains_of_div_eq inside block first
  · exact contains_of_div_eq inside block last

theorem div_eq_or {g s a t : Nat} (pos : 0 < g) (sa : s ≤ a) (at_ : a ≤ t) (near : t < s + g) :
    s / g = a / g ∨ t / g = a / g := by
  have low := Nat.div_le_div_right (c := g) sa
  have high := Nat.div_le_div_right (c := g) at_
  have step := Nat.div_le_div_right (c := g) near.le
  rw [Nat.add_div_right _ pos] at step
  omega

/-- Both ends are within `2 ^ lowestBit` of a multiple of twice that. -/
def Straddles (q r : AddrRange) : Prop :=
  ∃ k, 2 * k * 2 ^ r.lowestBit ≤ q.start.toNat + 2 ^ r.lowestBit ∧
    q.end_.toNat ≤ 2 * k * 2 ^ r.lowestBit + 2 ^ r.lowestBit

/-- A range that is longer than the granularity lies in an interleaved one only around
a multiple of twice the granularity. -/
theorem straddles_iff (nonempty : q.start < q.end_) (low : r.lowestBit < 64)
    (first : r.contains q.start = true) (last : r.contains (q.end_ - 1) = true)
    (long : q.start.toNat + 2 ^ r.lowestBit < q.end_.toNat) :
    (∀ a, q.Spans a → r.contains a = true) ↔ Straddles q r := by
  have pos : 0 < 2 ^ r.lowestBit := Nat.two_pow_pos _
  have final : (q.end_ - 1).toNat = q.end_.toNat - 1 := by bv_omega
  unfold Straddles
  constructor
  · intro all
    -- no address of `q` with an even block has its successor block in `q`
    have odd_ (a : Addr) (from_ : q.start ≤ a)
        (before : a.toNat + 2 ^ r.lowestBit < q.end_.toNat) : a.toNat / 2 ^ r.lowestBit % 2 = 1 := by
      by_contra h
      have next := all (a + BitVec.twoPow 64 r.lowestBit) (by unfold Spans; bv_omega)
      rw [not_contains_both low (by omega) (all a ⟨from_, by bv_omega⟩)] at next
      cases next
    have start := odd_ q.start (BitVec.le_refl _) long
    generalize 2 ^ r.lowestBit = g at *
    have split := Nat.div_add_mod q.start.toNat g
    have rest := Nat.mod_lt q.start.toNat pos
    obtain ⟨k, hk⟩ : ∃ k, q.start.toNat / g + 1 = 2 * k :=
      ⟨(q.start.toNat / g + 1) / 2, by omega⟩
    have boundary : 2 * k * g = g * (q.start.toNat / g) + g := by
      rw [← hk, Nat.mul_comm, Nat.mul_succ]
    refine ⟨k, by omega, ?_⟩
    by_contra beyond
    have mid : (BitVec.ofNat 64 (2 * k * g)).toNat = 2 * k * g := by
      rw [BitVec.toNat_ofNat, Nat.mod_eq_of_lt (by omega)]
    have parity := odd_ (BitVec.ofNat 64 (2 * k * g)) (by bv_omega) (by omega)
    rw [mid, Nat.mul_div_cancel _ pos] at parity
    omega
  · rintro ⟨k, lower, upper⟩ a spans
    have inside : q.start.toNat ≤ a.toNat ∧ a.toNat < q.end_.toNat := spans
    apply contains_between first last spans
    generalize 2 ^ r.lowestBit = g at *
    by_cases side : a.toNat < 2 * k * g
    · left
      have block (x : Nat) (from_ : q.start.toNat ≤ x) (before : x < 2 * k * g) : x / g = 2 * k - 1 := by
        have some_ : 2 * k - 1 + 1 = 2 * k := by
          rcases k with _ | k <;> omega
        apply Nat.div_eq_of_lt_le
        · rw [Nat.sub_mul]
          omega
        · rw [some_]
          exact before
      rw [block _ (Nat.le_refl _) (by omega), block _ inside.1 side]
    · right
      have block (x : Nat) (from_ : 2 * k * g ≤ x) (before : x < q.end_.toNat) : x / g = 2 * k := by
        apply Nat.div_eq_of_lt_le from_
        rw [Nat.succ_mul]
        omega
      rw [block _ (by omega) (by omega), block _ (by omega) inside.2]

/-- The ranges for which `isSubset` is exact. -/
def Decides (q r : AddrRange) : Prop :=
  if r.interleaved then
    r.contains q.start = true → r.contains (q.end_ - 1) = true →
      r.lowestBit < 32 ∧ (q.size.toNat ≤ 2 ^ r.lowestBit ∨ ¬ Straddles q r)
  else r.start ≤ q.start → q.end_ ≤ r.end_ → r.intlvMatch = 0

/-- `isSubset` says whether a non-empty range that is not interleaved lies in `r` exactly
in these cases: one end of it is not in `r`, or some mask of `r` has a bit below 32 and
it is not longer than the granularity or not around a multiple of twice that, or `r` is
not interleaved and has no match value. -/
theorem isSubset_exact_iff (q r : AddrRange) (hq : q.interleaved = false)
    (nonempty : q.start < q.end_) :
    (∃ b, q.isSubset r = .ok b ∧ (b = true ↔ ∀ a, q.Spans a → r.contains a = true)) ↔
      Decides q r := by
  have startIn : q.Spans q.start := ⟨BitVec.le_refl _, nonempty⟩
  have lastIn : q.Spans (q.end_ - 1) := by
    unfold Spans
    bv_omega
  unfold Decides isSubset
  rw [if_neg (by simp [hq])]
  by_cases hr : r.interleaved = true
  · rw [if_pos hr, if_pos hr, granularity_eq hr]
    by_cases ends : r.contains q.start = true ∧ r.contains (q.end_ - 1) = true
    · obtain ⟨first, last⟩ := ends
      have size : q.size.toNat = q.end_.toNat - q.start.toNat := by
        have none : q.masks = [] := by simpa [interleaved] using hq
        simp only [AddrRange.size, none, List.length_nil, BitVec.ushiftRight_zero]
        bv_omega
      rw [first, last, if_pos (by rfl)]
      simp only [forall_const]
      by_cases low : r.lowestBit < 32
      · have twoPow : (BitVec.twoPow 64 r.lowestBit).toNat = 2 ^ r.lowestBit := by
          rw [BitVec.toNat_twoPow, Nat.mod_eq_of_lt (Nat.pow_lt_pow_right (by omega) (by omega))]
        rw [if_pos low]
        simp only [Except.map, Except.ok.injEq, exists_eq_left', decide_eq_true_eq, BitVec.le_def,
          twoPow, low, true_and]
        by_cases short : q.size.toNat ≤ 2 ^ r.lowestBit
        · simp only [short, true_iff, true_or, iff_true]
          intro a spans
          apply contains_between first last spans
          have inside : q.start.toNat ≤ a.toNat ∧ a.toNat < q.end_.toNat := spans
          apply div_eq_or (Nat.two_pow_pos _) inside.1 <;> bv_omega
        · rw [straddles_iff nonempty (by omega) first last (by omega)]
          simp [short]
      · simp [Except.map, low]
    · have out : ¬ ∀ a, q.Spans a → r.contains a = true :=
        fun all => ends ⟨all _ startIn, all _ lastIn⟩
      rw [if_neg (by simpa using ends)]
      simp only [Except.ok.injEq, exists_eq_left', Bool.false_eq_true, out, true_iff, iff_self]
      intro first last
      exact absurd ⟨first, last⟩ ends
  · have none : r.masks = [] := by simpa [interleaved] using hr
    rw [if_neg hr, if_neg hr]
    simp only [Except.ok.injEq, exists_eq_left', Bool.and_eq_true, decide_eq_true_eq]
    have contains_iff (a : Addr) : r.contains a = true ↔ r.Spans a ∧ r.intlvMatch = 0 := by
      simp only [contains, Spans, none, selector, Bool.and_eq_true, decide_eq_true_eq]
      exact and_congr_right fun _ => eq_comm
    simp only [contains_iff]
    constructor
    · intro exact_ lower upper
      exact (exact_.mp ⟨lower, upper⟩ _ startIn).2
    · intro zero
      constructor
      · rintro ⟨lower, upper⟩ a spans
        unfold Spans at spans ⊢
        bv_omega
      · intro all
        have first := (all _ startIn).1
        have last := (all _ lastIn).1
        unfold Spans at first last
        bv_omega

/-- With a mask of the bits 0 and 1, the addresses 1 and 2 are in the same stripe. With
a mask of bit 32 alone, the granularity is undefined. -/
theorem subset_missed :
    AddrRange.isSubset ⟨1, 3, [], 0⟩ ⟨0, 4, [3], 1⟩ = .ok false ∧
    (∀ a, AddrRange.Spans ⟨1, 3, [], 0⟩ a → AddrRange.contains ⟨0, 4, [3], 1⟩ a = true) ∧
    AddrRange.isSubset ⟨0, 2, [], 0⟩ ⟨0, 2 ^ 33, [2 ^ 32], 0⟩ = .error .undefinedShift := by
  refine ⟨by decide +kernel, fun a spans => ?_, by decide +kernel⟩
  have either : a = 1 ∨ a = 2 := by
    unfold Spans at spans
    bv_omega
  obtain rfl | rfl := either <;> decide +kernel

theorem one_stripe_decided : ∃ b,
    AddrRange.isSubset ⟨64, 128, [], 0⟩ ⟨0, 4096, [64], 1⟩ = .ok b ∧
    (b = true ↔ ∀ a, AddrRange.Spans ⟨64, 128, [], 0⟩ a →
      AddrRange.contains ⟨0, 4096, [64], 1⟩ a = true) := by
  apply (isSubset_exact_iff ⟨64, 128, [], 0⟩ ⟨0, 4096, [64], 1⟩ rfl (by decide)).mpr
  intro _ _
  exact ⟨by decide +kernel, .inl (by decide +kernel)⟩

end AddrRange

end Base

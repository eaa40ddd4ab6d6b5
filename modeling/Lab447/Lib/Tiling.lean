import Mathlib

/-!
Lists of blocks that tile an interval: each block starts where the one before
it ends, and every block has a positive size. Nothing here depends on what a
block holds besides its address and its size.
-/

namespace Tiling

variable {β : Type} (addr size : β → Nat)

/-- The blocks cover `[lo, hi)` in order, with no gap and no overlap. -/
def Tiles (lo hi : Nat) : List β → Prop
  | [] => lo = hi
  | b :: bs => addr b = lo ∧ 0 < size b ∧ Tiles (lo + size b) hi bs

variable {addr size} {lo hi : Nat}

@[simp] theorem tiles_nil : Tiles addr size lo hi [] ↔ lo = hi := Iff.rfl

variable {bs : List β} {b : β}

@[simp] theorem tiles_cons : Tiles addr size lo hi (b :: bs) ↔
      addr b = lo ∧ 0 < size b ∧ Tiles addr size (lo + size b) hi bs := Iff.rfl

variable {xs ys : List β}

theorem tiles_append : Tiles addr size lo hi (xs ++ ys) ↔
      ∃ mid, Tiles addr size lo mid xs ∧ Tiles addr size mid hi ys := by
  induction xs generalizing lo with
  | nil => simp
  | cons b bs ih =>
    simp only [List.cons_append, tiles_cons, ih]
    constructor
    · rintro ⟨ha, hs, mid, h⟩
      exact ⟨mid, ⟨ha, hs, h.1⟩, h.2⟩
    · rintro ⟨mid, ⟨ha, hs, h1⟩, h2⟩
      exact ⟨ha, hs, mid, h1, h2⟩

theorem Tiles.le (h : Tiles addr size lo hi bs) : lo ≤ hi := by
  induction bs generalizing lo with
  | nil => exact Nat.le_of_eq h
  | cons b bs ih =>
    have := ih h.2.2
    omega

/-- Every block lies inside the interval. -/
theorem Tiles.inside (h : Tiles addr size lo hi bs) (hb : b ∈ bs) :
    lo ≤ addr b ∧ addr b + size b ≤ hi ∧ 0 < size b := by
  induction bs generalizing lo with
  | nil => cases hb
  | cons c cs ih =>
    obtain ⟨ha, hs, ht⟩ := h
    rcases List.mem_cons.mp hb with rfl | hb
    · exact ⟨by omega, by have := ht.le; omega, hs⟩
    · have := ih ht hb
      omega

/-- Blocks on the two sides of a cut are different: a block after the cut
starts where no block before it does. -/
theorem Tiles.addr_lt (h : Tiles addr size lo hi (xs ++ ys)) {x y : β} (hx : x ∈ xs) (hy : y ∈ ys) :
    addr x < addr y := by
  obtain ⟨mid, h1, h2⟩ := tiles_append.mp h
  have := h1.inside hx
  have := h2.inside hy
  omega

theorem Tiles.sum_eq (h : Tiles addr size lo hi bs) : lo + (bs.map size).sum = hi := by
  induction bs generalizing lo with
  | nil => simpa using h
  | cons b bs ih =>
    have := ih h.2.2
    simp only [List.map_cons, List.sum_cons]
    omega

theorem Tiles.head_addr (h : Tiles addr size lo hi bs) (hlt : lo < hi) :
    ∃ b cs, bs = b :: cs ∧ addr b = lo := by
  cases bs with
  | nil => have : lo = hi := h; omega
  | cons b cs => exact ⟨b, cs, rfl, h.1⟩

theorem Tiles.chain (h : Tiles addr size lo hi bs) :
    bs.IsChain fun a b => addr b = addr a + size a := by
  induction bs generalizing lo with
  | nil => exact .nil
  | cons b bs ih =>
    obtain ⟨ha, hs, ht⟩ := h
    cases bs with
    | nil => exact .singleton b
    | cons c cs => exact .cons_cons (by rw [ht.1, ha]) (ih ht)

/-- A block can be replaced by one at the same place and of the same size. -/
theorem Tiles.replace {c : β} (h : Tiles addr size lo hi (xs ++ b :: ys)) (ha : addr c = addr b)
    (hs : size c = size b) : Tiles addr size lo hi (xs ++ c :: ys) := by
  obtain ⟨mid, h1, h2⟩ := tiles_append.mp h
  refine tiles_append.mpr ⟨mid, h1, ?_⟩
  rw [tiles_cons] at h2 ⊢
  rw [ha, hs]
  exact h2

/-- Two neighbours can be replaced by one block that spans both. -/
theorem Tiles.merge {c d : β} (h : Tiles addr size lo hi (xs ++ b :: c :: ys))
    (ha : addr d = addr b) (hs : size d = size b + size c) :
    Tiles addr size lo hi (xs ++ d :: ys) := by
  obtain ⟨mid, h1, h2⟩ := tiles_append.mp h
  refine tiles_append.mpr ⟨mid, h1, ?_⟩
  obtain ⟨hb, hbs, hc, hcs, ht⟩ := h2
  refine ⟨by rw [ha, hb], by omega, ?_⟩
  rwa [hs, ← Nat.add_assoc]

/-- A block can be cut in two. -/
theorem Tiles.cut {c d : β} (h : Tiles addr size lo hi (xs ++ b :: ys)) (hc : addr c = addr b)
    (hcs : 0 < size c) (hd : addr d = addr b + size c) (hds : 0 < size d)
    (hs : size b = size c + size d) : Tiles addr size lo hi (xs ++ c :: d :: ys) := by
  obtain ⟨mid, h1, h2⟩ := tiles_append.mp h
  refine tiles_append.mpr ⟨mid, h1, ?_⟩
  obtain ⟨hb, -, ht⟩ := h2
  refine ⟨by omega, hcs, by omega, hds, ?_⟩
  rwa [hs, ← Nat.add_assoc] at ht

/-! ## Blocks in order -/

variable (addr size) in
/-- Every block ends before the later ones start; there may be gaps and empty blocks. -/
def Apart (bs : List β) : Prop := bs.Pairwise fun a b => addr a + size a ≤ addr b

theorem Apart.sublist {cs : List β} (h : Apart addr size bs) (sub : cs.Sublist bs) :
    Apart addr size cs :=
  List.Pairwise.sublist sub h

/-- Blocks can be replaced by blocks that stay between the same bounds. -/
theorem Apart.refine (zs zs' : List β) (h : Apart addr size (xs ++ (zs ++ ys)))
    (own : Apart addr size zs') (low : ∀ z' ∈ zs', ∃ z ∈ zs, addr z ≤ addr z')
    (high : ∀ z' ∈ zs', ∃ z ∈ zs, addr z' + size z' ≤ addr z + size z) :
    Apart addr size (xs ++ (zs' ++ ys)) := by
  obtain ⟨hx, hzy, before⟩ := List.pairwise_append.mp h
  obtain ⟨-, hy, after⟩ := List.pairwise_append.mp hzy
  refine List.pairwise_append.mpr ⟨hx, List.pairwise_append.mpr ⟨own, hy, ?_⟩, ?_⟩
  · intro z' hz' y hy
    obtain ⟨z, hz, le⟩ := high z' hz'
    exact le.trans (after z hz y hy)
  · intro x hx w hw
    obtain hw | hw := List.mem_append.mp hw
    · obtain ⟨z, hz, le⟩ := low w hw
      exact (before x hx z (List.mem_append_left _ hz)).trans le
    · exact before x hx w (List.mem_append_right _ hw)

/-- A block that also stands before its place is empty. -/
theorem Apart.empty_of_mem (h : Apart addr size (xs ++ b :: ys)) (hb : b ∈ xs) : size b = 0 := by
  have := (List.pairwise_append.mp h).2.2 b hb b List.mem_cons_self
  omega

end Tiling

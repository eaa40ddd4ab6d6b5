import Lab447.MemTable.Tiling

/-!
What the allocation policies choose. On every table that calls can lead to, also
with tensors of size 0 among them, the blocks are in the order of their addresses
and no block is larger than the memory.
-/

namespace MemTable

open Tiling (Apart)

/-! ## The order of the blocks -/

/-- What every call keeps, whatever size it asks for. -/
structure Laid (S : Nat) (table : List Block) : Prop where
  apart : Apart Block.addr Block.size table
  total : (table.map Block.size).sum = S

variable {S : Nat} {xs ys : List Block} {b p n : Block}

theorem Laid.size_le {table : List Block} (h : Laid S table) {b : Block} (hb : b ∈ table) :
    b.size ≤ S := by
  rw [← h.total]
  exact List.le_sum_of_mem (List.mem_map_of_mem hb)

/-- Some blocks are replaced by blocks of the same total size, within the same bounds. -/
theorem Laid.refine (zs zs' : List Block) (h : Laid S (xs ++ (zs ++ ys)))
    (own : Apart Block.addr Block.size zs') (low : ∀ z' ∈ zs', ∃ z ∈ zs, z.addr ≤ z'.addr)
    (high : ∀ z' ∈ zs', ∃ z ∈ zs, z'.addr + z'.size ≤ z.addr + z.size)
    (same : (zs'.map Block.size).sum = (zs.map Block.size).sum) : Laid S (xs ++ (zs' ++ ys)) := by
  refine ⟨Apart.refine zs zs' h.apart own low high, ?_⟩
  rw [← h.total]
  simp only [List.map_append, List.sum_append, same]

theorem Laid.replace (h : Laid S (xs ++ b :: ys)) {c : Block} (ha : c.addr = b.addr)
    (hs : c.size = b.size) : Laid S (xs ++ c :: ys) := by
  refine Laid.refine [b] [c] h (List.pairwise_singleton _ _) ?_ ?_ (by simp [hs])
  · simp [ha]
  · simp [ha, hs]

theorem place_laid (h : Laid S (xs ++ b :: ys)) (name : String) {size : Nat} (fits : size ≤ b.size) :
    Laid S (place (xs ++ b :: ys) xs.length b name size) := by
  rw [place_split]
  split
  · exact h.replace rfl rfl
  · refine Laid.refine [b] [_, _] h (List.pairwise_pair.mpr le_rfl) (by simp) ?_ ?_
    · simp only [List.mem_cons, List.not_mem_nil, or_false, exists_eq_left, forall_eq_or_imp,
        forall_eq]
      omega
    · simp only [List.map_cons, List.map_nil, List.sum_cons, List.sum_nil]
      omega

/-- A table in which one block counts twice, without that block. -/
theorem Laid.erase {table : List Block} (apart : Apart Block.addr Block.size table)
    (total : (table.map Block.size).sum = S + b.size) (hb : b ∈ table) : Laid S (table.erase b) := by
  refine ⟨apart.sublist List.erase_sublist, ?_⟩
  have := List.sum_map_erase Block.size hb
  omega

/-- `list.remove` takes the block at its place, or an empty one like it. -/
theorem Laid.erase_of_grown {c : Block} (h : Laid S (xs ++ c :: ys))
    (grown : ∀ b ∈ xs, n = b → n.size = 0)
    (empty : n.size = 0 → Apart Block.addr Block.size (xs ++ c :: n :: ys)) :
    Laid S ((xs ++ c :: n :: ys).erase n) := by
  by_cases none : n.size = 0
  · refine Laid.erase (empty none) ?_ (by simp)
    rw [← h.total]
    simp [none]
  · have fresh : n ∉ xs := fun hn => none (grown n hn rfl)
    have rest : (c :: n :: ys).erase n = c :: ys := by
      by_cases same : c = n
      · rw [same, List.erase_cons_head]
      · rw [List.erase_cons_tail (by simpa using same), List.erase_cons_head]
    rw [List.erase_append_right _ fresh, rest]
    exact h

theorem mergeNext_laid (h : Laid S (xs ++ b :: ys)) :
    Laid S (mergeNext (xs ++ b :: ys) xs.length) ∧
      (ys ≠ [] → xs.length < (mergeNext (xs ++ b :: ys) xs.length).length) := by
  cases ys with
  | nil => simpa [mergeNext] using h
  | cons n ys =>
    have get : (xs ++ b :: n :: ys)[xs.length + 1]? = some n := by simp
    simp only [mergeNext, get, modify_split]
    split
    · have order : b.addr + b.size ≤ n.addr :=
        (List.pairwise_cons.mp (List.pairwise_append.mp h.apart).2.1).1 n List.mem_cons_self
      have merged : Laid S (xs ++ { b with size := b.size + n.size } :: ys) := by
        refine Laid.refine [b, n] [_] h (List.pairwise_singleton _ _) (by simp) ?_ (by simp)
        simp only [List.mem_singleton, forall_eq]
        refine ⟨n, by simp, ?_⟩
        omega
      refine ⟨merged.erase_of_grown ?_ fun none => ?_, fun _ => ?_⟩
      · rintro c hc rfl
        have split : Apart Block.addr Block.size ((xs ++ [b]) ++ n :: ys) := by simpa using h.apart
        exact split.empty_of_mem (List.mem_append_left _ hc)
      · exact (h.replace (c := { b with size := b.size + n.size }) rfl (by simp [none])).apart
      · simp
    · exact ⟨h, fun _ => by simp⟩

theorem mergePrev_laid (h : Laid S (xs ++ p :: b :: ys)) :
    Laid S (mergePrev (xs ++ p :: b :: ys) (xs.length + 1)) := by
  have get : (xs ++ p :: b :: ys)[xs.length + 1 - 1]? = some p := by simp
  have modify (f : Block → Block) :
      (xs ++ p :: b :: ys).modify (xs.length + 1) f = xs ++ p :: f b :: ys := by
    have := modify_split (xs ++ [p]) ys b f
    simpa using this
  simp only [mergePrev, get, modify]
  split
  · have order : p.addr + p.size ≤ b.addr :=
      (List.pairwise_cons.mp (List.pairwise_append.mp h.apart).2.1).1 b List.mem_cons_self
    set c : Block := { b with addr := p.addr, size := b.size + p.size } with hc
    have merged : Laid S (xs ++ c :: ys) := by
      refine Laid.refine [p, b] [_] h (List.pairwise_singleton _ _) (by simp [hc]) ?_ ?_
      · simp only [List.mem_singleton, forall_eq, hc]
        refine ⟨b, by simp, ?_⟩
        omega
      · simp [hc, Nat.add_comm]
    by_cases none : p.size = 0
    · -- an empty block may go in the place of another one like it
      have apart : Apart Block.addr Block.size (xs ++ p :: c :: ys) := by
        refine Apart.refine [p, b] [p, c] h.apart ?_ ?_ ?_
        · exact List.pairwise_pair.mpr (by simp [hc, none])
        · simp [hc]
        · simp only [List.mem_cons, List.not_mem_nil, or_false, forall_eq_or_imp, forall_eq, hc]
          refine ⟨⟨p, by simp, le_rfl⟩, ⟨b, by simp, by omega⟩⟩
      refine Laid.erase apart ?_ (by simp)
      rw [← merged.total]
      simp [none]
    · have fresh : p ∉ xs := fun hp => none (h.apart.empty_of_mem hp)
      rw [List.erase_append_right _ fresh, List.erase_cons_head]
      exact merged
  · exact h

theorem release_laid (h : Laid S (xs ++ b :: ys)) : Laid S (release (xs ++ b :: ys) xs.length) := by
  have freed : Laid S (xs ++ { b with valid := true, tensor := some "" } :: ys) :=
    h.replace rfl rfl
  simp only [release, modify_split]
  split
  · exact (mergeNext_laid freed).1
  · rename_i later
    have split (table : List Block) (inside : xs.length < table.length) :
        ∃ us p c vs, table = us ++ p :: c :: vs ∧ xs.length = us.length + 1 := by
      obtain ⟨us, vs, table, len⟩ := split_at (List.getElem?_eq_getElem inside)
      obtain rfl | ⟨us, p, rfl⟩ := List.eq_nil_or_concat us
      · exact absurd len.symm later
      · exact ⟨us, p, _, vs, by simpa using table, by rw [← len]; simp⟩
    have prev {table : List Block} (laid : Laid S table) (inside : xs.length < table.length) :
        Laid S (mergePrev table xs.length) := by
      obtain ⟨us, p, c, vs, rfl, len⟩ := split table inside
      rw [len]
      exact mergePrev_laid laid
    split
    · exact prev freed (by simp)
    · rename_i notLast
      obtain ⟨laid, inside⟩ := mergeNext_laid freed
      exact prev laid (inside fun h => notLast (by simp [h]))

theorem call_laid {t t' : MemTable} {c : Call} (h : Laid S t.table) (step : t.call c = .ok t') :
    Laid S t'.table ∧ t'.size = t.size ∧ t'.policyName = t.policyName := by
  cases c with
  | allocate name size =>
    cases step
    obtain he | ⟨xs, blk, ys, table, -, fits, he⟩ := allocate_spec t name size
    · rw [he]
      exact ⟨h, rfl, rfl⟩
    · rw [he]
      rw [table] at h
      exact ⟨place_laid h name fits, rfl, rfl⟩
  | deallocate name =>
    simp only [call, deallocate] at step
    split at step
    · split at step
      · cases step
        exact ⟨h, rfl, rfl⟩
      · cases step
    · split at step
      · rename_i idx found
        cases step
        obtain ⟨xs, b, ys, table, rfl, -⟩ := found_split found
        rw [table] at h ⊢
        exact ⟨release_laid h, rfl, rfl⟩
      · cases step
        exact ⟨h, rfl, rfl⟩

theorem reaches_laid {policy : Policy} {t : MemTable}
    (h : (client S policy).Reaches (fun _ _ => True) t) :
    Laid S t.table ∧ t.size = S ∧ t.policyName = policy := by
  refine h.invariant (I := fun t => Laid S t.table ∧ t.size = S ∧ t.policyName = policy) ?_ ?_
  · exact ⟨⟨List.pairwise_singleton _ _, by simp [client, new]⟩, rfl, rfl⟩
  · intro s a t before _ step
    obtain ⟨laid, size, name⟩ := before
    obtain ⟨laid', size', name'⟩ := call_laid laid (Option.some.inj step)
    exact ⟨laid', size'.trans size, name'.trans name⟩

/-! ## What is chosen -/

/-- A free block of at least `size` bytes. -/
def Block.Fits (size : Nat) (b : Block) : Prop := b.valid = true ∧ size ≤ b.size

instance (size : Nat) (b : Block) : Decidable (b.Fits size) := inferInstanceAs (Decidable (_ ∧ _))

theorem firstFitLoop_cons (size : Nat) (b : Block) (rest : List Block) (idx : Nat) :
    firstFitLoop size (b :: rest) idx =
      if b.Fits size then some idx else firstFitLoop size rest (idx + 1) := by
  rw [firstFitLoop]
  cases free : b.valid <;> simp [Block.Fits, free]

theorem bestFitLoop_cons (size : Nat) (b : Block) (rest : List Block) (idx : Nat)
    (bestIdx : Option Nat) (bestSize : Nat) :
    bestFitLoop size (b :: rest) idx bestIdx bestSize =
      if b.Fits size ∧ b.size < bestSize then bestFitLoop size rest (idx + 1) (some idx) b.size
      else bestFitLoop size rest (idx + 1) bestIdx bestSize := by
  rw [bestFitLoop]
  cases free : b.valid <;> simp [Block.Fits, free]

/-- `firstFit` takes the first block that fits. -/
theorem firstFitLoop_first (size : Nat) (table : List Block) (idx : Nat) :
    (firstFitLoop size table idx = none → ∀ c ∈ table, ¬c.Fits size) ∧
      ∀ i, firstFitLoop size table idx = some i → ∃ xs b ys, table = xs ++ b :: ys ∧
        i = idx + xs.length ∧ b.Fits size ∧ ∀ c ∈ xs, ¬c.Fits size := by
  induction table generalizing idx with
  | nil => exact ⟨fun _ => by simp, fun i h => by cases h⟩
  | cons b rest ih =>
    rw [firstFitLoop_cons]
    split
    · rename_i fits
      exact ⟨by simp, fun i h => ⟨[], b, rest, rfl, by simpa using h.symm, fits, by simp⟩⟩
    · rename_i out
      obtain ⟨absent, first⟩ := ih (idx + 1)
      constructor
      · exact fun h => List.forall_mem_cons.mpr ⟨out, absent h⟩
      · intro i h
        obtain ⟨xs, c, ys, rfl, rfl, fits, before⟩ := first i h
        exact ⟨b :: xs, c, ys, rfl, by simp only [List.length_cons]; omega, fits,
          List.forall_mem_cons.mpr ⟨out, before⟩⟩

/-- `bestFit` keeps its choice unless a smaller block that fits comes, and then
takes the first of the smallest. -/
theorem bestFitLoop_best (size : Nat) (table : List Block) (idx : Nat) (bestIdx : Option Nat)
    (bestSize : Nat) :
    (bestFitLoop size table idx bestIdx bestSize = bestIdx ∧
        ∀ c ∈ table, c.Fits size → bestSize ≤ c.size) ∨
      ∃ xs b ys, table = xs ++ b :: ys ∧
        bestFitLoop size table idx bestIdx bestSize = some (idx + xs.length) ∧ b.Fits size ∧
        b.size < bestSize ∧ (∀ c ∈ xs, c.Fits size → b.size < c.size) ∧
        ∀ c ∈ ys, c.Fits size → b.size ≤ c.size := by
  induction table generalizing idx bestIdx bestSize with
  | nil => exact .inl ⟨rfl, by simp⟩
  | cons b rest ih =>
    rw [bestFitLoop_cons]
    split
    · rename_i better
      right
      obtain ⟨eq, keeps⟩ | ⟨xs, c, ys, rfl, eq, fits, smaller, before, after⟩ :=
        ih (idx + 1) (some idx) b.size
      · exact ⟨[], b, rest, rfl, eq, better.1, better.2, by simp, keeps⟩
      · exact ⟨b :: xs, c, ys, rfl, by rw [eq]; simp only [List.length_cons]; congr 1; omega,
          fits, smaller.trans better.2, List.forall_mem_cons.mpr ⟨fun _ => smaller, before⟩, after⟩
    · rename_i worse
      have here : b.Fits size → bestSize ≤ b.size := fun fits => not_lt.mp fun h => worse ⟨fits, h⟩
      obtain ⟨eq, keeps⟩ | ⟨xs, c, ys, rfl, eq, fits, smaller, before, after⟩ :=
        ih (idx + 1) bestIdx bestSize
      · exact .inl ⟨eq, List.forall_mem_cons.mpr ⟨here, keeps⟩⟩
      · refine .inr ⟨b :: xs, c, ys, rfl, by rw [eq]; simp only [List.length_cons]; congr 1; omega,
          fits, smaller, List.forall_mem_cons.mpr ⟨fun h => ?_, before⟩, after⟩
        exact lt_of_lt_of_le smaller (here h)

/-- The block a policy has to use: under `bestFit` a smallest one that fits, the
lowest of them, and under `firstFit` the lowest one that fits. -/
def Chosen (policy : Policy) (table : List Block) (size : Nat) (b : Block) : Prop :=
  b.Fits size ∧ ∀ c ∈ table, c.Fits size →
    match policy with
    | .bestFit => b.size ≤ c.size ∧ (c.size = b.size → b.addr ≤ c.addr)
    | .firstFit => b.addr ≤ c.addr

theorem Laid.addr_le (h : Laid S (xs ++ b :: ys)) {c : Block} (hc : c ∈ ys) : b.addr ≤ c.addr := by
  have after := (List.pairwise_cons.mp (List.pairwise_append.mp h.apart).2.1).1 c hc
  omega

/-- On a table in order a policy finds the block it has to use, if any fits. -/
theorem getBlkIdx_exact {table : List Block} (h : Laid S table) (policy : Policy) (size : Nat) :
    (getBlkIdx table size S policy = none ∧ ∀ c ∈ table, ¬c.Fits size) ∨
      ∃ xs b ys, table = xs ++ b :: ys ∧ getBlkIdx table size S policy = some xs.length ∧
        Chosen policy table size b := by
  unfold getBlkIdx
  split
  · refine .inl ⟨rfl, fun c hc fits => ?_⟩
    have := h.size_le hc
    have := fits.2
    omega
  · cases policy with
    | firstFit =>
      obtain ⟨absent, first⟩ := firstFitLoop_first size table 0
      cases found : firstFitLoop size table 0 with
      | none => exact .inl ⟨rfl, absent found⟩
      | some i =>
        obtain ⟨xs, b, ys, rfl, rfl, fits, before⟩ := first i found
        refine .inr ⟨xs, b, ys, rfl, by simp, fits, fun c hc fits' => ?_⟩
        obtain hc | hc := List.mem_append.mp hc
        · exact absurd fits' (before c hc)
        · obtain rfl | hc := List.mem_cons.mp hc
          · exact le_rfl
          · exact h.addr_le hc
    | bestFit =>
      obtain ⟨eq, keeps⟩ | ⟨xs, b, ys, rfl, eq, fits, -, before, after⟩ :=
        bestFitLoop_best size table 0 none (S + 1)
      · refine .inl ⟨eq, fun c hc fits => ?_⟩
        -- no block is larger than the memory, so the sentinel is never reached
        have := keeps c hc fits
        have := h.size_le hc
        omega
      · refine .inr ⟨xs, b, ys, rfl, by simpa using eq, fits, fun c hc fits' => ?_⟩
        obtain hc | hc := List.mem_append.mp hc
        · have := before c hc fits'
          exact ⟨this.le, fun same => by omega⟩
        · obtain rfl | hc := List.mem_cons.mp hc
          · exact ⟨le_rfl, fun _ => le_rfl⟩
          · exact ⟨after c hc fits', fun _ => h.addr_le hc⟩

/-- `allocate` fails exactly when no free block is large enough, and uses the
block of its policy otherwise. -/
theorem allocate_exact (S : Nat) (policy : Policy) (t : MemTable)
    (h : (client S policy).Reaches (fun _ _ => True) t) (name : String) (size : Nat)
    (pos : 0 < size) :
    (t.allocate name size = ((size, -1), t) ↔ ∀ c ∈ t.table, ¬c.Fits size) ∧
      (t.allocate name size ≠ ((size, -1), t) → ∃ xs b ys, t.table = xs ++ b :: ys ∧
        Chosen policy t.table size b ∧ t.allocate name size =
          ((0, (b.addr : Int)), { t with table := place t.table xs.length b name size })) := by
  obtain ⟨laid, memory, policyName⟩ := reaches_laid h
  obtain ⟨none, absent⟩ | ⟨xs, b, ys, table, found, chosen⟩ := getBlkIdx_exact laid policy size
  · have fails : t.allocate name size = ((size, -1), t) := by
      simp only [allocate, memory, policyName, none]
    exact ⟨⟨fun _ => absent, fun _ => fails⟩, fun h => absurd fails h⟩
  · have at_b : t.table[xs.length]? = some b := by rw [table]; simp
    have succeeds : t.allocate name size =
        ((0, (b.addr : Int)), { t with table := place t.table xs.length b name size }) := by
      simp only [allocate, memory, policyName, found, at_b]
    refine ⟨⟨fun fails => ?_, fun absent => ?_⟩, fun _ => ⟨xs, b, ys, table, chosen, succeeds⟩⟩
    · rw [succeeds] at fails
      have zero : 0 = size := congrArg (fun r => r.1.1) fails
      omega
    · exact absurd chosen.1 (absent b (by rw [table]; simp))

/-- After the first of three tensors was freed there are two free blocks; `bestFit`
takes the smaller one. -/
theorem allocate_exact_hole :
    let calls : List Call := [.allocate "a" 4, .allocate "b" 4, .deallocate "a"]
    ∃ t, (client 16 .bestFit).run (client 16 .bestFit).start calls = some t ∧
      ∃ xs b ys, t.table = xs ++ b :: ys ∧ Chosen .bestFit t.table 3 b ∧ (t.allocate "c" 3).1 = (0, 0) := by
  refine ⟨_, rfl, ?_⟩
  have fresh : (client 16 .bestFit).Reaches (fun _ _ => True) (client 16 .bestFit).start := .start
  have reached := (fresh.next (a := .allocate "a" 4) trivial rfl).next
    (a := .allocate "b" 4) trivial rfl
  obtain ⟨xs, b, ys, table, chosen, -⟩ :=
    (allocate_exact 16 .bestFit _ (reached.next (a := .deallocate "a") trivial rfl) "c" 3
      (by decide)).2 (by decide)
  exact ⟨xs, b, ys, table, chosen, by decide⟩

end MemTable

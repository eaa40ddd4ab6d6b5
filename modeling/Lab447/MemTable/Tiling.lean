import Lab447.MemTable.Model
import Lab447.Lib.Tiling

/-!
The table always tiles the memory: the blocks cover `[0, S)` in order, and no
two neighbours are both free. The argument follows the list: every operation
works at one block, so each is described on a table split at that block.
-/

namespace MemTable

open Tiling (Tiles)

/-! ## Tables split at a block -/

variable {table : List Block} {idx : Nat}

theorem split_at {blk : Block} (h : table[idx]? = some blk) :
    ∃ xs ys, table = xs ++ blk :: ys ∧ xs.length = idx := by
  obtain ⟨hi, rfl⟩ := List.getElem?_eq_some_iff.mp h
  refine ⟨table.take idx, table.drop (idx + 1), ?_, by simp; omega⟩
  rw [List.cons_getElem_drop_succ, List.take_append_drop]

theorem modify_split (xs ys : List Block) (b : Block) (f : Block → Block) :
    (xs ++ b :: ys).modify xs.length f = xs ++ f b :: ys := by
  induction xs with
  | nil => rfl
  | cons x xs ih => simpa using ih

theorem set_split (xs ys : List Block) (b c : Block) :
    (xs ++ b :: ys).set xs.length c = xs ++ c :: ys := by simp

theorem insertIdx_split (xs ys : List Block) (b : Block) :
    (xs ++ ys).insertIdx xs.length b = xs ++ b :: ys := by
  induction xs with
  | nil => rfl
  | cons x xs ih => simpa using ih

theorem place_split (xs ys : List Block) (blk : Block) (name : String) (n : Nat) :
    place (xs ++ blk :: ys) xs.length blk name n =
      if n = blk.size then xs ++ { blk with valid := false, tensorName := name } :: ys
      else xs ++ { valid := false, addr := blk.addr, size := n, tensorName := name } ::
        { blk with addr := blk.addr + n, size := blk.size - n } :: ys := by
  unfold place
  split
  · rw [set_split]
  · rw [set_split, insertIdx_split]

/-! ## The policies -/

variable {n : Nat}

theorem firstFitLoop_spec {i : Nat} (h : firstFitLoop n table idx = some i) :
    ∃ k blk, i = idx + k ∧ table[k]? = some blk ∧ blk.valid = true ∧ n ≤ blk.size := by
  induction table generalizing idx with
  | nil => cases h
  | cons blk rest ih =>
    have later (h : firstFitLoop n rest (idx + 1) = some i) :
        ∃ k blk', i = idx + k ∧ (blk :: rest)[k]? = some blk' ∧ blk'.valid = true ∧
          n ≤ blk'.size := by
      obtain ⟨k, blk', hi, hk, hv, hn⟩ := ih h
      exact ⟨k + 1, blk', by omega, hk, hv, hn⟩
    simp only [firstFitLoop] at h
    split at h
    · exact later h
    · rename_i hv
      split at h
      · rename_i hn
        cases h
        exact ⟨0, blk, rfl, rfl, by simpa using hv, hn⟩
      · exact later h

theorem bestFitLoop_spec {i : Nat} {bestIdx : Option Nat} {bestSize : Nat}
    (h : bestFitLoop n table idx bestIdx bestSize = some i) : bestIdx = some i ∨
      ∃ k blk, i = idx + k ∧ table[k]? = some blk ∧ blk.valid = true ∧ n ≤ blk.size := by
  induction table generalizing idx bestIdx bestSize with
  | nil => exact .inl h
  | cons blk rest ih =>
    have later {best : Option Nat} {size : Nat}
        (h : bestFitLoop n rest (idx + 1) best size = some i) : best = some i ∨
        ∃ k blk', i = idx + k ∧ (blk :: rest)[k]? = some blk' ∧ blk'.valid = true ∧
          n ≤ blk'.size := by
      rcases ih h with he | ⟨k, blk', hi, hk, hv, hn⟩
      · exact .inl he
      · exact .inr ⟨k + 1, blk', by omega, hk, hv, hn⟩
    simp only [bestFitLoop] at h
    split at h
    · exact later h
    · rename_i hv
      split at h
      · rename_i hn
        rcases later h with he | hk
        · cases he
          exact .inr ⟨0, blk, rfl, rfl, by simpa using hv, hn.1⟩
        · exact .inr hk
      · exact later h

/-- Both policies name a free block that is large enough. -/
theorem getBlkIdx_spec {memMax : Nat} {policy : Policy} {i : Nat}
    (h : getBlkIdx table n memMax policy = some i) :
    ∃ blk, table[i]? = some blk ∧ blk.valid = true ∧ n ≤ blk.size := by
  unfold getBlkIdx at h
  split at h
  · cases h
  · cases policy with
    | firstFit =>
      obtain ⟨k, blk, hi, hk⟩ := firstFitLoop_spec h
      exact ⟨blk, by simpa [hi] using hk⟩
    | bestFit =>
      rcases bestFitLoop_spec h with he | ⟨k, blk, hi, hk⟩
      · cases he
      · exact ⟨blk, by simpa [hi] using hk⟩

/-! ## The invariant -/

/-- No two neighbouring blocks are both free. -/
def Merged (table : List Block) : Prop :=
  table.IsChain fun a b => ¬ (a.valid = true ∧ b.valid = true)

/-- The part of a table that is in use. -/
def inUse (table : List Block) : List Block := table.filter fun b => !b.valid

/-- What every call keeps. -/
structure Inv (S : Nat) (table : List Block) : Prop where
  tiles : Tiles Block.addr Block.size 0 S table
  merged : Merged table

@[simp] theorem inUse_nil : inUse [] = [] := rfl

@[simp] theorem inUse_append (xs ys : List Block) : inUse (xs ++ ys) = inUse xs ++ inUse ys := by
  simp [inUse]

variable {b : Block}

@[simp] theorem inUse_cons_free (ys : List Block) (h : b.valid = true) :
    inUse (b :: ys) = inUse ys := by simp [inUse, h]

@[simp] theorem inUse_cons_used (ys : List Block) (h : b.valid = false) :
    inUse (b :: ys) = b :: inUse ys := by simp [inUse, h]

variable {xs ys : List Block}

theorem Merged.split (h : Merged (xs ++ b :: ys)) : Merged xs ∧ Merged ys := by
  obtain ⟨hx, hb, -⟩ := List.isChain_append.mp h
  exact ⟨hx, hb.tail⟩

/-- A block can stand between two merged lists when its neighbours there are
in use. -/
theorem Merged.join (hx : Merged xs) (hy : Merged ys) (left : ∀ p ∈ xs.getLast?, p.valid = false)
    (right : ∀ n ∈ ys.head?, n.valid = false) : Merged (xs ++ b :: ys) := by
  refine List.isChain_append.mpr ⟨hx, ?_, ?_⟩
  · cases ys with
    | nil => exact .singleton b
    | cons n ys => exact .cons_cons (by simp [right n (by simp)]) hy
  · intro p hp c hc
    simp [left p hp]

/-- The neighbours of a free block are in use. -/
theorem Merged.around (h : Merged (xs ++ b :: ys)) (hb : b.valid = true) :
    (∀ p ∈ xs.getLast?, p.valid = false) ∧ ∀ n ∈ ys.head?, n.valid = false := by
  obtain ⟨-, hr, hl⟩ := List.isChain_append.mp h
  constructor
  · intro p hp
    simpa [hb] using hl p hp b (by simp)
  · intro n hn
    cases ys with
    | nil => cases hn
    | cons c ys =>
      cases hn
      simpa [hb] using (List.isChain_cons_cons.mp hr).1

/-! ## Each operation keeps the invariant -/

variable {S : Nat}

theorem place_inv {blk : Block} (name : String) (h : Inv S (xs ++ blk :: ys))
    (hv : blk.valid = true) (hn : 0 < n) (hle : n ≤ blk.size) :
    Inv S (place (xs ++ blk :: ys) xs.length blk name n) := by
  obtain ⟨hx, hy⟩ := h.merged.split
  obtain ⟨left, right⟩ := h.merged.around hv
  rw [place_split]
  split
  · exact ⟨h.tiles.replace rfl rfl, hx.join hy left right⟩
  · refine ⟨h.tiles.cut rfl hn rfl (by dsimp only; omega) (by dsimp only; omega), ?_⟩
    -- the new block is in use, so only the remainder behind it is free
    have rest : Merged ({ blk with addr := blk.addr + n, size := blk.size - n } :: ys) :=
      Merged.join (show Merged [] from .nil) hy (by simp) right
    refine List.isChain_append.mpr ⟨hx, .cons_cons (by simp) rest, ?_⟩
    intro p hp c hc
    simp [left p hp]

theorem mergeNext_spec (h : Tiles Block.addr Block.size 0 S (xs ++ b :: ys)) (hy : Merged ys) :
    ∃ b' ys', mergeNext (xs ++ b :: ys) xs.length = xs ++ b' :: ys' ∧
      Tiles Block.addr Block.size 0 S (xs ++ b' :: ys') ∧ b'.valid = b.valid ∧
      Merged ys' ∧ (∀ n ∈ ys'.head?, n.valid = false) ∧ inUse ys' = inUse ys := by
  cases ys with
  | nil => exact ⟨b, [], by simp [mergeNext], h, rfl, hy, by simp, rfl⟩
  | cons n ys =>
    have hget : (xs ++ b :: n :: ys)[xs.length + 1]? = some n := by simp
    by_cases hn : n.valid = true
    · have hm := h.merge (d := { b with size := b.size + n.size }) rfl rfl
      have hb : n ∉ xs ++ [{ b with size := b.size + n.size }] := by
        intro hmem
        rcases List.mem_append.mp hmem with hx | hx
        · have := h.addr_lt hx (y := n) (by simp)
          omega
        · have hlt := (show Tiles Block.addr Block.size 0 S ((xs ++ [b]) ++ n :: ys) by
            simpa using h).addr_lt (x := b) (y := n) (by simp) (by simp)
          rw [List.mem_singleton.mp hx] at hlt
          simp at hlt
      refine ⟨{ b with size := b.size + n.size }, ys, ?_, hm, rfl, ?_, ?_, ?_⟩
      · simp only [mergeNext, hget, hn, if_true, modify_split]
        rw [List.append_cons, List.erase_append_right _ hb, List.erase_cons_head, ← List.append_cons]
      · exact hy.tail
      · exact ((show Merged ([] ++ n :: ys) from hy).around hn).2
      · exact (inUse_cons_free ys hn).symm
    · refine ⟨b, n :: ys, ?_, h, rfl, hy, ?_, rfl⟩
      · simp only [mergeNext, hget, hn]
        rfl
      · intro m hm
        cases hm
        simpa using hn

theorem mergePrev_spec (h : Tiles Block.addr Block.size 0 S (xs ++ b :: ys)) (hx : Merged xs)
    (hne : xs ≠ []) : ∃ xs' b', mergePrev (xs ++ b :: ys) xs.length = xs' ++ b' :: ys ∧
      Tiles Block.addr Block.size 0 S (xs' ++ b' :: ys) ∧ b'.valid = b.valid ∧
      Merged xs' ∧ (∀ p ∈ xs'.getLast?, p.valid = false) ∧ inUse xs' = inUse xs := by
  obtain ⟨xs, p, rfl⟩ := (List.eq_nil_or_concat xs).resolve_left hne
  rw [List.concat_eq_append] at h hx ⊢
  have hget : ((xs ++ [p]) ++ b :: ys)[(xs ++ [p]).length - 1]? = some p := by simp
  by_cases hp : p.valid = true
  · have h' : Tiles Block.addr Block.size 0 S (xs ++ p :: b :: ys) := by simpa using h
    have hm := h'.merge (d := { b with addr := p.addr, size := b.size + p.size }) rfl
      (Nat.add_comm _ _)
    have hnot : p ∉ xs := fun hmem => by
      have := h'.addr_lt hmem (y := p) (by simp)
      omega
    refine ⟨xs, { b with addr := p.addr, size := b.size + p.size }, ?_, hm, rfl, ?_, ?_, ?_⟩
    · simp only [mergePrev, hget, hp, if_true, modify_split]
      rw [List.append_assoc, List.singleton_append, List.erase_append_right _ hnot,
        List.erase_cons_head]
    · exact hx.split.1
    · exact (hx.around hp).1
    · simp [hp]
  · refine ⟨xs ++ [p], b, ?_, h, rfl, hx, ?_, rfl⟩
    · simp only [mergePrev, hget, hp]
      rfl
    · intro q hq
      simp only [List.getLast?_append, List.getLast?_singleton, Option.some_or,
        Option.mem_some_iff] at hq
      subst hq
      simpa using hp

/-- Freeing a block leaves every block in use on its two sides as it was, and
what replaces it is free and has no free neighbour. -/
theorem release_spec (h : Inv S (xs ++ b :: ys)) :
    ∃ xs' b' ys', release (xs ++ b :: ys) xs.length = xs' ++ b' :: ys' ∧
      Inv S (xs' ++ b' :: ys') ∧ b'.valid = true ∧
      inUse xs' = inUse xs ∧ inUse ys' = inUse ys := by
  obtain ⟨hx, hy⟩ := h.merged.split
  let fb : Block := { b with valid := true, tensor := some "" }
  have hf : (xs ++ b :: ys).modify xs.length
      (fun blk => { blk with valid := true, tensor := some "" }) = xs ++ fb :: ys :=
    modify_split xs ys b _
  have ht : Tiles Block.addr Block.size 0 S (xs ++ fb :: ys) := h.tiles.replace rfl rfl
  simp only [release, hf]
  by_cases h0 : xs = []
  · subst h0
    obtain ⟨b', ys', he, ht', hv, hy', right, hu⟩ := mergeNext_spec ht hy
    exact ⟨[], b', ys', he, ⟨ht', Merged.join hx hy' (by simp) right⟩, hv, rfl, hu⟩
  · have hpos : xs.length ≠ 0 := by simpa using h0
    rw [if_neg hpos]
    by_cases hl : ys = []
    · subst hl
      obtain ⟨xs', b', he, ht', hv, hx', left, hu⟩ := mergePrev_spec ht hx h0
      rw [if_pos (by simp)]
      exact ⟨xs', b', [], he, ⟨ht', hx'.join hy left (by simp)⟩, hv, hu, rfl⟩
    · rw [if_neg (by simp; omega)]
      obtain ⟨b₁, ys', he₁, ht₁, hv₁, hy', right, hu₁⟩ := mergeNext_spec ht hy
      obtain ⟨xs', b', he, ht', hv, hx', left, hu⟩ := mergePrev_spec ht₁ hx h0
      rw [he₁, he]
      exact ⟨xs', b', ys', rfl, ⟨ht', hx'.join hy' left right⟩, hv.trans hv₁, hu, hu₁⟩

theorem new_inv (hS : 0 < S) (policy : Policy) : Inv S (new S policy).table :=
  ⟨by simp [new, hS], .singleton _⟩

/-- `allocate` leaves the table alone, or places the tensor at the start of a
free block that is large enough. -/
theorem allocate_spec (t : MemTable) (name : String) (n : Nat) :
    t.allocate name n = ((n, -1), t) ∨
      ∃ xs blk ys, t.table = xs ++ blk :: ys ∧ blk.valid = true ∧ n ≤ blk.size ∧
        t.allocate name n =
          ((0, blk.addr), { t with table := place (xs ++ blk :: ys) xs.length blk name n }) := by
  cases hidx : getBlkIdx t.table n t.size t.policyName with
  | none => exact .inl (by simp [allocate, hidx])
  | some idx =>
    obtain ⟨blk, hget, hv, hle⟩ := getBlkIdx_spec hidx
    obtain ⟨xs, ys, htable, rfl⟩ := split_at hget
    refine .inr ⟨xs, blk, ys, htable, hv, hle, ?_⟩
    rw [← htable]
    simp only [allocate, hidx, hget]

variable {t : MemTable}

theorem allocate_inv (h : Inv S t.table) (name : String) (hn : 0 < n) :
    Inv S (t.allocate name n).2.table := by
  rcases allocate_spec t name n with he | ⟨xs, blk, ys, htable, hv, hle, he⟩
  · rw [he]
    exact h
  · rw [he]
    rw [htable] at h
    exact place_inv name h hv hn hle

/-- The block that `deallocate` finds, with the table split at it. -/
theorem found_split {name : String}
    (h : (table.findIdx? fun blk => blk.tensorName = name) = some idx) :
    ∃ xs b ys, table = xs ++ b :: ys ∧ xs.length = idx ∧ b.tensorName = name ∧
      ∀ c ∈ xs, c.tensorName ≠ name := by
  induction table generalizing idx with
  | nil => cases h
  | cons c cs ih =>
    rw [List.findIdx?_cons] at h
    by_cases hc : c.tensorName = name
    · simp only [hc, decide_true, if_true, Option.some.injEq] at h
      exact ⟨[], c, cs, rfl, h, hc, by simp⟩
    · simp only [hc, decide_false, Bool.false_eq_true, if_false, Option.map_eq_some_iff] at h
      obtain ⟨k, hk, rfl⟩ := h
      obtain ⟨xs, b, ys, rfl, rfl, hb, hxs⟩ := ih hk
      refine ⟨c :: xs, b, ys, rfl, rfl, hb, ?_⟩
      intro d hd
      rcases List.mem_cons.mp hd with rfl | hd
      · exact hc
      · exact hxs d hd

theorem deallocate_inv {t' : MemTable} {name : String} {r : Bool} (h : Inv S t.table)
    (hd : t.deallocate name = .ok (r, t')) : Inv S t'.table := by
  unfold deallocate at hd
  split at hd
  · split at hd
    · cases hd
      exact h
    · cases hd
  · split at hd
    · rename_i idx hfind
      cases hd
      obtain ⟨xs, b, ys, htable, rfl, -⟩ := found_split hfind
      rw [htable] at h ⊢
      obtain ⟨xs', b', ys', he, hinv, -⟩ := release_spec h
      rw [he]
      exact hinv
    · cases hd
      exact h

/-- The calls of the run allocate tensors of a positive size. -/
def Positive (_ : MemTable) : Call → Prop
  | .allocate _ tensorSize => 0 < tensorSize
  | .deallocate _ => True

theorem call_inv {t' : MemTable} {c : Call} (h : Inv S t.table) (hc : Positive t c)
    (hstep : t.call c = .ok t') : Inv S t'.table := by
  cases c with
  | allocate name n =>
    cases hstep
    exact allocate_inv h name hc
  | deallocate name =>
    cases hd : t.deallocate name with
    | error e => simp [call, hd, Except.map] at hstep
    | ok r =>
      simp only [call, hd, Except.map, Except.ok.injEq] at hstep
      subst hstep
      exact deallocate_inv h hd

theorem reaches_inv (hS : 0 < S) {policy : Policy} (h : (client S policy).Reaches Positive t) :
    Inv S t.table :=
  h.invariant (new_inv hS policy) fun _ _ _ hs hc hstep =>
    call_inv hs hc (Option.some.inj hstep)

/-- The table is an ordered tiling of `[0, S)` without free neighbours. -/
structure TilesMemory (S : Nat) (table : List Block) : Prop where
  first : table.head?.map Block.addr = some 0
  contiguous : table.IsChain fun a b => b.addr = a.addr + a.size
  positive : ∀ b ∈ table, 0 < b.size
  total : (table.map Block.size).sum = S
  merged : table.IsChain fun a b => ¬ (a.valid = true ∧ b.valid = true)

theorem Inv.tilesMemory (hS : 0 < S) (h : Inv S table) : TilesMemory S table where
  first := by
    obtain ⟨b, bs, rfl, hb⟩ := h.tiles.head_addr hS
    simp [hb]
  contiguous := h.tiles.chain
  positive b hb := (h.tiles.inside hb).2.2
  total := by simpa using h.tiles.sum_eq
  merged := h.merged

/-- **The table always tiles the memory**, after every call that returns, for
both policies and whatever names the calls use. -/
theorem table_tiles_memory (S : Nat) (hS : 0 < S) (policy : Policy) (t : MemTable)
    (h : (client S policy).Reaches Positive t) : TilesMemory S t.table :=
  (reaches_inv hS h).tilesMemory hS

/-- Two tensors are placed, the first is freed twice over under a stale name,
and the table still tiles the memory. -/
theorem table_tiles_memory_after_stale_name :
    let calls : List Call := [.allocate "a" 4, .allocate "b" 4, .deallocate "a", .deallocate "a"]
    ∃ t, (client 16 .bestFit).run (client 16 .bestFit).start calls = some t ∧
      t.table.length = 3 ∧ TilesMemory 16 t.table := by
  refine ⟨_, rfl, rfl, table_tiles_memory 16 (by decide) .bestFit _ ?_⟩
  exact (((Machine.Reaches.start.next (a := .allocate "a" 4) (Nat.zero_lt_succ 3) rfl).next
    (a := .allocate "b" 4) (Nat.zero_lt_succ 3) rfl).next (a := .deallocate "a") trivial rfl).next
    (a := .deallocate "a") trivial rfl

end MemTable

import Lab447.MemTable.Tiling
import Lab447.Lib.Bindings

/-!
The table against its purpose: a map from the names of the live tensors to their
places. A call meets the map when the blocks in use are exactly the live tensors
after it and the result of `deallocate` says whether the name was live. `Safe` is
what decides it: the first block that carries the name must be in use, and must
not be the only block.
-/

namespace MemTable

open Bindings (Represents)

/-- The live tensors with their address and size. -/
abbrev Live := String → Option (Nat × Nat)

/-- The blocks in use, as bindings of names to places. -/
def entries (table : List Block) : List (String × Nat × Nat) :=
  (inUse table).map fun b => (b.tensorName, b.addr, b.size)

/-- The live tensors after a call: a successful allocation binds its name to
the address it returned, and a deallocation takes its name out. -/
def Live.after (live : Live) (t : MemTable) : Call → Live
  | .allocate name n =>
    let result := (t.allocate name n).1
    if result.2 = -1 then live else Function.update live name (some (result.2.toNat, n))
  | .deallocate name => Function.update live name none

/-- What a call does to the map: it does not raise, `deallocate` answers
whether the name was live, and the blocks in use are the live tensors. -/
def Meets (t : MemTable) (live : Live) : Call → Prop
  | .allocate name n =>
    Represents (entries (t.allocate name n).2.table) (live.after t (.allocate name n))
  | .deallocate name =>
    ∃ r t', t.deallocate name = .ok (r, t') ∧ (r = true ↔ live name ≠ none) ∧
      Represents (entries t'.table) (live.after t (.deallocate name))

/-- `deallocate` finds a block in use under the name, or none, and a block it
finds is not alone in the table. -/
def Safe (t : MemTable) : Call → Prop
  | .allocate _ _ => True
  | .deallocate name => ∀ b, (t.table.find? fun blk => blk.tensorName = name) = some b →
      b.valid = false ∧ t.table.length ≠ 1

/-- The calls of a client that names no live tensor twice. -/
def Legal (live : Live) : Call → Prop
  | .allocate name n => 0 < n ∧ live name = none
  | .deallocate _ => True

/-- The table after a call; a call that raises leaves it as it was. -/
def next (t : MemTable) (c : Call) : MemTable :=
  match t.call c with
  | .ok t' => t'
  | .error _ => t

/-- Every call of the sequence has `P` in the state it is made in. -/
def Along (P : MemTable → Live → Call → Prop) : MemTable → Live → List Call → Prop
  | _, _, [] => True
  | t, live, c :: cs => P t live c ∧ Along P (t.next c) (live.after t c) cs

/-- The table and the map after a sequence of calls. -/
def after : MemTable → Live → List Call → MemTable × Live
  | t, live, [] => (t, live)
  | t, live, c :: cs => after (t.next c) (live.after t c) cs

/-! ## One call -/

@[simp] theorem entries_append (xs ys : List Block) :
    entries (xs ++ ys) = entries xs ++ entries ys := by simp [entries]

variable {b : Block}

@[simp] theorem entries_cons_free (ys : List Block) (h : b.valid = true) :
    entries (b :: ys) = entries ys := by simp [entries, h]

@[simp] theorem entries_cons_used (ys : List Block) (h : b.valid = false) :
    entries (b :: ys) = (b.tensorName, b.addr, b.size) :: entries ys := by simp [entries, h]

variable {xs ys : List Block}

theorem entries_congr (h : inUse xs = inUse ys) : entries xs = entries ys := by
  rw [entries, h, entries]

variable {live : Live} {name : String}

/-- A name that no block carries is not live. -/
theorem not_live {table : List Block} (h : Represents (entries table) live)
    (hn : ∀ b ∈ table, b.tensorName ≠ name) : live name = none := by
  rw [h.none_iff]
  intro hmem
  simp only [entries, inUse, List.map_map, List.mem_map, List.mem_filter] at hmem
  obtain ⟨b, ⟨hb, -⟩, he⟩ := hmem
  exact hn b hb he

variable {t : MemTable}

theorem allocate_meets {n : Nat} (hr : Represents (entries t.table) live) (hl : live name = none) :
    Meets t live (.allocate name n) := by
  simp only [Meets, Live.after]
  rcases allocate_spec t name n with he | ⟨xs, blk, ys, htable, hv, -, he⟩
  · simpa [he] using hr
  · have hne : ((blk.addr : Int) = -1) = False := by simp
    simp only [he, hne, if_false, Int.toNat_natCast]
    rw [htable, entries_append, entries_cons_free _ hv] at hr
    have hi := hr.insert (k := name) (v := (blk.addr, n)) hl
    rw [place_split]
    split
    · rename_i hsize
      simpa [hsize] using hi
    · simpa [hv] using hi

/-- Without a block of that name, `deallocate` has nothing to do. -/
theorem deallocate_missing (hr : Represents (entries t.table) live)
    (hn : ∀ b ∈ t.table, b.tensorName ≠ name) (hd : t.deallocate name = .ok (false, t)) :
    Meets t live (.deallocate name) := by
  have hl := not_live hr hn
  refine ⟨false, t, hd, by simp [hl], ?_⟩
  rw [Live.after, Bindings.update_none_of_none hl]
  exact hr

variable {S : Nat}

/-- The first block of that name is in use: exactly it is freed. -/
theorem deallocate_used (hinv : Inv S t.table) (hr : Represents (entries t.table) live)
    (htable : t.table = xs ++ b :: ys) (hb : b.valid = false)
    (hd : t.deallocate b.tensorName = .ok (true, { t with table := release t.table xs.length })) :
    Meets t live (.deallocate b.tensorName) := by
  rw [htable] at hinv hr
  obtain ⟨xs', b', ys', he, -, hv, hx, hy⟩ := release_spec hinv
  rw [entries_append, entries_cons_used _ hb] at hr
  refine ⟨true, _, hd, ?_, ?_⟩
  · have hlive := (hr.mem_iff b.tensorName (b.addr, b.size)).mp (by simp)
    simp [hlive]
  · simp only [Live.after, htable, he, entries_append, entries_cons_free _ hv, entries_congr hx,
      entries_congr hy]
    exact hr.remove

/-- The first block of that name is free: whether or not another one is in
use, the answer or the map is wrong. -/
theorem deallocate_stale (hinv : Inv S t.table) (hr : Represents (entries t.table) live)
    (htable : t.table = xs ++ b :: ys) (hb : b.valid = true)
    (hd : t.deallocate b.tensorName = .ok (true, { t with table := release t.table xs.length })) :
    ¬ Meets t live (.deallocate b.tensorName) := by
  rintro ⟨r, t', hd', hlive, hr'⟩
  rw [hd] at hd'
  cases hd'
  rw [htable] at hinv hr
  obtain ⟨xs', b', ys', he, -, hv, hx, hy⟩ := release_spec hinv
  obtain ⟨p, hp⟩ := Option.ne_none_iff_exists'.mp (hlive.mp rfl)
  have hmem := (hr.mem_iff b.tensorName p).mpr hp
  rw [entries_append, entries_cons_free _ hb] at hmem
  simp only [htable, he, entries_append, entries_cons_free _ hv, entries_congr hx,
    entries_congr hy] at hr'
  have := (hr'.mem_iff b.tensorName p).mp hmem
  simp [Live.after] at this

theorem find_split (ys : List Block) (hx : ∀ c ∈ xs, c.tensorName ≠ b.tensorName) :
    ((xs ++ b :: ys).find? fun blk => blk.tensorName = b.tensorName) = some b := by
  have hnone : (xs.find? fun blk => blk.tensorName = b.tensorName) = none :=
    List.find?_eq_none.mpr fun c hc => by simpa using hx c hc
  rw [List.find?_append, hnone]
  simp

theorem deallocate_eq_true {idx : Nat} (hone : t.table.length ≠ 1)
    (hfind : (t.table.findIdx? fun blk => blk.tensorName = name) = some idx) :
    t.deallocate name = .ok (true, { t with table := release t.table idx }) := by
  unfold deallocate
  split
  · rename_i blk hblk
    simp [hblk] at hone
  · simp only [hfind]

theorem deallocate_eq_false (hone : t.table.length ≠ 1)
    (hfind : (t.table.findIdx? fun blk => blk.tensorName = name) = none) :
    t.deallocate name = .ok (false, t) := by
  unfold deallocate
  split
  · rename_i blk hblk
    simp [hblk] at hone
  · simp only [hfind]

theorem deallocate_meets_iff (hinv : t.table.length ≠ 1 → Inv S t.table)
    (hr : Represents (entries t.table) live) :
    Meets t live (.deallocate name) ↔ Safe t (.deallocate name) := by
  by_cases hone : t.table.length = 1
  · obtain ⟨blk, hblk⟩ := List.length_eq_one_iff.mp hone
    by_cases hn : blk.tensorName = name
    · -- the only block carries the name: the call raises
      have hd : t.deallocate name = .error .unboundLocal := by simp [deallocate, hblk, hn]
      have hs : ¬ Safe t (.deallocate name) := fun hs => (hs blk (by simp [hblk, hn])).2 hone
      simp [Meets, hd, hs]
    · have hd : t.deallocate name = .ok (false, t) := by simp [deallocate, hblk, hn]
      have hs : Safe t (.deallocate name) := by simp [Safe, hblk, hn]
      exact iff_of_true (deallocate_missing hr (by simpa [hblk] using hn) hd) hs
  · cases hfind : t.table.findIdx? fun blk => blk.tensorName = name with
    | none =>
      have hn : ∀ b ∈ t.table, b.tensorName ≠ name := by
        simpa [List.findIdx?_eq_none_iff] using hfind
      have hs : Safe t (.deallocate name) := by
        intro b hb
        exact absurd (by simpa using List.find?_some hb) (hn b (List.mem_of_find?_eq_some hb))
      exact iff_of_true (deallocate_missing hr hn (deallocate_eq_false hone hfind)) hs
    | some idx =>
      obtain ⟨xs, b, ys, htable, rfl, rfl, hxs⟩ := found_split hfind
      have hd := deallocate_eq_true hone hfind
      have hfirst := find_split ys hxs
      rw [← htable] at hfirst
      cases hb : b.valid with
      | false =>
        refine iff_of_true (deallocate_used (hinv hone) hr htable hb hd) ?_
        intro c hc
        rw [hfirst] at hc
        cases hc
        exact ⟨hb, hone⟩
      | true =>
        refine iff_of_false (deallocate_stale (hinv hone) hr htable hb hd) ?_
        intro hs
        have := (hs b hfirst).1
        simp [hb] at this

/-- A table of `S` bytes and the live tensors it holds. A memory of no bytes
keeps its one empty block, since no tensor fits. -/
structure Holds (S : Nat) (t : MemTable) (live : Live) : Prop where
  shape : 0 < S ∧ Inv S t.table ∨
    S = 0 ∧ t.size = 0 ∧ ∃ b, t.table = [b] ∧ b.valid = true ∧ b.addr = 0 ∧ b.size = 0
  represents : Represents (entries t.table) live

theorem Holds.inv (h : Holds S t live) (hne : t.table.length ≠ 1) : Inv S t.table := by
  rcases h.shape with ⟨-, hi⟩ | ⟨-, -, b, hb, -⟩
  · exact hi
  · simp [hb] at hne

theorem new_holds (S : Nat) (policy : Policy) : Holds S (new S policy) fun _ => none where
  shape := by
    rcases Nat.eq_zero_or_pos S with rfl | hS
    · exact .inr ⟨rfl, rfl, _, rfl, rfl, rfl, rfl⟩
    · exact .inl ⟨hS, new_inv hS policy⟩
  represents := Bindings.represents_nil

theorem meets_iff {c : Call} (h : Holds S t live) (hl : Legal live c) :
    Meets t live c ↔ Safe t c := by
  cases c with
  | allocate name n => exact iff_of_true (allocate_meets h.represents hl.2) trivial
  | deallocate name => exact deallocate_meets_iff h.inv h.represents

theorem next_holds {c : Call} (h : Holds S t live) (hl : Legal live c) (hm : Meets t live c) :
    Holds S (t.next c) (live.after t c) := by
  cases c with
  | allocate name n =>
    refine ⟨?_, hm⟩
    rcases h.shape with ⟨hS, hi⟩ | ⟨hS, hsize, hb⟩
    · exact .inl ⟨hS, allocate_inv hi name hl.1⟩
    · have hpos : 0 < n := hl.1
      have hnone : getBlkIdx t.table n t.size t.policyName = none := by
        simp [getBlkIdx, hsize, hpos]
      have he : t.next (.allocate name n) = t := by simp [next, call, allocate, hnone]
      rw [he]
      exact .inr ⟨hS, hsize, hb⟩
  | deallocate name =>
    obtain ⟨r, t', hd, hr, hm⟩ := hm
    have he : t.next (.deallocate name) = t' := by simp [next, call, hd, Except.map]
    rw [he]
    refine ⟨?_, hm⟩
    rcases h.shape with ⟨hS, hi⟩ | ⟨hS, hsize, b, hb, hrest⟩
    · exact .inl ⟨hS, deallocate_inv hi hd⟩
    · simp only [deallocate, hb] at hd
      split at hd
      · cases hd
        exact .inr ⟨hS, hsize, b, hb, hrest⟩
      · cases hd

/-! ## Sequences of calls -/

theorem along_meets_iff {calls : List Call} (h : Holds S t live)
    (hl : Along (fun _ live c => Legal live c) t live calls) :
    Along Meets t live calls ↔ Along (fun t _ c => Safe t c) t live calls := by
  induction calls generalizing t live with
  | nil => exact Iff.rfl
  | cons c cs ih =>
    obtain ⟨hc, hcs⟩ := hl
    constructor
    · rintro ⟨hm, hms⟩
      exact ⟨(meets_iff h hc).mp hm, (ih (next_holds h hc hm) hcs).mp hms⟩
    · rintro ⟨hs, hss⟩
      have hm := (meets_iff h hc).mpr hs
      exact ⟨hm, (ih (next_holds h hc hm) hcs).mpr hss⟩

theorem after_holds {calls : List Call} (h : Holds S t live)
    (hl : Along (fun _ live c => Legal live c) t live calls) (hm : Along Meets t live calls) :
    Holds S (after t live calls).1 (after t live calls).2 := by
  induction calls generalizing t live with
  | nil => exact h
  | cons c cs ih => exact ih (next_holds h hl.1 hm.1) hl.2 hm.2

/-- With no tensor live, the table is one free block of the whole memory. -/
theorem Holds.single (h : Holds S t fun _ => none) :
    ∃ b, t.table = [b] ∧ b.valid = true ∧ b.addr = 0 ∧ b.size = S := by
  rcases h.shape with ⟨hS, hi⟩ | ⟨rfl, -, b, hb⟩
  · have hfree : ∀ b ∈ t.table, b.valid = true := by
      intro b hb
      by_contra hv
      have hmem : (b.tensorName, b.addr, b.size) ∈ entries t.table := by
        simp only [entries, List.mem_map]
        exact ⟨b, by simpa [inUse, hb] using hv, rfl⟩
      simpa using (h.represents.mem_iff _ _).mp hmem
    obtain ⟨b, bs, htable, hb⟩ := hi.tiles.head_addr hS
    rw [htable] at hi hfree
    cases bs with
    | nil =>
      refine ⟨b, htable, hfree b (by simp), hb, ?_⟩
      simpa using hi.tiles.sum_eq
    | cons c cs =>
      exact absurd ⟨hfree b (by simp), hfree c (by simp)⟩ (List.isChain_cons_cons.mp hi.merged).1
  · exact ⟨b, hb⟩

/-- **When the table refines the map of live tensors**: for every sequence of
calls that binds no live name again, every call meets the map exactly when every
`deallocate` of it is safe; and a sequence of safe calls that frees everything
leaves the single free block. -/
theorem table_refines_live_iff (S : Nat) (policy : Policy) (calls : List Call)
    (legal : Along (fun _ live c => Legal live c) (new S policy) (fun _ => none) calls) :
    (Along Meets (new S policy) (fun _ => none) calls ↔
      Along (fun t _ c => Safe t c) (new S policy) (fun _ => none) calls) ∧
    (Along (fun t _ c => Safe t c) (new S policy) (fun _ => none) calls →
      (after (new S policy) (fun _ => none) calls).2 = (fun _ => none) →
      ∃ b, (after (new S policy) (fun _ => none) calls).1.table = [b] ∧ b.valid = true ∧
        b.addr = 0 ∧ b.size = S) := by
  have iff := along_meets_iff (new_holds S policy) legal
  refine ⟨iff, fun safe empty => ?_⟩
  have h := after_holds (new_holds S policy) legal (iff.mpr safe)
  rw [empty] at h
  exact h.single

/-- A tensor placed, freed and placed again while another one stays: every
call is safe, and each meets the map. -/
theorem table_refines_live_reuse :
    Along Meets (new 16 .bestFit) (fun _ => none)
      [.allocate "a" 4, .allocate "b" 4, .deallocate "a", .allocate "a" 4, .deallocate "b"] := by
  refine (table_refines_live_iff 16 .bestFit _ ?_).1.mpr ?_
  · exact ⟨⟨by decide, rfl⟩, ⟨by decide, rfl⟩, trivial, ⟨by decide, rfl⟩, trivial, trivial⟩
  · refine ⟨trivial, trivial, ?_, trivial, ?_, trivial⟩ <;>
    · intro b hb
      cases hb
      decide

/-- Freeing a tensor that fills the memory raises, and freeing a tensor twice
answers `True` the second time. -/
theorem deallocate_misses_live :
    (Along (fun _ live c => Legal live c) (new 8 .bestFit) (fun _ => none)
        [.allocate "a" 8, .deallocate "a"] ∧
      ¬ Along Meets (new 8 .bestFit) (fun _ => none) [.allocate "a" 8, .deallocate "a"]) ∧
    (Along (fun _ live c => Legal live c) (new 8 .bestFit) (fun _ => none)
        [.allocate "a" 2, .allocate "b" 2, .deallocate "a", .deallocate "a"] ∧
      ¬ Along Meets (new 8 .bestFit) (fun _ => none)
        [.allocate "a" 2, .allocate "b" 2, .deallocate "a", .deallocate "a"]) := by
  refine ⟨⟨⟨⟨by decide, rfl⟩, trivial, trivial⟩, ?_⟩,
    ⟨⟨⟨by decide, rfl⟩, ⟨by decide, rfl⟩, trivial, trivial, trivial⟩, ?_⟩⟩
  · rintro ⟨-, ⟨r, t', hd, -⟩, -⟩
    cases hd
  · rintro ⟨-, -, -, ⟨r, t', hd, hr, -⟩, -⟩
    cases hd
    exact hr.mp rfl rfl

end MemTable

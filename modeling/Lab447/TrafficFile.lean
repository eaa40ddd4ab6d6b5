import Mathlib
import Lab447.Traffic

/-!
The traffic pattern file: written by the generator (`top.cpp`) and read by the
first PE for all of them (`PE::parseTraffic`). The file is taken at the level of
JSON values; a coordinate pair is written as text.
-/

namespace TrafficFile

/-! ## Decimal text -/

/-- `std::to_string` of an `int`. -/
def decimal (x : Int) : List Char :=
  if x < 0 then '-' :: Nat.toDigits 10 x.natAbs else Nat.toDigits 10 x.natAbs

/-- `to_string(first) + "," + to_string(second)` -/
def coordinate (c : Int × Int) : List Char := decimal c.1 ++ ',' :: decimal c.2

/-- `text[k] - '0'` -/
def digitAt (text : List Char) (k : Nat) : Int := (text.getD k '\x00').toNat - '0'.toNat

/-- What `parseTraffic` makes of a coordinate: the first and the third character. -/
def readCoordinate (text : List Char) : Int × Int := (digitAt text 0, digitAt text 2)

theorem decimal_ofNat (n : Nat) : decimal n = Nat.toDigits 10 n := by
  simp [decimal]

theorem decimal_inj {m n : Nat} (h : decimal m = decimal n) : m = n := by
  rw [decimal_ofNat, decimal_ofNat] at h
  have := congrArg (Nat.ofDigitChars 10 · 0) h
  simpa [Nat.ofDigitChars_toDigits] using this

theorem comma_not_mem_decimal (n : Nat) : ',' ∉ decimal n := by
  intro h
  have := Nat.isDigit_of_mem_toDigits (by decide) (by decide) h
  revert this
  decide

theorem coordinate_inj {a b c d : Nat} (h : coordinate (a, b) = coordinate (c, d)) :
    a = c ∧ b = d := by
  have cut := (List.append_cons_inj_of_notMem (comma_not_mem_decimal a)
    (comma_not_mem_decimal b)).mp h
  exact ⟨decimal_inj cut.1, decimal_inj cut.2.2⟩

theorem decimal_digit {n : Nat} (h : n < 10) : decimal n = [n.digitChar] := by
  rw [decimal_ofNat, Nat.toDigits_of_lt_base h]

theorem decimal_head (n : Nat) : ∃ c rest, decimal n = c :: rest ∧
    '0'.toNat ≤ c.toNat ∧ c.toNat ≤ '9'.toNat := by
  obtain ⟨c, rest, h⟩ := List.exists_cons_of_ne_nil (Nat.toDigits_ne_nil (n := n) (b := 10))
  refine ⟨c, rest, h, ?_⟩
  have member : c ∈ Nat.toDigits 10 n := h ▸ List.mem_cons_self
  exact Char.isDigit_iff_toNat.mp (Nat.isDigit_of_mem_toDigits (by decide) (by decide) member)

/-- Reading takes one character for each number, so it returns the pair exactly
when both numbers have one digit. -/
theorem readCoordinate_eq_iff (a b : Nat) :
    readCoordinate (coordinate (a, b)) = ((a : Int), (b : Int)) ↔ a < 10 ∧ b < 10 := by
  have ninth : '9'.toNat = '0'.toNat + 9 := rfl
  have third (h : a < 10) : digitAt (coordinate (a, b)) 2 = digitAt (decimal b) 0 := by
    rw [coordinate, decimal_digit h]
    rfl
  obtain ⟨c, rest, ha, -, hc⟩ := decimal_head a
  obtain ⟨d, rest', hb, -, hd⟩ := decimal_head b
  rw [readCoordinate, Prod.mk.injEq]
  constructor
  · rintro ⟨h0, h2⟩
    have small : a < 10 := by
      simp only [coordinate, ha, digitAt, List.cons_append, List.getD_cons_zero] at h0
      omega
    rw [third small] at h2
    simp only [hb, digitAt, List.getD_cons_zero] at h2
    exact ⟨small, by omega⟩
  · rintro ⟨small, small'⟩
    rw [third small, coordinate, decimal_digit small, decimal_digit small']
    have := Nat.toNat_digitChar_of_lt_ten small
    have := Nat.toNat_digitChar_of_lt_ten small'
    have zero : '0'.toNat = 48 := rfl
    simp only [digitAt, List.cons_append, List.getD_cons_zero]
    omega

/-! ## Writing -/

/-- The value of the enumerators. -/
def typeCode : RequestType → Nat
  | .read => 0
  | .write => 1
  | .compute => 2
  | .sync => 3

def castCode : TrafficType → Nat
  | .unicast => 0
  | .multicast => 1
  | .broadcast => 2

structure JsonTraffic where
  type : Nat
  src : List Char
  dest : List Char
  addr : Nat
  size : Nat
  request : Nat
  response : Nat
  deriving DecidableEq, Repr

def toJson (t : Traffic) : JsonTraffic where
  type := typeCode t.type
  src := coordinate t.src
  dest := coordinate t.dest
  addr := t.addr
  size := t.size
  request := castCode t.request
  response := castCode t.response

/-! ## Reading -/

/-- The cast from `int`. The source keeps a number that is no enumerator; no
written file has one. -/
def requestTypeOf : Nat → Option RequestType
  | 0 => some .read
  | 1 => some .write
  | 2 => some .compute
  | 3 => some .sync
  | _ => none

def trafficTypeOf : Nat → Option TrafficType
  | 0 => some .unicast
  | 1 => some .multicast
  | 2 => some .broadcast
  | _ => none

@[simp] theorem requestTypeOf_typeCode (t : RequestType) : requestTypeOf (typeCode t) = some t := by
  cases t <;> rfl

@[simp] theorem trafficTypeOf_castCode (t : TrafficType) : trafficTypeOf (castCode t) = some t := by
  cases t <;> rfl

/-- The entry of `pe_list` for a PE: its coordinates and its traffic list. -/
structure PE where
  x : Nat
  y : Nat
  trafficList : List Traffic
  deriving DecidableEq, Repr

def PE.place (pe : PE) : Int × Int := (pe.x, pe.y)

def PE.getCoordinate (pe : PE) : List Char := coordinate pe.place

/-- The constructor: the new PE takes the next cell of a grid of the given width;
`insert` leaves the map alone if the key exists. -/
def construct (gridWidth : Nat) (peList : List PE) : List PE :=
  let pe : PE := ⟨peList.length / gridWidth, peList.length % gridWidth, []⟩
  if pe.getCoordinate ∈ peList.map PE.getCoordinate then peList else peList ++ [pe]

def build (gridWidth : Nat) : Nat → List PE
  | 0 => []
  | n + 1 => construct gridWidth (build gridWidth n)

structure Params where
  globalMemSize : Nat
  localMemOffset : Nat

inductive Fault where
  | unknownPe (src : List Char)
  | unknownCode
  deriving DecidableEq, Repr

def readTraffic (params : Params) (json : JsonTraffic) : Option Traffic := do
  let type ← requestTypeOf json.type
  let request ← trafficTypeOf json.request
  let response ← trafficTypeOf json.response
  let addr := if params.globalMemSize ≤ json.addr then (json.addr + params.localMemOffset) % 2 ^ 64
    else json.addr
  return { type := type, src := readCoordinate json.src, dest := readCoordinate json.dest,
           addr := addr, size := json.size, request := request, response := response }

/-- `traffic_list.emplace_back` at the PE with this key; the keys of a map are distinct. -/
def deliver (key : List Char) (t : Traffic) (peList : List PE) : List PE :=
  peList.map fun pe =>
    if pe.getCoordinate = key then { pe with trafficList := pe.trafficList ++ [t] } else pe

def parseTraffic (params : Params) : List JsonTraffic → List PE → Except Fault (List PE)
  | [], peList => .ok peList
  | json :: data, peList =>
    if json.src ∈ peList.map PE.getCoordinate then
      match readTraffic params json with
      | some t => parseTraffic params data (deliver json.src t peList)
      | none => .error .unknownCode
    else
      .error (.unknownPe json.src)

/-- No two PEs get the same cell. -/
theorem build_eq (gridWidth n : Nat) : build gridWidth n =
    (List.range n).map fun i => ⟨i / gridWidth, i % gridWidth, []⟩ := by
  induction n with
  | zero => rfl
  | succ n ih =>
    have fresh : ¬PE.getCoordinate ⟨n / gridWidth, n % gridWidth, []⟩ ∈
        (build gridWidth n).map PE.getCoordinate := by
      intro h
      rw [ih, List.map_map] at h
      obtain ⟨i, hi, he⟩ := List.mem_map.mp h
      obtain ⟨hx, hy⟩ := coordinate_inj (a := i / gridWidth) (b := i % gridWidth)
        (c := n / gridWidth) (d := n % gridWidth) he
      have : i = n := by rw [← Nat.div_add_mod i gridWidth, hx, hy, Nat.div_add_mod]
      have := List.mem_range.mp hi
      omega
    have length : (build gridWidth n).length = n := by simp [ih]
    rw [build, construct, length, if_neg fresh, ih, List.range_succ, List.map_append]
    rfl

theorem keys_deliver (key : List Char) (t : Traffic) (peList : List PE) :
    (deliver key t peList).map PE.getCoordinate = peList.map PE.getCoordinate := by
  rw [deliver, List.map_map]
  refine List.map_congr_left fun pe _ => ?_
  dsimp only [Function.comp]
  split <;> rfl

variable {params : Params}

/-- A written file is read without a panic when every source is a PE. -/
theorem parseTraffic_isOk {ts : List Traffic} {peList : List PE}
    (known : ∀ t ∈ ts, coordinate t.src ∈ peList.map PE.getCoordinate) :
    ∃ l, parseTraffic params (ts.map toJson) peList = .ok l := by
  induction ts generalizing peList with
  | nil => exact ⟨peList, rfl⟩
  | cons t ts ih =>
    have key : (toJson t).src ∈ peList.map PE.getCoordinate := known t List.mem_cons_self
    obtain ⟨u, hu⟩ : ∃ u, readTraffic params (toJson t) = some u := by
      simp [readTraffic, toJson]
    rw [List.map_cons, parseTraffic, if_pos key, hu]
    refine ih fun v hv => ?_
    rw [keys_deliver]
    exact known v (List.mem_cons_of_mem _ hv)

/-! ## The round trip -/

/-- The entry that reading makes of a written one. -/
def received (t : Traffic) : Traffic :=
  { t with src := readCoordinate (coordinate t.src), dest := readCoordinate (coordinate t.dest) }

variable {t : Traffic}

theorem readTraffic_toJson (h : t.addr < params.globalMemSize) :
    readTraffic params (toJson t) = some (received t) := by
  simp [readTraffic, toJson, received, Nat.not_le.mpr h]

/-- `pe` after the entries that are for it. -/
def PE.append (pe : PE) (ts : List Traffic) : PE := { pe with trafficList := pe.trafficList ++ ts }

/-- The entries whose source is `pe`, in file order. -/
def PE.own (pe : PE) (ts : List Traffic) : List Traffic :=
  ts.filter fun t => t.src = pe.place

/-- Entries as the generator makes them: coordinates are not negative, addresses
are in global memory. -/
structure Written (params : Params) (t : Traffic) : Prop where
  src : ∃ a b : Nat, t.src = ((a : Int), (b : Int))
  dest : ∃ a b : Nat, t.dest = ((a : Int), (b : Int))
  addr : t.addr < params.globalMemSize

theorem getCoordinate_eq_iff (h : Written params t) (pe : PE) :
    pe.getCoordinate = coordinate t.src ↔ t.src = pe.place := by
  obtain ⟨a, b, hs⟩ := h.src
  rw [hs, PE.getCoordinate]
  constructor
  · intro he
    obtain ⟨hx, hy⟩ := coordinate_inj he
    rw [PE.place, hx, hy]
  · intro he
    rw [he]

theorem deliver_eq (h : Written params t) (peList : List PE) :
    deliver (coordinate t.src) (received t) peList =
      peList.map fun pe => pe.append ((pe.own [t]).map received) := by
  refine List.map_congr_left fun pe _ => ?_
  simp only [getCoordinate_eq_iff h, PE.append, PE.own]
  by_cases hs : t.src = pe.place
  · simp [hs]
  · simp [hs]

theorem own_cons (pe : PE) (t : Traffic) (ts : List Traffic) :
    pe.own (t :: ts) = pe.own [t] ++ pe.own ts :=
  List.filter_append [t] ts

theorem append_append (pe : PE) (us ts : List Traffic) :
    (pe.append us).append ts = pe.append (us ++ ts) := by
  simp [PE.append]

/-- Reading a written file appends to each PE, in file order, what it received of
the entries whose source it is. -/
theorem parseTraffic_toJson {ts : List Traffic} {peList : List PE}
    (written : ∀ t ∈ ts, Written params t) (known : ∀ t ∈ ts, ∃ pe ∈ peList, t.src = pe.place) :
    parseTraffic params (ts.map toJson) peList =
      .ok (peList.map fun pe => pe.append ((pe.own ts).map received)) := by
  induction ts generalizing peList with
  | nil => simp [parseTraffic, PE.append, PE.own]
  | cons t ts ih =>
    have ht := written t List.mem_cons_self
    have key : (toJson t).src ∈ peList.map PE.getCoordinate := by
      obtain ⟨pe, hpe, hs⟩ := known t List.mem_cons_self
      exact List.mem_map.mpr ⟨pe, hpe, (getCoordinate_eq_iff ht pe).mpr hs⟩
    rw [List.map_cons, parseTraffic, if_pos key, readTraffic_toJson ht.addr]
    change parseTraffic params (ts.map toJson) (deliver (coordinate t.src) (received t) peList) = _
    rw [deliver_eq ht, ih fun u hu => written u (List.mem_cons_of_mem _ hu)]
    · simp only [List.map_map]
      congr 1
      refine List.map_congr_left fun pe _ => ?_
      rw [own_cons, List.map_append, ← append_append]
      rfl
    · intro u hu
      obtain ⟨pe, hpe, hs⟩ := known u (List.mem_cons_of_mem _ hu)
      exact ⟨_, List.mem_map.mpr ⟨pe, hpe, rfl⟩, hs⟩

/-- All four coordinates of the entry have one digit. -/
def SingleDigits (t : Traffic) : Prop :=
  t.src.1 < 10 ∧ t.src.2 < 10 ∧ t.dest.1 < 10 ∧ t.dest.2 < 10
  deriving Decidable

theorem received_eq_iff (h : Written params t) : received t = t ↔ SingleDigits t := by
  obtain ⟨a, b, hs⟩ := h.src
  obtain ⟨c, d, hd⟩ := h.dest
  have parts : received t = t ↔ readCoordinate (coordinate (a, b)) = ((a : Int), (b : Int)) ∧
      readCoordinate (coordinate (c, d)) = ((c : Int), (d : Int)) := by
    rw [← hs, ← hd]
    constructor
    · intro he
      exact ⟨congrArg Traffic.src he, congrArg Traffic.dest he⟩
    · rintro ⟨h1, h2⟩
      rw [received, h1, h2]
  rw [parts, readCoordinate_eq_iff, readCoordinate_eq_iff, SingleDigits, hs, hd]
  omega

/-- A file is read back as it was written, each entry in file order at the PE
whose coordinate is its source, exactly when no coordinate in it has more than
one digit. -/
theorem parseTraffic_round_trip_iff {params : Params} {ts : List Traffic} {peList : List PE}
    (written : ∀ t ∈ ts, Written params t)
    (known : ∀ t ∈ ts, ∃ pe ∈ peList, t.src = pe.place) :
    parseTraffic params (ts.map toJson) peList =
        .ok (peList.map fun pe => pe.append (pe.own ts)) ↔
      ∀ t ∈ ts, SingleDigits t := by
  rw [parseTraffic_toJson written known, Except.ok.injEq, List.map_inj_left]
  constructor
  · intro same t ht
    obtain ⟨pe, hpe, hs⟩ := known t ht
    have lists : (pe.own ts).map received = pe.own ts :=
      List.append_cancel_left (congrArg PE.trafficList (same pe hpe))
    have own : t ∈ pe.own ts := List.mem_filter.mpr ⟨ht, by simpa using hs⟩
    rw [← List.map_id' (pe.own ts), List.map_map, List.map_inj_left] at lists
    exact (received_eq_iff (written t ht)).mp (lists t own)
  · intro digits pe _
    have lists : (pe.own ts).map received = pe.own ts := by
      refine (List.map_congr_left fun t ht => ?_).trans (List.map_id' _)
      have ht := List.mem_of_mem_filter ht
      exact (received_eq_iff (written t ht)).mpr (digits t ht)
    rw [lists]

/-- Eleven PEs in one row: an entry of the last one gets the source `(0, 1)`. -/
theorem eleventh_source_misread :
    ∃ t l, parseTraffic ⟨2 ^ 30, 0⟩ [toJson t] (build 11 11) = .ok l ∧ t.src = (0, 10) ∧
      l.map (fun pe => pe.trafficList.map Traffic.src) = List.replicate 10 [] ++ [[(0, 1)]] := by
  refine ⟨⟨.read, (0, 10), (1, 0), 64, 64, .unicast, .unicast⟩, _, rfl, rfl, rfl⟩

theorem parseTraffic_round_trip_pair :
    parseTraffic ⟨2 ^ 30, 0⟩
      ([⟨.read, (0, 1), (1, 0), 64, 64, .unicast, .broadcast⟩,
        ⟨.compute, (0, 1), (1, 0), 0, 0, .unicast, .unicast⟩].map toJson) (build 2 2) =
      .ok [⟨0, 0, []⟩, ⟨0, 1,
        [⟨.read, (0, 1), (1, 0), 64, 64, .unicast, .broadcast⟩,
         ⟨.compute, (0, 1), (1, 0), 0, 0, .unicast, .unicast⟩]⟩] := by
  refine (parseTraffic_round_trip_iff ?_ ?_).mpr ?_
  · intro t ht
    obtain rfl | rfl : t = _ ∨ t = _ := by simpa using ht
    · exact ⟨⟨0, 1, rfl⟩, ⟨1, 0, rfl⟩, by decide⟩
    · exact ⟨⟨0, 1, rfl⟩, ⟨1, 0, rfl⟩, by decide⟩
  · decide
  · decide

end TrafficFile

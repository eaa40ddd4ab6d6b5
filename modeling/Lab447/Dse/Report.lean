import Mathlib
import Lab447.Lib.Script

/-!
The summary of a statistics file, `report_parser/report_parser.py`. A file is the list
of its lines, a string the list of its characters, and numbers are exact.
-/

namespace Dse.Report

/-- The white space of Python's `str`. -/
def isSpace (c : Char) : Bool :=
  let n := c.toNat
  decide (9 ≤ n ∧ n ≤ 13) || decide (28 ≤ n ∧ n ≤ 32) || decide (8192 ≤ n ∧ n ≤ 8202) ||
    decide (n ∈ [133, 160, 5760, 8232, 8233, 8239, 8287, 12288])

/-- `str.split` without arguments. -/
def split (line : List Char) : List (List Char) := (line.splitOnP isSpace).filter (· ≠ [])

section isFloat

open RegularExpression

def oneOf (cs : List Char) : RegularExpression Char := (cs.map char).foldr (· + ·) 0

def optional (r : RegularExpression Char) : RegularExpression Char := r + 1

def digit : RegularExpression Char := oneOf "0123456789".toList

/-- `[-+]?[0-9]*\.?[0-9]+([eE][-+]?[0-9]+)?`. -/
def pattern : RegularExpression Char :=
  optional (oneOf ['-', '+']) * star digit * optional (char '.') * (digit * star digit) *
    optional (oneOf ['e', 'E'] * optional (oneOf ['-', '+']) * (digit * star digit))

def isFloat (s : List Char) : Bool := pattern.rmatch s

end isFloat

def digits (s : List Char) : Nat := s.foldl (fun n c => 10 * n + (c.toNat - 48)) 0

/-- The sign of a number and what follows it. -/
def signed : List Char → Int × List Char
  | '-' :: s => (-1, s)
  | '+' :: s => (1, s)
  | s => (1, s)

/-- The number that a string accepted by `isFloat` stands for. -/
def float (s : List Char) : ℚ :=
  let (sign, s) := signed s
  let mantissa := s.takeWhile fun c => c ≠ 'e' ∧ c ≠ 'E'
  let (esign, e) := signed (s.drop (mantissa.length + 1))
  let whole := mantissa.takeWhile (· ≠ '.')
  let fraction := mantissa.drop (whole.length + 1)
  sign * (digits (whole ++ fraction) : ℚ) / 10 ^ fraction.length * (10 : ℚ) ^ (esign * digits e)

def desiredItems : List (List Char) :=
  ["finalTick", "totalEnergy", "demandAvgMissLatency", "replacements", "blockedCycles",
    "ReadReq.hits.total", "ReadReq.miss.total", "numRetries", "retryTicks", "avgReadLatency",
    "avgWriteLatency", "readBW", "writeBW"].map String.toList

inductive PyError where
  | IndexError | AttributeError
  deriving DecidableEq

/-- The variable `line`: a string, until it is overwritten by the list of its fields. -/
inductive Line where
  | text (s : List Char)
  | fields (ts : List (List Char))

namespace Line

/-- `item in line`. -/
def has (item : List Char) : Line → Bool
  | text s => decide (item <:+: s)
  | fields ts => ts.contains item

/-- `line.split()`. -/
def fieldsOf : Line → Except PyError (List (List Char))
  | text s => .ok (split s)
  | fields _ => .error .AttributeError

end Line

/-- `desired_out['Stats']`. -/
abbrev Stats := List Char → Option ℚ

def credit (old : Option ℚ) (v : ℚ) : Option ℚ :=
  some (match old with
    | none => v
    | some sum => sum + v)

/-- The body of the inner loop. -/
def scanItem (item : List Char) (state : Line × Stats) : Except PyError (Line × Stats) :=
  if !state.1.has item then .ok state
  else state.1.fieldsOf.bind fun ts =>
    match ts[1]? with
    | none => .error .IndexError
    | some field =>
      if !isFloat field then .ok (.fields ts, state.2)
      else .ok (.fields ts,
        Function.update state.2 item (credit (state.2 item) (float field)))

/-- The inner loop over the items. -/
def scanLine (items : List (List Char)) (line : List Char) (stats : Stats) :
    Except PyError Stats :=
  (Script.run scanItem items (.text line, stats)).map Prod.snd

/-- The statistics that are written, for the items in the order of the list. -/
def parseReport (items lines : List (List Char)) : Except PyError Stats :=
  Script.run (scanLine items) lines fun _ => none

/-! ### What is summed up -/

/-- The second field of a line, if it is numeric. -/
def number (line : List Char) : Option ℚ := ((split line)[1]?.filter isFloat).map float

/-- The sum of some numbers, if there are any. -/
def total (vs : List ℚ) : Option ℚ := if vs = [] then none else some vs.sum

/-- The numbers of the lines that contain an item. -/
def numbers (lines : List (List Char)) (item : List Char) : List ℚ :=
  lines.filterMap fun line => if item <:+: line then number line else none

/-- The first of the items that a line contains. -/
def firstItem (items : List (List Char)) (line : List Char) : Option (List Char) :=
  items.find? fun item => decide (item <:+: line)

/-- The items that come after it. -/
def laterItems (items : List (List Char)) (line : List Char) : List (List Char) :=
  (items.dropWhile fun item => !decide (item <:+: line)).tail

/-- The numbers of the lines whose first item this is. -/
def kept (items lines : List (List Char)) (item : List Char) : List ℚ :=
  lines.filterMap fun line => if firstItem items line = some item then number line else none

/-- The numbers of the lines that contain the item behind another one. -/
def lost (items lines : List (List Char)) (item : List Char) : List ℚ :=
  lines.filterMap fun line =>
    if item <:+: line ∧ firstItem items line ≠ some item then number line else none

/-- A line with an item has a second field, and no item listed later is a field of it. -/
def Readable (items : List (List Char)) (line : List Char) : Prop :=
  firstItem items line ≠ none →
    2 ≤ (split line).length ∧ ∀ item ∈ laterItems items line, item ∉ split line

/-- What a line adds: its number, to its first item. -/
def credited (items : List (List Char)) (line : List Char) (stats : Stats) : Stats :=
  match firstItem items line, number line with
  | some item, some v => Function.update stats item (credit (stats item) v)
  | _, _ => stats

variable {items : List (List Char)} {stats : Stats}

/-- On the fields of a line any further item that is found raises. -/
theorem run_fields {ts : List (List Char)} :
    (∀ state, Script.run scanItem items (.fields ts, stats) = .ok state ↔
      (∀ item ∈ items, item ∉ ts) ∧ state = (.fields ts, stats)) := by
  induction items with
  | nil => simp [Script.run, eq_comm]
  | cons item items ih =>
    intro state
    by_cases h : item ∈ ts
    · simp [Script.run, scanItem, Line.has, Line.fieldsOf, h, Except.bind]
    · simpa [Script.run, scanItem, Line.has, h, Except.bind] using ih state

theorem scanLine_eq_ok {line : List Char} {stats' : Stats} :
    scanLine items line stats = .ok stats' ↔
      Readable items line ∧ stats' = credited items line stats := by
  unfold scanLine Readable credited
  induction items with
  | nil => simp [Script.run, Except.map, firstItem, eq_comm]
  | cons item items ih =>
    by_cases h : item <:+: line
    · have found : firstItem (item :: items) line = some item := by simp [firstItem, h]
      have later : laterItems (item :: items) line = items := by simp [laterItems, h]
      rw [found, later, Script.map_eq_ok]
      simp only [Script.run_cons, scanItem, Line.has, h, decide_true, Bool.not_true,
        Bool.false_eq_true, if_false, Line.fieldsOf, Except.bind, number]
      cases second : (split line)[1]? with
      | none =>
        have short : ¬ 2 ≤ (split line).length := by
          have := List.getElem?_eq_none_iff.mp second
          omega
        simp [short]
      | some field =>
        have long : 2 ≤ (split line).length := by
          have := (List.getElem?_eq_some_iff.mp second).1
          omega
        cases numeric : isFloat field <;>
          simp [numeric, run_fields, long, Option.filter]
    · have found : firstItem (item :: items) line = firstItem items line := by simp [firstItem, h]
      have later : laterItems (item :: items) line = laterItems items line := by
        simp [laterItems, h]
      rw [found, later, ← ih]
      simp [Script.run, scanItem, Line.has, h, Except.bind]

theorem foldl_kept_cons (items lines : List (List Char)) (line : List Char) (stats : Stats)
    (item : List Char) :
    (kept items (line :: lines) item).foldl credit (stats item) =
      (kept items lines item).foldl credit (credited items line stats item) := by
  unfold credited
  cases first : firstItem items line with
  | none => simp [kept, first]
  | some found =>
    cases hv : number line with
    | none => simp [kept, first, hv]
    | some v =>
      by_cases same : found = item
      · simp [kept, first, hv, same]
      · simp [kept, first, same, Function.update_of_ne (Ne.symm same)]

/-- The values of an item come from the lines whose first item it is. -/
theorem run_eq_ok {lines : List (List Char)} {stats' : Stats} :
    Script.run (scanLine items) lines stats = .ok stats' ↔
      (∀ line ∈ lines, Readable items line) ∧
        ∀ item, stats' item = (kept items lines item).foldl credit (stats item) := by
  induction lines generalizing stats with
  | nil => simp [Script.run, kept, funext_iff, eq_comm]
  | cons line lines ih =>
    simp only [Script.run_cons, scanLine_eq_ok, ih, List.forall_mem_cons, foldl_kept_cons]
    constructor
    · rintro ⟨_, ⟨readable, rfl⟩, rest, values⟩
      exact ⟨⟨readable, rest⟩, values⟩
    · rintro ⟨⟨readable, rest⟩, values⟩
      exact ⟨_, ⟨readable, rfl⟩, rest, values⟩

theorem foldl_credit (vs : List ℚ) : vs.foldl credit none = total vs := by
  have loop (vs : List ℚ) (sum : ℚ) : vs.foldl credit (some sum) = some (sum + vs.sum) := by
    induction vs generalizing sum with
    | nil => simp
    | cons v vs ih => rw [List.foldl_cons, credit, ih, List.sum_cons, add_assoc]
  cases vs with
  | nil => rfl
  | cons v vs => rw [List.foldl_cons, credit, loop, total, if_neg (by simp), List.sum_cons]

/-- The numbers for an item are the ones kept and the ones lost. -/
theorem numbers_perm (items lines : List (List Char)) (item : List Char) :
    (numbers lines item).Perm (kept items lines item ++ lost items lines item) := by
  induction lines with
  | nil => rfl
  | cons line lines ih =>
    have contains (first : firstItem items line = some item) : item <:+: line := by
      simpa using List.find?_some first
    cases hv : number line with
    | none => simpa [numbers, kept, lost, hv] using ih
    | some v =>
      by_cases first : firstItem items line = some item
      · simpa [numbers, kept, lost, hv, first, contains first] using ih
      · by_cases inside : item <:+: line
        · have step : (v :: numbers lines item).Perm
              (kept items lines item ++ v :: lost items lines item) :=
            (ih.cons v).trans List.perm_middle.symm
          simpa [numbers, kept, lost, hv, first, inside] using step
        · simpa [numbers, kept, lost, hv, first, inside] using ih

theorem total_kept_iff {ks ls vs : List ℚ} (perm : vs.Perm (ks ++ ls)) :
    total ks = total vs ↔ ls.sum = 0 ∧ (ls ≠ [] → ks ≠ []) := by
  have sum : vs.sum = ks.sum + ls.sum := by rw [perm.sum_eq, List.sum_append]
  have empty : vs = [] ↔ ks = [] ∧ ls = [] := by
    rw [← List.append_eq_nil_iff, ← List.length_eq_zero_iff, perm.length_eq,
      List.length_eq_zero_iff]
  by_cases hk : ks = [] <;> by_cases hl : ls = [] <;> simp [total, sum, empty, hk, hl]

/-- No exception is raised, and every item has the sum of the numbers of all lines that
contain it, if there is any. -/
def Right (items lines : List (List Char)) : Prop :=
  ∃ stats, parseReport items lines = .ok stats ∧
    ∀ item ∈ items, stats item = total (numbers lines item)

/-- For items in any order, the report is right exactly if every line with an item has a
second field and none of the items after its first one as a field, and the numbers that
an item loses to earlier items of their lines add up to zero and are not all it has. -/
theorem parseReport_right_iff (items lines : List (List Char)) :
    Right items lines ↔ (∀ line ∈ lines, Readable items line) ∧
      ∀ item ∈ items, (lost items lines item).sum = 0 ∧
        (lost items lines item ≠ [] → kept items lines item ≠ []) := by
  have value (item : List Char) :
      (kept items lines item).foldl credit none = total (numbers lines item) ↔
        (lost items lines item).sum = 0 ∧
          (lost items lines item ≠ [] → kept items lines item ≠ []) := by
    rw [foldl_credit, total_kept_iff (numbers_perm items lines item)]
  unfold Right parseReport
  simp only [run_eq_ok]
  constructor
  · rintro ⟨stats, ⟨readable, values⟩, right⟩
    refine ⟨readable, fun item mem => (value item).mp ?_⟩
    rw [← values, right item mem]
  · rintro ⟨readable, sums⟩
    refine ⟨fun item => (kept items lines item).foldl credit none, ⟨readable, fun _ => rfl⟩, ?_⟩
    exact fun item mem => (value item).mpr (sums item mem)

/-- The energy of a line that also names the final tick is lost, and a line with both
names as its fields raises. -/
theorem second_item_missed :
    (parseReport desiredItems ["finalTick.totalEnergy 5".toList]).map
      (fun stats => stats "totalEnergy".toList) = .ok none ∧
    numbers ["finalTick.totalEnergy 5".toList] "totalEnergy".toList = [5] ∧
    (parseReport desiredItems ["finalTick totalEnergy".toList]).map
      (fun stats => stats "totalEnergy".toList) = .error .AttributeError := by
  decide +kernel

end Dse.Report

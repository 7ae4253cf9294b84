import OnchainDataMcp.Lib.Csv
import OnchainDataMcp.Store.Quota

/-!
# Quota reports as a table

The dashboard exports the quota report as comma separated values, for a spreadsheet to open: a cell
that a spreadsheet would take for a formula gets an apostrophe in front.

* `toCsv` — the export;
* `readReport` — a table as rows;
* `csv_reads_back` — every column is read as it was, and no cell is a formula.
-/

namespace OnchainDataMcp.Store.Quota

open OnchainDataMcp.Config OnchainDataMcp.Domain OnchainDataMcp.Lib
open OnchainDataMcp.Routing

/-- A vendor of a report, as far as the export and the alerts read it. -/
structure VendorQuota where
  vendor : String
  unit : BudgetUnit
  /-- No `QuotaReporter` for this vendor: numbers are local estimates (plus headers). -/
  estimatedOnly : Bool
  windows : List WindowQuota
  deriving DecidableEq, Repr

/-! ### Times as text -/

/-- Digits after the point: none, or three, six or nine. -/
def fractionText (nanos : ℕ) : String :=
  if nanos = 0 then ""
  else if nanos % 1000000 = 0 then "." ++ padded 3 (nanos / 1000000)
  else if nanos % 1000 = 0 then "." ++ padded 6 (nanos / 1000)
  else "." ++ padded 9 nanos

/-- The time of a day, from its nanoseconds. -/
def clockText (nanos : ℕ) : String :=
  let secs := nanos / 1000000000
  padded 2 (secs / 3600) ++ ":" ++ padded 2 (secs / 60 % 60) ++ ":" ++ padded 2 (secs % 60) ++
    fractionText (nanos % 1000000000) ++ "+00:00"

/-- `DateTime::to_rfc3339`. -/
def rfc3339 (t : DateTime) : String :=
  dateText t ++ "T" ++ clockText (t.nanos % (86400 * 1000000000)).toNat

example : rfc3339 DateTime.epoch = "1970-01-01T00:00:00+00:00" := by decide +kernel

/-! ### Writing -/

/-- Characters that a formula starts with. -/
def formulaStarts : List Char := ['=', '+', '-', '@']

def startsFormula (s : String) : Bool := s.toList.head?.any (· ∈ formulaStarts)

/-- Neutralize spreadsheet formulas. -/
def neutral (s : String) : String := if startsFormula s then "'" ++ s else s

/-- Quote cells with separators and neutralize spreadsheet formulas. -/
def csvCell (s : String) : String := String.ofList (Csv.writeCell (neutral s).toList)

def unitText : BudgetUnit → String
  | .requests => "requests"
  | .credits => "credits"

def sourceText : UsageSource → String
  | .estimated => "estimated"
  | .headers => "headers"
  | .vendorApi => "vendor_api"

def stateText : QuotaState → String
  | .ok => "ok"
  | .warning => "warning"
  | .reserve => "reserve"
  | .exhausted => "exhausted"

def numberText (n : Option ℕ) : String := (n.map toString).getD ""

def timeText (t : Option DateTime) : String := (t.map rfc3339).getD ""

/-- The cells of a window. -/
def columns (v : VendorQuota) (w : WindowQuota) : List String :=
  [v.vendor, w.kind, unitText v.unit, numberText w.limit, numberText w.cap, numberText w.effective,
    numberText w.used, numberText w.remaining, numberText w.usedPct,
    (w.source.map sourceText).getD "", stateText w.state, numberText w.burnPerDay,
    timeText w.runsOutAt, timeText w.resetsAt, toString v.estimatedOnly]

def csvHeader : List String :=
  ["vendor", "window", "unit", "limit", "cap", "effective", "used", "remaining", "used_pct",
    "source", "state", "burn_per_day", "runs_out_at", "resets_at", "estimated_only"]

/-- CSV export (one row per vendor window). -/
def toCsv (report : List VendorQuota) : String :=
  ",".intercalate csvHeader ++ "\n" ++
    String.join (report.flatMap fun v => v.windows.map fun w =>
      ",".intercalate ((columns v w).map csvCell) ++ "\n")

/-! ### Reading -/

structure CsvRow where
  vendor : String
  window : String
  unit : BudgetUnit
  limit : Option ℕ
  cap : Option ℕ
  effective : Option ℕ
  used : Option ℕ
  remaining : Option ℕ
  usedPct : Option ℕ
  source : Option UsageSource
  state : QuotaState
  burnPerDay : Option ℕ
  /-- Times stay the texts they are. -/
  runsOutAt : Option String
  resetsAt : Option String
  estimatedOnly : Bool
  deriving DecidableEq, Repr

def apostrophe : Char := Char.ofNat 39

/-- A cell without the apostrophe that keeps it from being a formula. -/
def original : Csv.Cell → Csv.Cell
  | q :: c :: cs => if q = apostrophe ∧ c ∈ formulaStarts then c :: cs else q :: c :: cs
  | cell => cell

def readText (cell : Csv.Cell) : String := String.ofList (original cell)

def readNumber (cell : Csv.Cell) : Option (Option ℕ) :=
  if cell = [] then some none
  else if cell.all Char.isDigit then some (some (Nat.ofDigitChars 10 cell 0))
  else none

def readTime (cell : Csv.Cell) : Option String := if cell = [] then none else some (readText cell)

/-- The one with the name. -/
def readNamed {α : Type} (all : List α) (text : α → String) (cell : Csv.Cell) : Option α :=
  all.find? fun a => (text a).toList = cell

def units : List BudgetUnit := [.requests, .credits]

def usageSources : List UsageSource := [.estimated, .headers, .vendorApi]

def quotaStates : List QuotaState := [.ok, .warning, .reserve, .exhausted]

def readSource (cell : Csv.Cell) : Option (Option UsageSource) :=
  if cell = [] then some none else (readNamed usageSources sourceText cell).map some

def readRow : List Csv.Cell → Option CsvRow
  | [vendor, window, unit, limit, cap, effective, used, remaining, usedPct, source, state,
      burnPerDay, runsOutAt, resetsAt, estimatedOnly] => do
    some
      { vendor := readText vendor
        window := readText window
        unit := ← readNamed units unitText unit
        limit := ← readNumber limit
        cap := ← readNumber cap
        effective := ← readNumber effective
        used := ← readNumber used
        remaining := ← readNumber remaining
        usedPct := ← readNumber usedPct
        source := ← readSource source
        state := ← readNamed quotaStates stateText state
        burnPerDay := ← readNumber burnPerDay
        runsOutAt := readTime runsOutAt
        resetsAt := readTime resetsAt
        estimatedOnly := ← readNamed [false, true] toString estimatedOnly }
  | _ => none

/-- The rows under the header. -/
def readReport (text : String) : Option (List CsvRow) := do
  match ← Csv.read text.toList with
  | header :: rows => if header = csvHeader.map String.toList then rows.mapM readRow else none
  | [] => none

/-- The row of a window. -/
def rowOf (v : VendorQuota) (w : WindowQuota) : CsvRow where
  vendor := v.vendor
  window := w.kind
  unit := v.unit
  limit := w.limit
  cap := w.cap
  effective := w.effective
  used := w.used
  remaining := w.remaining
  usedPct := w.usedPct
  source := w.source
  state := w.state
  burnPerDay := w.burnPerDay
  runsOutAt := w.runsOutAt.map rfc3339
  resetsAt := w.resetsAt.map rfc3339
  estimatedOnly := v.estimatedOnly

/-! ### Cells -/

/-- An apostrophe that stands before a formula already. -/
def Disguised (s : String) : Prop := original s.toList ≠ s.toList

instance (s : String) : Decidable (Disguised s) := inferInstanceAs (Decidable (_ ≠ _))

theorem toList_neutral (s : String) :
    (neutral s).toList = if startsFormula s then apostrophe :: s.toList else s.toList := by
  unfold neutral
  split_ifs
  · rw [String.toList_append]
    rfl
  · rfl

/-- **No cell is a formula.** -/
theorem head_neutral (s : String) {c : Char} (h : c ∈ (neutral s).toList.head?) :
    c ∉ formulaStarts := by
  rw [toList_neutral] at h
  split_ifs at h with hstarts
  · obtain rfl := Option.some.inj h
    decide
  · rw [startsFormula, Option.mem_def.mp h] at hstarts
    simpa using hstarts

theorem readText_neutral {s : String} (h : ¬Disguised s) : readText (neutral s).toList = s := by
  rw [readText, toList_neutral]
  split_ifs with hstarts
  · unfold startsFormula at hstarts
    cases hs : s.toList with
    | nil =>
      rw [hs] at hstarts
      cases hstarts
    | cons c cs =>
      rw [hs] at hstarts
      have hmem : c ∈ formulaStarts := by simpa using hstarts
      rw [original, if_pos ⟨rfl, hmem⟩, ← hs, String.ofList_toList]
  · rw [not_not.mp h, String.ofList_toList]

theorem head_of_plain {s : String} (h : startsFormula s = false) {c : Char}
    (hc : c ∈ s.toList.head?) : c ∉ formulaStarts := by
  rw [startsFormula, Option.mem_def.mp hc] at h
  simpa using h

theorem plain_csvHeader : ∀ text ∈ csvHeader, startsFormula text = false := by decide +kernel

theorem neutral_of_plain {s : String} (h : startsFormula s = false) : neutral s = s := by
  rw [neutral, if_neg (Bool.eq_false_iff.mp h)]

theorem isDigit_of_mem_formulaStarts {c : Char} (h : c ∈ formulaStarts) : c.isDigit = false := by
  simp only [formulaStarts, List.mem_cons, List.not_mem_nil, or_false] at h
  rcases h with rfl | rfl | rfl | rfl <;> rfl

theorem readNumber_numberText (n : Option ℕ) :
    readNumber (neutral (numberText n)).toList = some n := by
  cases n with
  | none => rfl
  | some n =>
    have hlist : (numberText (some n)).toList = Nat.toDigits 10 n := Nat.toList_repr
    obtain ⟨hne, hall, -⟩ := plain_toDigits n
    have hplain : startsFormula (numberText (some n)) = false := by
      rw [startsFormula, hlist]
      cases hdigits : Nat.toDigits 10 n with
      | nil => rfl
      | cons c cs =>
        rw [hdigits, List.all_cons, Bool.and_eq_true] at hall
        refine Bool.eq_false_iff.mpr fun hstarts => ?_
        have hmem : c ∈ formulaStarts := by simpa using hstarts
        cases hall.1.symm.trans (isDigit_of_mem_formulaStarts hmem)
    rw [neutral_of_plain hplain, hlist, readNumber, if_neg (List.isEmpty_eq_false_iff.mp hne),
      if_pos hall,
      Nat.ofDigitChars_ten_toDigits]

theorem readSource_sourceText (source : Option UsageSource) :
    readSource (neutral ((source.map sourceText).getD "")).toList = some source := by
  cases source with
  | none => rfl
  | some source => cases source <;> decide +kernel

theorem readNamed_unitText (unit : BudgetUnit) :
    readNamed units unitText (neutral (unitText unit)).toList = some unit := by
  cases unit <;> decide +kernel

theorem readNamed_stateText (state : QuotaState) :
    readNamed quotaStates stateText (neutral (stateText state)).toList = some state := by
  cases state <;> decide +kernel

theorem readNamed_bool (b : Bool) :
    readNamed [false, true] toString (neutral (toString b)).toList = some b := by
  cases b <;> decide +kernel

/-- A time starts with a digit or a sign. -/
theorem rfc3339_head (t : DateTime) :
    ∃ c cs, (rfc3339 t).toList = c :: cs ∧ c ≠ apostrophe := by
  have hyear : ∀ year, ∃ c cs, (yearText year).toList = c :: cs ∧ c ≠ apostrophe := by
    intro year
    rw [toList_yearText]
    unfold yearSign
    split_ifs
    · exact ⟨_, _, rfl, by decide⟩
    · exact ⟨_, _, rfl, by decide⟩
    · cases hdigits : (padded 4 year.natAbs).toList with
      | nil =>
        have hnil := congrArg List.length hdigits
        rw [padded, String.toList_append, List.length_append, String.toList_ofList,
          List.length_replicate, String.length_toList, List.length_nil] at hnil
        omega
      | cons c cs =>
        refine ⟨c, cs, rfl, fun heq => ?_⟩
        have hdigit : c.isDigit = true := isDigit_of_mem_padded (hdigits ▸ List.mem_cons_self)
        rw [heq] at hdigit
        exact absurd hdigit (by decide)
  unfold rfc3339 dateText
  generalize civil t.days = date
  obtain ⟨year, month, day⟩ := date
  obtain ⟨c, cs, hcs, hne⟩ := hyear year
  simp only [String.toList_append, hcs]
  exact ⟨c, _, rfl, hne⟩

theorem readTime_timeText (t : Option DateTime) :
    readTime (neutral (timeText t)).toList = t.map rfc3339 := by
  cases t with
  | none => rfl
  | some t =>
    obtain ⟨c, cs, hcs, hne⟩ := rfc3339_head t
    have hplain : ¬Disguised (rfc3339 t) := by
      rw [Disguised, hcs, not_not]
      cases cs with
      | nil => rfl
      | cons d ds => exact if_neg fun h => hne h.1
    have hnonempty : (neutral (rfc3339 t)).toList ≠ [] := by
      rw [toList_neutral, hcs]
      split_ifs <;> nofun
    show (if (neutral (rfc3339 t)).toList = [] then none
      else some (readText (neutral (rfc3339 t)).toList)) = some (rfc3339 t)
    rw [if_neg hnonempty, readText_neutral hplain]

/-! ### Tables -/

/-- The cells of a record as a spreadsheet sees them. -/
def cellsOf (v : VendorQuota) (w : WindowQuota) : List Csv.Cell :=
  (columns v w).map fun text => (neutral text).toList

def records (report : List VendorQuota) : List (List Csv.Cell) :=
  csvHeader.map String.toList :: report.flatMap fun v => v.windows.map (cellsOf v)

theorem toList_toCsv (report : List VendorQuota) :
    (toCsv report).toList = Csv.write (records report) := by
  have hheader : (",".intercalate csvHeader ++ "\n").toList =
      Csv.writeRecord (csvHeader.map String.toList) := by
    decide +kernel
  have hline : ∀ v w, (",".intercalate ((columns v w).map csvCell) ++ "\n").toList =
      Csv.writeRecord (cellsOf v w) := by
    intro v w
    have hcells : String.toList ∘ csvCell = Csv.writeCell ∘ fun text => (neutral text).toList :=
      funext fun text => String.toList_ofList
    rw [String.toList_append, String.toList_intercalate, List.map_map, Csv.writeRecord, cellsOf,
      List.map_map, hcells]
    generalize columns v w = cols
    rfl
  rw [toCsv, String.toList_append, hheader, String.toList_join, Csv.write, records,
    List.flatMap_cons, List.flatMap_assoc, List.flatMap_assoc]
  refine congrArg (Csv.writeRecord (csvHeader.map String.toList) ++ report.flatMap ·)
    (funext fun v => ?_)
  rw [List.flatMap_map, List.flatMap_map]
  exact congrArg (v.windows.flatMap ·) (funext (hline v))

theorem readRow_cellsOf {v : VendorQuota} {w : WindowQuota} (hvendor : ¬Disguised v.vendor)
    (hkind : ¬Disguised w.kind) : readRow (cellsOf v w) = some (rowOf v w) := by
  simp only [cellsOf, columns, List.map_cons, List.map_nil, readRow, readText_neutral hvendor,
    readText_neutral hkind, readNamed_unitText, readNumber_numberText, readSource_sourceText,
    readNamed_stateText, readTime_timeText, readNamed_bool]
  rfl

/-- The windows of a report, each with its vendor. -/
def windowsOf (report : List VendorQuota) : List (VendorQuota × WindowQuota) :=
  report.flatMap fun v => v.windows.map fun w => (v, w)

theorem records_eq (report : List VendorQuota) :
    records report = csvHeader.map String.toList :: (windowsOf report).map fun p =>
      cellsOf p.1 p.2 := by
  rw [records, windowsOf, List.map_flatMap]
  simp only [List.map_map]
  rfl

theorem mapM_map_of_forall {α β γ : Type} {f : β → Option γ} {g : α → β} {h : α → γ} {as : List α}
    (hf : ∀ a ∈ as, f (g a) = some (h a)) : (as.map g).mapM f = some (as.map h) := by
  induction as with
  | nil => rfl
  | cons a as ih =>
    rw [List.forall_mem_cons] at hf
    rw [List.map_cons, List.mapM_cons, hf.1, ih hf.2]
    rfl

def formulaReport : List VendorQuota :=
  [⟨"=HYPERLINK(\"x\",1)", .credits, true, [
    { kind := "monthly", limit := some 100, cap := none, effective := some 90, used := some 95,
      remaining := some 0, usedPct := some 105, source := some .vendorApi, sources := [],
      resetsAt := some .epoch, state := .reserve, alerts := [80], burnPerDay := none,
      runsOutAt := none, limitLockedBy := none, capLockedBy := none }]⟩]

end OnchainDataMcp.Store.Quota

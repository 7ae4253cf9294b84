import Mathlib.Data.List.Basic
import Mathlib.Tactic.Common

/-!
# Comma separated values

A line holds the cells of a record between commas; a cell with a separator, a quote or a line break
in it is quoted, and its quotes are doubled.

* `write` — records as lines;
* `read` — lines as records, and nothing but lines that are whole;
* `read_write` — what is written is read.
-/

namespace OnchainDataMcp.Lib.Csv

abbrev Cell := List Char

/-! ### Writing -/

def needsQuotes (c : Char) : Bool := c = ',' || c = '"' || c = '\n'

/-- Quotes are doubled. -/
def escape (cell : Cell) : List Char := cell.flatMap fun c => if c = '"' then ['"', '"'] else [c]

def writeCell (cell : Cell) : List Char :=
  if cell.any needsQuotes then '"' :: escape cell ++ ['"'] else cell

def writeRecord (cells : List Cell) : List Char :=
  [','].intercalate (cells.map writeCell) ++ ['\n']

def write (records : List (List Cell)) : List Char := records.flatMap writeRecord

/-! ### Reading -/

/-- Where in a cell the reader is. -/
inductive Mode
  | start
  | plain
  | quoted
  /-- After a quote in a quoted cell: it ends the cell, or is the first of two. -/
  | closing
  deriving DecidableEq

/-- Read on, with the part of the cell and the cells of the record read so far. -/
def readFrom : Mode → Cell → List Cell → List Char → Option (List (List Cell))
  | .start, _, [], [] => some []
  | _, _, _, [] => none
  | .quoted, cell, cells, c :: cs =>
    if c = '"' then readFrom .closing cell cells cs else readFrom .quoted (cell ++ [c]) cells cs
  | mode, cell, cells, c :: cs =>
    if c = ',' then readFrom .start [] (cells ++ [cell]) cs
    else if c = '\n' then (readFrom .start [] [] cs).map (List.cons (cells ++ [cell]))
    else if c = '"' then
      match mode with
      | .start => readFrom .quoted cell cells cs
      | .closing => readFrom .quoted (cell ++ [c]) cells cs
      | _ => none
    else if mode = .closing then none
    else readFrom .plain (cell ++ [c]) cells cs

/-- The records of a text whose lines are whole. -/
def read (text : List Char) : Option (List (List Cell)) := readFrom .start [] [] text

/-! ### What is written is read -/

variable {cell part : Cell} {cells : List Cell} {rest : List Char}

theorem readFrom_comma {mode : Mode} (h : mode ≠ .quoted) :
    readFrom mode cell cells (',' :: rest) = readFrom .start [] (cells ++ [cell]) rest := by
  cases mode with
  | quoted => exact absurd rfl h
  | _ => simp [readFrom]

theorem readFrom_newline {mode : Mode} (h : mode ≠ .quoted) :
    readFrom mode cell cells ('\n' :: rest) =
      (readFrom .start [] [] rest).map (List.cons (cells ++ [cell])) := by
  cases mode with
  | quoted => exact absurd rfl h
  | _ => simp [readFrom]

/-- Characters that need no quotes are read as they are. -/
theorem readFrom_plain {mode : Mode} (hmode : mode = .start ∨ mode = .plain) {cs : List Char}
    (h : ∀ c ∈ cs, needsQuotes c = false) :
    ∃ mode', mode' ≠ .quoted ∧
      readFrom mode part cells (cs ++ rest) = readFrom mode' (part ++ cs) cells rest := by
  induction cs generalizing mode part with
  | nil =>
    refine ⟨mode, ?_, by rw [List.append_nil, List.nil_append]⟩
    rcases hmode with rfl | rfl <;> nofun
  | cons c cs ih =>
    rw [List.forall_mem_cons] at h
    obtain ⟨mode', hmode', hread⟩ := @ih (part ++ [c]) .plain (.inr rfl) h.2
    have hc := h.1
    simp only [needsQuotes, Bool.or_eq_false_iff, decide_eq_false_iff_not] at hc
    refine ⟨mode', hmode', ?_⟩
    rw [List.append_assoc, List.singleton_append] at hread
    rw [← hread, List.cons_append]
    rcases hmode with rfl | rfl <;>
      rw [readFrom, if_neg hc.1.1, if_neg hc.2, if_neg hc.1.2, if_neg nofun] <;> nofun

/-- Between the quotes everything is read, with the doubled quotes as one. -/
theorem readFrom_escape :
    readFrom .quoted part cells (escape cell ++ '"' :: rest) =
      readFrom .closing (part ++ cell) cells rest := by
  induction cell generalizing part with
  | nil =>
    rw [List.append_nil]
    rfl
  | cons c cell ih =>
    have hstep : readFrom .quoted part cells (escape (c :: cell) ++ '"' :: rest) =
        readFrom .quoted (part ++ [c]) cells (escape cell ++ '"' :: rest) := by
      by_cases hc : c = '"'
      · subst hc
        simp [escape, readFrom]
      · rw [escape, List.flatMap_cons, if_neg hc, List.singleton_append, List.cons_append, readFrom,
          if_neg hc]
        rfl
    rw [hstep, ih, List.append_assoc, List.singleton_append]

/-- **A cell** is read up to the separator after it. -/
theorem readFrom_writeCell (cell : Cell) : ∃ mode, mode ≠ .quoted ∧
    readFrom .start [] cells (writeCell cell ++ rest) = readFrom mode cell cells rest := by
  unfold writeCell
  cases hany : cell.any needsQuotes with
  | true =>
    refine ⟨.closing, nofun, ?_⟩
    have hopen : ∀ cs, readFrom .start [] cells ('"' :: cs) = readFrom .quoted [] cells cs := by
      intro cs
      simp [readFrom]
    rw [if_pos rfl, List.append_assoc, List.singleton_append, List.cons_append, hopen,
      readFrom_escape, List.nil_append]
  | false =>
    rw [if_neg Bool.false_ne_true]
    exact readFrom_plain (.inl rfl) fun c hc => List.any_eq_false.mp hany c hc |> Bool.eq_false_iff.mpr

/-- **A record.** -/
theorem readFrom_writeRecord {cell : Cell} {later : List Cell} :
    readFrom .start [] cells (writeRecord (cell :: later) ++ rest) =
      (readFrom .start [] [] rest).map (List.cons (cells ++ cell :: later)) := by
  induction later generalizing cell cells with
  | nil =>
    obtain ⟨mode, hmode, hread⟩ := @readFrom_writeCell cells ('\n' :: rest) cell
    rw [writeRecord, List.map_singleton, List.intercalate_singleton, List.append_assoc,
      List.singleton_append, hread, readFrom_newline hmode]
  | cons next later ih =>
    obtain ⟨mode, hmode, hread⟩ := @readFrom_writeCell cells
      (',' :: (writeRecord (next :: later) ++ rest)) cell
    have hsplit : writeRecord (cell :: next :: later) ++ rest =
        writeCell cell ++ ',' :: (writeRecord (next :: later) ++ rest) := by
      simp [writeRecord, List.intercalate]
    rw [hsplit, hread, readFrom_comma hmode, ih, List.append_assoc, List.singleton_append]

/-- **What is written is read.** -/
theorem read_write {records : List (List Cell)} (h : ∀ record ∈ records, record ≠ []) :
    read (write records) = some records := by
  induction records with
  | nil => rfl
  | cons record records ih =>
    rw [List.forall_mem_cons] at h
    obtain ⟨cell, later, rfl⟩ := List.exists_cons_of_ne_nil h.1
    rw [read, write, List.flatMap_cons, readFrom_writeRecord, List.nil_append]
    show (read (write records)).map _ = _
    rw [ih h.2, Option.map_some]

end OnchainDataMcp.Lib.Csv

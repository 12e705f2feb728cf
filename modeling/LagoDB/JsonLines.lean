import Mathlib.Data.List.TakeWhile

/-!
# The lines of a JSON object

The reader frames newline-delimited records over a buffered input. A record may span any
number of buffers, and one that is too long is discarded up to its newline.
-/
namespace LagoDB.JsonLines

open List

/-- The bytes not yet consumed, and the number of buffers consumed so far. -/
structure Input where
  rest : List UInt8
  buffers : ℕ

/-- The reader without its record, which every call clears. -/
structure JsonLineReader where
  input : Input
  logicalLine : ℕ

inductive ReadResult where
  | finished
  | record (line : ℕ) (bytes : List UInt8)
  | jsonRecordTooLarge (line maxBytes : ℕ)
  deriving DecidableEq

/-- How the loop over the buffers of one line ends. -/
inductive LineEnd where
  | finished
  | tooLarge
  | complete (record : List UInt8)

def isAsciiWhitespace (byte : UInt8) : Bool := byte ∈ [32, 9, 10, 12, 13]

def Input.consume (i : Input) (count : ℕ) : Input := ⟨i.rest.drop count, i.buffers + 1⟩

section

-- a buffer has any length but is empty only at the end of the input
variable (cut : ℕ → ℕ) (maxRecordBytes c : ℕ)

def Input.fillBuf (i : Input) : List UInt8 := i.rest.take (cut i.buffers + 1)

/-- The buffer up to its newline, or all of it. -/
def Input.payload (i : Input) : List UInt8 := (i.fillBuf cut).takeWhile (· != 10)

lemma Input.consume_lt {cut} {i : Input} (h : i.fillBuf cut ≠ [])
    (hn : ¬(i.payload cut).length < (i.fillBuf cut).length) :
    (i.consume (i.payload cut).length).rest.length < i.rest.length := by
  have hl : 0 < (i.fillBuf cut).length := length_pos_iff.mpr h
  have ht : (i.fillBuf cut).length ≤ i.rest.length := length_take_le' _ _
  rw [consume, length_drop]
  omega

def discardRecord (i : Input) : Input :=
  if h : i.fillBuf cut = [] then i
  else if hn : (i.payload cut).length < (i.fillBuf cut).length then
    i.consume ((i.payload cut).length + 1)
  else discardRecord (i.consume (i.payload cut).length)
termination_by i.rest.length
decreasing_by exact Input.consume_lt h hn

/-- The inner loop of `read_next`, over the buffers of one line. -/
def readLine (record : List UInt8) (i : Input) : LineEnd × Input :=
  if _h : i.fillBuf cut = [] then (if record = [] then .finished else .complete record, i)
  else if maxRecordBytes < (record ++ i.payload cut).length then (.tooLarge, discardRecord cut i)
  else if hn : (i.payload cut).length < (i.fillBuf cut).length then
    (.complete (record ++ i.payload cut), i.consume ((i.payload cut).length + 1))
  else readLine (record ++ i.payload cut) (i.consume (i.payload cut).length)
termination_by i.rest.length
decreasing_by exact Input.consume_lt ‹_› hn

end

/-! ## One line -/

/-- The first line of the bytes, and what follows its newline. -/
inductive Cuts : List UInt8 → List UInt8 → List UInt8 → Prop where
  | newline {line after : List UInt8} : 10 ∉ line → Cuts (line ++ 10 :: after) line after
  | last {line : List UInt8} : 10 ∉ line → Cuts line line []

variable {cut : ℕ → ℕ} {c : ℕ} {rest line after : List UInt8}

lemma Cuts.append {b : List UInt8} (hb : 10 ∉ b) (h : Cuts rest line after) :
    Cuts (b ++ rest) (b ++ line) after := by
  cases h with
  | newline hl =>
    rw [← append_assoc]
    exact .newline (by simp [hb, hl])
  | last hl => exact .last (by simp [hb, hl])

lemma Cuts.length_lt (h : Cuts rest line after) (hr : rest ≠ []) : after.length < rest.length := by
  cases h with
  | newline => simp; omega
  | last => exact length_pos_iff.mpr hr

/-- A buffer with a newline ends the line, one without it is a part of the line. -/
lemma Input.buffer_cases (cut : ℕ → ℕ) (i : Input) :
    (i.payload cut).length < (i.fillBuf cut).length ∧
        Cuts i.rest (i.payload cut) (i.consume ((i.payload cut).length + 1)).rest ∨
      ¬(i.payload cut).length < (i.fillBuf cut).length ∧
        ∀ {line after}, Cuts (i.consume (i.payload cut).length).rest line after →
          Cuts i.rest (i.payload cut ++ line) after := by
  obtain ⟨m, hr⟩ : ∃ m, i.rest = i.fillBuf cut ++ m := ⟨_, (take_append_drop ..).symm⟩
  have hn : 10 ∉ i.payload cut := fun hm => by simpa using mem_takeWhile_imp hm
  have hb : i.payload cut ++ (i.fillBuf cut).dropWhile (· != 10) = i.fillBuf cut :=
    takeWhile_append_dropWhile
  rw [consume, consume, hr]
  cases hd : (i.fillBuf cut).dropWhile (· != 10) with
  | nil =>
    rw [hd, append_nil] at hb
    refine .inr ⟨by simp [hb], fun h => ?_⟩
    rw [hb, drop_left] at h
    exact hb ▸ h.append hn
  | cons n t =>
    obtain rfl : n = 10 := by
      simpa [hd] using head_dropWhile_not (· != 10) (l := i.fillBuf cut) (by simp [hd])
    rw [hd] at hb
    refine .inl ⟨?_, ?_⟩
    · rw [← hb]
      simp
    · rw [← hb, append_assoc, drop_length_add_append]
      exact .newline hn

lemma fillBuf_eq_nil {i : Input} : i.fillBuf cut = [] ↔ i.rest = [] := by
  simp [Input.fillBuf]

lemma discardRecord_spec (cut : ℕ → ℕ) (i : Input) :
    ∃ line, Cuts i.rest line (discardRecord cut i).rest ∧ (i.payload cut).length ≤ line.length := by
  fun_induction discardRecord cut i with
  | case1 i h =>
    refine ⟨[], ?_, by simp [Input.payload, h]⟩
    rw [fillBuf_eq_nil.mp h]
    exact .last not_mem_nil
  | case2 i h hn =>
    rcases i.buffer_cases cut with ⟨-, hc⟩ | ⟨hb, -⟩
    · exact ⟨_, hc, Nat.le_refl _⟩
    · exact absurd hn hb
  | case3 i h hn ih =>
    obtain ⟨line, hc, -⟩ := ih
    rcases i.buffer_cases cut with ⟨hb, -⟩ | ⟨-, ha⟩
    · exact absurd hb hn
    · exact ⟨_, ha hc, by simp⟩

/-- What the loop over the buffers of the first line of `rest` answers. -/
inductive Reads (maxRecordBytes : ℕ) (record rest : List UInt8) : LineEnd × Input → Prop where
  | finished {input : Input} : record = [] → rest = [] → input.rest = [] →
      Reads maxRecordBytes record rest (.finished, input)
  | tooLarge {line : List UInt8} {input : Input} : Cuts rest line input.rest →
      maxRecordBytes < (record ++ line).length →
      Reads maxRecordBytes record rest (.tooLarge, input)
  | complete {line : List UInt8} {input : Input} : Cuts rest line input.rest →
      (record ++ line).length ≤ maxRecordBytes → (rest = [] → record ≠ []) →
      Reads maxRecordBytes record rest (.complete (record ++ line), input)

lemma readLine_spec (cut : ℕ → ℕ) (r : List UInt8) (i : Input) (hm : r.length ≤ c) :
    Reads c r i.rest (readLine cut c r i) := by
  fun_induction readLine cut c r i with
  | case1 r i h =>
    rw [fillBuf_eq_nil] at h
    split_ifs with hr
    · exact .finished hr h h
    · have hc : Cuts i.rest [] i.rest := by
        rw [h]
        exact .last not_mem_nil
      have hs : Reads c r i.rest (.complete (r ++ []), i) :=
        .complete hc (by simpa using hm) fun _ => hr
      rwa [append_nil] at hs
  | case2 r i h hl =>
    obtain ⟨line, hc, hp⟩ := discardRecord_spec cut i
    rw [length_append] at hl
    exact .tooLarge hc (by rw [length_append]; omega)
  | case3 r i h hl hn =>
    rcases i.buffer_cases cut with ⟨-, hc⟩ | ⟨hb, -⟩
    · exact .complete hc (Nat.not_lt.mp hl) fun hr => absurd (fillBuf_eq_nil.mpr hr) h
    · exact absurd hn hb
  | case4 r i h hl hn ih =>
    rcases i.buffer_cases cut with ⟨hb, -⟩ | ⟨-, ha⟩
    · exact absurd hb hn
    · have hi := ih (Nat.not_lt.mp hl)
      generalize readLine cut c _ _ = read at hi
      cases hi with
      | finished hr =>
        rw [(append_eq_nil_iff.mp hr).2] at hn
        exact absurd (length_eq_zero_iff.mp (Nat.eq_zero_of_not_pos hn)) h
      | tooLarge hc hl =>
        rw [append_assoc] at hl
        exact .tooLarge (ha hc) hl
      | complete hc hl =>
        rw [append_assoc] at hl ⊢
        exact .complete (ha hc) hl fun hr => absurd (fillBuf_eq_nil.mpr hr) h

/-! ## All results -/

/-- The outer loop of `read_next`. -/
def readNext (cut : ℕ → ℕ) (maxRecordBytes : ℕ) (r : JsonLineReader) :
    ReadResult × JsonLineReader :=
  match h : readLine cut maxRecordBytes [] r.input with
  | (.finished, input) => (.finished, ⟨input, r.logicalLine⟩)
  | (.tooLarge, input) =>
    (.jsonRecordTooLarge (r.logicalLine + 1) maxRecordBytes, ⟨input, r.logicalLine + 1⟩)
  | (.complete record, input) =>
    if record.all isAsciiWhitespace then readNext cut maxRecordBytes ⟨input, r.logicalLine⟩
    else (.record (r.logicalLine + 1) record, ⟨input, r.logicalLine + 1⟩)
termination_by r.input.rest.length
decreasing_by
  have hs := readLine_spec cut [] r.input (Nat.zero_le maxRecordBytes)
  rw [h] at hs
  cases hs with
  | complete hc hl hr => exact hc.length_lt fun he => hr he rfl

/-- The result of the call after `calls` others. -/
def readNth (cut : ℕ → ℕ) (maxRecordBytes : ℕ) : ℕ → JsonLineReader → ReadResult
  | 0, r => (readNext cut maxRecordBytes r).1
  | calls + 1, r => readNth cut maxRecordBytes calls (readNext cut maxRecordBytes r).2

/-- One result for every line that is too long or not blank, numbered in order. -/
def lineResults (maxRecordBytes : ℕ) : ℕ → List (List UInt8) → List ReadResult
  | _, [] => []
  | number, line :: lines =>
    if maxRecordBytes < line.length then
      .jsonRecordTooLarge (number + 1) maxRecordBytes ::
        lineResults maxRecordBytes (number + 1) lines
    else if line.all isAsciiWhitespace then lineResults maxRecordBytes number lines
    else .record (number + 1) line :: lineResults maxRecordBytes (number + 1) lines

/-- The input of a reader that has consumed everything has one more line, which is empty. -/
lemma Cuts.lineResults (h : Cuts rest line after) (num : ℕ) :
    lineResults c num (rest.splitOn 10) = lineResults c num (line :: after.splitOn 10) := by
  cases h with
  | newline hl => rw [splitOn_append_cons_self_of_not_mem hl]
  | last hl => simp [splitOn_eq_singleton hl, JsonLines.lineResults]

def results (maxRecordBytes : ℕ) (r : JsonLineReader) : List ReadResult :=
  lineResults maxRecordBytes r.logicalLine (r.input.rest.splitOn 10)

lemma readNext_spec (cut : ℕ → ℕ) (c : ℕ) (r : JsonLineReader) :
    (readNext cut c r).1 = (results c r).head?.getD .finished ∧
      results c (readNext cut c r).2 = (results c r).tail := by
  have hs := readLine_spec cut [] r.input (Nat.zero_le c)
  fun_induction readNext cut c r with
  | case1 r i h =>
    rw [h] at hs
    cases hs with
    | finished _ hr hi => simp [results, hr, hi, lineResults]
  | case2 r i h =>
    rw [h] at hs
    cases hs with
    | tooLarge hc hl =>
      rw [nil_append] at hl
      rw [results, hc.lineResults, lineResults, if_pos hl]
      exact ⟨rfl, rfl⟩
  | case3 r record i h hb ih =>
    rw [h] at hs
    cases hs with
    | complete hc hl =>
      rw [nil_append] at hb hl
      rw [results, hc.lineResults, lineResults, if_neg (Nat.not_lt.mpr hl), if_pos hb]
      exact ih (readLine_spec cut [] _ (Nat.zero_le c))
  | case4 r record i h hb =>
    rw [h] at hs
    cases hs with
    | complete hc hl =>
      rw [nil_append] at hb hl
      rw [results, hc.lineResults, lineResults, if_neg (Nat.not_lt.mpr hl), if_neg hb]
      exact ⟨rfl, rfl⟩

lemma readNth_results (cut : ℕ → ℕ) (c cs : ℕ) (r : JsonLineReader) :
    readNth cut c cs r = (results c r).getD cs .finished := by
  induction cs generalizing r with
  | zero =>
    rw [readNth, (readNext_spec cut c r).1, getD_eq_getElem?_getD, head?_eq_getElem?]
  | succ cs ih =>
    rw [readNth, ih, (readNext_spec cut c r).2, getD_eq_getElem?_getD,
      getElem?_tail, getD_eq_getElem?_getD]

/-- The calls return the results of the lines in order, whatever the buffers are. -/
theorem readNth_lines (cut : ℕ → ℕ) (maxRecordBytes calls : ℕ) (input : List UInt8) :
    readNth cut maxRecordBytes calls ⟨⟨input, 0⟩, 0⟩ =
      (lineResults maxRecordBytes 0 (input.splitOn 10)).getD calls .finished :=
  readNth_results cut maxRecordBytes calls _

/-- A blank line that is too long is an error. -/
theorem longBlankLine_tooLarge : [32, 32].all isAsciiWhitespace = true ∧
    readNth (fun _ => 0) 1 0 ⟨⟨[32, 32], 0⟩, 0⟩ = .jsonRecordTooLarge 1 1 := by
  refine ⟨by decide, ?_⟩
  rw [readNth_results]
  decide

end LagoDB.JsonLines

import Mathlib.Data.List.DropRight
import Recurrence.Proofs.Underlining

/-!
Where the carets under an illustrated input stand, line by line.

A word of the input stands on one line of it, behind what the line holds before it
(`Text.standsAt_append`). The line of carets counts every character before the word, those of
earlier lines included. So the carets stand under the word exactly where no line break comes
before it (`Diagnostic.underlinesWord_iff`); a word on a later line is not the one that is
underlined (`Diagnostic.not_underlinesWord_secondLine`).
-/

set_option autoImplicit false
set_option relaxedAutoImplicit false

namespace Recurrence

/-! ### Lines and columns -/

namespace Text

variable {text front token : List Char}

/-- The characters of a text behind its last line break. -/
def lastLine (text : List Char) : List Char :=
  text.rtakeWhile (· != '\n')

/-- The line on which a text goes on behind a front, counted from 0. -/
def lineBehind (front : List Char) : Nat :=
  front.count '\n'

/-- The column in which a text goes on behind a front, counted from 0. -/
def columnBehind (front : List Char) : Nat :=
  (lastLine front).length

/-- A token stands on a line of a text, from a column on. -/
def StandsAt (text : List Char) (line column : Nat) (token : List Char) : Prop :=
  ∃ front back, (text.splitOn '\n')[line]? = some (front ++ (token ++ back)) ∧
    front.length = column

theorem lineBreak_notMem_lastLine (text : List Char) : '\n' ∉ lastLine text := by
  intro h
  simpa using List.mem_rtakeWhile_imp h

/-- A text without line breaks is its last line. -/
theorem lastLine_eq_self_iff : lastLine text = text ↔ '\n' ∉ text := by
  rw [lastLine, List.rtakeWhile_eq_self_iff]
  constructor
  · intro h hbreak
    simpa using h '\n' hbreak
  · intro h c hc
    rw [bne_iff_ne]
    rintro rfl
    exact h hc

/-- The last line of a text is all of it, or is behind a line break. -/
theorem cases_lastLine (text : List Char) :
    text = lastLine text ∨ ∃ earlier, text = earlier ++ '\n' :: lastLine text := by
  have hsplit : text.rdropWhile (· != '\n') ++ lastLine text = text :=
    List.rdropWhile_append_rtakeWhile
  rcases List.eq_nil_or_concat (text.rdropWhile (· != '\n')) with hnil | ⟨earlier, last, hfront⟩
  · rw [hnil, List.nil_append] at hsplit
    exact Or.inl hsplit.symm
  · have hlast := List.rdropWhile_last_not (· != '\n') text (by rw [hfront]; simp)
    simp only [hfront, List.concat_eq_append, List.getLast_append_singleton, bne_iff_ne, ne_eq,
      Decidable.not_not] at hlast
    refine Or.inr ⟨earlier, ?_⟩
    calc text = earlier.concat last ++ lastLine text := by rw [← hfront, hsplit]
      _ = earlier ++ '\n' :: lastLine text := by
        rw [hlast, List.concat_eq_append, List.append_assoc, List.singleton_append]

/-- The columns before a place are all characters before it exactly where none of them is a line
break. -/
theorem columnBehind_eq_length_iff : columnBehind text = text.length ↔ '\n' ∉ text := by
  rw [← lastLine_eq_self_iff]
  constructor
  · intro h
    exact (List.rtakeWhile_suffix (· != '\n') text).eq_of_length h
  · intro h
    rw [columnBehind, h]

/-- There is one line more than there are line breaks. -/
theorem length_splitOn (text : List Char) : (text.splitOn '\n').length = text.count '\n' + 1 := by
  induction text with
  | nil => rfl
  | cons c rest ih =>
    rw [List.splitOn_cons_eq_if_modifyHead, List.count_cons]
    split <;> simp [ih]

/-- Two fronts of a text that take up the same bytes are the same. -/
theorem front_eq_of_byteCount_eq {other back rest : List Char}
    (htext : front ++ back = other ++ rest) (h : byteCount front = byteCount other) :
    front = other := by
  rcases List.append_eq_append_iff.mp htext with ⟨middle, rfl, -⟩ | ⟨middle, rfl, -⟩
  all_goals
    rw [byteCount_append] at h
    have hmiddle : middle = [] := by
      by_contra hne
      have hbytes := byteCount_pos hne
      omega
    rw [hmiddle, List.append_nil]

/-- What has no line break in it is on the first line of a text that it starts. -/
theorem exists_firstLine (h : '\n' ∉ front) (back : List Char) :
    ∃ rest, ((front ++ back).splitOn '\n')[0]? = some (front ++ rest) := by
  induction front with
  | nil =>
    refine ⟨(back.splitOn '\n').head (List.splitOn_ne_nil '\n' back), ?_⟩
    rw [List.nil_append, List.nil_append, ← List.head?_eq_getElem?, List.head?_eq_some_head]
  | cons c front ih =>
    rw [List.mem_cons, not_or] at h
    obtain ⟨hc, hfront⟩ := h
    obtain ⟨rest, hrest⟩ := ih hfront
    have hne : ¬ (c == '\n') = true := by simpa using Ne.symm hc
    refine ⟨rest, ?_⟩
    rw [List.cons_append, List.splitOn_cons_eq_if_modifyHead, if_neg hne,
      List.getElem?_modifyHead_zero, hrest, Option.map_some, List.cons_append]

/-- A token without line breaks stands on the line and in the column behind its front. -/
theorem standsAt_append (h : '\n' ∉ token) (front back : List Char) :
    StandsAt (front ++ (token ++ back)) (lineBehind front) (columnBehind front) token := by
  have hlast : '\n' ∉ lastLine front ++ token :=
    fun hmem ↦ (List.mem_append.mp hmem).elim (lineBreak_notMem_lastLine front) h
  -- The line of the token starts behind the last break of the front and goes on to the next one.
  obtain ⟨rest, hrest⟩ := exists_firstLine hlast back
  rw [List.append_assoc, List.append_assoc] at hrest
  refine ⟨lastLine front, rest, ?_, rfl⟩
  rcases cases_lastLine front with hfront | ⟨earlier, hfront⟩
  · have hline : lineBehind front = 0 :=
      List.count_eq_zero.mpr (lastLine_eq_self_iff.mp hfront.symm)
    rw [hline, ← hrest, ← hfront]
  · have hline : lineBehind front = (earlier.splitOn '\n').length := by
      rw [lineBehind, hfront, List.count_append, List.count_cons_self,
        List.count_eq_zero.mpr (lineBreak_notMem_lastLine front), length_splitOn]
    calc ((front ++ (token ++ back)).splitOn '\n')[lineBehind front]?
        = (earlier.splitOn '\n' ++
            (lastLine front ++ (token ++ back)).splitOn '\n')[lineBehind front]? := by
          rw [← List.splitOn_append_cons_self, ← List.cons_append, ← List.append_assoc earlier,
            ← hfront]
      _ = ((lastLine front ++ (token ++ back)).splitOn '\n')[0]? := by
          rw [hline, List.getElem?_append_right (Nat.le_refl _), Nat.sub_self]
      _ = some (lastLine front ++ (token ++ rest)) := hrest

end Text

/-! ### The line of carets -/

namespace Diagnostic

open Recurrence.Text

variable {input token reason source : String} {field : Field} {span : Span} {before : List Char}

/-- The input as it is shown, two columns in. -/
def indented (text : List Char) : List Char :=
  ' ' :: ' ' :: text

/-- The carets of a line stand in so many columns from one on, and nowhere else. -/
def MarksColumns (marks : List Char) (column count : Nat) : Prop :=
  ∀ place, marks[place]? = some '^' ↔ column ≤ place ∧ place < column + count

/-- The carets under a word stand as many columns behind the indent as characters stand before
the word. -/
theorem marksColumns_marksUnder (before letters : List Char) :
    MarksColumns (marksUnder before letters) (before.length + 2) letters.length := by
  intro place
  rw [marksUnder, List.getElem?_append, List.length_replicate, List.getElem?_replicate,
    List.getElem?_replicate]
  grind

/-- Columns that are marked in the same line are the same. -/
theorem MarksColumns.unique {marks : List Char} {column other count : Nat} (hpos : 0 < count)
    (hcolumn : MarksColumns marks column count) (hother : MarksColumns marks other count) :
    column = other := by
  have hfirst := (hother column).mp ((hcolumn column).mpr ⟨Nat.le_refl _, by omega⟩)
  have hlast := (hcolumn other).mp ((hother other).mpr ⟨Nat.le_refl _, by omega⟩)
  omega

/-- The last line of the illustration of a report marks a word that stands behind a front of the
input: its carets are in the columns that the word takes up on its own line. -/
def UnderlinesWord (diagnostic : Diagnostic) (before letters : List Char) : Prop :=
  ∃ illustration marks, diagnostic.illustrate? = some illustration ∧
    (illustration.toList.splitOn '\n').getLast? = some marks ∧
    MarksColumns marks (columnBehind (indented before)) letters.length

/-- The lines of a headline, an input under it and a line of marks under that. -/
theorem splitOn_illustration {marks : List Char} (h : '\n' ∉ marks) (headline input : String) :
    (headline ++ "\n  " ++ input ++ "\n" ++ String.ofList marks).toList.splitOn '\n' =
      headline.toList.splitOn '\n' ++ (indented input.toList).splitOn '\n' ++ [marks] := by
  have htext : (headline ++ "\n  " ++ input ++ "\n" ++ String.ofList marks).toList =
      headline.toList ++ '\n' :: (indented input.toList ++ '\n' :: marks) := by
    simp [indented]
  rw [htext, List.splitOn_append_cons_self, List.splitOn_append_cons_self,
    List.splitOn_eq_singleton h, List.append_assoc]

theorem lineBreak_notMem_marksUnder (before letters : List Char) :
    '\n' ∉ marksUnder before letters := by
  simp [marksUnder]

/-- The column of a word in its line of the shown input counts all characters before the word
exactly where none of them is a line break. -/
theorem columnBehind_indented_iff :
    columnBehind (indented before) = before.length + 2 ↔ '\n' ∉ before := by
  have hlength : (indented before).length = before.length + 2 := rfl
  rw [← hlength, columnBehind_eq_length_iff]
  simp [indented]

/-- The word that is reported about a field stands in the shown input on the line and in the
column that the characters before it lead to. The line of carets comes last, under the headline
and the lines of the input, and marks the columns of the word exactly where no line break comes
before the word. -/
theorem underlinesWord_iff
    (h : Expression.parse input = .error (.field field token span source reason)) :
    ∃ before after,
      (words input.toList)[field.index]? = some ⟨byteCount before, token.toList⟩ ∧
      input.toList = before ++ (token.toList ++ after) ∧
      (∃ illustration marks,
        (Diagnostic.field field token span source reason).illustrate? = some illustration ∧
        illustration.toList.splitOn '\n' =
          (Diagnostic.field field token span source reason).headline.toList.splitOn '\n' ++
            (indented input.toList).splitOn '\n' ++ [marks] ∧
        MarksColumns marks (before.length + 2) token.toList.length) ∧
      StandsAt (indented input.toList) (lineBehind (indented before))
        (columnBehind (indented before)) token.toList ∧
      ((Diagnostic.field field token span source reason).UnderlinesWord before token.toList ↔
        '\n' ∉ before) := by
  obtain ⟨-, before, after, hword, htext, hmaximal, -, hshown⟩ := exists_place_of_parse_field h
  have hlines := splitOn_illustration (lineBreak_notMem_marksUnder before token.toList)
    (Diagnostic.field field token span source reason).headline input
  have hmarks := marksColumns_marksUnder before token.toList
  have htoken : '\n' ∉ token.toList := fun hbreak ↦
    absurd (hmaximal.unblank '\n' hbreak) (by decide)
  have hstands := standsAt_append htoken (indented before) after
  refine ⟨before, after, hword, htext, ⟨_, _, hshown, hlines, hmarks⟩, ?_, ?_⟩
  · rw [htext]
    exact hstands
  · rw [← columnBehind_indented_iff]
    constructor
    · intro hunderlines
      obtain ⟨illustration, marks, hillustration, hlast, hcolumns⟩ := hunderlines
      rw [hshown] at hillustration
      cases hillustration
      rw [hlines, List.getLast?_concat] at hlast
      cases hlast
      exact hcolumns.unique (List.length_pos_iff.mpr hmaximal.ne_nil) hmarks
    · intro hcolumn
      refine ⟨_, _, hshown, by rw [hlines, List.getLast?_concat], ?_⟩
      rw [hcolumn]
      exact hmarks

/-- An input that goes on behind its second word on another line. -/
def brokenInput : String :=
  "0\u20031,99\n* * *"

/-- The report on the second word of this input. -/
def brokenReport : Diagnostic :=
  .field .hour "1,99" ⟨4, 8⟩ brokenInput "'99' in '1,99' is not a value in 0-23"

/-- A word on the first line of an input is underlined where it stands. -/
theorem underlinesWord_brokenReport :
    Expression.parse brokenInput = .error brokenReport ∧
      brokenReport.UnderlinesWord ['0', '\u2003'] "1,99".toList := by
  have hparse : Expression.parse brokenInput = .error brokenReport := by decide +kernel
  have hsecond : (words brokenInput.toList)[1]? = some ⟨4, "1,99".toList⟩ := by decide +kernel
  have hfront : brokenInput.toList = ['0', '\u2003'] ++ "1,99\n* * *".toList := by decide
  obtain ⟨before, after, hword, htext, -, -, hunderlines⟩ := underlinesWord_iff hparse
  have hbytes : byteCount before = 4 :=
    congrArg Word.start (Option.some.inj (hword.symm.trans hsecond))
  have hbefore : before = ['0', '\u2003'] :=
    front_eq_of_byteCount_eq (htext.symm.trans hfront) hbytes
  rw [← hbefore]
  refine ⟨hparse, hunderlines.mpr ?_⟩
  rw [hbefore]
  decide

/-- An input whose second word stands on its second line. -/
def secondLineInput : String :=
  "0\n24 * * *"

/-- The report on the second word of this input. -/
def secondLineReport : Diagnostic :=
  .field .hour "24" ⟨2, 4⟩ secondLineInput "'24' is not a value in 0-23"

/-- What is shown for this report. -/
def secondLineIllustration : String :=
  "error: invalid hour field '24' (accepted range 0-23): '24' is not a value in 0-23\n" ++
    "  0\n24 * * *\n    ^^"

/-- A word that starts the second line of an input is in the first two columns of its line, but
the carets are in the fifth and the sixth. So it is not so that every reported word is
underlined. -/
theorem not_underlinesWord_secondLine :
    Expression.parse secondLineInput = .error secondLineReport ∧
    secondLineReport.illustrate? = some secondLineIllustration ∧
    (secondLineIllustration.toList.splitOn '\n').getLast? = some "    ^^".toList ∧
    StandsAt (indented secondLineInput.toList) 1 0 "24".toList ∧
    MarksColumns "    ^^".toList 4 2 ∧
    ¬ secondLineReport.UnderlinesWord ['0', '\n'] "24".toList ∧
    ¬ ∀ (input token source reason : String) (field : Field) (span : Span)
      (before after : List Char),
      Expression.parse input = .error (.field field token span source reason) →
      (words input.toList)[field.index]? = some ⟨byteCount before, token.toList⟩ →
      input.toList = before ++ (token.toList ++ after) →
      (Diagnostic.field field token span source reason).UnderlinesWord before token.toList := by
  have hparse : Expression.parse secondLineInput = .error secondLineReport := by decide +kernel
  have hshown : secondLineReport.illustrate? = some secondLineIllustration := by decide +kernel
  have hlast : (secondLineIllustration.toList.splitOn '\n').getLast? = some "    ^^".toList := by
    decide +kernel
  have htoken : '\n' ∉ "24".toList := by decide
  have hstands := standsAt_append htoken (indented ['0', '\n']) " * * *".toList
  have hmarks := marksColumns_marksUnder ['0', '\n'] "24".toList
  have hnot : ¬ secondLineReport.UnderlinesWord ['0', '\n'] "24".toList := by
    intro hunderlines
    obtain ⟨illustration, marks, hillustration, hmarked, hcolumns⟩ := hunderlines
    rw [hshown] at hillustration
    cases hillustration
    rw [hlast] at hmarked
    cases hmarked
    cases hcolumns.unique (by decide) hmarks
  refine ⟨hparse, hshown, hlast, hstands, hmarks, hnot, fun hall ↦ hnot ?_⟩
  exact hall secondLineInput "24" secondLineInput _ .hour ⟨2, 4⟩ ['0', '\n'] " * * *".toList hparse
    (by decide +kernel) (by decide)

end Diagnostic

end Recurrence

import Recurrence.Proofs.PatternGrammar

/-!
What the report on a refused text quotes.

A text is cut at its first slash, else at its first hyphen, else at its commas. The step behind
a slash is judged first, then the pieces of the text one by one from the left, and the order of
a range only where both of its ends are values. `Refused` says which reason this gives, without
reading anything, and a text is reported with a reason exactly where it is refused for it
(`Pattern.read_eq_error_iff_refused`). The wording tells the kinds of reasons apart, so a range
is reported as reversed only where its ends are values out of order.
-/

set_option autoImplicit false
set_option relaxedAutoImplicit false

namespace Recurrence

open Recurrence.Text

/-! ### Faults one after another -/

section

variable {ε α β : Type} {first : Except ε α} {fault : ε}

theorem bind_eq_error_iff {next : α → Except ε β} :
    (first >>= next) = .error fault ↔
      first = .error fault ∨ ∃ value, first = .ok value ∧ next value = .error fault := by
  cases first with
  | error found =>
    constructor
    · rintro ⟨⟩
      exact Or.inl rfl
    · intro h
      rcases h with ⟨⟨⟩⟩ | ⟨value, ⟨⟩, -⟩
      rfl
  | ok value =>
    constructor
    · intro h
      exact Or.inr ⟨value, rfl, h⟩
    · intro h
      rcases h with ⟨⟨⟩⟩ | ⟨_, ⟨⟩, hnext⟩
      exact hnext

theorem map_eq_error_iff {change : α → β} :
    change <$> first = .error fault ↔ first = .error fault := by
  cases first with
  | error found =>
    constructor
    · rintro ⟨⟩
      rfl
    · rintro ⟨⟩
      rfl
  | ok value =>
    constructor
    · rintro ⟨⟩
    · rintro ⟨⟩

end

/-! ### Why a text is refused -/

/-- The pieces of a text that have to stand for values: what stands before the first slash if a
step follows it, else the two sides of the first hyphen, else what stands between commas. -/
inductive Pieces (bounds : Bounds) : List Char → List (List Char) → Prop
  | base {base token : List Char} {increment : UInt8} (hbase : '/' ∉ base)
    (hstep : IsStep bounds token increment) : Pieces bounds (base ++ '/' :: token) [base]
  | ends {left right : List Char} (hslash : '/' ∉ left ++ '-' :: right) (hleft : '-' ∉ left) :
    Pieces bounds (left ++ '-' :: right) [left, right]
  | entries {whole : List Char} (hslash : '/' ∉ whole) (hhyphen : '-' ∉ whole) :
    Pieces bounds whole (whole.splitOn ',')

/-- The first of some pieces that stands for no value. -/
structure FirstUnfit (bounds : Bounds) (pieces : List (List Char)) (piece : List Char) :
    Prop where
  noValue : bounds.value? piece = none
  valuesBefore : ∃ before after, pieces = before ++ piece :: after ∧
    ∀ earlier ∈ before, bounds.value? earlier ≠ none

namespace FirstUnfit

variable {bounds : Bounds} {head piece : List Char} {rest : List (List Char)}

theorem not_nil : ¬ FirstUnfit bounds [] piece := by
  rintro ⟨-, before, after, hnil, -⟩
  cases before <;> cases hnil

/-- The first piece is the one, or it is a value and the one stands behind it. -/
theorem cons_iff : FirstUnfit bounds (head :: rest) piece ↔
    bounds.value? head = none ∧ piece = head ∨
      bounds.value? head ≠ none ∧ FirstUnfit bounds rest piece := by
  constructor
  · rintro ⟨hnone, before, after, hpieces, hbefore⟩
    cases before with
    | nil =>
      obtain ⟨rfl, rfl⟩ := List.cons.inj hpieces
      exact Or.inl ⟨hnone, rfl⟩
    | cons first before =>
      obtain ⟨rfl, rfl⟩ := List.cons.inj hpieces
      refine Or.inr ⟨hbefore _ List.mem_cons_self, hnone, before, after, rfl, ?_⟩
      exact fun earlier hmem ↦ hbefore earlier (List.mem_cons_of_mem _ hmem)
  · intro h
    rcases h with ⟨hnone, rfl⟩ | ⟨hhead, hnone, before, after, rfl, hbefore⟩
    · exact ⟨hnone, [], rest, rfl, nofun⟩
    · refine ⟨hnone, head :: before, after, rfl, ?_⟩
      intro earlier hearlier
      rcases List.mem_cons.mp hearlier with rfl | hmem
      · exact hhead
      · exact hbefore earlier hmem

theorem singleton_iff :
    FirstUnfit bounds [head] piece ↔ bounds.value? head = none ∧ piece = head := by
  rw [cons_iff, or_iff_left fun h ↦ not_nil h.2]

end FirstUnfit

/-- A text is refused over a domain for a reason, which quotes the piece at fault between
apostrophes. -/
inductive Refused (bounds : Bounds) : List Char → String → Prop
  /-- What follows the first slash is no step. -/
  | step {base token : List Char} (hbase : '/' ∉ base)
    (hstep : ∀ increment, ¬ IsStep bounds token increment) :
    Refused bounds (base ++ '/' :: token)
      ("invalid step " ++ ("'" ++ String.ofList token ++ "'") ++ " in " ++
        ("'" ++ String.ofList (base ++ '/' :: token) ++ "'") ++ ", expected 1-" ++
        Nat.repr bounds.greatest.toNat)
  /-- A piece stands for no value; a star that is the only piece does not have to. -/
  | piece {whole piece : List Char} {pieces : List (List Char)}
    (hpieces : Pieces bounds whole pieces) (hstar : pieces ≠ [['*']])
    (hpiece : FirstUnfit bounds pieces piece) :
    Refused bounds whole
      (if piece = whole then
        "'" ++ String.ofList piece ++ "'" ++ " is not a value in " ++
          (Nat.repr bounds.least.toNat ++ "-" ++ Nat.repr bounds.greatest.toNat)
      else
        "'" ++ String.ofList piece ++ "'" ++ " in " ++ ("'" ++ String.ofList whole ++ "'") ++
          " is not a value in " ++
          (Nat.repr bounds.least.toNat ++ "-" ++ Nat.repr bounds.greatest.toNat))
  /-- Both ends of a range are values, and the first is the greater one. -/
  | order {left right : List Char} {first last : UInt8} (hslash : '/' ∉ left ++ '-' :: right)
    (hleft : '-' ∉ left) (hfirst : bounds.value? left = some first)
    (hlast : bounds.value? right = some last) (hlt : last < first) :
    Refused bounds (left ++ '-' :: right)
      ("range start must be <= end in " ++ ("'" ++ String.ofList (left ++ '-' :: right) ++ "'"))

namespace Pattern

variable {bounds : Bounds} {whole piece : List Char} {fault : PatternFault}

/-! ### One shape at a time -/

theorem readValue_eq_ok_iff_value? {value : UInt8} :
    readValue bounds whole piece = .ok value ↔ bounds.value? piece = some value := by
  rw [readValue_eq_ok_iff, Bounds.value?_eq_some_iff]

theorem readValue_eq_error_iff :
    readValue bounds whole piece = .error fault ↔
      bounds.value? piece = none ∧ fault = .badValue piece whole bounds := by
  unfold readValue
  cases hvalue : bounds.value? piece with
  | none =>
    constructor
    · rintro ⟨⟩
      exact ⟨rfl, rfl⟩
    · rintro ⟨-, rfl⟩
      rfl
  | some value =>
    constructor
    · rintro ⟨⟩
    · rintro ⟨⟨⟩, -⟩

theorem readStep_eq_error_iff :
    readStep bounds whole piece = .error fault ↔
      (∀ increment, ¬ IsStep bounds piece increment) ∧
        fault = .badStep piece whole bounds.greatest := by
  have hfault {found : PatternFault} (h : readStep bounds whole piece = .error found) :
      found = .badStep piece whole bounds.greatest := by
    unfold readStep at h
    split at h
    · split_ifs at h
      cases h
      rfl
    · cases h
      rfl
  constructor
  · intro h
    refine ⟨fun increment hstep ↦ ?_, hfault h⟩
    rw [readStep_eq_ok_iff.mpr hstep] at h
    cases h
  · rintro ⟨hnone, rfl⟩
    cases hread : readStep bounds whole piece with
    | ok increment => exact absurd (readStep_eq_ok_iff.mp hread) (hnone increment)
    | error found => rw [hfault hread]

/-- Pieces that are read one by one are refused for the first of them that is no value. -/
theorem mapM_readValue_eq_error_iff {pieces : List (List Char)} :
    pieces.mapM (readValue bounds whole) = .error fault ↔
      ∃ piece, FirstUnfit bounds pieces piece ∧ fault = .badValue piece whole bounds := by
  induction pieces with
  | nil =>
    constructor
    · rintro ⟨⟩
    · rintro ⟨piece, hpiece, -⟩
      exact absurd hpiece FirstUnfit.not_nil
  | cons head rest ih =>
    rw [List.mapM_cons, bind_eq_error_iff, readValue_eq_error_iff]
    constructor
    · intro h
      rcases h with ⟨hnone, rfl⟩ | ⟨value, hvalue, hrest⟩
      · exact ⟨head, FirstUnfit.cons_iff.mpr (Or.inl ⟨hnone, rfl⟩), rfl⟩
      · have hhead : bounds.value? head ≠ none :=
          Option.ne_none_iff_exists'.mpr ⟨value, readValue_eq_ok_iff_value?.mp hvalue⟩
        rw [bind_eq_error_iff, ih] at hrest
        rcases hrest with ⟨piece, hpiece, rfl⟩ | ⟨_, _, ⟨⟩⟩
        exact ⟨piece, FirstUnfit.cons_iff.mpr (Or.inr ⟨hhead, hpiece⟩), rfl⟩
    · rintro ⟨piece, hpiece, rfl⟩
      rcases FirstUnfit.cons_iff.mp hpiece with ⟨hnone, rfl⟩ | ⟨hhead, hpiece⟩
      · exact Or.inl ⟨hnone, rfl⟩
      · obtain ⟨value, hvalue⟩ := Option.ne_none_iff_exists'.mp hhead
        exact Or.inr ⟨value, readValue_eq_ok_iff_value?.mpr hvalue,
          bind_eq_error_iff.mpr (Or.inl (ih.mpr ⟨piece, hpiece, rfl⟩))⟩

/-- A progression is judged by its step first, and then by its start, unless that is a star. -/
theorem readProgression_eq_error_iff {base token : List Char} :
    readProgression bounds whole base token = .error fault ↔
      (∀ increment, ¬ IsStep bounds token increment) ∧
          fault = .badStep token whole bounds.greatest ∨
        (∃ increment, IsStep bounds token increment) ∧ base ≠ ['*'] ∧
          bounds.value? base = none ∧ fault = .badValue base whole bounds := by
  rw [readProgression, bind_eq_error_iff, readStep_eq_error_iff]
  refine or_congr_right ?_
  rw [← exists_and_right]
  refine exists_congr fun increment ↦ ?_
  rw [readStep_eq_ok_iff]
  refine and_congr_right fun _ ↦ ?_
  by_cases hstar : base = ['*']
  · rw [if_pos hstar]
    constructor
    · rintro ⟨⟩
    · rintro ⟨hne, -⟩
      exact absurd hstar hne
  · rw [if_neg hstar, bind_eq_error_iff, readValue_eq_error_iff]
    constructor
    · intro h
      rcases h with hvalue | ⟨_, _, ⟨⟩⟩
      exact ⟨hstar, hvalue⟩
    · rintro ⟨-, hvalue⟩
      exact Or.inl hvalue

/-- A range is judged by its ends, and then by their order. -/
theorem readRange_eq_error_iff {left right : List Char} :
    readRange bounds whole left right = .error fault ↔
      (∃ piece, FirstUnfit bounds [left, right] piece ∧ fault = .badValue piece whole bounds) ∨
        ∃ first last, bounds.value? left = some first ∧ bounds.value? right = some last ∧
          last < first ∧ fault = .reversedRange whole := by
  rw [readRange, bind_eq_error_iff, readValue_eq_error_iff]
  constructor
  · intro h
    rcases h with ⟨hnone, rfl⟩ | ⟨first, hfirst, h⟩
    · exact Or.inl ⟨left, FirstUnfit.cons_iff.mpr (Or.inl ⟨hnone, rfl⟩), rfl⟩
    · rw [readValue_eq_ok_iff_value?] at hfirst
      rcases bind_eq_error_iff.mp h with hright | ⟨last, hlast, horder⟩
      · obtain ⟨hnone, rfl⟩ := readValue_eq_error_iff.mp hright
        have hleft : bounds.value? left ≠ none := Option.ne_none_iff_exists'.mpr ⟨first, hfirst⟩
        have hpiece := FirstUnfit.singleton_iff.mpr ⟨hnone, rfl⟩
        exact Or.inl ⟨right, FirstUnfit.cons_iff.mpr (Or.inr ⟨hleft, hpiece⟩), rfl⟩
      · rw [readValue_eq_ok_iff_value?] at hlast
        split_ifs at horder with hlt
        · cases horder
          exact Or.inr ⟨first, last, hfirst, hlast, hlt, rfl⟩
        · cases horder
  · intro h
    rcases h with ⟨piece, hpiece, rfl⟩ | ⟨first, last, hfirst, hlast, hlt, rfl⟩
    · rcases FirstUnfit.cons_iff.mp hpiece with ⟨hnone, rfl⟩ | ⟨hleft, hpiece⟩
      · exact Or.inl ⟨hnone, rfl⟩
      · obtain ⟨first, hfirst⟩ := Option.ne_none_iff_exists'.mp hleft
        obtain ⟨hright, rfl⟩ := FirstUnfit.singleton_iff.mp hpiece
        refine Or.inr ⟨first, readValue_eq_ok_iff_value?.mpr hfirst, ?_⟩
        exact bind_eq_error_iff.mpr (Or.inl
          (readValue_eq_error_iff.mpr ⟨hright, rfl⟩))
    · refine Or.inr ⟨first, readValue_eq_ok_iff_value?.mpr hfirst, ?_⟩
      refine bind_eq_error_iff.mpr (Or.inr ⟨last, readValue_eq_ok_iff_value?.mpr hlast, ?_⟩)
      rw [if_pos hlt]
      rfl

/-- A text without slash and hyphen is judged by what stands between its commas, be there a
comma or not. -/
theorem parse_entries_eq_error_iff (hstar : whole ≠ ['*']) (hslash : '/' ∉ whole)
    (hhyphen : '-' ∉ whole) :
    parse bounds whole = .error fault ↔
      ∃ piece, FirstUnfit bounds (whole.splitOn ',') piece ∧
        fault = .badValue piece whole bounds := by
  by_cases hcomma : ',' ∈ whole
  · rw [parse, if_neg hstar, cut?_eq_none_iff.mpr hslash, cut?_eq_none_iff.mpr hhyphen]
    dsimp only
    rw [if_pos hcomma, map_eq_error_iff, mapM_readValue_eq_error_iff]
  · rw [parse_of_plain hstar hslash hhyphen hcomma, map_eq_error_iff, readValue_eq_error_iff,
      List.splitOn_eq_singleton hcomma]
    simp only [FirstUnfit.singleton_iff]
    constructor
    · rintro ⟨hnone, rfl⟩
      exact ⟨whole, ⟨hnone, rfl⟩, rfl⟩
    · rintro ⟨piece, ⟨hnone, rfl⟩, rfl⟩
      exact ⟨hnone, rfl⟩

/-! ### All shapes -/

/-- A text is a star where a star is the only thing between its commas. -/
theorem splitOn_eq_star_iff : whole.splitOn ',' = [['*']] ↔ whole = ['*'] := by
  constructor
  · intro h
    calc whole = [','].intercalate (whole.splitOn ',') := (List.intercalate_splitOn ',').symm
      _ = ['*'] := by rw [h, List.intercalate_singleton]
  · rintro rfl
    decide

/-- What is refused by reading is refused for the reason that the fault gives. -/
theorem refused_of_parse (h : parse bounds whole = .error fault) :
    Refused bounds whole fault.message := by
  by_cases hstar : whole = ['*']
  · rw [hstar] at h
    cases h
  cases hslash : cut? '/' whole with
  | some parts =>
    obtain ⟨rfl, hbase⟩ := cut?_eq_some_iff.mp hslash
    rw [parse_of_slash hbase, readProgression_eq_error_iff] at h
    rcases h with ⟨hstep, rfl⟩ | ⟨⟨increment, hstep⟩, hne, hnone, rfl⟩
    · exact .step hbase hstep
    · exact .piece (.base hbase hstep) (by simpa using hne)
        (FirstUnfit.singleton_iff.mpr ⟨hnone, rfl⟩)
  | none =>
    rw [cut?_eq_none_iff] at hslash
    cases hhyphen : cut? '-' whole with
    | some parts =>
      obtain ⟨rfl, hleft⟩ := cut?_eq_some_iff.mp hhyphen
      rw [parse_of_hyphen hslash hleft, readRange_eq_error_iff] at h
      rcases h with ⟨piece, hpiece, rfl⟩ | ⟨first, last, hfirst, hlast, hlt, rfl⟩
      · exact .piece (.ends hslash hleft) (by simp) hpiece
      · exact .order hslash hleft hfirst hlast hlt
    | none =>
      rw [cut?_eq_none_iff] at hhyphen
      rw [parse_entries_eq_error_iff hstar hslash hhyphen] at h
      obtain ⟨piece, hpiece, rfl⟩ := h
      exact .piece (.entries hslash hhyphen) (splitOn_eq_star_iff.not.mpr hstar) hpiece

/-- What is refused for a reason is refused by reading, for a fault that gives this reason. -/
theorem parse_of_refused {reason : String} (h : Refused bounds whole reason) :
    ∃ fault, parse bounds whole = .error fault ∧ fault.message = reason := by
  cases h with
  | step hbase hstep =>
    rename_i base token
    refine ⟨.badStep token (base ++ '/' :: token) bounds.greatest, ?_, rfl⟩
    rw [parse_of_slash hbase, readProgression_eq_error_iff]
    exact Or.inl ⟨hstep, rfl⟩
  | piece hpieces hstar hpiece =>
    rename_i piece pieces
    refine ⟨.badValue piece whole bounds, ?_, rfl⟩
    cases hpieces with
    | base hbase hstep =>
      obtain ⟨hnone, rfl⟩ := FirstUnfit.singleton_iff.mp hpiece
      rw [parse_of_slash hbase, readProgression_eq_error_iff]
      exact Or.inr ⟨⟨_, hstep⟩, by simpa using hstar, hnone, rfl⟩
    | ends hslash hleft =>
      rw [parse_of_hyphen hslash hleft, readRange_eq_error_iff]
      exact Or.inl ⟨piece, hpiece, rfl⟩
    | entries hslash hhyphen =>
      rw [parse_entries_eq_error_iff (splitOn_eq_star_iff.not.mp hstar) hslash hhyphen]
      exact ⟨piece, hpiece, rfl⟩
  | order hslash hleft hfirst hlast hlt =>
    rename_i left right first last
    refine ⟨.reversedRange (left ++ '-' :: right), ?_, rfl⟩
    rw [parse_of_hyphen hslash hleft, readRange_eq_error_iff]
    exact Or.inr ⟨first, last, hfirst, hlast, hlt, rfl⟩

theorem read_eq_error_iff_parse {text : String} {diagnostic : Diagnostic} :
    read bounds text = .error diagnostic ↔
      ∃ fault, parse bounds text.toList = .error fault ∧ diagnostic = .value fault.message := by
  unfold read
  cases parse bounds text.toList with
  | ok pattern =>
    constructor
    · rintro ⟨⟩
    · rintro ⟨_, ⟨⟩, -⟩
  | error fault =>
    constructor
    · rintro ⟨⟩
      exact ⟨fault, rfl, rfl⟩
    · rintro ⟨_, ⟨⟩, rfl⟩
      rfl

/-- The reason that a range runs downwards is given where its ends are values out of order, and
nowhere else. -/
theorem refused_order_iff :
    Refused bounds whole
        ("range start must be <= end in " ++ ("'" ++ String.ofList whole ++ "'")) ↔
      '/' ∉ whole ∧ ∃ left right first last, whole = left ++ '-' :: right ∧ '-' ∉ left ∧
        bounds.value? left = some first ∧ bounds.value? right = some last ∧ last < first := by
  constructor
  · intro h
    generalize hreason :
      "range start must be <= end in " ++ ("'" ++ String.ofList whole ++ "'") = reason at h
    -- The first letters tell the kinds of reasons apart.
    have hletter := congrArg (fun text ↦ text.toList.head?) hreason
    cases h with
    | step hbase hstep =>
      simp at hletter
    | piece hpieces hstar hpiece =>
      split_ifs at hletter <;> simp at hletter
    | order hslash hleft hfirst hlast hlt =>
      exact ⟨hslash, _, _, _, _, rfl, hleft, hfirst, hlast, hlt⟩
  · rintro ⟨hslash, left, right, first, last, rfl, hleft, hfirst, hlast, hlt⟩
    exact .order hslash hleft hfirst hlast hlt

/-- A text is reported exactly where it is refused, and with the reason that it is refused for:
the step behind its first slash if that is none, else the first of its pieces that is no value,
else the order of its ends. Nothing else is reported, and a range that runs downwards only where
both of its ends are values and there is no slash. -/
theorem read_eq_error_iff_refused (bounds : Bounds) (text : String) :
    (∀ diagnostic, read bounds text = .error diagnostic ↔
      ∃ reason, Refused bounds text.toList reason ∧ diagnostic = .value reason) ∧
    (read bounds text = .error
        (.value ("range start must be <= end in " ++ ("'" ++ text ++ "'"))) ↔
      '/' ∉ text.toList ∧ ∃ left right first last, text.toList = left ++ '-' :: right ∧
        '-' ∉ left ∧ bounds.value? left = some first ∧ bounds.value? right = some last ∧
          last < first) := by
  have hread (diagnostic : Diagnostic) : read bounds text = .error diagnostic ↔
      ∃ reason, Refused bounds text.toList reason ∧ diagnostic = .value reason := by
    rw [read_eq_error_iff_parse]
    constructor
    · rintro ⟨fault, hparse, rfl⟩
      exact ⟨fault.message, refused_of_parse hparse, rfl⟩
    · rintro ⟨reason, hrefused, rfl⟩
      obtain ⟨fault, hparse, rfl⟩ := parse_of_refused hrefused
      exact ⟨fault, hparse, rfl⟩
  refine ⟨hread, ?_⟩
  rw [hread, ← refused_order_iff, String.ofList_toList]
  constructor
  · rintro ⟨reason, hrefused, hreason⟩
    cases hreason
    exact hrefused
  · intro hrefused
    exact ⟨_, hrefused, rfl⟩

/-- Of two entries that are no values the left one is quoted. -/
example : parse ⟨0, 59⟩ ['1', ',', '9', '9', ',', 'x'] =
    .error (.badValue ['9', '9'] ['1', ',', '9', '9', ',', 'x'] ⟨0, 59⟩) := by
  cbv

end Pattern

end Recurrence

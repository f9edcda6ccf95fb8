import Recurrence.Proofs.WrittenForm

/-!
The words of a text are its maximal runs of characters that are not white space.

A text is empty, or it starts with white space, or it starts with a run that ends before white
space or with the text (`Text.induction_on_runs`). By induction over these three the words of a
text are the runs between white space and the ends of the text, each with the number of bytes
before it (`Text.mem_wordsFrom_iff`), and they are listed in the order of the text with at least
one byte between two of them (`Text.pairwise_wordsFrom`). The span of a run starts and ends
between characters, and what stands there is the run (`Text.IsRunFrom.slice?_span`).
-/

set_option autoImplicit false
set_option relaxedAutoImplicit false

namespace Recurrence.Text

/-! ### Bytes -/

section

variable {characters : List Char}

@[simp]
theorem byteCount_nil : byteCount [] = 0 :=
  rfl

@[simp]
theorem byteCount_cons (character : Char) (rest : List Char) :
    byteCount (character :: rest) = character.utf8Size + byteCount rest :=
  rfl

@[simp]
theorem byteCount_append (front back : List Char) :
    byteCount (front ++ back) = byteCount front + byteCount back := by
  induction front with
  | nil => rw [List.nil_append, byteCount_nil, Nat.zero_add]
  | cons character rest ih =>
    rw [List.cons_append, byteCount_cons, ih, byteCount_cons, Nat.add_assoc]

/-- Characters take up bytes. -/
theorem byteCount_pos (h : characters ≠ []) : 0 < byteCount characters := by
  cases characters with
  | nil => exact absurd rfl h
  | cons character rest => exact Nat.add_pos_left character.utf8Size_pos _

/-- What stands at the front of a text is found by its bytes. -/
theorem slice?_front (letters after : List Char) :
    slice? ⟨0, byteCount letters⟩ (letters ++ after) = some letters := by
  induction letters with
  | nil => cases after <;> simp [slice?]
  | cons character rest ih =>
    have hsize := character.utf8Size_pos
    rw [List.cons_append, slice?, byteCount_cons]
    dsimp only
    rw [if_neg (by omega), if_neg (by omega), if_pos rfl, Nat.add_sub_cancel_left, ih,
      Option.map_some]

/-- What stands in a text is found by the bytes before it and its own. -/
theorem slice?_append (before letters after : List Char) :
    slice? ⟨byteCount before, byteCount before + byteCount letters⟩
      (before ++ (letters ++ after)) = some letters := by
  induction before with
  | nil => rw [byteCount_nil, Nat.zero_add, List.nil_append, slice?_front]
  | cons character rest ih =>
    have hsize := character.utf8Size_pos
    rw [List.cons_append, slice?, byteCount_cons]
    dsimp only
    rw [if_neg (by omega), if_neg (by omega), if_neg (by omega), if_neg (by omega),
      Nat.add_assoc, Nat.add_sub_cancel_left, Nat.add_sub_cancel_left, ih]

end

/-! ### Runs -/

/-- Characters that are not white space, between white space or the ends of a text. -/
structure IsMaximal (before letters after : List Char) : Prop where
  ne_nil : letters ≠ []
  unblank : ∀ c ∈ letters, isBlank c = false
  blankBefore : ∀ c ∈ before.getLast?, isBlank c = true
  blankAfter : ∀ c ∈ after.head?, isBlank c = true

/-- A word is a maximal run of a text that starts after so many bytes. -/
def IsRunFrom (start : Nat) (text : List Char) (word : Word) : Prop :=
  ∃ before after, text = before ++ (word.letters ++ after) ∧
    word.start = start + byteCount before ∧ IsMaximal before word.letters after

/-- A text is empty, or starts with white space, or starts with a run. -/
@[elab_as_elim]
theorem induction_on_runs {motive : List Char → Prop} (text : List Char) (nil : motive [])
    (blank : ∀ character rest, isBlank character = true → motive rest →
      motive (character :: rest))
    (run : ∀ letters rest, IsMaximal [] letters rest → motive rest → motive (letters ++ rest)) :
    motive text := by
  induction 0, text using wordsFrom.induct with
  | case1 => exact nil
  | case2 _ character rest hblank ih => exact blank character rest hblank ih
  | case3 _ character rest hblank letters ih =>
    have hsplit : character :: rest = letters ++ rest.dropWhile (!isBlank ·) := by
      rw [List.cons_append, List.takeWhile_append_dropWhile]
    rw [hsplit]
    refine run _ _ ⟨List.cons_ne_nil _ _, ?_, nofun, ?_⟩ ih
    · intro c hc
      rcases List.mem_cons.mp hc with rfl | hc
      · exact Bool.eq_false_of_not_eq_true hblank
      · simpa using List.mem_takeWhile_imp hc
    · intro c hc
      have hstop := List.head?_dropWhile_not (!isBlank ·) rest
      rw [hc] at hstop
      simpa using hstop

section

variable {start : Nat} {before letters after rest text : List Char} {word : Word}

/-- A run does not stand at the front of a text that starts with white space. -/
theorem IsMaximal.before_ne_nil (h : IsMaximal before letters after)
    (hhead : ∀ c ∈ (before ++ (letters ++ after)).head?, isBlank c = true) : before ≠ [] := by
  rintro rfl
  cases hletters : letters with
  | nil => exact h.ne_nil hletters
  | cons first others =>
    have hblank := hhead first (by rw [hletters]; rfl)
    rw [h.unblank first (by rw [hletters]; exact List.mem_cons_self)] at hblank
    cases hblank

/-- A run that starts with a text is the first run of the text. -/
theorem wordsFrom_run (h : IsMaximal [] letters rest) (start : Nat) :
    wordsFrom start (letters ++ rest) =
      ⟨start, letters⟩ :: wordsFrom (start + byteCount letters) rest :=
  wordsFrom_append h.ne_nil h.unblank h.blankAfter start

/-- White space at the front of a text is no part of a run. -/
theorem isRunFrom_cons_of_isBlank {character : Char} (hblank : isBlank character = true) :
    IsRunFrom start (character :: rest) word ↔
      IsRunFrom (start + character.utf8Size) rest word := by
  constructor
  · intro h
    obtain ⟨before, after, htext, hstart, hmaximal⟩ := h
    have hne := hmaximal.before_ne_nil (by rw [← htext]; rintro c ⟨⟩; exact hblank)
    obtain ⟨first, others, rfl⟩ := List.exists_cons_of_ne_nil hne
    obtain ⟨rfl, rfl⟩ := List.cons.inj htext
    rw [byteCount_cons, ← Nat.add_assoc] at hstart
    refine ⟨others, after, rfl, hstart, { hmaximal with blankBefore := fun c hc ↦ ?_ }⟩
    exact hmaximal.blankBefore c (by rw [List.getLast?_cons, hc]; rfl)
  · intro h
    obtain ⟨before, after, rfl, hstart, hmaximal⟩ := h
    rw [Nat.add_assoc, ← byteCount_cons] at hstart
    refine ⟨character :: before, after, rfl, hstart, { hmaximal with blankBefore := ?_ }⟩
    intro c hc
    rw [List.getLast?_cons] at hc
    cases hlast : before.getLast? with
    | none =>
      rw [hlast] at hc
      cases hc
      exact hblank
    | some last =>
      rw [hlast] at hc
      cases hc
      exact hmaximal.blankBefore _ hlast

/-- The runs of a text that starts with a run are this one and those of the rest. -/
theorem isRunFrom_append (h : IsMaximal [] letters rest) :
    IsRunFrom start (letters ++ rest) word ↔
      word = ⟨start, letters⟩ ∨ IsRunFrom (start + byteCount letters) rest word := by
  constructor
  · intro hrun
    obtain ⟨before, after, htext, hstart, hmaximal⟩ := hrun
    by_cases hbefore : before = []
    · subst hbefore
      -- Both runs are the first word of the same text.
      have hfirst := wordsFrom_run h start
      rw [htext, List.nil_append, wordsFrom_run hmaximal] at hfirst
      rw [byteCount_nil, Nat.add_zero] at hstart
      refine Or.inl ?_
      rw [← (List.cons.inj hfirst).1, ← hstart]
    · refine Or.inr ?_
      rcases List.append_eq_append_iff.mp htext with ⟨middle, rfl, rfl⟩ | ⟨front, rfl, -⟩
      · refine ⟨middle, after, rfl, ?_, { hmaximal with blankBefore := fun c hc ↦ ?_ }⟩
        · rw [hstart, byteCount_append, Nat.add_assoc]
        · exact hmaximal.blankBefore c (by rw [List.getLast?_append, hc]; rfl)
      · have hlast := hmaximal.blankBefore _ (List.getLast?_eq_some_getLast hbefore)
        rw [h.unblank _ (List.mem_append_left _ (List.getLast_mem hbefore))] at hlast
        cases hlast
  · intro hrun
    rcases hrun with rfl | ⟨before, after, rfl, hstart, hmaximal⟩
    · exact ⟨[], rest, rfl, rfl, h⟩
    · have hne := hmaximal.before_ne_nil h.blankAfter
      refine ⟨letters ++ before, after, (List.append_assoc _ _ _).symm, ?_,
        { hmaximal with blankBefore := ?_ }⟩
      · rw [hstart, byteCount_append, Nat.add_assoc]
      · rw [List.getLast?_append_of_ne_nil _ hne]
        exact hmaximal.blankBefore

/-- The words of a text are its maximal runs. -/
theorem mem_wordsFrom_iff : word ∈ wordsFrom start text ↔ IsRunFrom start text word := by
  induction text using induction_on_runs generalizing start with
  | nil =>
    rw [wordsFrom]
    refine iff_of_false List.not_mem_nil fun hrun ↦ ?_
    obtain ⟨before, after, htext, -, hmaximal⟩ := hrun
    rw [List.nil_eq_append_iff, List.append_eq_nil_iff] at htext
    exact hmaximal.ne_nil htext.2.1
  | blank character rest hblank ih =>
    rw [wordsFrom_cons_of_isBlank hblank, ih, isRunFrom_cons_of_isBlank hblank]
  | run letters rest hmaximal ih =>
    rw [wordsFrom_run hmaximal, List.mem_cons, ih, isRunFrom_append hmaximal]

/-- White space counts with all of its bytes, and so do letters. -/
example : words ['\u2003', '9', '\t', 'ü', '5'] = [⟨3, ['9']⟩, ⟨5, ['ü', '5']⟩] := by
  cbv

/-! ### Places -/

/-- Behind white space at the front of a text a run starts later than the text. -/
theorem IsRunFrom.lt_start (h : IsRunFrom start text word)
    (hhead : ∀ c ∈ text.head?, isBlank c = true) : start < word.start := by
  obtain ⟨before, after, rfl, hstart, hmaximal⟩ := h
  have hbytes := byteCount_pos (hmaximal.before_ne_nil hhead)
  omega

/-- The words of a text are listed in order, and none touches the next. -/
theorem pairwise_wordsFrom (start : Nat) (text : List Char) :
    (wordsFrom start text).Pairwise fun first second ↦ first.span.stop < second.span.start := by
  induction text using induction_on_runs generalizing start with
  | nil =>
    rw [wordsFrom]
    exact List.Pairwise.nil
  | blank character rest hblank ih =>
    rw [wordsFrom_cons_of_isBlank hblank]
    exact ih _
  | run letters rest hmaximal ih =>
    rw [wordsFrom_run hmaximal, List.pairwise_cons]
    refine ⟨fun word hword ↦ ?_, ih _⟩
    exact (mem_wordsFrom_iff.mp hword).lt_start hmaximal.blankAfter

/-- A run takes up bytes. -/
theorem IsRunFrom.span_start_lt_stop (h : IsRunFrom start text word) :
    word.span.start < word.span.stop := by
  obtain ⟨before, after, -, -, hmaximal⟩ := h
  exact Nat.lt_add_of_pos_right (byteCount_pos hmaximal.ne_nil)

/-- What stands at the span of a run is the run. -/
theorem IsRunFrom.slice?_span (h : IsRunFrom 0 text word) :
    slice? word.span text = some word.letters := by
  obtain ⟨before, after, rfl, hstart, -⟩ := h
  rw [Word.span, hstart, Nat.zero_add, slice?_append]

end

end Recurrence.Text

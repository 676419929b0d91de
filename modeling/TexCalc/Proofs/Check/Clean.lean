import TexCalc.Check.Issues
import TexCalc.Check.Matching

/-!
# Lexemes without issues

The issues of a formula are found lexeme by lexeme, with the lexemes in front and the
delimiters still open there at hand.  The open delimiters form a stack: an opening delimiter is put
on it, and a closing one takes off the nearest one of its kind with all that is above it, or nothing
when there is none of its kind.  A list of lexemes is clean when none of its lexemes is at fault, no
bar stands by itself, and the open delimiters are closed in turn.
-/

namespace TexCalc

/-! ## The open delimiters -/

namespace DelimiterEvent

/-- Whether an open delimiter is of another kind than the given one. -/
def isOther (event opened : DelimiterEvent) : Bool :=
  !(opened.delimiter == event.delimiter)

/-- No open delimiter is of the kind of the given one. -/
def IsApart (event : DelimiterEvent) (stack : List DelimiterEvent) : Prop :=
  ∀ opened ∈ stack, event.isOther opened = true

section

variable {event opened : DelimiterEvent} {stack inner outer rest : List DelimiterEvent}

/-- The open delimiters up to the nearest one that a delimiter closes, if there is such a one. -/
theorem isApart_or_exists (event : DelimiterEvent) (stack : List DelimiterEvent) :
    event.IsApart stack ∨ ∃ inner opened outer, stack = inner ++ opened :: outer ∧
      event.IsApart inner ∧ event.isOther opened = false := by
  induction stack with
  | nil => exact .inl (List.forall_mem_nil _)
  | cons first stack ih =>
      cases other : event.isOther first with
      | false => exact .inr ⟨[], first, stack, rfl, List.forall_mem_nil _, other⟩
      | true =>
          rcases ih with apart | ⟨inner, opened, outer, rfl, apart, partner⟩
          · exact .inl (List.forall_mem_cons.2 ⟨other, apart⟩)
          · exact .inr ⟨first :: inner, opened, outer, rfl, List.forall_mem_cons.2 ⟨other, apart⟩,
              partner⟩

theorem delimiter_eq (partner : event.isOther opened = false) :
    opened.delimiter = event.delimiter := by
  simpa [isOther] using partner

theorem takeWhile_isOther (apart : event.IsApart inner) (partner : event.isOther opened = false) :
    (inner ++ opened :: outer).takeWhile event.isOther = inner := by
  rw [List.takeWhile_append_of_pos apart, List.takeWhile_cons_of_neg (by simp [partner]),
    List.append_nil]

theorem dropWhile_isOther (apart : event.IsApart inner) (partner : event.isOther opened = false) :
    (inner ++ opened :: outer).dropWhile event.isOther = opened :: outer := by
  rw [List.dropWhile_append_of_pos apart, List.dropWhile_cons_of_neg (by simp [partner])]

theorem unmatchedIn_opening (opens : event.opens = true) :
    unmatchedIn stack (event :: rest) = unmatchedIn (event :: stack) rest := by
  rw [unmatchedIn, if_pos opens]

theorem unmatchedIn_closing (closes : event.opens = false) (apart : event.IsApart inner)
    (partner : event.isOther opened = false) :
    unmatchedIn (inner ++ opened :: outer) (event :: rest) =
      inner.map unclosed ++ unmatchedIn outer rest := by
  have isAny : (inner ++ opened :: outer).any (·.delimiter == event.delimiter) = true := by
    simp [delimiter_eq partner]
  rw [unmatchedIn, closes, if_neg Bool.false_ne_true]
  simp only [isAny, if_true]
  change ((inner ++ opened :: outer).takeWhile event.isOther).map unclosed ++
    unmatchedIn ((inner ++ opened :: outer).dropWhile event.isOther).tail rest = _
  rw [takeWhile_isOther apart partner, dropWhile_isOther apart partner, List.tail_cons]

theorem unmatchedIn_stray (closes : event.opens = false) (apart : event.IsApart stack) :
    unmatchedIn stack (event :: rest) = event.unopened :: unmatchedIn stack rest := by
  have none : stack.any (·.delimiter == event.delimiter) = false := by
    rw [List.any_eq_false]
    intro opened isMember
    simpa [isOther] using apart opened isMember
  rw [unmatchedIn, closes, if_neg Bool.false_ne_true]
  simp only [none, Bool.false_eq_true, if_false]

end

/-- A delimiter opens a pair, or it closes the nearest open pair of its kind, or it closes
nothing. -/
theorem walk_induction {motive : List DelimiterEvent → List DelimiterEvent → Prop}
    (nil : ∀ stack, motive stack [])
    (opening : ∀ stack event rest, event.opens = true → motive (event :: stack) rest →
      motive stack (event :: rest))
    (closing : ∀ inner opened outer event rest, event.opens = false → event.IsApart inner →
      event.isOther opened = false → motive outer rest →
        motive (inner ++ opened :: outer) (event :: rest))
    (stray : ∀ stack event rest, event.opens = false → event.IsApart stack → motive stack rest →
      motive stack (event :: rest))
    (stack events : List DelimiterEvent) : motive stack events := by
  induction events generalizing stack with
  | nil => exact nil stack
  | cons event rest ih =>
      cases opens : event.opens with
      | true => exact opening stack event rest opens (ih _)
      | false =>
          rcases isApart_or_exists event stack with apart | ⟨inner, opened, outer, rfl, apart, partner⟩
          · exact stray stack event rest opens apart (ih _)
          · exact closing inner opened outer event rest opens apart partner (ih _)

/-- What a delimiter does to the delimiters that are open, the last one first. -/
inductive Settles (event : DelimiterEvent) :
    List DelimiterEvent → List DelimiterEvent → Prop where
  | opening {stack : List DelimiterEvent} (opens : event.opens = true) :
      Settles event stack (event :: stack)
  | closing {opened : DelimiterEvent} {stack : List DelimiterEvent} (closes : event.opens = false)
      (partner : opened.delimiter = event.delimiter) : Settles event (opened :: stack) stack

/-- Where nothing is reported, a delimiter closes the one that was opened last or is opened itself. -/
theorem exists_settles {event : DelimiterEvent} {stack rest : List DelimiterEvent}
    (none : unmatchedIn stack (event :: rest) = []) :
    ∃ later, event.Settles stack later ∧ unmatchedIn later rest = [] := by
  cases opens : event.opens with
  | true =>
      rw [unmatchedIn_opening opens] at none
      exact ⟨event :: stack, .opening opens, none⟩
  | false =>
      rcases isApart_or_exists event stack with apart | ⟨inner, opened, outer, rfl, apart, partner⟩
      · rw [unmatchedIn_stray opens apart] at none
        cases none
      · rw [unmatchedIn_closing opens apart partner, List.append_eq_nil_iff,
          List.map_eq_nil_iff] at none
        obtain ⟨rfl, behind⟩ := none
        exact ⟨outer, .closing opens (delimiter_eq partner), behind⟩

end DelimiterEvent

/-! ## Clean lexemes -/

theorem Issue.ofLexemes_eq_nil {text : Text} (noIssues : text.issues = []) :
    ofLexemes text.lexemes = [] := by
  have sorted := List.mergeSort_perm (ofLexemes text.lexemes)
    fun first second => first.offset ≤ second.offset
  rw [show List.mergeSort _ _ = [] from noIssues] at sorted
  exact sorted.nil_eq.symm

/-- No issue arises from a list of lexemes, `before` being the lexemes in front of it, nearest
first, and `stack` the delimiters that are open there. -/
structure Lexeme.IsClean (before : List Lexeme) (stack : List DelimiterEvent)
    (lexemes : List Lexeme) : Prop where
  faultless : ∀ focus ∈ Focus.allFrom before lexemes, focus.fault? = none
  barless : ∀ focus ∈ Focus.allFrom before lexemes, focus.isBar = false
  matched : DelimiterEvent.unmatchedIn stack
    ((Focus.allFrom before lexemes).filterMap Focus.event?) = []

namespace Lexeme.IsClean

variable {before after : List Lexeme} {here : Lexeme} {stack : List DelimiterEvent}

theorem nil (before : List Lexeme) : IsClean before [] [] :=
  ⟨by simp [Focus.allFrom], by simp [Focus.allFrom], rfl⟩

section

variable (noFault : Focus.fault? ⟨before, here, after⟩ = none)
  (noBar : Focus.isBar ⟨before, here, after⟩ = false)

include noFault noBar

/-- A lexeme that is no delimiter. -/
theorem pass (noEvent : Focus.event? ⟨before, here, after⟩ = none)
    (clean : IsClean (here :: before) stack after) : IsClean before stack (here :: after) where
  faultless := by
    rw [Focus.allFrom, List.forall_mem_cons]
    exact ⟨noFault, clean.faultless⟩
  barless := by
    rw [Focus.allFrom, List.forall_mem_cons]
    exact ⟨noBar, clean.barless⟩
  matched := by
    rw [Focus.allFrom, List.filterMap_cons_none noEvent]
    exact clean.matched

/-- A delimiter that is opened, or closes the one that was opened last. -/
theorem settle {event : DelimiterEvent} {later : List DelimiterEvent}
    (isEvent : Focus.event? ⟨before, here, after⟩ = some event)
    (settles : event.Settles stack later) (clean : IsClean (here :: before) later after) :
    IsClean before stack (here :: after) where
  faultless := by
    rw [Focus.allFrom, List.forall_mem_cons]
    exact ⟨noFault, clean.faultless⟩
  barless := by
    rw [Focus.allFrom, List.forall_mem_cons]
    exact ⟨noBar, clean.barless⟩
  matched := by
    rw [Focus.allFrom, List.filterMap_cons_some isEvent, DelimiterEvent.unmatchedIn]
    cases settles with
    | opening opens =>
        rw [if_pos opens]
        exact clean.matched
    | closing closes partner => simpa [closes, partner] using clean.matched

end

/-! ## What is clean behind the first lexeme -/

theorem of_pass (clean : IsClean before stack (here :: after))
    (noEvent : Focus.event? ⟨before, here, after⟩ = none) :
    IsClean (here :: before) stack after where
  faultless focus isFocus := clean.faultless focus (List.mem_cons_of_mem _ isFocus)
  barless focus isFocus := clean.barless focus (List.mem_cons_of_mem _ isFocus)
  matched := by
    have matched := clean.matched
    rwa [Focus.allFrom, List.filterMap_cons_none noEvent] at matched

/-- A delimiter closes the one that was opened last, or is opened itself, for none is given up. -/
theorem of_event {event : DelimiterEvent} (clean : IsClean before stack (here :: after))
    (isEvent : Focus.event? ⟨before, here, after⟩ = some event) :
    ∃ later, event.Settles stack later ∧ IsClean (here :: before) later after := by
  have matched := clean.matched
  rw [Focus.allFrom, List.filterMap_cons_some isEvent] at matched
  obtain ⟨later, settles, behind⟩ := DelimiterEvent.exists_settles matched
  refine ⟨later, settles, ?_, ?_, behind⟩
  · exact fun focus isFocus => clean.faultless focus (List.mem_cons_of_mem _ isFocus)
  · exact fun focus isFocus => clean.barless focus (List.mem_cons_of_mem _ isFocus)

/-! ## Whole texts -/

/-- There are no issues in a text whose lexemes are clean. -/
theorem issues_eq_nil {text : Text} (clean : IsClean [] [] text.lexemes) : text.issues = [] := by
  have faults : (Focus.all text.lexemes).filterMap Focus.issue? = [] := by
    rw [List.filterMap_eq_nil_iff]
    intro focus isFocus
    rw [Focus.issue?, clean.faultless focus isFocus]
    rfl
  have delimiters : DelimiterEvent.unmatched (DelimiterEvent.ofLexemes text.lexemes) = [] :=
    clean.matched
  have bars : (Focus.all text.lexemes).filter Focus.isBar = [] := by
    rw [List.filter_eq_nil_iff]
    intro focus isFocus
    simp [clean.barless focus isFocus]
  have odd : Issue.oddBars? text.lexemes = none := by
    rw [Issue.oddBars?, bars]
    rfl
  rw [Text.issues, Issue.ofLexemes, faults, delimiters, odd]
  exact List.mergeSort_nil

/-- The lexemes of a text without issues are clean, when no bar stands by itself. -/
theorem of_issues_eq_nil {text : Text} (noIssues : text.issues = [])
    (barless : ∀ focus ∈ Focus.all text.lexemes, focus.isBar = false) :
    IsClean [] [] text.lexemes := by
  have unordered := Issue.ofLexemes_eq_nil noIssues
  simp only [Issue.ofLexemes, List.append_eq_nil_iff, List.filterMap_eq_nil_iff] at unordered
  obtain ⟨⟨faultless, matched⟩, _⟩ := unordered
  exact ⟨fun focus isFocus => Option.map_eq_none_iff.1 (faultless focus isFocus), barless, matched⟩

end Lexeme.IsClean

end TexCalc

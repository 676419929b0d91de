import TexCalc.Proofs.Inside.Closed
import TexCalc.Proofs.Linear.Endings
import TexCalc.Proofs.Linear.Steps
import TexCalc.Proofs.Text.Characters
import TexCalc.Proofs.Vocabulary.Standard

/-!
# Text in front of a trail

A trail is text that begins, blanks apart, with a closing parenthesis or brace, or ends.  Every
reader of the linear form leaves a trail behind: what is read from a text is read from the text in
front of a trail as well, and the trail follows what is left.  Where groups are read, the trail
must have no part in those that are opened in the text.
-/

namespace TexCalc

/-- Blanks, closing parentheses and closing braces: no reader goes on with them. -/
def isStop (c : Char) : Bool :=
  isBlank c || c == ')' || c == '\x7d'

theorem isStop_of_isBlank {c : Char} (blank : isBlank c = true) : isStop c = true := by
  rw [isStop, blank]
  rfl

/-- What holds for no blank and for no closing bracket holds for no stop. -/
theorem eq_false_of_isStop {accept : Char → Bool}
    (blanks : ∀ {c : Char}, isBlank c = true → accept c = false) (round : accept ')' = false)
    (curly : accept '\x7d' = false) {c : Char} (stop : isStop c = true) : accept c = false := by
  simp only [isStop, Bool.or_eq_true, beq_iff_eq] at stop
  rcases stop with (blank | rfl) | rfl
  · exact blanks blank
  · exact round
  · exact curly

theorem isBaseChar_of_isStop {c : Char} (stop : isStop c = true) : isBaseChar c = false := by
  refine eq_false_of_isStop (fun {c} blank => ?_) rfl rfl stop
  cases base : isBaseChar c with
  | false => rfl
  | true =>
      rw [isBlank_eq_false_of_isBaseChar base] at blank
      cases blank

theorem isAlphanum_of_isStop {c : Char} (stop : isStop c = true) : c.isAlphanum = false := by
  have other := isBaseChar_of_isStop stop
  rw [isBaseChar, Bool.or_eq_false_iff] at other
  exact other.1

theorem isAlpha_of_isStop {c : Char} (stop : isStop c = true) : c.isAlpha = false := by
  have other := isAlphanum_of_isStop stop
  rw [Char.isAlphanum, Bool.or_eq_false_iff] at other
  exact other.1

theorem isDigit_of_isStop {c : Char} (stop : isStop c = true) : c.isDigit = false := by
  have other := isAlphanum_of_isStop stop
  rw [Char.isAlphanum, Bool.or_eq_false_iff] at other
  exact other.2

theorem ne_of_isStop {c other : Char} (stop : isStop c = true) (goesOn : isStop other = false) :
    c ≠ other := by
  rintro rfl
  rw [stop] at goesOn
  cases goesOn

theorem Bracket.ofArgument?_of_isStop {c : Char} (stop : isStop c = true) :
    ofArgument? c = none := by
  rw [ofArgument?, List.find?_eq_none]
  rintro bracket isMember same
  have goesOn : isStop bracket.opener = false := by cases bracket <;> decide
  exact ne_of_isStop stop goesOn (eq_of_beq same).symm

namespace Text

/-- Nothing but blanks stands in front of a closing bracket or the end of the text. -/
def IsTrail (trail : Text) : Prop :=
  trail.skipBlanks.head?.all isStop = true

namespace IsTrail

variable {trail : Text}

theorem of_isStop {c : Char} (visible : isAsciiBlank c = false) (stop : isStop c = true)
    (rest : Text) : IsTrail (c :: rest) := by
  simp [IsTrail, skipBlanks, visible, stop]

theorem of_isAllBlank (blank : trail.isAllBlank = true) : trail.IsTrail := by
  rw [IsTrail]
  cases start : trail.skipBlanks with
  | nil => rfl
  | cons c rest =>
      have isMember : c ∈ trail := by
        refine (List.dropWhile_suffix isAsciiBlank).subset ?_
        rw [← skipBlanks, start]
        exact List.mem_cons_self
      exact isStop_of_isBlank (List.all_eq_true.1 blank c isMember)

theorem skipBlanks (isTrail : trail.IsTrail) : trail.skipBlanks.IsTrail := by
  rwa [IsTrail, skipBlanks_skipBlanks]

theorem head (isTrail : trail.IsTrail) : trail.head?.all isStop = true := by
  cases trail with
  | nil => rfl
  | cons c rest =>
      cases blank : isAsciiBlank c with
      | true => exact isStop_of_isBlank (isBlank_of_isAsciiBlank blank)
      | false =>
          rw [IsTrail, Text.skipBlanks, List.dropWhile_cons_of_neg (by simp [blank])] at isTrail
          exact isTrail

theorem endsRun {accept : Char → Bool} (isTrail : trail.IsTrail)
    (refused : ∀ {c : Char}, isStop c = true → accept c = false) :
    trail.endsRun accept = true := by
  have stops := isTrail.head
  cases trail with
  | nil => rfl
  | cons c rest => simp [Text.endsRun, refused (show isStop c = true from stops)]

/-- A step that leaves stops where they are leaves a trail. -/
theorem map {step : Text → Text} (nil : step [] = [])
    (cons : ∀ (c : Char) (rest : Text), isStop c = true → step (c :: rest) = c :: step rest)
    (isTrail : trail.IsTrail) : (step trail).IsTrail := by
  induction trail with
  | nil =>
      rw [nil]
      rfl
  | cons c rest ih =>
      have stop : isStop c = true := isTrail.head
      rw [cons c rest stop]
      cases blank : isAsciiBlank c with
      | false => exact .of_isStop blank stop _
      | true =>
          have later : IsTrail rest := by
            rwa [IsTrail, Text.skipBlanks, List.dropWhile_cons_of_pos blank] at isTrail
          rw [IsTrail, Text.skipBlanks, List.dropWhile_cons_of_pos blank]
          exact ih later

end IsTrail

variable {text trail : Text}

/-- Behind blanks there is the same as before, and the trail, or nothing that goes on. -/
theorem skipBlanks_trail (text trail : Text) : skipBlanks (text ++ trail) =
    if text.skipBlanks = [] then trail.skipBlanks else text.skipBlanks ++ trail := by
  split
  · rename_i nothing
    rw [skipBlanks, List.dropWhile_append, if_pos (by rw [← skipBlanks, nothing]; rfl)]
    rfl
  · rename_i some
    exact skipBlanks_append some

theorem skipBlanks_trail_cons {c : Char} {rest : Text} (start : text.skipBlanks = c :: rest)
    (trail : Text) : skipBlanks (text ++ trail) = c :: (rest ++ trail) := by
  rw [skipBlanks_trail, start, if_neg (List.cons_ne_nil c rest), List.cons_append]

theorem skipBlanks_trail_nil (start : text.skipBlanks = []) (trail : Text) :
    skipBlanks (text ++ trail) = trail.skipBlanks := by
  rw [skipBlanks_trail, start, if_pos rfl]

/-- When the outcome changes in the same way for each candidate, so does that of a search. -/
theorem findSome?_map_of_mem {candidate outcome : Type} {candidates : List candidate}
    {first second : candidate → Option outcome} {change : outcome → outcome}
    (same : ∀ name ∈ candidates, second name = (first name).map change) :
    candidates.findSome? second = (candidates.findSome? first).map change := by
  induction candidates with
  | nil => rfl
  | cons name candidates ih =>
      rw [List.forall_mem_cons] at same
      rw [List.findSome?_cons, List.findSome?_cons, same.1]
      cases first name with
      | none => exact ih same.2
      | some found => rfl

theorem goesOn_name (name : Name) : name.text.all (!isStop ·) = true := by
  rw [List.all_eq_true]
  intro c isMember
  cases stop : isStop c with
  | false => rfl
  | true =>
      have word := List.all_eq_true.1 name.all_isAlphanum c isMember
      rw [isAlphanum_of_isStop stop] at word
      cases word

theorem goesOn_parked (parked : Parked) : parked.name.all (!isStop ·) = true := by
  rcases parked with ⟨function, inverse⟩
  cases function <;> cases inverse <;> decide

theorem constantAt?_nil (vocabulary : Vocabulary) : vocabulary.constantAt? [] = none := by
  cases found : vocabulary.constantAt? [] with
  | none => rfl
  | some pair =>
      obtain ⟨name, rest⟩ := pair
      have whole := Vocabulary.eq_of_constantAt? found
      exact absurd (List.append_eq_nil_iff.1 whole.symm).1 name.text_ne_nil

theorem callableAt?_nil (vocabulary : Vocabulary) : vocabulary.callableAt? [] = none := by
  cases found : vocabulary.callableAt? [] with
  | none => rfl
  | some pair =>
      obtain ⟨callable, rest⟩ := pair
      have whole := Vocabulary.eq_of_callableAt? found
      exact absurd (List.append_eq_nil_iff.1 whole.symm).1 callable.text_ne_nil

section

variable (isTrail : trail.IsTrail)

include isTrail

/-! ## Names -/

theorem dropLead?_trail {lead : Text} (goesOn : lead.all (!isStop ·) = true) (text : Text) :
    dropLead? (text ++ trail) lead = (dropLead? text lead).map (· ++ trail) := by
  induction lead generalizing text with
  | nil => simp [dropLead?]
  | cons l lead ih =>
      rw [List.all_cons, Bool.and_eq_true, Bool.not_eq_true'] at goesOn
      cases text with
      | nil =>
          have stops := isTrail.head
          cases trail with
          | nil => rfl
          | cons c trail => exact if_neg (ne_of_isStop stops goesOn.1)
      | cons c text =>
          simp only [List.cons_append, dropLead?]
          split
          · exact ih goesOn.2 text
          · rfl

theorem after?_trail (name : Name) (text : Text) :
    name.after? (text ++ trail) = (name.after? text).map (· ++ trail) := by
  rw [Name.after?, Name.after?, dropLead?_trail isTrail (goesOn_name name)]
  cases text.dropLead? name.text with
  | none => rfl
  | some rest =>
      have boundary : isBoundary (rest ++ trail) = rest.isBoundary := by
        cases rest with
        | nil =>
            rw [List.nil_append, isBoundary_eq_endsRun]
            exact isTrail.endsRun isAlphanum_of_isStop
        | cons => rfl
      simp only [Option.map_some, Option.filter_some, boundary]
      split <;> rfl

variable (vocabulary : Vocabulary)

theorem constantAt?_trail (text : Text) : vocabulary.constantAt? (text ++ trail) =
    (vocabulary.constantAt? text).map (Prod.map id (· ++ trail)) := by
  refine findSome?_map_of_mem fun name _ => ?_
  rw [after?_trail isTrail, Option.map_map, Option.map_map]
  rfl

theorem parkedAt?_trail (text : Text) : Parked.read? (text ++ trail) =
    (Parked.read? text).map (Prod.map id (· ++ trail)) := by
  refine findSome?_map_of_mem fun parked _ => ?_
  rw [dropLead?_trail isTrail (goesOn_parked parked), Option.map_map, Option.map_map]
  rfl

theorem callableAt?_trail (text : Text) : vocabulary.callableAt? (text ++ trail) =
    (vocabulary.callableAt? text).map (Prod.map id (· ++ trail)) := by
  have functions : (vocabulary.namesOf .function).findSome? (fun name =>
        ((text ++ trail).dropLead? name.text).map (name, ·)) =
      ((vocabulary.namesOf .function).findSome? fun name =>
        (text.dropLead? name.text).map (name, ·)).map (Prod.map id (· ++ trail)) := by
    refine findSome?_map_of_mem fun name _ => ?_
    rw [dropLead?_trail isTrail (goesOn_name name), Option.map_map, Option.map_map]
    rfl
  unfold Vocabulary.callableAt?
  rw [functions, parkedAt?_trail isTrail]
  generalize (vocabulary.namesOf .function).findSome? _ = found
  cases found with
  | some found => rfl
  | none => cases Parked.read? text <;> rfl

/-! ## Nothing is read from a trail -/

theorem constantAt?_of_isTrail : vocabulary.constantAt? trail = none := by
  rw [← List.nil_append trail, constantAt?_trail isTrail, constantAt?_nil]
  rfl

theorem callableAt?_of_isTrail : vocabulary.callableAt? trail = none := by
  rw [← List.nil_append trail, callableAt?_trail isTrail, callableAt?_nil]
  rfl

theorem exponent?_of_isTrail : trail.exponent? vocabulary = none := by
  have stops := isTrail.skipBlanks
  rw [exponent?]
  cases start : trail.skipBlanks with
  | nil => rfl
  | cons c rest =>
      rw [start] at stops
      have stop : isStop c = true := stops.head
      simp only [Bracket.ofArgument?_of_isStop stop, constantAt?_of_isTrail stops,
        isAlphanum_of_isStop stop]
      rfl

/-! ## Operands -/

theorem afterLetters_trail (text : Text) :
    afterLetters vocabulary (text ++ trail) = text.afterLetters vocabulary ++ trail := by
  induction text with
  | nil =>
      have stops := isTrail.head
      cases trail with
      | nil => rfl
      | cons c rest => simp [afterLetters, isAlpha_of_isStop (show isStop c = true from stops)]
  | cons c rest ih =>
      rw [List.cons_append, afterLetters, afterLetters, ← List.cons_append,
        callableAt?_trail isTrail, Option.isNone_map]
      split
      · exact ih
      · rfl

theorem afterLetterRun_trail (text : Text) :
    afterLetterRun vocabulary (text ++ trail) = text.afterLetterRun vocabulary ++ trail := by
  cases text with
  | nil =>
      have stops := isTrail.head
      cases trail with
      | nil => rfl
      | cons c rest => simp [afterLetterRun, isAlpha_of_isStop (show isStop c = true from stops)]
  | cons c rest =>
      rw [List.cons_append, afterLetterRun, afterLetterRun, afterLetters_trail isTrail]
      split <;> rfl

theorem afterTouching_trail (text : Text) :
    afterTouching vocabulary (text ++ trail) = text.afterTouching vocabulary ++ trail := by
  rw [afterTouching, afterTouching, constantAt?_trail isTrail, afterLetterRun_trail isTrail]
  cases vocabulary.constantAt? text <;> rfl

theorem afterNumeral_trail (text : Text) :
    afterNumeral (text ++ trail) = text.afterNumeral ++ trail := by
  have noDigit : endsRun isDecimalDigit trail = true := isTrail.endsRun fun stop =>
    eq_false_of_isStop isDecimalDigit_eq_false_of_isBlank (by decide) (by decide) stop
  have stops := isTrail.head
  unfold afterNumeral
  rw [dropWhile_append_rest text noDigit]
  match text.dropWhile isDecimalDigit with
  | [] =>
      cases trail with
      | nil => rfl
      | cons c rest =>
          have noPoint : c ≠ '.' := ne_of_isStop (show isStop c = true from stops) (by decide)
          simp [noPoint]
  | [c] =>
      by_cases point : c = '.'
      · subst point
        cases trail with
        | nil => rfl
        | cons c rest =>
            have noDigit : isDecimalDigit c = false := by simpa [endsRun] using noDigit
            simp [noDigit]
      · simp [point]
  | c :: digit :: rest =>
      by_cases point : c = '.'
      · subst point
        simp only [List.cons_append, List.tail_cons]
        rw [← List.cons_append, dropWhile_append_rest _ noDigit]
        split <;> rfl
      · simp [point]

theorem afterCoefficient_trail (text : Text) :
    afterCoefficient vocabulary (text ++ trail) = text.afterCoefficient vocabulary ++ trail := by
  simp only [afterCoefficient, afterNumeral_trail isTrail]
  cases start : text.afterNumeral.skipBlanks with
  | nil =>
      have stops := isTrail.skipBlanks
      have noLetter : trail.skipBlanks.head?.any Char.isAlpha = false := by
        have stop := stops.head
        cases begins : trail.skipBlanks with
        | nil => rfl
        | cons c rest =>
            rw [begins] at stop
            exact isAlpha_of_isStop stop
      simp only [skipBlanks_trail_nil start, constantAt?_of_isTrail stops, noLetter, constantAt?_nil,
        List.head?_nil, Option.any_none]
      rfl
  | cons c rest =>
      simp only [skipBlanks_trail_cons start]
      rw [← List.cons_append, constantAt?_trail isTrail, afterLetterRun_trail isTrail]
      cases vocabulary.constantAt? (c :: rest) with
      | some found => rfl
      | none =>
          simp only [Option.map_none, List.cons_append, List.head?_cons]
          exact (apply_ite (· ++ trail) _ _ _).symm

/-! ## Groups -/

variable {vocabulary}

theorem exponent?_trail (keeps : text.KeepsGroups trail) :
    exponent? vocabulary (text ++ trail) =
      (text.exponent? vocabulary).map fun exponent =>
        { exponent with rest := exponent.rest ++ trail } := by
  cases start : text.skipBlanks with
  | nil =>
      have nothing : text.exponent? vocabulary = none := by rw [exponent?, start]
      have unread := exponent?_of_isTrail isTrail.skipBlanks vocabulary
      rw [exponent?, skipBlanks_skipBlanks] at unread
      rw [nothing, exponent?, skipBlanks_trail_nil start, unread]
      rfl
  | cons c rest =>
      have ends : c :: rest <:+ text := start ▸ text.suffix_skipBlanks
      unfold exponent?
      simp only [start, skipBlanks_trail_cons start]
      cases isBracket : Bracket.ofArgument? c with
      | some bracket =>
          have same := opener_of_ofArgument? isBracket
          subst same
          simp only [keeps bracket rest (ne_square_of_ofArgument? isBracket) ends, Option.map_map]
          rfl
      | none =>
          rw [← List.cons_append, constantAt?_trail isTrail]
          cases vocabulary.constantAt? (c :: rest) with
          | some found => rfl
          | none =>
              simp only [Option.map_none]
              split <;> rfl

theorem afterAtom?_trail (keeps : text.KeepsGroups trail) :
    afterAtom? vocabulary (text ++ trail) = (text.afterAtom? vocabulary).map (· ++ trail) := by
  unfold afterAtom?
  rw [constantAt?_trail isTrail, callableAt?_trail isTrail, Option.isNone_map]
  cases vocabulary.constantAt? text with
  | some found => rfl
  | none =>
      cases text with
      | nil =>
          have stops := isTrail.head
          cases trail with
          | nil => rfl
          | cons c rest => simp [isAlpha_of_isStop (show isStop c = true from stops)]
      | cons c rest =>
          simp only [Option.map_none, List.cons_append]
          split
          · cases start : skipBlanks rest with
            | nil =>
                have stops := isTrail.skipBlanks.head
                simp only [skipBlanks_trail_nil start]
                cases begins : trail.skipBlanks with
                | nil => rfl
                | cons d later =>
                    rw [begins] at stops
                    have noCaret : d ≠ '^' :=
                      ne_of_isStop (show isStop d = true from stops) (by decide)
                    simp [noCaret]
            | cons d later =>
                simp only [skipBlanks_trail_cons start]
                by_cases caret : d = '^'
                · subst caret
                  have ends : later <:+ c :: rest :=
                    ((List.suffix_cons '^' later).trans
                      (start ▸ suffix_skipBlanks rest)).trans (List.suffix_cons c rest)
                  simp only [exponent?_trail isTrail (keeps.of_suffix ends)]
                  cases exponent? vocabulary later <;> rfl
                · simp [caret]
          · rfl

/-! ## Arguments in front of the renaming -/

/-- A backslash in a text that has words only is followed by a letter, and not by the trail. -/
theorem control?_trail (only : HasWordsOnly ('\\' :: text)) : Control.read? (text ++ trail) =
    (Control.read? text).map fun control => { control with rest := control.rest ++ trail } := by
  have ends := isTrail.endsRun isAlpha_of_isStop
  cases text with
  | nil => exact absurd List.mem_cons_self only
  | cons c rest =>
      simp only [List.cons_append, Control.read?, takeWhile_append_rest rest ends,
        dropWhile_append_rest rest ends]
      split <;> rfl

/-- An argument is read in front of a trail in which no blank other than ASCII blanks comes first:
such a blank would be an argument. -/
theorem argument?_trail (visible : trail.trimStart = trail.skipBlanks)
    (only : text.HasWordsOnly) (keeps : text.KeepsGroups trail) :
    Argument.read? (text ++ trail) =
      (Argument.read? text).map (Argument.followedBy trail) := by
  cases start : text.skipBlanks with
  | nil =>
      have nothing : Argument.read? text = none := by rw [Argument.read?, start]
      have stops := isTrail.skipBlanks.head
      have noBlank := List.head?_dropWhile_not isBlank trail
      rw [nothing, Argument.read?, skipBlanks_trail_nil start]
      rw [show trail.dropWhile isBlank = trail.skipBlanks from visible] at noBlank
      cases begins : trail.skipBlanks with
      | nil => rfl
      | cons c rest =>
          rw [begins] at stops noBlank
          have closer : c = ')' ∨ c = '\x7d' := by
            have stop : isStop c = true := stops
            have seen : isBlank c = false := by simpa using noBlank
            simpa [isStop, seen] using stop
          rcases closer with rfl | rfl <;> rfl
  | cons c rest =>
      have ends : c :: rest <:+ text := start ▸ text.suffix_skipBlanks
      have within : HasWordsOnly (c :: rest) := start ▸ only.skipBlanks
      rw [Argument.read?, Argument.read?, start, skipBlanks_trail_cons start]
      simp only
      split
      · rename_i opener
        subst opener
        rw [keeps .curly rest (by decide) ends, Option.map_map, Option.map_map]
        rfl
      · split
        · rename_i back
          subst back
          rw [control?_trail isTrail within, Option.map_map, Option.map_map]
          rfl
        · split <;> rfl

/-- No argument is read from a trail. -/
theorem afterBareArgument?_of_isTrail : trail.afterBareArgument? vocabulary = none := by
  have stops := isTrail.skipBlanks.head
  rw [afterBareArgument?_eq]
  cases begins : trail.skipBlanks with
  | nil => rfl
  | cons c rest =>
      rw [begins] at stops
      have stop : isStop c = true := stops
      have noMinus : c ≠ '-' := ne_of_isStop stop (by decide)
      have noPlus : c ≠ '+' := ne_of_isStop stop (by decide)
      have noControl : c ≠ '\\' := ne_of_isStop stop (by decide)
      simp [Bracket.ofArgument?_of_isStop stop, noMinus, noPlus, noControl, isDigit_of_isStop stop,
        isAlpha_of_isStop stop]

/-- Behind an exponent stands the operand, with the trail behind it, or nothing. -/
theorem bind_afterExponent?_trail (keeps : text.KeepsGroups trail) :
    ((text ++ trail).afterExponent? vocabulary).bind (afterBareArgument? vocabulary) =
      (text.afterExponent? vocabulary).bind fun operand =>
        afterBareArgument? vocabulary (operand ++ trail) := by
  unfold afterExponent?
  cases start : text.skipBlanks with
  | nil =>
      have stops := isTrail.skipBlanks
      have nothing (text : Text) (isTrail : text.IsTrail) :
          text.afterBareArgument? vocabulary = none := afterBareArgument?_of_isTrail isTrail
      rw [Option.bind_some, List.nil_append, nothing trail isTrail, skipBlanks_trail_nil start]
      split
      · rename_i script begins
        rw [begins] at stops
        cases stops.head
      · exact nothing _ stops
  | cons c rest =>
      have ends : rest <:+ text :=
        (List.suffix_cons c rest).trans (start ▸ text.suffix_skipBlanks)
      simp only [skipBlanks_trail_cons start]
      by_cases caret : c = '^'
      · subst caret
        simp only [exponent?_trail isTrail (keeps.of_suffix ends)]
        cases exponent? vocabulary rest <;> rfl
      · simp [caret]

/-- An argument in front of the renaming is read in front of the trail. -/
theorem afterBareArgument?_trail {text : Text} (only : text.HasWordsOnly)
    (keeps : text.KeepsGroups trail) :
    (text ++ trail).afterBareArgument? vocabulary =
      (text.afterBareArgument? vocabulary).map (· ++ trail) := by
  rw [afterBareArgument?_eq, afterBareArgument?_eq vocabulary text]
  cases start : text.skipBlanks with
  | nil =>
      have nothing : trail.afterBareArgument? vocabulary = none :=
        afterBareArgument?_of_isTrail isTrail
      rw [afterBareArgument?_eq] at nothing
      rw [skipBlanks_trail_nil start, nothing]
      rfl
  | cons c rest =>
      have within : HasWordsOnly (c :: rest) := start ▸ only.skipBlanks
      have ends : c :: rest <:+ text := start ▸ text.suffix_skipBlanks
      have shorter : rest.length < text.length := by
        have skipped := text.length_skipBlanks_le
        rw [start, List.length_cons] at skipped
        omega
      have keepsRest := keeps.of_suffix ((List.suffix_cons c rest).trans ends)
      simp only [skipBlanks_trail_cons start]
      cases isBracket : Bracket.ofArgument? c with
      | some bracket =>
          have same := opener_of_ofArgument? isBracket
          subst same
          simp only [keeps bracket rest (ne_square_of_ofArgument? isBracket) ends, Option.map_map]
          rfl
      | none =>
          simp only
          split
          · exact afterBareArgument?_trail within.tail keepsRest
          · split
            · rw [← List.cons_append, afterCoefficient_trail isTrail]
              rfl
            · split
              · rw [← List.cons_append, afterLetterRun_trail isTrail]
                rfl
              · split
                · rename_i back
                  subst back
                  rw [control?_trail isTrail within]
                  cases isControl : Control.read? rest with
                  | none => rfl
                  | some control =>
                      simp only [Option.map_some, Option.bind_some]
                      have taken := Control.length_lt_of_read? isControl
                      have behind : control.rest <:+ rest := by
                        rw [Control.eq_of_read? isControl]
                        exact List.suffix_append _ _
                      have keepsBehind := keepsRest.of_suffix behind
                      split
                      · rfl
                      · rfl
                      · split
                        · rw [bind_afterExponent?_trail isTrail keepsBehind, Option.map_bind]
                          cases isOperand : afterExponent? vocabulary control.rest with
                          | none => rfl
                          | some operand =>
                              have passed := length_le_of_afterExponent? isOperand
                              have passes : Passes false control.rest operand :=
                                passes_of_afterExponent? isOperand
                              exact afterBareArgument?_trail
                                ((within.of_control isControl).of_cutsAt
                                  (cutsAt_of_passes_false passes))
                                (keepsBehind.of_suffix passes.suffix)
                        · rfl
                · rfl
termination_by text.length

omit isTrail in
theorem before_trail (text rest trail : Text) :
    before (text ++ trail) (rest ++ trail) = text.before rest := by
  have length : (text ++ trail).length - (rest ++ trail).length = text.length - rest.length := by
    simp only [List.length_append]
    omega
  rw [before, before, length, List.take_append_of_le_length (Nat.sub_le _ _)]

theorem bareArgument?_trail (only : text.HasWordsOnly) (keeps : text.KeepsGroups trail) :
    (text ++ trail).bareArgument? vocabulary =
      (text.bareArgument? vocabulary).map fun argument =>
        { argument with rest := argument.rest ++ trail } := by
  cases start : text.skipBlanks with
  | nil =>
      have nothing : trail.skipBlanks.afterBareArgument? vocabulary = none :=
        afterBareArgument?_of_isTrail isTrail.skipBlanks
      have stops := isTrail.skipBlanks.head
      have missing : text.bareArgument? vocabulary = none := by rw [bareArgument?, start]
      rw [missing, bareArgument?, skipBlanks_trail_nil start]
      cases begins : trail.skipBlanks with
      | nil => rfl
      | cons c rest =>
          rw [begins] at stops nothing
          simp only [Bracket.ofArgument?_of_isStop (show isStop c = true from stops), nothing]
          rfl
  | cons c rest =>
      have within : HasWordsOnly (c :: rest) := start ▸ only.skipBlanks
      have ends : c :: rest <:+ text := start ▸ text.suffix_skipBlanks
      unfold bareArgument?
      simp only [start, skipBlanks_trail_cons start]
      cases isBracket : Bracket.ofArgument? c with
      | some bracket =>
          have same := opener_of_ofArgument? isBracket
          subst same
          simp only [keeps bracket rest (ne_square_of_ofArgument? isBracket) ends, Option.map_map]
          rfl
      | none =>
          simp only [← List.cons_append]
          rw [afterBareArgument?_trail isTrail within (keeps.of_suffix ends), Option.map_map,
            Option.map_map]
          refine congrArg (Option.map · _) (funext fun after => ?_)
          simp only [Function.comp_apply, Cut.upTo, before_trail]

end

end Text

end TexCalc

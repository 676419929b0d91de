import TexCalc.Linear.Flat
import TexCalc.Proofs.Linear.Commands
import TexCalc.Proofs.Text.Characters
import TexCalc.Proofs.Text.Neutral
import TexCalc.Proofs.Text.Trimming
import TexCalc.Proofs.Vocabulary.Standard
import TexCalc.Proofs.Words.Backslashes

/-!
# Symbols, run by run

The symbols of a formula on one line are those of its runs of letters, digits and points, with the
symbols of the characters between the runs.  Blanks give no symbol, so that it makes no difference
whether they are collapsed or trimmed.
-/

namespace TexCalc

/-- The symbols between a pair of parentheses. -/
def Symbol.parenthesized (symbols : List Symbol) : List Symbol :=
  delimiter '(' :: (symbols ++ [delimiter ')'])

namespace Text

variable {vocabulary : Vocabulary} {text run rest lead : Text}

/-- Every text can be taken apart into runs and the characters between them. -/
theorem run_induction {motive : Text → Prop} (nil : motive [])
    (mark : ∀ c rest, isBaseChar c = false → motive rest → motive (c :: rest))
    (word : ∀ run rest, run ≠ [] → run.all isBaseChar = true → rest.endsRun isBaseChar = true →
      motive rest → motive (run ++ rest)) (text : Text) : motive text := by
  induction length : text.length using Nat.strongRecOn generalizing text with
  | _ size ih =>
      cases text with
      | nil => exact nil
      | cons c rest =>
          cases base : isBaseChar c with
          | false => exact mark c rest base (ih rest.length (by simp [← length]) rest rfl)
          | true =>
              have begins : (c :: rest).takeWhile isBaseChar ≠ [] := by simp [base]
              have ends := endsRun_dropWhile isBaseChar (c :: rest)
              have shorter : ((c :: rest).dropWhile isBaseChar).length < size := by
                rw [← length, List.dropWhile_cons_of_pos base, List.length_cons]
                exact Nat.lt_succ_of_le (length_dropWhile_le isBaseChar rest)
              have split : (c :: rest).takeWhile isBaseChar ++ (c :: rest).dropWhile isBaseChar =
                  c :: rest := List.takeWhile_append_dropWhile
              rw [← split]
              exact word _ _ begins List.all_takeWhile ends (ih _ shorter _ rfl)

theorem symbols_numeral {c : Char} (begins : beginsNumeral c rest = true) :
    symbols vocabulary (c :: rest) =
      .number (c :: rest.takeWhile isNumeralChar) ::
        symbols vocabulary (rest.dropWhile isNumeralChar) := by
  rw [symbols, if_pos begins]

theorem symbols_entry {c : Char} {entry : Entry} {after : Text}
    (noNumeral : ¬ beginsNumeral c rest = true) (letter : isLetter c = true)
    (found : vocabulary.entryAt? (c :: rest) = some (entry, after)) :
    symbols vocabulary (c :: rest) = .ofEntry entry :: symbols vocabulary after := by
  rw [symbols, if_neg noNumeral, if_pos letter]
  split
  · rename_i same
    rw [found] at same
    cases same
    rfl
  · rename_i none
    rw [found] at none
    cases none

theorem symbols_variable {c : Char} (noNumeral : ¬ beginsNumeral c rest = true)
    (letter : isLetter c = true) (none : vocabulary.entryAt? (c :: rest) = none) :
    symbols vocabulary (c :: rest) = .var c :: symbols vocabulary rest := by
  rw [symbols, if_neg noNumeral, if_pos letter]
  split
  · rename_i found
    rw [none] at found
    cases found
  · rfl

/-- The symbols of a character that is part of no run. -/
def markSymbols (c : Char) : List Symbol :=
  if isLetter c then [.var c] else if isBlank c then [] else [.ofPunctuation c]

theorem symbols_cons {c : Char} (other : isBaseChar c = false) (plain : c ≠ '\\') (rest : Text) :
    symbols vocabulary (c :: rest) = markSymbols c ++ symbols vocabulary rest := by
  simp only [isBaseChar, Char.isAlphanum, Bool.or_eq_false_iff, beq_eq_false_iff_ne] at other
  obtain ⟨⟨noLetter, noDigit⟩, noPoint⟩ := other
  have noNumeral : ¬ beginsNumeral c rest = true := by
    simp [beginsNumeral, noDigit, noPoint]
  rw [markSymbols]
  split
  · rename_i letter
    exact symbols_variable noNumeral letter (vocabulary.entryAt?_eq_none noLetter rest)
  · rename_i noLetter
    rw [symbols, if_neg noNumeral, if_neg noLetter, if_neg plain]
    split <;> rfl

theorem symbols_blank {c : Char} (blank : isBlank c = true) (rest : Text) :
    symbols vocabulary (c :: rest) = symbols vocabulary rest := by
  have other : isBaseChar c = false := by
    cases base : isBaseChar c with
    | false => rfl
    | true =>
        rw [isBlank_eq_false_of_isBaseChar base] at blank
        cases blank
  have plain : c ≠ '\\' := by
    rintro rfl
    cases blank
  rw [symbols_cons other plain, markSymbols, isLetter_eq_false_of_isBlank blank, blank]
  rfl

theorem symbols_control {control : Control} (found : Control.read? rest = some control) :
    symbols vocabulary ('\\' :: rest) =
      .leftover control.name :: symbols vocabulary control.rest := by
  have noNumeral : ¬ beginsNumeral '\\' rest = true := by simp [beginsNumeral]
  have noLetter : ¬ isLetter '\\' = true := by decide +kernel
  rw [symbols, if_neg noNumeral, if_neg noLetter, if_pos rfl]
  split
  · rename_i again
    rw [found] at again
    cases again
    rfl
  · rename_i none
    rw [found] at none
    cases none

/-! ## Texts put together -/

/-- Read from left to right, every backslash of the text has a character behind it. -/
def IsWhole (text : Text) : Prop :=
  .plain '\\' ∉ text.pieces

instance (text : Text) : Decidable text.IsWhole :=
  inferInstanceAs (Decidable (_ ∉ _))

theorem isWhole_cons {c : Char} (plain : c ≠ '\\') : IsWhole (c :: rest) ↔ IsWhole rest := by
  rw [IsWhole, pieces_cons plain, List.mem_cons, Piece.plain.injEq, not_or]
  exact and_iff_right (Ne.symm plain)

theorem isWhole_append (plain : '\\' ∉ run) : IsWhole (run ++ rest) ↔ IsWhole rest := by
  induction run with
  | nil => rfl
  | cons c run ih =>
      rw [List.mem_cons, not_or] at plain
      rw [List.cons_append, isWhole_cons (Ne.symm plain.1), ih plain.2]

theorem isWhole_of_not_mem (plain : '\\' ∉ text) : text.IsWhole := by
  rw [← List.append_nil text, isWhole_append plain, IsWhole, pieces]
  exact List.not_mem_nil

theorem isWhole_control {control : Control} (found : Control.read? rest = some control) :
    IsWhole ('\\' :: rest) ↔ control.rest.IsWhole := by
  rw [IsWhole, pieces_control found, List.mem_cons, not_or]
  exact and_iff_right nofun

theorem not_isWhole_backslash : ¬ IsWhole ['\\'] := by
  intro whole
  rw [IsWhole, pieces, if_pos rfl] at whole
  exact whole (List.mem_singleton_self _)

/-- The symbols of a text do not depend on what follows, as long as its last run ends there and its
last backslash finds no character there. -/
theorem symbols_append_of_isWhole (whole : text.IsWhole) (ends : rest.endsRun isBaseChar = true) :
    symbols vocabulary (text ++ rest) = symbols vocabulary text ++ symbols vocabulary rest := by
  have numeralEnds : rest.endsRun isNumeralChar = true :=
    endsRun_mono ends isBaseChar_of_isNumeralChar
  have nameEnds : rest.endsRun Char.isAlphanum = true := endsRun_mono ends isBaseChar_of_isAlphanum
  have wordEnds : rest.endsRun Char.isAlpha = true :=
    endsRun_mono nameEnds fun c letter => by rw [Char.isAlphanum, letter, Bool.true_or]
  have numeral (c : Char) (text : Text) : beginsNumeral c (text ++ rest) = beginsNumeral c text := by
    cases text with
    | cons d text => rfl
    | nil =>
        cases rest with
        | nil => rfl
        | cons d rest =>
            have noDigit : d.isDigit = false := by
              simp only [endsRun, List.head?_cons, Option.all_some, isNumeralChar, Bool.not_eq_true',
                Bool.or_eq_false_iff] at numeralEnds
              exact numeralEnds.1
            simp [beginsNumeral, noDigit]
  fun_induction symbols vocabulary text with
  | case1 => rfl
  | case2 c text begins ih =>
      have split : c :: text =
          (c :: text.takeWhile isNumeralChar) ++ text.dropWhile isNumeralChar := by
        rw [List.cons_append, List.takeWhile_append_dropWhile]
      have plain : '\\' ∉ c :: text.takeWhile isNumeralChar := by
        rw [List.mem_cons, not_or]
        refine ⟨?_, not_mem_of_all (by decide) List.all_takeWhile⟩
        rintro rfl
        simp [beginsNumeral] at begins
      rw [split, isWhole_append plain] at whole
      rw [List.cons_append, symbols_numeral ((numeral c text).trans begins),
        takeWhile_append_rest text numeralEnds, dropWhile_append_rest text numeralEnds, ih whole]
      rfl
  | case3 c text noNumeral letter entry after found ih =>
      have plain : '\\' ∉ entry.name.text := not_mem_of_all (by decide) entry.name.all_isAlphanum
      rw [Vocabulary.eq_of_entryAt? found, isWhole_append plain] at whole
      have same : vocabulary.entryAt? (c :: (text ++ rest)) = some (entry, after ++ rest) := by
        rw [← List.cons_append, vocabulary.entryAt?_append_rest _ nameEnds, found]
        rfl
      rw [← numeral c text] at noNumeral
      rw [List.cons_append, symbols_entry noNumeral letter same, ih whole, List.cons_append]
  | case4 c text noNumeral letter none ih =>
      have plain : c ≠ '\\' := by
        rintro rfl
        exact absurd letter (by decide +kernel)
      have same : vocabulary.entryAt? (c :: (text ++ rest)) = Option.none := by
        rw [← List.cons_append, vocabulary.entryAt?_append_rest _ nameEnds, none]
        rfl
      rw [isWhole_cons plain] at whole
      rw [← numeral c text] at noNumeral
      rw [List.cons_append, symbols_variable noNumeral letter same, ih whole, List.cons_append]
  | case5 text control found _ _ ih =>
      have nonempty : text ≠ [] := by
        rintro rfl
        cases found
      have same := Control.read?_append_rest nonempty wordEnds
      rw [found, Option.map_some] at same
      rw [isWhole_control found] at whole
      rw [List.cons_append, symbols_control same, ih whole]
      rfl
  | case6 text found =>
      rw [Control.read?_eq_none_iff.1 found] at whole
      exact absurd whole not_isWhole_backslash
  | case7 c text _ _ plain blank ih =>
      rw [isWhole_cons plain] at whole
      rw [List.cons_append, symbols_blank blank, ih whole]
  | case8 c text noNumeral noLetter plain visible ih =>
      rw [isWhole_cons plain] at whole
      rw [← numeral c text] at noNumeral
      rw [List.cons_append, symbols, if_neg noNumeral, if_neg noLetter, if_neg plain,
        if_neg visible, ih whole, List.cons_append]

/-- The symbols of a run do not depend on what ends it. -/
theorem symbols_append (all : run.all isBaseChar = true) (ends : rest.endsRun isBaseChar = true) :
    symbols vocabulary (run ++ rest) = symbols vocabulary run ++ symbols vocabulary rest :=
  symbols_append_of_isWhole (isWhole_of_not_mem (not_mem_of_all (by decide) all)) ends

/-! ## Blanks -/

theorem isBaseChar_eq_false_of_isBlank {c : Char} (blank : isBlank c = true) :
    isBaseChar c = false := by
  cases base : isBaseChar c with
  | false => rfl
  | true =>
      rw [isBlank_eq_false_of_isBaseChar base] at blank
      cases blank

theorem symbols_append_of_isAllBlank (blank : lead.isAllBlank = true) (rest : Text) :
    symbols vocabulary (lead ++ rest) = symbols vocabulary rest := by
  induction lead with
  | nil => rfl
  | cons c lead ih =>
      rw [isAllBlank, List.all_cons, Bool.and_eq_true] at blank
      rw [List.cons_append, symbols_blank blank.1, ih blank.2]

theorem endsRun_of_isAllBlank (blank : rest.isAllBlank = true) :
    rest.endsRun isBaseChar = true := by
  cases rest with
  | nil => rfl
  | cons c rest =>
      rw [isAllBlank, List.all_cons, Bool.and_eq_true] at blank
      simp [endsRun, isBaseChar_eq_false_of_isBlank blank.1]

/-- Blanks at the end of a text give no symbol. -/
theorem symbols_append_blanks (plain : '\\' ∉ text) (blank : rest.isAllBlank = true) :
    symbols vocabulary (text ++ rest) = symbols vocabulary text := by
  have nothing : symbols vocabulary rest = [] := by
    rw [← List.append_nil rest, symbols_append_of_isAllBlank blank, symbols]
  induction text using run_induction with
  | nil => rw [List.nil_append, nothing, symbols]
  | mark c text other ih =>
      rw [List.mem_cons, not_or] at plain
      rw [List.cons_append, symbols_cons other (Ne.symm plain.1), ih plain.2,
        symbols_cons other (Ne.symm plain.1)]
  | word run text _ all ends ih =>
      rw [List.mem_append, not_or] at plain
      have stillEnds : endsRun isBaseChar (text ++ rest) = true := by
        cases text with
        | nil => exact endsRun_of_isAllBlank blank
        | cons c text => exact ends
      rw [List.append_assoc, symbols_append all stillEnds, ih plain.2, symbols_append all ends]

theorem symbols_trim (plain : '\\' ∉ text) :
    text.trim.symbols vocabulary = text.symbols vocabulary := by
  obtain ⟨lead, trail, split, leadBlank, trailBlank⟩ := exists_trim_eq text
  have plainTrim : '\\' ∉ text.trim := by
    intro isMember
    refine plain ?_
    rw [split]
    exact List.mem_append_right _ (List.mem_append_left _ isMember)
  conv => rhs; rw [split]
  rw [symbols_append_of_isAllBlank leadBlank, symbols_append_blanks plainTrim trailBlank]

theorem collapseAfter_append (visible : run.all isBaseChar = true) (nonempty : run ≠ [])
    (isBlankBefore : Bool) (rest : Text) :
    collapseAfter isBlankBefore (run ++ rest) = run ++ collapseAfter false rest := by
  induction run generalizing isBlankBefore with
  | nil => exact absurd rfl nonempty
  | cons c run ih =>
      rw [List.all_cons, Bool.and_eq_true] at visible
      rw [List.cons_append, collapseAfter,
        if_neg (by simp [isBlank_eq_false_of_isBaseChar visible.1])]
      cases run with
      | nil => rfl
      | cons d run => exact congrArg (c :: ·) (ih visible.2 (List.cons_ne_nil _ _) false)

/-- Runs of blanks give no symbols, be they collapsed or not. -/
theorem symbols_collapseAfter (plain : '\\' ∉ text) (isBlankBefore : Bool) :
    (text.collapseAfter isBlankBefore).symbols vocabulary = text.symbols vocabulary := by
  induction text using run_induction generalizing isBlankBefore with
  | nil => rfl
  | mark c text other ih =>
      rw [List.mem_cons, not_or] at plain
      rw [collapseAfter]
      split
      · rename_i blank
        have space : isBlank ' ' = true := by decide
        rw [symbols_blank blank]
        split
        · exact ih plain.2 true
        · rw [symbols_blank space, ih plain.2]
      · rw [symbols_cons other (Ne.symm plain.1), symbols_cons other (Ne.symm plain.1), ih plain.2]
  | word run text nonempty all ends ih =>
      rw [List.mem_append, not_or] at plain
      have stillEnds : endsRun isBaseChar (text.collapseAfter false) = true := by
        cases text with
        | nil => rfl
        | cons c text =>
            rw [collapseAfter]
            split
            · rfl
            · exact ends
      rw [collapseAfter_append all nonempty, symbols_append all stillEnds, ih plain.2,
        symbols_append all ends]

/-! ## Flat text -/

theorem flatBracket_of_isBaseChar {c : Char} (base : isBaseChar c = true) : flatBracket c = c := by
  rw [flatBracket, if_neg, if_neg]
  · rintro (rfl | rfl) <;> cases base
  · rintro (rfl | rfl) <;> cases base

theorem isBaseChar_flatBracket (c : Char) : isBaseChar (flatBracket c) = isBaseChar c := by
  unfold flatBracket
  split
  · rename_i opener
    rcases opener with rfl | rfl <;> rfl
  · split
    · rename_i closer
      rcases closer with rfl | rfl <;> rfl
    · rfl

/-- Without groups side by side, flattening a text only turns its braces and square brackets into
parentheses. -/
theorem symbols_flatten_eq (plain : '\\' ∉ text.joinGroups) :
    symbols vocabulary text.flatten = symbols vocabulary (text.joinGroups.map flatBracket) := by
  have plainFlat : '\\' ∉ text.joinGroups.map flatBracket := by
    rw [← List.count_eq_zero, count_map_flatBracket, List.count_eq_zero]
    exact plain
  have plainCollapsed : '\\' ∉ collapseBlanks (text.joinGroups.map flatBracket) := by
    rw [← List.count_eq_zero, collapseBlanks, count_collapseAfter (by decide), List.count_eq_zero]
    exact plainFlat
  rw [flatten, symbols_trim plainCollapsed, collapseBlanks, symbols_collapseAfter plainFlat]

theorem symbols_flatten (separate : text.joinGroups = text) (plain : '\\' ∉ text) :
    symbols vocabulary text.flatten = symbols vocabulary (text.map flatBracket) := by
  rw [symbols_flatten_eq (separate.symm ▸ plain), separate]

/-- A text without commands and without groups side by side, and the symbols that it spells when
it is flat. -/
structure Spells (vocabulary : Vocabulary) (text : Text) (symbols : List Symbol) : Prop where
  separate : text.joinGroups = text
  plain : '\\' ∉ text
  symbols_eq : Text.symbols vocabulary (text.map flatBracket) = symbols

namespace Spells

variable {symbols : List Symbol}

theorem nil : Spells vocabulary [] [] where
  separate := by rw [joinGroups]
  plain := List.not_mem_nil
  symbols_eq := by rw [List.map_nil, Text.symbols]

theorem joinGroups_cons {c : Char} (noCloser : c ≠ '\x7d') (separate : rest.joinGroups = rest) :
    joinGroups (c :: rest) = c :: rest := by
  rw [joinGroups, if_neg noCloser, separate]

theorem joinGroups_closer (noOpener : rest.trimStart.head? ≠ some '\x7b')
    (separate : rest.joinGroups = rest) : joinGroups ('\x7d' :: rest) = '\x7d' :: rest := by
  rw [joinGroups, if_pos rfl]
  split
  · rename_i same
    rw [same] at noOpener
    exact absurd rfl noOpener
  · rw [separate]

theorem blank (spells : Spells vocabulary rest symbols) :
    Spells vocabulary (' ' :: rest) symbols where
  separate := joinGroups_cons (by decide) spells.separate
  plain := by
    rw [List.mem_cons, not_or]
    exact ⟨by decide, spells.plain⟩
  symbols_eq := by
    have space : flatBracket ' ' = ' ' := by decide
    rw [List.map_cons, space, symbols_blank (by decide), spells.symbols_eq]

/-- The characters that are a symbol of their own. -/
def isPunctuation (c : Char) : Bool :=
  c ∈ ['(', ')', '\x7b', '\x7d', '+', '-', '*', '/', '^']

theorem mark {c : Char} (isMark : isPunctuation c = true)
    (noGroup : c = '\x7d' → rest.trimStart.head? ≠ some '\x7b')
    (spells : Spells vocabulary rest symbols) :
    Spells vocabulary (c :: rest) (.ofPunctuation (flatBracket c) :: symbols) where
  separate := by
    by_cases closer : c = '\x7d'
    · subst closer
      exact joinGroups_closer (noGroup rfl) spells.separate
    · exact joinGroups_cons closer spells.separate
  plain := by
    rw [List.mem_cons, not_or]
    refine ⟨?_, spells.plain⟩
    rintro rfl
    cases isMark
  symbols_eq := by
    obtain ⟨other, plain, single⟩ : isBaseChar (flatBracket c) = false ∧ flatBracket c ≠ '\\' ∧
        markSymbols (flatBracket c) = [.ofPunctuation (flatBracket c)] := by
      simp only [isPunctuation, List.mem_cons, List.not_mem_nil, or_false, decide_eq_true_eq]
        at isMark
      rcases isMark with rfl | rfl | rfl | rfl | rfl | rfl | rfl | rfl | rfl <;> decide +kernel
    rw [List.map_cons, symbols_cons other plain, single, spells.symbols_eq]
    rfl

theorem word (all : run.all isBaseChar = true) (ends : rest.endsRun isBaseChar = true)
    (spells : Spells vocabulary rest symbols) :
    Spells vocabulary (run ++ rest) (Text.symbols vocabulary run ++ symbols) where
  separate := by
    induction run with
    | nil => exact spells.separate
    | cons c run ih =>
        rw [List.all_cons, Bool.and_eq_true] at all
        refine joinGroups_cons ?_ (ih all.2)
        rintro rfl
        cases all.1
  plain := by
    rw [List.mem_append, not_or]
    refine ⟨fun isMember => ?_, spells.plain⟩
    cases List.all_eq_true.1 all _ isMember
  symbols_eq := by
    have same : run.map flatBracket = run := by
      rw [List.map_congr_left fun c isMember =>
        flatBracket_of_isBaseChar (List.all_eq_true.1 all c isMember)]
      exact List.map_id' run
    have stillEnds : endsRun isBaseChar (rest.map flatBracket) = true := by
      cases rest with
      | nil => rfl
      | cons c rest => simpa [endsRun, isBaseChar_flatBracket] using ends
    rw [List.map_append, same, symbols_append all stillEnds, spells.symbols_eq]

theorem symbols_flatten (spells : Spells vocabulary text symbols) :
    Text.symbols vocabulary text.flatten = symbols :=
  (Text.symbols_flatten spells.separate spells.plain).trans spells.symbols_eq

end Spells

/-- The text spells the symbols in front of any text that neither goes on with a run nor begins
with a group in braces. -/
structure SpellsWithin (vocabulary : Vocabulary) (text : Text) (symbols : List Symbol) : Prop where
  before {rest : Text} {others : List Symbol} (ends : rest.endsRun isBaseChar = true)
    (noGroup : rest.trimStart.head? ≠ some '\x7b') (spells : Spells vocabulary rest others) :
    Spells vocabulary (text ++ rest) (symbols ++ others)

namespace SpellsWithin

variable {symbols left' right' : List Symbol} {left right : Text}

theorem word (all : run.all isBaseChar = true) :
    SpellsWithin vocabulary run (Text.symbols vocabulary run) where
  before ends _ spells := .word all ends spells

theorem blank_append (spelled : SpellsWithin vocabulary text symbols) :
    SpellsWithin vocabulary (' ' :: text) symbols where
  before ends noGroup spells := (spelled.before ends noGroup spells).blank

theorem append_blank (spelled : SpellsWithin vocabulary text symbols) :
    SpellsWithin vocabulary (text ++ [' ']) symbols where
  before {rest others} _ noGroup spells := by
    rw [List.append_assoc]
    exact spelled.before rfl noGroup spells.blank

/-- Behind a group in parentheses anything can stand. -/
theorem parenthesized_append {others : List Symbol} (inside : SpellsWithin vocabulary text symbols)
    (spells : Spells vocabulary rest others) :
    Spells vocabulary (text.parenthesized ++ rest) (Symbol.parenthesized symbols ++ others) := by
  have closed := spells.mark (c := ')') rfl fun same => absurd same (by decide)
  rw [Text.parenthesized_append, Symbol.parenthesized, List.cons_append, List.append_assoc]
  exact (inside.before rfl (by simp [trimStart, isBlank]) closed).mark rfl fun same =>
    absurd same (by decide)

theorem parenthesized (inside : SpellsWithin vocabulary text symbols) :
    SpellsWithin vocabulary text.parenthesized (Symbol.parenthesized symbols) where
  before _ _ spells := inside.parenthesized_append spells

theorem braced (inside : SpellsWithin vocabulary text symbols) :
    SpellsWithin vocabulary text.braced (Symbol.parenthesized symbols) where
  before {rest others} _ noGroup spells := by
    have closed := spells.mark (c := '\x7d') rfl fun _ => noGroup
    rw [braced_append, Symbol.parenthesized, List.cons_append, List.append_assoc]
    exact (inside.before rfl (by simp [trimStart, isBlank]) closed).mark rfl fun same =>
      absurd same (by decide)

/-- Two texts put together, when the second begins with a character between runs. -/
theorem append {c : Char} (other : isBaseChar c = false) (visible : isBlank c = false)
    (noGroup : c ≠ '\x7b') (first : SpellsWithin vocabulary left left')
    (second : SpellsWithin vocabulary (c :: right) right') :
    SpellsWithin vocabulary (left ++ c :: right) (left' ++ right') where
  before {rest others} ends others' spells := by
    have stops : endsRun isBaseChar ((c :: right) ++ rest) = true := by simp [endsRun, other]
    have noBrace : (trimStart ((c :: right) ++ rest)).head? ≠ some '\x7b' := by
      rw [List.cons_append, trimStart_eq_of_head visible]
      simpa using noGroup
    rw [List.append_assoc, List.append_assoc]
    exact first.before stops noBrace (second.before ends others' spells)

/-- The signs between operands. -/
def isSign (c : Char) : Bool :=
  c ∈ ['+', '-', '*', '/', '^']

theorem eq_of_isSign {c : Char} (sign : isSign c = true) :
    c = '+' ∨ c = '-' ∨ c = '*' ∨ c = '/' ∨ c = '^' := by
  simpa only [isSign, List.mem_cons, List.not_mem_nil, or_false, decide_eq_true_eq] using sign

theorem sign_append {c : Char} (sign : isSign c = true)
    (spelled : SpellsWithin vocabulary text symbols) :
    SpellsWithin vocabulary (c :: text) (.operator c :: symbols) where
  before {rest others} ends noGroup spells := by
    obtain ⟨isMark, noCloser, isOperator⟩ : Spells.isPunctuation c = true ∧ c ≠ '\x7d' ∧
        Symbol.ofPunctuation (flatBracket c) = .operator c := by
      rcases eq_of_isSign sign with rfl | rfl | rfl | rfl | rfl <;> decide
    have whole := (spelled.before ends noGroup spells).mark isMark fun closer =>
      absurd closer noCloser
    rw [isOperator] at whole
    exact whole

/-- Two operands with a sign between them. -/
theorem binary {c : Char} (sign : isSign c = true) (first : SpellsWithin vocabulary left left')
    (second : SpellsWithin vocabulary right right') :
    SpellsWithin vocabulary (left ++ c :: right) (left' ++ .operator c :: right') := by
  obtain ⟨other, visible, noGroup⟩ : isBaseChar c = false ∧ isBlank c = false ∧ c ≠ '\x7b' := by
    rcases eq_of_isSign sign with rfl | rfl | rfl | rfl | rfl <;> decide
  exact append other visible noGroup first (second.sign_append sign)

theorem whole (spelled : SpellsWithin vocabulary text symbols) :
    Spells vocabulary text symbols := by
  have alone : Spells vocabulary (text ++ []) (symbols ++ []) :=
    spelled.before rfl (by simp [trimStart]) .nil
  rwa [List.append_nil, List.append_nil] at alone

end SpellsWithin

end Text

end TexCalc

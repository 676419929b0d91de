import TexCalc.Proofs.Check.Faultless
import TexCalc.Proofs.Nesting.Walk
import TexCalc.Proofs.Words.Accepted

/-!
# Nested normal text

The check of a formula follows its delimiters, and its normal text has a bracket for each of them:
a brace for a brace, a square bracket for a square one, and a parenthesis for every other.  Without
comments and bars that stand by themselves the normal text of an accepted formula is nested.
-/

namespace TexCalc

namespace Bracket

/-- The kind of bracket that a character closes. -/
def ofCloser? (c : Char) : Option Bracket :=
  [round, square, curly].find? (·.closer == c)

theorem closer_of_ofCloser? {c : Char} {bracket : Bracket} (closes : ofCloser? c = some bracket) :
    bracket.closer = c := by
  simpa using List.find?_some closes

end Bracket

namespace Text

/-- Whether every bracket closes the one that was opened last, when the brackets of `stack` are
open in front of the text, the last one first. -/
def isNestedIn (stack : List Bracket) : Text → Bool
  | [] => stack.isEmpty
  | c :: rest =>
      match Bracket.ofOpener? c with
      | some bracket => isNestedIn (bracket :: stack) rest
      | none =>
          match Bracket.ofCloser? c with
          | none => isNestedIn stack rest
          | some bracket =>
              match stack with
              | [] => false
              | opened :: below => opened == bracket && isNestedIn below rest

/-- Whether all brackets of a text are closed, each before those in which it stands. -/
def isNested (text : Text) : Bool :=
  isNestedIn [] text

theorem isBracket_eq_false_of_none {c : Char} (noOpener : Bracket.ofOpener? c = none)
    (noCloser : Bracket.ofCloser? c = none) : isBracket c = false := by
  rcases isBracket_cases c with plain | ⟨bracket, rfl | rfl⟩
  · exact plain
  · cases bracket <;> cases noOpener
  · cases bracket <;> cases noCloser

/-- Nested brackets are walked over with none that is loose. -/
theorem walk_of_isNestedIn {stack : List Bracket} {text : Text} (may : Bool)
    (nested : isNestedIn stack text = true) :
    Walk true may (stack.map Pending.bracket) text [] := by
  induction text generalizing stack may with
  | nil =>
      rw [isNestedIn, List.isEmpty_iff] at nested
      rw [nested]
      exact .done []
  | cons c rest ih =>
      rw [isNestedIn] at nested
      split at nested
      · rename_i bracket opens
        rw [← Bracket.opener_of_ofOpener? opens]
        exact .step (.opens fun _ => rfl) (ih _ nested)
      · rename_i noOpener
        split at nested
        · rename_i noCloser
          exact .step (.plain (isBracket_eq_false_of_none noOpener noCloser)) (ih _ nested)
        · rename_i bracket closes
          split at nested
          · cases nested
          · rename_i opened below
            rw [Bool.and_eq_true, beq_iff_eq] at nested
            obtain ⟨same, later⟩ := nested
            rw [← Bracket.closer_of_ofCloser? closes, ← same]
            exact .step .closes (ih _ later)

/-! ## Brackets one by one -/

variable {stack : List Bracket} {rest : Text}

theorem isNestedIn_opener (bracket : Bracket) :
    isNestedIn stack (bracket.opener :: rest) = isNestedIn (bracket :: stack) rest := by
  cases bracket <;> rfl

theorem isNestedIn_closer (bracket : Bracket) :
    isNestedIn (bracket :: stack) (bracket.closer :: rest) = isNestedIn stack rest := by
  cases bracket <;> rfl

theorem isNestedIn_plain {c : Char} (plain : isBracket c = false) :
    isNestedIn stack (c :: rest) = isNestedIn stack rest := by
  have noOpener : Bracket.ofOpener? c = none := by
    cases opens : Bracket.ofOpener? c with
    | none => rfl
    | some bracket =>
        exact absurd (Bracket.opener_of_ofOpener? opens).symm (ne_opener_of_plain plain _)
  have noCloser : Bracket.ofCloser? c = none := by
    cases closes : Bracket.ofCloser? c with
    | none => rfl
    | some bracket =>
        exact absurd (Bracket.closer_of_ofCloser? closes).symm (ne_closer_of_plain plain _)
  simp only [isNestedIn, noOpener, noCloser]

theorem isNestedIn_plain_append {lead : Text} (plain : lead.all (!isBracket ·) = true) :
    isNestedIn stack (lead ++ rest) = isNestedIn stack rest := by
  induction lead with
  | nil => rfl
  | cons c lead ih =>
      rw [List.all_cons, Bool.and_eq_true, Bool.not_eq_true'] at plain
      rw [List.cons_append, isNestedIn_plain plain.1, ih plain.2]

end Text

/-! ## Tokens -/

/-- The bracket that a delimiter becomes in normal text. -/
def Delimiter.normal : Delimiter → Bracket
  | brace => .curly
  | bracket => .square
  | escapedBrace => .round
  | parenthesis => .round
  | sized => .round

namespace Token

variable {token : Token}

/-- A token that opens or closes something by itself, in normal text. -/
theorem normal_of_delimiter? {delimiter : Delimiter} {opens : Bool}
    (isDelimiter : token.delimiter? = some (delimiter, opens)) :
    token.normal = [if opens then delimiter.normal.opener else delimiter.normal.closer] := by
  unfold Token.delimiter? at isDelimiter
  split at isDelimiter
  all_goals first
    | cases isDelimiter
      decide
    | cases isDelimiter

/-- A known token that opens and closes nothing becomes no bracket. -/
theorem all_plain_normal (known : token.isKnown = true) (noDelimiter : token.delimiter? = none) :
    token.normal.all (!isBracket ·) = true := by
  fun_cases Token.normal token with
  | case6 c =>
      rw [List.all_cons, Bool.and_eq_true, Bool.not_eq_true']
      refine ⟨?_, rfl⟩
      rcases isBracket_cases c with plain | ⟨bracket, rfl | rfl⟩
      · exact plain
      · cases bracket <;>
          first | exact absurd noDelimiter (by decide) | exact absurd known (by decide)
      · cases bracket <;>
          first | exact absurd noDelimiter (by decide) | exact absurd known (by decide)
  | case7 => cases noDelimiter
  | case8 => cases noDelimiter
  | case10 name noOpener noCloser noSpacing =>
      obtain ⟨command, found⟩ := Option.isSome_iff_exists.1 known
      obtain ⟨_, letters⟩ := isAlpha_of_named? found
        (fun spacing => noSpacing (spacing ▸ found)) noOpener noCloser
      rw [List.all_cons, all_plain_of (by decide) letters]
      rfl
  | case11 token noShift noComment noBlank noTie noChar _ _ noControl =>
      cases token with
      | mathShift => exact absurd rfl noShift
      | comment text => exact absurd rfl (noComment text)
      | char c => exact absurd rfl (noChar c)
      | control name => exact absurd rfl (noControl name)
      | openBrace => cases noDelimiter
      | closeBrace => cases noDelimiter
      | _ => decide
  | _ => decide

theorem isSignificant_of_side? {side : Side} (isSide : token.side? = some side) :
    token.isSignificant = true := by
  cases token with
  | control name => rfl
  | _ => cases isSide

/-- The delimiter of a `\left` or `\right` is no `\left` or `\right` itself. -/
theorem side?_of_sizedDelimiter? {delimiter : Char}
    (sized : token.sizedDelimiter? = some delimiter) :
    token.side? = none ∧ token.isSignificant = true := by
  cases token with
  | char c => exact ⟨rfl, rfl⟩
  | control name =>
      refine ⟨?_, rfl⟩
      have noSide : ∀ side : Side, name ≠ side.word := by
        intro side same
        rw [same] at sized
        cases side <;> cases sized
      simp only [Token.side?, if_neg (noSide .left), if_neg (noSide .right)]
  | _ => cases sized

theorem eq_blank_of_isSignificant (noMeaning : token.isSignificant = false)
    (noComment : token.isComment = false) : token = .blank := by
  cases token with
  | blank => rfl
  | comment text => cases noComment
  | _ => cases noMeaning

end Token

theorem Side.isNestedIn_normal {stack : List Bracket} {rest : Text} (side : Side)
    (delimiter : Char) :
    Text.isNestedIn stack (side.normal delimiter ++ rest) =
      Text.isNestedIn stack ((if side == .left then '(' else ')') :: rest) := by
  fun_cases Side.normal side delimiter <;> rfl

/-! ## Lexemes -/

/-- The bracket that a delimiter becomes is opened or closed in the same way. -/
theorem DelimiterEvent.Settles.isNestedIn_eq {event : DelimiterEvent}
    {before after : List DelimiterEvent} (settles : event.Settles before after) {rest : Text} :
    Text.isNestedIn (before.map (·.delimiter.normal))
        ((if event.opens then event.delimiter.normal.opener else event.delimiter.normal.closer) ::
          rest) =
      Text.isNestedIn (after.map (·.delimiter.normal)) rest := by
  cases settles with
  | opening opens =>
      rw [if_pos opens, Text.isNestedIn_opener]
      rfl
  | closing closes partner =>
      rw [if_neg (by simp [closes]), ← partner]
      exact Text.isNestedIn_closer _

/-- Behind a `\left` or `\right` without a fault stands its delimiter, blanks and comments apart. -/
theorem Focus.exists_sized {before after : List Lexeme} {here : Lexeme} {side : Side}
    (isSide : here.token.side? = some side) (faultless : fault? ⟨before, here, after⟩ = none)
    (noComments : ∀ lexeme ∈ after, lexeme.token.isComment = false) :
    ∃ blanks next rest delimiter, after = blanks ++ next :: rest ∧
      (∀ lexeme ∈ blanks, lexeme.token = .blank) ∧
        next.token.sizedDelimiter? = some delimiter ∧
          event? ⟨before, here, after⟩ =
            some ⟨here.offset, .sized, side == .left, here.token.print ++ next.token.print⟩ := by
  have sized : (sizedDelimiter? ⟨before, here, after⟩).isSome = true := by
    cases shape : here.token with
    | control name =>
        simp only [fault?, shape, controlFault?] at faultless
        rw [← shape, isSide] at faultless
        exact Option.isSome_iff_ne_none.2 (by simpa using faultless)
    | _ =>
        rw [shape] at isSide
        cases isSide
  obtain ⟨next, found⟩ := Option.isSome_iff_exists.1 sized
  obtain ⟨isNext, hasDelimiter⟩ := Option.filter_eq_some_iff.1 found
  obtain ⟨delimiter, isDelimiter⟩ := Option.isSome_iff_exists.1 hasDelimiter
  obtain ⟨_, blanks, rest, split, skipped⟩ := List.find?_eq_some_iff_append.1 isNext
  refine ⟨blanks, next, rest, delimiter, split, ?_, isDelimiter, ?_⟩
  · intro lexeme isMember
    apply Token.eq_blank_of_isSignificant
    · simpa using skipped lexeme isMember
    · apply noComments
      rw [show after = blanks ++ next :: rest from split]
      exact List.mem_append_left _ isMember
  · simp only [event?, isSide, found, Option.map_some]

theorem Lexeme.dropWhile_isBlank_append {blanks after : List Lexeme} {next : Lexeme}
    {delimiter : Char}
    (allBlank : ∀ lexeme ∈ blanks, lexeme.token = .blank)
    (sized : next.token.sizedDelimiter? = some delimiter) :
    ((blanks ++ next :: after).map Lexeme.token).dropWhile Token.isBlank =
      next.token :: after.map Lexeme.token := by
  have visible : next.token.isBlank = false := by
    cases shape : next.token with
    | blank =>
        rw [shape] at sized
        cases sized
    | _ => rfl
  induction blanks with
  | nil => exact List.dropWhile_cons_of_neg (by simp [visible])
  | cons here blanks ih =>
      rw [List.forall_mem_cons] at allBlank
      rw [List.cons_append, List.map_cons, List.dropWhile_cons_of_pos (by rw [allBlank.1]; rfl)]
      exact ih allBlank.2

namespace Lexeme

/-- What holds at every place of a formula, of the lexemes in front of it, the delimiters that are
open there and the lexemes behind it, as it holds at the start. -/
structure IsKept (holds : List Lexeme → List DelimiterEvent → List Lexeme → Prop) : Prop where
  pass {before after : List Lexeme} {here : Lexeme} {stack : List DelimiterEvent}
    (isHere : holds before stack (here :: after))
    (noEvent : Focus.event? ⟨before, here, after⟩ = none)
    (noBar : Focus.isBar ⟨before, here, after⟩ = false) : holds (here :: before) stack after
  event {before after : List Lexeme} {here : Lexeme} {stack : List DelimiterEvent}
    {event : DelimiterEvent} (isHere : holds before stack (here :: after))
    (isEvent : Focus.event? ⟨before, here, after⟩ = some event)
    (noBar : Focus.isBar ⟨before, here, after⟩ = false) :
    ∃ later, event.Settles stack later ∧ holds (here :: before) later after

theorem isKept_isClean : IsKept IsClean where
  pass clean noEvent _ := clean.of_pass noEvent
  event clean isEvent _ := clean.of_event isEvent

namespace IsKept

variable {holds : List Lexeme → List DelimiterEvent → List Lexeme → Prop} (kept : IsKept holds)
  {before after : List Lexeme} {here : Lexeme} {stack : List DelimiterEvent}

include kept

/-- Blanks are passed over. -/
theorem of_blanks {blanks : List Lexeme} (isHere : holds before stack (blanks ++ after))
    (allBlank : ∀ lexeme ∈ blanks, lexeme.token = .blank) :
    ∃ front, previousToken? front = previousToken? before ∧ holds front stack after := by
  induction blanks generalizing before with
  | nil => exact ⟨before, rfl, isHere⟩
  | cons here blanks ih =>
      rw [List.forall_mem_cons] at allBlank
      have noEvent := @Focus.event?_eq_none before (blanks ++ after) here _ allBlank.1 rfl rfl
      have noBar := @Focus.isBar_eq_false before (blanks ++ after) here _ allBlank.1 nofun
      obtain ⟨front, same, later⟩ := ih (kept.pass isHere noEvent noBar) allBlank.2
      exact ⟨front, same.trans (previousToken?_blank allBlank.1 before), later⟩

/-- A `\left` or `\right` with its delimiter opens or closes one pair. -/
theorem of_sized {side : Side} {delimiter : Char} {blanks : List Lexeme} {next : Lexeme}
    {event : DelimiterEvent} (isHere : holds before stack (here :: (blanks ++ next :: after)))
    (isSide : here.token.side? = some side)
    (allBlank : ∀ lexeme ∈ blanks, lexeme.token = .blank)
    (sized : next.token.sizedDelimiter? = some delimiter)
    (isEvent : Focus.event? ⟨before, here, blanks ++ next :: after⟩ = some event) :
    ∃ front later, event.Settles stack later ∧
      (previousToken? front).bind Token.side? = none ∧ holds front later after := by
  obtain ⟨noSide, significant⟩ := Token.side?_of_sizedDelimiter? sized
  have noBar : Focus.isBar ⟨before, here, blanks ++ next :: after⟩ = false := by
    apply Focus.isBar_eq_false rfl
    intro isBar
    rw [isBar] at isSide
    cases isSide
  obtain ⟨later, settles, behind⟩ := kept.event isHere isEvent noBar
  obtain ⟨front, same, atNext⟩ := kept.of_blanks behind allBlank
  rw [previousToken?_cons (Token.isSignificant_of_side? isSide)] at same
  have sizedBy : Focus.sizedBy? ⟨front, next, after⟩ = some side := by
    apply Focus.sizedBy?_eq_some
    · rw [same]
      exact isSide
    · rw [sized]
      rfl
  have noEvent : Focus.event? ⟨front, next, after⟩ = none := by
    simp only [Focus.event?, noSide, sizedBy, Option.isSome_some, if_true]
  have notAlone : Focus.isBar ⟨front, next, after⟩ = false := by
    simp only [Focus.isBar, sizedBy, Option.isNone_some, Bool.and_false]
  refine ⟨next :: front, later, settles, ?_, kept.pass atNext noEvent notAlone⟩
  rw [previousToken?_cons significant]
  exact noSide

end IsKept

end Lexeme

namespace Lexeme.IsClean

variable {before after : List Lexeme} {here : Lexeme} {stack : List DelimiterEvent}

/-- The delimiter of a `\left` or `\right` is found in the tokens, too, and what it becomes is
opened or closed there. -/
theorem of_side {side : Side} (clean : IsClean before stack (here :: after))
    (noComments : ∀ lexeme ∈ after, lexeme.token.isComment = false)
    (isSide : here.token.side? = some side) :
    ∃ next delimiter front later rest,
      (after.map Lexeme.token).dropWhile Token.isBlank = next :: rest.map Lexeme.token ∧
        next.sizedDelimiter? = some delimiter ∧ (∀ lexeme ∈ rest, lexeme ∈ after) ∧
          (previousToken? front).bind Token.side? = none ∧ IsClean front later rest ∧
            ∀ text, Text.isNestedIn (stack.map (·.delimiter.normal))
                (side.normal delimiter ++ text) =
              Text.isNestedIn (later.map (·.delimiter.normal)) text := by
  obtain ⟨blanks, next, rest, delimiter, rfl, allBlank, sized, isEvent⟩ :=
    Focus.exists_sized isSide (clean.faultless _ List.mem_cons_self) noComments
  obtain ⟨front, later, settles, free, behind⟩ :=
    isKept_isClean.of_sized clean isSide allBlank sized isEvent
  refine ⟨next.token, delimiter, front, later, rest, dropWhile_isBlank_append allBlank sized,
    sized, ?_, free, behind, ?_⟩
  · intro lexeme isMember
    exact List.mem_append_right _ (List.mem_cons_of_mem _ isMember)
  · intro text
    exact (Side.isNestedIn_normal side delimiter).trans settles.isNestedIn_eq

end Lexeme.IsClean

/-- Behind a token that is no `\left` or `\right` a delimiter has a meaning of its own, if it had
one in front of it. -/
theorem Lexeme.side?_previousToken?_cons {before : List Lexeme} {here : Lexeme}
    (noSide : here.token.side? = none) (noComment : here.token.isComment = false)
    (free : (previousToken? before).bind Token.side? = none) :
    (previousToken? (here :: before)).bind Token.side? = none := by
  cases significant : here.token.isSignificant with
  | true =>
      rw [previousToken?_cons significant]
      exact noSide
  | false =>
      rw [previousToken?_blank (Token.eq_blank_of_isSignificant significant noComment)]
      exact free

namespace Text

/-- The normal text of clean lexemes without comments is nested. -/
theorem isNestedIn_ofTokens {isOpen : Bool} {before lexemes : List Lexeme}
    {stack : List DelimiterEvent} (clean : Lexeme.IsClean before stack lexemes)
    (noComments : ∀ lexeme ∈ lexemes, lexeme.token.isComment = false)
    (free : (Lexeme.previousToken? before).bind Token.side? = none) :
    isNestedIn (stack.map (·.delimiter.normal)) (ofTokens isOpen (lexemes.map Lexeme.token)) =
      true := by
  generalize shape : lexemes.map Lexeme.token = tokens
  revert before lexemes stack
  fun_induction ofTokens isOpen tokens with
  | case1 =>
      intro before lexemes stack clean noComments free shape
      rw [List.map_eq_nil_iff.1 shape] at clean
      rw [List.map_eq_nil_iff.1 clean.matched]
      rfl
  | case2 isOpen token rest side isSide next later after delimiter isDelimiter ih =>
      intro before lexemes stack clean noComments free shape
      obtain ⟨here, others, rfl, rfl, rfl⟩ := List.map_eq_cons_iff.1 shape
      rw [List.forall_mem_cons] at noComments
      obtain ⟨_, _, front, stack, rest, same, sized, within, freeFront, behind, normal⟩ :=
        clean.of_side noComments.2 isSide
      rw [after] at same
      cases same
      rw [isDelimiter] at sized
      cases sized
      rw [normal]
      exact ih behind (fun lexeme isMember => noComments.2 lexeme (within lexeme isMember))
        freeFront rfl
  | case3 isOpen token rest side isSide next later after noDelimiter ih =>
      intro before lexemes stack clean noComments free shape
      obtain ⟨here, others, rfl, rfl, rfl⟩ := List.map_eq_cons_iff.1 shape
      rw [List.forall_mem_cons] at noComments
      obtain ⟨_, _, front, stack, rest, same, sized, _⟩ := clean.of_side noComments.2 isSide
      rw [after] at same
      cases same
      rw [noDelimiter] at sized
      cases sized
  | case4 isOpen token rest side isSide none ih =>
      intro before lexemes stack clean noComments free shape
      obtain ⟨here, others, rfl, rfl, rfl⟩ := List.map_eq_cons_iff.1 shape
      rw [List.forall_mem_cons] at noComments
      obtain ⟨_, _, front, stack, rest, same, _⟩ := clean.of_side noComments.2 isSide
      rw [none] at same
      cases same
  | case5 isOpen rest _ ih =>
      intro before lexemes stack clean noComments free shape
      obtain ⟨here, others, rfl, isBar, rfl⟩ := List.map_eq_cons_iff.1 shape
      have noBar := clean.barless _ List.mem_cons_self
      simp only [Focus.isBar, isBar, Focus.sizedBy?_eq_none free] at noBar
      cases noBar
  | case6 isOpen token rest noSide noBar ih =>
      intro before lexemes stack clean noComments free shape
      obtain ⟨here, others, rfl, rfl, rfl⟩ := List.map_eq_cons_iff.1 shape
      rw [List.forall_mem_cons] at noComments
      have freeBehind := Lexeme.side?_previousToken?_cons noSide noComments.1 free
      cases delimits : here.token.delimiter? with
      | none =>
          have known := Token.isKnown_of_fault? (clean.faultless _ List.mem_cons_self)
          rw [isNestedIn_plain_append (Token.all_plain_normal known delimits)]
          exact ih (clean.of_pass (Focus.event?_eq_none rfl noSide delimits)) noComments.2
            freeBehind rfl
      | some delimiter =>
          obtain ⟨later, settles, behind⟩ :=
            clean.of_event (Focus.event?_eq_some rfl noSide delimits free)
          rw [Token.normal_of_delimiter? delimits, List.singleton_append]
          exact settles.isNestedIn_eq.trans (ih behind noComments.2 freeBehind rfl)

/-- The normal text of an accepted formula is nested when it has no comments and no bar stands by
itself. -/
theorem isNested_normal {formula : Text} (accepted : Translator.IsAccepted formula)
    (barless : ∀ focus ∈ Focus.all formula.trim.lexemes, focus.isBar = false)
    (noComments : ∀ lexeme ∈ formula.trim.lexemes, lexeme.token.isComment = false) :
    formula.normal.isNested = true :=
  isNestedIn_ofTokens (.of_issues_eq_nil (List.map_eq_nil_iff.1 accepted) barless) noComments rfl

end Text

end TexCalc

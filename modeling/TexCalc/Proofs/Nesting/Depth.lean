import TexCalc.Proofs.Nesting.Balanced
import TexCalc.Proofs.Nesting.Trimmed

/-!
# Balanced normal text

The check of a formula and its normal text read the delimiters of the same tokens.  Where both find
the same delimiter behind every `\left` and `\right`, the normal text has one open parenthesis for
every open delimiter, and two more between an odd and an even bare bar.  Which bracket is closed may
differ, for bars need not be nested with the other delimiters, but the number of open ones does
not.  The two look behind a `\left` in different ways: the check skips comments, normal text only
blanks, and a comment in front of the delimiter makes them differ.
-/

namespace TexCalc

/-- Whether a token opens something by itself, for a `\left`, or closes something, for a `\right`. -/
def Token.faces (side : Side) (token : Token) : Bool :=
  token.delimiter?.any fun (_, opens) => opens == (side == .left)

/-- Whether normal text finds the delimiter of the `\left` or `\right` in focus, past blanks alone,
or passes over a `\left` or `\right` whose delimiter becomes the same parenthesis without it. -/
def Focus.isFound (focus : Focus) : Bool :=
  match focus.here.token.side? with
  | none => true
  | some side =>
      ((focus.after.map Lexeme.token).dropWhile Token.isBlank).head?.any
          (·.sizedDelimiter?.isSome) ||
        focus.sizedDelimiter?.any (·.token.faces side)

namespace Text

variable {depth later : Nat} {text lead : Text}

/-! ## Open parentheses -/

/-- One more is open, or one less. -/
def Steps (opens : Bool) (depth later : Nat) : Prop :=
  if opens then later = depth + 1 else depth = later + 1

/-- Whether the parentheses of a text, braces and square brackets read as such, are closed when
`depth` are open in front of it. -/
def closesFlat (depth : Nat) (text : Text) : Bool :=
  closesFrom depth (text.map flatBracket)

theorem closesFlat_plain (plain : lead.all (!isBracket ·) = true) :
    closesFlat depth (lead ++ text) = closesFlat depth text := by
  induction lead with
  | nil => rfl
  | cons c lead ih =>
      rw [List.all_cons, Bool.and_eq_true, Bool.not_eq_true'] at plain
      rw [closesFlat, List.cons_append, List.map_cons, flatBracket_plain plain.1,
        closesFrom_plain (isRound_of_plain plain.1)]
      exact ih plain.2

theorem closesFlat_bracket {opens : Bool} (bracket : Bracket) (steps : Steps opens depth later) :
    closesFlat depth ((if opens then bracket.opener else bracket.closer) :: text) =
      closesFlat later text := by
  cases opens with
  | true =>
      have isLater : later = depth + 1 := steps
      subst isLater
      cases bracket <;> rfl
  | false =>
      have isDepth : depth = later + 1 := steps
      subst isDepth
      cases bracket <;> rfl

theorem closesFlat_side {side : Side} (delimiter : Char)
    (steps : Steps (side == .left) depth later) :
    closesFlat depth (side.normal delimiter ++ text) = closesFlat later text := by
  have single := @closesFlat_bracket depth later text _ .round steps
  fun_cases Side.normal side delimiter with
  | case1 => exact single
  | case2 => exact single
  | case3 => exact single

/-- A bare bar opens two parentheses, and the next one closes them. -/
theorem closesFlat_bar (isOpen : Bool) (count : Nat) :
    closesFlat (count + 2 * isOpen.toNat) ((if isOpen then "))".toList else "(abs(".toList) ++ text) =
      closesFlat (count + 2 * (!isOpen).toNat) text := by
  cases isOpen <;> rfl

end Text

namespace Lexeme

/-! ## What the check knows -/

/-- The lexemes behind a place have no fault and no unmatched delimiter, when the delimiters of
`stack` are open there, and an even number of bars, with the one that is open. -/
structure IsSound (isOpen : Bool) (before : List Lexeme) (stack : List DelimiterEvent)
    (lexemes : List Lexeme) : Prop where
  faultless : ∀ focus ∈ Focus.allFrom before lexemes, focus.fault? = none
  found : ∀ focus ∈ Focus.allFrom before lexemes, focus.isFound = true
  matched : DelimiterEvent.unmatchedIn stack
    ((Focus.allFrom before lexemes).filterMap Focus.event?) = []
  even : ((Focus.allFrom before lexemes).countP Focus.isBar + isOpen.toNat) % 2 = 0

namespace IsSound

variable {isOpen : Bool} {before after : List Lexeme} {here : Lexeme}
  {stack : List DelimiterEvent}

theorem isKept (isOpen : Bool) : IsKept (IsSound isOpen) where
  pass {before after here stack} sound noEvent noBar := by
    have matched := sound.matched
    have even := sound.even
    rw [Focus.allFrom, List.filterMap_cons_none noEvent] at matched
    rw [Focus.allFrom, List.countP_cons_of_neg (by simp [noBar])] at even
    exact {
      faultless := fun focus isFocus => sound.faultless focus (List.mem_cons_of_mem _ isFocus)
      found := fun focus isFocus => sound.found focus (List.mem_cons_of_mem _ isFocus)
      matched := matched
      even := even }
  event {before after here stack event} sound isEvent noBar := by
    have matched := sound.matched
    have even := sound.even
    rw [Focus.allFrom, List.filterMap_cons_some isEvent] at matched
    rw [Focus.allFrom, List.countP_cons_of_neg (by simp [noBar])] at even
    obtain ⟨later, settles, behind⟩ := DelimiterEvent.exists_settles matched
    exact ⟨later, settles, {
      faultless := fun focus isFocus => sound.faultless focus (List.mem_cons_of_mem _ isFocus)
      found := fun focus isFocus => sound.found focus (List.mem_cons_of_mem _ isFocus)
      matched := behind
      even := even }⟩

/-- Behind a bar that stands by itself, the other kind of bar is expected. -/
theorem of_bar (sound : IsSound isOpen before stack (here :: after))
    (noEvent : Focus.event? ⟨before, here, after⟩ = none)
    (isBar : Focus.isBar ⟨before, here, after⟩ = true) :
    IsSound (!isOpen) (here :: before) stack after := by
  have matched := sound.matched
  have even := sound.even
  rw [Focus.allFrom, List.filterMap_cons_none noEvent] at matched
  rw [Focus.allFrom, List.countP_cons_of_pos isBar] at even
  exact {
    faultless := fun focus isFocus => sound.faultless focus (List.mem_cons_of_mem _ isFocus)
    found := fun focus isFocus => sound.found focus (List.mem_cons_of_mem _ isFocus)
    matched := matched
    even := by cases isOpen <;> simp only [Bool.toNat_true, Bool.toNat_false, Bool.not_true,
      Bool.not_false] at * <;> omega }

/-- The lexemes of a text without issues. -/
theorem of_issues_eq_nil {text : Text} (noIssues : text.issues = [])
    (found : ∀ focus ∈ Focus.all text.lexemes, focus.isFound = true) :
    IsSound false [] [] text.lexemes := by
  have unordered := Issue.ofLexemes_eq_nil noIssues
  simp only [Issue.ofLexemes, List.append_eq_nil_iff, List.filterMap_eq_nil_iff] at unordered
  obtain ⟨⟨faultless, matched⟩, noOddBar⟩ := unordered
  refine ⟨fun focus isFocus => Option.map_eq_none_iff.1 (faultless focus isFocus), found, matched,
    ?_⟩
  rw [Option.toList_eq_nil_iff, Issue.oddBars?] at noOddBar
  rw [Bool.toNat_false, Nat.add_zero, List.countP_eq_length_filter]
  split at noOddBar
  · rename_i odd
    rw [Option.map_eq_none_iff, List.getLast?_eq_none_iff] at noOddBar
    have none : ((Focus.all text.lexemes).filter Focus.isBar).length = 0 := by rw [noOddBar]; rfl
    omega
  · rename_i even
    have parity := Nat.mod_two_eq_zero_or_one ((Focus.all text.lexemes).filter Focus.isBar).length
    exact parity.resolve_right even

end IsSound

/-! ## The delimiter of a `\left` or `\right` -/

/-- The `\left` or `\right` whose delimiter is still to come. -/
def pending? (before : List Lexeme) : Option Side :=
  (previousToken? before).bind Token.side?

theorem pending?_cons {here : Lexeme} (significant : here.token.isSignificant = true)
    (before : List Lexeme) : pending? (here :: before) = here.token.side? := by
  rw [pending?, previousToken?_cons significant]
  rfl

theorem pending?_gap {here : Lexeme} (noMeaning : here.token.isSignificant = false)
    (before : List Lexeme) : pending? (here :: before) = pending? before := by
  rw [pending?, pending?, previousToken?_gap noMeaning]

theorem exists_of_dropWhile_isBlank {lexemes : List Lexeme} {next : Token} {later : List Token}
    (shape : (lexemes.map Lexeme.token).dropWhile Token.isBlank = next :: later) :
    ∃ blanks here rest, lexemes = blanks ++ here :: rest ∧
      (∀ lexeme ∈ blanks, lexeme.token = .blank) ∧ here.token = next ∧
        rest.map Lexeme.token = later := by
  induction lexemes with
  | nil => cases shape
  | cons first lexemes ih =>
      rw [List.map_cons] at shape
      cases blank : first.token.isBlank with
      | true =>
          rw [List.dropWhile_cons_of_pos blank] at shape
          obtain ⟨blanks, here, rest, rfl, allBlank, isHere, isRest⟩ := ih shape
          have isBlank : first.token = .blank := by
            apply Token.eq_blank_of_isSignificant
            · rw [Token.isSignificant, blank]
              rfl
            · cases token : first.token with
              | comment text =>
                  rw [token] at blank
                  cases blank
              | _ => rfl
          refine ⟨first :: blanks, here, rest, rfl, ?_, isHere, isRest⟩
          exact List.forall_mem_cons.2 ⟨isBlank, allBlank⟩
      | false =>
          rw [List.dropWhile_cons_of_neg (by simp [blank])] at shape
          cases shape
          exact ⟨[], first, lexemes, rfl, List.forall_mem_nil _, rfl, rfl⟩

end Lexeme

namespace Focus

variable {before after : List Lexeme} {here next : Lexeme} {side : Side}

theorem sizedDelimiter?_of_blanks {blanks rest : List Lexeme} {delimiter : Char}
    (allBlank : ∀ lexeme ∈ blanks, lexeme.token = .blank)
    (sized : next.token.sizedDelimiter? = some delimiter) :
    sizedDelimiter? ⟨before, here, blanks ++ next :: rest⟩ = some next := by
  have significant := (Token.side?_of_sizedDelimiter? sized).2
  have isNext : (blanks ++ next :: rest).find? (·.token.isSignificant) = some next := by
    induction blanks with
    | nil => exact List.find?_cons_of_pos significant
    | cons first blanks ih =>
        rw [List.forall_mem_cons] at allBlank
        rw [List.cons_append, List.find?_cons_of_neg (by rw [allBlank.1]; decide)]
        exact ih allBlank.2
  rw [sizedDelimiter?, next?, isNext]
  exact Option.filter_eq_some_iff.2 ⟨rfl, by rw [sized]; rfl⟩

/-- The delimiter of a `\left` or `\right` counts where that stands. -/
theorem exists_event?_of_sized (isSide : here.token.side? = some side)
    (sized : sizedDelimiter? ⟨before, here, after⟩ = some next) :
    ∃ event, event? ⟨before, here, after⟩ = some event ∧ event.opens = (side == .left) := by
  refine ⟨⟨here.offset, .sized, side == .left, here.token.print ++ next.token.print⟩, ?_, rfl⟩
  simp only [event?, isSide, sized, Option.map_some]

end Focus

namespace Token

theorem exists_of_faces {token : Token} {side : Side} (faces : token.faces side = true) :
    ∃ delimiter, token.delimiter? = some (delimiter, side == .left) := by
  cases isDelimiter : token.delimiter? with
  | none =>
      rw [Token.faces, isDelimiter] at faces
      cases faces
  | some found =>
      obtain ⟨delimiter, opens⟩ := found
      rw [Token.faces, isDelimiter, Option.any_some] at faces
      exact ⟨delimiter, by rw [eq_of_beq faces]⟩

end Token

namespace Lexeme

open Text

/-- What normal text has done in front of a place.  It has as many open parentheses as there are
open delimiters and bars, or it has passed over a `\left` or `\right` whose delimiter comes next
and does the same. -/
inductive Awaits (isOpen : Bool) (before : List Lexeme) (stack : List DelimiterEvent)
    (lexemes : List Lexeme) : Nat → Prop where
  | nothing (free : pending? before = none) :
      Awaits isOpen before stack lexemes (stack.length + 2 * isOpen.toNat)
  | delimiter {side : Side} {next : Lexeme} {depth : Nat} (isSide : pending? before = some side)
      (isNext : lexemes.find? (·.token.isSignificant) = some next)
      (sized : next.token.sizedDelimiter?.isSome = true) (faces : next.token.faces side = true)
      (steps : Steps (side == .left) depth (stack.length + 2 * isOpen.toNat)) :
      Awaits isOpen before stack lexemes depth

namespace Awaits

variable {isOpen : Bool} {before after : List Lexeme} {here : Lexeme}
  {stack : List DelimiterEvent} {depth : Nat}

/-- At a token with a meaning nothing is pending, or the token is the delimiter that is. -/
theorem of_isSignificant (awaits : Awaits isOpen before stack (here :: after) depth)
    (significant : here.token.isSignificant = true) :
    (pending? before = none ∧ depth = stack.length + 2 * isOpen.toNat) ∨
      ∃ side delimiter, pending? before = some side ∧
        here.token.sizedDelimiter?.isSome = true ∧
          here.token.delimiter? = some (delimiter, side == .left) ∧
            Steps (side == .left) depth (stack.length + 2 * isOpen.toNat) := by
  cases awaits with
  | nothing free => exact .inl ⟨free, rfl⟩
  | @delimiter side next _ isSide isNext sized faces steps =>
      rw [List.find?_cons, significant] at isNext
      cases isNext
      obtain ⟨delimiter, isDelimiter⟩ := Token.exists_of_faces faces
      exact .inr ⟨side, delimiter, isSide, sized, isDelimiter, steps⟩

theorem free_of_delimiter? (awaits : Awaits isOpen before stack (here :: after) depth)
    (significant : here.token.isSignificant = true) (noDelimiter : here.token.delimiter? = none) :
    pending? before = none ∧ depth = stack.length + 2 * isOpen.toNat := by
  rcases awaits.of_isSignificant significant with free | ⟨side, delimiter, _, _, isDelimiter, _⟩
  · exact free
  · rw [noDelimiter] at isDelimiter
    cases isDelimiter

/-- Nothing is pending at a `\left` or `\right`, which is not the delimiter of another one. -/
theorem free_of_side? {side : Side} (awaits : Awaits isOpen before stack (here :: after) depth)
    (isSide : here.token.side? = some side) :
    pending? before = none ∧ depth = stack.length + 2 * isOpen.toNat := by
  apply awaits.free_of_delimiter? (Token.isSignificant_of_side? isSide)
  cases delimits : here.token.delimiter? with
  | none => rfl
  | some found =>
      rw [(Token.facts_of_delimiter? delimits).1] at isSide
      cases isSide

theorem of_gap (awaits : Awaits isOpen before stack (here :: after) depth)
    (noMeaning : here.token.isSignificant = false) :
    Awaits isOpen (here :: before) stack after depth := by
  have same := pending?_gap noMeaning before
  cases awaits with
  | nothing free => exact .nothing (same.trans free)
  | delimiter isSide isNext sized faces steps =>
      rw [List.find?_cons, noMeaning] at isNext
      exact .delimiter (same.trans isSide) isNext sized faces steps

end Awaits

end Lexeme

theorem DelimiterEvent.Settles.steps {event : DelimiterEvent} {stack later : List DelimiterEvent}
    (settles : event.Settles stack later) (bars : Nat) :
    Text.Steps event.opens (stack.length + bars) (later.length + bars) := by
  cases settles with
  | opening opens =>
      rw [opens, Text.Steps, if_pos rfl, List.length_cons]
      omega
  | closing closes =>
      rw [closes, Text.Steps, if_neg Bool.false_ne_true, List.length_cons]
      omega

namespace Lexeme.IsSound

variable {isOpen : Bool} {before after : List Lexeme} {here : Lexeme}
  {stack : List DelimiterEvent} {depth : Nat}

/-- At the end nothing is open. -/
theorem of_nil (sound : IsSound isOpen before stack []) : stack = [] ∧ isOpen = false := by
  constructor
  · exact List.map_eq_nil_iff.1 sound.matched
  · have even := sound.even
    cases isOpen with
    | false => rfl
    | true => cases even

/-- A `\left` or `\right` that is passed over waits for the delimiter that is found for it. -/
theorem of_side {side : Side} (sound : IsSound isOpen before stack (here :: after))
    (awaits : Awaits isOpen before stack (here :: after) depth)
    (isSide : here.token.side? = some side)
    (missed : ((after.map Lexeme.token).dropWhile Token.isBlank).head?.any
      (·.sizedDelimiter?.isSome) = false) :
    ∃ later, IsSound isOpen (here :: before) later after ∧
      Awaits isOpen (here :: before) later after depth := by
  obtain ⟨-, rfl⟩ := awaits.free_of_side? isSide
  have found := sound.found _ List.mem_cons_self
  simp only [Focus.isFound, isSide, missed, Bool.false_or] at found
  cases sized : Focus.sizedDelimiter? ⟨before, here, after⟩ with
  | none =>
      rw [sized] at found
      cases found
  | some next =>
      rw [sized, Option.any_some] at found
      obtain ⟨isNext, hasDelimiter⟩ := Option.filter_eq_some_iff.1 sized
      obtain ⟨event, isEvent, opens⟩ := Focus.exists_event?_of_sized isSide sized
      have noBar : Focus.isBar ⟨before, here, after⟩ = false := by
        apply Focus.isBar_eq_false rfl
        intro isBar
        rw [isBar] at isSide
        cases isSide
      obtain ⟨later, settles, behind⟩ := (isKept isOpen).event sound isEvent noBar
      have steps := settles.steps (2 * isOpen.toNat)
      rw [opens] at steps
      refine ⟨later, behind, .delimiter ?_ isNext hasDelimiter found steps⟩
      exact (pending?_cons (Token.isSignificant_of_side? isSide) before).trans isSide

/-- At any other token as many parentheses are opened or closed in normal text as there are
delimiters opened or closed by the check, now or at the `\left` or `\right` that waits for it. -/
theorem of_other (sound : IsSound isOpen before stack (here :: after))
    (awaits : Awaits isOpen before stack (here :: after) depth)
    (noSide : here.token.side? = none) (noBar : here.token ≠ .char '|') :
    ∃ later laterDepth, IsSound isOpen (here :: before) later after ∧
      Awaits isOpen (here :: before) later after laterDepth ∧ ∀ text,
        Text.closesFlat depth (here.token.normal ++ text) = Text.closesFlat laterDepth text := by
  have kept := isKept isOpen
  have notBar : Focus.isBar ⟨before, here, after⟩ = false := Focus.isBar_eq_false rfl noBar
  have known := Token.isKnown_of_fault? (sound.faultless _ List.mem_cons_self)
  cases significant : here.token.isSignificant with
  | false =>
      have noDelimiter : here.token.delimiter? = none := by
        cases delimits : here.token.delimiter? with
        | none => rfl
        | some found =>
            rw [(Token.facts_of_delimiter? delimits).2.1] at significant
            cases significant
      have noEvent := @Focus.event?_eq_none before after here _ rfl noSide noDelimiter
      refine ⟨stack, depth, kept.pass sound noEvent notBar, awaits.of_gap significant, ?_⟩
      exact fun text => Text.closesFlat_plain (Token.all_plain_normal known noDelimiter)
  | true =>
      have free : pending? (here :: before) = none :=
        (pending?_cons significant before).trans noSide
      rcases awaits.of_isSignificant significant with
        ⟨freeBefore, rfl⟩ | ⟨side, delimiter, isSide, sized, delimits, steps⟩
      · cases delimits : here.token.delimiter? with
        | none =>
            have noEvent := @Focus.event?_eq_none before after here _ rfl noSide delimits
            refine ⟨stack, _, kept.pass sound noEvent notBar, .nothing free, ?_⟩
            exact fun text => Text.closesFlat_plain (Token.all_plain_normal known delimits)
        | some found =>
            have isEvent :=
              @Focus.event?_eq_some before after here _ _ _ rfl noSide delimits freeBefore
            obtain ⟨later, settles, behind⟩ := kept.event sound isEvent notBar
            refine ⟨later, _, behind, .nothing free, fun text => ?_⟩
            rw [Token.normal_of_delimiter? delimits, List.singleton_append,
              Text.closesFlat_bracket _ (settles.steps (2 * isOpen.toNat))]
      · have noEvent : Focus.event? ⟨before, here, after⟩ = none := by
          simp only [Focus.event?, noSide, Focus.sizedBy?_eq_some isSide sized,
            Option.isSome_some, if_true]
        refine ⟨stack, _, kept.pass sound noEvent notBar, .nothing free, fun text => ?_⟩
        rw [Token.normal_of_delimiter? delimits, List.singleton_append,
          Text.closesFlat_bracket _ steps]

end Lexeme.IsSound

namespace Text

open Lexeme

/-- The parentheses that are open in front of sound lexemes are closed by their normal text. -/
theorem closesFlat_ofTokens {isOpen : Bool} {before lexemes : List Lexeme}
    {stack : List DelimiterEvent} {depth : Nat} (sound : IsSound isOpen before stack lexemes)
    (awaits : Awaits isOpen before stack lexemes depth) :
    closesFlat depth (ofTokens isOpen (lexemes.map Lexeme.token)) = true := by
  generalize shape : lexemes.map Lexeme.token = tokens
  revert before lexemes stack depth
  fun_induction ofTokens isOpen tokens with
  | case1 isOpen =>
      intro before lexemes stack depth sound awaits shape
      obtain rfl := List.map_eq_nil_iff.1 shape
      cases awaits with
      | nothing free =>
          obtain ⟨noStack, noBar⟩ := sound.of_nil
          rw [noStack, noBar]
          rfl
      | delimiter _ isNext => cases isNext
  | case2 isOpen token rest side isSide next later after delimiter isDelimiter ih =>
      intro before lexemes stack depth sound awaits shape
      obtain ⟨here, others, rfl, rfl, rfl⟩ := List.map_eq_cons_iff.1 shape
      obtain ⟨-, rfl⟩ := awaits.free_of_side? isSide
      obtain ⟨blanks, found, behind, rfl, allBlank, rfl, rfl⟩ := exists_of_dropWhile_isBlank after
      obtain ⟨event, isEvent, opens⟩ := Focus.exists_event?_of_sized isSide
        (Focus.sizedDelimiter?_of_blanks allBlank isDelimiter)
      obtain ⟨front, later, settles, free, soundBehind⟩ :=
        (IsSound.isKept isOpen).of_sized sound isSide allBlank isDelimiter isEvent
      have steps := settles.steps (2 * isOpen.toNat)
      rw [opens] at steps
      rw [closesFlat_side delimiter steps]
      exact ih soundBehind (.nothing free) rfl
  | case3 isOpen token rest side isSide next later after noDelimiter ih =>
      intro before lexemes stack depth sound awaits shape
      obtain ⟨here, others, rfl, rfl, rfl⟩ := List.map_eq_cons_iff.1 shape
      obtain ⟨later, soundBehind, awaitsBehind⟩ := sound.of_side awaits isSide (by
        rw [after, List.head?_cons, Option.any_some, noDelimiter]
        rfl)
      exact ih soundBehind awaitsBehind rfl
  | case4 isOpen token rest side isSide none ih =>
      intro before lexemes stack depth sound awaits shape
      obtain ⟨here, others, rfl, rfl, rfl⟩ := List.map_eq_cons_iff.1 shape
      obtain ⟨later, soundBehind, awaitsBehind⟩ := sound.of_side awaits isSide (by
        rw [none]
        rfl)
      exact ih soundBehind awaitsBehind rfl
  | case5 isOpen rest _ ih =>
      intro before lexemes stack depth sound awaits shape
      obtain ⟨here, others, rfl, isBar, rfl⟩ := List.map_eq_cons_iff.1 shape
      have significant : here.token.isSignificant = true := by rw [isBar]; rfl
      have noSide : here.token.side? = none := by rw [isBar]; rfl
      have noDelimiter : here.token.delimiter? = none := by rw [isBar]; rfl
      obtain ⟨free, rfl⟩ := awaits.free_of_delimiter? significant noDelimiter
      have alone : Focus.isBar ⟨before, here, others⟩ = true := by
        simp only [Focus.isBar, isBar, Focus.sizedBy?_eq_none free]
        rfl
      rw [closesFlat_bar]
      refine ih (sound.of_bar (Focus.event?_eq_none rfl noSide noDelimiter) alone) ?_ rfl
      exact .nothing ((pending?_cons significant before).trans noSide)
  | case6 isOpen token rest noSide noBar ih =>
      intro before lexemes stack depth sound awaits shape
      obtain ⟨here, others, rfl, rfl, rfl⟩ := List.map_eq_cons_iff.1 shape
      obtain ⟨later, laterDepth, soundBehind, awaitsBehind, same⟩ :=
        sound.of_other awaits noSide noBar
      rw [same]
      exact ih soundBehind awaitsBehind rfl

/-- Exactly the brackets become parentheses. -/
theorem isRound_flatBracket (c : Char) : isRound (flatBracket c) = isBracket c := by
  rcases isBracket_cases c with plain | ⟨bracket, rfl | rfl⟩
  · rw [flatBracket_plain plain, isRound_of_plain plain, plain]
  · cases bracket <;> rfl
  · cases bracket <;> rfl

/-- What is no bracket may be left out. -/
theorem closesFlat_filter_isBracket (depth : Nat) (text : Text) :
    closesFlat depth (text.filter isBracket) = closesFlat depth text := by
  have same : text.filter isBracket = text.filter (isRound ∘ flatBracket) := by
    apply List.filter_congr
    intro c _
    exact (isRound_flatBracket c).symm
  rw [closesFlat, same, ← List.filter_map, closesFrom_filter_isRound]
  rfl

/-- The normal text of a formula without issues is balanced, braces and square brackets read as
parentheses, when it has found the delimiters that the check has found behind every `\left` and
`\right`.  Comments there are what it does not pass over. -/
theorem isBalanced_normal {formula : Text} (noIssues : formula.issues = [])
    (found : ∀ focus ∈ Focus.all formula.lexemes, focus.isFound = true) :
    IsBalanced (formula.normal.map flatBracket) := by
  have sound := IsSound.of_issues_eq_nil noIssues found
  have closes := closesFlat_ofTokens sound (.nothing rfl)
  rw [← closesFlat_filter_isBracket, ← filter_isBracket_normal,
    closesFlat_filter_isBracket] at closes
  exact isBalanced_iff_closesFrom.2 closes

/-- A comment may stand in front of a parenthesis that opens as much by itself, and bars may cross
the other delimiters. -/
theorem isBalanced_normal_of_crossing :
    issues "\\left%\n(|x\\right]|\\ ".toList = [] ∧
      (∀ focus ∈ Focus.all (lexemes "\\left%\n(|x\\right]|\\ ".toList), focus.isFound = true) ∧
        IsBalanced ((normal "\\left%\n(|x\\right]|\\ ".toList).map flatBracket) := by
  have noIssues : issues "\\left%\n(|x\\right]|\\ ".toList = [] := by decide +kernel
  have found : ∀ focus ∈ Focus.all (lexemes "\\left%\n(|x\\right]|\\ ".toList),
      focus.isFound = true := by decide +kernel
  exact ⟨noIssues, found, isBalanced_normal noIssues found⟩

/-- A comment in front of a bar is skipped by the check, and makes it a bare bar in normal text:
`(abs(x)` is not balanced. -/
theorem not_isBalanced_normal_of_comment :
    issues "\\left%\n|x\\right|".toList = [] ∧
      ¬ IsBalanced ((normal "\\left%\n|x\\right|".toList).map flatBracket) := by
  constructor
  · decide +kernel
  · decide +kernel

end Text

end TexCalc

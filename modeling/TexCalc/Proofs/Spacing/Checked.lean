import TexCalc.Proofs.Spacing.Fitting
import TexCalc.Proofs.Tex.Normal

/-!
# The check of a formula with other spacers

The check of a formula looks across a blank in several ways.  Another spacer is noticed by a
neighbour that looks for the nearest significant lexeme, by a command that looks for an argument
just there, and by a pair of brackets with nothing else inside.  Where none of them is, the check
finds no fault with one spacer that it does not find with the other.
-/

namespace TexCalc

/-- Whether a command looks for an argument behind the given text that follows it. -/
def Lexeme.seeks (lexeme : Lexeme) (between : Text) : Bool :=
  match lexeme.token with
  | .control name =>
      if Command.isFraction name then between.seeksArgument 2
      else if Command.isRoot name then between.seeksRadicand
      else false
  | .subscript => between.seeksArgument 1
  | _ => false

/-- Whether the spacer is a run of blanks. -/
def Spacer.isBlank (spacer : Spacer) : Bool :=
  spacer.token == .blank

namespace Focus

/-- Whether a neighbour looks for the nearest significant lexeme: a `\left` or `\right` for its
delimiter, a `^` for its exponent, a script for its base. -/
def isBridged (focus : Focus) : Bool :=
  focus.previous?.any (fun previous =>
      previous.token.side?.isSome || previous.token == .superscript) ||
    focus.next?.any (·.token.isScript)

/-- Whether a command in front looks for an argument just here. -/
def isSought (focus : Focus) : Bool :=
  (all focus.before.reverse).any fun earlier => earlier.here.seeks earlier.following

/-- Whether the lexeme in focus stands alone in a group. -/
def isAlone (focus : Focus) : Bool :=
  (focus.previous?.any (·.token == .openBrace) && focus.next?.all (·.token == .closeBrace)) ||
    Text.enclose (Text.ofLexemes focus.before.reverse) focus.following

/-- The same lexeme in front of more lexemes. -/
def extend (focus : Focus) (lexemes : List Lexeme) : Focus :=
  { focus with after := focus.after ++ lexemes }

@[simp] theorem here_extend (focus : Focus) (lexemes : List Lexeme) :
    (focus.extend lexemes).here = focus.here :=
  rfl

@[simp] theorem after_extend (focus : Focus) (lexemes : List Lexeme) :
    (focus.extend lexemes).after = focus.after ++ lexemes :=
  rfl

@[simp] theorem previous?_extend (focus : Focus) (lexemes : List Lexeme) :
    (focus.extend lexemes).previous? = focus.previous? :=
  rfl

theorem following_extend (focus : Focus) (lexemes : List Lexeme) :
    (focus.extend lexemes).following = focus.following ++ Text.ofLexemes lexemes := by
  simp [following, extend, Text.ofLexemes]

theorem allFrom_append (before front rest : List Lexeme) :
    allFrom before (front ++ rest) =
      (allFrom before front).map (·.extend rest) ++ allFrom (front.reverse ++ before) rest := by
  induction front generalizing before with
  | nil => rfl
  | cons here front ih =>
      rw [List.cons_append, allFrom, ih, allFrom, List.map_cons, List.cons_append,
        List.reverse_cons, List.append_assoc, List.singleton_append]
      rfl

end Focus

/-! ## Two spacers in one place -/

namespace Spacer

variable (spacer : Spacer)

/-- A spacer has no meaning of its own, and an operand is looked for past it. -/
theorem facts_token : spacer.token.isPassedOver = true ∧ spacer.token.side? = none ∧
    spacer.token.delimiter? = none ∧ spacer.token.sizedDelimiter? = none ∧
    spacer.token.isBase = false ∧ spacer.token.beginsExponent = false ∧
    spacer.token.command? ≠ some .log ∧ spacer.token ≠ .openBrace ∧ spacer.token ≠ .closeBrace := by
  cases spacer with
  | command sign isSpacing =>
      simp only [List.mem_cons, List.not_mem_nil, or_false] at isSpacing
      simp only [token]
      clear * - isSpacing
      rcases isSpacing with rfl | rfl | rfl | rfl <;> decide
  | tie => decide
  | blanks => simp only [token]; decide

theorem isSignificant_token : spacer.token.isSignificant = !spacer.isBlank := by
  cases spacer <;> rfl

/-- A spacer is no fault, no delimiter and no bar. -/
theorem isIdle_focus {focus : Focus} (isSpacer : focus.here.token = spacer.token) :
    focus.fault? = none ∧ focus.event? = none ∧ focus.isBar = false := by
  obtain ⟨_, noSide, noDelimiter, _⟩ := spacer.facts_token
  refine ⟨?_, by simp [Focus.event?, isSpacer, noSide, noDelimiter], ?_⟩
  · rw [Focus.fault?, isSpacer]
    cases spacer with
    | command sign isSpacing =>
        simp only [List.mem_cons, List.not_mem_nil, or_false] at isSpacing
        simp only [token, Focus.controlFault?, isSpacer]
        rcases isSpacing with rfl | rfl | rfl | rfl <;> rfl
    | _ => rfl
  · rw [Focus.isBar, isSpacer]
    cases spacer <;> rfl

/-- Behind a spacer the nearest significant lexeme is no `\left` or `\right` if there is none in
front of it. -/
theorem noSide_nearest {before : List Lexeme} {lexeme : Lexeme}
    (isSpacer : lexeme.token = spacer.token)
    (noSide : ∀ here, before.find? (·.token.isSignificant) = some here → here.token.side? = none)
    (here : Lexeme) (nearest : (lexeme :: before).find? (·.token.isSignificant) = some here) :
    here.token.side? = none := by
  rw [List.find?_cons, isSpacer, spacer.isSignificant_token] at nearest
  cases blank : spacer.isBlank <;> rw [blank] at nearest
  · obtain rfl := Option.some.inj nearest
    rw [isSpacer]
    exact spacer.facts_token.2.1
  · exact noSide here nearest

/-- Every spacer leaves a space. -/
theorem ofTokens_token (isOpen : Bool) (rest : List Token) :
    Text.ofTokens isOpen (spacer.token :: rest) = ' ' :: Text.ofTokens isOpen rest := by
  obtain ⟨_, noSide, _, noDelimiter, _⟩ := spacer.facts_token
  have isNormal : spacer.token.normal = [' '] := by
    cases spacer with
    | command sign isSpacing =>
        simp only [List.mem_cons, List.not_mem_nil, or_false] at isSpacing
        rcases isSpacing with rfl | rfl | rfl | rfl <;> rfl
    | _ => rfl
  rw [Text.ofTokens_cons_inert (by simp [Token.isInert, noSide, noDelimiter]), isNormal]
  rfl

theorem isAllBlank_text : spacer.text.isAllBlank = spacer.isBlank := by
  cases spacer with
  | blanks run nonempty isAllBlank => exact isAllBlank
  | _ => rfl

end Spacer

namespace Focus

/-- The lexeme in focus is a spacer in both, and everything around it is the same. -/
structure Exchanges (old new : Spacer) (first second : Focus) : Prop where
  before : second.before = first.before
  after : List.Forall₂ Lexeme.IsCopy first.after second.after
  oldToken : first.here.token = old.token
  oldSource : first.here.source = old.text
  newToken : second.here.token = new.token
  newSource : second.here.source = new.text

namespace Exchanges

variable {old new : Spacer} {first second : Focus} (exchanges : Exchanges old new first second)

include exchanges

theorem symm : Exchanges new old second first where
  before := exchanges.before.symm
  after := exchanges.after.flip.imp fun _ _ copy => ⟨copy.1.symm, copy.2.symm⟩
  oldToken := exchanges.newToken
  oldSource := exchanges.newSource
  newToken := exchanges.oldToken
  newSource := exchanges.oldSource

theorem following : second.following = first.following :=
  Lexeme.ofLexemes_copies exchanges.after

theorem previous : second.previous? = first.previous? := by
  rw [previous?, exchanges.before, ← previous?]

theorem next : second.next?.map Lexeme.token = first.next?.map Lexeme.token :=
  Lexeme.map_token_find? (Lexeme.alike_of_copies exchanges.after _)

theorem isBridged_eq : second.isBridged = first.isBridged := by
  rw [isBridged, isBridged, exchanges.previous,
    Lexeme.any_token_eq exchanges.next Token.isScript]

theorem isSought_eq : second.isSought = first.isSought := by
  rw [isSought, isSought, exchanges.before]

theorem isAlone_eq : second.isAlone = first.isAlone := by
  have closes := Lexeme.any_token_eq exchanges.next (· != .closeBrace)
  have all (found : Option Lexeme) :
      found.all (·.token == .closeBrace) = !found.any (·.token != .closeBrace) := by
    cases found <;> simp [bne]
  rw [isAlone, isAlone, exchanges.previous, exchanges.before, exchanges.following, all, all, closes]

end Exchanges

/-- Nothing around the old spacer finds a fault only because it meets the new one instead. -/
structure Permits (old new : Spacer) (focus : Focus) : Prop where
  unbridged : focus.isBridged = true → old.isBlank = true ∧ new.isBlank = true
  unsought : focus.isSought = true → old.isSkipped = true
  accompanied : focus.isAlone = true → new.isBlank = true → old.isBlank = true

/-- A significant lexeme in front with nothing significant behind it is the nearest one. -/
theorem previous?_eq {focus : Focus} {lead behind : List Lexeme} {here : Lexeme}
    (whole : focus.before.reverse = lead ++ here :: behind)
    (significant : here.token.isSignificant = true)
    (none : behind.find? (·.token.isSignificant) = none) : focus.previous? = some here := by
  have backwards := congrArg List.reverse whole
  rw [List.reverse_reverse, List.reverse_append, List.reverse_cons, List.append_assoc,
    List.singleton_append] at backwards
  have nothing : behind.reverse.find? (·.token.isSignificant) = Option.none := by
    simpa [List.find?_eq_none] using none
  rw [previous?, backwards, List.find?_append, nothing, Option.none_or, List.find?_cons, significant]

namespace Permits

variable {old new : Spacer} {focus earlier : Focus} (permits : focus.Permits old new)
  (isEarlier : earlier ∈ all focus.before.reverse)

include permits isEarlier

/-- What looks for the nearest significant lexeme finds one in front of the spacers, or both are
blanks. -/
theorem find?_of_looks
    (looks : earlier.here.token.side?.isSome = true ∨ earlier.here.token = .superscript) :
    (∃ next, earlier.after.find? (·.token.isSignificant) = some next) ∨
      old.isBlank = true ∧ new.isBlank = true := by
  cases found : earlier.after.find? (·.token.isSignificant) with
  | some next => exact .inl ⟨next, rfl⟩
  | none =>
      have significant : earlier.here.token.isSignificant = true := by
        rcases looks with isSide | isScript
        · cases isToken : earlier.here.token <;> rw [isToken] at isSide <;> first | rfl | cases isSide
        · rw [isScript]
          rfl
      refine .inr (permits.unbridged ?_)
      rw [isBridged, previous?_eq (eq_of_mem_all isEarlier) significant found, Option.any_some]
      rcases looks with isSide | isScript
      · rw [isSide]
        rfl
      · simp [isScript]

/-- A command that looks for an argument just here skips the old spacer. -/
theorem skips (seeks : earlier.here.seeks earlier.following = true) : old.isSkipped = true :=
  permits.unsought (List.any_eq_true.2 ⟨earlier, isEarlier, seeks⟩)

/-- The new spacer leaves no group blank. -/
theorem apart : new.text.isAllBlank = true → old.text.isAllBlank = true ∨
    Text.enclose (Text.ofLexemes earlier.before.reverse ++ earlier.here.source ++ earlier.following)
      focus.following = false := by
  intro blank
  have whole : Text.ofLexemes earlier.before.reverse ++ earlier.here.source ++ earlier.following =
      Text.ofLexemes focus.before.reverse := by
    rw [eq_of_mem_all isEarlier]
    simp [Text.ofLexemes, following]
  rw [new.isAllBlank_text] at blank
  rw [old.isAllBlank_text, whole]
  cases enclosed : Text.enclose (Text.ofLexemes focus.before.reverse) focus.following with
  | false => exact .inr rfl
  | true => exact .inl (permits.accompanied (by rw [isAlone, enclosed, Bool.or_true]) blank)

end Permits

namespace Exchanges

variable {old new : Spacer} {first second : Focus} (exchanges : Exchanges old new first second)

include exchanges

/-- The lexemes from the spacer on. -/
theorem alike_append (hidden : Token → Bool) (oldHidden : hidden old.token = true)
    (newHidden : hidden new.token = true) (front : List Lexeme) :
    List.Forall₂ (Lexeme.Alike hidden) (front ++ first.here :: first.after)
      (front ++ second.here :: second.after) := by
  refine List.rel_append (List.forall₂_same.2 fun lexeme _ => .inl rfl) (.cons (.inr ?_) ?_)
  · rw [exchanges.oldToken, exchanges.newToken]
    exact ⟨oldHidden, newHidden⟩
  · exact Lexeme.alike_of_copies exchanges.after hidden

/-- What follows a lexeme in front of the spacers. -/
theorem following_earlier (earlier : Focus) :
    (earlier.extend (first.here :: first.after)).following =
        earlier.following ++ (old.text ++ first.following) ∧
      (earlier.extend (second.here :: second.after)).following =
        earlier.following ++ (new.text ++ first.following) := by
  have same := exchanges.following
  unfold Focus.following Text.ofLexemes at same
  constructor <;> rw [following_extend, Text.ofLexemes, List.flatMap_cons]
  · rw [exchanges.oldSource]
    rfl
  · rw [exchanges.newSource, same]
    rfl

section Permitted

variable (permits : first.Permits old new)

include permits

/-- A brace in front of the spacers encloses something with the new one if it does with the old
one. -/
theorem goesOn_of_openBrace {opener : Lexeme} (isPrevious : first.previous? = some opener)
    (isBrace : opener.token = .openBrace)
    (goesOn : ((first.here :: first.after).find? (·.token.isSignificant)).any
      (·.token != .closeBrace) = true) :
    ((second.here :: second.after).find? (·.token.isSignificant)).any
      (·.token != .closeBrace) = true := by
  have tokens := Lexeme.any_token_eq exchanges.next (· != .closeBrace)
  rw [List.find?_cons, exchanges.newToken, new.isSignificant_token]
  cases newBlank : new.isBlank with
  | false => simp [exchanges.newToken, new.facts_token]
  | true =>
      change second.next?.any (·.token != .closeBrace) = true
      rw [tokens]
      rw [List.find?_cons, exchanges.oldToken, old.isSignificant_token] at goesOn
      cases oldBlank : old.isBlank with
      | true => rwa [oldBlank] at goesOn
      | false =>
          have accompanied : ¬first.isAlone = true := fun alone => by
            have both := permits.accompanied alone newBlank
            rw [oldBlank] at both
            cases both
          rw [isAlone, isPrevious] at accompanied
          simp only [Option.any_some, isBrace, beq_self_eq_true, Bool.true_and, Bool.or_eq_true,
            not_or] at accompanied
          cases isNext : first.next? with
          | none => simp [isNext] at accompanied
          | some next => simpa [isNext, bne] using accompanied.1

/-- Behind the spacers no lexeme tells them apart. -/
theorem nearestAlike :
    NearestAlike (first.here :: first.before) (second.here :: second.before) first.after := by
  rw [NearestAlike, exchanges.before]
  by_cases bridged : first.isBridged = true
  · obtain ⟨oldBlank, newBlank⟩ := permits.unbridged bridged
    rw [List.find?_cons, List.find?_cons, exchanges.oldToken, exchanges.newToken,
      old.isSignificant_token, new.isSignificant_token, oldBlank, newBlank]
    exact .inl rfl
  · simp only [isBridged, Bool.or_eq_true, not_or, Option.any_eq_true, not_exists, not_and] at bridged
    have noSide (here : Lexeme) (isPrevious : first.previous? = some here) :
        here.token.side? = none := by
      simpa using (bridged.1 here isPrevious).1
    exact .inr ⟨old.noSide_nearest exchanges.oldToken noSide,
      new.noSide_nearest exchanges.newToken noSide,
      fun here isNext => Bool.eq_false_iff.2 (bridged.2 here isNext)⟩

section Earlier

variable {earlier : Focus} (isEarlier : earlier ∈ all first.before.reverse)

include isEarlier

theorem map_token_next?
    (looks : earlier.here.token.side?.isSome = true ∨ earlier.here.token = .superscript) :
    (earlier.extend (second.here :: second.after)).next?.map Lexeme.token =
      (earlier.extend (first.here :: first.after)).next?.map Lexeme.token := by
  rcases permits.find?_of_looks isEarlier looks with ⟨next, found⟩ | ⟨oldBlank, newBlank⟩
  · simp only [next?, extend, List.find?_append, found, Option.some_or]
  · refine Lexeme.map_token_find? (exchanges.alike_append _ ?_ ?_ _)
    · rw [old.isSignificant_token, oldBlank]
      rfl
    · rw [new.isSignificant_token, newBlank]
      rfl

/-- An exponent in front of the spacers, or across them, is one with the new spacer too. -/
theorem hasExponent_of_earlier (isScript : earlier.here.token = .superscript)
    (has : (earlier.extend (first.here :: first.after)).hasExponent = true) :
    (earlier.extend (second.here :: second.after)).hasExponent = true := by
  change Lexeme.startsExponent ((earlier.after ++ first.here :: first.after).dropWhile
    (!·.token.isSignificant)) = true at has
  change Lexeme.startsExponent ((earlier.after ++ second.here :: second.after).dropWhile
    (!·.token.isSignificant)) = true
  rcases permits.find?_of_looks isEarlier (.inr isScript) with ⟨next, found⟩ | ⟨oldBlank, newBlank⟩
  · obtain ⟨significant, gap, mid, split, insignificant⟩ := List.find?_eq_some_iff_append.1 found
    have stops (rest : List Lexeme) : (earlier.after ++ rest).dropWhile (!·.token.isSignificant) =
        next :: (mid ++ rest) := by
      rw [split, List.append_assoc, List.dropWhile_append_of_pos, List.cons_append,
        List.dropWhile_cons_of_neg]
      · simp [significant]
      · exact insignificant
    rw [stops, Lexeme.startsExponent] at has ⊢
    split at has
    · rename_i isBrace
      rw [if_pos isBrace]
      cases inner : mid.find? (·.token.isSignificant) with
      | some lexeme =>
          rw [List.find?_append, inner] at has ⊢
          exact has
      | none =>
          rw [List.find?_append, inner, Option.none_or] at has ⊢
          have whole : first.before.reverse =
              earlier.before.reverse ++ earlier.here :: gap ++ next :: mid := by
            rw [eq_of_mem_all isEarlier, split]
            simp
          exact exchanges.goesOn_of_openBrace permits (previous?_eq whole significant inner) isBrace has
    · rename_i noBrace
      rw [if_neg noBrace]
      exact has
  · have alike := exchanges.alike_append (!·.isSignificant)
      (by rw [old.isSignificant_token, oldBlank]; rfl)
      (by rw [new.isSignificant_token, newBlank]; rfl) earlier.after
    rwa [(Lexeme.matched_dropWhile alike).startsExponent_eq]

variable (openly : Text.hidesNext false earlier.following = false)

include openly

theorem controlFault?_earlier {name : Text} (isControl : earlier.here.token = .control name)
    (faultless : (earlier.extend (first.here :: first.after)).controlFault? name = none) :
    (earlier.extend (second.here :: second.after)).controlFault? name = none := by
  obtain ⟨followingOld, followingNew⟩ := exchanges.following_earlier earlier
  have apart := permits.apart isEarlier
  have skips := permits.skips isEarlier
  simp only [controlFault?, here_extend] at faultless ⊢
  cases isSide : earlier.here.token.side? with
  | some side =>
      have tokens := exchanges.map_token_next? permits isEarlier (.inl (by rw [isSide]; rfl))
      have sized := Lexeme.any_token_eq tokens (·.sizedDelimiter?.isSome)
      simp only [isSide, isSome_sizedDelimiter?] at faultless ⊢
      rwa [sized]
  | none =>
      simp only [isSide, followingOld, followingNew] at faultless ⊢
      simp only [Lexeme.seeks, isControl] at skips
      split at faultless
      · rename_i isFraction
        simp only [isFraction, if_true, Option.map_eq_none_iff] at skips faultless ⊢
        exact Malformation.ofFraction?_respaced openly apart skips faultless
      · rename_i noFraction
        simp only [if_neg noFraction] at skips ⊢
        split at faultless
        · rename_i isRoot
          simp only [isRoot, if_true, Option.map_eq_none_iff] at skips faultless ⊢
          exact Malformation.ofRoot?_respaced openly apart skips faultless
        · rename_i noRoot
          have lacks := Lexeme.lacksArgument_alike (exchanges.alike_append
            Token.isPassedOver old.facts_token.1 new.facts_token.1 earlier.after)
          rw [if_neg noRoot, after_extend, lacks]
          exact faultless

/-- The new spacer behind a lexeme makes no fault. -/
theorem fault?_earlier (faultless : (earlier.extend (first.here :: first.after)).fault? = none) :
    (earlier.extend (second.here :: second.after)).fault? = none := by
  simp only [fault?, here_extend] at faultless ⊢
  cases isToken : earlier.here.token with
  | control name =>
      rw [isToken] at faultless
      exact exchanges.controlFault?_earlier permits isEarlier openly isToken faultless
  | superscript =>
      simp only [isToken, exponentFault?_eq_none_iff, previous?_extend] at faultless ⊢
      exact ⟨faultless.1, exchanges.hasExponent_of_earlier permits isEarlier isToken faultless.2⟩
  | subscript =>
      obtain ⟨followingOld, followingNew⟩ := exchanges.following_earlier earlier
      have skips := permits.skips isEarlier
      simp only [Lexeme.seeks, isToken] at skips
      simp only [isToken, subscriptFault?_eq_none_iff, previous?_extend, followingOld,
        followingNew] at faultless ⊢
      exact ⟨faultless.1, Malformation.ofFraction?_respaced openly (permits.apart isEarlier) skips
        faultless.2⟩
  | char c =>
      rw [isToken] at faultless
      exact faultless
  | _ => rfl

theorem fits_earlier : Fits (earlier.extend (first.here :: first.after))
    (earlier.extend (second.here :: second.after)) where
  faultless := exchanges.fault?_earlier permits isEarlier openly
  event := by
    refine map_key_event? rfl (fun isSide => ?_) rfl
    have tokens := exchanges.map_token_next? permits isEarlier (.inl isSide)
    rw [isSome_sizedDelimiter?, isSome_sizedDelimiter?]
    exact Lexeme.any_token_eq tokens (·.sizedDelimiter?.isSome)
  bar := rfl

end Earlier

end Permitted

theorem fits_here : Fits first second := by
  obtain ⟨_, noEvent, noBar⟩ := old.isIdle_focus exchanges.oldToken
  obtain ⟨noFault, noEvent', noBar'⟩ := new.isIdle_focus exchanges.newToken
  exact ⟨fun _ => noFault, by rw [noEvent, noEvent'], by rw [noBar, noBar']⟩

/-- The lexemes of a formula fit those of the formula with another spacer. -/
theorem forall₂_fits_all (permits : first.Permits old new)
    (openly : ∀ earlier ∈ all first.before.reverse,
      Text.hidesNext false earlier.following = false) :
    List.Forall₂ Fits (all (first.before.reverse ++ first.here :: first.after))
      (all (second.before.reverse ++ second.here :: second.after)) := by
  have nearest := exchanges.nearestAlike permits
  have here := exchanges.fits_here
  obtain ⟨before, other, later⟩ := second
  obtain rfl : before = first.before := exchanges.before
  rw [all, all, allFrom_append, allFrom_append, List.reverse_reverse, List.append_nil, ← all]
  refine List.rel_append ?_ (.cons here (forall₂_fits exchanges.after nearest))
  rw [List.forall₂_map_left_iff, List.forall₂_map_right_iff, List.forall₂_same]
  exact fun earlier isEarlier => exchanges.fits_earlier permits isEarlier (openly _ isEarlier)

end Exchanges

/-! ## A visible spacer between neighbours -/

theorem mem_all (focus : Focus) : focus ∈ all (focus.before.reverse ++ focus.here :: focus.after) := by
  rw [all, allFrom_append, List.append_nil, List.reverse_reverse]
  exact List.mem_append_right _ List.mem_cons_self

/-- The nearest significant lexeme is found past a gap. -/
theorem find?_reverse_append {gap : List Lexeme} {here : Lexeme}
    (insignificant : ∀ lexeme ∈ gap, (!lexeme.token.isSignificant) = true)
    (significant : here.token.isSignificant = true) (rest : List Lexeme) :
    (gap.reverse ++ here :: rest).find? (·.token.isSignificant) = some here := by
  have nothing : gap.reverse.find? (·.token.isSignificant) = none :=
    List.find?_eq_none.2 fun lexeme isMember => by
      simpa using insignificant lexeme (List.mem_reverse.1 isMember)
  rw [List.find?_append, nothing, Option.none_or, List.find?_cons, significant]

section Visible

variable {focus : Focus} {spacer : Spacer} (isSpacer : focus.here.token = spacer.token)
  (visible : spacer.isBlank = false)

include isSpacer visible

/-- What looks ahead for the nearest significant lexeme takes a visible spacer for it. -/
theorem exists_fault_of_previous {previous : Lexeme} (isPrevious : focus.previous? = some previous)
    (looks : previous.token.side?.isSome = true ∨ previous.token = .superscript) :
    ∃ other ∈ all (focus.before.reverse ++ focus.here :: focus.after), other.fault? ≠ none := by
  obtain ⟨_, gap, front, whole, insignificant⟩ := List.find?_eq_some_iff_append.1 isPrevious
  obtain ⟨_, _, _, noDelimiter, _, noExponent, _, noBrace, _⟩ := spacer.facts_token
  have significant : focus.here.token.isSignificant = true := by
    rw [isSpacer, spacer.isSignificant_token, visible]
    rfl
  have reached : (gap.reverse ++ focus.here :: focus.after).dropWhile (!·.token.isSignificant) =
      focus.here :: focus.after := by
    rw [List.dropWhile_append_of_pos, List.dropWhile_cons_of_neg]
    · simp [significant]
    · exact fun lexeme isMember => insignificant lexeme (List.mem_reverse.1 isMember)
  have nearest := find?_reverse_append insignificant significant focus.after
  refine ⟨⟨front, previous, gap.reverse ++ focus.here :: focus.after⟩, ?_, fun faultless => ?_⟩
  · rw [whole, List.reverse_append, List.reverse_cons, List.append_assoc, List.append_assoc]
    exact mem_all _
  · rcases looks with isSide | isScript
    · obtain ⟨side, isSide⟩ := Option.isSome_iff_exists.1 isSide
      cases isToken : previous.token with
      | control name =>
          rw [isToken] at isSide
          simp only [fault?, isToken, controlFault?, isSide, isSome_sizedDelimiter?, next?,
            nearest, Option.any_some, isSpacer, noDelimiter] at faultless
          cases faultless
      | _ =>
          rw [isToken] at isSide
          cases isSide
    · simp only [fault?, isScript, exponentFault?_eq_none_iff] at faultless
      have has : Lexeme.startsExponent (List.dropWhile (!·.token.isSignificant)
        (gap.reverse ++ focus.here :: focus.after)) = true := faultless.2
      rw [reached, Lexeme.startsExponent, isSpacer, if_neg noBrace, noExponent] at has
      cases has

/-- A script takes a visible spacer for its base. -/
theorem exists_fault_of_next {next : Lexeme} (isNext : focus.next? = some next)
    (isScript : next.token.isScript = true) :
    ∃ other ∈ all (focus.before.reverse ++ focus.here :: focus.after), other.fault? ≠ none := by
  obtain ⟨_, gap, later, whole, insignificant⟩ := List.find?_eq_some_iff_append.1 isNext
  obtain ⟨_, _, _, _, noBase, _, noLog, _⟩ := spacer.facts_token
  have significant : focus.here.token.isSignificant = true := by
    rw [isSpacer, spacer.isSignificant_token, visible]
    rfl
  have nearest := find?_reverse_append insignificant significant focus.before
  refine ⟨⟨gap.reverse ++ focus.here :: focus.before, next, later⟩, ?_, fun faultless => ?_⟩
  · have isMember := mem_all ⟨gap.reverse ++ focus.here :: focus.before, next, later⟩
    simp only [List.reverse_append, List.reverse_cons, List.reverse_reverse, List.append_assoc,
      List.singleton_append] at isMember
    rw [whole]
    exact isMember
  · simp only [Token.isScript, Bool.or_eq_true, beq_iff_eq] at isScript
    rcases isScript with isToken | isToken
    · simp only [fault?, isToken, exponentFault?_eq_none_iff, previous?, nearest, Option.any_some,
        isSpacer, noBase] at faultless
      cases faultless.1
    · simp only [fault?, isToken, subscriptFault?_eq_none_iff, previous?, nearest, Option.any_some,
        isSpacer, beq_iff_eq] at faultless
      exact noLog faultless.1

theorem exists_fault_of_isBridged (bridged : focus.isBridged = true) :
    ∃ other ∈ all (focus.before.reverse ++ focus.here :: focus.after), other.fault? ≠ none := by
  simp only [isBridged, Bool.or_eq_true, Option.any_eq_true, beq_iff_eq] at bridged
  rcases bridged with ⟨previous, isPrevious, looks⟩ | ⟨next, isNext, isScript⟩
  · exact exists_fault_of_previous isSpacer visible isPrevious looks
  · exact exists_fault_of_next isSpacer visible isNext isScript

end Visible

end Focus

end TexCalc

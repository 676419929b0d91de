import TexCalc.Proofs.Inside.Symbols
import TexCalc.Proofs.Legible.Calls

/-!
# Parked functions of a legible formula

When every function has a group behind it, a parked function is written out through its target
function around that group.  A parked name touches no letter or digit in front of it, so that the
name of the target function does not run into what is there.
-/

namespace TexCalc

namespace Text

variable {letter : Char} {mode : Mode} {limits : Limits} {frames : List Frame}
  {count first second : Nat} {text rest inside : Text} {state next : State} {glyph : Glyph}
  {role : Role}

/-- A function that is called has its group behind it. -/
theorem Follows.exists_group_of_isApplied (applied : text.isApplied = true)
    (follows : Follows (.formula .called) letter ⟨.function false .alone, limits, frames⟩ count text) :
    ∃ (bracket : Bracket) (rest : Text) (group : Group) (first second : Nat),
      text.skipBlanks = bracket.opener :: rest ∧
        Bracket.ofArgument? bracket.opener = some bracket ∧ bracket.group? rest = some group ∧
          first + second = count ∧
            Follows (.formula .called) letter ⟨.idle, limits, []⟩ first group.inside ∧
              Follows (.formula .called) letter ⟨.idle, limits, frames⟩ second group.rest := by
  have skipped := follows.skipBlanks
  unfold isApplied at applied
  cases start : text.skipBlanks with
  | nil => simp [start] at applied
  | cons c rest =>
      rw [start] at applied skipped
      obtain ⟨bracket, isOpener⟩ := Option.isSome_iff_exists.1 applied
      obtain rfl := opener_of_ofArgument? isOpener
      obtain ⟨resume, inner, group, first, second, opens, found, isSum, isInside, isRest⟩ :=
        exists_group skipped
      have fixed : bracket ≠ .square := by
        rintro rfl
        cases isOpener
      simp only [Grammar.formula, if_neg fixed, Option.some.injEq, Prod.mk.injEq,
        Limits.behind_alone] at opens
      obtain ⟨rfl, rfl⟩ := opens
      exact ⟨bracket, rest, group, first, second, rfl, isOpener, found, isSum, isInside, isRest⟩

/-- Where calls are completed, a glyph leaves a place where no argument is expected or a group
follows. -/
theorem Follows.IsSettled.step_called (isSettled : IsSettled state (glyph.source ++ rest))
    (isRole : glyph.role? rest = some role) (noWord : ∀ name, glyph ≠ .word name)
    (moves : (Grammar.formula .called).step state role = some next) : IsSettled next rest := by
  by_cases isCall : ∃ callable, glyph = .call callable
  · obtain ⟨callable, rfl⟩ := isCall
    obtain ⟨mode, limits, frames⟩ := state
    obtain ⟨rfl, -, -⟩ := Glyph.exists_call isRole
    obtain ⟨behind, isNext, rfl⟩ := Grammar.exists_of_step rfl moves
    obtain ⟨-, rfl, allowed⟩ := isSettled.isIdle isNext
    have applied : rest.isApplied = true := by simpa [Stage.allowsCall, Stage.called] using allowed
    exact ⟨.inr ⟨rfl, applied⟩, isSettled.frames⟩
  · exact isSettled.step isRole noWord (not_exists.1 isCall) moves

end Text

namespace Parked

variable {letter : Char} {mode : Mode} {limits : Limits} {frames : List Frame}
  {first second : Nat} {text inside rest : Text} {bracket : Bracket} {group : Group}

theorem writtenOut_of_group (parked : Parked) (start : text.skipBlanks = bracket.opener :: rest)
    (isOpener : Bracket.ofArgument? bracket.opener = some bracket)
    (found : bracket.group? rest = some group) :
    parked.writtenOut text = parked.applied group.inside ++ group.rest := by
  simp only [writtenOut, start, isOpener, Option.bind_some, found]

theorem target_mem (parked : Parked) : parked.target ∈ Vocabulary.functionNames := by
  rcases parked with ⟨function, inverse⟩
  cases function <;> cases inverse <;> decide

/-- The parked function of a group may stand where its name may stand. -/
theorem applied_append (parked : Parked)
    (isNext : (Grammar.formula .called).next mode limits (.call true) =
      some (.function false .alone))
    (opens : (Grammar.formula .called).opens mode limits .round = some (.idle, limits))
    (isInside : Text.Follows (.formula .called) letter ⟨.idle, limits, []⟩ first inside)
    (later : Text.Follows (.formula .called) letter ⟨.idle, limits, frames⟩ second rest) :
    Text.Follows (.formula .called) letter ⟨mode, limits, frames⟩ (first + second)
      (parked.applied inside ++ rest) := by
  obtain ⟨target, isTarget, isStandard⟩ := Callable.exists_of_mem parked.target_mem
  have same := Limits.behind_alone limits
  rw [applied]
  split
  · have quotient : Text.Follows (.formula .called) letter ⟨.idle, limits, []⟩ (first + 0)
        ('1' :: '/' :: (inside.wrap ++ [])) :=
      ((isInside.wrapped .ended).mark_cons rfl rfl).cons rfl rfl rfl
    have whole := Text.Follows.call_append target isStandard isNext (same ▸ quotient) later
    rw [isTarget] at whole
    simpa using whole
  · have isCall := Grammar.next_idle_call .called limits
    have call := Text.Follows.call_append target isStandard isCall (same ▸ isInside) .ended
    have quotient : Text.Follows (.formula .called) letter ⟨.idle, limits, []⟩ (first + 0)
        ('1' :: '/' :: (target.text ++ (inside.parenthesized ++ []))) :=
      (call.mark_cons rfl rfl).cons rfl rfl rfl
    have whole := Text.Follows.parenthesized_append opens quotient later
    rw [isTarget] at whole
    simpa using whole

end Parked

namespace Text

variable {letter : Char} {state : State} {count : Nat} {new old text rest : Text} {glyph : Glyph}
  {role : Role}

/-- The role of a character does not depend on a parked name that touches it from behind. -/
theorem role?_of_touchesMark (isRole : glyph.role? old = some role)
    (touches : old.touchesMark = true) (noWord : ∀ name, glyph ≠ .word name) (new : Text) :
    glyph.role? new = some role ∧ ∃ c, glyph = .char c ∧ c.isAlpha = false := by
  have apart (noChar : ∀ c, glyph ≠ .char c) : False := by
    rw [touchesMark_of_endsRun (Glyph.endsRun_of_role? isRole noChar noWord)] at touches
    cases touches
  cases glyph with
  | call callable => exact (apart (by simp)).elim
  | value name => exact (apart (by simp)).elim
  | word name => exact absurd rfl (noWord name)
  | char c =>
      cases letter : c.isAlpha with
      | false =>
          rw [Glyph.role?_of_not_isAlpha letter] at isRole ⊢
          exact ⟨isRole, c, rfl, letter⟩
      | true =>
          have word : c.isAlphanum = true := by simp [Char.isAlphanum, letter]
          have begins : beginsName (c :: old) = true := by
            rw [beginsName, touchesMark_cons, if_pos word, touches]
            simp [letter]
          simp [Glyph.role?, begins] at isRole

theorem isApplied_of_touchesMark (touches : text.touchesMark = true) : text.isApplied = false := by
  cases text with
  | nil => rfl
  | cons c text =>
      rw [touchesMark_cons] at touches
      split at touches
      · rename_i word
        rw [isApplied, skipBlanks_cons (isAsciiBlank_eq_false_of_isAlphanum word)]
        simp [Bracket.ofArgument?_of_isAlphanum word]
      · rw [beq_iff_eq] at touches
        subst touches
        rfl

/-- A parked name further behind may be written out. -/
theorem standsFor_of_touchesMark {c : Char} (touches : old.touchesMark = true)
    (noMark : c ≠ Parked.mark) (new : Text) :
    touchesMark (c :: old) = true ∨ StandsFor (c :: new) (c :: old) := by
  cases word : c.isAlphanum with
  | true => exact .inl (by rw [touchesMark_cons, if_pos word, touches])
  | false =>
      refine .inr (.of_ends (by simp [endsRun, Text.isNameChar, word, noMark]) fun applied => ?_)
      cases blank : isAsciiBlank c with
      | false => rwa [isApplied, skipBlanks_cons blank] at applied ⊢
      | true =>
          have behind : isApplied (c :: old) = old.isApplied := by
            simp [isApplied, skipBlanks, blank]
          rw [behind, isApplied_of_touchesMark touches] at applied
          cases applied

/-- The name of a function or a constant has no mark. -/
theorem mark_not_mem_source (isRole : glyph.role? rest = some role)
    (noWord : ∀ name, glyph ≠ .word name) (noParked : ∀ parked, glyph ≠ .call (.parked parked)) :
    Parked.mark ∉ glyph.source := by
  cases glyph with
  | char c => simpa [Glyph.source] using Ne.symm (Glyph.ne_mark_of_role? isRole)
  | value name => exact not_mem_of_all (by decide) name.all_isAlphanum
  | word name => exact absurd rfl (noWord name)
  | call callable =>
      cases callable with
      | function name => exact not_mem_of_all (by decide) name.all_isAlphanum
      | parked waiting => exact absurd rfl (noParked waiting)

/-- In a legible formula parked functions are written out around their arguments. -/
theorem Follows.expandParked (isSettled : IsSettled state text) (noBack : '\\' ∉ text)
    (follows : Follows (.formula .called) letter state count text) :
    Follows (.formula .called) letter state count text.expandParked ∧
      (text.touchesMark = true ∨ text.expandParked.StandsFor text) := by
  induction follows with
  | done count closes => exact ⟨.done count closes, .inr (.refl _)⟩
  | @glyph state next glyph rest role count isRole moves later ih =>
      rw [List.mem_append, not_or] at noBack
      have noWord (name : Text) : glyph ≠ .word name := by
        rintro rfl
        exact noBack.1 List.mem_cons_self
      obtain ⟨follows, standsFor⟩ := ih (isSettled.step_called isRole noWord moves) noBack.2
      by_cases isParked : ∃ parked, glyph = .call (.parked parked)
      · obtain ⟨parked, rfl⟩ := isParked
        obtain ⟨mode, limits, frames⟩ := state
        obtain ⟨rfl, -, -⟩ := Glyph.exists_call isRole
        obtain ⟨behind, isNext, rfl⟩ := Grammar.exists_of_step rfl moves
        obtain ⟨isMode, rfl, allowed⟩ := isSettled.isIdle isNext
        have applied : rest.isApplied = true := by
          simpa [Stage.allowsCall, Stage.called] using allowed
        have ends := Glyph.endsRun_of_role? isRole (by simp) (by simp)
        have stands : rest.expandParked.StandsFor rest := standsFor.resolve_left fun touches => by
          rw [touchesMark_of_endsRun ends] at touches
          cases touches
        obtain ⟨bracket, behind, group, first, second, start, isOpener, found, isSum, isInside,
          isRest⟩ := follows.exists_group_of_isApplied (stands.applied applied)
        refine ⟨?_, .inl rfl⟩
        rw [Glyph.source, Callable.text, Parked.expandParked_name,
          parked.writtenOut_of_group start isOpener found]
        have isCall : (Grammar.formula .called).next mode limits (.call true) =
            some (.function false .alone) := by rcases isMode with rfl | rfl <;> rfl
        have opens : (Grammar.formula .called).opens mode limits .round = some (.idle, limits) := by
          rcases isMode with rfl | rfl <;> rfl
        exact (parked.applied_append isCall opens isInside isRest).mono_count (by omega)
      · have noMark := mark_not_mem_source isRole noWord (not_exists.1 isParked)
        rw [Parked.expandParked_append noMark]
        rcases standsFor with touches | standsFor
        · obtain ⟨isRole', c, rfl, -⟩ := role?_of_touchesMark isRole touches noWord rest.expandParked
          exact ⟨.glyph isRole' moves follows, standsFor_of_touchesMark touches
            (Glyph.ne_mark_of_role? isRole) rest.expandParked⟩
        · exact ⟨.glyph_of_standsFor isRole moves follows standsFor, .inr (standsFor.append _)⟩

end Text

end TexCalc

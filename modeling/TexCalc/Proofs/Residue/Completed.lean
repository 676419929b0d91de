import TexCalc.Linear.Flat
import TexCalc.Linear.Power
import TexCalc.Linear.Reciprocal
import TexCalc.Proofs.Residue.Concealed
import TexCalc.Proofs.Words.Backslashes
import TexCalc.Proofs.Words.Calls

/-!
# Residue while calls and powers are formed

A callable is found only where no control word goes on, and nothing that is hidden can begin one.
What is put around an argument or an exponent ends with a parenthesis.  Blanks are collapsed and
trimmed behind characters that hide nothing, and so no residue comes out from behind its backslash.
-/

namespace TexCalc

namespace Parked

theorem isClean_name (parked : Parked) : parked.name.all isClean = true := by
  rcases parked with ⟨function, inverse⟩
  cases function <;> cases inverse <;> decide

theorem isClean_target (parked : Parked) : parked.target.all isClean = true := by
  rcases parked with ⟨function, inverse⟩
  cases function <;> cases inverse <;> decide

end Parked

namespace Callable

open Text (Conceals)

theorem isClean_text (callable : Callable) : callable.text.all isClean = true := by
  cases callable with
  | function name =>
      exact List.all_eq_true.2 fun c isMember =>
        isClean_of_isAlphanum (List.all_eq_true.1 name.all_isAlphanum c isMember)
  | parked waiting => exact waiting.isClean_name

theorem conceals_of_append (callable : Callable) {hidden : Bool} {right : Text}
    (conceals : Conceals hidden (callable.text ++ right)) : Conceals false right := by
  have later := conceals.of_append.2
  rwa [Text.hidesNext_word callable.isClean_text callable.text_ne_nil] at later

end Callable

/-! ## Calls -/

namespace Application

open Text (Conceals CutsOpenly)

/-- The parts of an application hide their residue, and so does what is put around its core. -/
structure IsConcealed (application : Application) : Prop where
  core : Conceals false application.core
  rest : Conceals false application.rest
  around (core : Text) (conceals : Conceals false core) :
    Conceals false (application.layers.foldr Layer.around core)

namespace IsConcealed

variable {application : Application}

theorem within_call (concealed : application.IsConcealed) (function : Callable) :
    (application.within (.call function none)).IsConcealed where
  core := concealed.core
  rest := concealed.rest
  around core conceals :=
    .clean_append function.isClean_text (concealed.around core conceals).parenthesized

theorem within_power (concealed : application.IsConcealed) (function : Callable) {exponent : Text}
    (raised : Conceals false exponent) :
    (application.within (.call function (some exponent))).IsConcealed where
  core := concealed.core
  rest := concealed.rest
  around core conceals := by
    have power : Conceals false ('^' :: exponent) := .cons (by decide) raised
    have call := Conceals.clean_append function.isClean_text
      ((concealed.around core conceals).parenthesized_append power)
    rw [← List.append_assoc] at call
    exact call.parenthesized

theorem within_brackets (concealed : application.IsConcealed) :
    (application.within .brackets).IsConcealed where
  core := concealed.core
  rest := concealed.rest
  around core conceals := (concealed.around core conceals).parenthesized

theorem within_sign (concealed : application.IsConcealed) {c : Char} (sign : c = '-' ∨ c = '+') :
    (application.within (.sign c)).IsConcealed where
  core := concealed.core
  rest := concealed.rest
  around core conceals := by
    have clean : isClean c = true := by rcases sign with rfl | rfl <;> decide
    exact .cons clean (concealed.around core conceals)

theorem signed (concealed : application.IsConcealed) {c : Char} (sign : c = '-' ∨ c = '+')
    (operand : Text) : (application.signed c operand).IsConcealed := by
  unfold Application.signed
  split
  · exact concealed.within_brackets.within_sign sign
  · exact concealed.within_sign sign

theorem ofPlain {text rest : Text} (cuts : text.CutsOpenly rest)
    (conceals : Conceals false text) : (Application.ofPlain text rest).IsConcealed where
  core := (cuts.conceals conceals).1
  rest := (cuts.conceals conceals).2
  around _ := id

theorem ofGroup {bracket : Bracket} {text : Text} {group : Group}
    (found : bracket.group? text = some group) (conceals : Conceals false text) :
    (Application.ofGroup group).IsConcealed where
  core := (conceals.of_group? found).1
  rest := (conceals.of_group? found).2
  around _ := id

end IsConcealed

variable {vocabulary : Vocabulary} {text : Text} {application : Application}

theorem ne_backslash_of_ofArgument? {c : Char} {bracket : Bracket}
    (opens : Bracket.ofArgument? c = some bracket) : c ≠ '\\' := by
  rw [← Text.opener_of_ofArgument? opens]
  exact ne_backslash_of_isClean (isClean_opener bracket)

theorem isConcealed_of_ofGroupArgument? (conceals : Conceals false text)
    (found : ofGroupArgument? text = some application) : application.IsConcealed := by
  have skipped := conceals.skipBlanks
  simp only [ofGroupArgument?] at found
  split at found
  · cases found
  · rename_i c rest start
    rw [start] at skipped
    obtain ⟨bracket, opens, isGroup⟩ := Option.bind_eq_some_iff.1 found
    obtain ⟨group, closed, rfl⟩ := Option.map_eq_some_iff.1 isGroup
    exact .ofGroup closed (skipped.tail (ne_backslash_of_ofArgument? opens))

/-- Reading an application brings no residue out from behind its backslash. -/
theorem isConcealed_of_read? {function? : Option Callable} (conceals : Conceals false text)
    (found : read? vocabulary function? text = some application) : application.IsConcealed := by
  fun_induction read? vocabulary function? text generalizing application with
  | case2 function text rest exponent isExponent start ih =>
      have skipped := conceals.skipBlanks
      rw [start] at skipped
      obtain ⟨raised, _, later⟩ := (skipped.tail (by decide)).of_exponent? isExponent
      obtain ⟨inner, isInner, rfl⟩ := Option.map_eq_some_iff.1 found
      exact (ih later.skipBlanks isInner).within_power function raised
  | case5 function text =>
      cases found
      have cuts := CutsOpenly.of_drops (Text.dropsOperand_afterTouching vocabulary text)
      exact (IsConcealed.ofPlain cuts conceals).within_call function
  | case6 function text c rest start _ _ _ ih =>
      have skipped := conceals.skipBlanks
      rw [start] at skipped
      obtain ⟨inner, isInner, rfl⟩ := Option.map_eq_some_iff.1 found
      exact (ih skipped isInner).within_call function
  | case7 text inner after isCallable ih =>
      rw [Vocabulary.eq_of_callableAt? isCallable] at conceals
      have later := inner.conceals_of_append conceals
      rcases Option.or_eq_some_iff.1 found with isRead | ⟨_, isGroup⟩
      · exact ih later isRead
      · obtain ⟨argument, isArgument, rfl⟩ := Option.map_eq_some_iff.1 isGroup
        exact (isConcealed_of_ofGroupArgument? later isArgument).within_call inner
  | case9 c rest _ sign ih =>
      have plain : c ≠ '\\' := by rcases sign with rfl | rfl <;> decide
      obtain ⟨inner, isInner, rfl⟩ := Option.map_eq_some_iff.1 found
      exact (ih (conceals.tail plain).skipBlanks isInner).signed sign _
  | case10 c rest _ _ bracket opens =>
      obtain ⟨group, isGroup, rfl⟩ := Option.map_eq_some_iff.1 found
      exact .ofGroup isGroup (conceals.tail (ne_backslash_of_ofArgument? opens))
  | case11 c rest =>
      cases found
      exact .ofPlain (.of_drops (Text.dropsOperand_afterCoefficient vocabulary _)) conceals
  | case12 c rest =>
      obtain ⟨after, isAfter, rfl⟩ := Option.map_eq_some_iff.1 found
      have passes : Text.Passes false (c :: rest) after := Text.passes_of_afterAtom? isAfter
      exact .ofPlain (.of_passes passes) conceals
  | _ => cases found

end Application

namespace Text

variable {hidden : Bool} {text rest : Text}

/-- What is hidden stands behind the backslash of a control word, where nothing is called. -/
theorem conceals_completeCalls (vocabulary : Vocabulary) {insideWord : Bool}
    (inside : hidden = true → insideWord = true) (conceals : Conceals hidden text) :
    Conceals hidden (text.completeCalls vocabulary insideWord) := by
  have eq_of_found {text rest : Text} {inside : Bool} {function : Callable}
      (found : (if inside then none else vocabulary.callableAt? text) = some (function, rest)) :
      inside = false ∧ text = function.text ++ rest := by
    split at found
    · cases found
    · rename_i outside
      exact ⟨by simpa using outside, Vocabulary.eq_of_callableAt? found⟩
  have outside {hidden : Bool} (inside : hidden = true → false = true) : hidden = false := by
    cases hidden with
    | false => rfl
    | true => exact (inside rfl).symm
  revert hidden
  fun_induction completeCalls vocabulary insideWord text with
  | case1 => exact fun _ _ => trivial
  | case2 insideWord c rest _ ih =>
      intro hidden inside conceals
      refine ⟨conceals.1, ih (fun next => ?_) conceals.2⟩
      rw [(Bool.and_eq_true_iff.1 next).1, Bool.true_or]
  | case3 insideWord c rest function after isCallable _ ih =>
      intro hidden inside conceals
      obtain ⟨rfl, split⟩ := eq_of_found isCallable
      obtain rfl := outside inside
      rw [split] at conceals
      exact .clean_append function.isClean_text (ih inside (function.conceals_of_append conceals))
  | case4 insideWord c rest function after isCallable application isRead core ihCore =>
      rename_i ihRest
      intro hidden inside conceals
      obtain ⟨rfl, split⟩ := eq_of_found isCallable
      obtain rfl := outside inside
      rw [split] at conceals
      have concealed :=
        Application.isConcealed_of_read? (function.conceals_of_append conceals) isRead
      have concealedCore : Conceals false core := by
        cases grouped : application.grouped with
        | true => simpa [core, grouped] using (ihCore inside concealed.core).trim
        | false => simpa [core, grouped] using concealed.core
      refine (concealed.around core concealedCore).append ?_
      obtain ⟨front, ends⟩ := Application.exists_around_eq isRead core
      rw [ends, hidesNext_concat (by decide)]
      exact ihRest inside concealed.rest

theorem conceals_attachArguments (vocabulary : Vocabulary) (conceals : Conceals false text) :
    Conceals false (text.attachArguments vocabulary) :=
  conceals_completeCalls vocabulary (fun hidden => by cases hidden) conceals

end Text

/-! ## Parked functions -/

namespace Parked

open Text (Conceals)

variable {hidden : Bool} {argument right text written : Text}

theorem conceals_applied_append (parked : Parked) (inside : Conceals false argument)
    (later : Conceals false right) : Conceals hidden (parked.applied argument ++ right) := by
  have quotient : ("1/".toList).all isClean = true := by decide
  unfold applied
  split
  · obtain ⟨c, target, isTarget⟩ : ∃ c target, parked.target = c :: target := by
      rcases parked with ⟨function, inverse⟩
      cases function <;> cases inverse <;> exact ⟨_, _, rfl⟩
    have clean := parked.isClean_target
    rw [isTarget, List.all_cons, Bool.and_eq_true] at clean
    rw [isTarget, List.append_assoc]
    exact .cons clean.1 (.clean_append clean.2
      ((Conceals.clean_append quotient inside.wrap).parenthesized_append later))
  · have call : Conceals false ("1/".toList ++ parked.target ++ argument.parenthesized) := by
      rw [List.append_assoc]
      exact .clean_append quotient (.clean_append parked.isClean_target inside.parenthesized)
    exact call.parenthesized_append later

theorem conceals_bare_append (parked : Parked) (later : Conceals false right) :
    Conceals hidden (parked.bare ++ right) := by
  have quotient : ("1/".toList).all isClean = true := by decide
  unfold bare
  split
  · obtain ⟨c, target, isTarget⟩ : ∃ c target, parked.target = c :: target := by
      rcases parked with ⟨function, inverse⟩
      cases function <;> cases inverse <;> exact ⟨_, _, rfl⟩
    have clean := parked.isClean_target
    rw [isTarget, List.all_cons, Bool.and_eq_true] at clean
    rw [isTarget]
    exact .cons clean.1 (.clean_append clean.2 later)
  · have function := Conceals.clean_append quotient (.of_clean parked.isClean_target)
    exact function.parenthesized_append later

theorem conceals_writtenOut (parked : Parked) (later : Conceals false text) :
    Conceals hidden (parked.writtenOut text) := by
  rcases parked.writtenOut_cases text with
    bare | ⟨bracket, rest, group, start, opens, isGroup, applied⟩
  · rw [bare]
    exact parked.conceals_bare_append later
  · have skipped := later.skipBlanks
    rw [start] at skipped
    obtain ⟨inside, behind⟩ :=
      (skipped.tail (Application.ne_backslash_of_ofArgument? opens)).of_group? isGroup
    rw [applied]
    exact parked.conceals_applied_append inside behind

theorem conceals_writeOutLast? (found : writeOutLast? text = some written)
    (conceals : Conceals hidden text) : Conceals hidden written := by
  revert hidden
  refine writeOutLast?_induct (motive := fun text written =>
    ∀ {hidden}, Conceals hidden text → Conceals hidden written) ?_ ?_ found
  · intro parked after hidden conceals
    exact parked.conceals_writtenOut ((Callable.parked parked).conceals_of_append conceals)
  · intro c rest written _ ih hidden conceals
    exact ⟨conceals.1, ih conceals.2⟩

end Parked

namespace Text

variable {hidden : Bool} {text rest : Text}

theorem conceals_expandParked (conceals : Conceals false text) :
    Conceals false text.expandParked :=
  Parked.writeOutUpTo_induct (motive := Conceals false)
    (fun _ _ found kept => Parked.conceals_writeOutLast? found kept) _ conceals

/-! ## Powers -/

theorem isClean_of_isBaseChar {c : Char} (base : isBaseChar c = true) : isClean c = true :=
  isClean_of_accept rfl base

theorem isClean_of_all {accept : Char → Bool}
    (clean : ∀ c, accept c = true → isClean c = true) {run : Text} (all : run.all accept = true) :
    run.all isClean = true :=
  List.all_eq_true.2 fun c isMember => clean c (List.all_eq_true.1 all c isMember)

theorem conceals_power_append {run exponent right : Text} (base : run.all isBaseChar = true)
    (raised : Conceals false exponent) (ends : hidesNext false exponent = false)
    (later : Conceals false right) : Conceals hidden (power run exponent ++ right) := by
  have clean := isClean_of_all (fun _ => isClean_of_isBaseChar) base
  unfold power
  split
  · rename_i coefficient found
    have part : coefficient.all isClean = true := by
      simp only [beforeEuler?] at found
      split at found
      · split at found
        · cases found
          exact List.all_eq_true.2 fun c isMember =>
            List.all_eq_true.1 clean c (List.dropLast_sublist run |>.subset isMember)
        · cases found
      · cases found
    have name : (coefficient ++ "exp".toList).all isClean = true := by
      rw [List.all_append, part]
      rfl
    have call : Conceals false ((if exponent.isEnclosed then exponent
        else exponent.parenthesized) ++ right) := by
      split
      · refine raised.append ?_
        rw [ends]
        exact later
      · exact raised.parenthesized_append later
    rw [exponential, ← List.append_assoc, List.append_assoc]
    obtain ⟨c, front, begins⟩ : ∃ c front, coefficient ++ "exp".toList = c :: front :=
      List.exists_cons_of_ne_nil (by simp)
    rw [begins, List.all_cons, Bool.and_eq_true] at name
    rw [begins]
    exact .cons name.1 (.clean_append name.2 call)
  · have inside : Conceals false (run ++ '^' :: exponent) :=
      .clean_append clean (.cons (by decide) raised)
    exact inside.parenthesized_append later

theorem conceals_resolveExponents (vocabulary : Vocabulary) (conceals : Conceals hidden text) :
    Conceals hidden (text.resolveExponents vocabulary) := by
  have cleanGap {gap : Text} (blank : gap.all isAsciiBlank = true) : gap.all isClean = true :=
    isClean_of_all (fun _ blank => isClean_of_isBlank (isBlank_of_isAsciiBlank blank)) blank
  have behind {run gap script : Text} {hidden : Bool}
      (conceals : Conceals hidden (run ++ (gap ++ '^' :: script))) : Conceals false script :=
    conceals.of_append.2.of_append.2.tail (by decide)
  revert hidden
  refine resolveExponents_induct vocabulary (motive := fun text raised =>
    ∀ {hidden}, Conceals hidden text → Conceals hidden raised) ?_ ?_ ?_ ?_ text
  · exact fun run _ hidden conceals => conceals
  · intro run gap script exponent base _ isExponent ih hidden conceals
    obtain ⟨raised, ends, later⟩ := (ih (behind conceals)).of_exponent? isExponent
    exact conceals_power_append base raised ends later
  · intro run gap script _ blank ih hidden conceals
    obtain ⟨first, middle⟩ := conceals.of_append
    exact first.append (middle.of_append.1.append
      (.cons (by decide) (ih (behind conceals))))
  · intro run c rest _ ih hidden conceals
    obtain ⟨first, later⟩ := conceals.of_append
    exact first.append ⟨later.1, ih later.2⟩

/-! ## Flat text -/

theorem conceals_joinGroups (conceals : Conceals hidden text) :
    Conceals hidden text.joinGroups := by
  fun_induction joinGroups text generalizing hidden with
  | case1 => trivial
  | case2 rest after next ih =>
      have trimmed : Conceals false (trimStart rest) :=
        (conceals.tail (by decide)).dropWhile (by decide)
      rw [next] at trimmed
      have later := ih (trimmed.tail (by decide) : Conceals false after)
      exact .cons (by decide) (.cons (by decide) (.cons (by decide) later))
  | case3 rest _ ih | case4 _ rest _ ih => exact ⟨conceals.1, ih conceals.2⟩

theorem conceals_map_flatBracket (conceals : Conceals hidden text) :
    Conceals hidden (text.map flatBracket) := by
  induction text generalizing hidden with
  | nil => trivial
  | cons c rest ih =>
      rw [List.map_cons]
      unfold flatBracket
      split
      · rename_i opener
        refine .cons (by decide) (ih (conceals.tail ?_))
        rcases opener with rfl | rfl <;> decide
      · split
        · rename_i closer
          refine .cons (by decide) (ih (conceals.tail ?_))
          rcases closer with rfl | rfl <;> decide
        · exact ⟨conceals.1, ih conceals.2⟩

/-- Nothing is hidden behind a blank. -/
theorem conceals_collapseAfter {isBlankBefore : Bool}
    (opens : isBlankBefore = true → hidden = false) (conceals : Conceals hidden text) :
    Conceals hidden (text.collapseAfter isBlankBefore) := by
  have plain {c : Char} (blank : isBlank c = true) : c ≠ '\\' :=
    ne_backslash_of_isClean (isClean_of_isBlank blank)
  fun_induction collapseAfter isBlankBefore text generalizing hidden with
  | case1 => trivial
  | case2 c rest blank ih =>
      rw [opens rfl] at conceals ⊢
      exact ih (fun _ => rfl) (conceals.tail (plain blank))
  | case3 _ c rest blank _ ih =>
      exact .cons (by decide) (ih (fun _ => rfl) (conceals.tail (plain blank)))
  | case4 _ c rest _ ih =>
      exact ⟨conceals.1, ih (fun before => by cases before) conceals.2⟩

theorem conceals_flatten (conceals : Conceals false text) : Conceals false text.flatten := by
  have flat := conceals_map_flatBracket (conceals_joinGroups conceals)
  exact (conceals_collapseAfter (fun _ => rfl) flat).trim

end Text

end TexCalc

import TexCalc.Proofs.Words.Calls

/-!
# Foreign characters

The target language has an alphabet of its own.  Blanks, brackets and backslashes are not in it,
but have a meaning in a formula and disappear on the way.  Any other character outside the alphabet
is foreign: no reader looks at it, so that it is carried along, and it can be counted.
-/

namespace TexCalc

/-- The characters of the target language. -/
def isOutput (c : Char) : Bool :=
  c.isAlphanum || c ∈ ['.', '+', '-', '*', '/', '^', '(', ')', ',']

/-- Characters outside the target language that have no meaning in a formula on one line. -/
def isForeign (c : Char) : Bool :=
  !isOutput c && !isBlank c && c ∉ ['[', ']', '\x7b', '\x7d', '\\']

section

variable {c : Char} (foreign : isForeign c = true)

include foreign

theorem isOutput_eq_false_of_isForeign : isOutput c = false := by
  simp only [isForeign, Bool.and_eq_true, Bool.not_eq_true'] at foreign
  exact foreign.1.1

theorem isBlank_eq_false_of_isForeign : isBlank c = false := by
  simp only [isForeign, Bool.and_eq_true, Bool.not_eq_true'] at foreign
  exact foreign.1.2

theorem ne_of_isForeign {d : Char} (known : isForeign d = false) : d ≠ c := by
  rintro rfl
  rw [foreign] at known
  cases known

theorem ne_of_isAlphanum_of_isForeign {d : Char} (word : d.isAlphanum = true) : d ≠ c := by
  rintro rfl
  have outside := isOutput_eq_false_of_isForeign foreign
  rw [isOutput, word] at outside
  cases outside

namespace Text

/-- A text without foreign characters. -/
theorem count_eq_zero_of_all {text : Text} (known : text.all (!isForeign ·) = true) :
    text.count c = 0 := by
  rw [List.count_eq_zero]
  intro isMember
  have here := List.all_eq_true.1 known c isMember
  rw [foreign] at here
  cases here

theorem count_eq_zero_of_all_isAlphanum {text : Text} (all : text.all Char.isAlphanum = true) :
    text.count c = 0 := by
  rw [List.count_eq_zero]
  intro isMember
  exact ne_of_isAlphanum_of_isForeign foreign (List.all_eq_true.1 all c isMember) rfl

theorem count_eq_zero_of_all_isAlpha {text : Text} (all : text.all Char.isAlpha = true) :
    text.count c = 0 := by
  refine count_eq_zero_of_all_isAlphanum foreign (List.all_eq_true.2 fun d isMember => ?_)
  exact Bool.or_eq_true_iff.2 (.inl (List.all_eq_true.1 all d isMember))

theorem count_cons_of_known {d : Char} (known : isForeign d = false) (text : Text) :
    List.count c (d :: text) = text.count c :=
  List.count_cons_of_ne (ne_of_isForeign foreign known)

theorem count_skipBlanks_of_isForeign (text : Text) :
    text.skipBlanks.count c = text.count c :=
  count_skipBlanks (isBlank_eq_false_of_isForeign foreign) text

theorem count_trimStart_of_isForeign (text : Text) : text.trimStart.count c = text.count c := by
  have blanks : (text.takeWhile isBlank).count c = 0 :=
    count_eq_zero_of_isAllBlank (isBlank_eq_false_of_isForeign foreign) List.all_takeWhile
  conv => rhs; rw [← List.takeWhile_append_dropWhile (p := isBlank) (l := text)]
  rw [List.count_append, blanks, Nat.zero_add]
  rfl

theorem count_trim_of_isForeign (text : Text) : text.trim.count c = text.count c :=
  count_trim (isBlank_eq_false_of_isForeign foreign) text

theorem count_parenthesized_of_isForeign (text : Text) :
    text.parenthesized.count c = text.count c :=
  count_parenthesized
    ⟨(ne_of_isForeign foreign (by decide)).symm, (ne_of_isForeign foreign (by decide)).symm⟩ text

theorem count_wrap_of_isForeign (text : Text) : text.wrap.count c = text.count c :=
  count_wrap (isBlank_eq_false_of_isForeign foreign)
    ⟨(ne_of_isForeign foreign (by decide)).symm, (ne_of_isForeign foreign (by decide)).symm⟩ text

end Text

end

/-! ## Readers -/

theorem isForeign_opener (bracket : Bracket) : isForeign bracket.opener = false := by
  cases bracket <;> decide

theorem isForeign_closer (bracket : Bracket) : isForeign bracket.closer = false := by
  cases bracket <;> decide

namespace Text

/-- A reader that stops at an ending of the text divides its characters. -/
theorem CutsAt.count_eq {text rest : Text} (cut : text.CutsAt rest) (c : Char) :
    text.count c = (text.before rest).count c + rest.count c := by
  obtain ⟨lead, rfl, _⟩ := cut
  rw [before_append, List.count_append]

variable {c : Char} (foreign : isForeign c = true)

include foreign

theorem count_of_group? {bracket : Bracket} {text : Text} {group : Group}
    (found : bracket.group? text = some group) :
    text.count c = group.inside.count c + group.rest.count c := by
  rw [Bracket.eq_of_group? found, List.count_append,
    count_cons_of_known foreign (isForeign_closer bracket)]

/-- A character that opens a group, and the group. -/
theorem count_cons_of_group? {bracket : Bracket} {opener : Char} {text : Text} {group : Group}
    (opens : Bracket.ofArgument? opener = some bracket)
    (found : bracket.group? text = some group) :
    List.count c (opener :: text) = group.inside.count c + group.rest.count c := by
  rw [← opener_of_ofArgument? opens, count_cons_of_known foreign (isForeign_opener bracket),
    count_of_group? foreign found]

theorem count_of_exponent? {vocabulary : Vocabulary} {text : Text} {exponent : Cut}
    (found : text.exponent? vocabulary = some exponent) :
    text.count c = exponent.text.count c + exponent.rest.count c := by
  have skipped := count_skipBlanks_of_isForeign foreign text
  simp only [exponent?] at found
  split at found
  · cases found
  · rename_i d rest start
    rw [start] at skipped
    split at found
    · rename_i bracket opens
      obtain ⟨group, isGroup, rfl⟩ := Option.map_eq_some_iff.1 found
      rw [← skipped, count_cons_of_group? foreign opens isGroup, count_wrap_of_isForeign foreign]
    · split at found
      · rename_i name after isConstant
        cases found
        rw [← skipped, Vocabulary.eq_of_constantAt? isConstant, List.count_append]
      · split at found
        · cases found
          rw [← skipped, ← List.singleton_append, List.count_append]
        · cases found

end Text

/-! ## Calls -/

namespace Application

variable {c : Char} {text : Text} {application : Application}

/-- The characters of an application are those of its core and of what stands around it:
whatever has as many of them as the core may take its place. -/
def KeepsCount (c : Char) (application : Application) (text : Text) : Prop :=
  ∀ core : Text, core.count c = application.core.count c →
    (application.layers.foldr Layer.around core).count c + application.rest.count c = text.count c

namespace KeepsCount

theorem of_count_eq {whole : Text} (same : whole.count c = text.count c)
    (keeps : application.KeepsCount c text) : application.KeepsCount c whole := by
  intro core isCore
  rw [same]
  exact keeps core isCore

theorem within_sign (sign : Char) (keeps : application.KeepsCount c text) :
    (application.within (.sign sign)).KeepsCount c (sign :: text) := by
  intro core same
  have inner := keeps core same
  simp only [within, List.foldr_cons, Layer.around, List.count_cons]
  omega

section

variable (foreign : isForeign c = true)

include foreign

theorem within_brackets (keeps : application.KeepsCount c text) :
    (application.within .brackets).KeepsCount c text := by
  intro core same
  simp only [within, List.foldr_cons, Layer.around, Text.count_parenthesized_of_isForeign foreign]
  exact keeps core same

theorem signed (sign : Char) (operand : Text) (keeps : application.KeepsCount c text) :
    (application.signed sign operand).KeepsCount c (sign :: text) := by
  unfold Application.signed
  split
  · exact (keeps.within_brackets foreign).within_sign sign
  · exact keeps.within_sign sign

theorem within_call (function : Callable) (keeps : application.KeepsCount c text) :
    (application.within (.call function none)).KeepsCount c (function.text ++ text) := by
  intro core same
  have inner := keeps core same
  simp only [within, List.foldr_cons, Layer.around, List.count_append,
    Text.count_parenthesized_of_isForeign foreign]
  omega

/-- The exponent of a function goes behind the argument. -/
theorem within_power (function : Callable) {exponent whole : Text}
    (keeps : application.KeepsCount c text)
    (split : whole.count c = exponent.count c + text.count c) :
    (application.within (.call function (some exponent))).KeepsCount c
      (function.text ++ whole) := by
  intro core same
  have inner := keeps core same
  simp only [within, List.foldr_cons, Layer.around, List.count_append,
    Text.count_parenthesized_of_isForeign foreign,
    Text.count_cons_of_known foreign (show isForeign '^' = false by decide)]
  omega

end

end KeepsCount

theorem keepsCount_ofPlain {rest : Text} (cut : text.CutsAt rest) :
    (ofPlain text rest).KeepsCount c text := by
  intro core same
  rw [cut.count_eq c]
  exact congrArg (· + _) same

variable (foreign : isForeign c = true)

include foreign

theorem keepsCount_ofGroup {bracket : Bracket} {opener : Char} {group : Group}
    (opens : Bracket.ofArgument? opener = some bracket)
    (found : bracket.group? text = some group) : (ofGroup group).KeepsCount c (opener :: text) := by
  intro core same
  rw [Text.count_cons_of_group? foreign opens found]
  exact congrArg (· + _) same

theorem keepsCount_of_ofGroupArgument? (found : ofGroupArgument? text = some application) :
    application.KeepsCount c text := by
  have skipped := Text.count_skipBlanks_of_isForeign foreign text
  simp only [ofGroupArgument?] at found
  split at found
  · cases found
  · rename_i d rest start
    obtain ⟨bracket, opens, isGroup⟩ := Option.bind_eq_some_iff.1 found
    obtain ⟨group, closed, rfl⟩ := Option.map_eq_some_iff.1 isGroup
    rw [start] at skipped
    exact (keepsCount_ofGroup foreign opens closed).of_count_eq skipped.symm

/-- What is read has the characters of the text that it is read from, the name of the function
included. -/
theorem keepsCount_of_read? {vocabulary : Vocabulary} {function? : Option Callable}
    (found : read? vocabulary function? text = some application) :
    application.KeepsCount c ((function?.map Callable.text).getD [] ++ text) := by
  fun_induction read? vocabulary function? text generalizing application with
  | case2 function text rest exponent isExponent start ih =>
      have skipped := Text.count_skipBlanks_of_isForeign foreign text
      have gap := Text.count_skipBlanks_of_isForeign foreign exponent.rest
      rw [start, Text.count_cons_of_known foreign (by decide),
        Text.count_of_exponent? foreign isExponent] at skipped
      obtain ⟨inner, isInner, rfl⟩ := Option.map_eq_some_iff.1 found
      refine (ih isInner).within_power foreign function ?_
      rw [← skipped, ← gap]
      rfl
  | case5 function text =>
      cases found
      exact (keepsCount_ofPlain
        (.of_dropsPlain (Text.dropsPlain_afterTouching vocabulary text))).within_call foreign
          function
  | case6 function text d rest start _ _ _ ih =>
      have skipped := Text.count_skipBlanks_of_isForeign foreign text
      rw [start] at skipped
      obtain ⟨inner, isInner, rfl⟩ := Option.map_eq_some_iff.1 found
      refine ((ih isInner).within_call foreign function).of_count_eq ?_
      simp only [Option.map_some, Option.getD_some, Option.map_none, Option.getD_none,
        List.nil_append, List.count_append, skipped]
  | case7 text inner after isCallable ih =>
      have split := Vocabulary.eq_of_callableAt? isCallable
      rcases Option.or_eq_some_iff.1 found with isRead | ⟨_, isGroup⟩
      · exact (ih isRead).of_count_eq (congrArg (List.count c) split)
      · obtain ⟨argument, isArgument, rfl⟩ := Option.map_eq_some_iff.1 isGroup
        exact ((keepsCount_of_ofGroupArgument? foreign isArgument).within_call foreign
          inner).of_count_eq (congrArg (List.count c) split)
  | case9 d rest isNone sign ih =>
      obtain ⟨inner, isInner, rfl⟩ := Option.map_eq_some_iff.1 found
      refine ((ih isInner).signed foreign d _).of_count_eq ?_
      simp only [Option.map_none, Option.getD_none, List.nil_append, List.count_cons,
        Text.count_skipBlanks_of_isForeign foreign]
  | case10 d rest _ _ bracket opens =>
      obtain ⟨group, isGroup, rfl⟩ := Option.map_eq_some_iff.1 found
      exact keepsCount_ofGroup foreign opens isGroup
  | case11 d rest =>
      cases found
      exact keepsCount_ofPlain (.of_dropsPlain (Text.dropsPlain_afterCoefficient vocabulary _))
  | case12 d rest =>
      obtain ⟨after, isAfter, rfl⟩ := Option.map_eq_some_iff.1 found
      exact keepsCount_ofPlain (Text.cutsAt_of_afterAtom? isAfter)
  | _ => cases found

end Application

namespace Text

variable {c : Char} (foreign : isForeign c = true)

include foreign

/-- Completing calls keeps the foreign characters. -/
theorem count_completeCalls (vocabulary : Vocabulary) (insideWord : Bool) (text : Text) :
    (text.completeCalls vocabulary insideWord).count c = text.count c := by
  have eq_of_found {text rest : Text} {insideWord : Bool} {function : Callable}
      (found : (if insideWord then none else vocabulary.callableAt? text) = some (function, rest)) :
      text = function.text ++ rest := by
    split at found
    · cases found
    · exact Vocabulary.eq_of_callableAt? found
  fun_induction completeCalls vocabulary insideWord text with
  | case1 => rfl
  | case2 insideWord d rest _ ih => rw [List.count_cons, List.count_cons, ih]
  | case3 insideWord d rest function after isCallable _ ih =>
      rw [eq_of_found isCallable, List.count_append, List.count_append, ih]
  | case4 insideWord d rest function after isCallable application isApplication core ihCore ihRest =>
      have sameCore : core.count c = application.core.count c := by
        cases grouped : application.grouped with
        | true => simpa [core, grouped, count_trim_of_isForeign foreign] using ihCore
        | false => simp [core, grouped]
      rw [eq_of_found isCallable, List.count_append, ihRest]
      exact Application.keepsCount_of_read? foreign isApplication core sameCore

theorem count_attachArguments_of_isForeign (vocabulary : Vocabulary) (text : Text) :
    (text.attachArguments vocabulary).count c = text.count c :=
  count_completeCalls foreign vocabulary false text

end Text

end TexCalc

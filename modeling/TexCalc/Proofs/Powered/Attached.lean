import TexCalc.Proofs.Bracketed.Raised
import TexCalc.Proofs.Linear.Attached
import TexCalc.Proofs.Linear.Calls
import TexCalc.Proofs.Polynomial.Formula
import TexCalc.Proofs.Powered.Formula

/-!
# The argument of a function of a power

Without a coefficient the function takes the letter and its exponent, with which a power is formed
in the argument.  With a coefficient it takes the run, and no power is formed behind the call.
-/

namespace TexCalc

namespace Bracketed.Function

/-- The function of an argument when reciprocal functions are written out. -/
def call (function : Function) (argument : Text) : Text :=
  match function.reciprocal? with
  | some _ => Text.parenthesized ("1/".toList ++ (function.target ++ argument.parenthesized))
  | none => function.target ++ argument.parenthesized

/-- A call of the function in its final form. -/
theorem expands_call (function : Function) {argument rest after : Text}
    (neutral : argument.IsNeutral) (noMark : Parked.mark ∉ argument)
    (expands : Parked.Expands rest after) :
    Parked.Expands (function.renamed ++ (argument.parenthesized ++ rest))
      (function.call argument ++ after) := by
  have group : Parked.Expands (argument.parenthesized ++ rest) (argument.parenthesized ++ after) :=
    expands_parenthesized (.append noMark (expands.cons (by decide)))
  rw [renamed, call]
  cases isReciprocal : function.reciprocal? with
  | none =>
      simp only [List.append_assoc]
      exact .append (mark_notMem_of_baseChars (Text.all_isBaseChar function.all_isAlphanum_target))
        group
  | some ratio =>
      simp only [target_eq_base isReciprocal]
      have noGap : ([] : Text).all isAsciiBlank = true := rfl
      exact .reciprocal ratio neutral noGap group

/-- The powers of an argument and of what stands behind the call. -/
theorem raises_call (function : Function) {argument raised rest result : Text}
    (inside : ∀ {rest result : Text}, Text.Raises .standard rest result →
      Text.Raises .standard (argument.parenthesized ++ rest) (raised.parenthesized ++ result))
    (raises : Text.Raises .standard rest result) :
    Text.Raises .standard (function.call argument ++ rest) (function.call raised ++ result) := by
  have name : function.target.all isBaseChar = true :=
    Text.all_isBaseChar function.all_isAlphanum_target
  rw [call, call]
  cases function.reciprocal? with
  | none =>
      simp only [List.append_assoc]
      exact .append name rfl rfl (inside raises)
  | some ratio =>
      refine raises_parenthesized ?_
      simp only [List.append_assoc]
      exact raises_quotient (.append name rfl rfl (inside (raises.cons rfl)))

/-- A command that takes something between its name and its argument is not read off the name of
another function. -/
theorem dropLead?_name_append (function : Bracketed.Function) {lead : Text}
    (isMember : lead ∈ "log".toList :: Text.trigonometric) (rest : Text) :
    Text.dropLead? (function.name ++ ' ' :: rest) lead = none ∨
      Text.dropLead? (function.name ++ ' ' :: rest) lead = some (' ' :: rest) := by
  simp only [Text.trigonometric, List.mem_cons, List.not_mem_nil, or_false] at isMember
  rcases isMember with rfl | rfl | rfl | rfl | rfl | rfl | rfl <;> cases function <;>
    first | exact .inl rfl | exact .inr rfl

end Bracketed.Function

namespace Script

/-- An exponent is read as a whole, a group of braces being one of parentheses then. -/
theorem exponent?_latex (exponent : Script) (rest : Text) :
    Text.exponent? .standard (exponent.latex ++ rest) = some ⟨exponent.printed, rest⟩ := by
  cases exponent with
  | digit symbol => exact Polynomial.exponent?_digit symbol rest
  | braced digits =>
      have isExponent : Text.exponent? .standard (digits.text.braced ++ rest) =
          some ⟨digits.text.wrap, rest⟩ :=
        Text.exponent?_braced (.of_baseChars digits.all_isBaseChar) rest
      have wrapped : digits.text.wrap = digits.text.parenthesized :=
        Bracketed.wrap_line_linear (.numeral digits)
      rw [wrapped] at isExponent
      exact isExponent

theorem not_mem_latex (exponent : Script) :
    ∀ c ∈ exponent.latex, c.isAlpha = false ∧ c ≠ '\\' ∧ c ≠ Parked.mark := by
  have numeral {c : Char} (isNumeral : isNumeralChar c = true) :
      c.isAlpha = false ∧ c ≠ '\\' ∧ c ≠ Parked.mark := by
    simp only [isNumeralChar, Bool.or_eq_true, beq_iff_eq] at isNumeral
    rcases isNumeral with digit | rfl
    · have word : c.isAlphanum = true := by simp [Char.isAlphanum, digit]
      exact ⟨isAlpha_eq_false_of_isDigit digit, ne_of_isAlphanum word (by decide),
        ne_of_isAlphanum word (by decide)⟩
    · decide
  intro c isMember
  cases exponent with
  | digit symbol =>
      rw [List.mem_singleton.1 isMember]
      exact numeral (by simp [isNumeralChar, symbol.isDigit])
  | braced digits =>
      simp only [latex, Text.braced, List.mem_cons, List.mem_append, List.not_mem_nil,
        or_false] at isMember
      rcases isMember with rfl | inside | rfl
      · decide
      · exact numeral (List.all_eq_true.1 digits.all_isNumeralChar c inside)
      · decide

theorem isNeutral_latex (exponent : Script) : exponent.latex.IsNeutral := by
  cases exponent with
  | digit symbol => exact .of_baseChars (all_isBaseChar_digit symbol)
  | braced digits => exact .braced (.of_baseChars digits.all_isBaseChar)

/-- No power is formed in an exponent. -/
theorem raises_latex (exponent : Script) {rest result : Text}
    (ends : rest.endsRun isBaseChar = true) (noScript : rest.beginsScript = false)
    (raises : Text.Raises .standard rest result) :
    Text.Raises .standard (exponent.latex ++ rest) (exponent.latex ++ result) := by
  cases exponent with
  | digit symbol => exact .append (all_isBaseChar_digit symbol) ends noScript raises
  | braced digits =>
      exact Bracketed.raises_braced (.append digits.all_isBaseChar rfl rfl (raises.cons rfl))

end Script

namespace PoweredCall

variable (call : PoweredCall)

theorem not_mem_run {c : Char} (other : isBaseChar c = false) : c ∉ call.run :=
  Text.not_mem_of_all other call.all_isBaseChar_run

theorem not_mem_operand {c : Char} (isOther : c = '\\' ∨ c = Parked.mark) : c ∉ call.operand := by
  have script := call.exponent.not_mem_latex
  simp only [operand, List.mem_append, List.mem_cons, not_or]
  rcases isOther with rfl | rfl
  · exact ⟨call.not_mem_run rfl, by decide, fun isMember => (script _ isMember).2.1 rfl⟩
  · exact ⟨call.not_mem_run rfl, by decide, fun isMember => (script _ isMember).2.2 rfl⟩

/-! ## Commands -/

/-- The only command of the formula is that of the function. -/
theorem renameCommands_latex :
    (((call.latex.resolveStructures).resolveInverses .standard).resolveLogBases
        .standard).renameCommands .standard =
      ' ' :: (call.function.renamed ++ ' ' :: ' ' :: call.operand) := by
  obtain ⟨c, rest, same, word⟩ := call.exists_run_eq
  have plain : '\\' ∉ ' ' :: call.operand := by
    simpa using call.not_mem_operand (.inl rfl)
  have plainName : '\\' ∉ call.function.name ++ ' ' :: call.operand := by
    rw [List.mem_append, not_or]
    exact ⟨Text.not_mem_of_all_isAlpha call.function.all_isAlpha_name, plain⟩
  have visible := isBlank_eq_false_of_isAlphanum word
  have noCaret : c ≠ '^' := ne_of_isAlphanum word (by decide)
  have noSubscript : c ≠ '_' := ne_of_isAlphanum word (by decide)
  have trimmed : Text.trimStart (' ' :: call.operand) = call.operand := by
    have blank : isBlank ' ' = true := by decide
    rw [Text.trimStart, List.dropWhile_cons_of_pos blank, operand, same]
    exact Text.trimStart_eq_of_head visible
  have noScript : Text.afterMinusOne? (' ' :: call.operand) = none := by
    rw [Text.afterMinusOne?, List.foldlM_cons, trimmed, operand, same]
    simp [Text.dropLead?, noCaret]
  have noBase : Text.dropLead? (Text.trimStart (' ' :: call.operand)) ['_'] = none := by
    rw [trimmed, operand, same]
    simp [Text.dropLead?, noSubscript]
  have resolves : Structure.Resolves call.latex call.latex := by
    refine .word call.function.all_isAlpha_name call.function.name_ne_nil ?_ rfl
      (Text.resolves_of_not_mem plain)
    cases call.function <;> decide
  have noInverse : Text.inverseMark? call.latex = none := by
    rw [latex, Text.inverseMark?, List.findSome?_eq_none_iff]
    intro name isMember
    rcases call.function.dropLead?_name_append (List.mem_cons_of_mem _ isMember) call.operand with
      isNone | isSome
    · rw [isNone, Option.bind_none]
    · rw [isSome, Option.bind_some, noScript, Option.bind_none]
  have noLog : (Text.afterLogMark? call.latex).bind Argument.read? = none := by
    have unslashed : Text.afterLogMark? call.latex =
        (Text.dropLead? (call.function.name ++ ' ' :: call.operand) "log".toList).bind
          fun rest => Text.dropLead? (Text.trimStart rest) ['_'] := rfl
    rw [unslashed]
    rcases call.function.dropLead?_name_append List.mem_cons_self call.operand with
      isNone | isSome
    · rw [isNone, Option.bind_none, Option.bind_none]
    · rw [isSome, Option.bind_some, noBase, Option.bind_none]
  have target : Command.rename .standard call.function.name =
      ' ' :: (call.function.renamed ++ [' ']) := by
    cases call.function <;> decide +kernel
  rw [Text.resolveStructures, Structure.resolveUpTo_of_settles resolves.settles]
  rw [latex] at noInverse noLog ⊢
  rw [Text.resolveInverses_cons noInverse, Text.resolveInverses_of_not_mem plainName,
    Text.resolveLogBases_cons noLog, Text.resolveLogBases_of_not_mem plainName,
    Text.renameCommands_word call.function.all_isAlpha_name call.function.name_ne_nil rfl,
    Text.renameCommands_of_not_mem _ plain, target]
  simp

/-! ## The argument -/

theorem read?_operand :
    Application.read? .standard none call.operand =
      some ⟨[], call.attached.text, false, call.attached.rest⟩ := by
  have isExponent := call.exponent.exponent?_latex []
  rw [List.append_nil] at isExponent
  rw [operand, run, attached]
  cases isCoefficient : call.coefficient? with
  | none =>
      simp only [Option.elim_none, List.singleton_append]
      rw [Application.read?_letter call.base.isAlpha rfl,
        Text.afterAtom?_power call.base.isAlpha isExponent]
      simp [Application.ofPlain, Text.before, operand, run, isCoefficient]
  | some digits =>
      have after : Text.afterCoefficient .standard
          (digits.text ++ call.base.char :: '^' :: call.exponent.latex) = '^' :: call.exponent.latex :=
        Text.afterCoefficient_append call.base.isAlpha rfl digits.isNumeral
      have front : digits.text ++ call.base.char :: '^' :: call.exponent.latex =
          (digits.text ++ [call.base.char]) ++ '^' :: call.exponent.latex := by
        rw [List.append_assoc, List.singleton_append]
      simp only [Option.elim_some, List.append_assoc, List.singleton_append]
      rw [Application.read?_coefficient digits.isNumeral, after, Application.ofPlain, front,
        Text.before_append, run, isCoefficient]
      rfl

theorem not_mem_rest :
    ∀ c ∈ call.attached.rest, c.isAlpha = false ∧ c ≠ '\\' ∧ c ≠ Parked.mark := by
  have script := call.exponent.not_mem_latex
  rw [attached]
  cases call.coefficient? with
  | none => exact nofun
  | some digits => exact List.forall_mem_cons.2 ⟨by decide, script⟩

/-- The call that the formula becomes. -/
theorem attachArguments_renamed :
    Text.attachArguments .standard (' ' :: (call.function.renamed ++ ' ' :: ' ' :: call.operand)) =
      ' ' :: (call.function.renamed ++
        (call.attached.text.parenthesized ++ call.attached.rest)) := by
  obtain ⟨c, rest, same, word⟩ := call.exists_run_eq
  obtain ⟨callable, found, name⟩ : ∃ callable, Vocabulary.standard.callableAt?
      (call.function.renamed ++ ' ' :: ' ' :: call.operand) =
        some (callable, ' ' :: ' ' :: call.operand) ∧ callable.text = call.function.renamed := by
    cases call.function <;> exact Vocabulary.exists_callableAt?_eq rfl
  have first : call.operand = c :: (rest ++ '^' :: call.exponent.latex) := by
    rw [operand, same, List.cons_append]
  have start : Text.skipBlanks (' ' :: ' ' :: call.operand) = call.operand := by
    have blank : isAsciiBlank ' ' = true := by decide
    have visible := Text.skipBlanks_cons (isAsciiBlank_eq_false_of_isAlphanum word)
      (rest ++ '^' :: call.exponent.latex)
    rw [Text.skipBlanks, List.dropWhile_cons_of_pos blank, List.dropWhile_cons_of_pos blank, first]
    exact visible
  have application : Application.read? .standard (some callable) (' ' :: ' ' :: call.operand) =
      (Application.read? .standard none call.operand).map (·.within (.call callable none)) := by
    rw [Application.read?_function_of_skipBlanks (start.trans first) word rfl, first]
  rw [call.read?_operand] at application
  have passed : Text.completeCalls .standard false call.attached.rest = call.attached.rest := by
    have whole : Text.completeCalls .standard false (call.attached.rest ++ []) =
        call.attached.rest ++ Text.completeCalls .standard false [] :=
      Text.completeCalls_append call.not_mem_rest []
    rwa [Text.completeCalls, List.append_nil] at whole
  have noCall (text : Text) : Vocabulary.standard.callableAt? (' ' :: text) = none :=
    Vocabulary.standard.callableAt?_eq_none rfl (by decide) text
  rw [Text.attachArguments, Text.completeCalls_plain (by decide) (noCall _),
    Text.completeCalls_application found application]
  simp only [Application.within, List.foldr_cons, List.foldr_nil, Layer.around, name,
    Bool.false_eq_true, if_false, passed, List.append_assoc]

/-! ## Powers -/

/-- The argument and what stands behind the call when powers are formed. -/
def raised : Cut :=
  match call.coefficient? with
  | none => ⟨Text.parenthesized (call.base.char :: '^' :: call.exponent.printed), []⟩
  | some _ => ⟨call.run, '^' :: call.exponent.latex⟩

theorem isNeutral_attached : call.attached.text.IsNeutral := by
  have run : call.run.IsNeutral := .of_baseChars call.all_isBaseChar_run
  rw [attached]
  cases call.coefficient? with
  | none => exact run.append (call.exponent.isNeutral_latex.cons rfl)
  | some digits => exact run

theorem mark_not_mem_attached : Parked.mark ∉ call.attached.text := by
  rw [attached]
  cases call.coefficient? with
  | none => exact call.not_mem_operand (.inr rfl)
  | some digits => exact call.not_mem_run rfl

/-- The power of a variable is a group. -/
theorem power_base (exponent : Text) :
    Text.power [call.base.char] exponent =
      Text.parenthesized (call.base.char :: '^' :: exponent) := by
  have noEuler : Text.beforeEuler? [call.base.char] = none := by
    simp only [Text.beforeEuler?, List.getLast?_singleton]
    split
    · rename_i same
      exact absurd (Option.some.inj same) call.isVariable
    · rfl
  rw [Text.power, noEuler]
  rfl

theorem raises_attached {rest result : Text} (raises : Text.Raises .standard rest result) :
    Text.Raises .standard (call.attached.text.parenthesized ++ rest)
      (call.raised.text.parenthesized ++ result) := by
  refine Bracketed.raises_parenthesized ?_
  have closed := raises.cons (c := ')') rfl
  have run := call.all_isBaseChar_run
  rw [attached, raised]
  cases isCoefficient : call.coefficient? with
  | none =>
      have script := call.exponent.raises_latex rfl rfl closed
      have power := script.power run call.run_ne_nil (call.exponent.exponent?_latex (')' :: result))
      have single : call.run = [call.base.char] := by
        rw [PoweredCall.run, isCoefficient, Option.elim_none]
      rw [single, call.power_base] at power
      rw [operand, single, List.append_assoc]
      exact power
  | some digits => exact .append run rfl rfl closed

theorem raises_rest : Text.Raises .standard call.attached.rest call.raised.rest := by
  rw [attached, raised]
  cases call.coefficient? with
  | none => exact .nil
  | some digits =>
      have script := call.exponent.raises_latex rfl rfl Text.Raises.nil
      rw [List.append_nil] at script
      exact script.cons rfl

/-- The formula on one line: the call, and the exponent behind it when there is a coefficient. -/
theorem linear_normal :
    call.latex.normal.linear .standard .standard =
      Text.flatten (' ' :: (call.function.call call.raised.text ++ call.raised.rest)) := by
  have noMark : Parked.mark ∉ call.attached.rest := fun isMember =>
    (call.not_mem_rest _ isMember).2.2 rfl
  have rest : Parked.Expands call.attached.rest call.attached.rest := by
    have alone := Parked.Expands.nil.append noMark
    rwa [List.append_nil] at alone
  have expands := (call.function.expands_call call.isNeutral_attached
    call.mark_not_mem_attached rest).cons (c := ' ') (by decide)
  have raises := (call.function.raises_call call.raises_attached call.raises_rest).cons
    (c := ' ') rfl
  rw [Text.linear, call.normal_latex, call.renameCommands_latex, call.attachArguments_renamed,
    expands.expandParked_eq, raises]

end PoweredCall

end TexCalc

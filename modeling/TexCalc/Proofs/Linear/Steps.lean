import TexCalc.Linear.Form
import TexCalc.Symbol.Classify

/-!
# What one step reads

The steps and the readers that they use recurse over what another reader has left of the text.
Each of them is given by what it does at the start of a text: what it reads there, and with what it
goes on.
-/

namespace TexCalc

variable (vocabulary : Vocabulary)

namespace Text

/-! ## In front of the renaming -/

/-- Signs and functions are passed over until something is found that ends by itself. -/
theorem afterBareArgument?_eq (text : Text) :
    text.afterBareArgument? vocabulary =
      match text.skipBlanks with
      | [] => none
      | c :: rest =>
          match Bracket.ofArgument? c with
          | some bracket => (bracket.group? rest).map Group.rest
          | none =>
              if c = '-' ∨ c = '+' then afterBareArgument? vocabulary rest
              else if c.isDigit then some (afterCoefficient vocabulary (c :: rest))
              else if c.isAlpha then some (afterLetterRun vocabulary (c :: rest))
              else if c = '\\' then
                (Control.read? rest).bind fun control =>
                  match Command.named? control.name with
                  | none => none
                  | some (.constant _) => some control.rest
                  | some command =>
                      if command.takesArgument then
                        (control.rest.afterExponent? vocabulary).bind
                          (afterBareArgument? vocabulary)
                      else none
              else none := by
  fun_cases afterBareArgument? vocabulary text <;> simp_all

theorem resolveInverses_eq (c : Char) (rest : Text) :
    resolveInverses vocabulary (c :: rest) =
      match inverseMark? (c :: rest) with
      | none => c :: resolveInverses vocabulary rest
      | some mark =>
          match mark.rest.bareArgument? vocabulary with
          | some argument =>
              ' ' :: mark.text ++ argument.text.parenthesized ++
                resolveInverses vocabulary argument.rest
          | none => ' ' :: mark.text ++ ' ' :: resolveInverses vocabulary mark.rest := by
  rw [resolveInverses]
  split <;> rename_i found <;> rw [found]
  simp only
  split <;> rename_i found <;> rw [found]

theorem resolveLogBases_eq (c : Char) (rest : Text) :
    resolveLogBases vocabulary (c :: rest) =
      match (afterLogMark? (c :: rest)).bind Argument.read? with
      | none => c :: resolveLogBases vocabulary rest
      | some base =>
          match base.rest.bareArgument? vocabulary with
          | some argument =>
              logOf base.text.trim argument.text ++ resolveLogBases vocabulary argument.rest
          | none => bareLog base.text.trim ++ resolveLogBases vocabulary base.rest := by
  rw [resolveLogBases]
  split <;> rename_i found <;> rw [found]
  simp only
  split <;> rename_i found <;> rw [found]

end Text

/-! ## Calls -/

namespace Application

/-- A function reads its exponent, a run of letters that touches it, or an operand. -/
theorem read?_function_eq (function : Callable) (text : Text) :
    read? vocabulary (some function) text =
      match text.skipBlanks with
      | [] => none
      | c :: rest =>
          if c = '^' then
            (Text.exponent? vocabulary rest).bind fun exponent =>
              (read? vocabulary none exponent.rest.skipBlanks).map
                (·.within (.call function (some exponent.text)))
          else if (Bracket.ofArgument? c).isSome then none
          else if text.head?.any Char.isAlpha && (vocabulary.callableAt? text).isNone then
            some ((ofPlain text (text.afterTouching vocabulary)).within (.call function none))
          else (read? vocabulary none (c :: rest)).map (·.within (.call function none)) := by
  rw [read?]
  split
  · rename_i start
    rw [start]
  · rename_i c rest start
    rw [start]
    congr 1
    split <;> rename_i found <;> rw [found] <;> rfl

/-- An operand is a function with its own argument, or it is told by its first character. -/
theorem read?_operand_eq (text : Text) :
    read? vocabulary none text =
      match vocabulary.callableAt? text with
      | some (inner, after) =>
          (read? vocabulary (some inner) after).or
            ((ofGroupArgument? after).map (·.within (.call inner none)))
      | none =>
          match text with
          | [] => none
          | c :: rest =>
              if c = '-' ∨ c = '+' then
                (read? vocabulary none (Text.skipBlanks rest)).map
                  (signed c (Text.skipBlanks rest))
              else
                match Bracket.ofArgument? c with
                | some bracket => (bracket.group? rest).map ofGroup
                | none =>
                    if c.isDigit then
                      some (ofPlain (c :: rest) (Text.afterCoefficient vocabulary (c :: rest)))
                    else (Text.afterAtom? vocabulary (c :: rest)).map (ofPlain (c :: rest)) := by
  rw [read?]
  split
  · rename_i found
    rw [found]
  · rename_i missing
    conv => rhs; rw [missing]
    cases text <;> rfl

end Application

namespace Text

/-- The callable at the start of a text, outside a control word. -/
def callable? (insideWord : Bool) (text : Text) : Option (Callable × Text) :=
  if insideWord then none else vocabulary.callableAt? text

theorem completeCalls_eq (insideWord : Bool) (c : Char) (rest : Text) :
    completeCalls vocabulary insideWord (c :: rest) =
      match callable? vocabulary insideWord (c :: rest) with
      | none => c :: completeCalls vocabulary (c == '\\' || insideWord && c.isAlpha) rest
      | some (function, after) =>
          match Application.read? vocabulary (some function) after with
          | none => function.text ++ completeCalls vocabulary false after
          | some application =>
              application.layers.foldr Layer.around
                  (if application.grouped then
                    (completeCalls vocabulary false application.core).trim
                  else application.core) ++
                completeCalls vocabulary false application.rest := by
  rw [completeCalls, callable?]
  split <;> rename_i found <;> rw [found]
  simp only
  split <;> rename_i found <;> rw [found]

/-! ## Powers and symbols -/

theorem resolveExponents_eq (text : Text) :
    resolveExponents vocabulary text =
      match text.dropWhile isBaseChar with
      | [] => text.takeWhile isBaseChar
      | c :: rest =>
          match skipBlanks (c :: rest) with
          | '^' :: script =>
              match if (text.takeWhile isBaseChar).isEmpty then none
                  else exponent? vocabulary (resolveExponents vocabulary script) with
              | some exponent => power (text.takeWhile isBaseChar) exponent.text ++ exponent.rest
              | none =>
                  text.takeWhile isBaseChar ++ before (c :: rest) ('^' :: script) ++
                    '^' :: resolveExponents vocabulary script
          | _ => text.takeWhile isBaseChar ++ c :: resolveExponents vocabulary rest := by
  rw [resolveExponents]
  split
  · rename_i left
    rw [left]
  · rename_i c rest left
    rw [left]
    simp only
    split
    · rename_i script isScript
      rw [isScript]
      rfl
    · rename_i other
      split
      · rename_i isScript
        exact absurd isScript (other _)
      · rfl

theorem symbols_eq (c : Char) (rest : Text) :
    symbols vocabulary (c :: rest) =
      if beginsNumeral c rest then
        .number (c :: rest.takeWhile isNumeralChar) ::
          symbols vocabulary (rest.dropWhile isNumeralChar)
      else if isLetter c then
        match vocabulary.entryAt? (c :: rest) with
        | some (entry, after) => .ofEntry entry :: symbols vocabulary after
        | none => .var c :: symbols vocabulary rest
      else if c = '\\' then
        match Control.read? rest with
        | some control => .leftover control.name :: symbols vocabulary control.rest
        | none => [.leftover []]
      else if isBlank c then symbols vocabulary rest
      else .ofPunctuation c :: symbols vocabulary rest := by
  rw [symbols]
  congr 2
  · split <;> rename_i found <;> rw [found]
  · congr 1
    split <;> rename_i found <;> rw [found]

end Text

end TexCalc

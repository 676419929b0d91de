import TexCalc.Linear.Form
import TexCalc.Proofs.Tex.Lexemes

/-!
# Steps that read one command after the other

Inverse functions, logarithms with a base and all other commands are replaced from left to right.
What holds no command is passed over, and so is a command that is not the one looked for.
-/

namespace TexCalc

namespace Text

/-! ## Pieces -/

theorem pieces_cons {c : Char} (plain : c ≠ '\\') (rest : Text) :
    pieces (c :: rest) = .plain c :: pieces rest := by
  rw [pieces, if_neg plain]

theorem pieces_control {rest : Text} {control : Control} (found : Control.read? rest = some control) :
    pieces ('\\' :: rest) = .control control.name :: pieces control.rest := by
  rw [pieces, if_pos rfl]
  split
  · rename_i again
    rw [found] at again
    cases again
    rfl
  · rename_i missing
    rw [found] at missing
    cases missing

theorem pieces_word {name rest : Text} (letters : name.all Char.isAlpha = true)
    (nonempty : name ≠ []) (ends : rest.endsRun Char.isAlpha = true) :
    pieces ('\\' :: (name ++ rest)) = .control name :: pieces rest :=
  pieces_control (Control.read?_word letters nonempty ends)

/-! ## Inverse functions and bases of logarithms -/

variable {vocabulary : Vocabulary} {c : Char} {front rest : Text}

theorem resolveInverses_cons (none : inverseMark? (c :: rest) = none) :
    resolveInverses vocabulary (c :: rest) = c :: resolveInverses vocabulary rest := by
  rw [resolveInverses]
  split
  · rfl
  · rename_i found
    rw [none] at found
    cases found

theorem inverseMark?_cons (plain : c ≠ '\\') (rest : Text) : inverseMark? (c :: rest) = none := by
  unfold inverseMark?
  split
  · rename_i same
    cases same
    exact absurd rfl plain
  · rfl

theorem resolveInverses_plain (plain : c ≠ '\\') (rest : Text) :
    resolveInverses vocabulary (c :: rest) = c :: resolveInverses vocabulary rest :=
  resolveInverses_cons (inverseMark?_cons plain rest)

theorem resolveInverses_append (plain : '\\' ∉ front) :
    resolveInverses vocabulary (front ++ rest) = front ++ resolveInverses vocabulary rest := by
  induction front with
  | nil => rfl
  | cons c front ih =>
      rw [List.mem_cons, not_or] at plain
      rw [List.cons_append, resolveInverses_plain (Ne.symm plain.1), ih plain.2, List.cons_append]

theorem resolveLogBases_cons (none : (afterLogMark? (c :: rest)).bind Argument.read? = none) :
    resolveLogBases vocabulary (c :: rest) = c :: resolveLogBases vocabulary rest := by
  rw [resolveLogBases]
  split
  · rfl
  · rename_i found
    rw [none] at found
    cases found

theorem afterLogMark?_cons (plain : c ≠ '\\') (rest : Text) : afterLogMark? (c :: rest) = none := by
  rw [afterLogMark?, show "\\log".toList = '\\' :: "log".toList from rfl, dropLead?, if_neg plain]
  rfl

theorem resolveLogBases_plain (plain : c ≠ '\\') (rest : Text) :
    resolveLogBases vocabulary (c :: rest) = c :: resolveLogBases vocabulary rest := by
  apply resolveLogBases_cons
  rw [afterLogMark?_cons plain]
  rfl

theorem resolveLogBases_append (plain : '\\' ∉ front) :
    resolveLogBases vocabulary (front ++ rest) = front ++ resolveLogBases vocabulary rest := by
  induction front with
  | nil => rfl
  | cons c front ih =>
      rw [List.mem_cons, not_or] at plain
      rw [List.cons_append, resolveLogBases_plain (Ne.symm plain.1), ih plain.2, List.cons_append]

/-! ## Renaming -/

variable {options : Options}

theorem renameCommands_plain (plain : c ≠ '\\') (rest : Text) :
    renameCommands options (c :: rest) = c :: renameCommands options rest := by
  rw [renameCommands, pieces_cons plain]
  rfl

theorem renameCommands_append (plain : '\\' ∉ front) :
    renameCommands options (front ++ rest) = front ++ renameCommands options rest := by
  induction front with
  | nil => rfl
  | cons c front ih =>
      rw [List.mem_cons, not_or] at plain
      rw [List.cons_append, renameCommands_plain (Ne.symm plain.1), ih plain.2, List.cons_append]

theorem renameCommands_word {name : Text} (letters : name.all Char.isAlpha = true)
    (nonempty : name ≠ []) (ends : rest.endsRun Char.isAlpha = true) :
    renameCommands options ('\\' :: (name ++ rest)) =
      Command.rename options name ++ renameCommands options rest := by
  rw [renameCommands, pieces_word letters nonempty ends]
  rfl

end Text

end TexCalc

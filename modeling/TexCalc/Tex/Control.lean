import TexCalc.Text.Bracket

/-!
# Control sequences

A backslash followed by ASCII letters is a control word and takes all of them.
A backslash followed by any other character, a blank included, is a control symbol
and takes that one.  A backslash that ends the text introduces nothing.
-/

namespace TexCalc

/-- The name of a control sequence and the text after it. -/
structure Control where
  name : Text
  rest : Text
  deriving DecidableEq, Repr

namespace Control

/-- The control sequence whose backslash was just read. -/
def read? : Text → Option Control
  | [] => none
  | c :: rest =>
      if c.isAlpha then
        some ⟨c :: rest.takeWhile Char.isAlpha, rest.dropWhile Char.isAlpha⟩
      else
        some ⟨[c], rest⟩

/-- The control sequence as it is written. -/
def source (control : Control) : Text :=
  '\\' :: control.name

/-- Only at the end of the text does a backslash introduce nothing. -/
theorem read?_eq_none_iff {text : Text} : read? text = none ↔ text = [] := by
  cases text with
  | nil => simp [read?]
  | cons c rest => by_cases letter : c.isAlpha <;> simp [read?, letter]

/-- Name and rest give back the text that was read. -/
theorem eq_of_read? {text : Text} {control : Control}
    (found : read? text = some control) : text = control.name ++ control.rest := by
  cases text with
  | nil => simp [read?] at found
  | cons c rest =>
      by_cases letter : c.isAlpha
      · simp only [read?, letter, if_true, Option.some.injEq] at found
        subst found
        simp [List.takeWhile_append_dropWhile]
      · simp only [read?, letter] at found
        cases found
        rfl

theorem name_ne_nil_of_read? {text : Text} {control : Control}
    (found : read? text = some control) : control.name ≠ [] := by
  cases text with
  | nil => simp [read?] at found
  | cons c rest =>
      by_cases letter : c.isAlpha
      · simp only [read?, letter, if_true, Option.some.injEq] at found
        subst found
        simp
      · simp only [read?, letter] at found
        cases found
        simp

/-- A control sequence takes at least one character after its backslash. -/
theorem length_lt_of_read? {text : Text} {control : Control}
    (found : read? text = some control) : control.rest.length < text.length := by
  have nonempty : 0 < control.name.length :=
    List.length_pos_iff.2 (name_ne_nil_of_read? found)
  rw [eq_of_read? found, List.length_append]
  omega

end Control

/-- A unit of a text in which control sequences are kept whole.  A backslash that
ends the text is a plain character. -/
inductive Piece where
  | control (name : Text)
  | plain (c : Char)
  deriving DecidableEq, Repr

namespace Piece

/-- The piece as it is written. -/
def source : Piece → Text
  | control name => '\\' :: name
  | plain c => [c]

end Piece

namespace Text

/-- A text cut into control sequences and plain characters, from left to right. -/
def pieces : Text → List Piece
  | [] => []
  | c :: rest =>
      if c = '\\' then
        match _found : Control.read? rest with
        | some control => .control control.name :: pieces control.rest
        | none => [.plain c]
      else
        .plain c :: pieces rest
termination_by text => text.length
decreasing_by
  · have := Control.length_lt_of_read? _found
    simp only [List.length_cons]
    omega
  · simp

/-- The text that a list of pieces is written as. -/
def ofPieces (pieces : List Piece) : Text :=
  pieces.flatMap Piece.source

/-- Cutting a text into pieces loses nothing. -/
@[simp] theorem ofPieces_pieces (text : Text) : ofPieces text.pieces = text := by
  fun_induction pieces text with
  | case1 => rfl
  | case2 rest control found ih =>
      simp only [ofPieces, List.flatMap_cons, Piece.source] at *
      rw [ih, List.cons_append, ← Control.eq_of_read? found]
  | case3 rest found =>
      simp [ofPieces, Piece.source, Control.read?_eq_none_iff.1 found]
  | case4 c rest plain ih =>
      simp only [ofPieces, List.flatMap_cons, Piece.source] at *
      rw [ih, List.singleton_append]

end Text

end TexCalc

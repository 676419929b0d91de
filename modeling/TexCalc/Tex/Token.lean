import TexCalc.Tex.Control

/-!
# Tokens of a TeX formula

The tokens are those of TeX with two differences: blanks after a control word are
kept, so that the printed tokens never fuse a control word with the letters after
it, and a run of blanks is one token.
-/

namespace TexCalc

/-- A token of a TeX formula. -/
inductive Token where
  /-- A control word or control symbol, without its backslash. -/
  | control (name : Text)
  | openBrace
  | closeBrace
  /-- Any character without a meaning of its own, and a backslash that ends the
  formula. -/
  | char (c : Char)
  /-- A run of blanks. -/
  | blank
  /-- A comment, without its percent sign and its line end. -/
  | comment (text : Text)
  | mathShift
  | superscript
  | subscript
  /-- The unbreakable blank `~`. -/
  | tie
  deriving DecidableEq, Repr

namespace Token

/-- The token as it is printed: a run of blanks is one space, and a comment has no
line end. -/
def print : Token → Text
  | control name => '\\' :: name
  | openBrace => ['\x7b']
  | closeBrace => ['\x7d']
  | char c => [c]
  | blank => [' ']
  | comment text => '%' :: text
  | mathShift => ['$']
  | superscript => ['^']
  | subscript => ['_']
  | tie => ['~']

def isBlank : Token → Bool
  | blank => true
  | _ => false

def isComment : Token → Bool
  | comment _ => true
  | _ => false

/-- A control sequence whose name is made of letters. -/
def isControlWord : Token → Bool
  | control (c :: _) => c.isAlpha
  | _ => false

/-- Blanks and comments separate tokens and are otherwise without meaning. -/
def isSignificant (token : Token) : Bool :=
  !token.isBlank && !token.isComment

end Token

/-- A token together with where it starts, in bytes, and what it was read from. -/
structure Lexeme where
  offset : Nat
  token : Token
  source : Text
  deriving DecidableEq, Repr

/-- The line end that a text begins with, and the text after it. -/
def Text.splitLineEnd : Text → Text × Text
  | '\r' :: '\n' :: rest => (['\r', '\n'], rest)
  | '\r' :: rest => (['\r'], rest)
  | '\n' :: rest => (['\n'], rest)
  | rest => ([], rest)

namespace Token

/-- A token, the characters it takes after its first one, and the text after it. -/
structure Reading where
  token : Token
  taken : Text
  rest : Text
  deriving DecidableEq, Repr

def isLineEnd (c : Char) : Bool :=
  c == '\n' || c == '\r'

/-- The token that begins with the character `c`, followed by `rest`. -/
def read (c : Char) (rest : Text) : Reading :=
  match c with
  | '\\' =>
      match Control.read? rest with
      | some found => ⟨.control found.name, found.name, found.rest⟩
      | none => ⟨.char c, [], rest⟩
  | '%' =>
      let text := rest.takeWhile (!isLineEnd ·)
      let (lineEnd, after) := Text.splitLineEnd (rest.dropWhile (!isLineEnd ·))
      ⟨.comment text, text ++ lineEnd, after⟩
  | '\x7b' => ⟨.openBrace, [], rest⟩
  | '\x7d' => ⟨.closeBrace, [], rest⟩
  | '$' => ⟨.mathShift, [], rest⟩
  | '^' => ⟨.superscript, [], rest⟩
  | '_' => ⟨.subscript, [], rest⟩
  | '~' => ⟨.tie, [], rest⟩
  | c =>
      if TexCalc.isBlank c then
        ⟨.blank, rest.takeWhile TexCalc.isBlank, rest.dropWhile TexCalc.isBlank⟩
      else
        ⟨.char c, [], rest⟩

end Token

/-- Line end and rest give back the text. -/
theorem Text.splitLineEnd_append (text : Text) :
    text.splitLineEnd.1 ++ text.splitLineEnd.2 = text := by
  fun_cases Text.splitLineEnd text <;> rfl

namespace Token

/-- Reading a token loses nothing. -/
theorem read_append (c : Char) (rest : Text) :
    (read c rest).taken ++ (read c rest).rest = rest := by
  fun_cases read c rest with
  | case1 found isFound => exact (Control.eq_of_read? isFound).symm
  | case3 text lineEnd after split =>
      have whole := Text.splitLineEnd_append (rest.dropWhile (!isLineEnd ·))
      rw [split] at whole
      simp only at whole ⊢
      rw [List.append_assoc, whole]
      exact List.takeWhile_append_dropWhile
  | case10 => exact List.takeWhile_append_dropWhile
  | _ => rfl

theorem length_rest_read_le (c : Char) (rest : Text) :
    (read c rest).rest.length ≤ rest.length := by
  conv => rhs; rw [← read_append c rest, List.length_append]
  omega

end Token

namespace Text

/-- The lexemes of a text that starts at the given offset. -/
def lexemesFrom (offset : Nat) : Text → List Lexeme
  | [] => []
  | c :: rest =>
      let reading := Token.read c rest
      let source : Text := c :: reading.taken
      ⟨offset, reading.token, source⟩ ::
        lexemesFrom (offset + source.byteLength) reading.rest
termination_by text => text.length
decreasing_by
  have := Token.length_rest_read_le c rest
  simp only [List.length_cons]
  omega

/-- The lexemes of a formula in order. -/
def lexemes (text : Text) : List Lexeme :=
  text.lexemesFrom 0

/-- The source that a list of lexemes was read from. -/
def ofLexemes (lexemes : List Lexeme) : Text :=
  lexemes.flatMap Lexeme.source

/-- The sources of the lexemes give back the text. -/
theorem ofLexemes_lexemesFrom (offset : Nat) (text : Text) :
    ofLexemes (text.lexemesFrom offset) = text := by
  fun_induction lexemesFrom offset text with
  | case1 => rfl
  | case2 offset c rest reading source ih =>
      simp only [ofLexemes, List.flatMap_cons] at *
      rw [ih]
      exact congrArg (c :: ·) (Token.read_append c rest)

@[simp] theorem ofLexemes_lexemes (text : Text) : ofLexemes text.lexemes = text :=
  ofLexemes_lexemesFrom 0 text

end Text

end TexCalc

import TexCalc.Json.Basic

/-!
# Reading JSON

A text is one value with blanks around it.  Numbers and escapes are read by the rules of
the format, which know no leading zeros, no lone points and no bare control characters.
-/

namespace TexCalc

namespace Json

/-- The four blanks of the format. -/
def isGap (c : Char) : Bool :=
  c == ' ' || c == '\t' || c == '\n' || c == '\r'

def skipGap (text : Text) : Text :=
  text.dropWhile isGap

/-- What stands for one or for half a character of a string. -/
inductive Unit16 where
  | char (c : Char)
  | surrogate (code : Nat)
  deriving DecidableEq, Repr

namespace Unit16

/-- The unit with the given code. -/
def ofCode (code : Nat) : Unit16 :=
  if 0xD800 ≤ code ∧ code < 0xE000 then surrogate code else char (Char.ofNat code)

/-- The characters of a list of units, if every surrogate is part of a pair. -/
def decode? : List Unit16 → Option Text
  | [] => some []
  | char c :: rest => (decode? rest).map (c :: ·)
  | surrogate high :: surrogate low :: rest =>
      if high < 0xDC00 ∧ 0xDC00 ≤ low then
        (decode? rest).map
          (Char.ofNat (0x10000 + (high - 0xD800) * 0x400 + (low - 0xDC00)) :: ·)
      else
        none
  | surrogate _ :: _ => none

end Unit16

/-- The value of a hexadecimal digit. -/
def hexValue? (c : Char) : Option Nat :=
  if c.isDigit then some (c.toNat - '0'.toNat)
  else if 'a' ≤ c ∧ c ≤ 'f' then some (c.toNat - 'a'.toNat + 10)
  else if 'A' ≤ c ∧ c ≤ 'F' then some (c.toNat - 'A'.toNat + 10)
  else none

/-- The number that hexadecimal digits stand for. -/
def hexNumber? (digits : List Char) : Option Nat :=
  digits.foldlM (fun number digit => (hexValue? digit).map (number * 16 + ·)) 0

/-- The character of an escape by one letter. -/
def escaped? : Char → Option Char
  | '\x22' => some '\x22'
  | '\\' => some '\\'
  | '/' => some '/'
  | 'b' => some '\x08'
  | 'f' => some '\x0c'
  | 'n' => some '\n'
  | 'r' => some '\r'
  | 't' => some '\t'
  | _ => none

/-- The units of a string whose opening quote was just read, and the text after it. -/
def readUnits? : Text → Option (List Unit16 × Text)
  | [] => none
  | '\x22' :: rest => some ([], rest)
  | '\\' :: 'u' :: a :: b :: c :: d :: rest =>
      match hexNumber? [a, b, c, d] with
      | some code =>
          (readUnits? rest).map fun (units, after) => (.ofCode code :: units, after)
      | none => none
  | '\\' :: letter :: rest =>
      match escaped? letter with
      | some c => (readUnits? rest).map fun (units, after) => (.char c :: units, after)
      | none => none
  | c :: rest =>
      if c.toNat < 0x20 then none
      else (readUnits? rest).map fun (units, after) => (.char c :: units, after)

/-- The string whose opening quote was just read, and the text after it. -/
def readString? (text : Text) : Option (Option String × Text) :=
  (readUnits? text).map fun (units, rest) =>
    ((Unit16.decode? units).map String.ofList, rest)

/-- What follows one or more digits. -/
def afterDigits? : Text → Option Text
  | [] => none
  | c :: rest => if c.isDigit then some (rest.dropWhile Char.isDigit) else none

/-- What follows the digits in front of a point: a lone zero, or digits that do not
begin with zero. -/
def afterIntegral? : Text → Option Text
  | '0' :: rest => if rest.head?.any Char.isDigit then none else some rest
  | text => afterDigits? text

/-- What follows a point and its digits, where there are any. -/
def afterFraction? : Text → Option Text
  | '.' :: rest => afterDigits? rest
  | text => some text

/-- What follows an exponent, where there is one. -/
def afterExponent? : Text → Option Text
  | c :: rest =>
      if c = 'e' ∨ c = 'E' then
        match rest with
        | '+' :: digits => afterDigits? digits
        | '-' :: digits => afterDigits? digits
        | digits => afterDigits? digits
      else
        some (c :: rest)
  | [] => some []

/-- The number at the start of a text, and the text after it. -/
def readNumber? (text : Text) : Option (Json × Text) :=
  let unsigned : Text :=
    match text with
    | '-' :: rest => rest
    | text => text
  (((afterIntegral? unsigned).bind afterFraction?).bind afterExponent?).map fun rest =>
    (.number (text.before rest), rest)

/-- The value of a word of the format at the start of a text. -/
def readWord? (text : Text) : Option (Json × Text) :=
  [("null".toList, null), ("true".toList, bool true), ("false".toList, bool false)].findSome?
    fun (word, value) => (text.dropLead? word).map (value, ·)

mutual

/-- The value at the start of a text, and the text after it.  The fuel bounds the number
of values that are open at the same time. -/
def readValue? : (fuel : Nat) → Text → Option (Json × Text)
  | 0, _ => none
  | fuel + 1, text =>
      match skipGap text with
      | '\x22' :: rest => (readString? rest).map fun (text?, after) => (string text?, after)
      | '[' :: rest =>
          match skipGap rest with
          | ']' :: after => some (array [], after)
          | _ => (readItems? fuel rest).map fun (items, after) => (array items, after)
      | '\x7b' :: rest =>
          match skipGap rest with
          | '\x7d' :: after => some (object [], after)
          | _ => (readMembers? fuel rest).map fun (members, after) => (object members, after)
      | text => (readWord? text).or (readNumber? text)

/-- The items of an array up to its closing bracket, and the text after that. -/
def readItems? : (fuel : Nat) → Text → Option (List Json × Text)
  | 0, _ => none
  | fuel + 1, text =>
      match readValue? fuel text with
      | none => none
      | some (item, rest) =>
          match skipGap rest with
          | ',' :: rest => (readItems? fuel rest).map fun (items, after) => (item :: items, after)
          | ']' :: after => some ([item], after)
          | _ => none

/-- The members of an object up to its closing brace, and the text after that. -/
def readMembers? : (fuel : Nat) → Text → Option (List (Option String × Json) × Text)
  | 0, _ => none
  | fuel + 1, text =>
      match skipGap text with
      | '\x22' :: rest =>
          match readString? rest with
          | none => none
          | some (name, rest) =>
              match skipGap rest with
              | ':' :: rest =>
                  match readValue? fuel rest with
                  | none => none
                  | some (value, rest) =>
                      match skipGap rest with
                      | ',' :: rest =>
                          (readMembers? fuel rest).map fun (members, after) =>
                            ((name, value) :: members, after)
                      | '\x7d' :: after => some ([(name, value)], after)
                      | _ => none
              | _ => none
      | _ => none

end

/-- The value that a text consists of.  Every value and every item takes a character, so
that twice the length of the text is fuel enough. -/
def parse? (text : String) : Option Json :=
  match readValue? (2 * text.length + 2) text.toList with
  | some (value, rest) => if (skipGap rest).isEmpty then some value else none
  | none => none

end Json

end TexCalc

import TexCalc.Text.Basic

/-!
# JSON values

A value as it is written: members keep their order and may repeat a name, and a number
keeps its digits.  A string may contain an escape that stands for no character, half of
a surrogate pair; such a string can be passed over but has no text.
-/

namespace TexCalc

/-- A JSON value. -/
inductive Json where
  | null
  | bool (value : Bool)
  | number (literal : Text)
  /-- A string, or `none` for one without a text. -/
  | string (text? : Option String)
  | array (items : List Json)
  | object (members : List (Option String × Json))
  deriving Repr

namespace Json

def ofString (text : String) : Json :=
  string (some text)

def ofText (text : Text) : Json :=
  ofString (String.ofList text)

def ofNat (number : Nat) : Json :=
  .number (toString number).toList

/-- A value, or `null` where there is none. -/
def ofOption {α : Type} (toJson : α → Json) : Option α → Json
  | some value => toJson value
  | none => null

def ofList {α : Type} (toJson : α → Json) (values : List α) : Json :=
  array (values.map toJson)

/-- An object with the given members. -/
def record (members : List (String × Json)) : Json :=
  object (members.map fun (name, value) => (some name, value))

/-- The text of a string. -/
def string? : Json → Option String
  | string text? => text?
  | _ => none

def bool? : Json → Option Bool
  | bool value => some value
  | _ => none

/-- The number that is written with decimal digits only. -/
def nat? : Json → Option Nat
  | number literal => if literal.all Char.isDigit then (String.ofList literal).toNat? else none
  | _ => none

def items? : Json → Option (List Json)
  | array items => some items
  | _ => none

/-- The value of the last member with the given name. -/
def member? (json : Json) (name : String) : Option Json :=
  match json with
  | object members => (members.reverse.find? (·.1 == some name)).map Prod.snd
  | _ => none

end Json

end TexCalc

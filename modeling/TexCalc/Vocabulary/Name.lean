import TexCalc.Text.Basic

/-!
# Names of the target language

A name is an ASCII letter followed by ASCII letters and digits.  A name stands at
some place of a text when the text goes on with its characters and then with
something that could not continue it.
-/

namespace TexCalc

/-- Whether a text has the form of a name. -/
def Text.isName : Text → Bool
  | [] => false
  | c :: rest => c.isAlpha && rest.all Char.isAlphanum

/-- A name of the target language. -/
structure Name where
  text : Text
  isName : text.isName = true
  deriving DecidableEq, Repr

namespace Name

/-- The name that a text spells, if it has the form of one. -/
def ofText? (text : Text) : Option Name :=
  if isName : text.isName = true then some ⟨text, isName⟩ else none

def length (name : Name) : Nat :=
  name.text.length

theorem text_ne_nil (name : Name) : name.text ≠ [] := by
  intro empty
  have valid := name.isName
  rw [empty] at valid
  simp [Text.isName] at valid

theorem length_pos (name : Name) : 0 < name.length :=
  List.length_pos_iff.2 name.text_ne_nil

/-- All characters of a name are ASCII letters or digits. -/
theorem all_isAlphanum (name : Name) : name.text.all Char.isAlphanum = true := by
  have valid := name.isName
  cases spelled : name.text with
  | nil => rfl
  | cons c rest =>
      rw [spelled] at valid
      simp only [Text.isName, Bool.and_eq_true] at valid
      simp [Char.isAlphanum, valid.1] at valid ⊢
      exact valid

theorem ext_text {left right : Name} (same : left.text = right.text) : left = right := by
  cases left
  cases right
  cases same
  rfl

end Name

/-- Whether no name that ends here could be continued by the text. -/
def Text.isBoundary : Text → Bool
  | [] => true
  | c :: _ => !c.isAlphanum

/-- The text after a name, when the text begins with that whole name. -/
def Name.after? (name : Name) (text : Text) : Option Text :=
  (text.dropLead? name.text).filter Text.isBoundary

/-- Functions are called with an argument, constants stand alone. -/
inductive NameKind where
  | function
  | constant
  deriving DecidableEq, Repr

end TexCalc

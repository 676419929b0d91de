/-!
# Texts

A formula is handled as the list of its characters.  Readers take a text and
return what they read together with the rest of the text, so "how far" is always
an ending of the text and never an index.  Byte offsets, the unit in which faults
are located, are measured on the part that was read.
-/

namespace TexCalc

/-- A formula or a piece of one, as the list of its characters. -/
abbrev Text := List Char

namespace Text

/-- Number of bytes that a text takes in UTF-8. -/
def byteLength : Text → Nat
  | [] => 0
  | c :: rest => c.utf8Size + byteLength rest

/-- The part of `text` that stands before its ending `rest`. -/
def before (text rest : Text) : Text :=
  text.take (text.length - rest.length)

/-- The text between a pair of parentheses. -/
def parenthesized (text : Text) : Text :=
  '(' :: (text ++ [')'])

/-- The rest of a text after an opening part, when it starts with that part. -/
def dropLead? : (text lead : Text) → Option Text
  | text, [] => some text
  | [], _ :: _ => none
  | c :: text, l :: lead => if c = l then dropLead? text lead else none

@[simp] theorem byteLength_append (left right : Text) :
    byteLength (left ++ right) = byteLength left + byteLength right := by
  induction left with
  | nil => simp [byteLength]
  | cons c rest ih => simp [byteLength, ih, Nat.add_assoc]

@[simp] theorem before_append (read rest : Text) :
    before (read ++ rest) rest = read := by
  simp [before]

/-- A text starts with `lead` exactly when the two parts put together give it
back. -/
theorem dropLead?_eq_some_iff {text lead rest : Text} :
    dropLead? text lead = some rest ↔ text = lead ++ rest := by
  induction lead generalizing text with
  | nil => simp [dropLead?]
  | cons l lead ih =>
      cases text with
      | nil => simp [dropLead?]
      | cons c text =>
          by_cases same : c = l
          · simp [dropLead?, same, ih]
          · simp [dropLead?, same]

/-- Dropping an opening part shortens a text by the length of that part. -/
theorem length_eq_of_dropLead? {text lead rest : Text}
    (found : dropLead? text lead = some rest) :
    text.length = lead.length + rest.length := by
  simp [dropLead?_eq_some_iff.1 found]

/-- What is left of a list after an opening run is no longer than the list. -/
theorem length_dropWhile_le {α : Type} (accept : α → Bool) (values : List α) :
    (values.dropWhile accept).length ≤ values.length :=
  (List.dropWhile_sublist accept).length_le

end Text

end TexCalc

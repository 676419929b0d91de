import TexCalc.Tex.Argument

/-!
# Extents

Arguments and groups as ranges of bytes.  A byte offset is turned into the rest of
the text that starts there, the readers work on that rest, and what they consumed is
measured in bytes again.  An offset inside a character or past the end has no rest.
-/

namespace TexCalc

namespace Text

/-- The text before a byte offset and the text from there on. -/
def splitAtByte? : Text → (offset : Nat) → Option (Text × Text)
  | text, 0 => some ([], text)
  | [], _ + 1 => none
  | c :: rest, offset + 1 =>
      if c.utf8Size ≤ offset + 1 then
        (splitAtByte? rest (offset + 1 - c.utf8Size)).map fun (lead, tail) =>
          (c :: lead, tail)
      else
        none

/-- The text from a byte offset on. -/
def fromByte? (text : Text) (offset : Nat) : Option Text :=
  (text.splitAtByte? offset).map Prod.snd

/-- The two parts give back the text, and the first takes as many bytes as the
offset says. -/
theorem splitAtByte?_eq_some_iff {text lead tail : Text} {offset : Nat} :
    text.splitAtByte? offset = some (lead, tail) ↔
      text = lead ++ tail ∧ lead.byteLength = offset := by
  fun_induction splitAtByte? text offset generalizing lead with
  | case1 text =>
      constructor
      · intro same
        cases same
        simp [byteLength]
      · rintro ⟨rfl, none⟩
        cases lead with
        | nil => rfl
        | cons c lead =>
            have := c.utf8Size_pos
            simp only [byteLength] at none
            omega
  | case2 offset =>
      constructor
      · intro same
        cases same
      · rintro ⟨whole, size⟩
        cases lead with
        | nil => simp [byteLength] at size
        | cons c lead => simp at whole
  | case3 c rest offset fits ih =>
      constructor
      · intro same
        obtain ⟨⟨read, left⟩, isSplit, shape⟩ := Option.map_eq_some_iff.1 same
        cases shape
        obtain ⟨whole, size⟩ := ih.1 isSplit
        refine ⟨by rw [whole, List.cons_append], ?_⟩
        simp only [byteLength]
        omega
      · rintro ⟨whole, size⟩
        cases lead with
        | nil => simp [byteLength] at size
        | cons d lead =>
            rw [List.cons_append, List.cons.injEq] at whole
            obtain ⟨rfl, rfl⟩ := whole
            simp only [byteLength] at size
            have inner := ih.2 ⟨rfl, by omega⟩
            rw [inner]
            rfl
  | case4 c rest offset tooWide =>
      constructor
      · intro same
        cases same
      · rintro ⟨whole, size⟩
        cases lead with
        | nil => simp [byteLength] at size
        | cons d lead =>
            rw [List.cons_append, List.cons.injEq] at whole
            obtain ⟨rfl, _⟩ := whole
            simp only [byteLength] at size
            omega

theorem splitAtByte?_append (lead rest : Text) :
    (lead ++ rest).splitAtByte? lead.byteLength = some (lead, rest) :=
  splitAtByte?_eq_some_iff.2 ⟨rfl, rfl⟩

theorem fromByte?_append (lead rest : Text) :
    (lead ++ rest).fromByte? lead.byteLength = some rest := by
  rw [fromByte?, splitAtByte?_append]
  rfl

/-- The offset of the first byte at or after `offset` that is no ASCII blank. -/
def skipBlanksFrom (text : Text) (offset : Nat) : Nat :=
  match text.fromByte? offset with
  | some rest => offset + (Text.byteLength (rest.takeWhile isAsciiBlank))
  | none => offset

/-- The offset behind the last byte before `offset` that is no ASCII blank.  There
is none for an offset past the end. -/
def skipBlanksBack? (text : Text) (offset : Nat) : Option Nat :=
  match text.splitAtByte? offset with
  | some (lead, _) =>
      some (offset - Text.byteLength (lead.reverse.takeWhile isAsciiBlank))
  | none => if offset ≤ text.byteLength then some offset else none

/-- The offset of the bracket that closes the one at `offset`. -/
def closingOffset? (text : Text) (offset : Nat) : Option Nat :=
  match text.fromByte? offset with
  | some (c :: rest) =>
      (Bracket.ofOpener? c).bind fun bracket =>
        (bracket.group? rest).map fun group =>
          offset + c.utf8Size + group.inside.byteLength
  | _ => none

/-- Number of bytes of the control sequence at `offset`. -/
def controlLength? (text : Text) (offset : Nat) : Option Nat :=
  match text.fromByte? offset with
  | some ('\\' :: rest) => (Control.read? rest).map fun control => control.source.byteLength
  | _ => none

end Text

/-- An argument as a range of bytes. -/
structure Extent where
  /-- Where the text of the argument starts, after an opening bracket. -/
  start : Nat
  /-- Where the text of the argument stops, before a closing bracket. -/
  stop : Nat
  /-- Where reading goes on. -/
  finish : Nat
  grouped : Bool
  text : Text
  deriving DecidableEq, Repr

namespace Extent

/-- The extent of an argument that was read from the end of a text of `total`
bytes.  A group has a closing bracket of one byte. -/
def ofArgument (total : Nat) (argument : Argument) : Extent :=
  let finish := total - argument.rest.byteLength
  let stop := if argument.grouped then finish - 1 else finish
  ⟨stop - argument.text.byteLength, stop, finish, argument.grouped, argument.text⟩

/-- The extent that a reader of arguments finds at or after `offset`. -/
def readWith? (reader : Text → Option Argument) (text : Text) (offset : Nat) :
    Option Extent :=
  (text.fromByte? offset).bind fun rest =>
    (reader rest).map (ofArgument text.byteLength)

def argument? : (text : Text) → (offset : Nat) → Option Extent :=
  readWith? Argument.read?

def optionalArgument? : (text : Text) → (offset : Nat) → Option Extent :=
  readWith? Argument.readOptional?

end Extent

end TexCalc

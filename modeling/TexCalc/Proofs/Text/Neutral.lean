import TexCalc.Proofs.Text.Trimming

/-!
# Texts that close what they open

A text is neutral when a reader of groups passes over it without a change of depth, whatever
kind of bracket it looks for.  Plain characters and control sequences are neutral, and so is a
pair of brackets around a neutral text.  A neutral text between a bracket and its partner is
the inside of the group.
-/

namespace TexCalc

namespace Text

/-- The text between a pair of braces. -/
def braced (text : Text) : Text :=
  '\x7b' :: (text ++ ['\x7d'])

theorem braced_append (text right : Text) :
    text.braced ++ right = '\x7b' :: (text ++ '\x7d' :: right) := by
  rw [braced, List.cons_append, List.append_assoc, List.singleton_append]

/-- Every reader of groups passes over the text at the same depth. -/
def IsNeutral (text : Text) : Prop :=
  ∀ (bracket : Bracket) (depth : Nat) (rest : Text),
    bracket.groupFrom? depth (text ++ rest) =
      (bracket.groupFrom? depth rest).map (Group.extend text)

/-- Brackets, and the backslash that hides one. -/
def isMarkup (c : Char) : Bool :=
  c ∈ ['(', ')', '[', ']', '\x7b', '\x7d', '\\']

namespace IsNeutral

theorem map_extend_extend (first second : Text) (group? : Option Group) :
    (group?.map (Group.extend second)).map (Group.extend first) =
      group?.map (Group.extend (first ++ second)) := by
  cases group? with
  | none => rfl
  | some group => simp [Group.extend]

theorem nil : IsNeutral [] := by
  intro bracket depth rest
  cases found : bracket.groupFrom? depth rest with
  | none => simp [found]
  | some group => simp [found, Group.extend]

theorem append {first second : Text} (isFirst : first.IsNeutral) (isSecond : second.IsNeutral) :
    IsNeutral (first ++ second) := by
  intro bracket depth rest
  rw [List.append_assoc, isFirst, isSecond, map_extend_extend]

theorem groupFrom?_opener (bracket : Bracket) (depth : Nat) (rest : Text) :
    bracket.groupFrom? depth (bracket.opener :: rest) =
      (bracket.groupFrom? (depth + 1) rest).map (Group.extend [bracket.opener]) := by
  cases bracket <;> cases depth <;> rfl

theorem groupFrom?_closer (bracket : Bracket) (depth : Nat) (rest : Text) :
    bracket.groupFrom? (depth + 1) (bracket.closer :: rest) =
      (bracket.groupFrom? depth rest).map (Group.extend [bracket.closer]) := by
  cases bracket <;> rfl

/-- A character that is neither the reader's own bracket nor a backslash is passed over. -/
theorem groupFrom?_cons {bracket : Bracket} {c : Char} (noOpener : c ≠ bracket.opener)
    (noCloser : c ≠ bracket.closer) (other : c ≠ '\\') (depth : Nat) (rest : Text) :
    bracket.groupFrom? depth (c :: rest) =
      (bracket.groupFrom? depth rest).map (Group.extend [c]) := by
  cases depth <;>
    rw [Bracket.groupFrom?, if_neg noOpener, if_neg noCloser] <;>
      exact fun _ _ back => absurd back other

theorem cons {c : Char} (plain : isMarkup c = false) {text : Text} (neutral : text.IsNeutral) :
    IsNeutral (c :: text) := by
  intro bracket depth rest
  have noOpener : c ≠ bracket.opener := by
    rintro rfl
    cases bracket <;> cases plain
  have noCloser : c ≠ bracket.closer := by
    rintro rfl
    cases bracket <;> cases plain
  have other : c ≠ '\\' := by
    rintro rfl
    cases plain
  rw [List.cons_append, groupFrom?_cons noOpener noCloser other, neutral, map_extend_extend]
  rfl

theorem of_plain {text : Text} (plain : text.all (!isMarkup ·) = true) : text.IsNeutral := by
  induction text with
  | nil => exact nil
  | cons c text ih =>
      simp only [List.all_cons, Bool.and_eq_true, Bool.not_eq_true'] at plain
      exact (ih plain.2).cons plain.1

/-- A text of characters from a class that holds no markup. -/
theorem of_all {accept : Char → Bool} {text : Text}
    (none : ['(', ')', '[', ']', '\x7b', '\x7d', '\\'].all (!accept ·) = true)
    (all : text.all accept = true) : text.IsNeutral := by
  refine of_plain (List.all_eq_true.2 fun c isMember => ?_)
  have accepted := List.all_eq_true.1 all c isMember
  cases markup : isMarkup c with
  | false => rfl
  | true =>
      have other := List.all_eq_true.1 none c (of_decide_eq_true markup)
      rw [accepted] at other
      cases other

/-- A backslash and the character that it hides. -/
theorem control (hidden : Char) {text : Text} (neutral : text.IsNeutral) :
    IsNeutral ('\\' :: hidden :: text) := by
  intro bracket depth rest
  rw [List.cons_append, List.cons_append, Bracket.groupFrom?, neutral, map_extend_extend]
  rfl

/-- A pair of brackets of any kind around a neutral text. -/
theorem enclosed (outer : Bracket) {text : Text} (neutral : text.IsNeutral) :
    IsNeutral (outer.opener :: (text ++ [outer.closer])) := by
  intro bracket depth rest
  rw [List.cons_append, List.append_assoc, List.singleton_append]
  by_cases same : bracket = outer
  · subst same
    rw [groupFrom?_opener, neutral, groupFrom?_closer, map_extend_extend, map_extend_extend]
    rfl
  · have others : outer.opener ≠ bracket.opener ∧ outer.opener ≠ bracket.closer ∧
        outer.closer ≠ bracket.opener ∧ outer.closer ≠ bracket.closer ∧
        outer.opener ≠ '\\' ∧ outer.closer ≠ '\\' := by
      cases outer <;> cases bracket <;> first | exact absurd rfl same | decide
    obtain ⟨opening, opening', closing, closing', back, back'⟩ := others
    rw [groupFrom?_cons opening opening' back, neutral, groupFrom?_cons closing closing' back',
      map_extend_extend, map_extend_extend]
    rfl

theorem enclosed_append (outer : Bracket) {text right : Text} (neutral : text.IsNeutral)
    (after : right.IsNeutral) : IsNeutral (outer.opener :: (text ++ outer.closer :: right)) := by
  have parts := (neutral.enclosed outer).append after
  rwa [List.cons_append, List.append_assoc, List.singleton_append] at parts

theorem braced {text : Text} (neutral : text.IsNeutral) : text.braced.IsNeutral :=
  neutral.enclosed .curly

theorem parenthesized {text : Text} (neutral : text.IsNeutral) : text.parenthesized.IsNeutral :=
  neutral.enclosed .round

/-- A neutral text up to the closing bracket is the inside of a group. -/
theorem group? {text : Text} (neutral : text.IsNeutral) (bracket : Bracket) (rest : Text) :
    bracket.group? (text ++ bracket.closer :: rest) = some ⟨text, rest⟩ := by
  have closed : bracket.groupFrom? 0 (bracket.closer :: rest) = some ⟨[], rest⟩ := by
    cases bracket <;> rfl
  rw [Bracket.group?, neutral, closed]
  simp [Group.extend]

end IsNeutral

/-- Text in parentheses has no blanks at its ends. -/
theorem trim_parenthesized (text : Text) : text.parenthesized.trim = text.parenthesized :=
  have ends : text.parenthesized = ('(' :: text) ++ [')'] := rfl
  trim_eq_of_ends rfl ends (by decide) (by decide)

/-- A neutral text in parentheses is one group. -/
theorem isEnclosed_parenthesized {text : Text} (neutral : text.IsNeutral) :
    text.parenthesized.isEnclosed = true := by
  have closed := neutral.group? .round []
  rw [isEnclosed, trim_parenthesized]
  simp only [parenthesized]
  simp only [Bracket.closer] at closed
  rw [closed]
  rfl

/-- A text that begins with another character is no group in parentheses. -/
theorem isEnclosed_eq_false_of_head {text rest : Text} {c : Char} (begins : text.trim = c :: rest)
    (other : c ≠ '(') : text.isEnclosed = false := by
  rw [isEnclosed, begins]
  split
  · rename_i same
    cases same
    exact absurd rfl other
  · rfl

/-- A text that goes on behind its first group is not that group. -/
theorem isEnclosed_eq_false_of_group {text inside rest : Text} {c : Char}
    (neutral : inside.IsNeutral) (begins : text.trim = inside.parenthesized ++ c :: rest) :
    text.isEnclosed = false := by
  have closed := neutral.group? .round (c :: rest)
  rw [isEnclosed, begins, parenthesized_append]
  simp only [Bracket.closer] at closed
  simp only [closed, List.isEmpty_cons]

end Text

end TexCalc

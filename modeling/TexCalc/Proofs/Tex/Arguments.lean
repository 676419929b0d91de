import TexCalc.Check.Faults
import TexCalc.Proofs.Text.Neutral
import TexCalc.Proofs.Text.Runs

/-!
# Arguments in braces

A tight text begins and ends with a visible character, so that trimming takes away what stands
around it and nothing of the text itself.  A neutral text in braces is the argument that a command
reads, and one that is tight is no fault of the command.
-/

namespace TexCalc

namespace Text

/-- A text that neither begins nor ends with a blank. -/
def IsTight (text : Text) : Prop :=
  ∃ first rest lead last, text = first :: rest ∧ text = lead ++ [last] ∧
    isBlank first = false ∧ isBlank last = false

theorem IsTight.trim {text : Text} (tight : text.IsTight) : text.trim = text := by
  obtain ⟨first, rest, lead, last, begins, ends, firstVisible, lastVisible⟩ := tight
  exact trim_eq_of_ends begins ends firstVisible lastVisible

/-- A text between two visible characters. -/
theorem IsTight.between {first last : Char} (firstVisible : isBlank first = false)
    (lastVisible : isBlank last = false) (text : Text) :
    IsTight (first :: (text ++ [last])) :=
  ⟨first, text ++ [last], first :: text, last, rfl, rfl, firstVisible, lastVisible⟩

theorem IsTight.parenthesized (text : Text) : text.parenthesized.IsTight :=
  .between (by decide) (by decide) text

theorem IsTight.braced (text : Text) : text.braced.IsTight :=
  .between (by decide) (by decide) text

theorem IsTight.cons {c : Char} {text : Text} (visible : isBlank c = false)
    (tight : text.IsTight) : IsTight (c :: text) := by
  obtain ⟨first, rest, lead, last, _, ends, _, lastVisible⟩ := tight
  exact ⟨c, text, c :: lead, last, rfl, by rw [ends, List.cons_append], visible, lastVisible⟩

/-- Two tight texts with anything between them. -/
theorem IsTight.append_append {left right : Text} (first : left.IsTight) (middle : Text)
    (second : right.IsTight) : IsTight (left ++ (middle ++ right)) := by
  obtain ⟨begin, rest, _, _, begins, _, visible, _⟩ := first
  obtain ⟨_, _, lead, last, _, ends, _, lastVisible⟩ := second
  exact ⟨begin, rest ++ (middle ++ right), left ++ (middle ++ lead), last,
    by rw [begins, List.cons_append], by simp [ends], visible, lastVisible⟩

theorem IsTight.append {left right : Text} (first : left.IsTight) (second : right.IsTight) :
    IsTight (left ++ right) :=
  first.append_append [] second

theorem IsTight.append_cons {left right : Text} {c : Char} (first : left.IsTight)
    (second : right.IsTight) : IsTight (left ++ c :: right) :=
  first.append_append [c] second

theorem IsTight.trim_append {text : Text} (tight : text.IsTight) {lead trail : Text}
    (leadBlank : lead.isAllBlank = true) (trailBlank : trail.isAllBlank = true) :
    (lead ++ (text ++ trail)).trim = text := by
  obtain ⟨first, rest, front, last, begins, ends, firstVisible, lastVisible⟩ := tight
  have start : trimStart (lead ++ (text ++ trail)) = text ++ trail := by
    rw [trimStart, List.dropWhile_append_of_pos (List.all_eq_true.1 leadBlank), begins,
      List.cons_append]
    exact trimStart_eq_of_head firstVisible
  have back : ∀ c ∈ trail.reverse, isBlank c = true := fun c isMember =>
    List.all_eq_true.1 trailBlank c (List.mem_reverse.1 isMember)
  have finish : trimEnd (text ++ trail) = text := by
    rw [trimEnd, List.reverse_append, List.dropWhile_append_of_pos back]
    conv => rhs; rw [ends, ← trimEnd_eq_of_last lastVisible, ← ends]
    rfl
  rw [Text.trim, start, finish]

theorem IsTight.single {c : Char} (visible : isBlank c = false) : IsTight [c] :=
  ⟨c, [], [], c, rfl, rfl, visible, visible⟩

theorem IsTight.of_visible {text : Text} (nonempty : text ≠ [])
    (visible : text.all (!isBlank ·) = true) : text.IsTight := by
  obtain ⟨first, rest, begins⟩ := List.exists_cons_of_ne_nil nonempty
  have ends := List.dropLast_concat_getLast nonempty
  rw [List.all_eq_true] at visible
  refine ⟨first, rest, text.dropLast, text.getLast nonempty, begins, ends.symm, ?_, ?_⟩
  · simpa using visible first (begins ▸ List.mem_cons_self)
  · simpa using visible _ (List.getLast_mem nonempty)

theorem IsTight.isAllBlank_eq_false {text : Text} (tight : text.IsTight) :
    text.isAllBlank = false := by
  obtain ⟨first, rest, _, _, rfl, _, visible, _⟩ := tight
  simp [isAllBlank, visible]

/-- No run of blanks goes on into a tight text. -/
theorem IsTight.endsRun_append {text : Text} (tight : text.IsTight) (rest : Text) :
    endsRun isBlank (text ++ rest) = true := by
  obtain ⟨first, tail, _, _, rfl, _, visible, _⟩ := tight
  simp [endsRun, visible]

end Text

/-! ## Arguments -/

theorem Text.skipBlanks_cons {c : Char} (visible : isAsciiBlank c = false) (rest : Text) :
    skipBlanks (c :: rest) = c :: rest :=
  List.dropWhile_cons_of_neg (by simp [visible])

variable {text : Text}

/-- A neutral text in braces is read as a whole. -/
theorem Argument.read?_braced (neutral : text.IsNeutral) (rest : Text) :
    read? (text.braced ++ rest) = some ⟨text, true, rest⟩ := by
  have group := neutral.group? .curly rest
  rw [Text.braced_append]
  rw [read?, Text.skipBlanks_cons (by decide)]
  simp only [if_true]
  rw [show '\x7d' = Bracket.curly.closer from rfl, group]
  rfl

/-- A neutral text in square brackets is an optional argument. -/
theorem Argument.readOptional?_square (neutral : text.IsNeutral) (rest : Text) :
    readOptional? ('[' :: (text ++ ']' :: rest)) = some ⟨text, true, rest⟩ := by
  have group := neutral.group? .square rest
  rw [readOptional?, Text.skipBlanks_cons (by decide)]
  simp only
  rw [show ']' = Bracket.square.closer from rfl, group]
  rfl

theorem Probe.ofText_braced (neutral : text.IsNeutral) (tight : text.IsTight) (rest : Text) :
    ofText (text.braced ++ rest) = present rest := by
  rw [ofText, Argument.read?_braced neutral]
  simp only [tight.isAllBlank_eq_false, Bool.and_false, Bool.false_eq_true, if_false]

namespace Malformation

variable {other : Text}

theorem ofFraction?_braced (neutral : text.IsNeutral) (tight : text.IsTight)
    (neutral' : other.IsNeutral) (tight' : other.IsTight) (command rest : Text) :
    ofFraction? command 2 (text.braced ++ (other.braced ++ rest)) = none := by
  simp only [ofFraction?, Probe.ofText_braced neutral tight, Probe.ofText_braced neutral' tight']

theorem ofRadicand?_braced (neutral : text.IsNeutral) (tight : text.IsTight)
    (command rest : Text) : ofRadicand? command (text.braced ++ rest) = none := by
  simp only [ofRadicand?, Probe.ofText_braced neutral tight]

theorem ofRoot?_braced (neutral : text.IsNeutral) (tight : text.IsTight) (command rest : Text) :
    ofRoot? command (text.braced ++ rest) = none := by
  rw [ofRoot?, ofRadicand?_braced neutral tight, if_neg]
  rw [Text.braced_append, Text.skipBlanks_cons (by decide)]
  simp

theorem ofRoot?_square (neutral : text.IsNeutral) (tight : text.IsTight)
    (neutral' : other.IsNeutral) (tight' : other.IsTight) (command rest : Text) :
    ofRoot? command ('[' :: (text ++ ']' :: (other.braced ++ rest))) = none := by
  rw [ofRoot?, if_pos]
  · simp only [Argument.readOptional?_square neutral, tight.isAllBlank_eq_false,
      Bool.false_eq_true, if_false, ofRadicand?_braced neutral' tight']
  · rw [Text.skipBlanks_cons (by decide)]
    rfl

end Malformation

end TexCalc

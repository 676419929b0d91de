import TexCalc.Proofs.Nesting.Walk
import TexCalc.Proofs.Text.Neutral
import TexCalc.Proofs.Words.Cut

/-!
# Groups leave loose brackets only

A reader of groups that begins at an open bracket stops where that bracket is closed.  What it takes
closes nothing that was opened before and leaves no other than loose brackets behind, which is why it
can be put at another place.
-/

namespace TexCalc

namespace Bracket

variable {bracket : Bracket} {depth : Nat} {c : Char} {rest : Text}

theorem groupFrom?_own (rest : Text) :
    bracket.groupFrom? 0 (bracket.closer :: rest) = some ⟨[], rest⟩ := by
  cases bracket <;> rfl

/-- Where backslashes hide no brackets, every character that is no bracket is passed over. -/
theorem groupFrom?_plain (only : Text.HasWordsOnly (c :: rest)) (other : isBracket c = false) :
    bracket.groupFrom? depth (c :: rest) =
      (bracket.groupFrom? depth rest).map (Group.extend [c]) := by
  have pass {d : Char} (plain : isBracket d = false) (visible : d ≠ '\\') (text : Text) :=
    Text.IsNeutral.groupFrom?_cons (ne_opener_of_plain plain bracket)
      (ne_closer_of_plain plain bracket) visible depth text
  by_cases back : c = '\\'
  · subst back
    cases rest with
    | nil => exact absurd List.mem_cons_self only
    | cons d rest =>
        cases letter : d.isAlpha with
        | true =>
            rw [pass (isBracket_eq_false_of_isAlpha letter)
              (Text.ne_backslash_of_isAlpha letter), Text.IsNeutral.map_extend_extend]
            cases depth <;> rfl
        | false =>
            refine absurd ?_ only
            simp [letter]
  · exact pass other back rest

theorem groupFrom?_opener (pending : Pending) :
    bracket.groupFrom? depth (pending.opener :: rest) =
      (bracket.groupFrom? (depth + if pending.isCountedBy bracket then 1 else 0) rest).map
        (Group.extend [pending.opener]) := by
  rcases pending with other | _
  · cases bracket <;> cases other <;> cases depth <;> rfl
  · cases bracket <;> cases depth <;> rfl

theorem groupFrom?_closer (pending : Pending) :
    bracket.groupFrom? (depth + if pending.isCountedBy bracket then 1 else 0)
        (pending.closer :: rest) =
      (bracket.groupFrom? depth rest).map (Group.extend [pending.closer]) := by
  rcases pending with other | _
  · cases bracket <;> cases other <;> cases depth <;> rfl
  · cases bracket <;> cases depth <;> rfl

end Bracket

namespace Walk

variable {guarded may : Bool} {above below after : List Pending} {text : Text} {bracket : Bracket}

theorem countP_loose {count : Nat} (fixed : bracket = .square → count = 0) :
    (loose count).countP (·.isCountedBy bracket) = 0 := by
  rw [List.countP_eq_zero]
  intro pending isMember
  obtain ⟨nonzero, rfl⟩ := List.mem_replicate.1 isMember
  simpa [Pending.isCountedBy] using mt fixed nonzero

/-- A reader of groups, with as many brackets of its kind open above its own as it has counted, stops
where its own bracket is closed.  What it takes closes nothing below and leaves loose brackets. -/
theorem of_groupFrom? {group : Group} (only : text.HasWordsOnly)
    (walk : Walk guarded may (above ++ .bracket bracket :: below) text after)
    (found : bracket.groupFrom? (above.countP (·.isCountedBy bracket)) text = some group) :
    ∃ count, (bracket = .square → count = 0) ∧
      (∀ below, Walk guarded may (above ++ below) group.inside (loose count ++ below)) ∧
        Walk guarded true (loose count ++ below) group.rest after := by
  induction text generalizing above may group with
  | nil => cases found
  | cons c rest ih =>
      rcases walk.of_cons with ⟨plain, later⟩ | ⟨pending, rfl, step, later⟩ |
        ⟨count, pending, rest, rfl, fixed, same, later⟩
      · rw [Bracket.groupFrom?_plain only plain] at found
        obtain ⟨inner, isInner, rfl⟩ := Option.map_eq_some_iff.1 found
        obtain ⟨count, square, inside, behind⟩ := ih only.tail later isInner
        exact ⟨count, square, fun below => .step (.plain plain) (inside below), behind⟩
      · rw [Bracket.groupFrom?_opener, ← List.countP_cons] at found
        obtain ⟨inner, isInner, rfl⟩ := Option.map_eq_some_iff.1 found
        obtain ⟨count, square, inside, behind⟩ := ih only.tail later isInner
        exact ⟨count, square, fun below => .step (step.frame_replace _) (inside below), behind⟩
      · rcases eq_of_loose_append same with ⟨rfl, rfl, rfl⟩ | ⟨between, rfl, rfl⟩
        · have square : bracket = .square → count = 0 := fun same =>
            fixed (by simp [Pending.isCountedBy, same])
          rw [countP_loose square, Pending.closer, Bracket.groupFrom?_own] at found
          cases found
          exact ⟨count, square, fun below => .done _, later.mono⟩
        · have counted : (loose count ++ pending :: between).countP (·.isCountedBy bracket) =
              (loose count ++ between).countP (·.isCountedBy bracket) +
                if pending.isCountedBy bracket then 1 else 0 := by
            rw [List.countP_append, List.countP_append, List.countP_cons, Nat.add_assoc]
          rw [counted, Bracket.groupFrom?_closer] at found
          obtain ⟨inner, isInner, rfl⟩ := Option.map_eq_some_iff.1 found
          rw [← List.append_assoc] at later
          obtain ⟨left, square, inside, behind⟩ := ih only.tail later isInner
          refine ⟨left, square, fun below => ?_, behind⟩
          have closed := inside below
          rw [List.append_assoc] at closed ⊢
          exact closes_through fixed closed

end Walk

namespace Text

/-- Wherever the text stands, it leaves a number of loose brackets and closes nothing. -/
def Leaves (guarded : Bool) (count : Nat) (text : Text) : Prop :=
  ∀ before, Walk guarded false before text (loose count ++ before)

namespace Leaves

variable {guarded may : Bool} {count : Nat} {text right : Text} {before after : List Pending}

/-- What is walked over in front of the text, and what follows it. -/
theorem walk_append (leaves : Leaves guarded count text)
    (later : Walk guarded false (loose count ++ before) right after) :
    Walk guarded may before (text ++ right) after :=
  ((leaves before).append later).anywhere may

theorem of_plain (plain : text.all (!isBracket ·) = true) : Leaves guarded 0 text := by
  intro before
  rw [← List.append_nil text]
  exact .plain_append plain (.done _)

theorem append {more : Nat} (first : Leaves guarded count text)
    (second : Leaves guarded more right) : Leaves guarded (more + count) (text ++ right) := by
  intro before
  rw [loose_add, List.append_assoc]
  exact (first before).append (second _)

theorem plain_append {lead : Text} (plain : lead.all (!isBracket ·) = true)
    (leaves : Leaves guarded count text) : Leaves guarded count (lead ++ text) :=
  (of_plain plain).append leaves

theorem plain_cons {c : Char} (other : isBracket c = false)
    (leaves : Leaves guarded count text) : Leaves guarded count (c :: text) :=
  fun before => .plain_cons other (leaves before)

/-- A text in parentheses, with the text that follows it. -/
theorem walk_parenthesized (leaves : Leaves guarded count text)
    (later : Walk guarded true (loose count ++ before) right after) :
    Walk guarded may before (text.parenthesized ++ right) after := by
  rw [parenthesized_append]
  exact .paren ((leaves _).append (.closeParen later)).mono

theorem parenthesized (leaves : Leaves guarded count text) :
    Leaves guarded count text.parenthesized := by
  intro before
  rw [← List.append_nil text.parenthesized]
  exact leaves.walk_parenthesized (.done _)

theorem trim (leaves : Leaves guarded count text) : Leaves guarded count text.trim := by
  obtain ⟨lead, trail, split, leadBlank, trailBlank⟩ := text.exists_trim_eq
  intro before
  have whole := leaves before
  rw [split] at whole
  exact (whole.of_plain_append (all_plain_of (by decide) leadBlank)).of_append_plain
    (all_plain_of (by decide) trailBlank)

theorem wrap (leaves : Leaves guarded count text) : Leaves guarded count text.wrap := by
  unfold Text.wrap
  split
  · exact leaves.trim
  · exact leaves.trim.parenthesized

end Leaves

end Text

namespace Walk

variable {guarded may : Bool} {before after : List Pending} {text : Text} {bracket : Bracket}
  {group : Group}

/-- A group in parentheses or braces, which may be put at another place. -/
theorem of_group? (fixed : bracket ≠ .square) (known : guarded = true → bracket ≠ .round)
    (only : text.HasWordsOnly)
    (walk : Walk guarded may before (bracket.opener :: text) after)
    (found : bracket.group? text = some group) :
    ∃ count, group.inside.Leaves guarded count ∧
      Walk guarded true (loose count ++ before) group.rest after := by
  obtain ⟨count, _, inside, behind⟩ :=
    @of_groupFrom? _ _ [] before after text bracket group only (walk.of_opener fixed) found
  refine ⟨count, fun below => ?_, behind⟩
  cases guarded with
  | false => exact (inside below).unguarded false
  | true =>
      have curly : (bracket == .round) = false := beq_eq_false_iff_ne.2 (known rfl)
      exact curly ▸ inside below

end Walk

end TexCalc

import TexCalc.Proofs.Nesting.Structures
import TexCalc.Proofs.Spacing.Sought

/-!
# Groups that reach across a structure

A group that was opened in front of a fraction or a root is closed where it was closed before when
the structure is replaced.  What stands in its place opens as many braces and square brackets as the
command and its arguments did, and no reader of groups in braces or square brackets counts the
parentheses that come with it.
-/

namespace TexCalc

/-! ## Where a group is closed -/

namespace Bracket

/-- The text behind the group whose opening bracket was just read. -/
def behind? (bracket : Bracket) (depth : Nat) (text : Text) : Option Text :=
  (bracket.groupFrom? depth text).map Group.rest

theorem behind?_eq_of_extend {bracket : Bracket} {depth later : Nat} {lead text rest : Text}
    (step : bracket.groupFrom? depth text =
      (bracket.groupFrom? later rest).map (Group.extend lead)) :
    bracket.behind? depth text = bracket.behind? later rest := by
  rw [behind?, behind?, step]
  cases bracket.groupFrom? later rest <;> rfl

end Bracket

/-- A reader of groups that comes from `text` to `rest` counts the brackets `opened` on its way. -/
def Bracket.Counts (bracket : Bracket) (opened : List Pending) (text rest : Text) : Prop :=
  ∀ depth, bracket.behind? depth text =
    bracket.behind? (depth + opened.countP (·.isCountedBy bracket)) rest

namespace Bracket.Counts

variable {bracket : Bracket} {guarded : Bool} {first second opened : List Pending}
  {text middle rest : Text}

theorem append (isFirst : bracket.Counts first text middle)
    (isSecond : bracket.Counts second middle rest) :
    bracket.Counts (second ++ first) text rest := by
  intro depth
  rw [isFirst, isSecond, List.countP_append, Nat.add_assoc, Nat.add_comm (second.countP _)]

/-- What opens nothing may stand in front. -/
theorem after (idle : bracket.Counts [] text middle) (counts : bracket.Counts opened middle rest) :
    bracket.Counts opened text rest := by
  have both := idle.append counts
  rwa [List.append_nil] at both

theorem plain {c : Char} (only : Text.HasWordsOnly (c :: rest)) (other : isBracket c = false) :
    bracket.Counts [] (c :: rest) rest :=
  fun _ => behind?_eq_of_extend (groupFrom?_plain only other)

theorem plain_append {lead : Text} (only : Text.HasWordsOnly (lead ++ rest))
    (plain : lead.all (!isBracket ·) = true) : bracket.Counts [] (lead ++ rest) rest := by
  induction lead with
  | nil => exact fun _ => rfl
  | cons c lead ih =>
      rw [List.all_cons, Bool.and_eq_true, Bool.not_eq_true'] at plain
      exact (Counts.plain only plain.1).after (ih only.tail plain.2)

theorem skipBlanks (only : text.HasWordsOnly) : bracket.Counts [] text text.skipBlanks := by
  have whole : text.takeWhile isAsciiBlank ++ text.skipBlanks = text :=
    List.takeWhile_append_dropWhile
  have counts : bracket.Counts []
      (text.takeWhile isAsciiBlank ++ text.skipBlanks) text.skipBlanks :=
    plain_append (whole.symm ▸ only) (all_plain_of (by decide) List.all_takeWhile)
  rwa [whole] at counts

theorem opener (pending : Pending) : bracket.Counts [pending] (pending.opener :: rest) rest :=
  fun _ => by
    rw [behind?_eq_of_extend (groupFrom?_opener pending), List.countP_singleton]

/-- A closing bracket takes off what its partner has counted. -/
theorem closes (pending : Pending)
    (counts : bracket.Counts (opened ++ [pending]) text (pending.closer :: rest)) :
    bracket.Counts opened text rest := by
  intro depth
  rw [counts, List.countP_append, List.countP_singleton, ← Nat.add_assoc,
    behind?_eq_of_extend (groupFrom?_closer pending)]

/-- Over a walk the brackets are counted that are open behind it. -/
theorem of_walk {may : Bool} {before after : List Pending}
    (walk : Walk guarded may before text after) (only : Text.HasWordsOnly (text ++ rest))
    (depth : Nat) :
    bracket.behind? (depth + before.countP (·.isCountedBy bracket)) (text ++ rest) =
      bracket.behind? (depth + after.countP (·.isCountedBy bracket)) rest := by
  induction walk with
  | done => rfl
  | step first _ ih =>
      rw [← ih only.tail, List.cons_append]
      cases first with
      | plain other => exact plain only other _
      | @opens pending kind _ =>
          rw [List.countP_cons, ← Nat.add_assoc]
          exact behind?_eq_of_extend (groupFrom?_opener (.bracket kind))
      | @closes pending kind =>
          rw [List.countP_cons, ← Nat.add_assoc]
          exact behind?_eq_of_extend (groupFrom?_closer (.bracket kind))
      | loose _ =>
          rw [List.countP_cons, ← Nat.add_assoc]
          exact behind?_eq_of_extend (groupFrom?_opener .loose)
      | ends =>
          rw [List.countP_cons, ← Nat.add_assoc]
          exact behind?_eq_of_extend (groupFrom?_closer .loose)
  | @sinks _ above below _ sunk _ _ _ ih =>
      have same : (above ++ .loose :: .bracket sunk :: below).Perm
          (above ++ .bracket sunk :: .loose :: below) :=
        (List.Perm.swap _ _ _).append_left above
      rw [same.countP_eq, ih only]

/-- A text that leaves brackets open. -/
theorem of_leaves {count : Nat} (leaves : text.Leaves guarded count)
    (only : Text.HasWordsOnly (text ++ rest)) :
    bracket.Counts (loose count) (text ++ rest) rest := by
  intro depth
  have counted := @of_walk bracket guarded text rest false [] _ (leaves []) only depth
  rwa [List.append_nil, List.countP_nil, Nat.add_zero] at counted

/-- An argument as a text. -/
theorem of_opens (opens : text.Opens guarded opened) (only : Text.HasWordsOnly (text ++ rest)) :
    bracket.Counts opened (text ++ rest) rest := by
  cases opens with
  | round => exact opener (.bracket .round)
  | square => exact opener .loose
  | leaves leaves => exact of_leaves leaves only

/-- The command of a structure reads an argument as a text with a group around it, or as it is. -/
theorem of_argument {argument : Argument} (only : text.HasWordsOnly)
    (opens : argument.text.Opens guarded opened) (found : Argument.read? text = some argument) :
    bracket.Counts opened text argument.rest := by
  have within := only.skipBlanks
  refine (skipBlanks only).after ?_
  simp only [Argument.read?] at found
  split at found
  · cases found
  · rename_i c rest shape
    rw [shape] at within ⊢
    split at found
    · rename_i brace
      subst brace
      obtain ⟨group, isGroup, rfl⟩ := Option.map_eq_some_iff.1 found
      have split := Bracket.eq_of_group? isGroup
      rw [split] at within ⊢
      have inside : bracket.Counts opened _ _ := of_opens opens within.tail
      exact closes (.bracket .curly) ((opener (.bracket .curly)).append inside)
    · split at found
      · rename_i back
        subst back
        obtain ⟨control, isControl, rfl⟩ := Option.map_eq_some_iff.1 found
        rw [Control.eq_of_read? isControl] at within ⊢
        exact of_opens opens within
      · split at found
        · cases found
        · cases found
          exact of_opens opens within

theorem of_index {index : Argument} (only : text.HasWordsOnly)
    (leaves : index.text.Leaves guarded 0) (found : Argument.readOptional? text = some index) :
    bracket.Counts [] text index.rest := by
  have within := only.skipBlanks
  refine (skipBlanks only).after ?_
  simp only [Argument.readOptional?] at found
  split at found
  · rename_i rest shape
    rw [shape] at within ⊢
    obtain ⟨group, isGroup, rfl⟩ := Option.map_eq_some_iff.1 found
    have split := Bracket.eq_of_group? isGroup
    rw [split] at within ⊢
    have inside : bracket.Counts [] (group.inside ++ ']' :: group.rest) (']' :: group.rest) :=
      of_leaves leaves within.tail
    exact closes (.bracket .square) ((opener (.bracket .square)).append inside)
  · cases found

/-! ### Parentheses are not counted -/

variable (fixed : bracket ≠ .round)
include fixed

theorem openParen : bracket.Counts [] ('(' :: rest) rest := by
  intro depth
  cases bracket with
  | round => exact absurd rfl fixed
  | square | curly => exact opener (.bracket .round) depth

theorem closeParen : bracket.Counts [] (')' :: rest) rest := by
  refine closes (.bracket .round) fun depth => ?_
  cases bracket with
  | round => exact absurd rfl fixed
  | square | curly => rfl

theorem of_parenthesized (opens : text.Opens guarded opened)
    (only : Text.HasWordsOnly (text.parenthesized ++ rest)) :
    bracket.Counts opened (text.parenthesized ++ rest) rest := by
  rw [Text.parenthesized_append] at only ⊢
  have inside : bracket.Counts opened _ _ := of_opens opens only.tail
  exact (openParen fixed).after (inside.append (closeParen fixed))

theorem of_wrap (opens : text.Opens guarded opened) (only : Text.HasWordsOnly (text.wrap ++ rest)) :
    bracket.Counts opened (text.wrap ++ rest) rest := by
  revert only
  unfold Text.wrap
  split
  · exact of_opens opens.trim
  · exact of_parenthesized fixed opens.trim

theorem of_fraction {numerator denominator : Text} (above : numerator.Opens guarded first)
    (below : denominator.Opens guarded second)
    (only : Text.HasWordsOnly ((Structure.fraction numerator denominator).linear ++ rest)) :
    bracket.Counts (second ++ first) ((Structure.fraction numerator denominator).linear ++ rest)
      rest := by
  rw [Structure.linear, Text.parenthesized_append, List.append_assoc, List.cons_append] at only ⊢
  have onlyBelow := only.tail.of_append_right
  have slash : bracket.Counts [] _ _ := plain onlyBelow (by decide)
  have ends := (of_wrap fixed below onlyBelow.tail).append (closeParen fixed)
  exact (openParen fixed).after ((of_wrap fixed above only.tail).append (slash.after ends))

theorem of_root {radicand : Text} (opens : radicand.Opens guarded opened)
    (only : Text.HasWordsOnly ((Structure.root radicand).linear ++ rest)) :
    bracket.Counts opened ((Structure.root radicand).linear ++ rest) rest := by
  rw [Structure.linear, Text.parenthesized_append, List.append_assoc] at only ⊢
  have name : bracket.Counts [] _ _ := plain_append only.tail (by decide)
  have inside := of_parenthesized fixed opens.trim only.tail.of_append_right
  exact (openParen fixed).after (name.after (inside.append (closeParen fixed)))

theorem of_indexedRoot {index radicand : Text} (leaves : index.Leaves guarded 0)
    (opens : radicand.Opens guarded opened)
    (only : Text.HasWordsOnly ((Structure.indexedRoot index radicand).linear ++ rest)) :
    bracket.Counts opened ((Structure.indexedRoot index radicand).linear ++ rest) rest := by
  rw [Structure.linear, Text.parenthesized_append, List.append_assoc, List.cons_append] at only ⊢
  have onlyPower := only.tail.of_append_right
  have caret : bracket.Counts [] _ _ := plain onlyPower (by decide)
  have power : Text.Leaves guarded 0 ("1/".toList ++ index.wrap) :=
    leaves.wrap.plain_append (by decide)
  have raised := of_parenthesized fixed (.leaves power) onlyPower.tail
  have ends := caret.after (raised.append (closeParen fixed))
  exact (openParen fixed).after ((of_wrap fixed opens only.tail).append ends)

end Bracket.Counts

namespace Structure

/-- In the place of a structure a reader of groups counts what it has counted before. -/
theorem counts_read? {name text after : Text} {found : Structure} {before : List Pending}
    (only : text.HasWordsOnly) (walk : Walk true false before text [])
    (isRead : read? name text = some (found, after)) {bracket : Bracket}
    (fixed : bracket ≠ .round) :
    ∃ opened, bracket.Counts opened text after ∧
      bracket.Counts opened (found.linear ++ after) after := by
  have still : (found.linear ++ after).HasWordsOnly := fun isMember =>
    only ((mem_words_read? only isRead).1 isMember)
  simp only [read?] at isRead
  split at isRead
  · obtain ⟨numerator, isNumerator, isRead⟩ := Option.bind_eq_some_iff.1 isRead
    obtain ⟨denominator, isDenominator, same⟩ := Option.map_eq_some_iff.1 isRead
    cases same
    obtain ⟨first, above, walk⟩ := walk.of_argument only isNumerator
    obtain ⟨second, below, _⟩ := walk.of_argument (only.of_argument isNumerator) isDenominator
    have start : bracket.Counts first _ _ := .of_argument only above isNumerator
    have later := start.append (.of_argument (only.of_argument isNumerator) below isDenominator)
    exact ⟨_, later, .of_fraction fixed above below still⟩
  · split at isRead
    · simp only [readRoot?] at isRead
      split at isRead
      · obtain ⟨index, isIndex, isRead⟩ := Option.bind_eq_some_iff.1 isRead
        obtain ⟨radicand, isRadicand, same⟩ := Option.map_eq_some_iff.1 isRead
        cases same
        obtain ⟨leaves, walk⟩ := walk.of_index only isIndex
        obtain ⟨opened, opens, _⟩ :=
          walk.of_argument (only.of_optionalArgument isIndex) isRadicand
        have start : bracket.Counts [] _ _ := .of_index only leaves isIndex
        have later := start.after (.of_argument (only.of_optionalArgument isIndex) opens isRadicand)
        exact ⟨_, later, .of_indexedRoot fixed leaves opens still⟩
      · obtain ⟨radicand, isRadicand, same⟩ := Option.map_eq_some_iff.1 isRead
        cases same
        obtain ⟨opened, opens, _⟩ := walk.of_argument only isRadicand
        exact ⟨_, .of_argument only opens isRadicand, .of_root fixed opens still⟩
    · cases isRead

end Structure

end TexCalc

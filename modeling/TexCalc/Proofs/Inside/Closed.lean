import TexCalc.Proofs.Dollars.Idle
import TexCalc.Proofs.Nesting.Nested
import TexCalc.Proofs.Nesting.Renamed

/-!
# Closed texts

A text is closed when no parenthesis and no brace that is opened in it is open behind it.  What
follows a closed text has then no part in its groups.  A closed text may begin inside groups, so
that every ending of a closed text is closed.
-/

namespace TexCalc

namespace Walk

variable {guarded may : Bool} {before after above below : List Pending} {text : Text}
  {bracket : Bracket}

/-- Where no text is left, the same brackets are open. -/
theorem mem_of_nil {pending : Pending} (walk : Walk guarded may before [] after)
    (isOpen : pending ∈ before) : pending ∈ after := by
  generalize whole : ([] : Text) = text at walk
  induction walk with
  | done => exact isOpen
  | step => cases whole
  | sinks above other _ ih =>
      refine ih ?_ whole
      simp only [List.mem_append, List.mem_cons] at isOpen ⊢
      exact isOpen.imp_right or_left_comm.1

/-- A bracket that is not open behind the text has a partner in the text. -/
theorem isSome_groupFrom? {count : Nat} (fixed : bracket ≠ .square) (only : text.HasWordsOnly)
    (walk : Walk guarded may (above ++ .bracket bracket :: below) text (loose count)) :
    (bracket.groupFrom? (above.countP (·.isCountedBy bracket)) text).isSome = true := by
  induction text generalizing above may with
  | nil =>
      have isOpen := walk.mem_of_nil (List.mem_append_right above List.mem_cons_self)
      cases List.eq_of_mem_replicate isOpen
  | cons c rest ih =>
      rcases walk.of_cons with ⟨plain, later⟩ | ⟨pending, rfl, _, later⟩ |
        ⟨left, pending, rest, rfl, sinking, same, later⟩
      · rw [Bracket.groupFrom?_plain only plain, Option.isSome_map]
        exact ih only.tail later
      · rw [Bracket.groupFrom?_opener, ← List.countP_cons, Option.isSome_map]
        exact ih only.tail later
      · rcases eq_of_loose_append same with ⟨rfl, rfl, rfl⟩ | ⟨between, rfl, rfl⟩
        · rw [countP_loose fun square => absurd square fixed, Pending.closer,
            Bracket.groupFrom?_own]
          rfl
        · have counted : (loose left ++ pending :: between).countP (·.isCountedBy bracket) =
              (loose left ++ between).countP (·.isCountedBy bracket) +
                if pending.isCountedBy bracket then 1 else 0 := by
            rw [List.countP_append, List.countP_append, List.countP_cons, Nat.add_assoc]
          rw [counted, Bracket.groupFrom?_closer, Option.isSome_map]
          rw [← List.append_assoc] at later
          exact ih only.tail later

end Walk

namespace Text

variable {text rest trail : Text} {bracket : Bracket}

/-- Behind the text none but loose brackets are open. -/
structure IsClosed (text : Text) : Prop where
  only : text.HasWordsOnly
  exists_walk : ∃ before count, Walk false true before text (loose count)

namespace IsClosed

theorem of_isNested (only : text.HasWordsOnly) (nested : text.isNested = true) :
    text.IsClosed :=
  ⟨only, [], 0, (walk_of_isNestedIn true nested).release⟩

theorem nil : IsClosed [] :=
  of_isNested (hasWordsOnly_of_not_mem List.not_mem_nil) rfl

theorem of_leaves {count : Nat} (only : text.HasWordsOnly) (leaves : text.Leaves false count) :
    text.IsClosed :=
  ⟨only, [], count, List.append_nil (loose count) ▸ (leaves []).mono⟩

/-- Whatever is kept for all brackets that are open around a text keeps a text closed. -/
theorem of_walk {after : Text} (closed : text.IsClosed) (only : after.HasWordsOnly)
    (kept : ∀ before open', Walk false true before text open' →
      Walk false true before after open') : after.IsClosed := by
  obtain ⟨before, count, walk⟩ := closed.exists_walk
  exact ⟨only, before, count, kept _ _ walk⟩

theorem of_suffix (closed : text.IsClosed) (ends : rest <:+ text) : rest.IsClosed := by
  obtain ⟨lead, rfl⟩ := ends
  obtain ⟨before, count, walk⟩ := closed.exists_walk
  obtain ⟨between, _, later⟩ := walk.split
  exact ⟨closed.only.of_append_right, between, count, later⟩

/-- A group that is opened in a closed text ends in it. -/
theorem exists_group (closed : text.IsClosed) (fixed : bracket ≠ .square)
    (ends : bracket.opener :: rest <:+ text) : ∃ group, bracket.group? rest = some group := by
  obtain ⟨only, before, count, walk⟩ := closed.of_suffix ends
  rw [← Option.isSome_iff_exists]
  exact @Walk.isSome_groupFrom? _ _ [] _ _ _ count fixed only.tail (walk.of_opener fixed)

end IsClosed

end Text

namespace Bracket

variable {bracket : Bracket}

/-- A group that ends in a text is the same in front of any other text. -/
theorem groupFrom?_append_of_eq_some {depth : Nat} {text : Text} {group : Group}
    (found : bracket.groupFrom? depth text = some group) (trail : Text) :
    bracket.groupFrom? depth (text ++ trail) = some (group.followedBy trail) := by
  fun_induction groupFrom? bracket depth text generalizing group with
  | case1 => cases found
  | case2 depth hidden rest ih =>
      obtain ⟨inner, isInner, rfl⟩ := Option.map_eq_some_iff.1 found
      rw [List.cons_append, List.cons_append, groupFrom?, ih isInner]
      rfl
  | case3 depth rest _ ih =>
      obtain ⟨inner, isInner, rfl⟩ := Option.map_eq_some_iff.1 found
      rw [List.cons_append, Text.IsNeutral.groupFrom?_opener, ih isInner]
      rfl
  | case4 =>
      cases found
      cases bracket <;> rfl
  | case5 rest _ _ depth ih =>
      obtain ⟨inner, isInner, rfl⟩ := Option.map_eq_some_iff.1 found
      rw [List.cons_append, Text.IsNeutral.groupFrom?_closer, ih isInner]
      rfl
  | case6 depth c rest hides noOpener noCloser ih =>
      obtain ⟨inner, isInner, rfl⟩ := Option.map_eq_some_iff.1 found
      have other : c ≠ '\\' := by
        rintro rfl
        cases rest with
        | nil => cases isInner
        | cons hidden rest => exact (hides hidden rest rfl rfl).elim
      rw [List.cons_append, Text.IsNeutral.groupFrom?_cons noOpener noCloser other, ih isInner]
      rfl

end Bracket

namespace Text

variable {text trail rest : Text} {bracket : Bracket}

/-- What follows the text has no part in the parentheses and braces that are opened in it. -/
def KeepsGroups (text trail : Text) : Prop :=
  ∀ (bracket : Bracket) (rest : Text), bracket ≠ .square → bracket.opener :: rest <:+ text →
    bracket.group? (rest ++ trail) = (bracket.group? rest).map (Group.followedBy trail)

theorem IsClosed.keepsGroups (closed : text.IsClosed) (trail : Text) : text.KeepsGroups trail := by
  intro bracket rest fixed ends
  obtain ⟨group, isGroup⟩ := closed.exists_group fixed ends
  rw [Bracket.group?, Bracket.groupFrom?_append_of_eq_some isGroup trail, isGroup]
  rfl

theorem keepsGroups_of_isIdle (idle : trail.isIdle = true) (text : Text) :
    text.KeepsGroups trail :=
  fun bracket rest _ _ => Bracket.group?_append idle bracket rest

theorem KeepsGroups.of_suffix (keeps : text.KeepsGroups trail) (ends : rest <:+ text) :
    rest.KeepsGroups trail :=
  fun bracket later fixed isEnding => keeps bracket later fixed (isEnding.trans ends)

end Text

end TexCalc

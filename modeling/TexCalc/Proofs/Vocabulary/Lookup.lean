import Mathlib.Data.List.Pairwise
import TexCalc.Vocabulary.Basic

/-!
# What a vocabulary finds

The entries of a vocabulary are in order of the length of their names, and no name is entered
twice.  Names of equal length that begin the same text are the same name, so that the entry found
at some place is the one with the longest name there.  The order of names of equal length does not
matter: what is found depends on the kinds of the names alone.
-/

namespace TexCalc

namespace Text

/-- Openings of the same text are told apart by their lengths. -/
theorem eq_of_prefix {text left right : Text} (isLeft : left <+: text) (isRight : right <+: text)
    (same : left.length = right.length) : left = right :=
  (List.prefix_of_prefix_length_le isLeft isRight (Nat.le_of_eq same)).eq_of_length same

end Text

namespace Name

theorem isPrefix_of_dropLead? {name : Name} {text rest : Text}
    (found : text.dropLead? name.text = some rest) : name.text <+: text :=
  ⟨rest, (Text.dropLead?_eq_some_iff.1 found).symm⟩

theorem isPrefix_of_after? {name : Name} {text rest : Text}
    (found : name.after? text = some rest) : name.text <+: text :=
  isPrefix_of_dropLead? (Option.filter_eq_some_iff.1 found).1

theorem eq_of_isPrefix {text : Text} {left right : Name} (isLeft : left.text <+: text)
    (isRight : right.text <+: text) (same : left.length = right.length) : left = right :=
  ext_text (Text.eq_of_prefix isLeft isRight same)

end Name

/-! ## The longest name -/

section Longest

variable {α : Type} {left right values : List α} {name : α → Name} {read : Name → Option Text}

/-- Values in order of the length of their names, longest first. -/
def LongestFirst (name : α → Name) (values : List α) : Prop :=
  values.Pairwise fun first second => (name second).length ≤ (name first).length

/-- Behind the names that have at least a certain length all names are shorter. -/
theorem LongestFirst.lt_of_mem_dropWhile (sorted : LongestFirst name values) {length : Nat}
    {value : α} (isMember : value ∈ values.dropWhile fun other => length ≤ (name other).length) :
    (name value).length < length := by
  induction values with
  | nil => cases isMember
  | cons first values ih =>
      obtain ⟨below, sorted⟩ := List.pairwise_cons.1 sorted
      rw [List.dropWhile_cons] at isMember
      split at isMember
      · exact ih sorted isMember
      · rename_i shorter
        rw [decide_eq_true_eq, Nat.not_le] at shorter
        rcases List.mem_cons.1 isMember with rfl | later
        · exact shorter
        · exact Nat.lt_of_le_of_lt (below value later) shorter

/-- The first value whose name can be read has the longest name of all that can be. -/
theorem LongestFirst.longest (sorted : LongestFirst name values) {value : α} {rest : Text}
    (found : values.findSome? (fun value => (read (name value)).map (value, ·)) =
      some (value, rest)) :
    value ∈ values ∧ read (name value) = some rest ∧
      ∀ other ∈ values, (read (name other)).isSome = true →
        (name other).length ≤ (name value).length := by
  induction values with
  | nil => cases found
  | cons first values ih =>
      obtain ⟨below, sorted⟩ := List.pairwise_cons.1 sorted
      rw [List.findSome?_cons] at found
      cases readable : read (name first) with
      | some after =>
          rw [readable] at found
          cases found
          refine ⟨List.mem_cons_self, readable, fun other isMember _ => ?_⟩
          rcases List.mem_cons.1 isMember with rfl | later
          · exact Nat.le_refl _
          · exact below other later
      | none =>
          rw [readable] at found
          obtain ⟨isMember, isRead, longest⟩ := ih sorted found
          refine ⟨List.mem_cons_of_mem _ isMember, isRead, fun other isOther isSome => ?_⟩
          rcases List.mem_cons.1 isOther with rfl | later
          · rw [readable] at isSome
            cases isSome
          · exact longest other later isSome

/-- What is read first does not depend on the order of names of equal length. -/
theorem LongestFirst.findSome?_eq {text : Text} (sortedLeft : LongestFirst name left)
    (sortedRight : LongestFirst name right) (same : ∀ value, value ∈ left ↔ value ∈ right)
    (distinct : ∀ first ∈ left, ∀ second ∈ left, name first = name second → first = second)
    (isLead : ∀ name rest, read name = some rest → name.text <+: text) :
    left.findSome? (fun value => (read (name value)).map (value, ·)) =
      right.findSome? (fun value => (read (name value)).map (value, ·)) := by
  cases isFound : left.findSome? (fun value => (read (name value)).map (value, ·)) with
  | none =>
      rw [List.findSome?_eq_none_iff] at isFound
      symm
      rw [List.findSome?_eq_none_iff]
      exact fun value isMember => isFound value ((same value).2 isMember)
  | some found =>
      obtain ⟨value, rest⟩ := found
      obtain ⟨isMember, isRead, longest⟩ := sortedLeft.longest isFound
      cases isOther : right.findSome? (fun value => (read (name value)).map (value, ·)) with
      | none =>
          have unread := List.findSome?_eq_none_iff.1 isOther value ((same value).1 isMember)
          rw [isRead] at unread
          cases unread
      | some other =>
          obtain ⟨other, after⟩ := other
          obtain ⟨otherMember, otherRead, otherLongest⟩ := sortedRight.longest isOther
          have otherLeft := (same other).2 otherMember
          have sameLength : (name value).length = (name other).length := by
            apply Nat.le_antisymm
            · exact otherLongest value ((same value).1 isMember) (by rw [isRead]; rfl)
            · exact longest other otherLeft (by rw [otherRead]; rfl)
          have sameName : name value = name other :=
            Name.eq_of_isPrefix (isLead _ _ isRead) (isLead _ _ otherRead) sameLength
          obtain rfl := distinct value isMember other otherLeft sameName
          rw [isRead] at otherRead
          cases otherRead
          rfl

end Longest

/-! ## Vocabularies that were built name by name -/

namespace Vocabulary

/-- How a vocabulary keeps its entries: longest name first, and every name once. -/
structure IsOrdered (vocabulary : Vocabulary) : Prop where
  longestFirst : LongestFirst Entry.name vocabulary.entries
  once : vocabulary.entries.Pairwise fun first second => first.name ≠ second.name

theorem isOrdered_empty : empty.IsOrdered :=
  ⟨.nil, .nil⟩

/-- A new name stands behind the names that are at least as long and in front of the others. -/
theorem pairwise_insert {vocabulary : Vocabulary} {name : Name} {kind : NameKind}
    {related : Entry → Entry → Prop} (sorted : LongestFirst Entry.name vocabulary.entries)
    (others : vocabulary.entries.Pairwise fun first second =>
      first.name ≠ name → second.name ≠ name → related first second)
    (longer : ∀ entry ∈ vocabulary.entries, entry.name ≠ name →
      name.length ≤ entry.name.length → related entry ⟨name, kind⟩)
    (shorter : ∀ entry ∈ vocabulary.entries, entry.name ≠ name →
      entry.name.length < name.length → related ⟨name, kind⟩ entry) :
    (vocabulary.insert name kind).entries.Pairwise related := by
  let kept := vocabulary.entries.filter (·.name != name)
  let isLonger (entry : Entry) : Bool := name.length ≤ entry.name.length
  have isOther {entry : Entry} (isKept : entry ∈ kept) :
      entry ∈ vocabulary.entries ∧ entry.name ≠ name := by
    simpa [kept] using isKept
  have sortedKept : LongestFirst Entry.name kept := sorted.filter _
  have relatedKept : kept.Pairwise related := by
    apply (others.filter _).imp_of_mem
    intro first second isFirst isSecond both
    exact both (isOther isFirst).2 (isOther isSecond).2
  have whole : kept.takeWhile isLonger ++ kept.dropWhile isLonger = kept :=
    List.takeWhile_append_dropWhile
  rw [← whole, List.pairwise_append] at relatedKept
  obtain ⟨inLonger, inShorter, across⟩ := relatedKept
  change (kept.takeWhile isLonger ++ ⟨name, kind⟩ :: kept.dropWhile isLonger).Pairwise related
  rw [List.pairwise_append, List.pairwise_cons]
  refine ⟨inLonger, ⟨?_, inShorter⟩, ?_⟩
  · intro entry isMember
    obtain ⟨isEntry, other⟩ := isOther ((List.dropWhile_sublist _).subset isMember)
    exact shorter entry isEntry other (sortedKept.lt_of_mem_dropWhile isMember)
  · intro first isFirst second isSecond
    rcases List.mem_cons.1 isSecond with rfl | later
    · obtain ⟨isEntry, other⟩ := isOther ((List.takeWhile_sublist _).subset isFirst)
      have isLong := List.all_eq_true.1 List.all_takeWhile first isFirst
      exact longer first isEntry other (of_decide_eq_true isLong)
    · exact across first isFirst second later

theorem IsOrdered.insert {vocabulary : Vocabulary} (ordered : vocabulary.IsOrdered) (name : Name)
    (kind : NameKind) : (vocabulary.insert name kind).IsOrdered := by
  constructor
  · apply pairwise_insert ordered.longestFirst
    · exact ordered.longestFirst.imp fun below _ _ => below
    · exact fun _ _ _ longer => longer
    · exact fun _ _ _ shorter => Nat.le_of_lt shorter
  · apply pairwise_insert ordered.longestFirst
    · exact ordered.once.imp fun apart _ _ => apart
    · exact fun _ _ other _ => other
    · exact fun _ _ other _ => Ne.symm other

theorem IsOrdered.enter {vocabulary : Vocabulary} (ordered : vocabulary.IsOrdered)
    (spelling : Text) (kind : NameKind) : (vocabulary.enter spelling kind).IsOrdered := by
  unfold Vocabulary.enter
  split
  · rename_i name _
    exact ordered.insert name kind
  · exact ordered

theorem IsOrdered.enterAll {vocabulary : Vocabulary} (ordered : vocabulary.IsOrdered)
    (spellings : List (Text × NameKind)) : (vocabulary.enterAll spellings).IsOrdered := by
  rw [Vocabulary.enterAll]
  induction spellings generalizing vocabulary with
  | nil => exact ordered
  | cons first spellings ih =>
      rw [List.foldl_cons]
      exact ih (ordered.enter first.1 first.2)

theorem isOrdered_standard : standard.IsOrdered :=
  isOrdered_empty.enterAll _

/-- A spelling that has the form of a name takes its new kind, and nothing else changes. -/
theorem kindOf?_enter (vocabulary : Vocabulary) (spelling other : Text) (kind : NameKind) :
    (vocabulary.enter spelling kind).kindOf? other =
      if spelling.isName = true ∧ other = spelling then some kind
      else vocabulary.kindOf? other := by
  by_cases isName : spelling.isName = true
  · simp only [Vocabulary.enter, Name.ofText?, isName, dite_true, true_and]
    exact kindOf?_insert vocabulary ⟨spelling, isName⟩ kind other
  · simp [Vocabulary.enter, Name.ofText?, isName]

variable {vocabulary left right : Vocabulary}

/-- The entries are told by the kinds of their names. -/
theorem IsOrdered.mem_entries_iff (ordered : vocabulary.IsOrdered) {entry : Entry} :
    entry ∈ vocabulary.entries ↔ vocabulary.kindOf? entry.name.text = some entry.kind := by
  have once := ordered.once
  rw [kindOf?]
  generalize vocabulary.entries = entries at once
  induction entries with
  | nil => simp
  | cons first entries ih =>
      obtain ⟨others, once⟩ := List.pairwise_cons.1 once
      rw [List.mem_cons, List.find?_cons]
      by_cases same : first.name = entry.name
      · have isHere : (first.name.text == entry.name.text) = true := by simp [same]
        rw [isHere, Option.map_some, Option.some.injEq]
        constructor
        · rintro (rfl | later)
          · rfl
          · exact absurd same (others entry later)
        · intro sameKind
          left
          cases first
          cases entry
          cases same
          cases sameKind
          rfl
      · have passed : (first.name.text == entry.name.text) = false := by
          rw [beq_eq_false_iff_ne]
          exact fun sameText => same (Name.ext_text sameText)
        have later : entry = first ∨ entry ∈ entries ↔ entry ∈ entries :=
          ⟨fun isEntry => isEntry.resolve_left fun isFirst => same (isFirst ▸ rfl), .inr⟩
        rw [passed]
        exact later.trans (ih once)

theorem IsOrdered.mem_namesOf_iff (ordered : vocabulary.IsOrdered) {name : Name}
    {kind : NameKind} :
    name ∈ vocabulary.namesOf kind ↔ vocabulary.kindOf? name.text = some kind := by
  rw [namesOf, List.mem_map]
  constructor
  · rintro ⟨entry, isMember, rfl⟩
    obtain ⟨isEntry, isKind⟩ := List.mem_filter.1 isMember
    rw [ordered.mem_entries_iff.1 isEntry, eq_of_beq isKind]
  · intro isKind
    exact ⟨⟨name, kind⟩, List.mem_filter.2 ⟨ordered.mem_entries_iff.2 isKind, by simp⟩, rfl⟩

theorem IsOrdered.namesOf (ordered : vocabulary.IsOrdered) (kind : NameKind) :
    LongestFirst id (vocabulary.namesOf kind) :=
  List.pairwise_map.2 (ordered.longestFirst.filter _)

/-- Two vocabularies find the same at every place of a text. -/
structure Agrees (left right : Vocabulary) : Prop where
  entryAt? : left.entryAt? = right.entryAt?
  constantAt? : left.constantAt? = right.constantAt?
  callableAt? : left.callableAt? = right.callableAt?

/-- What is found at some place depends on the kinds of the names alone, and not on the order in
which they were entered. -/
theorem agrees_of_kindOf? (orderedLeft : left.IsOrdered) (orderedRight : right.IsOrdered)
    (same : ∀ spelling, left.kindOf? spelling = right.kindOf? spelling) : left.Agrees right := by
  have sameEntries (entry : Entry) : entry ∈ left.entries ↔ entry ∈ right.entries := by
    rw [orderedLeft.mem_entries_iff, orderedRight.mem_entries_iff, same]
  have sameNames (kind : NameKind) (name : Name) :
      name ∈ left.namesOf kind ↔ name ∈ right.namesOf kind := by
    rw [orderedLeft.mem_namesOf_iff, orderedRight.mem_namesOf_iff, same]
  have distinct : ∀ first ∈ left.entries, ∀ second ∈ left.entries,
      first.name = second.name → first = second := by
    intro first isFirst second isSecond sameName
    have sameKind := orderedLeft.mem_entries_iff.1 isFirst
    rw [sameName, orderedLeft.mem_entries_iff.1 isSecond, Option.some.injEq] at sameKind
    cases first
    cases second
    cases sameName
    cases sameKind
    rfl
  have sameReading (kind : NameKind) (text : Text) (read : Name → Option Text)
      (isLead : ∀ name rest, read name = some rest → name.text <+: text) :
      ((left.namesOf kind).findSome? fun name => (read name).map (name, ·)) =
        (right.namesOf kind).findSome? fun name => (read name).map (name, ·) :=
    (orderedLeft.namesOf kind).findSome?_eq (orderedRight.namesOf kind) (sameNames kind)
      (fun _ _ _ _ => id) isLead
  constructor
  · funext text
    exact orderedLeft.longestFirst.findSome?_eq orderedRight.longestFirst sameEntries distinct
      fun _ _ => Name.isPrefix_of_after?
  · funext text
    exact sameReading .constant text _ fun _ _ => Name.isPrefix_of_after?
  · funext text
    rw [callableAt?, callableAt?,
      sameReading .function text _ fun _ _ => Name.isPrefix_of_dropLead?]

end Vocabulary

end TexCalc

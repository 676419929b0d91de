import TexCalc.Proofs.Vocabulary.Lookup

/-!
# Vocabularies and the insertions they come from

A vocabulary is built by entering spellings one after the other, and a spelling can be entered again
with another kind.  Whatever the order, the vocabulary keeps the last insertion of every name: it
gives the name its kind, and it gives it its place among the names of the same length.
-/

namespace TexCalc

/-- The last insertion of a spelling: the kind that it was entered with, and its place among all
insertions. -/
def lastInsertion? (history : List (Text × NameKind)) (spelling : Text) : Option (NameKind × Nat) :=
  (history.zipIdx.reverse.find? (·.1.1 == spelling)).map fun insertion =>
    (insertion.1.2, insertion.2)

/-- Both spellings have been entered, and the last insertion of the second is later. -/
def IsInsertedBefore (history : List (Text × NameKind)) (first second : Text) : Prop :=
  ∃ firstKind earlier secondKind later, lastInsertion? history first = some (firstKind, earlier) ∧
    lastInsertion? history second = some (secondKind, later) ∧ earlier < later

section

variable {history : List (Text × NameKind)} {spelling other : Text} {kind : NameKind}

theorem lastInsertion?_append_singleton :
    lastInsertion? (history ++ [(spelling, kind)]) other =
      if spelling = other then some (kind, history.length) else lastInsertion? history other := by
  rw [lastInsertion?, List.zipIdx_append, List.reverse_append, List.zipIdx_singleton,
    List.reverse_singleton, List.singleton_append, List.find?_cons, Nat.zero_add]
  by_cases same : spelling = other
  · simp [same]
  · simp [same, beq_false_of_ne same, lastInsertion?]

/-- The last insertion of two other spellings is what it was. -/
theorem IsInsertedBefore.append {first second : Text}
    (before : IsInsertedBefore history first second)
    (noFirst : first ≠ spelling) (noSecond : second ≠ spelling) (kind : NameKind) :
    IsInsertedBefore (history ++ [(spelling, kind)]) first second := by
  obtain ⟨firstKind, earlier, secondKind, later, isFirst, isSecond, isBefore⟩ := before
  refine ⟨firstKind, earlier, secondKind, later, ?_, ?_, isBefore⟩
  · rw [lastInsertion?_append_singleton, if_neg (Ne.symm noFirst), isFirst]
  · rw [lastInsertion?_append_singleton, if_neg (Ne.symm noSecond), isSecond]

theorem lt_length_of_lastInsertion? {place : Nat}
    (found : lastInsertion? history spelling = some (kind, place)) : place < history.length := by
  obtain ⟨insertion, isInsertion, same⟩ := Option.map_eq_some_iff.1 found
  have isMember := List.mem_reverse.1 (List.mem_of_find?_eq_some isInsertion)
  cases same
  simpa using List.snd_lt_of_mem_zipIdx isMember

theorem isInsertedBefore_last {first : Text} {firstKind : NameKind} {place : Nat}
    (found : lastInsertion? history first = some (firstKind, place)) (other : first ≠ spelling)
    (kind : NameKind) : IsInsertedBefore (history ++ [(spelling, kind)]) first spelling := by
  refine ⟨firstKind, place, kind, history.length, ?_, ?_, lt_length_of_lastInsertion? found⟩
  · rw [lastInsertion?_append_singleton, if_neg (Ne.symm other), found]
  · rw [lastInsertion?_append_singleton, if_pos rfl]

end

namespace Name

theorem exists_eq_cons (name : Name) : ∃ c rest, name.text = c :: rest ∧ c.isAlpha = true ∧
    rest.all Char.isAlphanum = true := by
  obtain ⟨text, isName⟩ := name
  cases text with
  | nil => cases isName
  | cons c rest =>
      rw [Text.isName, Bool.and_eq_true] at isName
      exact ⟨c, rest, rfl, isName⟩

theorem text_ne (name : Name) {spelling : Text} (invalid : spelling.isName = false) :
    name.text ≠ spelling := by
  rintro rfl
  rw [name.isName] at invalid
  cases invalid

end Name

namespace Vocabulary

/-- What a vocabulary keeps of the insertions that it was built by. -/
structure Keeps (vocabulary : Vocabulary) (history : List (Text × NameKind)) : Prop where
  /-- Every name is entered once. -/
  once : vocabulary.entries.Pairwise fun first second => first.name ≠ second.name
  /-- A name is an ASCII letter with ASCII letters and digits behind it. -/
  isName : ∀ entry ∈ vocabulary.entries, ∃ c rest, entry.name.text = c :: rest ∧
    c.isAlpha = true ∧ rest.all Char.isAlphanum = true
  longestFirst : vocabulary.entries.Pairwise fun first second =>
    second.name.length ≤ first.name.length
  inOrder : vocabulary.entries.Pairwise fun first second =>
    first.name.length = second.name.length →
      IsInsertedBefore history first.name.text second.name.text
  kind : ∀ spelling, vocabulary.kindOf? spelling =
    if spelling.isName = true then (lastInsertion? history spelling).map Prod.fst else none

namespace Keeps

variable {vocabulary : Vocabulary} {history : List (Text × NameKind)}

theorem empty : Vocabulary.empty.Keeps [] where
  once := .nil
  isName := List.forall_mem_nil _
  longestFirst := .nil
  inOrder := .nil
  kind spelling := by
    split <;> rfl

theorem isOrdered (keeps : vocabulary.Keeps history) : vocabulary.IsOrdered :=
  ⟨keeps.longestFirst, keeps.once⟩

theorem lastInsertion?_of_mem (keeps : vocabulary.Keeps history) {entry : Entry}
    (isMember : entry ∈ vocabulary.entries) :
    ∃ place, lastInsertion? history entry.name.text = some (entry.kind, place) := by
  have isKind := keeps.isOrdered.mem_entries_iff.1 isMember
  rw [keeps.kind, if_pos entry.name.isName] at isKind
  obtain ⟨⟨kind, place⟩, found, rfl⟩ := Option.map_eq_some_iff.1 isKind
  exact ⟨place, found⟩

end Keeps

/-- The insertions that the standard vocabulary comes from. -/
def standardHistory : List (Text × NameKind) :=
  [("sin".toList, .function),
   ("cos".toList, .function),
   ("tan".toList, .function),
   ("asin".toList, .function),
   ("acos".toList, .function),
   ("atan".toList, .function),
   ("log".toList, .function),
   ("log10".toList, .function),
   ("sqrt".toList, .function),
   ("exp".toList, .function),
   ("abs".toList, .function),
   ("pi".toList, .constant),
   ("Infinity".toList, .constant)]

namespace Keeps

variable {vocabulary : Vocabulary} {history : List (Text × NameKind)}

/-- What is entered now is later than everything else, and changes nothing else. -/
theorem insert (keeps : vocabulary.Keeps history) (name : Name) (kind : NameKind) :
    (vocabulary.insert name kind).Keeps (history ++ [(name.text, kind)]) := by
  have ordered := keeps.isOrdered.insert name kind
  refine ⟨ordered.once, fun entry _ => entry.name.exists_eq_cons, ordered.longestFirst, ?_, ?_⟩
  · apply pairwise_insert keeps.longestFirst
    · apply keeps.inOrder.imp
      intro first second inOrder noFirst noSecond same
      exact (inOrder same).append (noFirst ∘ Name.ext_text) (noSecond ∘ Name.ext_text) kind
    · intro entry isMember other _ _
      obtain ⟨place, found⟩ := keeps.lastInsertion?_of_mem isMember
      exact isInsertedBefore_last found (other ∘ Name.ext_text) kind
    · intro entry _ _ shorter same
      exact absurd same (Nat.ne_of_gt shorter)
  · intro spelling
    rw [kindOf?_insert, lastInsertion?_append_singleton, keeps.kind]
    by_cases same : spelling = name.text
    · subst same
      simp [name.isName]
    · rw [if_neg same, if_neg (Ne.symm same)]

/-- What is no name is entered without effect. -/
theorem append_invalid (keeps : vocabulary.Keeps history) {spelling : Text}
    (invalid : spelling.isName = false) (kind : NameKind) :
    vocabulary.Keeps (history ++ [(spelling, kind)]) where
  once := keeps.once
  isName := keeps.isName
  longestFirst := keeps.longestFirst
  inOrder := by
    apply keeps.inOrder.imp
    intro first second inOrder same
    exact (inOrder same).append (first.name.text_ne invalid) (second.name.text_ne invalid) kind
  kind other := by
    rw [keeps.kind, lastInsertion?_append_singleton]
    by_cases same : spelling = other
    · subst same
      rw [invalid]
      rfl
    · rw [if_neg same]

/-- One insertion. -/
theorem enter (keeps : vocabulary.Keeps history) (spelling : Text) (kind : NameKind) :
    (vocabulary.enter spelling kind).Keeps (history ++ [(spelling, kind)]) := by
  rw [Vocabulary.enter, Name.ofText?]
  by_cases isName : spelling.isName = true
  · rw [dif_pos isName]
    exact keeps.insert ⟨spelling, isName⟩ kind
  · rw [dif_neg isName]
    exact keeps.append_invalid (Bool.eq_false_iff.2 isName) kind

/-- All insertions of a list. -/
theorem enterAll (keeps : vocabulary.Keeps history) (later : List (Text × NameKind)) :
    (vocabulary.enterAll later).Keeps (history ++ later) := by
  induction later generalizing vocabulary history with
  | nil =>
      rw [List.append_nil]
      exact keeps
  | cons insertion later ih =>
      rw [Vocabulary.enterAll, List.foldl_cons, ← List.singleton_append, ← List.append_assoc]
      exact ih (keeps.enter insertion.1 insertion.2)

theorem standard : Vocabulary.standard.Keeps standardHistory :=
  Keeps.empty.enterAll standardHistory

end Keeps

/-- Whatever is entered into the empty or the standard vocabulary, and in whatever order: every name
is kept once and in its place, and has the kind that it was last entered with. -/
theorem keeps_enterAll (insertions : List (Text × NameKind)) :
    (empty.enterAll insertions).Keeps insertions ∧
      (standard.enterAll insertions).Keeps (standardHistory ++ insertions) :=
  ⟨Keeps.empty.enterAll insertions, Keeps.standard.enterAll insertions⟩

end Vocabulary

end TexCalc

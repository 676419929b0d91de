import TexCalc.Vocabulary.Name
import TexCalc.Tex.Command

/-!
# Vocabularies

A vocabulary is the set of names that the calculator understands by itself, each
with its kind.  The entries are kept longest name first, so that the first entry
found at some place of a text is the longest one; names of equal length stay in the
order in which they were last entered.
-/

namespace TexCalc

/-- A name of the target language with its kind. -/
structure Entry where
  name : Name
  kind : NameKind
  deriving DecidableEq, Repr

/-- The names that the calculator understands, longest first. -/
structure Vocabulary where
  entries : List Entry
  deriving DecidableEq, Repr

namespace Vocabulary

/-- The vocabulary without any name. -/
def empty : Vocabulary :=
  ⟨[]⟩

/-- Enter a name with its kind.  An earlier entry of the same name is dropped, and
the new entry goes behind all entries whose names are at least as long. -/
def insert (vocabulary : Vocabulary) (name : Name) (kind : NameKind) : Vocabulary :=
  let others := vocabulary.entries.filter (·.name != name)
  let isLonger (entry : Entry) : Bool := name.length ≤ entry.name.length
  ⟨others.takeWhile isLonger ++ ⟨name, kind⟩ :: others.dropWhile isLonger⟩

/-- Enter whatever a text spells.  A text that does not have the form of a name
changes nothing. -/
def enter (vocabulary : Vocabulary) (spelling : Text) (kind : NameKind) : Vocabulary :=
  match Name.ofText? spelling with
  | some name => vocabulary.insert name kind
  | none => vocabulary

/-- Enter a list of spellings in order. -/
def enterAll (vocabulary : Vocabulary) (spellings : List (Text × NameKind)) : Vocabulary :=
  spellings.foldl (fun grown (spelling, kind) => grown.enter spelling kind) vocabulary

/-- The names that every calculator is taken to understand. -/
def standard : Vocabulary :=
  empty.enterAll
    [("sin".toList, .function),
     ("cos".toList, .function),
     ("tan".toList, .function),
     ("asin".toList, .function),
     ("acos".toList, .function),
     ("atan".toList, .function),
     ("log".toList, .function),
     ("log10".toList, .function),
     ("sqrt".toList, .function),
     ("exp".toList, .function),
     ("abs".toList, .function),
     ("pi".toList, .constant),
     ("Infinity".toList, .constant)]

/-- The kind of the name that a text spells. -/
def kindOf? (vocabulary : Vocabulary) (spelling : Text) : Option NameKind :=
  (vocabulary.entries.find? (·.name.text == spelling)).map Entry.kind

def contains (vocabulary : Vocabulary) (spelling : Text) : Bool :=
  (vocabulary.kindOf? spelling).isSome

/-- The names of one kind, longest first. -/
def namesOf (vocabulary : Vocabulary) (kind : NameKind) : List Name :=
  (vocabulary.entries.filter (·.kind == kind)).map Entry.name

/-- The entry whose whole name a text begins with, and the text after it. -/
def entryAt? (vocabulary : Vocabulary) (text : Text) : Option (Entry × Text) :=
  vocabulary.entries.findSome? fun entry => (entry.name.after? text).map (entry, ·)

/-- The constant whose whole name a text begins with, and the text after it. -/
def constantAt? (vocabulary : Vocabulary) (text : Text) : Option (Name × Text) :=
  (vocabulary.namesOf .constant).findSome? fun name => (name.after? text).map (name, ·)

/-- An insertion gives the new name its kind and changes no other name. -/
theorem kindOf?_insert (vocabulary : Vocabulary) (name : Name) (kind : NameKind)
    (spelling : Text) :
    (vocabulary.insert name kind).kindOf? spelling =
      if spelling = name.text then some kind else vocabulary.kindOf? spelling := by
  simp only [kindOf?, insert, List.find?_append, List.find?_cons]
  by_cases same : spelling = name.text
  · subst same
    rw [List.find?_eq_none.2]
    · simp
    · intro entry isLonger matched
      have kept := (List.takeWhile_sublist _).subset isLonger
      have other : entry.name ≠ name := by simpa using (List.mem_filter.1 kept).2
      exact other (Name.ext_text (eq_of_beq matched))
  · have passed : (name.text == spelling) = false := by simpa using Ne.symm same
    rw [passed, if_neg same, ← List.find?_append, List.takeWhile_append_dropWhile,
      List.find?_filter]
    congr 2
    funext entry
    by_cases isName : entry.name = name
    · simp [isName, passed]
    · simp [isName, Bool.beq_eq_decide_eq]

end Vocabulary

/-- What can be applied to an argument: a function of the vocabulary or a parked
function. -/
inductive Callable where
  | function (name : Name)
  | parked (waiting : Parked)
  deriving DecidableEq, Repr

namespace Callable

/-- The callable as it stands in a text. -/
def text : Callable → Text
  | function name => name.text
  | parked waiting => waiting.name

theorem text_ne_nil (callable : Callable) : callable.text ≠ [] := by
  cases callable with
  | function name => exact name.text_ne_nil
  | parked waiting => simp [text, Parked.name]

end Callable

namespace Vocabulary

/-- The longest callable that a text begins with, and the text after it.  What
follows does not matter: in `sinx` the callable is `sin`.  Parked names start with
the mark and names with a letter, so the two never compete. -/
def callableAt? (vocabulary : Vocabulary) (text : Text) : Option (Callable × Text) :=
  match (vocabulary.namesOf .function).findSome? fun name =>
      (text.dropLead? name.text).map (name, ·) with
  | some (name, rest) => some (.function name, rest)
  | none => (Parked.read? text).map fun (waiting, rest) => (.parked waiting, rest)

/-- A callable and the text after it give back the text. -/
theorem eq_of_callableAt? {vocabulary : Vocabulary} {text rest : Text}
    {callable : Callable}
    (found : vocabulary.callableAt? text = some (callable, rest)) :
    text = callable.text ++ rest := by
  simp only [callableAt?] at found
  split at found
  · rename_i name after matched
    cases found
    obtain ⟨candidate, _, dropped⟩ := List.exists_of_findSome?_eq_some matched
    obtain ⟨remaining, isRest, same⟩ := Option.map_eq_some_iff.1 dropped
    cases same
    exact Text.dropLead?_eq_some_iff.1 isRest
  · obtain ⟨⟨waiting, after⟩, isParked, same⟩ := Option.map_eq_some_iff.1 found
    cases same
    exact Parked.read?_eq_some_iff.1 isParked

/-- A callable takes at least one character. -/
theorem length_lt_of_callableAt? {vocabulary : Vocabulary} {text rest : Text}
    {callable : Callable}
    (found : vocabulary.callableAt? text = some (callable, rest)) :
    rest.length < text.length := by
  have nonempty : 0 < callable.text.length := List.length_pos_iff.2 callable.text_ne_nil
  rw [eq_of_callableAt? found, List.length_append]
  omega

/-- A constant and the text after it give back the text. -/
theorem eq_of_constantAt? {vocabulary : Vocabulary} {text rest : Text} {name : Name}
    (found : vocabulary.constantAt? text = some (name, rest)) :
    text = name.text ++ rest := by
  obtain ⟨candidate, _, matched⟩ := List.exists_of_findSome?_eq_some found
  obtain ⟨after, isAfter, same⟩ := Option.map_eq_some_iff.1 matched
  cases same
  exact Text.dropLead?_eq_some_iff.1 (Option.filter_eq_some_iff.1 isAfter).1

theorem length_lt_of_constantAt? {vocabulary : Vocabulary} {text rest : Text} {name : Name}
    (found : vocabulary.constantAt? text = some (name, rest)) :
    rest.length < text.length := by
  have nonempty := name.length_pos
  rw [eq_of_constantAt? found, List.length_append]
  simp only [Name.length] at nonempty
  omega

/-- An entry's name and the text after it give back the text. -/
theorem eq_of_entryAt? {vocabulary : Vocabulary} {text rest : Text} {entry : Entry}
    (found : vocabulary.entryAt? text = some (entry, rest)) :
    text = entry.name.text ++ rest := by
  obtain ⟨candidate, _, matched⟩ := List.exists_of_findSome?_eq_some found
  obtain ⟨after, isAfter, same⟩ := Option.map_eq_some_iff.1 matched
  cases same
  exact Text.dropLead?_eq_some_iff.1 (Option.filter_eq_some_iff.1 isAfter).1

theorem length_lt_of_entryAt? {vocabulary : Vocabulary} {text rest : Text} {entry : Entry}
    (found : vocabulary.entryAt? text = some (entry, rest)) :
    rest.length < text.length := by
  have nonempty := entry.name.length_pos
  rw [eq_of_entryAt? found, List.length_append]
  simp only [Name.length] at nonempty
  omega

end Vocabulary

end TexCalc

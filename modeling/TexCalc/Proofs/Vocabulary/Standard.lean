import TexCalc.Proofs.Text.Runs
import TexCalc.Vocabulary.Basic

/-!
# Names at a place of a text

A whole name at some place of a text is the run of letters and digits there.  A callable may
begin inside a run; in the standard vocabulary all functions have at least two letters, so that
none begins at a letter that stands alone.
-/

namespace TexCalc

namespace Text

/-- A name that a text begins with does not reach into what could not continue it. -/
theorem dropLead?_append {lead text rest : Text} (all : lead.all Char.isAlphanum = true)
    (ends : rest.endsRun Char.isAlphanum = true) :
    (text ++ rest).dropLead? lead = (text.dropLead? lead).map (· ++ rest) := by
  induction lead generalizing text with
  | nil => simp [dropLead?]
  | cons l lead ih =>
      rw [List.all_cons, Bool.and_eq_true] at all
      cases text with
      | nil =>
          cases rest with
          | nil => rfl
          | cons c rest =>
              have other : c ≠ l := by
                rintro rfl
                simp [endsRun, all.1] at ends
              simp [dropLead?, other]
      | cons c text =>
          by_cases same : c = l
          · simp [dropLead?, same, ih all.2]
          · simp [dropLead?, same]

/-- What could not continue a name ends a run of letters and digits. -/
theorem isBoundary_eq_endsRun (text : Text) : text.isBoundary = text.endsRun Char.isAlphanum := by
  cases text <;> rfl

/-- The characters of which the names of functions consist. -/
def isNameChar (c : Char) : Bool :=
  c.isAlphanum || c == Parked.mark

theorem all_isNameChar (function : Callable) : function.text.all isNameChar = true := by
  cases function with
  | function name =>
      refine List.all_eq_true.2 fun c isMember => ?_
      rw [isNameChar, List.all_eq_true.1 name.all_isAlphanum c isMember, Bool.true_or]
  | parked waiting =>
      rcases waiting with ⟨function, inverse⟩
      cases function <;> cases inverse <;> decide

end Text

namespace Name

/-- What could not continue a name can be left aside. -/
theorem after?_append_rest (name : Name) (text : Text) {rest : Text}
    (ends : rest.endsRun Char.isAlphanum = true) :
    name.after? (text ++ rest) = (name.after? text).map (· ++ rest) := by
  rw [Name.after?, Name.after?, Text.dropLead?_append name.all_isAlphanum ends]
  cases text.dropLead? name.text with
  | none => rfl
  | some after =>
      cases after with
      | nil =>
          rw [← Text.isBoundary_eq_endsRun] at ends
          rw [Option.map_some, List.nil_append, Option.filter_some, if_pos ends]
          rfl
      | cons c after =>
          cases word : c.isAlphanum <;> simp [Option.filter_some, Text.isBoundary, word]

/-- A run of letters and digits is a name only as a whole. -/
theorem after?_append (name : Name) {run rest : Text} (all : run.all Char.isAlphanum = true)
    (ends : rest.endsRun Char.isAlphanum = true) :
    name.after? (run ++ rest) = if name.text = run then some rest else none := by
  split
  · rename_i same
    have dropped : (run ++ rest).dropLead? name.text = some rest := by
      rw [Text.dropLead?_eq_some_iff, same]
    rw [Name.after?, dropped, Option.filter_some, Text.isBoundary_eq_endsRun, if_pos ends]
  · rename_i other
    cases found : name.after? (run ++ rest) with
    | none => rfl
    | some after =>
        obtain ⟨dropped, boundary⟩ := Option.filter_eq_some_iff.1 found
        have whole := Text.dropLead?_eq_some_iff.1 dropped
        rw [Text.isBoundary_eq_endsRun] at boundary
        refine absurd ?_ other
        rw [← Text.takeWhile_append_of_endsRun name.all_isAlphanum boundary, ← whole,
          Text.takeWhile_append_of_endsRun all ends]

end Name

theorem Parked.ne_mark_of_isAlpha {c : Char} (letter : c.isAlpha = true) : c ≠ mark := by
  rintro rfl
  cases letter

theorem Parked.read?_eq_none {c : Char} (noMark : c ≠ mark) (rest : Text) :
    read? (c :: rest) = none := by
  cases found : read? (c :: rest) with
  | none => rfl
  | some parked =>
      have whole := read?_eq_some_iff.1 found
      cases whole
      exact absurd rfl noMark

namespace Vocabulary

/-- A callable begins with a letter or with the mark of parked names. -/
theorem callableAt?_eq_none (vocabulary : Vocabulary) {c : Char} (noLetter : c.isAlpha = false)
    (noMark : c ≠ Parked.mark) (rest : Text) : vocabulary.callableAt? (c :: rest) = none := by
  cases found : vocabulary.callableAt? (c :: rest) with
  | none => rfl
  | some callable =>
      have whole := eq_of_callableAt? found
      rcases callable with ⟨name | parked, after⟩
      · obtain ⟨text, isName⟩ := name
        cases text with
        | nil => cases isName
        | cons d text =>
            cases whole
            simp [Text.isName, noLetter] at isName
      · cases whole
        exact absurd rfl noMark

/-- The entry at a run of letters and digits is the one that the run spells. -/
theorem entryAt?_append (vocabulary : Vocabulary) {run rest : Text}
    (all : run.all Char.isAlphanum = true) (ends : rest.endsRun Char.isAlphanum = true) :
    vocabulary.entryAt? (run ++ rest) =
      (vocabulary.entries.find? (·.name.text == run)).map (·, rest) := by
  rw [entryAt?]
  induction vocabulary.entries with
  | nil => rfl
  | cons entry entries ih =>
      rw [List.findSome?_cons, List.find?_cons, Name.after?_append entry.name all ends, ih]
      by_cases same : entry.name.text = run
      · simp [same]
      · simp [beq_false_of_ne same, same]

/-- The constant at a run of letters and digits is the one that the run spells. -/
theorem constantAt?_append (vocabulary : Vocabulary) {run rest : Text}
    (all : run.all Char.isAlphanum = true) (ends : rest.endsRun Char.isAlphanum = true) :
    vocabulary.constantAt? (run ++ rest) =
      ((vocabulary.namesOf .constant).find? (·.text == run)).map (·, rest) := by
  rw [constantAt?]
  induction vocabulary.namesOf .constant with
  | nil => rfl
  | cons name names ih =>
      rw [List.findSome?_cons, List.find?_cons, Name.after?_append name all ends, ih]
      by_cases same : name.text = run
      · simp [same]
      · simp [beq_false_of_ne same, same]

theorem entryAt?_append_rest (vocabulary : Vocabulary) (text : Text) {rest : Text}
    (ends : rest.endsRun Char.isAlphanum = true) :
    vocabulary.entryAt? (text ++ rest) =
      (vocabulary.entryAt? text).map fun found => (found.1, found.2 ++ rest) := by
  rw [entryAt?, entryAt?, List.map_findSome?]
  congr 1
  funext entry
  simp [Name.after?_append_rest entry.name text ends, Function.comp_def]

/-- No entry begins with anything but an ASCII letter. -/
theorem entryAt?_eq_none (vocabulary : Vocabulary) {c : Char} (noLetter : c.isAlpha = false)
    (rest : Text) : vocabulary.entryAt? (c :: rest) = none := by
  cases found : vocabulary.entryAt? (c :: rest) with
  | none => rfl
  | some entry =>
      have whole := eq_of_entryAt? found
      rcases entry with ⟨⟨⟨text, isName⟩, kind⟩, after⟩
      cases text with
      | nil => cases isName
      | cons d text =>
          cases whole
          simp [Text.isName, noLetter] at isName

/-- No constant begins with anything but an ASCII letter. -/
theorem constantAt?_eq_none (vocabulary : Vocabulary) {c : Char} (noLetter : c.isAlpha = false)
    (rest : Text) : vocabulary.constantAt? (c :: rest) = none := by
  cases found : vocabulary.constantAt? (c :: rest) with
  | none => rfl
  | some constant =>
      have whole := eq_of_constantAt? found
      rcases constant with ⟨⟨text, isName⟩, after⟩
      cases text with
      | nil => cases isName
      | cons d text =>
          cases whole
          simp [Text.isName, noLetter] at isName

/-! ## The standard vocabulary -/

/-- The functions of the standard vocabulary, longest name first. -/
def functionNames : List Text :=
  ["log10".toList, "asin".toList, "acos".toList, "atan".toList, "sqrt".toList, "sin".toList,
    "cos".toList, "tan".toList, "log".toList, "exp".toList, "abs".toList]

theorem map_text_functions : (standard.namesOf .function).map Name.text = functionNames := by
  decide +kernel

/-- No name of the standard vocabulary is a single letter. -/
theorem kindOf?_standard_single (c : Char) : standard.kindOf? [c] = none := by
  have long : ∀ entry ∈ standard.entries, 2 ≤ entry.name.text.length := by decide +kernel
  rw [kindOf?, Option.map_eq_none_iff, List.find?_eq_none]
  intro entry isMember same
  have length := long entry isMember
  rw [eq_of_beq same, List.length_singleton] at length
  omega

theorem entryAt?_standard_single {c : Char} {rest : Text} (word : c.isAlphanum = true)
    (ends : rest.endsRun Char.isAlphanum = true) : standard.entryAt? (c :: rest) = none := by
  have all : [c].all Char.isAlphanum = true := by simp [word]
  have missing := Option.map_eq_none_iff.1 (kindOf?_standard_single c)
  have found := standard.entryAt?_append all ends
  rw [missing] at found
  exact found

/-- The callable at some place, in terms of the names of functions. -/
theorem map_callableAt?_standard (text : Text) :
    (standard.callableAt? text).map (fun found => (found.1.text, found.2)) =
      (functionNames.findSome? fun name => (text.dropLead? name).map (name, ·)).or
        ((Parked.read? text).map fun found => (found.1.name, found.2)) := by
  have names : (functionNames.findSome? fun name => (text.dropLead? name).map (name, ·)) =
      ((standard.namesOf .function).findSome? fun name =>
        (text.dropLead? name.text).map (name, ·)).map fun found => (found.1.text, found.2) := by
    rw [← map_text_functions, List.findSome?_map, List.map_findSome?]
    congr 1
    funext name
    simp [Option.map_map, Function.comp_def]
  rw [names, callableAt?]
  cases (standard.namesOf .function).findSome? fun name =>
      (text.dropLead? name.text).map (name, ·) with
  | none =>
      simp only [Option.map_none, Option.none_or, Option.map_map]
      rfl
  | some found => rfl

/-- What is callable at some place is told by the names of functions and parked functions. -/
theorem exists_callableAt?_eq {text name rest : Text}
    (found : ((functionNames.findSome? fun name => (text.dropLead? name).map (name, ·)).or
      ((Parked.read? text).map fun found => (found.1.name, found.2))) = some (name, rest)) :
    ∃ callable, standard.callableAt? text = some (callable, rest) ∧ callable.text = name := by
  rw [← map_callableAt?_standard] at found
  obtain ⟨⟨callable, after⟩, isFound, same⟩ := Option.map_eq_some_iff.1 found
  cases same
  exact ⟨callable, isFound, rfl⟩

theorem callableAt?_eq_none_of_names {text : Text}
    (missing : ((functionNames.findSome? fun name => (text.dropLead? name).map (name, ·)).or
      ((Parked.read? text).map fun found => (found.1.name, found.2))) = none) :
    standard.callableAt? text = none := by
  rw [← map_callableAt?_standard] at missing
  exact Option.map_eq_none_iff.1 missing

/-- No function begins at a letter that stands alone. -/
theorem callableAt?_single {c : Char} {rest : Text} (noMark : c ≠ Parked.mark)
    (ends : rest.endsRun Char.isAlpha = true) : standard.callableAt? (c :: rest) = none := by
  have long : ∀ name ∈ functionNames, name.tail.head?.any Char.isAlpha = true := by decide
  have noFunction : (functionNames.findSome? fun name =>
      (Text.dropLead? (c :: rest) name).map (name, ·)) = none := by
    rw [List.findSome?_eq_none_iff]
    intro name isMember
    rw [Option.map_eq_none_iff]
    cases dropped : Text.dropLead? (c :: rest) name with
    | none => rfl
    | some after =>
        have second := long name isMember
        have whole := Text.dropLead?_eq_some_iff.1 dropped
        cases name with
        | nil => cases second
        | cons d name =>
            cases name with
            | nil => cases second
            | cons e name =>
                cases whole
                have letter : e.isAlpha = true := second
                simp [Text.endsRun, letter] at ends
  have read := map_callableAt?_standard (c :: rest)
  rw [noFunction, Parked.read?_eq_none noMark] at read
  exact Option.map_eq_none_iff.1 read

end Vocabulary

namespace Callable

/-- A callable is told by how it stands in a text: a name begins with a letter, a parked name with
the mark. -/
theorem eq_of_text {first second : Callable} (same : first.text = second.text) : first = second := by
  have apart {name : Name} {waiting : Parked} (same : name.text = waiting.name) : False := by
    have valid := name.isName
    rw [same, Parked.name, Text.isName] at valid
    exact absurd valid (by simp [Parked.mark])
  cases first with
  | function name =>
      cases second with
      | function other => rw [Name.ext_text same]
      | parked waiting => exact (apart same).elim
  | parked waiting =>
      cases second with
      | function other => exact (apart same.symm).elim
      | parked other =>
          have same : waiting.name = other.name := same
          rcases waiting with ⟨function, inverse⟩
          rcases other with ⟨function', inverse'⟩
          cases function <;> cases inverse <;> cases function' <;> cases inverse' <;>
            first | rfl | exact absurd same (by decide)

end Callable

end TexCalc

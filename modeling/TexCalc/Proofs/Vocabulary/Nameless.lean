import TexCalc.Proofs.Symbol.Reading
import TexCalc.Proofs.Vocabulary.Standard

/-!
# Letters that spell no name

Where no name of a vocabulary is spelled, every letter is a variable and nothing can be called.
-/

namespace TexCalc

namespace Vocabulary

variable {vocabulary : Vocabulary} {text rest : Text}

/-- No name of the vocabulary is spelled anywhere in the text. -/
def IsNameless (vocabulary : Vocabulary) (text : Text) : Prop :=
  ∀ entry ∈ vocabulary.entries, ¬ entry.name.text <:+: text

instance (vocabulary : Vocabulary) (text : Text) : Decidable (vocabulary.IsNameless text) :=
  inferInstanceAs (Decidable (∀ entry ∈ vocabulary.entries, _))

theorem IsNameless.mono (nameless : vocabulary.IsNameless text) {part : Text}
    (isPart : part <:+: text) : vocabulary.IsNameless part :=
  fun entry isEntry spelled => nameless entry isEntry (spelled.trans isPart)

/-- A name that a text begins with is spelled by the letters and digits there. -/
theorem infix_of_eq {name : Name} {after : Text} (same : text = name.text ++ after) :
    name.text <:+: text.takeWhile Char.isAlphanum := by
  rw [same, List.takeWhile_append_of_pos (List.all_eq_true.1 name.all_isAlphanum)]
  exact (List.prefix_append _ _).isInfix

theorem entryAt?_eq_none_of_isNameless
    (nameless : vocabulary.IsNameless (text.takeWhile Char.isAlphanum)) :
    vocabulary.entryAt? text = none := by
  cases found : vocabulary.entryAt? text with
  | none => rfl
  | some entry =>
      obtain ⟨candidate, isEntry, matched⟩ := List.exists_of_findSome?_eq_some found
      obtain ⟨after, _, rfl⟩ := Option.map_eq_some_iff.1 matched
      exact absurd (infix_of_eq (eq_of_entryAt? found)) (nameless candidate isEntry)

/-- Where no function is spelled by the letters and digits, nothing can be called. -/
theorem callableAt?_eq_none_of_unspelled {c : Char} (noMark : c ≠ Parked.mark)
    (unspelled : ∀ name ∈ vocabulary.namesOf .function,
      ¬ name.text <:+: (c :: rest).takeWhile Char.isAlphanum) :
    vocabulary.callableAt? (c :: rest) = none := by
  have noFunction : ((vocabulary.namesOf .function).findSome? fun name =>
      (Text.dropLead? (c :: rest) name.text).map (name, ·)) = none := by
    rw [List.findSome?_eq_none_iff]
    intro name isMember
    rw [Option.map_eq_none_iff]
    cases dropped : Text.dropLead? (c :: rest) name.text with
    | none => rfl
    | some after =>
        exact absurd (infix_of_eq (Text.dropLead?_eq_some_iff.1 dropped)) (unspelled name isMember)
  rw [callableAt?, noFunction, Parked.read?_eq_none noMark]
  rfl

theorem callableAt?_eq_none_of_isNameless {c : Char} (noMark : c ≠ Parked.mark)
    (nameless : vocabulary.IsNameless ((c :: rest).takeWhile Char.isAlphanum)) :
    vocabulary.callableAt? (c :: rest) = none := by
  refine callableAt?_eq_none_of_unspelled noMark fun name isMember => ?_
  obtain ⟨entry, isEntry, rfl⟩ := List.mem_map.1 isMember
  exact nameless entry (List.mem_filter.1 isEntry).1

end Vocabulary

/-- The letters of a run that spells no name are variables. -/
theorem Text.symbols_of_isNameless {vocabulary : Vocabulary} {letters : Text}
    (all : letters.all Char.isAlpha = true) (nameless : vocabulary.IsNameless letters) :
    letters.symbols vocabulary = letters.map Symbol.var := by
  induction letters with
  | nil => rw [symbols, List.map_nil]
  | cons c letters ih =>
      rw [List.all_cons, Bool.and_eq_true] at all
      have isRun : (c :: letters).takeWhile Char.isAlphanum = c :: letters := by
        apply takeWhile_of_all
        rw [List.all_cons, Bool.and_eq_true, List.all_eq_true]
        exact ⟨by simp [Char.isAlphanum, all.1], fun d isMember => by
          simp [Char.isAlphanum, List.all_eq_true.1 all.2 d isMember]⟩
      have noNumeral := not_beginsNumeral_of_isAlpha all.1 letters
      have none : vocabulary.entryAt? (c :: letters) = none :=
        Vocabulary.entryAt?_eq_none_of_isNameless (isRun.symm ▸ nameless)
      rw [symbols_variable noNumeral (isLetter_of_isAlpha all.1) none,
        ih all.2 (nameless.mono (List.suffix_cons c letters).isInfix), List.map_cons]

end TexCalc

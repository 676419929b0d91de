import Mathlib.Algebra.GroupWithZero.Nat
import TexCalc.Proofs.Linear.Commands
import TexCalc.Proofs.Text.Trimming

/-!
# Inverse functions that remain

The argument of an inverse function is taken over as it is written, and reading goes on behind it.
Whatever stands in the argument is not looked at.  The inverse functions that are left when all
have been replaced are therefore exactly those that stand in such an argument.

A pattern is a command and some marks after it, blanks apart.  Whether one begins at a place is
told by the text up to the first character that belongs to no pattern.
-/

namespace TexCalc

namespace Text

/-! ## Places in a text -/

/-- At how many places of a text something begins. -/
def places (begins : Text → Bool) : Text → Nat
  | [] => 0
  | c :: rest => (begins (c :: rest)).toNat + places begins rest

section

variable {begins others : Text → Bool} {left right : Text}

theorem toNat_le_toNat_of_imp {first second : Bool} (imp : first = true → second = true) :
    first.toNat ≤ second.toNat := by
  cases first with
  | false => exact Nat.zero_le _
  | true => exact Nat.le_of_eq (congrArg Bool.toNat (imp rfl)).symm

theorem places_append_le
    (shorter : ∀ c rest, begins (c :: (rest ++ right)) = true → others (c :: rest) = true) :
    (left ++ right).places begins ≤ left.places others + right.places begins := by
  induction left with
  | nil => exact Nat.le_add_left _ _
  | cons c left ih =>
      have here := toNat_le_toNat_of_imp (shorter c left)
      simp only [List.cons_append, places]
      omega

theorem le_places_append
    (longer : ∀ c rest, begins (c :: rest) = true → others (c :: (rest ++ right)) = true) :
    left.places begins + right.places others ≤ (left ++ right).places others := by
  induction left with
  | nil => exact Nat.le_of_eq (Nat.zero_add _)
  | cons c left ih =>
      have here := toNat_le_toNat_of_imp (longer c left)
      simp only [List.cons_append, places]
      omega

/-- What begins in front is told by the front alone. -/
theorem places_append (alone : ∀ c rest, begins (c :: (rest ++ right)) = begins (c :: rest)) :
    (left ++ right).places begins = left.places begins + right.places begins :=
  Nat.le_antisymm (places_append_le fun c rest found => alone c rest ▸ found)
    (le_places_append fun c rest found => (alone c rest).symm ▸ found)

/-- What begins with a backslash begins at no place of a text without one. -/
theorem places_plain_append (commands : ∀ c rest, begins (c :: rest) = true → c = '\\')
    (plain : '\\' ∉ left) : (left ++ right).places begins = right.places begins := by
  induction left with
  | nil => rfl
  | cons c left ih =>
      rw [List.mem_cons, not_or] at plain
      have none : begins (c :: (left ++ right)) = false :=
        Bool.eq_false_iff.2 fun found => plain.1 (commands c _ found).symm
      rw [List.cons_append, places, none, ih plain.2]
      exact Nat.zero_add _

end

/-! ## Patterns -/

/-- What follows some marks at the start of a text, with blanks in front of each. -/
def afterMarks? (marks : List Char) (text : Text) : Option Text :=
  marks.foldlM (fun rest c => dropLead? rest.trimStart [c]) text

/-- Whether a text begins with a command and, blanks apart, some marks. -/
def beginsPattern (name : Text) (marks : List Char) (text : Text) : Bool :=
  ((text.dropLead? ('\\' :: name)).bind (afterMarks? marks)).isSome

theorem eq_of_beginsPattern {name : Text} {marks : List Char} {c : Char} {rest : Text}
    (found : beginsPattern name marks (c :: rest) = true) : c = '\\' := by
  rw [beginsPattern, dropLead?] at found
  split at found
  · assumption
  · cases found

/-- Whether a text begins with an inverse function. -/
def beginsInverse (text : Text) : Bool :=
  text.inverseMark?.isSome

/-- Every command that an exponent makes an inverse function has one. -/
theorem beginsInverse_eq (text : Text) :
    text.beginsInverse = trigonometric.any (beginsPattern · "^\x7b-1\x7d".toList text) := by
  have known : ∀ name ∈ trigonometric, (Command.inverse? name).isSome = true := by decide
  cases text with
  | nil => rfl
  | cons c rest =>
      by_cases back : c = '\\'
      · subst back
        rw [beginsInverse, inverseMark?, Bool.eq_iff_iff, List.findSome?_isSome_iff,
          List.any_eq_true]
        refine exists_congr fun name => and_congr_right fun isName => ?_
        obtain ⟨inverse, isInverse⟩ := Option.isSome_iff_exists.1 (known name isName)
        rw [beginsPattern, dropLead?, if_pos rfl]
        cases dropLead? rest name with
        | none => rfl
        | some after =>
            simp only [Option.bind_some, isInverse, Option.map_some, Option.isSome_bind,
              Option.isSome_some, Option.any_true]
            rfl
      · rw [beginsInverse, inverseMark?_cons back]
        symm
        rw [Option.isSome_none, List.any_eq_false]
        exact fun name _ found => back (eq_of_beginsPattern found)

theorem eq_of_beginsInverse {c : Char} {rest : Text}
    (found : beginsInverse (c :: rest) = true) : c = '\\' := by
  by_cases back : c = '\\'
  · exact back
  · rw [beginsInverse, inverseMark?_cons back] at found
    cases found

/-- The marks of patterns. -/
def isPatternMark (c : Char) : Bool :=
  c ∈ ['^', '\x7b', '-', '1', '\x7d', '_']

/-- No pattern goes on at the start of the text. -/
structure Stops (text : Text) : Prop where
  noLetter : text.endsRun Char.isAlpha = true
  noMark : text.trimStart.endsRun isPatternMark = true

theorem Stops.nil : Stops [] :=
  ⟨rfl, rfl⟩

theorem Stops.of_visible {c : Char} (noLetter : c.isAlpha = false)
    (noMark : isPatternMark c = false) (visible : isBlank c = false) (rest : Text) :
    Stops (c :: rest) := by
  constructor
  · simp [endsRun, noLetter]
  · rw [trimStart_eq_of_head visible]
    simp [endsRun, noMark]

theorem Stops.of_blank {c : Char} (noMark : isPatternMark c = false) (visible : isBlank c = false)
    (rest : Text) : Stops (' ' :: c :: rest) := by
  refine ⟨rfl, ?_⟩
  have trimmed : trimStart (' ' :: c :: rest) = c :: rest := trimStart_eq_of_head visible
  rw [trimmed]
  simp [endsRun, noMark]

theorem dropLead?_trimStart_of_stops {text : Text} (stops : text.Stops) {mark : Char}
    (isMark : isPatternMark mark = true) : dropLead? text.trimStart [mark] = none := by
  have noMark := stops.noMark
  cases shape : text.trimStart with
  | nil => rfl
  | cons c rest =>
      rw [shape] at noMark
      refine if_neg ?_
      rintro rfl
      simp [endsRun, isMark] at noMark

section

variable {first second : Text} (stops : first.Stops) (stops' : second.Stops)
  {marks : List Char} (known : marks.all isPatternMark = true)

include stops stops' known

theorem isSome_afterMarks?_append (lead : Text) :
    (afterMarks? marks (lead ++ first)).isSome = (afterMarks? marks (lead ++ second)).isSome := by
  induction marks generalizing lead with
  | nil => rfl
  | cons mark marks ih =>
      rw [List.all_cons, Bool.and_eq_true] at known
      have trimmed (right : Text) : trimStart (lead ++ right) =
          if lead.trimStart.isEmpty then right.trimStart else lead.trimStart ++ right :=
        List.dropWhile_append
      simp only [afterMarks?, List.foldlM_cons, trimmed]
      cases lead.trimStart with
      | nil =>
          simp only [List.isEmpty_nil, if_true, dropLead?_trimStart_of_stops stops known.1,
            dropLead?_trimStart_of_stops stops' known.1]
      | cons c lead =>
          simp only [List.isEmpty_cons, Bool.false_eq_true, if_false, List.cons_append, dropLead?]
          by_cases same : c = mark
          · simp only [if_pos same]
            exact ih known.2 lead
          · simp only [if_neg same]

theorem isSome_name_append {name : Text} (letters : name.all Char.isAlpha = true) (lead : Text) :
    ((dropLead? (lead ++ first) name).bind (afterMarks? marks)).isSome =
      ((dropLead? (lead ++ second) name).bind (afterMarks? marks)).isSome := by
  induction name generalizing lead with
  | nil =>
      simp only [dropLead?, Option.bind_some]
      exact isSome_afterMarks?_append stops stops' known lead
  | cons letter name ih =>
      rw [List.all_cons, Bool.and_eq_true] at letters
      have missing {right : Text} (noLetter : right.endsRun Char.isAlpha = true) :
          dropLead? right (letter :: name) = none := by
        cases right with
        | nil => rfl
        | cons c right =>
            refine if_neg ?_
            rintro rfl
            simp [endsRun, letters.1] at noLetter
      cases lead with
      | nil => rw [List.nil_append, List.nil_append, missing stops.noLetter, missing stops'.noLetter]
      | cons c lead =>
          simp only [List.cons_append, dropLead?]
          by_cases same : c = letter
          · simpa only [if_pos same] using ih letters.2 lead
          · simp only [if_neg same]

end

/-! ## Texts that begin alike -/

/-- Two texts are the same up to a place where no pattern goes on in either of them. -/
def BeginAlike (text after : Text) : Prop :=
  ∃ lead first second : Text, text = lead ++ first ∧ after = lead ++ second ∧
    first.Stops ∧ second.Stops

namespace BeginAlike

variable {text after : Text}

theorem of_stops (stops : text.Stops) (stops' : after.Stops) : BeginAlike text after :=
  ⟨[], text, after, rfl, rfl, stops, stops'⟩

theorem cons (c : Char) (alike : BeginAlike text after) : BeginAlike (c :: text) (c :: after) := by
  obtain ⟨lead, first, second, rfl, rfl, stops, stops'⟩ := alike
  exact ⟨c :: lead, first, second, rfl, rfl, stops, stops'⟩

/-- What follows a closing bracket has no part in a pattern. -/
theorem closer (text rest : Text) : BeginAlike (text ++ ')' :: rest) text :=
  ⟨text, ')' :: rest, [], rfl, (List.append_nil _).symm,
    .of_visible (by decide) (by decide) (by decide) rest, .nil⟩

theorem beginsPattern_eq (alike : BeginAlike text after) {name : Text} {marks : List Char}
    (letters : name.all Char.isAlpha = true) (known : marks.all isPatternMark = true) (c : Char) :
    beginsPattern name marks (c :: text) = beginsPattern name marks (c :: after) := by
  obtain ⟨lead, first, second, rfl, rfl, stops, stops'⟩ := alike
  simp only [beginsPattern, dropLead?]
  by_cases back : c = '\\'
  · simpa only [if_pos back] using isSome_name_append stops stops' known letters lead
  · simp only [if_neg back]

theorem beginsInverse_eq (alike : BeginAlike text after) (c : Char) :
    beginsInverse (c :: text) = beginsInverse (c :: after) := by
  have letters : ∀ name ∈ trigonometric, name.all Char.isAlpha = true := by decide
  rw [Text.beginsInverse_eq, Text.beginsInverse_eq, Bool.eq_iff_iff, List.any_eq_true,
    List.any_eq_true]
  refine exists_congr fun name => and_congr_right fun isName => ?_
  rw [alike.beginsPattern_eq (letters name isName) (by decide) c]

end BeginAlike

/-- The name of an inverse function begins no mark of a pattern. -/
theorem exists_text_of_inverseMark? {text : Text} {mark : Cut}
    (found : text.inverseMark? = some mark) :
    ∃ (c : Char) (name : Text), mark.text = c :: name ∧ isPatternMark c = false ∧
      isBlank c = false ∧ '\\' ∉ mark.text := by
  obtain ⟨name, isName, _, _, _, isInverse⟩ := exists_of_inverseMark? found
  have known : ∀ name ∈ trigonometric, ∀ inverse ∈ Command.inverse? name,
      inverse.head?.any (fun c => !isPatternMark c && !isBlank c) = true ∧ '\\' ∉ inverse := by
    decide
  obtain ⟨visible, plain⟩ := known name isName mark.text isInverse
  cases shape : mark.text with
  | nil =>
      rw [shape] at visible
      cases visible
  | cons c name =>
      rw [shape] at visible plain
      simp only [List.head?_cons, Option.any_some, Bool.and_eq_true, Bool.not_eq_true'] at visible
      exact ⟨c, name, rfl, visible.1, visible.2, plain⟩

/-- A text and the same text with its inverse functions replaced begin alike. -/
theorem beginAlike_resolveInverses (vocabulary : Vocabulary) (text : Text) :
    BeginAlike (text.resolveInverses vocabulary) text := by
  have back {c : Char} {rest : Text} {mark : Cut}
      (found : inverseMark? (c :: rest) = some mark) : Stops (c :: rest) := by
    have isInverse : beginsInverse (c :: rest) = true := by rw [beginsInverse, found]; rfl
    rw [eq_of_beginsInverse isInverse]
    exact .of_visible (by decide) (by decide) (by decide) rest
  fun_induction resolveInverses vocabulary text with
  | case1 => exact .of_stops .nil .nil
  | case2 c rest _ ih => exact ih.cons c
  | case3 c rest mark isMark argument _ _ =>
      obtain ⟨d, name, shape, noMark, visible, _⟩ := exists_text_of_inverseMark? isMark
      rw [shape]
      exact .of_stops (.of_blank noMark visible _) (back isMark)
  | case4 c rest mark isMark _ _ =>
      obtain ⟨d, name, shape, noMark, visible, _⟩ := exists_text_of_inverseMark? isMark
      rw [shape]
      exact .of_stops (.of_blank noMark visible _) (back isMark)

/-! ## The arguments -/

/-- The arguments that are taken over when inverse functions are replaced, in order. -/
def inverseArguments (vocabulary : Vocabulary) (text : Text) : List Text :=
  match text with
  | [] => []
  | c :: rest =>
      match _mark : inverseMark? (c :: rest) with
      | none => inverseArguments vocabulary rest
      | some mark =>
          match _argument : mark.rest.bareArgument? vocabulary with
          | some argument => argument.text :: inverseArguments vocabulary argument.rest
          | none => inverseArguments vocabulary mark.rest
termination_by text.length
decreasing_by
  · simp
  · have marked := length_lt_of_inverseMark? _mark
    have := length_le_of_bareArgument? _argument
    omega
  · exact length_lt_of_inverseMark? _mark

section

variable {vocabulary : Vocabulary} {c : Char} {rest : Text} {mark : Cut}

theorem inverseArguments_cons_of_none (isNone : inverseMark? (c :: rest) = none) :
    inverseArguments vocabulary (c :: rest) = inverseArguments vocabulary rest := by
  rw [inverseArguments]
  split
  · rfl
  · rename_i isMark
    rw [isNone] at isMark
    cases isMark

variable (isMark : inverseMark? (c :: rest) = some mark)

include isMark

theorem inverseArguments_cons_of_argument {argument : Cut}
    (isArgument : mark.rest.bareArgument? vocabulary = some argument) :
    inverseArguments vocabulary (c :: rest) =
      argument.text :: inverseArguments vocabulary argument.rest := by
  rw [inverseArguments]
  split
  · rename_i isNone
    rw [isMark] at isNone
    cases isNone
  · rename_i other isOther
    cases isMark.symm.trans isOther
    split
    · rename_i found isFound
      cases isArgument.symm.trans isFound
      rfl
    · rename_i isNone
      rw [isArgument] at isNone
      cases isNone

theorem inverseArguments_cons_of_bare (noArgument : mark.rest.bareArgument? vocabulary = none) :
    inverseArguments vocabulary (c :: rest) = inverseArguments vocabulary mark.rest := by
  rw [inverseArguments]
  split
  · rename_i isNone
    rw [isMark] at isNone
    cases isNone
  · rename_i other isOther
    cases isMark.symm.trans isOther
    split
    · rename_i found isFound
      rw [noArgument] at isFound
      cases isFound
    · rfl

end

theorem places_beginsInverse_parenthesized (text rest : Text) :
    (text.parenthesized ++ rest).places beginsInverse =
      text.places beginsInverse + rest.places beginsInverse := by
  rw [parenthesized_append, ← List.singleton_append,
    places_plain_append (fun _ _ => eq_of_beginsInverse) (show '\\' ∉ ['('] by decide),
    places_append fun c text => (BeginAlike.closer text rest).beginsInverse_eq c,
    ← List.singleton_append,
    places_plain_append (fun _ _ => eq_of_beginsInverse) (show '\\' ∉ [')'] by decide)]

/-- The inverse functions that are left are those in the arguments that were taken over. -/
theorem places_beginsInverse_resolveInverses (vocabulary : Vocabulary) (text : Text) :
    (text.resolveInverses vocabulary).places beginsInverse =
      ((text.inverseArguments vocabulary).map (places beginsInverse)).sum := by
  have named {c : Char} {rest : Text} {mark : Cut}
      (found : inverseMark? (c :: rest) = some mark) : '\\' ∉ ' ' :: mark.text := by
    obtain ⟨_, _, _, _, _, plain⟩ := exists_text_of_inverseMark? found
    simpa using plain
  fun_induction resolveInverses vocabulary text with
  | case1 => simp [inverseArguments, places]
  | case2 c rest isNone ih =>
      have alike := beginAlike_resolveInverses vocabulary rest
      rw [inverseArguments_cons_of_none isNone, places, alike.beginsInverse_eq c, beginsInverse,
        isNone, ih]
      exact Nat.zero_add _
  | case3 c rest mark isMark argument isArgument ih =>
      rw [inverseArguments_cons_of_argument isMark isArgument, List.append_assoc,
        places_plain_append (fun _ _ => eq_of_beginsInverse) (named isMark),
        places_beginsInverse_parenthesized, ih, List.map_cons, List.sum_cons]
  | case4 c rest mark isMark isNone ih =>
      rw [inverseArguments_cons_of_bare isMark isNone,
        places_plain_append (fun _ _ => eq_of_beginsInverse) (named isMark),
        ← List.singleton_append,
        places_plain_append (fun _ _ => eq_of_beginsInverse) (show '\\' ∉ [' '] by decide), ih]

end Text

end TexCalc

import TexCalc.Proofs.Nesting.Balanced
import TexCalc.Proofs.Nesting.Counted

/-!
# Arguments that are whole

A command for a fraction or a root is replaced after all commands behind it.  Where its argument is
in braces, or is one character or another control word, no replacement changes what it takes.
An argument that begins with another structure does not come whole to it: the structure has become a
text in parentheses, and the opening parenthesis alone is taken.

Whether all arguments are whole is seen in the text before the first replacement, and every
replacement keeps it.
-/

namespace TexCalc

namespace Argument

/-- Whether the argument that a text begins with is torn: a parenthesis is opened there, or another
structure begins, which will have been put in parentheses by the time the argument is read. -/
def isTorn (text : Text) : Bool :=
  match text.skipBlanks with
  | [] => false
  | c :: rest =>
      c == '(' || c == '\\' && (Control.read? rest).any fun control =>
        decide (Structure.IsName control.name)

/-- The argument that a text begins with, if it is whole. -/
def readWhole? (text : Text) : Option Argument :=
  if isTorn text then none else read? text

theorem readWhole?_eq_none {text : Text} (torn : isTorn text = true) : readWhole? text = none :=
  if_pos torn

theorem eq_of_readWhole? {text : Text} {argument : Argument}
    (found : readWhole? text = some argument) :
    isTorn text = false ∧ read? text = some argument := by
  rw [readWhole?] at found
  split at found
  · cases found
  · rename_i sound
    exact ⟨Bool.eq_false_iff.2 sound, found⟩

theorem head?_ne_of_isTorn {text : Text} (torn : isTorn text = true) :
    text.skipBlanks.head? ≠ some '[' := by
  intro bracket
  rw [isTorn] at torn
  split at torn
  · cases torn
  · rename_i c rest start
    rw [start, List.head?_cons, Option.some.injEq] at bracket
    subst bracket
    cases torn

/-- What is read of a text with something to see. -/
theorem readWhole?_of_skipBlanks {text rest : Text} {c : Char}
    (start : text.skipBlanks = c :: rest) :
    readWhole? text =
      if c = '(' then none
      else if c = '\x7b' then
        (Bracket.curly.group? rest).map fun group => ⟨group.inside, true, group.rest⟩
      else if c = '\\' then
        (Control.read? rest).bind fun control =>
          if Structure.IsName control.name then none else some ⟨control.source, false, control.rest⟩
      else if isRefused c then none
      else some ⟨[c], false, rest⟩ := by
  rw [readWhole?, isTorn, read?, start]
  by_cases paren : c = '('
  · subst paren
    rfl
  by_cases back : c = '\\'
  · subst back
    cases found : Control.read? rest with
    | none => simp [found]
    | some control => by_cases named : Structure.IsName control.name <;> simp [found, named]
  · simp [paren, back]

theorem exists_of_readOptional? {text : Text} {index : Argument}
    (found : readOptional? text = some index) :
    ∃ rest, text.skipBlanks = '[' :: rest ∧ ∃ group, Bracket.square.group? rest = some group ∧
      ⟨group.inside, true, group.rest⟩ = index := by
  simp only [readOptional?] at found
  split at found
  · rename_i rest start
    exact ⟨rest, start, Option.map_eq_some_iff.1 found⟩
  · cases found

end Argument

namespace Structure

/-- Whether the command that was just read finds its arguments, and all of them are whole. -/
def isWhole (name text : Text) : Bool :=
  if Command.isFraction name then
    (Argument.readWhole? text).any fun numerator =>
      (Argument.readWhole? numerator.rest).isSome
  else if Command.isRoot name then
    if text.skipBlanks.head? = some '[' then
      (Argument.readOptional? text).any fun index => (Argument.readWhole? index.rest).isSome
    else (Argument.readWhole? text).isSome
  else true

/-- Whether every structure of the text has whole arguments. -/
def areWhole : Text → Bool
  | [] => true
  | c :: rest =>
      (c != '\\' || (Control.read? rest).all fun control => isWhole control.name control.rest) &&
        areWhole rest

end Structure

/-! ## Texts that go on differently -/

/-- What may be put in the place of a structure: it continues no word, and groups from in front of
it are closed at the same places as before. -/
structure Replaces (old new : Text) : Prop where
  isTorn : Argument.isTorn old = true
  endsOld : old.endsWord = true
  endsNew : new.endsWord = true
  behind? : ∀ bracket : Bracket, bracket ≠ .round → ∀ depth,
    bracket.behind? depth old = bracket.behind? depth new

/-- One text two times, or a front with the one text behind it and with the other one. -/
inductive SameUpTo (old new : Text) : Text → Text → Prop where
  | same (text : Text) : SameUpTo old new text text
  | upTo (front : Text) (openly : Text.hidesNext false front = false) :
      SameUpTo old new (front ++ old) (front ++ new)

namespace SameUpTo

variable {old new text other : Text} {bracket : Bracket}

/-- A group is closed at like places. -/
theorem group? (replaces : Replaces old new) (fixed : bracket ≠ .round) {front : Text}
    (openly : Text.hidesNext false front = false) {group : Group}
    (found : bracket.group? (front ++ old) = some group) :
    ∃ group', bracket.group? (front ++ new) = some group' ∧
      SameUpTo old new group.rest group'.rest := by
  rw [Bracket.group?] at found ⊢
  cases Bracket.reaches openly bracket 0 with
  | inside inner _ openly same =>
      rw [same] at found ⊢
      cases found
      exact ⟨_, rfl, .upTo inner.rest openly⟩
  | behind later same =>
      rw [same] at found ⊢
      obtain ⟨group, isGroup, rfl⟩ := Option.map_eq_some_iff.1 found
      have behind := replaces.behind? bracket fixed later
      rw [Bracket.behind?, isGroup] at behind
      obtain ⟨group', isGroup', sameRest⟩ := Option.map_eq_some_iff.1 behind.symm
      rw [isGroup']
      refine ⟨_, rfl, ?_⟩
      change SameUpTo old new group.rest group'.rest
      rw [sameRest]
      exact .same _

/-- What two alike texts begin with, where the first one does not begin with the structure. -/
theorem starts (replaces : Replaces old new) (alike : SameUpTo old new text other) :
    text = other ∨ Argument.isTorn text = true ∨
      ∃ c front, Text.hidesNext false (c :: front) = false ∧
        text.skipBlanks = c :: (front ++ old) ∧ other.skipBlanks = c :: (front ++ new) := by
  cases alike with
  | same => exact .inl rfl
  | upTo front openly =>
      cases start : front.skipBlanks with
      | nil =>
          refine .inr (.inl ?_)
          rw [Argument.isTorn, Text.skipBlanks_append_of_eq_nil start, ← Argument.isTorn]
          exact replaces.isTorn
      | cons c more =>
          have longer (rest : Text) : Text.skipBlanks (front ++ rest) = c :: (more ++ rest) := by
            rw [Text.skipBlanks_append (by simp [start]), start, List.cons_append]
          have skipped := Text.CutsOpenly.skipBlanks front
          rw [start] at skipped
          exact .inr (.inr ⟨c, more, skipped.hidesNext_eq_false openly, longer old, longer new⟩)

theorem readWhole? (replaces : Replaces old new) (alike : SameUpTo old new text other)
    {argument : Argument} (found : Argument.readWhole? text = some argument) :
    ∃ argument', Argument.readWhole? other = some argument' ∧
      SameUpTo old new argument.rest argument'.rest := by
  rcases alike.starts replaces with rfl | torn | ⟨c, front, openly, start, start'⟩
  · exact ⟨argument, found, .same _⟩
  · rw [Argument.readWhole?_eq_none torn] at found
    cases found
  -- The argument begins in front.  Only a group can reach behind it.
  · rw [Argument.readWhole?_of_skipBlanks start] at found
    rw [Argument.readWhole?_of_skipBlanks start']
    by_cases paren : c = '('
    · rw [if_pos paren] at found
      cases found
    by_cases brace : c = '\x7b'
    · subst brace
      rw [if_neg paren, if_pos rfl] at found ⊢
      obtain ⟨group, isGroup, rfl⟩ := Option.map_eq_some_iff.1 found
      obtain ⟨group', isGroup', isAlike⟩ :=
        @group? old new .curly replaces (by decide) front openly _ isGroup
      rw [isGroup']
      exact ⟨_, rfl, isAlike⟩
    by_cases back : c = '\\'
    · subst back
      have named : front ≠ [] := by
        rintro rfl
        cases openly
      rw [if_neg paren, if_neg brace, if_pos rfl] at found ⊢
      rw [Control.read?_append_rest named replaces.endsOld] at found
      rw [Control.read?_append_rest named replaces.endsNew]
      obtain ⟨_, isControl, found⟩ := Option.bind_eq_some_iff.1 found
      obtain ⟨control, isFirst, rfl⟩ := Option.map_eq_some_iff.1 isControl
      rw [isFirst, Option.map_some, Option.bind_some]
      split at found
      · cases found
      · rename_i other
        cases found
        have openRest := (Text.CutsOpenly.of_control isFirst).hidesNext_eq_false openly
        exact ⟨_, if_neg other, .upTo control.rest openRest⟩
    rw [if_neg paren, if_neg brace, if_neg back] at found ⊢
    split at found
    · cases found
    · rename_i accepted
      cases found
      have openRest : Text.hidesNext false front = false := by
        rwa [Text.hidesNext, beq_false_of_ne back, Bool.false_and] at openly
      exact ⟨_, if_neg accepted, .upTo front openRest⟩

theorem readOptional? (replaces : Replaces old new) (alike : SameUpTo old new text other)
    {index : Argument} (found : Argument.readOptional? text = some index) :
    other.skipBlanks.head? = some '[' ∧ ∃ index', Argument.readOptional? other = some index' ∧
      SameUpTo old new index.rest index'.rest := by
  obtain ⟨rest, isStart, group, isGroup, rfl⟩ := Argument.exists_of_readOptional? found
  rcases alike.starts replaces with rfl | torn | ⟨c, front, openly, start, start'⟩
  · exact ⟨by rw [isStart, List.head?_cons], _, found, .same _⟩
  · exact absurd (by rw [isStart, List.head?_cons]) (Argument.head?_ne_of_isTorn torn)
  · rw [start] at isStart
    cases isStart
    obtain ⟨group', isGroup', isAlike⟩ :=
      @group? old new .square replaces (by decide) front openly _ isGroup
    refine ⟨by rw [start', List.head?_cons], ⟨group'.inside, true, group'.rest⟩, ?_, isAlike⟩
    rw [Argument.readOptional?_index start', isGroup', Option.map_some]

/-- A root that finds whole arguments finds an index in both texts or in none. -/
theorem head?_eq (replaces : Replaces old new) (alike : SameUpTo old new text other)
    (whole : (Argument.readWhole? text).isSome = true) :
    other.skipBlanks.head? = text.skipBlanks.head? := by
  rcases alike.starts replaces with rfl | torn | ⟨c, front, _, start, start'⟩
  · rfl
  · rw [Argument.readWhole?_eq_none torn] at whole
    cases whole
  · rw [start, start']
    rfl

theorem isSome_readWhole? (replaces : Replaces old new) (alike : SameUpTo old new text other)
    (whole : (Argument.readWhole? text).isSome = true) :
    (Argument.readWhole? other).isSome = true := by
  obtain ⟨argument, found⟩ := Option.isSome_iff_exists.1 whole
  obtain ⟨argument', found', _⟩ := alike.readWhole? replaces found
  rw [found']
  rfl

theorem isWhole (replaces : Replaces old new) (alike : SameUpTo old new text other) {name : Text}
    (whole : Structure.isWhole name text = true) : Structure.isWhole name other = true := by
  rw [Structure.isWhole] at whole ⊢
  split at whole
  · rename_i fraction
    rw [if_pos fraction]
    obtain ⟨numerator, isNumerator, next⟩ := (Option.any_eq_true _ _).1 whole
    obtain ⟨numerator', isNumerator', isAlike⟩ := alike.readWhole? replaces isNumerator
    rw [isNumerator', Option.any_some]
    exact isAlike.isSome_readWhole? replaces next
  · rename_i noFraction
    rw [if_neg noFraction]
    split at whole
    · rename_i root
      rw [if_pos root]
      split at whole
      · obtain ⟨index, isIndex, next⟩ := (Option.any_eq_true _ _).1 whole
        obtain ⟨bracket, index', isIndex', isAlike⟩ := alike.readOptional? replaces isIndex
        rw [if_pos bracket, isIndex', Option.any_some]
        exact isAlike.isSome_readWhole? replaces next
      · rename_i noIndex
        rw [if_neg (alike.head?_eq replaces whole ▸ noIndex)]
        exact alike.isSome_readWhole? replaces whole
    · rename_i noRoot
      rw [if_neg noRoot]

end SameUpTo

/-! ## Texts in which all arguments are whole -/

namespace Structure

variable {old new text : Text}

theorem areWhole_of_append {front : Text} (whole : areWhole (front ++ text) = true) :
    areWhole text = true := by
  induction front with
  | nil => exact whole
  | cons c front ih =>
      rw [List.cons_append, areWhole, Bool.and_eq_true] at whole
      exact ih whole.2

theorem isWhole_of_areWhole {rest : Text} {control : Control}
    (whole : areWhole ('\\' :: rest) = true) (isControl : Control.read? rest = some control) :
    isWhole control.name control.rest = true := by
  rw [areWhole, isControl, Bool.and_eq_true] at whole
  exact whole.1

theorem areWhole_of_control {rest : Text} {control : Control}
    (whole : areWhole ('\\' :: rest) = true) (isControl : Control.read? rest = some control) :
    areWhole control.rest = true := by
  rw [Control.eq_of_read? isControl, ← List.cons_append] at whole
  exact areWhole_of_append whole

theorem isWhole_of_not_isName {name : Text} (other : ¬ IsName name) (text : Text) :
    isWhole name text = true := by
  simp only [IsName, Bool.or_eq_true, not_or] at other
  rw [isWhole, if_neg other.1, if_neg other.2]

theorem isSome_read?_of_isWhole {name : Text} (isName : IsName name)
    (whole : isWhole name text = true) : (read? name text).isSome = true := by
  rw [isWhole] at whole
  rw [read?]
  split at whole
  · rename_i fraction
    obtain ⟨numerator, isNumerator, next⟩ := (Option.any_eq_true _ _).1 whole
    obtain ⟨denominator, isDenominator⟩ := Option.isSome_iff_exists.1 next
    rw [if_pos fraction, readFraction?, (Argument.eq_of_readWhole? isNumerator).2, Option.bind_some,
      (Argument.eq_of_readWhole? isDenominator).2]
    rfl
  · rename_i noFraction
    split at whole
    · rename_i root
      rw [if_neg noFraction, if_pos root, readRoot?]
      split at whole
      · rename_i bracket
        obtain ⟨index, isIndex, next⟩ := (Option.any_eq_true _ _).1 whole
        obtain ⟨radicand, isRadicand⟩ := Option.isSome_iff_exists.1 next
        rw [if_pos bracket, isIndex, Option.bind_some, (Argument.eq_of_readWhole? isRadicand).2]
        rfl
      · rename_i noBracket
        obtain ⟨radicand, isRadicand⟩ := Option.isSome_iff_exists.1 whole
        rw [if_neg noBracket, (Argument.eq_of_readWhole? isRadicand).2]
        rfl
    · rename_i noRoot
      simp [IsName, noFraction, noRoot] at isName

theorem areWhole_of_none (only : text.HasWordsOnly) (none : ∀ word ∈ text.words, ¬ IsName word) :
    areWhole text = true := by
  induction text with
  | nil => rfl
  | cons c rest ih =>
      rw [areWhole, Bool.and_eq_true]
      by_cases back : c = '\\'
      · subst back
        rw [Text.words_cons_backslash, List.forall_mem_cons] at none
        rw [Text.read?_of_hasWordsOnly only]
        exact ⟨isWhole_of_not_isName none.1 _, ih only.tail none.2⟩
      · rw [Text.words_cons_of_ne back] at none
        exact ⟨by rw [bne_iff_ne.2 back, Bool.true_or], ih only.tail none⟩

/-- No backslash of a text with words only hides the one behind it. -/
theorem hidesNext_of_hasWordsOnly {front rest : Text}
    (only : Text.HasWordsOnly (front ++ '\\' :: rest)) : Text.hidesNext false front = false := by
  rcases List.eq_nil_or_concat' front with rfl | ⟨lead, c, rfl⟩
  · rfl
  · by_cases back : c = '\\'
    · subst back
      rw [List.append_assoc] at only
      exact absurd List.mem_cons_self only.of_append_right
    · exact Text.hidesNext_concat back false lead

/-- The arguments in front of a replaced structure stay whole. -/
theorem areWhole_append (replaces : Replaces ('\\' :: old) new) {front : Text}
    (only : Text.HasWordsOnly (front ++ '\\' :: old))
    (whole : areWhole (front ++ '\\' :: old) = true) (wholeNew : areWhole new = true) :
    areWhole (front ++ new) = true := by
  induction front with
  | nil => exact wholeNew
  | cons c front ih =>
      rw [List.cons_append, areWhole, Bool.and_eq_true] at whole ⊢
      refine ⟨?_, ih only.tail whole.2⟩
      -- Behind a command of the front the two texts are alike.
      by_cases back : c = '\\'
      · subst back
        have named : front ≠ [] := by
          rintro rfl
          exact only List.mem_cons_self
        rw [Control.read?_append_rest named replaces.endsOld] at whole
        rw [Control.read?_append_rest named replaces.endsNew]
        cases isControl : Control.read? front with
        | none => rfl
        | some control =>
            rw [isControl] at whole
            have sameText := Control.eq_of_read? isControl
            have onlyRest : Text.HasWordsOnly (control.rest ++ '\\' :: old) := by
              have within : Text.HasWordsOnly (front ++ '\\' :: old) := only.tail
              rw [sameText, List.append_assoc] at within
              exact within.of_append_right
            have alike : SameUpTo ('\\' :: old) new _ (control.rest ++ new) :=
              .upTo control.rest (hidesNext_of_hasWordsOnly onlyRest)
            exact alike.isWhole replaces whole.1
      · rw [bne_iff_ne.2 back, Bool.true_or]

/-- What is written for a structure may be put in its place. -/
theorem replaces_of_read? {rest after : Text} {control : Control} {found : Structure}
    {may : Bool} {before : List Pending} (only : Text.HasWordsOnly ('\\' :: rest))
    (walk : Walk true may before ('\\' :: rest) [])
    (isControl : Control.read? rest = some control)
    (isRead : read? control.name control.rest = some (found, after)) :
    Replaces ('\\' :: rest) (found.linear ++ after) := by
  obtain ⟨split, letters, _, _⟩ := Text.control_of_hasWordsOnly only isControl
  have plain := all_plain_of (by decide) letters
  have behind := walk.of_plain (by decide)
  rw [split] at behind
  refine ⟨?_, rfl, endsWord_linear_append found after, fun bracket fixed depth => ?_⟩
  · have start : Text.skipBlanks ('\\' :: rest) = '\\' :: rest :=
      List.dropWhile_cons_of_neg (by decide)
    simp [Argument.isTorn, start, isControl, isName_of_read? isRead]
  · obtain ⟨opened, source, target⟩ :=
      counts_read? (only.of_control isControl) (behind.of_plain_append plain) isRead fixed
    have command : bracket.Counts [] ('\\' :: rest) control.rest := by
      have onlyName := only.tail
      have back : bracket.Counts [] _ rest := .plain only (by decide)
      rw [split] at onlyName back ⊢
      exact back.after (.plain_append onlyName plain)
    rw [command.after source, target]

end Structure

end TexCalc

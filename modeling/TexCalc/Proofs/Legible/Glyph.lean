import TexCalc.Proofs.Nesting.Nested
import TexCalc.Proofs.Vocabulary.Lookup
import TexCalc.Proofs.Vocabulary.Standard

/-!
# Glyphs

On its way to the linear form a formula is made of characters, of the names of functions and
constants, and of control words.  A name is one glyph, however many letters it has, and so is a
control word.  To what stands around it a glyph matters by its role alone: a letter, a bracket, a
function that waits for its argument, and so on.

Which glyph stands at some place of a text can be told from what follows.  A single character
begins no name, and a name ends where the letters and digits end.
-/

namespace TexCalc

/-- What a glyph is to the glyphs around it. -/
inductive Role where
  | blank
  | caret
  | underscore
  | sign
  /-- The command for a sign that is told apart by the options. -/
  | plusMinus
  | point
  /-- A comma, or an operator that is no sign. -/
  | mark
  /-- The letter `e`, or the command for Euler's number. -/
  | euler
  | letter
  | digit
  | opens (bracket : Bracket)
  | closes (bracket : Bracket)
  /-- The command for a function. -/
  | function (isLog : Bool)
  /-- The name of a function, which may have a group behind it. -/
  | call (applied : Bool)
  /-- A constant, by a command or spelled out. -/
  | value (spelled : Bool)
  | fraction
  | root
  deriving DecidableEq, Repr

namespace Role

/-- The role of a character that stands for itself. -/
def ofChar? (c : Char) : Option Role :=
  if c = ' ' then some blank
  else if c = '^' then some caret
  else if c = '_' then some underscore
  else if c = '+' ∨ c = '-' then some sign
  else if c = '.' then some point
  else if c = '*' ∨ c = '/' ∨ c = ',' then some mark
  else if c = 'e' then some euler
  else if c.isAlpha then some letter
  else if c.isDigit then some digit
  else
    match Bracket.ofOpener? c with
    | some bracket => some (opens bracket)
    | none => (Bracket.ofCloser? c).map closes

/-- The role of a command that is neither a structure nor a blank. -/
def ofCommand? : Command → Option Role
  | .function _ | .reciprocal _ => some (function false)
  | .log => some (function true)
  | .constant target => if target = ['e'] then some euler else some (value false)
  | .operator _ => some mark
  | .plusMinus | .minusPlus => some plusMinus
  | .structural | .spacing => none

/-- The role of a control word. -/
def ofWord? (name : Text) : Option Role :=
  if Command.isFraction name then some fraction
  else if Command.isRoot name then some root
  else (Command.named? name).bind ofCommand?

end Role

namespace Callable

/-- Whether a callable is a parked function or a function of the standard vocabulary. -/
def isStandard : Callable → Bool
  | function name => decide (name ∈ Vocabulary.standard.namesOf .function)
  | parked _ => true

end Callable

/-- A part of a text that is never taken apart. -/
inductive Glyph where
  | char (c : Char)
  | call (callable : Callable)
  | value (name : Name)
  | word (name : Text)
  deriving DecidableEq, Repr

namespace Text

/-- Whether a group stands at the start of a text, blanks apart. -/
def isApplied (text : Text) : Bool :=
  (text.skipBlanks.head?.bind Bracket.ofArgument?).isSome

/-- Whether a parked name stands at the start of a text, letters and digits apart. -/
def touchesMark (text : Text) : Bool :=
  (text.dropWhile Char.isAlphanum).head? == some Parked.mark

/-- Whether the first letters of a text spell a name of the standard vocabulary or touch a parked
one. -/
def beginsName (text : Text) : Bool :=
  (Vocabulary.standard.entries.any fun entry => decide (entry.name.text <+: text)) ||
    text.head?.any Char.isAlpha && text.touchesMark

end Text

namespace Glyph

/-- The glyph as it is written. -/
def source : Glyph → Text
  | char c => [c]
  | call callable => callable.text
  | value name => name.text
  | word name => '\\' :: name

/-- The role of a glyph in front of a text, if the glyph can stand there. -/
def role? (rest : Text) : Glyph → Option Role
  | char c => if Text.beginsName (c :: rest) then none else Role.ofChar? c
  | call callable =>
      if callable.isStandard && rest.endsRun Text.isNameChar then some (.call rest.isApplied) else none
  | value name =>
      if name ∈ Vocabulary.standard.namesOf .constant ∧ rest.endsRun Text.isNameChar = true then
        some (.value true)
      else none
  | word name => if rest.endsRun Char.isAlpha then Role.ofWord? name else none

/-- How often a glyph is the given letter. -/
def weight (letter : Char) : Glyph → Nat
  | char c => if c = letter ∧ c.isAlpha = true then 1 else 0
  | _ => 0

end Glyph

/-- The characters that have a role. -/
def Role.Fits (c : Char) : Role → Prop
  | blank => c = ' '
  | caret => c = '^'
  | underscore => c = '_'
  | sign => c = '-' ∨ c = '+'
  | point => c = '.'
  | mark => c = '*' ∨ c = '/' ∨ c = ','
  | euler => c = 'e'
  | letter => c.isAlpha = true
  | digit => c.isDigit = true
  | opens bracket => c = bracket.opener
  | closes bracket => c = bracket.closer
  | _ => False

theorem Role.fits_of_ofChar? {c : Char} {role : Role} (isRole : ofChar? c = some role) :
    role.Fits c := by
  unfold ofChar? at isRole
  repeat
    split at isRole
    · rename_i isHere
      cases isRole
      first | exact isHere | exact isHere.symm
  split at isRole
  · rename_i bracket opens
    cases isRole
    exact (Bracket.opener_of_ofOpener? opens).symm
  · obtain ⟨bracket, closes, rfl⟩ := Option.map_eq_some_iff.1 isRole
    exact (Bracket.closer_of_ofCloser? closes).symm

namespace Role

/-- Roles that only characters have. -/
def isCharacter : Role → Bool
  | blank | caret | underscore | sign | point | letter | digit | opens _ | closes _ => true
  | _ => false

/-- Roles that only control words have. -/
def isCommand : Role → Bool
  | plusMinus | function _ | value false | fraction | root => true
  | _ => false

end Role

/-! ## What follows a glyph -/

namespace Text

variable {text tail new old : Text}

theorem endsRun_isAlphanum (ends : text.endsRun Text.isNameChar = true) :
    text.endsRun Char.isAlphanum = true := by
  cases text with
  | nil => rfl
  | cons c text =>
      simp only [endsRun, List.head?_cons, Option.all_some, Bool.not_eq_true', Text.isNameChar,
        Bool.or_eq_false_iff] at ends ⊢
      exact ends.1

theorem touchesMark_cons (c : Char) (text : Text) :
    touchesMark (c :: text) = if c.isAlphanum then text.touchesMark else c == Parked.mark := by
  rw [touchesMark, List.dropWhile_cons]
  split <;> rfl

theorem touchesMark_append (touches : text.touchesMark = true) (tail : Text) :
    (text ++ tail).touchesMark = true := by
  induction text with
  | nil => cases touches
  | cons c text ih =>
      rw [touchesMark_cons] at touches
      rw [List.cons_append, touchesMark_cons]
      split
      · rename_i word
        exact ih (by rwa [if_pos word] at touches)
      · rename_i other
        rwa [if_neg other] at touches

theorem takeWhile_prefix_append {accept : Char → Bool} (text tail : Text) :
    text.takeWhile accept <+: (text ++ tail).takeWhile accept := by
  induction text with
  | nil => exact List.nil_prefix
  | cons c text ih =>
      simp only [List.cons_append, List.takeWhile_cons]
      split
      · exact List.prefix_cons_inj c |>.2 ih
      · exact List.prefix_refl _

theorem beginsName_of_prefix (isPrefix : new <+: old) (begins : new.beginsName = true) :
    old.beginsName = true := by
  obtain ⟨tail, rfl⟩ := isPrefix
  rw [beginsName, Bool.or_eq_true, Bool.and_eq_true] at begins ⊢
  refine begins.imp (fun spelled => ?_) fun ⟨isLetter, touches⟩ =>
    ⟨?_, touchesMark_append touches tail⟩
  · obtain ⟨entry, isEntry, here⟩ := List.any_eq_true.1 spelled
    exact List.any_eq_true.2
      ⟨entry, isEntry, decide_eq_true ((of_decide_eq_true here).trans (List.prefix_append _ _))⟩
  · cases new with
    | nil => cases isLetter
    | cons c new => exact isLetter

/-- The letters in front of anything else spell a name already, if there is one. -/
theorem beginsName_of_letters (run : new.takeWhile Char.isAlpha <+: old.takeWhile Char.isAlpha)
    (touches : new.touchesMark = true → old.touchesMark = true)
    (begins : new.beginsName = true) : old.beginsName = true := by
  rw [beginsName, Bool.or_eq_true, Bool.and_eq_true] at begins ⊢
  rcases begins with spelled | ⟨isLetter, isTouched⟩
  · obtain ⟨entry, isEntry, here⟩ := List.any_eq_true.1 spelled
    obtain ⟨rest, rfl⟩ := of_decide_eq_true here
    have names : ∀ entry ∈ Vocabulary.standard.entries, ∃ shorter ∈ Vocabulary.standard.entries,
        shorter.name.text = entry.name.text.takeWhile Char.isAlpha := by decide +kernel
    obtain ⟨shorter, isShorter, isText⟩ := names entry isEntry
    refine .inl (List.any_eq_true.2 ⟨shorter, isShorter, decide_eq_true ?_⟩)
    rw [isText]
    exact ((takeWhile_prefix_append _ rest).trans run).trans (List.takeWhile_prefix _)
  · refine .inr ⟨?_, touches isTouched⟩
    cases new with
    | nil => cases isLetter
    | cons c new =>
        have letter : c.isAlpha = true := by simpa using isLetter
        rw [List.takeWhile_cons, if_pos letter] at run
        cases old with
        | nil => cases List.prefix_nil.1 run
        | cons d old =>
            rw [List.takeWhile_cons] at run
            split at run
            · simpa
            · cases List.prefix_nil.1 run

theorem isApplied_append (unapplied : tail.isApplied = false) :
    (text ++ tail).isApplied = text.isApplied := by
  induction text with
  | nil => rw [List.nil_append, unapplied]; rfl
  | cons c text ih =>
      simp only [isApplied, skipBlanks, List.cons_append, List.dropWhile_cons] at ih ⊢
      split
      · exact ih
      · rfl

theorem isApplied_cons (applied : old.isApplied = true → new.isApplied = true) (c : Char)
    (isOld : isApplied (c :: old) = true) : isApplied (c :: new) = true := by
  simp only [isApplied, skipBlanks, List.dropWhile_cons] at applied isOld ⊢
  split
  · rename_i blank
    rw [if_pos blank] at isOld
    exact applied isOld
  · rename_i visible
    rwa [if_neg visible] at isOld

/-- What stands in front of one text may stand in front of another one: the letters there become no
more, no digit and no parked name is put there, and a group stays one. -/
structure StandsFor (new old : Text) : Prop where
  run : new.takeWhile Char.isAlpha <+: old.takeWhile Char.isAlpha
  ends : old.endsRun Text.isNameChar = true → new.endsRun Text.isNameChar = true
  touches : new.touchesMark = true → old.touchesMark = true
  applied : old.isApplied = true → new.isApplied = true

theorem touchesMark_of_endsRun (ends : text.endsRun Text.isNameChar = true) :
    text.touchesMark = false := by
  cases text with
  | nil => rfl
  | cons c text =>
      simp only [endsRun, List.head?_cons, Option.all_some, Bool.not_eq_true', Text.isNameChar,
        Bool.or_eq_false_iff] at ends
      simp [touchesMark_cons, ends]

theorem takeWhile_isAlpha_of_endsRun (ends : text.endsRun Text.isNameChar = true) :
    text.takeWhile Char.isAlpha = [] := by
  cases text with
  | nil => rfl
  | cons c text =>
      simp only [endsRun, List.head?_cons, Option.all_some, Bool.not_eq_true', Text.isNameChar,
        Bool.or_eq_false_iff, Char.isAlphanum] at ends
      simp [ends]

theorem takeWhile_isAlpha_append (ends : tail.endsRun Text.isNameChar = true) :
    (text ++ tail).takeWhile Char.isAlpha = text.takeWhile Char.isAlpha := by
  have none := takeWhile_isAlpha_of_endsRun ends
  induction text with
  | nil => exact none
  | cons c text ih => simp [List.takeWhile_cons, ih]

theorem touchesMark_append_of_endsRun (ends : tail.endsRun Text.isNameChar = true) :
    (text ++ tail).touchesMark = text.touchesMark := by
  induction text with
  | nil => exact touchesMark_of_endsRun ends
  | cons c text ih => simp [touchesMark_cons, ih]

namespace StandsFor

theorem refl (text : Text) : text.StandsFor text :=
  ⟨List.prefix_refl _, id, id, id⟩

/-- Nothing that an operand could go on with. -/
theorem of_ends (ends : new.endsRun Text.isNameChar = true)
    (unapplied : old.isApplied = true → new.isApplied = true) : new.StandsFor old where
  run := by
    rw [takeWhile_isAlpha_of_endsRun ends]
    exact List.nil_prefix
  ends _ := ends
  touches touched := by
    rw [touchesMark_of_endsRun ends] at touched
    cases touched
  applied := unapplied

/-- Letters end a control word, digits do not. -/
theorem endsLetters (standsFor : new.StandsFor old) (ends : old.endsRun Char.isAlpha = true) :
    new.endsRun Char.isAlpha = true := by
  have run := standsFor.run
  rw [takeWhile_eq_nil_of_endsRun ends, List.prefix_nil] at run
  cases new with
  | nil => rfl
  | cons c new =>
      cases letter : c.isAlpha with
      | false => simp [Text.endsRun, letter]
      | true => simp [letter] at run

theorem cons (standsFor : new.StandsFor old) (c : Char) : StandsFor (c :: new) (c :: old) where
  run := by
    simp only [List.takeWhile_cons]
    split
    · exact List.prefix_cons_inj c |>.2 standsFor.run
    · exact List.prefix_refl _
  ends := id
  touches := by
    rw [touchesMark_cons, touchesMark_cons]
    split
    · exact standsFor.touches
    · exact id
  applied := isApplied_cons standsFor.applied c

theorem append (standsFor : new.StandsFor old) (front : Text) :
    (front ++ new).StandsFor (front ++ old) := by
  induction front with
  | nil => exact standsFor
  | cons c front ih => exact ih.cons c

theorem beginsName (standsFor : new.StandsFor old) {c : Char}
    (none : Text.beginsName (c :: old) = false) : Text.beginsName (c :: new) = false := by
  have behind := standsFor.cons c
  rw [Bool.eq_false_iff] at none ⊢
  exact fun begins => none (beginsName_of_letters behind.run behind.touches begins)

end StandsFor

end Text

namespace Glyph

variable {glyph : Glyph} {text tail new old : Text} {role : Role}

/-- The role of a glyph does not change when another text stands for the one behind it, except that
a function may have got a group. -/
theorem exists_role?_of_standsFor (standsFor : new.StandsFor old)
    (isRole : glyph.role? old = some role) :
    ∃ role', glyph.role? new = some role' ∧
      (role' = role ∨ role = .call false ∧ role' = .call true) := by
  cases glyph with
  | char c =>
      simp only [role?] at isRole
      split at isRole
      · cases isRole
      · rename_i none
        refine ⟨role, ?_, .inl rfl⟩
        rw [role?, standsFor.beginsName (by simpa using none)]
        exact isRole
  | call callable =>
      simp only [role?] at isRole ⊢
      split at isRole <;> cases isRole
      rename_i allowed
      rw [Bool.and_eq_true] at allowed
      refine ⟨.call new.isApplied, by rw [allowed.1, standsFor.ends allowed.2]; rfl, ?_⟩
      have applied := standsFor.applied
      cases isOld : old.isApplied with
      | true => exact .inl (by rw [applied isOld])
      | false =>
          cases new.isApplied
          · exact .inl rfl
          · exact .inr ⟨rfl, rfl⟩
  | value name =>
      simp only [role?] at isRole ⊢
      split at isRole <;> cases isRole
      rename_i allowed
      exact ⟨_, if_pos ⟨allowed.1, standsFor.ends allowed.2⟩, .inl rfl⟩
  | word name =>
      simp only [role?] at isRole ⊢
      split at isRole
      · rename_i ends
        exact ⟨role, (if_pos (standsFor.endsLetters ends)).trans isRole, .inl rfl⟩
      · cases isRole

/-- The role of a glyph does not change when the text goes on with something that neither continues
a name nor begins a group. -/
theorem role?_append (ends : tail.endsRun Text.isNameChar = true)
    (unapplied : tail.isApplied = false) : glyph.role? (text ++ tail) = glyph.role? text := by
  have applied : (text ++ tail).isApplied = text.isApplied := Text.isApplied_append unapplied
  have ending : (text ++ tail).endsRun Text.isNameChar = text.endsRun Text.isNameChar := by
    cases text with
    | nil => exact ends
    | cons c text => rfl
  have run : (text ++ tail).takeWhile Char.isAlpha = text.takeWhile Char.isAlpha :=
    Text.takeWhile_isAlpha_append ends
  have touches : (text ++ tail).touchesMark = text.touchesMark :=
    Text.touchesMark_append_of_endsRun ends
  have longer : (text ++ tail).StandsFor text :=
    ⟨run ▸ List.prefix_refl _, ending ▸ id, touches ▸ id, applied ▸ id⟩
  have shorter : text.StandsFor (text ++ tail) :=
    ⟨run ▸ List.prefix_refl _, ending ▸ id, touches ▸ id, applied ▸ id⟩
  have same {fact : Text → Bool} (forth : fact text = true → fact (text ++ tail) = true)
      (back : fact (text ++ tail) = true → fact text = true) : fact (text ++ tail) = fact text :=
    Bool.eq_iff_iff.2 ⟨back, forth⟩
  have letters : (text ++ tail).endsRun Char.isAlpha = text.endsRun Char.isAlpha :=
    same longer.endsLetters shorter.endsLetters
  cases glyph with
  | char c =>
      have none : Text.beginsName (c :: (text ++ tail)) = Text.beginsName (c :: text) := by
        rw [← Bool.not_inj_iff]
        rw [← @same fun text => !Text.beginsName (c :: text)]
        · simpa using longer.beginsName
        · simpa using shorter.beginsName
      rw [role?, role?, none]
  | call callable =>
      rw [role?, role?, applied, ending]
  | value name => rw [role?, role?, ending]
  | word name => rw [role?, role?, letters]

theorem source_ne_nil (isRole : glyph.role? text = some role) : glyph.source ≠ [] := by
  cases glyph with
  | call callable => exact callable.text_ne_nil
  | value name => exact name.text_ne_nil
  | _ => exact List.cons_ne_nil _ _

/-- A control word with a role is a fraction, a root or a command with that role. -/
theorem cases_of_ofWord? {name : Text} (isRole : Role.ofWord? name = some role) :
    Command.isFraction name = true ∧ role = .fraction ∨
      Command.isFraction name = false ∧ Command.isRoot name = true ∧ role = .root ∨
      ∃ command, Command.named? name = some command ∧ Role.ofCommand? command = some role ∧
        Command.isFraction name = false ∧ Command.isRoot name = false := by
  rw [Role.ofWord?] at isRole
  cases isFraction : Command.isFraction name with
  | true =>
      rw [isFraction, if_pos rfl] at isRole
      exact .inl ⟨rfl, (Option.some.inj isRole).symm⟩
  | false =>
      rw [isFraction, if_neg Bool.false_ne_true] at isRole
      cases isRoot : Command.isRoot name with
      | true =>
          rw [isRoot, if_pos rfl] at isRole
          exact .inr (.inl ⟨rfl, rfl, (Option.some.inj isRole).symm⟩)
      | false =>
          rw [isRoot, if_neg Bool.false_ne_true] at isRole
          obtain ⟨command, isNamed, isRole⟩ := Option.bind_eq_some_iff.1 isRole
          exact .inr (.inr ⟨command, isNamed, isRole, rfl, rfl⟩)

/-- A command that is no structure is read as no character either, and calls nothing yet. -/
theorem of_ofCommand? {command : Command} (isRole : Role.ofCommand? command = some role) :
    role ≠ .fraction ∧ role ≠ .root ∧ role.isCharacter = false ∧
      (∀ applied, role ≠ .call applied) ∧ command ≠ .structural ∧ command ≠ .spacing := by
  cases command with
  | structural | spacing => cases isRole
  | constant target =>
      rw [Role.ofCommand?] at isRole
      split at isRole <;> cases isRole <;> exact ⟨nofun, nofun, rfl, nofun, nofun, nofun⟩
  | _ =>
      cases isRole
      exact ⟨nofun, nofun, rfl, nofun, nofun, nofun⟩

/-- A control word that has a role has a name of letters. -/
theorem all_isAlpha_of_ofWord? {name : Text} (isRole : Role.ofWord? name = some role) :
    name.all Char.isAlpha = true ∧ name ≠ [] := by
  have named {command : Command} (isNamed : Command.named? name = some command)
      (plain : command ≠ .structural) (visible : command ≠ .spacing) :
      name.all Char.isAlpha = true ∧ name ≠ [] := by
    have all : Command.table.all (fun (name, command) => command = .structural ||
        command = .spacing || name.all Char.isAlpha && !name.isEmpty) = true := by decide
    have here := List.all_eq_true.1 all _ (Command.mem_table_of_named? isNamed)
    simpa [plain, visible] using here
  obtain ⟨isFraction, -⟩ | ⟨-, isRoot, -⟩ | ⟨command, isNamed, isRole, -, -⟩ :=
    cases_of_ofWord? isRole
  · simp only [Command.isFraction, Bool.or_eq_true, decide_eq_true_eq] at isFraction
    rcases isFraction with (rfl | rfl) | rfl <;> decide
  · simp only [Command.isRoot, decide_eq_true_eq] at isRoot
    rw [isRoot]
    decide
  · obtain ⟨-, -, -, -, plain, visible⟩ := of_ofCommand? isRole
    exact named isNamed plain visible

/-- What a word with a role is and what follows it. -/
theorem exists_word {name : Text} (isRole : (word name).role? text = some role) :
    text.endsRun Char.isAlpha = true ∧ Role.ofWord? name = some role := by
  simp only [role?] at isRole
  split at isRole
  · rename_i ends
    exact ⟨ends, isRole⟩
  · cases isRole

theorem ofChar?_of_role? {c : Char} (isRole : (char c).role? text = some role) :
    Role.ofChar? c = some role := by
  simp only [role?] at isRole
  split at isRole
  · cases isRole
  · exact isRole

/-- Some roles no name and no word has. -/
theorem exists_char (isRole : glyph.role? text = some role) (isCharacter : role.isCharacter = true) :
    ∃ c, glyph = char c ∧ role.Fits c := by
  cases glyph with
  | char c => exact ⟨c, rfl, Role.fits_of_ofChar? (ofChar?_of_role? isRole)⟩
  | word name =>
      obtain ⟨-, rfl⟩ | ⟨-, -, rfl⟩ | ⟨command, -, isRole, -, -⟩ :=
        cases_of_ofWord? (exists_word isRole).2
      · cases isCharacter
      · cases isCharacter
      · rw [(of_ofCommand? isRole).2.2.1] at isCharacter
        cases isCharacter
  | _ =>
      simp only [role?] at isRole
      split at isRole <;> cases isRole
      cases isCharacter

theorem exists_command (isRole : glyph.role? text = some role) (isCommand : role.isCommand = true) :
    ∃ name, glyph = word name := by
  cases glyph with
  | char c =>
      have fits := Role.fits_of_ofChar? (ofChar?_of_role? isRole)
      cases role with
      | value => exact fits.elim
      | _ => first | exact fits.elim | cases isCommand
  | word name => exact ⟨name, rfl⟩
  | _ =>
      simp only [role?] at isRole
      split at isRole <;> cases isRole
      cases isCommand

theorem eq_space (isRole : glyph.role? text = some .blank) : glyph = .char ' ' := by
  obtain ⟨c, rfl, fits⟩ := exists_char isRole rfl
  exact congrArg char fits

/-- A glyph that is no function has its role in front of any beginning of the text behind it. -/
theorem role?_of_prefix {start : Text} (isRole : glyph.role? text = some role)
    (noCall : ∀ applied, role ≠ .call applied) (isPrefix : start <+: text) :
    glyph.role? start = some role := by
  obtain ⟨after, rfl⟩ := isPrefix
  have ends {accept : Char → Bool} (ends : (start ++ after).endsRun accept = true) :
      start.endsRun accept = true := by
    cases start with
    | nil => rfl
    | cons c start => exact ends
  cases glyph with
  | char c =>
      simp only [role?] at isRole ⊢
      split at isRole
      · cases isRole
      · rename_i none
        rw [if_neg fun begins => none (Text.beginsName_of_prefix ⟨after, rfl⟩ begins)]
        exact isRole
  | call callable =>
      simp only [role?] at isRole
      split at isRole <;> cases isRole
      exact absurd rfl (noCall _)
  | value name =>
      simp only [role?] at isRole ⊢
      split at isRole <;> cases isRole
      rename_i allowed
      exact if_pos ⟨allowed.1, ends allowed.2⟩
  | word name =>
      obtain ⟨isEnd, isWord⟩ := exists_word isRole
      exact (if_pos (ends isEnd)).trans isWord

end Glyph

end TexCalc

import TexCalc.Proofs.Legible.Glyph
import TexCalc.Proofs.Nesting.Groups
import TexCalc.Proofs.Tex.Groups
import TexCalc.Proofs.Text.Neutral
import TexCalc.Proofs.Text.Trimming

/-!
# Texts that follow a grammar

A grammar says which glyph may follow which.  What the last glyphs were is remembered as a mode, and
what a bracket goes on with when it is closed is kept in a frame until then.  A text follows a
grammar when its glyphs move from mode to mode and all brackets are closed in the end.

The group that a bracket opens is the one that a reader of groups finds, and the text inside it
follows the grammar by itself.  Conversely a text that follows the grammar can be put in brackets.
A text that follows one grammar follows another one that allows as much in every mode.

On the way the occurrences of one letter are counted that stand for themselves, as opposed to the
letters of names.
-/

namespace TexCalc

/-- What is not allowed in a part of a formula. -/
structure Limits where
  /-- The part is copied as it is written, so that no function in it finds its argument. -/
  copied : Bool := false
  /-- The part belongs to a logarithm with a base, so that no base in it is found. -/
  based : Bool := false
  deriving DecidableEq, Repr

/-- What stands between a function and the argument that it waits for. -/
inductive Chain where
  /-- Neither an exponent nor a base. -/
  | alone
  | raised
  | based
  deriving DecidableEq, Repr

/-- What the last glyphs were. -/
inductive Mode where
  /-- Nothing is expected. -/
  | idle
  /-- An exponent is expected. -/
  | exponent
  /-- The exponent was Euler's number. -/
  | euler
  /-- A function was named, and its argument, an exponent or a base is expected. -/
  | function (isLog : Bool) (chain : Chain)
  /-- The argument of a function is expected, behind its exponent or its base. -/
  | operand (chain : Chain)
  /-- The argument of a function is expected, behind its sign. -/
  | signed (chain : Chain)
  /-- The exponent of a function is expected. -/
  | script
  /-- The base of a logarithm is expected. -/
  | base
  /-- The argument of a function begins with a numeral. -/
  | numeral
  /-- The argument of a function is a letter, perhaps with an exponent. -/
  | atom
  /-- The exponent of that letter is expected. -/
  | atomExponent
  /-- An argument of a fraction or root is expected, and perhaps one more. -/
  | arguments (more : Bool) (chain : Chain)
  /-- The index or the radicand of a root is expected. -/
  | radicand (chain : Chain)
  deriving DecidableEq, Repr

/-- A bracket that is open, and how to go on when it is closed. -/
structure Frame where
  bracket : Bracket
  resume : Mode
  limits : Limits
  deriving DecidableEq, Repr

/-- The mode at some place of a text, and the brackets that are open there, the last one first. -/
structure State where
  mode : Mode
  limits : Limits
  frames : List Frame
  deriving DecidableEq, Repr

namespace Role

def isBracket : Role → Bool
  | opens _ | closes _ => true
  | _ => false

end Role

/-- Which glyphs may follow each other.  Blanks change nothing, and a group behind the name of a
function is welcome. -/
structure Grammar where
  /-- Whether a text or a group may end. -/
  closes : Mode → Bool
  /-- The mode behind a glyph that is no bracket. -/
  next : Mode → Limits → Role → Option Mode
  /-- The mode behind a group, and the limits inside it. -/
  opens : Mode → Limits → Bracket → Option (Mode × Limits)
  next_blank : ∀ mode limits, next mode limits .blank = some mode
  next_applied : ∀ {mode limits behind}, next mode limits (.call false) = some behind →
    next mode limits (.call true) = some behind

namespace Grammar

/-- The state behind a glyph. -/
def step (grammar : Grammar) (state : State) : Role → Option State
  | .opens bracket =>
      (grammar.opens state.mode state.limits bracket).map fun (resume, inner) =>
        ⟨.idle, inner, ⟨bracket, resume, state.limits⟩ :: state.frames⟩
  | .closes bracket =>
      match state.frames with
      | [] => none
      | frame :: frames =>
          if frame.bracket = bracket ∧ grammar.closes state.mode = true then
            some ⟨frame.resume, frame.limits, frames⟩
          else none
  | role => (grammar.next state.mode state.limits role).map fun mode => { state with mode }

variable {grammar : Grammar} {mode : Mode} {limits : Limits} {frames : List Frame} {next : State}

theorem step_of_plain {role : Role} (plain : role.isBracket = false) (state : State) :
    grammar.step state role =
      (grammar.next state.mode state.limits role).map fun mode => { state with mode } := by
  cases role with
  | opens => cases plain
  | closes => cases plain
  | _ => rfl

/-- A glyph that is no bracket leaves the open brackets alone. -/
theorem exists_of_step {role : Role} (plain : role.isBracket = false)
    (moves : grammar.step ⟨mode, limits, frames⟩ role = some next) :
    ∃ mode', grammar.next mode limits role = some mode' ∧ next = ⟨mode', limits, frames⟩ := by
  rw [step_of_plain plain] at moves
  obtain ⟨mode', isNext, rfl⟩ := Option.map_eq_some_iff.1 moves
  exact ⟨mode', isNext, rfl⟩

theorem step_of_next {role : Role} {mode' : Mode} (plain : role.isBracket = false)
    (isNext : grammar.next mode limits role = some mode') (frames : List Frame) :
    grammar.step ⟨mode, limits, frames⟩ role = some ⟨mode', limits, frames⟩ := by
  rw [step_of_plain plain, isNext]
  rfl

theorem exists_of_step_opens {bracket : Bracket}
    (moves : grammar.step ⟨mode, limits, frames⟩ (.opens bracket) = some next) :
    ∃ resume inner, grammar.opens mode limits bracket = some (resume, inner) ∧
      next = ⟨.idle, inner, ⟨bracket, resume, limits⟩ :: frames⟩ := by
  obtain ⟨⟨resume, inner⟩, opens, rfl⟩ := Option.map_eq_some_iff.1 moves
  exact ⟨resume, inner, opens, rfl⟩

theorem exists_of_step_closes {bracket : Bracket}
    (moves : grammar.step ⟨mode, limits, frames⟩ (.closes bracket) = some next) :
    ∃ frame below, frames = frame :: below ∧ frame.bracket = bracket ∧
      grammar.closes mode = true ∧ next = ⟨frame.resume, frame.limits, below⟩ := by
  cases frames with
  | nil => cases moves
  | cons frame below =>
      simp only [step] at moves
      split at moves
      · rename_i closed
        cases moves
        exact ⟨frame, below, rfl, closed.1, closed.2, rfl⟩
      · cases moves

theorem step_closes {frame : Frame} (closes : grammar.closes mode = true) (below : List Frame) :
    grammar.step ⟨mode, limits, frame :: below⟩ (.closes frame.bracket) =
      some ⟨frame.resume, frame.limits, below⟩ := by
  simp [step, closes]

/-- A grammar that allows as much as another one moves as that one does. -/
theorem step_of_step {new : Grammar} {state : State} {role : Role}
    (closes : ∀ mode, grammar.closes mode = true → new.closes mode = true)
    (opens : ∀ mode limits bracket, new.opens mode limits bracket = grammar.opens mode limits bracket)
    (isNext : ∀ mode, grammar.next state.mode state.limits role = some mode →
      new.next state.mode state.limits role = some mode)
    (moves : grammar.step state role = some next) : new.step state role = some next := by
  cases isBracket : role.isBracket with
  | false =>
      obtain ⟨mode, found, rfl⟩ := exists_of_step isBracket moves
      exact step_of_next isBracket (isNext mode found) state.frames
  | true =>
      cases role with
      | «opens» bracket => rwa [step, opens]
      | closes bracket =>
          obtain ⟨frame, below, isFrames, rfl, closed, rfl⟩ := exists_of_step_closes moves
          obtain ⟨mode, limits, frames⟩ := state
          cases isFrames
          exact step_closes (closes _ closed) below
      | _ => cases isBracket

end Grammar

namespace Text

/-- A text follows a grammar from some state on, with at most the given number of occurrences of a
letter that stand for themselves. -/
inductive Follows (grammar : Grammar) (letter : Char) : State → Nat → Text → Prop where
  | done {mode : Mode} {limits : Limits} (count : Nat) (closes : grammar.closes mode = true) :
      Follows grammar letter ⟨mode, limits, []⟩ count []
  | glyph {state next : State} {glyph : Glyph} {rest : Text} {role : Role} {count : Nat}
      (isRole : glyph.role? rest = some role) (moves : grammar.step state role = some next)
      (later : Follows grammar letter next count rest) :
      Follows grammar letter state (glyph.weight letter + count) (glyph.source ++ rest)

end Text

/-! ## Characters and their roles -/

theorem Role.ofChar?_opener (bracket : Bracket) :
    ofChar? bracket.opener = some (.opens bracket) := by
  cases bracket <;> rfl

theorem Role.ofChar?_closer (bracket : Bracket) :
    ofChar? bracket.closer = some (.closes bracket) := by
  cases bracket <;> rfl

theorem Role.eq_space_of_isBlank {c : Char} {role : Role} (blank : isBlank c = true)
    (isRole : ofChar? c = some role) : c = ' ' := by
  have visible {d : Char} (other : isBlank d = false) : c ≠ d := by
    rintro rfl
    rw [other] at blank
    cases blank
  have noWord {word : Prop} (isWord : c.isAlphanum = true) : word := by
    rw [isBlank_eq_false_of_isAlphanum isWord] at blank
    cases blank
  have fits := fits_of_ofChar? isRole
  cases role with
  | blank => exact fits
  | letter => exact noWord (by simp [Char.isAlphanum, show c.isAlpha = true from fits])
  | digit => exact noWord (by simp [Char.isAlphanum, show c.isDigit = true from fits])
  | sign => exact absurd fits (not_or.2 ⟨visible (by decide), visible (by decide)⟩)
  | mark =>
      exact absurd fits
        (not_or.2 ⟨visible (by decide), not_or.2 ⟨visible (by decide), visible (by decide)⟩⟩)
  | «opens» bracket | closes bracket => cases bracket <;> exact absurd fits (visible (by decide))
  | caret | underscore | point | euler => exact absurd fits (visible (by decide))
  | _ => exact fits.elim

theorem Text.beginsName_of_not_isAlpha {c : Char} (noLetter : c.isAlpha = false) (rest : Text) :
    beginsName (c :: rest) = false := by
  rw [beginsName, List.head?_cons, Option.any_some, noLetter, Bool.false_and, Bool.or_false,
    Bool.eq_false_iff]
  intro spelled
  obtain ⟨entry, _, here⟩ := List.any_eq_true.1 spelled
  obtain ⟨after, whole⟩ := of_decide_eq_true here
  have valid := entry.name.isName
  cases spelled : entry.name.text with
  | nil => exact entry.name.text_ne_nil spelled
  | cons d text =>
      rw [spelled, isName, Bool.and_eq_true] at valid
      rw [spelled] at whole
      obtain ⟨rfl, _⟩ := List.cons.inj whole
      rw [noLetter] at valid
      exact absurd valid.1 (by decide)

theorem Text.endsRun_closer (bracket : Bracket) (rest : Text) :
    endsRun Text.isNameChar (bracket.closer :: rest) = true := by
  cases bracket <;> rfl

theorem Text.isApplied_closer (bracket : Bracket) (rest : Text) :
    isApplied (bracket.closer :: rest) = false := by
  cases bracket <;> rfl

namespace Glyph

variable {glyph : Glyph} {c : Char} {rest text : Text} {role : Role}

/-- The first character of a glyph is the glyph, unless it begins a name or a control word. -/
theorem eq_char_of_source {after : Text} (isRole : glyph.role? after = some role)
    (same : glyph.source ++ after = c :: rest) (noLetter : c.isAlpha = false)
    (noMark : c ≠ Parked.mark) (noBack : c ≠ '\\') :
    glyph = .char c ∧ after = rest := by
  have ofName {name : Name} (whole : name.text ++ after = c :: rest) : False := by
    have valid := name.isName
    cases spelled : name.text with
    | nil => exact name.text_ne_nil spelled
    | cons d text =>
        rw [spelled] at valid whole
        obtain ⟨rfl, _⟩ := List.cons.inj whole
        rw [Text.isName, noLetter] at valid
        cases valid
  cases glyph with
  | char d =>
      obtain ⟨rfl, rfl⟩ := List.cons.inj same
      exact ⟨rfl, rfl⟩
  | call callable =>
      cases callable with
      | function name => exact (ofName same).elim
      | parked waiting => exact absurd (List.cons.inj same).1.symm noMark
  | value name => exact (ofName same).elim
  | word name => exact absurd (List.cons.inj same).1.symm noBack

theorem weight_of_not_isAlpha (letter : Char) (noLetter : c.isAlpha = false) :
    (Glyph.char c).weight letter = 0 := by
  simp [weight, noLetter]

theorem role?_of_not_isAlpha (noLetter : c.isAlpha = false) (rest : Text) :
    (Glyph.char c).role? rest = Role.ofChar? c := by
  rw [role?, Text.beginsName_of_not_isAlpha noLetter]
  rfl

end Glyph

namespace Text

namespace Follows

variable {grammar : Grammar} {letter : Char} {mode : Mode} {limits : Limits} {frames : List Frame}
  {state next : State} {count : Nat} {text rest : Text} {c : Char}

theorem mono_count (follows : Follows grammar letter state count text) {more : Nat}
    (le : count ≤ more) : Follows grammar letter state more text := by
  induction follows generalizing more with
  | done _ closes => exact .done more closes
  | @glyph _ _ glyph _ _ count isRole moves _ ih =>
      obtain ⟨rest, rfl⟩ := Nat.exists_eq_add_of_le (Nat.le_trans (Nat.le_add_right _ _) le)
      exact .glyph isRole moves (ih (by omega))

/-- The first glyph of a text. -/
theorem exists_glyph (follows : Follows grammar letter state count text) (nonempty : text ≠ []) :
    ∃ (glyph : Glyph) (rest : Text) (role : Role) (next : State) (later : Nat),
      text = glyph.source ++ rest ∧ glyph.role? rest = some role ∧
        grammar.step state role = some next ∧ count = glyph.weight letter + later ∧
          Follows grammar letter next later rest := by
  cases follows with
  | done => exact absurd rfl nonempty
  | glyph isRole moves later => exact ⟨_, _, _, _, _, rfl, isRole, moves, rfl, later⟩

/-- A text that has come to its end may end. -/
theorem of_nil (follows : Follows grammar letter ⟨mode, limits, frames⟩ count []) :
    grammar.closes mode = true ∧ frames = [] := by
  generalize isText : ([] : Text) = text at follows
  cases follows with
  | done _ closes => exact ⟨closes, rfl⟩
  | glyph isRole => exact absurd (List.append_eq_nil_iff.1 isText.symm).1 (Glyph.source_ne_nil isRole)

/-- A character that begins neither a name nor a control word. -/
theorem exists_char (follows : Follows grammar letter state count (c :: rest))
    (noLetter : c.isAlpha = false) (noMark : c ≠ Parked.mark) (noBack : c ≠ '\\') :
    ∃ role next, Role.ofChar? c = some role ∧ grammar.step state role = some next ∧
      Follows grammar letter next count rest := by
  obtain ⟨glyph, after, role, next, later, same, isRole, moves, rfl, behind⟩ :=
    follows.exists_glyph (List.cons_ne_nil c rest)
  obtain ⟨rfl, rfl⟩ := Glyph.eq_char_of_source isRole same.symm noLetter noMark noBack
  rw [Glyph.role?_of_not_isAlpha noLetter] at isRole
  rw [Glyph.weight_of_not_isAlpha letter noLetter, Nat.zero_add]
  exact ⟨role, next, isRole, moves, behind⟩

/-- A character in front of a text. -/
theorem cons {role : Role} (noLetter : c.isAlpha = false) (isRole : Role.ofChar? c = some role)
    (moves : grammar.step state role = some next)
    (later : Follows grammar letter next count rest) :
    Follows grammar letter state count (c :: rest) := by
  have whole : Follows grammar letter state ((Glyph.char c).weight letter + count) (c :: rest) :=
    .glyph ((Glyph.role?_of_not_isAlpha noLetter rest).trans isRole) moves later
  rwa [Glyph.weight_of_not_isAlpha letter noLetter, Nat.zero_add] at whole

/-- Another text may stand behind a glyph, if it stands for the old one. -/
theorem glyph_of_standsFor {glyph : Glyph} {new old : Text} {role : Role}
    (isRole : glyph.role? old = some role) (moves : grammar.step state role = some next)
    (later : Follows grammar letter next count new) (standsFor : new.StandsFor old) :
    Follows grammar letter state (glyph.weight letter + count) (glyph.source ++ new) := by
  obtain ⟨role', isRole', rfl | ⟨rfl, rfl⟩⟩ := Glyph.exists_role?_of_standsFor standsFor isRole
  · exact .glyph isRole' moves later
  · obtain ⟨mode, isNext, rfl⟩ := Grammar.exists_of_step rfl moves
    exact .glyph isRole' (Grammar.step_of_next rfl (grammar.next_applied isNext) _) later

/-! ### Blanks -/

theorem step_blank (grammar : Grammar) (state : State) :
    grammar.step state .blank = some state := by
  rw [Grammar.step_of_plain rfl, grammar.next_blank]
  rfl

theorem of_blank (follows : Follows grammar letter state count (' ' :: rest)) :
    Follows grammar letter state count rest := by
  obtain ⟨role, next, isRole, moves, later⟩ :=
    follows.exists_char (by decide) (by decide) (by decide)
  cases isRole
  rw [step_blank] at moves
  cases moves
  exact later

theorem blank_cons (later : Follows grammar letter state count rest) :
    Follows grammar letter state count (' ' :: rest) :=
  later.cons (by decide) rfl (step_blank grammar state)

/-- The only blank in a text that follows a grammar is the space. -/
theorem eq_space (follows : Follows grammar letter state count (c :: rest))
    (blank : isBlank c = true) : c = ' ' := by
  have visible {d : Char} (other : isBlank d = false) : c ≠ d := by
    rintro rfl
    rw [other] at blank
    cases blank
  obtain ⟨role, _, isRole, _⟩ := follows.exists_char (isAlpha_eq_false_of_isBlank blank)
    (visible (by decide)) (visible (by decide))
  exact Role.eq_space_of_isBlank blank isRole

theorem dropWhile_blank {accept : Char → Bool} (blank : ∀ c, accept c = true → isBlank c = true)
    (follows : Follows grammar letter state count text) :
    Follows grammar letter state count (text.dropWhile accept) := by
  induction text with
  | nil => exact follows
  | cons c rest ih =>
      rw [List.dropWhile_cons]
      split
      · rename_i accepted
        have space := follows.eq_space (blank c accepted)
        subst space
        exact ih follows.of_blank
      · exact follows

theorem skipBlanks (follows : Follows grammar letter state count text) :
    Follows grammar letter state count text.skipBlanks :=
  follows.dropWhile_blank fun _ => isBlank_of_isAsciiBlank

theorem trimStart (follows : Follows grammar letter state count text) :
    Follows grammar letter state count text.trimStart :=
  follows.dropWhile_blank fun _ blank => blank

theorem blanks_append {blanks : Text} (all : blanks.all (· == ' ') = true)
    (later : Follows grammar letter state count rest) :
    Follows grammar letter state count (blanks ++ rest) := by
  induction blanks with
  | nil => exact later
  | cons c blanks ih =>
      rw [List.all_cons, Bool.and_eq_true, beq_iff_eq] at all
      rw [all.1]
      exact (ih all.2).blank_cons

end Follows

end Text

/-! ## Groups -/

namespace Glyph

variable {glyph : Glyph} {rest : Text} {role : Role}

theorem isPlain_of_ofChar? {c : Char} (isRole : Role.ofChar? c = some role)
    (plain : role.isBracket = false) : Text.isMarkup c = false := by
  rw [Bool.eq_false_iff]
  intro markup
  simp only [Text.isMarkup, decide_eq_true_eq, List.mem_cons, List.not_mem_nil, or_false] at markup
  rcases markup with rfl | rfl | rfl | rfl | rfl | rfl | rfl <;> cases isRole <;> cases plain

theorem isNeutral_name (name : Name) : name.text.IsNeutral :=
  Text.IsNeutral.of_all (by decide) name.all_isAlphanum

theorem isNeutral_callable (callable : Callable) : callable.text.IsNeutral := by
  cases callable with
  | function name => exact isNeutral_name name
  | parked waiting =>
      rcases waiting with ⟨function, inverse⟩
      cases function <;> cases inverse <;> exact .of_plain (by decide)

/-- A reader of groups passes over every glyph that is no bracket. -/
theorem groupFrom?_source (isRole : glyph.role? rest = some role) (plain : role.isBracket = false)
    (bracket : Bracket) (depth : Nat) :
    bracket.groupFrom? depth (glyph.source ++ rest) =
      (bracket.groupFrom? depth rest).map (Group.extend glyph.source) := by
  cases glyph with
  | char c =>
      exact Text.IsNeutral.cons (isPlain_of_ofChar? (ofChar?_of_role? isRole) plain) .nil
        bracket depth rest
  | call callable => exact isNeutral_callable callable bracket depth rest
  | value name => exact isNeutral_name name bracket depth rest
  | word name =>
      obtain ⟨letters, nonempty⟩ := all_isAlpha_of_ofWord? (exists_word isRole).2
      exact Bracket.groupFrom?_control (.inl ⟨nonempty, letters⟩) bracket depth rest

/-- A glyph that is a bracket is a character. -/
theorem eq_char_of_isBracket (isRole : glyph.role? rest = some role)
    (isBracket : role.isBracket = true) :
    (∃ bracket, role = .opens bracket ∧ glyph = .char bracket.opener) ∨
      ∃ bracket, role = .closes bracket ∧ glyph = .char bracket.closer := by
  obtain ⟨c, rfl, fits⟩ := exists_char isRole (by cases role <;> first | rfl | cases isBracket)
  cases role with
  | «opens» bracket => exact .inl ⟨bracket, rfl, congrArg char fits⟩
  | closes bracket => exact .inr ⟨bracket, rfl, congrArg char fits⟩
  | _ => cases isBracket

/-- Only the first character of a glyph may be a blank. -/
theorem isBlank_eq_false_of_source {c d : Char} {front behind : Text}
    (isRole : glyph.role? rest = some role) (isSource : glyph.source = c :: front ++ d :: behind) :
    isBlank d = false := by
  have ofName {name : Name} (same : name.text = c :: front ++ d :: behind) :
      isBlank d = false := by
    apply isBlank_eq_false_of_isAlphanum
    apply List.all_eq_true.1 name.all_isAlphanum
    rw [same]
    exact List.mem_append_right _ List.mem_cons_self
  cases glyph with
  | char e => simp [source] at isSource
  | call callable =>
      cases callable with
      | function name => exact ofName isSource
      | parked waiting =>
          have letters : (waiting.name.drop 1).all (!isBlank ·) = true := by
            rcases waiting with ⟨function, inverse⟩
            cases function <;> cases inverse <;> decide
          rw [show waiting.name = c :: front ++ d :: behind from isSource, List.cons_append,
            List.drop_succ_cons, List.drop_zero] at letters
          simpa using List.all_eq_true.1 letters d (List.mem_append_right _ List.mem_cons_self)
  | value name => exact ofName isSource
  | word name =>
      apply isBlank_eq_false_of_isAlphanum
      have letter := List.all_eq_true.1 (all_isAlpha_of_ofWord? (exists_word isRole).2).1 d (by
        rw [(List.cons.inj isSource).2]
        exact List.mem_append_right _ List.mem_cons_self)
      simp [Char.isAlphanum, letter]

theorem weight_bracket (letter : Char) (bracket : Bracket) :
    (Glyph.char bracket.opener).weight letter = 0 ∧
      (Glyph.char bracket.closer).weight letter = 0 := by
  cases bracket <;> exact ⟨weight_of_not_isAlpha letter (by decide),
    weight_of_not_isAlpha letter (by decide)⟩

end Glyph

namespace Text

namespace Follows

variable {grammar : Grammar} {letter : Char} {mode : Mode} {limits inner : Limits}
  {frames above below : List Frame} {frame : Frame} {state : State} {count first second : Nat}
  {text rest : Text}

/-- The group that an open bracket began some way back, other brackets being open in it. -/
theorem exists_groupFrom?
    (follows : Follows grammar letter ⟨mode, limits, above ++ frame :: below⟩ count text) :
    ∃ group first second,
      frame.bracket.groupFrom? (above.countP (·.bracket = frame.bracket)) text = some group ∧
        first + second = count ∧ Follows grammar letter ⟨mode, limits, above⟩ first group.inside ∧
          Follows grammar letter ⟨frame.resume, frame.limits, below⟩ second group.rest := by
  generalize isState : (⟨mode, limits, above ++ frame :: below⟩ : State) = state at follows
  induction follows generalizing mode limits above with
  | done => simp at isState
  | @glyph state next glyph rest role later isRole moves follows ih =>
      subst isState
      cases isBracket : role.isBracket with
      | false =>
          obtain ⟨mode', isNext, rfl⟩ := Grammar.exists_of_step isBracket moves
          obtain ⟨group, first, second, found, rfl, isInside, isRest⟩ := ih rfl
          refine ⟨group.extend glyph.source, glyph.weight letter + first, second, ?_, by omega, ?_,
            isRest⟩
          · rw [Glyph.groupFrom?_source isRole isBracket, found, Option.map_some]
          · refine .glyph ?_ (Grammar.step_of_next isBracket isNext above) isInside
            rw [← isRole, Bracket.eq_of_groupFrom? found]
            exact (Glyph.role?_append (endsRun_closer _ _) (isApplied_closer _ _)).symm
      | true =>
          rcases Glyph.eq_char_of_isBracket isRole isBracket with
            ⟨bracket, rfl, rfl⟩ | ⟨bracket, rfl, rfl⟩
          · obtain ⟨resume, inner, opens, rfl⟩ := Grammar.exists_of_step_opens moves
            obtain ⟨group, first, second, found, rfl, isInside, isRest⟩ :=
              @ih _ _ (⟨bracket, resume, limits⟩ :: above) rfl
            have enclosed : Follows grammar letter ⟨mode, limits, above⟩ first
                (bracket.opener :: group.inside) := by
              refine isInside.cons (by cases bracket <;> decide) (Role.ofChar?_opener bracket) ?_
              rw [Grammar.step, opens]
              rfl
            rw [List.countP_cons] at found
            exact ⟨group.extend [bracket.opener], first, second,
              (Bracket.groupFrom?_opener (.bracket bracket)).trans
                (congrArg (Option.map (Group.extend [bracket.opener])) found),
              by rw [(Glyph.weight_bracket letter bracket).1, Nat.zero_add], enclosed, isRest⟩
          · obtain ⟨popped, left, isFrames, rfl, closes, rfl⟩ :=
              Grammar.exists_of_step_closes moves
            rw [(Glyph.weight_bracket letter popped.bracket).2, Nat.zero_add]
            cases above with
            | nil =>
                obtain ⟨rfl, rfl⟩ := List.cons.inj isFrames
                refine ⟨⟨[], rest⟩, 0, later, ?_, Nat.zero_add later, .done 0 closes, follows⟩
                rw [List.countP_nil, Glyph.source, List.singleton_append]
                cases frame.bracket <;> rfl
            | cons top above =>
                obtain ⟨rfl, rfl⟩ := List.cons.inj isFrames
                obtain ⟨group, first, second, found, rfl, isInside, isRest⟩ := ih rfl
                have enclosed : Follows grammar letter ⟨mode, limits, top :: above⟩ first
                    (top.bracket.closer :: group.inside) :=
                  isInside.cons (by cases top.bracket <;> decide)
                    (Role.ofChar?_closer top.bracket) (Grammar.step_closes closes above)
                rw [List.countP_cons]
                exact ⟨group.extend [top.bracket.closer], first, second,
                  (Bracket.groupFrom?_closer (.bracket top.bracket)).trans
                    (congrArg (Option.map (Group.extend [top.bracket.closer])) found),
                  rfl, enclosed, isRest⟩

/-- The group that a bracket begins. -/
theorem exists_group {bracket : Bracket}
    (follows : Follows grammar letter ⟨mode, limits, frames⟩ count (bracket.opener :: text)) :
    ∃ resume inner group first second, grammar.opens mode limits bracket = some (resume, inner) ∧
      bracket.group? text = some group ∧ first + second = count ∧
        Follows grammar letter ⟨.idle, inner, []⟩ first group.inside ∧
          Follows grammar letter ⟨resume, limits, frames⟩ second group.rest := by
  obtain ⟨role, next, isRole, moves, later⟩ := follows.exists_char (by cases bracket <;> decide)
    (by cases bracket <;> decide) (by cases bracket <;> decide)
  rw [Role.ofChar?_opener] at isRole
  cases isRole
  obtain ⟨resume, inner, opens, rfl⟩ := Grammar.exists_of_step_opens moves
  obtain ⟨group, first, second, found, isSum, isInside, isRest⟩ :=
    exists_groupFrom? (show Follows _ _ ⟨_, _, [] ++ _⟩ _ _ from later)
  exact ⟨resume, inner, group, first, second, opens, found, isSum, isInside, isRest⟩

/-- What stands at the start of a text: nothing, the bracket that closes a group, a group, or a glyph
that is no bracket. -/
inductive Starts (grammar : Grammar) (letter : Char) (mode : Mode) (limits : Limits) :
    List Frame → Nat → Text → Prop where
  | done (count : Nat) (closes : grammar.closes mode = true) :
      Starts grammar letter mode limits [] count []
  | closer {frame : Frame} {below : List Frame} {count : Nat} {rest : Text}
      (closes : grammar.closes mode = true)
      (isRest : Follows grammar letter ⟨frame.resume, frame.limits, below⟩ count rest) :
      Starts grammar letter mode limits (frame :: below) count (frame.bracket.closer :: rest)
  | group {bracket : Bracket} {resume : Mode} {inner : Limits} {rest : Text} {group : Group}
      {frames : List Frame} {first second : Nat}
      (opens : grammar.opens mode limits bracket = some (resume, inner))
      (found : bracket.group? rest = some group)
      (isInside : Follows grammar letter ⟨.idle, inner, []⟩ first group.inside)
      (isRest : Follows grammar letter ⟨resume, limits, frames⟩ second group.rest) :
      Starts grammar letter mode limits frames (first + second) (bracket.opener :: rest)
  | glyph {glyph : Glyph} {role : Role} {behind : Mode} {rest : Text} {frames : List Frame}
      {count : Nat} (isRole : glyph.role? rest = some role) (plain : role.isBracket = false)
      (isNext : grammar.next mode limits role = some behind)
      (isRest : Follows grammar letter ⟨behind, limits, frames⟩ count rest) :
      Starts grammar letter mode limits frames (glyph.weight letter + count) (glyph.source ++ rest)

theorem starts (follows : Follows grammar letter ⟨mode, limits, frames⟩ count text) :
    Starts grammar letter mode limits frames count text := by
  generalize isState : (⟨mode, limits, frames⟩ : State) = state at follows
  have whole := follows
  cases follows with
  | done count closes =>
      cases isState
      exact .done count closes
  | @glyph _ next glyph rest role count isRole moves later =>
      subst isState
      cases isBracket : role.isBracket with
      | false =>
          obtain ⟨behind, isNext, rfl⟩ := Grammar.exists_of_step isBracket moves
          exact .glyph isRole isBracket isNext later
      | true =>
          rcases Glyph.eq_char_of_isBracket isRole isBracket with
            ⟨bracket, rfl, rfl⟩ | ⟨bracket, rfl, rfl⟩
          · obtain ⟨resume, inner, group, first, second, opens, found, isSum, isInside, isRest⟩ :=
              exists_group whole
            exact isSum ▸ .group opens found isInside isRest
          · obtain ⟨frame, below, rfl, rfl, closes, rfl⟩ := Grammar.exists_of_step_closes moves
            rw [(Glyph.weight_bracket letter frame.bracket).2, Nat.zero_add]
            exact .closer closes later

/-- Behind the blanks no blank stands. -/
theorem ne_blank_of_skipBlanks {glyph : Glyph} {role : Role}
    (start : text.skipBlanks = glyph.source ++ rest) (isRole : glyph.role? rest = some role) :
    role ≠ .blank := by
  rintro rfl
  obtain rfl := Glyph.eq_space isRole
  exact absurd (not_isAsciiBlank_of_skipBlanks start) (by decide)

/-! ### Texts in brackets -/

/-- A text in front of the bracket that closes it. -/
theorem closer_append (follows : Follows grammar letter ⟨mode, limits, above⟩ first text)
    (later : Follows grammar letter ⟨frame.resume, frame.limits, below⟩ second rest) :
    Follows grammar letter ⟨mode, limits, above ++ frame :: below⟩ (first + second)
      (text ++ frame.bracket.closer :: rest) := by
  generalize isState : (⟨mode, limits, above⟩ : State) = state at follows
  induction follows generalizing mode limits above with
  | done count closes =>
      cases isState
      refine (later.mono_count (Nat.le_add_left second count)).cons
        (by cases frame.bracket <;> decide) (Role.ofChar?_closer frame.bracket) ?_
      exact Grammar.step_closes closes below
  | @glyph state next glyph text role count isRole moves _ ih =>
      subst isState
      rw [List.append_assoc, Nat.add_assoc]
      have isRole' : glyph.role? (text ++ frame.bracket.closer :: rest) = some role :=
        (Glyph.role?_append (endsRun_closer _ _) (isApplied_closer _ _)).trans isRole
      cases isBracket : role.isBracket with
      | false =>
          obtain ⟨mode', isNext, rfl⟩ := Grammar.exists_of_step isBracket moves
          exact .glyph isRole' (Grammar.step_of_next isBracket isNext _) (ih rfl)
      | true =>
          rcases Glyph.eq_char_of_isBracket isRole isBracket with
            ⟨bracket, rfl, rfl⟩ | ⟨bracket, rfl, rfl⟩
          · obtain ⟨resume, inner, opens, rfl⟩ := Grammar.exists_of_step_opens moves
            refine .glyph isRole' ?_ (@ih _ _ (⟨bracket, resume, limits⟩ :: above) rfl)
            rw [Grammar.step, opens]
            rfl
          · obtain ⟨popped, left, rfl, rfl, closes, rfl⟩ := Grammar.exists_of_step_closes moves
            exact .glyph isRole' (Grammar.step_closes closes _) (ih rfl)

/-- A text in brackets. -/
theorem enclosed_append {bracket : Bracket} {resume : Mode}
    (opens : grammar.opens mode limits bracket = some (resume, inner))
    (follows : Follows grammar letter ⟨.idle, inner, []⟩ first text)
    (later : Follows grammar letter ⟨resume, limits, frames⟩ second rest) :
    Follows grammar letter ⟨mode, limits, frames⟩ (first + second)
      (bracket.opener :: (text ++ bracket.closer :: rest)) := by
  have closed : Follows grammar letter ⟨.idle, inner, ⟨bracket, resume, limits⟩ :: frames⟩
      (first + second) (text ++ bracket.closer :: rest) := follows.closer_append later
  refine closed.cons (by cases bracket <;> decide) (Role.ofChar?_opener bracket) ?_
  rw [Grammar.step, opens]
  rfl

theorem parenthesized_append {resume : Mode}
    (opens : grammar.opens mode limits .round = some (resume, inner))
    (follows : Follows grammar letter ⟨.idle, inner, []⟩ first text)
    (later : Follows grammar letter ⟨resume, limits, frames⟩ second rest) :
    Follows grammar letter ⟨mode, limits, frames⟩ (first + second)
      (text.parenthesized ++ rest) := by
  rw [Text.parenthesized_append]
  exact enclosed_append opens follows later

/-! ### Trimming -/

theorem isApplied_of_isAllBlank {blanks : Text} (blank : blanks.isAllBlank = true) :
    blanks.isApplied = false := by
  unfold isApplied
  cases start : blanks.skipBlanks with
  | nil => rfl
  | cons c rest =>
      have isMember : c ∈ blanks :=
        (List.dropWhile_suffix isAsciiBlank).subset (by
          rw [show blanks.dropWhile isAsciiBlank = c :: rest from start]
          exact List.mem_cons_self)
      have visible : isBlank c = true := List.all_eq_true.1 blank c isMember
      cases opens : Bracket.ofArgument? c with
      | none => rw [List.head?_cons, Option.bind_some, opens]; rfl
      | some bracket =>
          have isOpener : bracket.opener = c := by simpa using List.find?_some opens
          rw [← isOpener] at visible
          cases bracket <;> exact absurd visible (by decide)

theorem of_blanks_append {blanks : Text} (blank : blanks.isAllBlank = true)
    (follows : Follows grammar letter state count (blanks ++ text)) :
    Follows grammar letter state count text := by
  induction blanks with
  | nil => exact follows
  | cons c blanks ih =>
      rw [isAllBlank, List.all_cons, Bool.and_eq_true] at blank
      have space := follows.eq_space blank.1
      subst space
      exact ih blank.2 follows.of_blank

/-- Blanks at the end of a text are left out. -/
theorem of_append_blanks {blanks : Text} (blank : blanks.isAllBlank = true)
    (follows : Follows grammar letter state count (text ++ blanks)) :
    Follows grammar letter state count text := by
  have ends : blanks.endsRun Text.isNameChar = true := by
    cases blanks with
    | nil => rfl
    | cons c blanks =>
        have isBlankHead := List.all_eq_true.1 blank c List.mem_cons_self
        cases isName : Text.isNameChar c with
        | false => simp [endsRun, isName]
        | true =>
            rw [Text.isNameChar, Bool.or_eq_true, beq_iff_eq] at isName
            rcases isName with word | rfl
            · rw [isBlank_eq_false_of_isAlphanum word] at isBlankHead
              cases isBlankHead
            · cases isBlankHead
  generalize whole : text ++ blanks = trailed at follows
  induction follows generalizing text with
  | done count closes =>
      obtain ⟨rfl, rfl⟩ := List.append_eq_nil_iff.1 whole
      exact .done count closes
  | @glyph state next glyph behind role count isRole moves follows ih =>
      rcases List.append_eq_append_iff.1 whole with
        ⟨excess, isSource, isBlanks⟩ | ⟨more, isText, isBehind⟩
      · cases text with
        | nil =>
            -- Only blanks are left, and they move nothing.
            rw [List.nil_append] at whole
            have all : Follows grammar letter state (glyph.weight letter + count)
                (glyph.source ++ behind) := .glyph isRole moves follows
            rw [← whole] at all
            have stripped := all.dropWhile_blank fun _ isBlankHere => isBlankHere
            rwa [dropWhile_of_all blank] at stripped
        | cons c text =>
            -- A glyph that goes on with a blank would be a name or a word.
            cases excess with
            | nil =>
                rw [List.append_nil] at isSource
                rw [List.nil_append] at isBlanks
                subst isBlanks
                rw [← isSource, ← List.append_nil glyph.source]
                refine .glyph ?_ moves (@ih [] rfl)
                rw [← isRole]
                rw [← Glyph.role?_append ends (isApplied_of_isAllBlank blank), List.nil_append]
            | cons d excess =>
                have visible := Glyph.isBlank_eq_false_of_source isRole isSource
                rw [List.all_eq_true.1 blank d (isBlanks ▸ List.mem_cons_self)] at visible
                cases visible
      · subst isText
        refine .glyph ?_ moves (ih isBehind.symm)
        rw [← isRole, isBehind]
        exact (Glyph.role?_append ends (isApplied_of_isAllBlank blank)).symm

theorem trim (follows : Follows grammar letter state count text) :
    Follows grammar letter state count text.trim := by
  obtain ⟨lead, trail, split, leadBlank, trailBlank⟩ := exists_trim_eq text
  rw [split, ← List.append_assoc] at follows
  exact (follows.of_append_blanks trailBlank).of_blanks_append leadBlank

/-- The round brackets around a wrapped text may be those that it has already. -/
theorem exists_wrap (again : grammar.opens .idle inner .round = some (.idle, inner))
    (follows : Follows grammar letter ⟨.idle, inner, []⟩ count text) :
    ∃ inside : Text, text.wrap = inside.parenthesized ∧
      Follows grammar letter ⟨.idle, inner, []⟩ count inside := by
  have trimmed := follows.trim
  unfold Text.wrap
  split
  · rename_i enclosed
    unfold isEnclosed at enclosed
    split at enclosed
    · rename_i inside start
      rw [start] at trimmed ⊢
      obtain ⟨_, _, group, first, second, opens', found, isSum, isInside, _⟩ :=
        exists_group (show Follows _ _ _ _ (Bracket.round.opener :: _) from trimmed)
      rw [again] at opens'
      cases opens'
      have isEmpty : group.rest = [] := by simpa [found] using enclosed
      refine ⟨group.inside, ?_, isInside.mono_count (by omega)⟩
      rw [Bracket.eq_of_group? found, isEmpty]
      rfl
    · cases enclosed
  · exact ⟨_, rfl, trimmed⟩

theorem wrap_append {resume : Mode} (opens : grammar.opens mode limits .round = some (resume, inner))
    (again : grammar.opens .idle inner .round = some (.idle, inner))
    (follows : Follows grammar letter ⟨.idle, inner, []⟩ first text)
    (later : Follows grammar letter ⟨resume, limits, frames⟩ second rest) :
    Follows grammar letter ⟨mode, limits, frames⟩ (first + second) (text.wrap ++ rest) := by
  obtain ⟨inside, isWrap, isInside⟩ := follows.exists_wrap again
  rw [isWrap]
  exact parenthesized_append opens isInside later

end Follows

end Text

/-! ## Other grammars -/

namespace Grammar

/-- In related modes a grammar moves on as another one does, to related modes. -/
structure Simulates (new old : Grammar) (related : Mode × Limits → Mode × Limits → Prop) :
    Prop where
  closes : ∀ {mode limits mode' limits'}, related (mode, limits) (mode', limits') →
    old.closes mode = true → new.closes mode' = true
  next : ∀ {mode limits mode' limits' role behind}, related (mode, limits) (mode', limits') →
    role.isBracket = false → old.next mode limits role = some behind →
      ∃ behind', new.next mode' limits' role = some behind' ∧
        related (behind, limits) (behind', limits')
  opens : ∀ {mode limits mode' limits' bracket resume inner},
    related (mode, limits) (mode', limits') → old.opens mode limits bracket = some (resume, inner) →
      ∃ resume' inner', new.opens mode' limits' bracket = some (resume', inner') ∧
        related (resume, limits) (resume', limits') ∧ related (.idle, inner) (.idle, inner')

/-- Frames that go on in related modes. -/
def FramesRelated (related : Mode × Limits → Mode × Limits → Prop) :
    List Frame → List Frame → Prop :=
  List.Forall₂ fun frame frame' => frame.bracket = frame'.bracket ∧
    related (frame.resume, frame.limits) (frame'.resume, frame'.limits)

end Grammar

namespace Text.Follows

variable {old new : Grammar} {letter : Char} {count : Nat} {text : Text}
  {related : Mode × Limits → Mode × Limits → Prop}

/-- A text that follows a grammar follows another one that simulates it. -/
theorem simulate (simulates : new.Simulates old related) {mode mode' : Mode}
    {limits limits' : Limits} {frames frames' : List Frame}
    (follows : Follows old letter ⟨mode, limits, frames⟩ count text)
    (isRelated : related (mode, limits) (mode', limits'))
    (areRelated : Grammar.FramesRelated related frames frames') :
    Follows new letter ⟨mode', limits', frames'⟩ count text := by
  generalize isState : (⟨mode, limits, frames⟩ : State) = state at follows
  induction follows generalizing mode limits frames mode' limits' frames' with
  | done count closes =>
      cases isState
      cases areRelated
      exact .done count (simulates.closes isRelated closes)
  | @glyph state next glyph rest role later isRole moves _ ih =>
      subst isState
      cases isBracket : role.isBracket with
      | false =>
          obtain ⟨behind, isNext, rfl⟩ := Grammar.exists_of_step isBracket moves
          obtain ⟨behind', isNext', isRelated'⟩ := simulates.next isRelated isBracket isNext
          exact .glyph isRole (Grammar.step_of_next isBracket isNext' frames')
            (ih isRelated' areRelated rfl)
      | true =>
          rcases Glyph.eq_char_of_isBracket isRole isBracket with
            ⟨bracket, rfl, rfl⟩ | ⟨bracket, rfl, rfl⟩
          · obtain ⟨resume, inner, opens, rfl⟩ := Grammar.exists_of_step_opens moves
            obtain ⟨resume', inner', opens', isResume, isInner⟩ := simulates.opens isRelated opens
            have opened : Grammar.FramesRelated related (⟨bracket, resume, limits⟩ :: frames)
                (⟨bracket, resume', limits'⟩ :: frames') := .cons ⟨rfl, isResume⟩ areRelated
            refine .glyph isRole ?_ (ih isInner opened rfl)
            rw [Grammar.step, opens']
            rfl
          · obtain ⟨popped, left, rfl, rfl, closes, rfl⟩ := Grammar.exists_of_step_closes moves
            cases areRelated with
            | cons top below =>
                rw [top.1] at isRole ⊢
                exact .glyph isRole
                  (Grammar.step_closes (simulates.closes isRelated closes) _) (ih top.2 below rfl)

end Text.Follows

end TexCalc

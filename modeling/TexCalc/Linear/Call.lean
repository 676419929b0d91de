import TexCalc.Linear.Operand

/-!
# Calls

Every function name is given its argument in parentheses.  The argument may be another
call, a signed operand, a coefficient, a run of letters, or an operand after an exponent
of the function; a group that follows a name at once is an argument already.

An application is read as a chain of layers around a core.  The core is either taken
over as it is written or, when it was a group, has its own calls completed.
-/

namespace TexCalc

/-- What an application puts around its core. -/
inductive Layer where
  | sign (c : Char)
  | brackets
  /-- A call, with the exponent to which its value is raised. -/
  | call (function : Callable) (exponent? : Option Text)
  deriving DecidableEq, Repr

namespace Layer

/-- A text with a layer around it. -/
def around : Layer → Text → Text
  | sign c, text => c :: text
  | brackets, text => text.parenthesized
  | call function none, text => function.text ++ text.parenthesized
  | call function (some exponent), text =>
      Text.parenthesized (function.text ++ text.parenthesized ++ '^' :: exponent)

end Layer

/-- A chain of layers around a core, and the text after it. -/
structure Application where
  /-- The layers, the outermost first. -/
  layers : List Layer
  core : Text
  /-- Whether the core was written as a group. -/
  grouped : Bool
  rest : Text
  deriving DecidableEq, Repr

namespace Application

/-- The same application inside one more layer. -/
def within (application : Application) (layer : Layer) : Application :=
  { application with layers := layer :: application.layers }

/-- The text in front of its ending `rest`, as a core without layers. -/
def ofPlain (text rest : Text) : Application :=
  ⟨[], text.before rest, false, rest⟩

/-- A group as a core without layers. -/
def ofGroup (group : Group) : Application :=
  ⟨[], group.inside, true, group.rest⟩

/-- The group that follows a function name as its argument. -/
def ofGroupArgument? (text : Text) : Option Application :=
  match text.skipBlanks with
  | [] => none
  | c :: rest =>
      (Bracket.ofArgument? c).bind fun bracket => (bracket.group? rest).map ofGroup

/-- Whether a signed operand needs brackets of its own. -/
def signed (sign : Char) (operand : Text) (application : Application) : Application :=
  if (operand.head?.bind Bracket.ofArgument?).isSome then
    (application.within .brackets).within (.sign sign)
  else
    application.within (.sign sign)

/-- What is read: an operand, or, after a function, its argument other than a group.
A letter that touches the function begins a run of letters, whereas after a blank it is
an operand like any other. -/
def read? (vocabulary : Vocabulary) : (function? : Option Callable) → Text →
    Option Application
  | some function, text =>
      match _start : text.skipBlanks with
      | [] => none
      | c :: rest =>
          if c = '^' then
            match _exponent : Text.exponent? vocabulary rest with
            | some exponent =>
                (read? vocabulary none exponent.rest.skipBlanks).map
                  (·.within (.call function (some exponent.text)))
            | none => none
          else if (Bracket.ofArgument? c).isSome then
            none
          else if text.head?.any Char.isAlpha && (vocabulary.callableAt? text).isNone then
            some ((ofPlain text (text.afterTouching vocabulary)).within (.call function none))
          else
            (read? vocabulary none (c :: rest)).map (·.within (.call function none))
  | none, text =>
      match _inner : vocabulary.callableAt? text with
      | some (inner, after) =>
          (read? vocabulary (some inner) after).or
            ((ofGroupArgument? after).map (·.within (.call inner none)))
      | none =>
          match text with
          | [] => none
          | c :: rest =>
              if c = '-' ∨ c = '+' then
                (read? vocabulary none (Text.skipBlanks rest)).map
                  (signed c (Text.skipBlanks rest))
              else
                match Bracket.ofArgument? c with
                | some bracket => (bracket.group? rest).map ofGroup
                | none =>
                    if c.isDigit then
                      some (ofPlain (c :: rest) (Text.afterCoefficient vocabulary (c :: rest)))
                    else
                      (Text.afterAtom? vocabulary (c :: rest)).map (ofPlain (c :: rest))
termination_by function? text => 2 * text.length + function?.isSome.toNat
decreasing_by
  · have skipped := text.length_skipBlanks_le
    have gap := exponent.rest.length_skipBlanks_le
    have raised := Text.length_lt_of_exponent? _exponent
    rw [_start, List.length_cons] at skipped
    simp only [Option.isSome_none, Option.isSome_some, Bool.toNat_false, Bool.toNat_true]
    omega
  · have skipped := text.length_skipBlanks_le
    rw [_start] at skipped
    simp only [Option.isSome_none, Option.isSome_some, Bool.toNat_false, Bool.toNat_true]
    omega
  · have taken := Vocabulary.length_lt_of_callableAt? _inner
    simp only [Option.isSome_none, Option.isSome_some, Bool.toNat_false, Bool.toNat_true]
    omega
  · have gap := Text.length_skipBlanks_le rest
    simp only [List.length_cons]
    omega

@[simp] theorem core_within (application : Application) (layer : Layer) :
    (application.within layer).core = application.core :=
  rfl

@[simp] theorem rest_within (application : Application) (layer : Layer) :
    (application.within layer).rest = application.rest :=
  rfl

@[simp] theorem core_signed (sign : Char) (operand : Text) (application : Application) :
    (application.signed sign operand).core = application.core := by
  simp only [signed]
  split <;> rfl

@[simp] theorem rest_signed (sign : Char) (operand : Text) (application : Application) :
    (application.signed sign operand).rest = application.rest := by
  simp only [signed]
  split <;> rfl

/-- A core and what follows it, in so far as they do not overlap, fit into the text that
they were read from. -/
def FitsIn (application : Application) (text : Text) : Prop :=
  application.core.length + application.rest.length ≤ text.length

theorem FitsIn.mono {application : Application} {short long : Text}
    (fits : application.FitsIn short) (longer : short.length ≤ long.length) :
    application.FitsIn long :=
  Nat.le_trans fits longer

theorem fitsIn_ofPlain {text rest : Text} (shorter : rest.length ≤ text.length) :
    (ofPlain text rest).FitsIn text := by
  simp only [FitsIn, ofPlain, Text.before, List.length_take]
  omega

theorem fitsIn_ofGroup {bracket : Bracket} {text : Text} {group : Group}
    (found : bracket.group? text = some group) : (ofGroup group).FitsIn text :=
  Nat.le_of_lt (Bracket.length_lt_of_group? found)

theorem fitsIn_of_ofGroupArgument? {text : Text} {application : Application}
    (found : ofGroupArgument? text = some application) : application.FitsIn text := by
  have skipped := text.length_skipBlanks_le
  simp only [ofGroupArgument?] at found
  split at found
  · cases found
  · rename_i c rest start
    rw [start, List.length_cons] at skipped
    obtain ⟨bracket, _, isGroup⟩ := Option.bind_eq_some_iff.1 found
    obtain ⟨group, closed, rfl⟩ := Option.map_eq_some_iff.1 isGroup
    exact (fitsIn_ofGroup closed).mono (by omega)

/-- What is read fits into the text. -/
theorem fitsIn_of_read? {vocabulary : Vocabulary} {function? : Option Callable}
    {text : Text} {application : Application}
    (found : read? vocabulary function? text = some application) :
    application.FitsIn text := by
  fun_induction read? vocabulary function? text generalizing application with
  | case2 function text rest exponent isExponent start ih =>
      have skipped := text.length_skipBlanks_le
      have gap := exponent.rest.length_skipBlanks_le
      have raised := Text.length_lt_of_exponent? isExponent
      rw [start, List.length_cons] at skipped
      obtain ⟨inner, isInner, rfl⟩ := Option.map_eq_some_iff.1 found
      exact (ih isInner).mono (by omega)
  | case5 function text =>
      cases found
      exact fitsIn_ofPlain (Text.length_afterTouching_le vocabulary text)
  | case6 function text c rest start _ _ _ ih =>
      have skipped := text.length_skipBlanks_le
      rw [start] at skipped
      obtain ⟨inner, isInner, rfl⟩ := Option.map_eq_some_iff.1 found
      exact (ih isInner).mono skipped
  | case7 text inner after isCallable ih =>
      have taken := Vocabulary.length_lt_of_callableAt? isCallable
      rcases Option.or_eq_some_iff.1 found with isRead | ⟨_, isGroup⟩
      · exact (ih isRead).mono (by omega)
      · obtain ⟨argument, isArgument, rfl⟩ := Option.map_eq_some_iff.1 isGroup
        exact (fitsIn_of_ofGroupArgument? isArgument).mono (by omega)
  | case9 c rest _ _ ih =>
      have gap := Text.length_skipBlanks_le rest
      obtain ⟨inner, isInner, rfl⟩ := Option.map_eq_some_iff.1 found
      have fits := (ih isInner).mono gap
      simp only [FitsIn, core_signed, rest_signed, List.length_cons] at *
      omega
  | case10 c rest _ _ bracket _ =>
      obtain ⟨group, isGroup, rfl⟩ := Option.map_eq_some_iff.1 found
      exact (fitsIn_ofGroup isGroup).mono (by simp)
  | case11 c rest =>
      cases found
      exact fitsIn_ofPlain (Text.length_afterCoefficient_le vocabulary (c :: rest))
  | case12 c rest =>
      obtain ⟨after, isAfter, rfl⟩ := Option.map_eq_some_iff.1 found
      exact fitsIn_ofPlain (Nat.le_of_lt (Text.length_lt_of_afterAtom? isAfter))
  | _ => cases found

end Application

namespace Text

/-- The text with the calls in it completed, its first character being inside a control
word or not.  Letters of a control word that nothing has replaced are no function
names. -/
def completeCalls (vocabulary : Vocabulary) (insideWord : Bool) (text : Text) : Text :=
  match text with
  | [] => []
  | c :: rest =>
      match _callable : if insideWord then none else vocabulary.callableAt? (c :: rest) with
      | none =>
          c :: completeCalls vocabulary (c == '\\' || insideWord && c.isAlpha) rest
      | some (function, after) =>
          match _application : Application.read? vocabulary (some function) after with
          | none => function.text ++ completeCalls vocabulary false after
          | some application =>
              let core :=
                if application.grouped then
                  (completeCalls vocabulary false application.core).trim
                else
                  application.core
              application.layers.foldr Layer.around core ++
                completeCalls vocabulary false application.rest
termination_by text.length
decreasing_by
  · simp
  all_goals
    have taken : after.length < (c :: rest).length := by
      split at _callable
      · cases _callable
      · exact Vocabulary.length_lt_of_callableAt? _callable
  · exact taken
  all_goals
    have fits : application.FitsIn after := Application.fitsIn_of_read? _application
    simp only [Application.FitsIn] at fits
    omega

/-- The text with every function name given its argument in parentheses. -/
def attachArguments (vocabulary : Vocabulary) (text : Text) : Text :=
  text.completeCalls vocabulary false

end Text

end TexCalc

import TexCalc.Proofs.Linear.Bases
import TexCalc.Proofs.Linear.Operands
import TexCalc.Proofs.Text.Trimming

/-!
# Braces before and after logarithms are replaced

A reader that is in a group in braces goes from one state to the next with each character.  A
logarithm with a base takes it from a state to the same one as what the logarithm is replaced by:
a base closes all braces that it opens, and an argument that opens or closes others stands in
both texts.  So a brace that is never closed in a text is not closed in the other one either.
-/

namespace TexCalc

open Text (Passes)

/-- How far the reader of a group in braces has come. -/
inductive Braces where
  | closed
  /-- So many braces are open in the group, and the next character is hidden or not. -/
  | within (depth : Nat) (hidden : Bool)
  deriving DecidableEq, Repr

namespace Braces

/-- The next state. -/
def step : Braces → Char → Braces
  | closed, _ => closed
  | within depth true, _ => within depth false
  | within depth false, c =>
      if c = '\\' then within depth true
      else if c = '\x7b' then within (depth + 1) false
      else if c = '\x7d' then
        match depth with
        | 0 => closed
        | depth + 1 => within depth false
      else within depth false

/-- The state behind a text. -/
def past (state : Braces) (text : Text) : Braces :=
  text.foldl step state

/-- The state in which the next character is not hidden. -/
def shown : Braces → Braces
  | closed => closed
  | within depth _ => within depth false

variable {state : Braces} {c : Char} {text rest : Text}

@[simp] theorem past_nil (state : Braces) : state.past [] = state :=
  rfl

@[simp] theorem past_cons (state : Braces) (c : Char) (text : Text) :
    state.past (c :: text) = (state.step c).past text :=
  rfl

@[simp] theorem past_append (state : Braces) (first second : Text) :
    state.past (first ++ second) = (state.past first).past second :=
  List.foldl_append

@[simp] theorem past_closed (text : Text) : closed.past text = closed := by
  induction text with
  | nil => rfl
  | cons c text ih => exact ih

@[simp] theorem shown_shown (state : Braces) : state.shown.shown = state.shown := by
  cases state <;> rfl

/-! ## Single characters -/

/-- A brace, or the backslash that hides one. -/
def isMarked (c : Char) : Bool :=
  c ∈ ['\\', '\x7b', '\x7d']

theorem isMarked_eq_false (other : c ≠ '\\') (noOpener : c ≠ Bracket.curly.opener)
    (noCloser : c ≠ Bracket.curly.closer) : isMarked c = false := by
  have noBrace : c ≠ '\x7b' := noOpener
  have noBrace' : c ≠ '\x7d' := noCloser
  simp [isMarked, other, noBrace, noBrace']

theorem step_plain (plain : isMarked c = false) (state : Braces) : state.step c = state.shown := by
  simp only [isMarked, decide_eq_false_iff_not, List.mem_cons, List.not_mem_nil, or_false,
    not_or] at plain
  cases state with
  | closed => rfl
  | within depth hidden =>
      cases hidden with
      | true => rfl
      | false => simp [step, plain, shown]

theorem shown_step_backslash (state : Braces) : (state.step '\\').shown = state.shown := by
  cases state with
  | closed => rfl
  | within depth hidden => cases hidden <;> rfl

/-- Only a backslash hides the character behind it. -/
theorem shown_step (other : c ≠ '\\') (isShown : state.shown = state) :
    (state.step c).shown = state.step c := by
  cases state with
  | closed => rfl
  | within depth hidden =>
      cases isShown
      simp only [step, if_neg other]
      split
      · rfl
      · split
        · cases depth <;> rfl
        · rfl

theorem shown_past_plain (plain : text.all (!isMarked ·) = true) (state : Braces) :
    (state.past text).shown = state.shown := by
  induction text generalizing state with
  | nil => rfl
  | cons c text ih =>
      rw [List.all_cons, Bool.and_eq_true, Bool.not_eq_true'] at plain
      rw [past_cons, step_plain plain.1, ih plain.2, shown_shown]

theorem past_plain (plain : text.all (!isMarked ·) = true) (isShown : state.shown = state) :
    state.past text = state := by
  induction text with
  | nil => rfl
  | cons c text ih =>
      rw [List.all_cons, Bool.and_eq_true, Bool.not_eq_true'] at plain
      rw [past_cons, step_plain plain.1, isShown, ih plain.2]

theorem past_plain_cons (plain : (c :: text).all (!isMarked ·) = true) (state : Braces) :
    state.past (c :: text) = state.shown := by
  rw [List.all_cons, Bool.and_eq_true, Bool.not_eq_true'] at plain
  rw [past_cons, step_plain plain.1, past_plain plain.2 (shown_shown state)]

theorem past_hidden (isShown : state.shown = state) (c : Char) (text : Text) :
    state.past ('\\' :: c :: text) = state.past text := by
  cases state with
  | closed => rfl
  | within depth hidden =>
      cases isShown
      rfl

theorem isMarked_eq_false_of_isBlank (blank : isBlank c = true) : isMarked c = false := by
  cases marked : isMarked c with
  | false => rfl
  | true =>
      simp only [isMarked, decide_eq_true_eq, List.mem_cons, List.not_mem_nil, or_false] at marked
      rcases marked with rfl | rfl | rfl <;> exact absurd blank (by decide)

theorem all_plain_of_isAllBlank (blank : text.isAllBlank = true) :
    text.all (!isMarked ·) = true := by
  rw [Text.isAllBlank, List.all_eq_true] at blank
  rw [List.all_eq_true]
  intro c isMember
  rw [isMarked_eq_false_of_isBlank (blank c isMember)]
  rfl

theorem all_plain_takeWhile_isAsciiBlank (text : Text) :
    (text.takeWhile isAsciiBlank).all (!isMarked ·) = true := by
  apply all_plain_of_isAllBlank
  rw [Text.isAllBlank, List.all_eq_true]
  exact fun c isMember =>
    isBlank_of_isAsciiBlank (List.all_eq_true.1 List.all_takeWhile c isMember)

/-- A text behind which the state is the same, and so it is behind the trimmed text and a closing
bracket, although trimming may take the character that a backslash hid. -/
theorem past_trim (isShown : state.shown = state) (same : state.past text = state) :
    state.past (text.trim ++ [')']) = state := by
  obtain ⟨lead, trail, split, leadBlank, trailBlank⟩ := text.exists_trim_eq
  rw [split, past_append, past_plain (all_plain_of_isAllBlank leadBlank) isShown,
    past_append] at same
  have behind := shown_past_plain (all_plain_of_isAllBlank trailBlank) (state.past text.trim)
  rw [same, isShown] at behind
  rw [past_append, past_cons, past_nil, step_plain (by decide), ← behind]

/-! ## Groups -/

/-- The reader of a group finds its end where the state is closed. -/
theorem past_eq_closed_iff (depth : Nat) (text : Text) :
    (within depth false).past text = closed ↔
      (Bracket.curly.groupFrom? depth text).isSome = true := by
  have ordinary {c : Char} {rest : Text}
      (shape : ∀ (hidden : Char) (after : Text), c = '\\' → rest = hidden :: after → False) :
      c ≠ '\\' ∨ rest = [] := by
    by_cases back : c = '\\'
    · cases rest with
      | nil => exact .inr rfl
      | cons hidden after => exact absurd rfl fun same => shape hidden after back same
    · exact .inl back
  fun_induction Bracket.groupFrom? .curly depth text with
  | case1 depth => simp
  | case2 depth hidden rest ih =>
      rw [past_hidden rfl, Option.isSome_map]
      exact ih
  | case3 depth rest _ ih =>
      rw [past_cons, Option.isSome_map]
      exact ih
  | case4 => simp [step, Bracket.closer]
  | case5 rest _ _ depth ih =>
      rw [past_cons, Option.isSome_map]
      exact ih
  | case6 depth c rest shape noOpener noCloser ih =>
      rcases ordinary shape with other | rfl
      · rw [past_cons, step_plain (isMarked_eq_false other noOpener noCloser), Option.isSome_map]
        exact ih
      · rw [Option.isSome_map, Bracket.groupFrom?]
        by_cases other : c = '\\'
        · subst other
          simp [step]
        · simp [step_plain (isMarked_eq_false other noOpener noCloser), shown]

/-- The braces in a group are closed in it. -/
theorem past_inside {depth : Nat} {group : Group}
    (found : Bracket.curly.groupFrom? depth text = some group) (outer : Nat) :
    (within (outer + depth) false).past group.inside = within outer false := by
  fun_induction Bracket.groupFrom? .curly depth text generalizing group with
  | case1 => cases found
  | case2 depth hidden rest ih =>
      obtain ⟨inner, isInner, rfl⟩ := Option.map_eq_some_iff.1 found
      exact (past_hidden rfl hidden inner.inside).trans (ih isInner)
  | case3 depth rest _ ih =>
      obtain ⟨inner, isInner, rfl⟩ := Option.map_eq_some_iff.1 found
      exact ih isInner
  | case4 =>
      cases found
      rfl
  | case5 rest _ _ depth ih =>
      obtain ⟨inner, isInner, rfl⟩ := Option.map_eq_some_iff.1 found
      exact ih isInner
  | case6 depth c rest shape noOpener noCloser ih =>
      obtain ⟨inner, isInner, rfl⟩ := Option.map_eq_some_iff.1 found
      have other : c ≠ '\\' := by
        intro back
        cases rest with
        | nil => cases isInner
        | cons hidden after => exact shape hidden after back rfl
      change ((within (outer + depth) false).step c).past inner.inside = _
      rw [step_plain (isMarked_eq_false other noOpener noCloser)]
      exact ih isInner

/-- Whatever bracket a group ends with, that bracket is not hidden. -/
theorem shown_past_inside {bracket : Bracket} {depth : Nat} {group : Group}
    (found : bracket.groupFrom? depth text = some group) (isShown : state.shown = state) :
    (state.past group.inside).shown = state.past group.inside := by
  have visible (bracket : Bracket) : bracket.opener ≠ '\\' ∧ bracket.closer ≠ '\\' := by
    cases bracket <;> decide
  fun_induction Bracket.groupFrom? bracket depth text generalizing state group with
  | case1 => cases found
  | case2 depth hidden rest ih =>
      obtain ⟨inner, isInner, rfl⟩ := Option.map_eq_some_iff.1 found
      have same : state.past (Group.extend ['\\', hidden] inner).inside =
          state.past inner.inside := past_hidden isShown hidden inner.inside
      rw [same]
      have later := ih isInner isShown
      exact later
  | case3 depth rest _ ih =>
      obtain ⟨inner, isInner, rfl⟩ := Option.map_eq_some_iff.1 found
      have later := ih isInner (shown_step (visible bracket).1 isShown)
      exact later
  | case4 =>
      cases found
      exact isShown
  | case5 rest _ _ depth ih =>
      obtain ⟨inner, isInner, rfl⟩ := Option.map_eq_some_iff.1 found
      have later := ih isInner (shown_step (visible bracket).2 isShown)
      exact later
  | case6 depth c rest shape _ _ ih =>
      obtain ⟨inner, isInner, rfl⟩ := Option.map_eq_some_iff.1 found
      have other : c ≠ '\\' := by
        intro back
        cases rest with
        | nil => cases isInner
        | cons hidden after => exact shape hidden after back rfl
      have later := ih isInner (shown_step other isShown)
      exact later

/-! ## Bases and arguments -/

theorem past_control {control : Control} (found : Control.read? text = some control)
    (isShown : state.shown = state) : state.past control.source = state := by
  cases text with
  | nil => cases found
  | cons c rest =>
      simp only [Control.read?] at found
      split at found
      · cases found
        have letters : (rest.takeWhile Char.isAlpha).all (!isMarked ·) = true := by
          rw [List.all_eq_true]
          intro d isMember
          have letter := List.all_eq_true.1 (List.all_takeWhile (p := Char.isAlpha)) d isMember
          cases marked : isMarked d with
          | false => rfl
          | true =>
              simp only [isMarked, decide_eq_true_eq, List.mem_cons, List.not_mem_nil,
                or_false] at marked
              rcases marked with rfl | rfl | rfl <;> exact absurd letter (by decide)
        exact (past_hidden isShown c _).trans (past_plain letters isShown)
      · cases found
        exact past_hidden isShown c []

/-- An argument of a command closes all braces that it opens, and so does its text. -/
theorem past_argument {argument : Argument} (found : Argument.read? text = some argument)
    (isShown : state.shown = state) :
    ∃ lead, text = lead ++ argument.rest ∧ state.past lead = state ∧
      state.past argument.text = state := by
  have blanks := past_plain (all_plain_takeWhile_isAsciiBlank text) isShown
  have split : text = text.takeWhile isAsciiBlank ++ text.skipBlanks :=
    List.takeWhile_append_dropWhile.symm
  have behind (lead rest : Text) (isLead : text.skipBlanks = lead ++ rest)
      (same : state.past lead = state) :
      text = text.takeWhile isAsciiBlank ++ lead ++ rest ∧
        state.past (text.takeWhile isAsciiBlank ++ lead) = state := by
    rw [past_append, blanks, same, List.append_assoc, ← isLead]
    exact ⟨split, rfl⟩
  simp only [Argument.read?] at found
  split at found
  · cases found
  · rename_i c rest start
    split at found
    · rename_i brace
      obtain ⟨group, isGroup, rfl⟩ := Option.map_eq_some_iff.1 found
      have inside : state.past group.inside = state := by
        cases state with
        | closed => simp
        | within depth hidden =>
            cases isShown
            exact past_inside isGroup depth
      have braced : state.past ('\x7b' :: (group.inside ++ ['\x7d'])) = state := by
        cases state with
        | closed => exact past_closed _
        | within depth hidden =>
            cases isShown
            rw [past_cons, past_append]
            change ((within (depth + 1) false).past group.inside).past ['\x7d'] = _
            rw [show depth + 1 = depth + 1 + 0 from rfl, past_inside isGroup (depth + 1)]
            rfl
      obtain ⟨isText, same⟩ := behind _ group.rest
        (by rw [start, brace, Bracket.eq_of_group? isGroup]; simp [Bracket.closer]) braced
      exact ⟨_, isText, same, inside⟩
    · split at found
      · rename_i back
        obtain ⟨control, isControl, rfl⟩ := Option.map_eq_some_iff.1 found
        have source := past_control isControl isShown
        obtain ⟨isText, same⟩ := behind _ control.rest
          (by rw [start, back, Control.eq_of_read? isControl]; rfl) source
        exact ⟨_, isText, same, source⟩
      · split at found
        · cases found
        · rename_i noBrace noBack accepted
          cases found
          have plain : isMarked c = false := by
            have noCloser : c ≠ '\x7d' := by
              rintro rfl
              exact accepted rfl
            simp [isMarked, noBrace, noBack, noCloser]
          have single : state.past [c] = state := by
            rw [past_cons, step_plain plain, isShown, past_nil]
          obtain ⟨isText, same⟩ := behind [c] rest start single
          exact ⟨_, isText, same, single⟩

/-- What an operand ends with is not hidden and hides nothing. -/
theorem exists_shown_of_passes {withCommands : Bool} (passes : Passes withCommands text rest) :
    ∃ lead, text = lead ++ rest ∧
      ∀ state : Braces, state.shown = state → (state.past lead).shown = state.past lead := by
  induction passes with
  | done text => exact ⟨[], rfl, fun _ isShown => isShown⟩
  | @char c text rest plain _ ih =>
      obtain ⟨lead, rfl, shows⟩ := ih
      have other : c ≠ '\\' := by
        rintro rfl
        rcases plain with plain | plain <;> exact absurd plain (by decide)
      exact ⟨c :: lead, rfl, fun state isShown => shows _ (shown_step other isShown)⟩
  | @group bracket text rest group _ found _ ih =>
      obtain ⟨lead, split, shows⟩ := ih
      have visible : bracket.opener ≠ '\\' ∧ bracket.closer ≠ '\\' := by
        cases bracket <;> decide
      refine ⟨bracket.opener :: (group.inside ++ bracket.closer :: lead), ?_, ?_⟩
      · rw [Bracket.eq_of_group? found, split]
        simp
      · intro state isShown
        rw [past_cons, past_append, past_cons]
        have inside := shown_past_inside found (shown_step visible.1 isShown)
        exact shows _ (shown_step visible.2 inside)
  | @control text rest control _ found _ ih =>
      obtain ⟨lead, split, shows⟩ := ih
      refine ⟨control.source ++ lead, ?_, ?_⟩
      · rw [Control.eq_of_read? found, split]
        simp [Control.source]
      · intro state isShown
        rw [past_append, past_control found isShown]
        exact shows state isShown

/-- Behind an argument the state is the one that its text alone leads to. -/
theorem past_bareArgument {vocabulary : Vocabulary} {argument : Cut}
    (found : text.bareArgument? vocabulary = some argument) (isShown : state.shown = state) :
    ∃ lead, text = lead ++ argument.rest ∧ state.past lead = (state.past argument.text).shown := by
  have blanks := past_plain (all_plain_takeWhile_isAsciiBlank text) isShown
  have split : text = text.takeWhile isAsciiBlank ++ text.skipBlanks :=
    List.takeWhile_append_dropWhile.symm
  simp only [Text.bareArgument?] at found
  split at found
  · cases found
  · rename_i c rest start
    split at found
    · rename_i bracket opens
      obtain ⟨group, isGroup, rfl⟩ := Option.map_eq_some_iff.1 found
      refine ⟨text.takeWhile isAsciiBlank ++ c :: (group.inside ++ [bracket.closer]), ?_, ?_⟩
      · conv => lhs; rw [split, start, Bracket.eq_of_group? isGroup]
        simp
      · rw [past_append, blanks, past_cons, past_append, past_cons, past_nil]
        cases bracket with
        | square => exact absurd rfl (Text.ne_square_of_ofArgument? opens)
        | round =>
            rw [← Text.opener_of_ofArgument? opens, step_plain (c := Bracket.round.opener) rfl,
              isShown, step_plain (c := Bracket.round.closer) rfl]
        | curly =>
            rw [← Text.opener_of_ofArgument? opens]
            cases state with
            | closed => simp [step, shown]
            | within depth hidden =>
                cases isShown
                change ((within (depth + 1) false).past group.inside).step _ = _
                rw [show depth + 1 = depth + 1 + 0 from rfl, past_inside isGroup (depth + 1),
                  show depth = depth + 0 from rfl, past_inside isGroup depth]
                rfl
    · obtain ⟨after, isAfter, rfl⟩ := Option.map_eq_some_iff.1 found
      obtain ⟨lead, isLead, shows⟩ := exists_shown_of_passes
        (Text.passes_of_afterBareArgument? isAfter)
      refine ⟨text.takeWhile isAsciiBlank ++ lead, ?_, ?_⟩
      · conv => lhs; rw [split, start, isLead]
        rw [List.append_assoc]
        rfl
      · have isText : (Cut.upTo (c :: rest) after).text = lead := by
          rw [Cut.upTo, isLead, Text.before_append]
        rw [past_append, blanks, isText, shows state isShown]

/-! ## Logarithms with a base -/

open Text (logOf bareLog logFunction? resolveLogBases afterLogMark?)

theorem past_logOf {base argument : Text}
    (same : ∀ state : Braces, state.shown = state → state.past base = state) (state : Braces) :
    state.past (logOf base.trim argument) = (state.shown.past argument).shown := by
  have plain (front right : Text) (all : (' ' :: front).all (!isMarked ·) = true) :
      state.past (' ' :: (front ++ right)) = state.shown.past right := by
    rw [← List.cons_append, past_append, past_plain_cons all]
  have closes (state : Braces) : state.past [')'] = state.shown := step_plain (by decide) state
  simp only [logOf]
  split
  · rename_i function found
    have known : (function ++ ['(']).all (!isMarked ·) = true := by
      simp only [logFunction?] at found
      split at found
      · cases found
        decide
      · split at found
        · cases found
          decide
        · cases found
    have opened := plain (function ++ ['(']) (argument ++ [')']) known
    rw [List.append_assoc] at opened
    rw [Text.parenthesized]
    exact opened.trans (by rw [past_append, closes])
  · have opened := plain "(log(".toList
      (argument ++ ')' :: ("/log(".toList ++ (base.trim ++ [')'] ++ [')']))) (by decide)
    have inner : state.past (' ' :: Text.parenthesized ("log".toList ++ argument.parenthesized ++
        "/log".toList ++ base.trim.parenthesized)) =
          state.past (' ' :: ("(log(".toList ++
            (argument ++ ')' :: ("/log(".toList ++ (base.trim ++ [')'] ++ [')']))))) := by
      simp [Text.parenthesized]
    rw [inner, opened, past_append, past_cons, step_plain (by decide), past_append,
      past_plain (by decide) (shown_shown _), past_append,
      past_trim (shown_shown _) (same _ (shown_shown _)), closes, shown_shown]

theorem past_bareLog {base : Text}
    (same : ∀ state : Braces, state.shown = state → state.past base = state) (state : Braces) :
    state.past (bareLog base.trim) = state.shown := by
  simp only [bareLog]
  split
  · rename_i function found
    have known : (' ' :: (function ++ [' '])).all (!isMarked ·) = true := by
      simp only [logFunction?] at found
      split at found
      · cases found
        decide
      · split at found
        · cases found
          decide
        · cases found
    exact past_plain_cons known state
  · have inner : ' ' :: Text.parenthesized ("1/log".toList ++ base.trim.parenthesized) ++
        "* log ".toList =
          ' ' :: ("(1/log(".toList ++ (base.trim ++ [')'] ++ ")* log ".toList)) := by
      simp [Text.parenthesized]
    rw [inner, ← List.cons_append, past_append, past_plain_cons (by decide), past_append,
      past_trim (shown_shown _) (same _ (shown_shown _)), past_plain (by decide) (shown_shown _)]

/-- Replacing logarithms with a base changes nothing in what braces are open. -/
theorem past_resolveLogBases (vocabulary : Vocabulary) (text : Text) (state : Braces) :
    state.past (text.resolveLogBases vocabulary) = state.past text := by
  have marked {text : Text} {base : Argument}
      (found : text.afterLogMark?.bind Argument.read? = some base) (state : Braces) :
      state.past text = state.shown.past base.rest ∧
        ∀ state : Braces, state.shown = state → state.past base.text = state := by
    obtain ⟨blanks, after, rfl, allBlank, isBase⟩ := Text.exists_of_logBase? found
    obtain ⟨lead, rfl, same, _⟩ := past_argument isBase (shown_shown state)
    refine ⟨?_, fun state isShown => ?_⟩
    · have word : state.past "\\log".toList = state.shown := by
        change (((state.step '\\').step 'l').step 'o').step 'g' = _
        rw [step_plain (c := 'l') (by decide), step_plain (c := 'o') (by decide),
          step_plain (c := 'g') (by decide), shown_shown, shown_shown, shown_step_backslash]
      rw [past_append, word, past_append,
        past_plain (all_plain_of_isAllBlank allBlank) (shown_shown state), past_cons,
        step_plain (by decide), shown_shown, past_append, same]
    · obtain ⟨_, _, _, isText⟩ := past_argument isBase isShown
      exact isText
  fun_induction resolveLogBases vocabulary text generalizing state with
  | case1 => rfl
  | case2 c rest _ ih => rw [past_cons, past_cons, ih]
  | case3 c rest base isBase argument isArgument ih =>
      obtain ⟨whole, same⟩ := marked isBase state
      obtain ⟨lead, split, behind⟩ := past_bareArgument isArgument (shown_shown state)
      rw [past_append, past_logOf same, ih, whole, split, past_append, behind]
  | case4 c rest base isBase _ ih =>
      obtain ⟨whole, same⟩ := marked isBase state
      rw [past_append, past_bareLog same, ih, whole]

end Braces

end TexCalc

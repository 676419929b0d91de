import TexCalc.Proofs.Dollars.Idle

/-!
# Formulas that contain what they look for

A command looks for its arguments, a script for its operand and a brace for something behind it.
A formula is self-contained when all of them come upon something before the formula ends, be it
only a fault.  Dollar signs and blanks that are appended to a self-contained formula then change
no look ahead: the lexemes of the longer text agree with those of the formula up to idle ones at
the end, and each look ahead leads from lists that agree to lists that agree.
-/

namespace TexCalc

namespace Text

/-- Whether the next `count` arguments are read, or one of them is found to be at fault, before
the text is spent. -/
def holdsArguments : (count : Nat) → Text → Bool
  | 0, _ => true
  | count + 1, text =>
      !text.isSpent &&
        match Probe.ofText text with
        | .present rest => holdsArguments count rest
        | .blank | .missing | .unclosed => true

/-- Whether the radicand of a root is read, or found to be at fault, before the text is spent. -/
def holdsRadicand (text : Text) : Bool :=
  if text.skipBlanks.head? = some '[' then
    match Argument.readOptional? text with
    | some index => holdsArguments 1 index.rest
    | none => true
  else
    holdsArguments 1 text

end Text

/-- Whether a token comes upon what it looks for in the lexemes after it. -/
def Token.isAnswered (token : Token) (after : List Lexeme) : Bool :=
  match token with
  | superscript | subscript | openBrace => !(Lexeme.fromOperand after).isEmpty
  | control name =>
      if Command.isFraction name then Text.holdsArguments 2 (Text.ofLexemes after)
      else if Command.isRoot name then Text.holdsRadicand (Text.ofLexemes after)
      else true
  | char c => c != '\\'
  | closeBrace | blank | comment _ | mathShift | tie => true

/-- Whether each lexeme of a list comes upon what it looks for in the list. -/
def Lexeme.areAnswered : List Lexeme → Bool
  | [] => true
  | first :: rest => first.token.isAnswered rest && areAnswered rest

/-- Whether everything in a formula that looks for something comes upon it in the formula. -/
def Text.isSelfContained (formula : Text) : Bool :=
  Lexeme.areAnswered formula.trim.lexemes

theorem Token.eq_of_isIdle {token : Token} (idle : token.isIdle = true) :
    token = .blank ∨ (∃ text, token = .comment text) ∨ token = .mathShift := by
  cases token with
  | blank => exact .inl rfl
  | comment text => exact .inr (.inl ⟨text, rfl⟩)
  | mathShift => exact .inr (.inr rfl)
  | _ => cases idle

namespace Lexeme

/-- Two lists of lexemes have the same tokens, up to idle ones at their ends. -/
inductive Agree : List Lexeme → List Lexeme → Prop where
  | idle {first second : List Lexeme} (without : first.all (!·.token.isSignificant) = true)
      (idle : second.all (·.token.isIdle) = true) : Agree first second
  | cons {here other : Lexeme} {first second : List Lexeme} (same : other.token = here.token)
      (later : Agree first second) : Agree (here :: first) (other :: second)

variable {first second rest : List Lexeme} {here : Lexeme}

theorem areAnswered_of_suffix (answered : areAnswered first = true) (ending : rest <:+ first) :
    areAnswered rest = true := by
  induction first with
  | nil => rwa [List.suffix_nil.1 ending]
  | cons here first ih =>
      rcases List.suffix_cons_iff.1 ending with rfl | behind
      · exact answered
      · exact ih (Bool.and_eq_true_iff.1 answered).2 behind

/-- Something that looks for an operand comes upon one. -/
theorem fromOperand_ne_nil (answered : areAnswered (here :: rest) = true)
    (looks : here.token = .superscript ∨ here.token = .subscript ∨ here.token = .openBrace) :
    fromOperand rest ≠ [] := by
  have some := (Bool.and_eq_true_iff.1 answered).1
  intro nothing
  rcases looks with isToken | isToken | isToken <;>
    simp [Token.isAnswered, isToken, nothing] at some

theorem fromOperand_of_isScript (answered : areAnswered (here :: rest) = true)
    (isScript : here.token.isScript = true) : fromOperand rest ≠ [] := by
  simp only [Token.isScript, Bool.or_eq_true, beq_iff_eq] at isScript
  exact fromOperand_ne_nil answered (isScript.imp_right .inl)

theorem ne_backslash (answered : areAnswered (here :: rest) = true) :
    here.token ≠ .char '\\' := by
  intro lone
  have found := (Bool.and_eq_true_iff.1 answered).1
  rw [lone] at found
  cases found

/-! ## Lists of lexemes that agree -/

/-- Appended idle text is all that two texts differ in. -/
theorem agree_lexemesFrom {text trail : Text} (idle : trail.isIdle = true)
    (visible : text.endsVisibly = true) {offset : Nat}
    (answered : areAnswered (text.lexemesFrom offset) = true) (later : Nat) :
    Agree (text.lexemesFrom offset) ((text ++ trail).lexemesFrom later) := by
  fun_induction Text.lexemesFrom offset text generalizing later with
  | case1 => exact .idle rfl (Text.all_isIdle_lexemesFrom idle later)
  | case2 offset c rest reading source ih =>
      have behind := (Bool.and_eq_true_iff.1 answered).2
      have ending : reading.rest <:+ c :: rest :=
        ⟨c :: reading.taken, congrArg (c :: ·) (Token.read_append c rest)⟩
      rw [List.cons_append, Text.lexemesFrom]
      rcases Token.read_append_idle idle visible (ne_backslash answered) with same | ⟨whole, longer⟩
      · rw [same]
        exact .cons rfl (ih (Text.endsVisibly_of_suffix visible ending) behind _)
      · obtain ⟨text, taken, isComment⟩ := whole
        obtain ⟨text', taken', left, isLonger, behindTrail⟩ := longer
        have nothing : reading.rest = [] := congrArg Token.Reading.rest isComment
        have sameToken : reading.token = .comment text := congrArg Token.Reading.token isComment
        rw [isLonger, nothing, sameToken, Text.lexemesFrom]
        have idleLeft := Text.all_isIdle_lexemesFrom (Text.isIdle_of_suffix idle behindTrail)
        exact .idle rfl (by rw [List.all_cons, idleLeft]; rfl)

/-- In front of something significant two lists that agree have the same token. -/
theorem Agree.exists_of_cons (agree : Agree (here :: rest) second)
    (significant : here.token.isSignificant = true) :
    ∃ other later, second = other :: later ∧ other.token = here.token ∧ Agree rest later := by
  cases agree with
  | idle without _ =>
      rw [List.all_cons, significant] at without
      cases without
  | cons same later => exact ⟨_, _, rfl, same, later⟩

/-- Nothing but idle lexemes agrees with nothing. -/
theorem Agree.all_isIdle_of_nil (agree : Agree [] second) : second.all (·.token.isIdle) = true := by
  cases agree with
  | idle _ idle => exact idle

/-- The first significant lexemes have the same token, or one list has none and the other one has
a dollar sign. -/
theorem Agree.find?_isSignificant (agree : Agree first second) :
    (∃ here other, first.find? (·.token.isSignificant) = some here ∧
      second.find? (·.token.isSignificant) = some other ∧ other.token = here.token) ∨
    (first.find? (·.token.isSignificant) = none ∧
      ∀ other, second.find? (·.token.isSignificant) = some other → other.token = .mathShift) := by
  induction agree with
  | idle without idle =>
      right
      refine ⟨List.find?_eq_none.2 fun lexeme isMember => ?_, fun other found => ?_⟩
      · simpa using List.all_eq_true.1 without lexeme isMember
      · have isIdle := List.all_eq_true.1 idle other (List.mem_of_find?_eq_some found)
        have significant := List.find?_some found
        simpa [Token.isIdle, significant] using isIdle
  | @cons here other _ _ same _ ih =>
      cases significant : here.token.isSignificant with
      | true =>
          left
          exact ⟨here, other, by simp [significant], by simp [same, significant], same⟩
      | false => simpa [same, significant] using ih

/-! ## Looking ahead -/

theorem fromOperand_suffix (lexemes : List Lexeme) : fromOperand lexemes <:+ lexemes :=
  List.dropWhile_suffix _

/-- An operand is significant. -/
theorem isSignificant_of_fromOperand {lexemes : List Lexeme}
    (found : fromOperand lexemes = here :: rest) : here.token.isSignificant = true := by
  have stops := List.head?_dropWhile_not (·.token.isPassedOver) lexemes
  rw [show lexemes.dropWhile (·.token.isPassedOver) = here :: rest from found] at stops
  simp only [List.head?_cons, Token.isPassedOver, Bool.or_eq_false_iff] at stops
  simpa using stops.1.1

theorem all_isIdle_of_suffix (idle : second.all (·.token.isIdle) = true)
    (ending : rest <:+ second) : rest.all (·.token.isIdle) = true :=
  List.all_eq_true.2 fun lexeme isMember =>
    List.all_eq_true.1 idle lexeme (ending.subset isMember)

/-- Lists that agree still agree without the lexemes at their start that a test passes. -/
theorem Agree.dropWhile (agree : Agree first second) (test : Token → Bool) :
    Agree (first.dropWhile (test ·.token)) (second.dropWhile (test ·.token)) := by
  induction agree with
  | idle without idle =>
      refine .idle ?_ (all_isIdle_of_suffix idle (List.dropWhile_suffix _))
      exact List.all_eq_true.2 fun lexeme isMember =>
        List.all_eq_true.1 without lexeme ((List.dropWhile_suffix _).subset isMember)
  | cons same later ih =>
      rw [List.dropWhile_cons, List.dropWhile_cons, same]
      split
      · exact ih
      · exact .cons same later

theorem Agree.fromOperand (agree : Agree first second) :
    Agree (fromOperand first) (fromOperand second) :=
  agree.dropWhile Token.isPassedOver

theorem afterBrace?_cons (depth : Nat) (here : Lexeme) (rest : List Lexeme) :
    afterBrace? depth (here :: rest) =
      if here.token = .openBrace then afterBrace? (depth + 1) rest
      else if here.token = .closeBrace then
        match depth with
        | 0 => some rest
        | depth + 1 => afterBrace? depth rest
      else afterBrace? depth rest := by
  cases depth <;> rfl

/-- No brace is idle. -/
theorem afterBrace?_eq_none (idle : second.all (·.token.isIdle) = true) (depth : Nat) :
    afterBrace? depth second = none := by
  induction second with
  | nil => cases depth <;> rfl
  | cons here second ih =>
      rw [List.all_cons, Bool.and_eq_true] at idle
      have noBrace {token : Token} (isIdle : token.isIdle = false) : here.token ≠ token := by
        rintro rfl
        rw [isIdle] at idle
        cases idle.1
      rw [afterBrace?_cons, if_neg (noBrace rfl), if_neg (noBrace rfl), ih idle.2]

theorem all_isIdle_of_isSignificant (without : first.all (!·.token.isSignificant) = true) :
    first.all (·.token.isIdle) = true := by
  rw [List.all_eq_true] at *
  exact fun lexeme isMember => by rw [Token.isIdle, without lexeme isMember, Bool.true_or]

theorem Agree.afterBrace? (agree : Agree first second) (depth : Nat) :
    Option.Rel Agree (afterBrace? depth first) (afterBrace? depth second) := by
  induction agree generalizing depth with
  | idle without idle =>
      rw [afterBrace?_eq_none idle, afterBrace?_eq_none (all_isIdle_of_isSignificant without)]
      exact .none
  | cons same later ih =>
      rw [afterBrace?_cons, afterBrace?_cons, same]
      split
      · exact ih _
      · split
        · cases depth with
          | zero => exact .some later
          | succ depth => exact ih _
        · exact ih _

theorem suffix_of_afterBrace? {depth : Nat} (found : afterBrace? depth first = some rest) :
    rest <:+ first := by
  fun_induction afterBrace? depth first with
  | case1 => cases found
  | case3 here after _ _ =>
      cases found
      exact List.suffix_cons here _
  | case2 | case4 | case5 =>
      rename_i ih
      exact (ih found).trans (List.suffix_cons _ _)

theorem suffix_of_afterScript? (found : afterScript? first = some rest) : rest <:+ first := by
  have skipped := fromOperand_suffix first
  simp only [afterScript?] at found
  split at found
  · cases found
  · rename_i operand
    rw [operand] at skipped
    refine .trans ?_ ((List.suffix_cons _ _).trans skipped)
    split at found
    · exact suffix_of_afterBrace? found
    · cases found
      exact List.suffix_refl _

/-- The operand of a script is read the same way when it is there. -/
theorem Agree.afterScript? (agree : Agree first second) (some : Lexeme.fromOperand first ≠ []) :
    Option.Rel Agree (afterScript? first) (afterScript? second) := by
  obtain ⟨here, rest, isOperand⟩ := List.exists_cons_of_ne_nil some
  have both := agree.fromOperand
  rw [isOperand] at both
  obtain ⟨other, later, isOther, same, behind⟩ :=
    both.exists_of_cons (isSignificant_of_fromOperand isOperand)
  simp only [Lexeme.afterScript?, isOperand, isOther, same]
  split
  · exact behind.afterBrace? 0
  · exact .some behind

theorem fromBase?_eq (lexemes : List Lexeme) :
    fromBase? lexemes =
      match fromOperand lexemes with
      | [] => some []
      | first :: rest =>
          if first.token.isScript then (afterScript? rest).bind fromBase?
          else some (first :: rest) := by
  fun_cases fromBase? lexemes <;> simp_all

/-- No idle token is a script or a sign. -/
theorem isScript_eq_false_of_isIdle {token : Token} (idle : token.isIdle = true) :
    token.isScript = false ∧ token.isSign = false := by
  rcases Token.eq_of_isIdle idle with rfl | ⟨text, rfl⟩ | rfl <;> exact ⟨rfl, rfl⟩

/-- No idle lexeme begins an argument. -/
theorem beginsArgument_eq_false (idle : second.all (·.token.isIdle) = true) :
    beginsArgument second = false := by
  cases second with
  | nil => rfl
  | cons here second =>
      rcases Token.eq_of_isIdle (Bool.and_eq_true_iff.1 idle).1 with isToken | ⟨_, isToken⟩ | isToken <;>
        simp only [beginsArgument, isToken]

/-- The first operand that is no script is found at the same place. -/
theorem Agree.fromBase? (agree : Agree first second) (answered : areAnswered first = true) :
    Option.Rel Agree (fromBase? first) (fromBase? second) := by
  have both := agree.fromOperand
  rw [fromBase?_eq second]
  fun_induction Lexeme.fromBase? first generalizing second with
  | case1 lexemes nothing =>
      rw [nothing] at both
      have idle := both.all_isIdle_of_nil
      cases isOther : Lexeme.fromOperand second with
      | nil => exact .some (.idle rfl rfl)
      | cons other later =>
          rw [isOther] at idle
          have noScript := (isScript_eq_false_of_isIdle (Bool.and_eq_true_iff.1 idle).1).1
          simp only [noScript]
          exact .some (.idle rfl idle)
  | case2 lexemes here rest isOperand isScript after isAfter ih =>
      have answeredHere := areAnswered_of_suffix answered (isOperand ▸ fromOperand_suffix lexemes)
      have answeredRest := (Bool.and_eq_true_iff.1 answeredHere).2
      rw [isOperand] at both
      obtain ⟨other, later, isOther, same, behind⟩ :=
        both.exists_of_cons (isSignificant_of_fromOperand isOperand)
      simp only [isOther, same, isScript, if_true]
      have scripts := behind.afterScript? (fromOperand_of_isScript answeredHere isScript)
      rw [isAfter] at scripts
      generalize Lexeme.afterScript? later = found at scripts ⊢
      cases scripts with
      | some agreeAfter =>
          have bases := ih agreeAfter
            (areAnswered_of_suffix answeredRest (suffix_of_afterScript? isAfter))
            agreeAfter.fromOperand
          rwa [← fromBase?_eq] at bases
  | case3 lexemes here rest isOperand isScript noEnd =>
      have answeredHere := areAnswered_of_suffix answered (isOperand ▸ fromOperand_suffix lexemes)
      rw [isOperand] at both
      obtain ⟨other, later, isOther, same, behind⟩ :=
        both.exists_of_cons (isSignificant_of_fromOperand isOperand)
      simp only [isOther, same, isScript, if_true]
      have scripts := behind.afterScript? (fromOperand_of_isScript answeredHere isScript)
      rw [noEnd] at scripts
      generalize Lexeme.afterScript? later = found at scripts ⊢
      cases scripts
      exact .none
  | case4 lexemes here rest isOperand noScript =>
      rw [isOperand] at both
      obtain ⟨other, later, isOther, same, behind⟩ :=
        both.exists_of_cons (isSignificant_of_fromOperand isOperand)
      simp only [isOther, same, noScript]
      exact .some (.cons same behind)

/-- A brace in front of an argument encloses something in both lists. -/
theorem Agree.beginsArgument_eq (agree : Agree first second) (answered : areAnswered first = true) :
    beginsArgument second = beginsArgument first := by
  cases agree with
  | idle without idle =>
      rw [beginsArgument_eq_false idle,
        beginsArgument_eq_false (all_isIdle_of_isSignificant without)]
  | @cons here other first second same later =>
      by_cases isBrace : here.token = .openBrace
      · obtain ⟨inner, rest, isInner⟩ :=
          List.exists_cons_of_ne_nil (fromOperand_ne_nil answered (.inr (.inr isBrace)))
        have both := later.fromOperand
        rw [isInner] at both
        obtain ⟨inner', rest', isInner', sameInner, _⟩ :=
          both.exists_of_cons (isSignificant_of_fromOperand isInner)
        simp only [beginsArgument, same, isBrace, isInner, isInner', sameInner]
      · obtain ⟨_, token, _⟩ := here
        obtain ⟨_, token', _⟩ := other
        obtain rfl : token' = token := same
        cases token' with
        | openBrace => exact absurd rfl isBrace
        | _ => rfl

theorem suffix_of_fromBase? (found : fromBase? first = some rest) : rest <:+ first := by
  fun_induction Lexeme.fromBase? first with
  | case1 =>
      cases found
      exact List.nil_suffix
  | case2 lexemes here after isOperand _ script isScript ih =>
      have skipped := fromOperand_suffix lexemes
      rw [isOperand] at skipped
      exact (ih found).trans
        ((suffix_of_afterScript? isScript).trans ((List.suffix_cons here after).trans skipped))
  | case3 => cases found
  | case4 lexemes here after isOperand _ =>
      cases found
      exact isOperand ▸ fromOperand_suffix lexemes

/-- Whether a list that starts with the operand of a function lacks its argument. -/
def lacksFromBase : List Lexeme → Bool
  | [] => true
  | first :: rest =>
      if first.token.isSign then !beginsArgument (fromOperand rest)
      else !beginsArgument (first :: rest)

theorem lacksArgument_eq (lexemes : List Lexeme) :
    lacksArgument lexemes = (fromBase? lexemes).any lacksFromBase := by
  unfold lacksArgument
  cases fromBase? lexemes with
  | none => rfl
  | some base => cases base <;> rfl

theorem lacksFromBase_of_isIdle (idle : second.all (·.token.isIdle) = true) :
    lacksFromBase second = true := by
  cases second with
  | nil => rfl
  | cons here second =>
      have noSign := (isScript_eq_false_of_isIdle (Bool.and_eq_true_iff.1 idle).1).2
      simp only [lacksFromBase, noSign, beginsArgument_eq_false idle]
      rfl

theorem Agree.lacksFromBase_eq (agree : Agree first second) (answered : areAnswered first = true) :
    lacksFromBase second = lacksFromBase first := by
  cases agree with
  | idle without idle =>
      rw [lacksFromBase_of_isIdle idle,
        lacksFromBase_of_isIdle (all_isIdle_of_isSignificant without)]
  | cons same later =>
      have answeredRest := (Bool.and_eq_true_iff.1 answered).2
      have operands := later.fromOperand.beginsArgument_eq
        (areAnswered_of_suffix answeredRest (fromOperand_suffix _))
      simp only [lacksFromBase, same, operands, (Agree.cons same later).beginsArgument_eq answered]

/-- Whether a function lacks its argument does not change. -/
theorem Agree.lacksArgument_eq (agree : Agree first second) (answered : areAnswered first = true) :
    lacksArgument second = lacksArgument first := by
  have bases := agree.fromBase? answered
  rw [Lexeme.lacksArgument_eq, Lexeme.lacksArgument_eq]
  cases isBase : Lexeme.fromBase? first with
  | none =>
      rw [isBase] at bases
      generalize Lexeme.fromBase? second = found at bases ⊢
      cases bases
      rfl
  | some base =>
      have answeredBase := areAnswered_of_suffix answered (suffix_of_fromBase? isBase)
      rw [isBase] at bases
      generalize Lexeme.fromBase? second = found at bases ⊢
      cases bases with
      | some agreeBase => exact agreeBase.lacksFromBase_eq answeredBase

/-- Whether a list of lexemes starts with an exponent.  An empty group is none. -/
def startsExponent : List Lexeme → Bool
  | [] => false
  | next :: rest =>
      if next.token = .openBrace then
        (rest.find? (·.token.isSignificant)).any (·.token != .closeBrace)
      else
        next.token.beginsExponent

theorem startsExponent_eq_false (idle : second.all (·.token.isIdle) = true) :
    startsExponent second = false := by
  cases second with
  | nil => rfl
  | cons here second =>
      rw [startsExponent]
      rcases Token.eq_of_isIdle (Bool.and_eq_true_iff.1 idle).1 with isToken | ⟨_, isToken⟩ | isToken <;>
        (rw [isToken]; rfl)

/-- Where there is an operand, there is something significant. -/
theorem find?_ne_none (some : fromOperand first ≠ []) :
    first.find? (·.token.isSignificant) ≠ none := by
  obtain ⟨here, rest, isOperand⟩ := List.exists_cons_of_ne_nil some
  have isMember : here ∈ first :=
    (fromOperand_suffix first).subset (isOperand ▸ List.mem_cons_self)
  exact fun none => List.find?_eq_none.1 none here isMember (isSignificant_of_fromOperand isOperand)

/-- A brace in front of an exponent encloses something in both lists. -/
theorem Agree.startsExponent_eq (agree : Agree first second) (answered : areAnswered first = true) :
    startsExponent second = startsExponent first := by
  cases agree with
  | idle without idle =>
      rw [startsExponent_eq_false idle,
        startsExponent_eq_false (all_isIdle_of_isSignificant without)]
  | @cons here other first second same later =>
      simp only [startsExponent, same]
      split
      · rename_i isBrace
        rcases later.find?_isSignificant with ⟨inner, inner', isInner, isInner', same⟩ | ⟨none, _⟩
        · rw [isInner, isInner', Option.any_some, Option.any_some, same]
        · exact absurd none (find?_ne_none (fromOperand_ne_nil answered (.inr (.inr isBrace))))
      · rfl

end Lexeme

end TexCalc

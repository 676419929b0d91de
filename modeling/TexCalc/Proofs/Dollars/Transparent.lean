import TexCalc.Proofs.Dollars.Checked
import TexCalc.Proofs.Dollars.Padded
import TexCalc.Proofs.Tex.Normal
import TexCalc.Proofs.Words.Accepted
import TexCalc.Proofs.Words.Modes

/-!
# Dollar signs are transparent

A formula between dollar signs has the lexemes of the formula in the middle, idle ones in front of
them and idle ones behind them.  The issues are those of the formula, one byte further on.

Dollar signs leave nothing in normal text, and comments leave nothing as well, so that the normal
texts of a formula and of the formula between dollar signs differ in spaces around them.  The two
formulas are therefore accepted together, and have the same symbols.  A formula that looks for
something behind its end finds the dollar sign there, which is an argument like any other
character: it is not transparent.
-/

namespace TexCalc

/-! ## Lexemes and issues -/

namespace Text

/-- A formula between dollar signs. -/
def inDollars (formula : Text) : Text :=
  '$' :: (formula ++ ['$'])

theorem all_head?_dropWhile (accept : Char → Bool) (text : Text) :
    (text.dropWhile accept).head?.all (!accept ·) = true := by
  have stops := List.head?_dropWhile_not accept text
  cases first : (text.dropWhile accept).head? with
  | none => rfl
  | some c =>
      rw [first] at stops
      rw [Option.all_some, stops]
      rfl

/-- A formula is its trimmed form between blanks, all leading blanks in front of it. -/
theorem exists_trim_append (formula : Text) : ∃ trail : Text, trail.all isBlank = true ∧
    formula = formula.takeWhile isBlank ++ (formula.trim ++ trail) ∧
      endsRun isBlank (formula.trim ++ trail) = true := by
  refine ⟨(formula.trimStart.reverse.takeWhile isBlank).reverse, ?_, ?_, ?_⟩
  · rw [List.all_reverse]
    exact List.all_takeWhile
  all_goals
    have back : formula.trim ++ (formula.trimStart.reverse.takeWhile isBlank).reverse =
        formula.trimStart := by
      rw [trim, trimEnd, ← List.reverse_append, List.takeWhile_append_dropWhile,
        List.reverse_reverse]
    rw [back]
  · exact List.takeWhile_append_dropWhile.symm
  · exact all_head?_dropWhile isBlank formula

theorem endsVisibly_trim (formula : Text) : formula.trim.endsVisibly = true := by
  rw [endsVisibly, trim, trimEnd, List.getLast?_reverse]
  exact all_head?_dropWhile isBlank formula.trimStart.reverse

theorem trim_inDollars (formula : Text) : formula.inDollars.trim = formula.inDollars := by
  have ends : formula.inDollars = ('$' :: formula) ++ ['$'] := rfl
  exact trim_eq_of_ends rfl ends rfl rfl

/-- What is read from a formula between dollar signs: a dollar sign and at most one lexeme of
blanks, and the formula in front of idle text. -/
theorem exists_lexemes_inDollars (formula : Text) : ∃ (front : List Lexeme) (trail : Text),
    (∀ lexeme ∈ front, lexeme.token = .mathShift ∨ lexeme.token = .blank) ∧
      trail.isIdle = true ∧
      formula.inDollars.lexemes =
        front ++ (formula.trim ++ trail).lexemesFrom
          (byteLength (formula.takeWhile isBlank) + 1) := by
  obtain ⟨trail, blank, whole, ends⟩ := formula.exists_trim_append
  have idle : (trail ++ ['$']).isIdle = true := by
    rw [isIdle, List.all_append, Bool.and_eq_true]
    exact ⟨List.all_eq_true.2 fun c isMember => by simp [List.all_eq_true.1 blank c isMember], rfl⟩
  have endsToo : endsRun isBlank (formula.trim ++ (trail ++ ['$'])) = true := by
    rw [← List.append_assoc]
    cases shape : formula.trim ++ trail with
    | nil => rfl
    | cons c rest => rwa [shape] at ends
  have leadBlank : (formula.takeWhile isBlank).all isBlank = true := List.all_takeWhile
  obtain ⟨front, isBlank, read⟩ := exists_lexemesFrom_blanks leadBlank endsToo 1
  refine ⟨⟨0, .mathShift, ['$']⟩ :: front, trail ++ ['$'], ?_, idle, ?_⟩
  · intro lexeme isMember
    rcases List.mem_cons.1 isMember with rfl | behind
    · exact .inl rfl
    · exact .inr (isBlank lexeme behind)
  · have split : formula.inDollars =
        '$' :: (formula.takeWhile TexCalc.isBlank ++ (formula.trim ++ (trail ++ ['$']))) := by
      rw [inDollars]
      conv => lhs; rw [whole]
      simp
    rw [Nat.add_comm] at read
    rw [split, lexemes, lexemesFrom, List.cons_append]
    exact congrArg (_ :: ·) read

end Text

namespace Translator

theorem map_key_issues {formula : Text} (contained : formula.isSelfContained = true) :
    (issues formula.inDollars).map Issue.key =
      (issues formula).map fun issue => (issue.shift 1).key := by
  obtain ⟨front, trail, isFront, idle, read⟩ := formula.exists_lexemes_inDollars
  let bytes := Text.byteLength (formula.takeWhile isBlank) + 1
  have matching : List.Forall₂ (Focus.Matches bytes trail)
      ((Focus.all formula.trim.lexemes).filter Focus.isLive)
      ((Focus.all formula.inDollars.lexemes).filter Focus.isLive) := by
    have idleFront : front.all (·.token.isIdle) = true := by
      refine List.all_eq_true.2 fun lexeme isMember => ?_
      rcases isFront lexeme isMember with isToken | isToken <;> rw [isToken] <;> rfl
    have nearest : Lexeme.SameNearest [] front.reverse := by
      intro test refused
      cases found : front.reverse.find? (·.token.isSignificant) with
      | none => rfl
      | some lexeme =>
          have isMember := List.mem_reverse.1 (List.mem_of_find?_eq_some found)
          have significant := List.find?_some found
          rcases isFront lexeme isMember with isToken | isToken
          · rw [Option.any_some, isToken, refused]
            rfl
          · rw [isToken] at significant
            cases significant
    have matching := Focus.forall₂_matches idle bytes formula.endsVisibly_trim contained nearest
    rw [Nat.zero_add] at matching
    rw [read, Focus.all, Focus.all, Focus.filter_isLive_append idleFront, List.append_nil]
    exact matching
  have keys := Issue.map_key_ordered (Issue.map_key_ofLexemes idle matching)
  have noBlanks : formula.inDollars.takeWhile isBlank = [] := rfl
  simp only [issues, Text.trim_inDollars, noBlanks, List.map_map]
  refine Eq.trans ?_ (keys.trans ?_)
  · rfl
  · refine List.map_congr_left fun issue _ => ?_
    simp [Issue.key, Issue.shift, bytes, Nat.add_assoc]

end Translator

/-! ## Normal text -/

/-- Lists that agree have the same tokens in front of idle ones. -/
theorem Lexeme.Agree.exists_append {first second : List Lexeme} (agree : Agree first second) :
    ∃ common left right : List Token, left.all Token.isIdle = true ∧
      right.all Token.isIdle = true ∧ first.map Lexeme.token = common ++ left ∧
        second.map Lexeme.token = common ++ right := by
  induction agree with
  | @idle first second without idle =>
      refine ⟨[], first.map Lexeme.token, second.map Lexeme.token, ?_, ?_, rfl, rfl⟩
      · rw [List.all_map]
        exact all_isIdle_of_isSignificant without
      · rwa [List.all_map]
  | @cons here other _ _ same _ ih =>
      obtain ⟨common, left, right, leftIdle, rightIdle, isFirst, isSecond⟩ := ih
      refine ⟨here.token :: common, left, right, leftIdle, rightIdle, ?_, ?_⟩
      · rw [List.map_cons, isFirst, List.cons_append]
      · rw [List.map_cons, isSecond, same, List.cons_append]

namespace Text

variable {trail : List Token}

/-- The normal text of idle tokens has nothing but spaces. -/
theorem all_flatMap_normal (idle : trail.all Token.isIdle = true) :
    (trail.flatMap Token.normal).all (· == ' ') = true := by
  rw [List.all_flatMap, List.all_eq_true]
  intro token isMember
  rcases Token.eq_of_isIdle (List.all_eq_true.1 idle token isMember) with
    rfl | ⟨text, rfl⟩ | rfl <;> rfl

theorem all_isInert_of_isIdle (idle : trail.all Token.isIdle = true) :
    trail.all Token.isInert = true := by
  rw [List.all_eq_true]
  intro token isMember
  rcases Token.eq_of_isIdle (List.all_eq_true.1 idle token isMember) with
    rfl | ⟨text, rfl⟩ | rfl <;> rfl

/-- The normal texts of a formula and of the formula between dollar signs differ in the spaces
around a common text. -/
theorem exists_normal_inDollars {formula : Text} (contained : formula.isSelfContained = true)
    (accepted : Translator.IsAccepted formula) :
    ∃ text lead trail trail' : Text, text.HasWordsOnly ∧ lead.all (· == ' ') = true ∧
      trail.all (· == ' ') = true ∧ trail'.all (· == ' ') = true ∧
        formula.normal = text ++ trail ∧ formula.inDollars.normal = lead ++ (text ++ trail') := by
  obtain ⟨front, trail, isFront, idle, read⟩ := formula.exists_lexemes_inDollars
  obtain ⟨common, left, right, leftIdle, rightIdle, isFirst, isSecond⟩ :=
    (Lexeme.agree_lexemesFrom idle formula.endsVisibly_trim contained
      (byteLength (formula.takeWhile isBlank) + 1)).exists_append
  have idleFront : (front.map Lexeme.token).all Token.isIdle = true := by
    rw [List.all_map, List.all_eq_true]
    intro lexeme isMember
    rcases isFront lexeme isMember with isToken | isToken <;>
      rw [Function.comp_apply, isToken] <;> rfl
  have known : ∀ token ∈ common, token.isKnown = true := by
    intro token isMember
    have inFormula : token ∈ formula.trim.lexemes.map Lexeme.token :=
      isFirst ▸ List.mem_append_left left isMember
    obtain ⟨lexeme, isLexeme, rfl⟩ := List.mem_map.1 inFormula
    exact Token.isKnown_of_issues_eq_nil (List.map_eq_nil_iff.1 accepted) isLexeme
  refine ⟨ofTokens false common, (front.map Lexeme.token).flatMap Token.normal,
    left.flatMap Token.normal, right.flatMap Token.normal, hasWordsOnly_ofTokens known false,
    all_flatMap_normal idleFront, all_flatMap_normal leftIdle, all_flatMap_normal rightIdle, ?_, ?_⟩
  · rw [normal, lexemes, isFirst, ofTokens_append_inert (all_isInert_of_isIdle leftIdle)]
  · rw [normal, trim_inDollars, read, List.map_append,
      ofTokens_inert_append (all_isInert_of_isIdle idleFront), isSecond,
      ofTokens_append_inert (all_isInert_of_isIdle rightIdle)]

end Text

namespace Translator

variable {translator : Translator} {formula : Text}

/-- A formula is accepted between dollar signs exactly when it is accepted. -/
theorem isAccepted_inDollars_iff (contained : formula.isSelfContained = true) :
    IsAccepted formula.inDollars ↔ IsAccepted formula := by
  have keys := congrArg List.length (map_key_issues contained)
  rw [List.length_map, List.length_map] at keys
  rw [IsAccepted, IsAccepted, ← List.length_eq_zero_iff, keys, List.length_eq_zero_iff]

theorem symbols_inDollars (contained : formula.isSelfContained = true)
    (accepted : IsAccepted formula) :
    translator.symbols formula.inDollars = translator.symbols formula := by
  obtain ⟨text, lead, trail, trail', only, leadSpaces, trailSpaces, trailSpaces', isNormal,
    isNormal'⟩ := Text.exists_normal_inDollars contained accepted
  rw [symbols, symbols, isNormal, isNormal', Text.linear_spaces_append _ _ leadSpaces,
    Text.linear_append_spaces _ _ trailSpaces only, Text.linear_append_spaces _ _ trailSpaces' only]

theorem reportDespite_inDollars (contained : formula.isSelfContained = true)
    (accepted : IsAccepted formula) (issues : List Issue) :
    translator.reportDespite formula.inDollars issues = translator.reportDespite formula issues := by
  have trimmed (formula : Text) : translator.symbols formula.trim = translator.symbols formula := by
    rw [symbols, symbols, Text.normal_trim]
  rw [reportDespite, reportDespite, trimmed, trimmed, symbols_inDollars contained accepted]

/-- Strict mode fails with the first issue. -/
theorem report_eq_error_iff (isStrict : translator.options.strict = true) {issue : Issue} :
    translator.report formula = .error issue ↔ (issues formula).head? = some issue := by
  rw [Translator.report, isStrict, if_pos rfl]
  cases issues formula <;> simp

/-- In strict mode a self-contained formula has the same report between dollar signs, or it fails
with an issue of the same kind, one byte further on. -/
theorem report_inDollars (isStrict : translator.options.strict = true)
    (contained : formula.isSelfContained = true) :
    (∀ report, translator.report formula.inDollars = .ok report ↔
      translator.report formula = .ok report) ∧
    (∀ issue, translator.report formula = .error issue →
      ∃ wrapped, translator.report formula.inDollars = .error wrapped ∧
        wrapped.kind = issue.kind ∧ wrapped.offset = issue.offset + 1) := by
  constructor
  · intro report
    rw [report_eq_ok_iff isStrict, report_eq_ok_iff isStrict, isAccepted_inDollars_iff contained]
    refine and_congr_right fun accepted => ?_
    rw [reportDespite_inDollars contained accepted]
  · intro issue failed
    have first := (report_eq_error_iff isStrict).1 failed
    have keys := congrArg List.head? (map_key_issues contained)
    rw [List.head?_map, List.head?_map, first, Option.map_some] at keys
    obtain ⟨wrapped, isFirst, same⟩ := Option.map_eq_some_iff.1 keys
    exact ⟨wrapped, (report_eq_error_iff isStrict).2 isFirst, congrArg Prod.fst same,
      congrArg Prod.snd same⟩

theorem report_inDollars_of_fraction :
    Text.isSelfContained "\\frac{x}{2}".toList = true ∧
      Translator.report {} (Text.inDollars "\\frac{x}{2}".toList) = .ok ⟨"((x)/(2))".toList, []⟩ ∧
        Text.isSelfContained "\\sqrt{}".toList = true ∧
          ∃ wrapped, Translator.report {} (Text.inDollars "\\sqrt{}".toList) = .error wrapped ∧
            wrapped.kind = .malformed ∧ wrapped.offset = 1 :=
  have contained : Text.isSelfContained "\\frac{x}{2}".toList = true := by decide +kernel
  have reported : Translator.report {} "\\frac{x}{2}".toList = .ok ⟨"((x)/(2))".toList, []⟩ :=
    eq_ok_of_toOption (by decide +kernel)
  have containedRoot : Text.isSelfContained "\\sqrt{}".toList = true := by decide +kernel
  have failed : Translator.report {} "\\sqrt{}".toList =
      .error ⟨0, .malformed (.emptyArgument "sqrt".toList)⟩ :=
    (report_eq_error_iff rfl).2 (by decide +kernel)
  ⟨contained, ((report_inDollars rfl contained).1 _).2 reported, containedRoot,
    (report_inDollars rfl containedRoot).2 _ failed⟩

/-- The root takes the closing dollar sign for its argument, and is left over when the dollar sign
is dropped. -/
theorem report_inDollars_ne_of_root :
    Translator.report {} "\\sqrt".toList =
        .error ⟨0, .malformed (.missingArgument "sqrt".toList)⟩ ∧
      Translator.report {} (Text.inDollars "\\sqrt".toList) =
        .ok ⟨[], [.removed "sqrt".toList]⟩ :=
  ⟨(report_eq_error_iff rfl).2 (by decide +kernel), eq_ok_of_toOption (by decide +kernel)⟩

end Translator

end TexCalc

import TexCalc.Proofs.Check.Accounts
import TexCalc.Proofs.Dollars.Transparent
import TexCalc.Tex.Extent

/-!
# The places of issues

An issue is found at a lexeme, and its offset is that of this lexeme: the delimiter without a
partner, the command or script that lacks something, the last of the bars, or what has no meaning
or no target form.  None of these is a run of blanks.  In a formula with blanks around it the offset
is moved by the blanks in front, so that it points at the first character of the lexeme in the
formula as it was given.
-/

namespace TexCalc

/-- The pair that a token opens or closes, a `\left` or `\right` standing for the delimiter behind
it. -/
def Token.pair? (token : Token) : Option (Delimiter × Bool) :=
  match token.side? with
  | some side => some (.sized, side == .left)
  | none => token.delimiter?

/-- A fault is one of the given token, and not of some other token near it. -/
def Fault.IsOf (token : Token) : Fault → Prop
  | malformed (.unclosed delimiter) => token.pair? = some (delimiter, true)
  | malformed (.unopened closer) =>
      (∃ delimiter, token.pair? = some (delimiter, false)) ∧ token.print <+: closer
  | malformed (.unsized side) => token.side? = some side
  | malformed (.emptyArgument command) => token = .control command
  | malformed (.missingArgument command) => token = .control command
  | malformed (.missingArguments command) => token = .control command
  | malformed .emptyIndex => token = .control "sqrt".toList
  | malformed .missingBase => token = .subscript
  | malformed .oddBars => token = .char '|'
  | malformed (.described _ _) => False
  | unknown name => token.print = '\\' :: name
  | exponent _ => token = .superscript
  | unsupported fragment => (token = .subscript ∨ ∃ c, token = .char c) ∧ token.print <+: fragment

/-- An issue points at a token of a formula whose fault it is.  The offset of the token in the
trimmed formula is counted from the blanks in front of it, and in the formula as it was given the
token begins there with a character that is no blank. -/
structure Issue.PointsInto (formula : Text) (issue : Issue) : Prop where
  exists_token : ∃ lexeme ∈ formula.trim.lexemes, issue.fault.IsOf lexeme.token ∧
    issue.offset = Text.byteLength (formula.takeWhile isBlank) + lexeme.offset
  inside : issue.offset < formula.byteLength
  visible : ∃ (lead : Text) (c : Char) (rest : Text),
    formula.splitAtByte? issue.offset = some (lead, c :: rest) ∧ isBlank c = false

/-! ## The tokens at fault -/

namespace Malformation

variable {command text : Text} {malformation : Malformation}

theorem isOf_ofFraction? {count : Nat}
    (found : ofFraction? command count text = some malformation) :
    (Fault.malformed malformation).IsOf (.control command) := by
  induction count generalizing text with
  | zero => cases found
  | succ count ih =>
      simp only [ofFraction?] at found
      split at found
      · exact ih found
      · cases found
        rfl
      · cases found
        rfl
      · cases found

theorem isOf_ofRadicand? (found : ofRadicand? command text = some malformation) :
    (Fault.malformed malformation).IsOf (.control command) := by
  unfold ofRadicand? at found
  split at found <;> cases found <;> rfl

theorem isOf_ofRoot? (isRoot : Command.isRoot command = true)
    (found : ofRoot? command text = some malformation) :
    (Fault.malformed malformation).IsOf (.control command) := by
  unfold ofRoot? at found
  split at found
  · split at found
    · split at found
      · cases found
        exact congrArg Token.control (of_decide_eq_true isRoot)
      · exact isOf_ofRadicand? found
    · cases found
  · exact isOf_ofRadicand? found

end Malformation

/-- Each lexeme of a text is read from the character at its offset. -/
theorem Text.exists_of_mem_lexemesFrom {offset : Nat} {text : Text} {lexeme : Lexeme}
    (isMember : lexeme ∈ text.lexemesFrom offset) : ∃ (lead : Text) (c : Char) (rest : Text),
      text = lead ++ c :: rest ∧ lexeme =
        ⟨offset + lead.byteLength, (Token.read c rest).token, c :: (Token.read c rest).taken⟩ := by
  fun_induction lexemesFrom offset text with
  | case1 => cases isMember
  | case2 offset c rest reading source ih =>
      rcases List.mem_cons.1 isMember with rfl | isLater
      · exact ⟨[], c, rest, rfl, rfl⟩
      · obtain ⟨lead, d, after, split, rfl⟩ := ih isLater
        refine ⟨source ++ lead, d, after, ?_, ?_⟩
        · rw [List.append_assoc, ← split, List.cons_append, Token.read_append]
        · rw [byteLength_append, Nat.add_assoc]

theorem Token.eq_of_read_subscript {c : Char} {rest : Text}
    (isSubscript : (read c rest).token = .subscript) : c = '_' := by
  unfold read at isSubscript
  split at isSubscript
  · split at isSubscript <;> cases isSubscript
  case h_7 => rfl
  case h_9 => split at isSubscript <;> cases isSubscript
  all_goals cases isSubscript

namespace Focus

variable {focus : Focus} {fault : Fault}

theorem here_mem {lexemes : List Lexeme} (isFocus : focus ∈ all lexemes) : focus.here ∈ lexemes := by
  rw [← map_here_all lexemes]
  exact List.mem_map_of_mem isFocus

theorem isOf_controlFault? {name : Text} (isControl : focus.here.token = .control name)
    (found : focus.controlFault? name = some fault) : fault.IsOf focus.here.token := by
  unfold controlFault? at found
  split at found
  · rename_i side isSide
    split at found <;> cases found
    exact isSide
  · rw [isControl]
    split at found
    · obtain ⟨malformation, isFault, rfl⟩ := Option.map_eq_some_iff.1 found
      exact Malformation.isOf_ofFraction? isFault
    · split at found
      · rename_i isRoot
        obtain ⟨malformation, isFault, rfl⟩ := Option.map_eq_some_iff.1 found
        exact Malformation.isOf_ofRoot? isRoot isFault
      · split at found
        · cases found
          rfl
        · split at found <;> cases found
          rfl

/-- The fault of a lexeme in focus is a fault of its token. -/
theorem isOf_fault? {text : Text} (isFocus : focus ∈ all text.lexemes)
    (found : focus.fault? = some fault) : fault.IsOf focus.here.token := by
  obtain ⟨lead, c, rest, -, isHere⟩ := Text.exists_of_mem_lexemesFrom (here_mem isFocus)
  unfold fault? at found
  split at found
  · rename_i name isControl
    exact isOf_controlFault? isControl found
  · rename_i isSuperscript
    unfold exponentFault? at found
    split at found <;> cases found
    exact isSuperscript
  · rename_i isSubscript
    have mark : c = '_' := by
      rw [isHere] at isSubscript
      exact Token.eq_of_read_subscript isSubscript
    unfold subscriptFault? at found
    split at found
    · split at found <;> cases found <;> exact isSubscript
    · cases found
      refine ⟨.inl isSubscript, ?_⟩
      rw [isSubscript, isHere, mark]
      exact List.prefix_append _ _
  · rename_i d isChar
    rw [isChar]
    split at found
    · rename_i backslash
      cases found
      rw [backslash]
      rfl
    · split at found <;> cases found
      exact ⟨.inr ⟨d, rfl⟩, List.prefix_refl _⟩
  · cases found

/-- The token in focus opens or closes the pair of the delimiter that it is. -/
theorem pair?_of_event? {event : DelimiterEvent} (found : focus.event? = some event) :
    focus.here.token.pair? = some (event.delimiter, event.opens) ∧
      focus.here.token.print <+: event.source := by
  cases isSide : focus.here.token.side? with
  | some side =>
      simp only [event?, isSide] at found
      obtain ⟨delimiter, -, rfl⟩ := Option.map_eq_some_iff.1 found
      simp only [Token.pair?, isSide]
      exact ⟨trivial, List.prefix_append _ _⟩
  | none =>
      simp only [event?, isSide] at found
      split at found
      · cases found
      · obtain ⟨⟨delimiter, opens⟩, isDelimiter, rfl⟩ := Option.map_eq_some_iff.1 found
        simp only [Token.pair?, isSide]
        exact ⟨isDelimiter, List.prefix_refl _⟩

end Focus

/-- The fault of a delimiter without a partner is a fault of its token. -/
theorem DelimiterEvent.isOf_lone {focus : Focus} {event : DelimiterEvent}
    (found : focus.event? = some event) : event.lone.fault.IsOf focus.here.token := by
  obtain ⟨isPair, isSource⟩ := Focus.pair?_of_event? found
  rw [lone]
  split
  · rename_i opens
    rw [opens] at isPair
    exact isPair
  · rename_i closes
    rw [Bool.not_eq_true] at closes
    rw [closes] at isPair
    exact ⟨⟨_, isPair⟩, isSource⟩

theorem Fault.not_isOf_blank (fault : Fault) : ¬ fault.IsOf .blank := by
  intro isOf
  cases fault with
  | malformed malformation =>
      cases malformation with
      | unopened closer => obtain ⟨⟨_, isPair⟩, -⟩ := isOf; cases isPair
      | _ => cases isOf
  | unsupported fragment =>
      obtain ⟨isSubscript | ⟨c, isChar⟩, -⟩ := isOf
      · cases isSubscript
      · cases isChar
  | _ => cases isOf

/-! ## Places in a formula -/

/-- Every issue of a text is found at a lexeme whose fault it is. -/
theorem Text.exists_lexeme_of_mem_issues {text : Text} {issue : Issue}
    (isIssue : issue ∈ text.issues) :
    ∃ lexeme ∈ text.lexemes, issue.fault.IsOf lexeme.token ∧ issue.offset = lexeme.offset := by
  have unordered := (List.mergeSort_perm _ _).mem_iff.1 isIssue
  rw [Issue.ofLexemes, List.mem_append, List.mem_append] at unordered
  rcases unordered with (single | unmatched) | bars
  · obtain ⟨focus, isFocus, found⟩ := List.mem_filterMap.1 single
    obtain ⟨fault, isFault, rfl⟩ := Option.map_eq_some_iff.1 found
    exact ⟨focus.here, Focus.here_mem isFocus, Focus.isOf_fault? isFocus isFault, rfl⟩
  · have isLone := (DelimiterEvent.perm_unmatched _).mem_iff.1 (List.mem_append_left _ unmatched)
    obtain ⟨event, isEvent, rfl⟩ := List.mem_map.1 isLone
    obtain ⟨focus, isFocus, found⟩ := List.mem_filterMap.1 isEvent
    refine ⟨focus.here, Focus.here_mem isFocus, DelimiterEvent.isOf_lone found, ?_⟩
    rw [DelimiterEvent.offset_lone, Focus.offset_of_event? found]
  · rw [Option.mem_toList, Issue.oddBars?] at bars
    split at bars
    · obtain ⟨last, isLast, rfl⟩ := Option.map_eq_some_iff.1 bars
      obtain ⟨isFocus, isBar⟩ := List.mem_filter.1 (List.mem_of_getLast? isLast)
      rw [Focus.isBar, Bool.and_eq_true] at isBar
      exact ⟨last.here, Focus.here_mem isFocus, eq_of_beq isBar.1, rfl⟩
    · cases bars

namespace Translator

variable {translator : Translator} {formula : Text}

/-- Every issue of a formula points at the token that is at fault. -/
theorem pointsInto_of_mem_issues {issue : Issue} (isIssue : issue ∈ issues formula) :
    issue.PointsInto formula := by
  obtain ⟨found, isFound, rfl⟩ := List.mem_map.1 isIssue
  obtain ⟨lexeme, isLexeme, isOf, place⟩ := Text.exists_lexeme_of_mem_issues isFound
  obtain ⟨lead, c, rest, split, same⟩ := Text.exists_of_mem_lexemesFrom isLexeme
  obtain ⟨trail, -, whole, -⟩ := formula.exists_trim_append
  have offset : (found.shift (Text.byteLength (formula.takeWhile isBlank))).offset =
      Text.byteLength (formula.takeWhile isBlank ++ lead) := by
    rw [Issue.offset_shift, place, same, Text.byteLength_append]
    simp only
    omega
  have isSplit : formula.splitAtByte? (Text.byteLength (formula.takeWhile isBlank ++ lead)) =
      some (formula.takeWhile isBlank ++ lead, c :: (rest ++ trail)) := by
    rw [Text.splitAtByte?_eq_some_iff]
    refine ⟨?_, rfl⟩
    conv => lhs; rw [whole, split]
    simp only [List.append_assoc, List.cons_append]
  refine ⟨⟨lexeme, isLexeme, isOf, ?_⟩, ?_, ?_⟩
  · rw [Issue.offset_shift, place, Nat.add_comm]
  · have length := congrArg Text.byteLength (Text.splitAtByte?_eq_some_iff.1 isSplit).1
    have positive := Text.byteLength_cons_pos c (rest ++ trail)
    rw [Text.byteLength_append _ (c :: (rest ++ trail))] at length
    omega
  · refine ⟨_, c, _, offset ▸ isSplit, ?_⟩
    rw [← Bool.not_eq_true]
    intro blank
    rw [same] at isOf
    simp only [Token.read_of_isBlank blank] at isOf
    exact found.fault.not_isOf_blank isOf

/-- The issues of a formula are in the order of their places. -/
theorem pairwise_offset_issues (formula : Text) :
    (issues formula).Pairwise (·.offset ≤ ·.offset) := by
  rw [issues, List.pairwise_map]
  apply (Issue.pairwise_offset_ordered _).imp
  intro first second before
  exact Nat.add_le_add_right before _

/-- A warning that a control sequence was removed has no place. -/
theorem offset_eq_none_of_mem_warnings {symbols : List Symbol} {warning : Warning}
    (isWarning : warning ∈ (Report.ofSymbols symbols).warnings) : warning.offset = none := by
  obtain ⟨name, -, rfl⟩ := List.mem_map.1 isWarning
  rfl

/-- In either mode, an issue that ends the translation points at the token at fault.  Every warning
with a place is made from an issue that does so, and the places of warnings never go back. -/
theorem pointsInto_of_report (translator : Translator) (formula : Text) :
    (∀ issue, translator.report formula = .error issue → issue.PointsInto formula) ∧
      ∀ report, translator.report formula = .ok report →
        (∀ warning ∈ report.warnings, warning.offset.isSome = true →
          ∃ issue : Issue, warning = .ofIssue issue ∧ issue.PointsInto formula) ∧
        (report.warnings.filterMap Warning.offset).Pairwise (· ≤ ·) := by
  constructor
  · intro issue failed
    rw [report] at failed
    split at failed
    · split at failed <;> cases failed
      rename_i same
      exact pointsInto_of_mem_issues (same ▸ List.mem_cons_self)
    · cases failed
  · intro report reported
    obtain rfl : report = translator.reportDespite formula (issues formula) := by
      rw [Translator.report] at reported
      split at reported
      · split at reported <;> cases reported
        rename_i none
        rw [none]
      · cases reported
        rfl
    constructor
    · intro warning isWarning located
      rcases List.mem_append.1 isWarning with isIssue | isRemoved
      · obtain ⟨issue, isSource, rfl⟩ := List.mem_map.1 isIssue
        exact ⟨issue, rfl, pointsInto_of_mem_issues isSource⟩
      · rw [offset_eq_none_of_mem_warnings isRemoved] at located
        cases located
    · have places : ((issues formula).map Warning.ofIssue).filterMap Warning.offset =
          (issues formula).map Issue.offset := by
        rw [List.filterMap_map]
        exact congrFun List.filterMap_eq_map _
      have removed : (Report.ofSymbols (translator.symbols formula.trim)).warnings.filterMap
          Warning.offset = [] :=
        List.filterMap_eq_nil_iff.2 fun _ => offset_eq_none_of_mem_warnings
      rw [reportDespite, List.filterMap_append, places, removed, List.append_nil, List.pairwise_map]
      exact pairwise_offset_issues formula

/-- Behind a wide blank the letter is at fault first, and the fraction, whose offset counts two bytes
for that letter, lacks an argument. -/
theorem pointsInto_of_report_of_fraction :
    let formula : Text := '\u2003' :: 'é' :: "+\\frac{a}".toList
    Translator.report {} formula = .error ⟨3, .unsupported ['é']⟩ ∧
      (⟨3, .unsupported ['é']⟩ : Issue).PointsInto formula ∧
        ∃ report, Translator.report { options := .lenient } formula = .ok report ∧
          (∀ warning ∈ report.warnings, warning.offset.isSome = true →
            ∃ issue : Issue, warning = .ofIssue issue ∧ issue.PointsInto formula) ∧
          report.warnings.filterMap Warning.offset = [3, 6] ∧
            (report.warnings.filterMap Warning.offset).Pairwise (· ≤ ·) := by
  intro formula
  have found : Issue.ofLexemes formula.trim.lexemes =
      [⟨0, .unsupported ['é']⟩, ⟨3, .malformed (.missingArguments "frac".toList)⟩] := by
    decide +kernel
  have isIssues : issues formula =
      [⟨3, .unsupported ['é']⟩, ⟨6, .malformed (.missingArguments "frac".toList)⟩] := by
    rw [issues, Text.issues, Issue.ordered, found, List.mergeSort_of_pairwise (by decide)]
    decide +kernel
  have failed : Translator.report {} formula = .error ⟨3, .unsupported ['é']⟩ := by
    rw [report_eq_error_iff rfl, isIssues]
    rfl
  obtain ⟨located, ordered⟩ := (pointsInto_of_report { options := .lenient } formula).2 _ rfl
  refine ⟨failed, (pointsInto_of_report {} formula).1 _ failed, _, rfl, located, ?_, ordered⟩
  rw [isIssues]
  decide +kernel

end Translator

end TexCalc

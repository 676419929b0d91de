import TexCalc.Proofs.Dollars.Transparent
import TexCalc.Proofs.Spacing.Checked
import TexCalc.Proofs.Words.Modes

/-!
# Interchangeable spacing

A blank inside a formula, an unbreakable blank and a spacing command all leave a space in the normal
text.  Where the check passes a formula with one of them and with the other, both formulas are
therefore translated in the same way.  The check itself takes ties and spacing commands for
something significant in front of a script and behind a `^`, a `\left` or a `\right`.
-/

namespace TexCalc

/-! ## Normal text with another spacer -/

namespace Text

/-- The last token that is no blank takes no delimiter. -/
def TakesNone (tokens : List Token) : Prop :=
  ∀ token, tokens.reverse.find? (!·.isBlank) = some token → token.side? = none

theorem TakesNone.of_suffix {tokens rest : List Token} (none : TakesNone tokens)
    (ending : rest <:+ tokens) : TakesNone rest := by
  obtain ⟨lead, rfl⟩ := ending
  intro token found
  refine none token ?_
  rw [List.reverse_append, List.find?_append, found, Option.some_or]

/-- Tokens with the same normal text may be exchanged behind tokens that take none of them. -/
theorem ofTokens_append_congr {first second : List Token}
    (same : ∀ isOpen, ofTokens isOpen second = ofTokens isOpen first) {front : List Token}
    (takesNone : TakesNone front) (isOpen : Bool) :
    ofTokens isOpen (front ++ second) = ofTokens isOpen (front ++ first) := by
  fun_induction ofTokens isOpen front with
  | case1 isOpen => exact same isOpen
  | case2 isOpen token rest side isSide next later after delimiter isDelimiter ih =>
      have longer (trail : List Token) :
          (rest ++ trail).dropWhile Token.isBlank = next :: (later ++ trail) := by
        rw [List.dropWhile_append, after, if_neg (by simp), List.cons_append]
      have ending : later <:+ token :: rest :=
        .trans ((List.suffix_cons next later).trans (after ▸ List.dropWhile_suffix _))
          (List.suffix_cons token rest)
      rw [List.cons_append, List.cons_append, ofTokens_side isSide, ofTokens_side isSide, longer,
        longer]
      simp only [isDelimiter]
      rw [ih (takesNone.of_suffix ending)]
  | case3 isOpen token rest side isSide next later after noDelimiter ih =>
      have longer (trail : List Token) :
          (rest ++ trail).dropWhile Token.isBlank = next :: (later ++ trail) := by
        rw [List.dropWhile_append, after, if_neg (by simp), List.cons_append]
      rw [List.cons_append, List.cons_append, ofTokens_side isSide, ofTokens_side isSide, longer,
        longer]
      simp only [noDelimiter]
      exact ih (takesNone.of_suffix (List.suffix_cons token rest))
  | case4 isOpen token rest side isSide nothing ih =>
      -- The side is the last token that is no blank.
      have whole : rest.takeWhile Token.isBlank ++ rest.dropWhile Token.isBlank = rest :=
        List.takeWhile_append_dropWhile
      rw [nothing, List.append_nil] at whole
      have blanks : rest.reverse.find? (!·.isBlank) = none := by
        refine List.find?_eq_none.2 fun other isMember => ?_
        rw [List.mem_reverse, ← whole] at isMember
        simp [List.all_eq_true.1 List.all_takeWhile other isMember]
      have visible : (!token.isBlank) = true := by
        cases token <;> first | rfl | cases isSide
      have noSide := takesNone token (by
        rw [List.reverse_cons, List.find?_append, blanks, Option.none_or, List.find?_cons, visible])
      rw [isSide] at noSide
      cases noSide
  | case5 isOpen rest isSide ih =>
      rw [List.cons_append, List.cons_append, ofTokens, ofTokens, isSide]
      simp only [if_true]
      rw [ih (takesNone.of_suffix (List.suffix_cons _ rest))]
  | case6 isOpen token rest isSide noBar ih =>
      rw [List.cons_append, List.cons_append, ofTokens, ofTokens, isSide]
      simp only [if_neg noBar]
      rw [ih (takesNone.of_suffix (List.suffix_cons token rest))]

end Text

namespace Focus

variable {focus : Focus}

/-- Where a neighbour would notice a visible spacer anyway, it takes no delimiter. -/
theorem takesNone (unbridged : focus.isBridged = false) :
    Text.TakesNone (focus.before.reverse.map Lexeme.token) := by
  intro token found
  rw [← List.map_reverse, List.reverse_reverse, List.find?_map, Option.map_eq_some_iff] at found
  obtain ⟨lexeme, found, rfl⟩ := found
  obtain ⟨visible, gap, rest, whole, blanks⟩ := List.find?_eq_some_iff_append.1 found
  cases isSide : lexeme.token.side? with
  | none => rfl
  | some side =>
      have significant : lexeme.token.isSignificant = true := by
        cases isToken : lexeme.token <;> rw [isToken] at isSide <;> first | rfl | cases isSide
      have nothing : gap.find? (·.token.isSignificant) = none := by
        refine List.find?_eq_none.2 fun other isMember => ?_
        have blank := blanks other isMember
        simp only [Function.comp_apply, Bool.not_not] at blank
        simp [Token.isSignificant, blank]
      have isPrevious : focus.previous? = some lexeme := by
        rw [previous?, whole, List.find?_append, nothing, Option.none_or, List.find?_cons,
          significant]
      rw [isBridged, isPrevious, Option.any_some, isSide] at unbridged
      cases unbridged

/-- Whether no neighbour notices that the spacer is put in the place of the blank in focus. -/
def isInterchangeable (focus : Focus) (spacer : Spacer) : Bool :=
  (!focus.isSought || (focus.here.source.all isAsciiBlank && spacer.isSkipped)) &&
    (spacer.isBlank || (!focus.isBridged && !focus.isAlone))

theorem isInterchangeable_iff {spacer : Spacer} : focus.isInterchangeable spacer = true ↔
    (focus.isSought = true → focus.here.source.all isAsciiBlank = true ∧ spacer.isSkipped = true) ∧
      (spacer.isBlank = true ∨ focus.isBridged = false ∧ focus.isAlone = false) := by
  rw [isInterchangeable, Bool.and_eq_true, Bool.or_eq_true, Bool.or_eq_true, Bool.and_eq_true,
    Bool.and_eq_true, Bool.not_eq_true', Bool.not_eq_true', Bool.not_eq_true']
  refine and_congr_left' ⟨fun either sought => ?_, fun skips => ?_⟩
  · exact either.resolve_left (by simp [sought])
  · cases sought : focus.isSought with
    | true => exact .inr (skips sought)
    | false => exact .inl rfl

end Focus

/-! ## Formulas that differ in a spacer -/

/-- Two formulas, the blank in focus in one of them being another spacer in the other. -/
structure Focus.IsRespaced (focus : Focus) (spacer : Spacer) (formula other : Text) : Prop where
  isFocus : focus ∈ Focus.all formula.trim.lexemes
  isBlank : focus.here.token = .blank
  untorn : focus.isTornBy spacer = false
  isOther : other.trim = focus.respaced spacer

namespace Focus.IsRespaced

variable {focus : Focus} {spacer : Spacer} {formula other : Text}
  (respaced : focus.IsRespaced spacer formula other)

include respaced

/-- The lexemes of both formulas. -/
theorem exists_exchanges : ∃ (old : Spacer) (second : Focus),
    old.isBlank = true ∧ old.isSkipped = focus.here.source.all isAsciiBlank ∧
      Exchanges old spacer focus second ∧
        formula.trim.lexemes = focus.before.reverse ++ focus.here :: focus.after ∧
          other.trim.lexemes = second.before.reverse ++ second.here :: second.after := by
  have isLexed := eq_of_mem_all respaced.isFocus
  obtain ⟨nonempty, isAllBlank⟩ := Text.source_of_isBlank isLexed respaced.isBlank
  obtain ⟨later, copies, lexed⟩ :=
    exists_lexemes_respaced respaced.isFocus respaced.isBlank respaced.untorn
  exact ⟨.blanks focus.here.source nonempty isAllBlank, ⟨focus.before, _, later⟩, rfl, rfl,
    ⟨rfl, copies, respaced.isBlank, rfl, rfl, rfl⟩, isLexed, respaced.isOther ▸ lexed⟩

/-- Both formulas have the same normal text, unless a neighbour takes a visible spacer for
something else. -/
theorem normal_eq (quiet : spacer.isBlank = true ∨ focus.isBridged = false) :
    other.normal = formula.normal := by
  obtain ⟨old, second, oldBlank, _, exchanges, lexed, lexed'⟩ := respaced.exists_exchanges
  rw [Text.normal, Text.normal, lexed, lexed', List.map_append, List.map_append, List.map_cons,
    List.map_cons, exchanges.before, exchanges.oldToken, exchanges.newToken,
    Lexeme.map_token_copies exchanges.after]
  rcases quiet with blank | unbridged
  · have same : spacer.token = old.token := by
      rw [Spacer.isBlank, beq_iff_eq] at blank oldBlank
      rw [blank, oldBlank]
    rw [same]
  · refine Text.ofTokens_append_congr (fun isOpen => ?_) (takesNone unbridged) false
    rw [spacer.ofTokens_token, old.ofTokens_token]

/-- Nothing is hidden between a lexeme in front of the blank and the blank. -/
theorem hidesNext_following {earlier : Focus} (isEarlier : earlier ∈ all focus.before.reverse) :
    Text.hidesNext false earlier.following = false := by
  have isLexed := eq_of_mem_all respaced.isFocus
  rw [eq_of_mem_all isEarlier, ← List.singleton_append, List.append_assoc, List.append_assoc,
    ← List.append_assoc] at isLexed
  obtain ⟨place, lexed⟩ := Text.exists_lexemesFrom_of_append isLexed
  exact Text.hidesNext_ofLexemes lexed

end Focus.IsRespaced

namespace Translator

theorem isAccepted_iff {formula : Text} :
    IsAccepted formula ↔ Issue.ofLexemes formula.trim.lexemes = [] := by
  rw [IsAccepted, issues, List.map_eq_nil_iff]
  refine ⟨Issue.ofLexemes_eq_nil, fun none => ?_⟩
  rw [Text.issues, none]
  exact List.mergeSort_nil

section

variable {translator : Translator} (isStrict : translator.options.strict = true)
  {focus : Focus} {spacer : Spacer} {formula other : Text}
  (respaced : focus.IsRespaced spacer formula other)

include respaced

/-- The check that passes a formula passes it with another spacer if no neighbour notices. -/
theorem isAccepted_respaced (accepted : IsAccepted formula)
    (quiet : spacer.isBlank = true ∨ focus.isBridged = false)
    (skips : focus.isSought = true → focus.here.source.all isAsciiBlank = true) :
    IsAccepted other := by
  obtain ⟨old, second, oldBlank, oldSkipped, exchanges, lexed, lexed'⟩ := respaced.exists_exchanges
  have permits : focus.Permits old spacer :=
    { unbridged := fun bridged => ⟨oldBlank, quiet.resolve_right (by simp [bridged])⟩
      unsought := fun sought => oldSkipped ▸ skips sought
      accompanied := fun _ _ => oldBlank }
  rw [isAccepted_iff, lexed] at accepted
  rw [isAccepted_iff, lexed']
  exact Issue.ofLexemes_eq_nil_of_fits
    (exchanges.forall₂_fits_all permits fun _ => respaced.hidesNext_following) accepted

/-- The check that passes a formula with another spacer passes the formula if no neighbour
notices. -/
theorem isAccepted_of_respaced (accepted : IsAccepted other)
    (interchangeable : focus.isInterchangeable spacer = true) : IsAccepted formula := by
  obtain ⟨old, second, oldBlank, oldSkipped, exchanges, lexed, lexed'⟩ := respaced.exists_exchanges
  obtain ⟨skips, quiet⟩ := Focus.isInterchangeable_iff.1 interchangeable
  have permits : second.Permits spacer old := by
    refine ⟨fun bridged => ⟨?_, oldBlank⟩, fun sought => ?_, fun alone _ => ?_⟩
    · rw [exchanges.isBridged_eq] at bridged
      exact quiet.resolve_right (by simp [bridged])
    · rw [exchanges.isSought_eq] at sought
      exact (skips sought).2
    · rw [exchanges.isAlone_eq] at alone
      exact quiet.resolve_right (by simp [alone])
  rw [isAccepted_iff, lexed'] at accepted
  rw [isAccepted_iff, lexed]
  refine Issue.ofLexemes_eq_nil_of_fits (exchanges.symm.forall₂_fits_all permits ?_) accepted
  rw [exchanges.before]
  exact fun _ => respaced.hidesNext_following

/-- A visible spacer that a neighbour takes for something else is found at fault. -/
theorem not_isAccepted_respaced (visible : spacer.isBlank = false)
    (bridged : focus.isBridged = true) : ¬IsAccepted other := by
  obtain ⟨old, second, _, _, exchanges, _, lexed'⟩ := respaced.exists_exchanges
  rw [← exchanges.isBridged_eq] at bridged
  obtain ⟨faulty, isMember, fault⟩ :=
    Focus.exists_fault_of_isBridged exchanges.newToken visible bridged
  rw [isAccepted_iff, lexed']
  intro none
  simp only [Issue.ofLexemes, List.append_eq_nil_iff, List.filterMap_eq_nil_iff] at none
  exact fault (Option.map_eq_none_iff.1 (none.1.1 faulty isMember))

theorem reportDespite_respaced (quiet : spacer.isBlank = true ∨ focus.isBridged = false) :
    translator.reportDespite other [] = translator.reportDespite formula [] := by
  simp only [reportDespite, symbols, Text.normal_trim, respaced.normal_eq quiet]

include isStrict

/-- Spacing is interchangeable where no neighbour notices: a formula and the same formula with
another spacer in the place of a blank have the same report, or neither has one.  A formula that has
a report keeps it, unless an argument is looked for just at a blank that is not skipped, exactly when
the spacer is a run of blanks or stands neither in front of a script nor behind a `^`, a `\left` or a
`\right`. -/
theorem report_respaced :
    (focus.isInterchangeable spacer = true → ∀ report,
      translator.report other = .ok report ↔ translator.report formula = .ok report) ∧
    ((focus.isSought = true → focus.here.source.all isAsciiBlank = true) → ∀ report,
      translator.report formula = .ok report →
        (translator.report other = .ok report ↔
          spacer.isBlank = true ∨ focus.isBridged = false)) := by
  have accepts := isAccepted_respaced respaced
  have despite (quiet : spacer.isBlank = true ∨ focus.isBridged = false) :
      translator.reportDespite other [] = translator.reportDespite formula [] :=
    reportDespite_respaced respaced quiet
  constructor
  · intro interchangeable report
    obtain ⟨skips, quiet⟩ := Focus.isInterchangeable_iff.1 interchangeable
    have unbridged := quiet.imp_right And.left
    rw [report_eq_ok_iff isStrict, report_eq_ok_iff isStrict, despite unbridged]
    refine and_congr_left' ⟨fun accepted => ?_, fun accepted => ?_⟩
    · exact isAccepted_of_respaced respaced accepted interchangeable
    · exact accepts accepted unbridged fun sought => (skips sought).1
  · intro skips report reported
    rw [report_eq_ok_iff isStrict] at reported ⊢
    obtain ⟨accepted, rfl⟩ := reported
    refine ⟨fun ⟨acceptedOther, _⟩ => ?_, fun quiet => ⟨accepts accepted quiet skips, despite quiet⟩⟩
    cases visible : spacer.isBlank with
    | true => exact .inl rfl
    | false =>
        refine .inr (Bool.eq_false_iff.2 fun bridged => ?_)
        exact not_isAccepted_respaced respaced visible bridged acceptedOther

end

theorem report_respaced_of_sine :
    Focus.IsRespaced
        ⟨[⟨0, .control "sin".toList, "\\sin".toList⟩], ⟨4, .blank, [' ']⟩, [⟨5, .char 'x', ['x']⟩]⟩
        .tie "\\sin x".toList "\\sin~x".toList ∧
      Translator.report {} "\\sin x".toList = .ok ⟨"sin(x)".toList, []⟩ ∧
        Translator.report {} "\\sin~x".toList = .ok ⟨"sin(x)".toList, []⟩ := by
  have respaced : Focus.IsRespaced
      ⟨[⟨0, .control "sin".toList, "\\sin".toList⟩], ⟨4, .blank, [' ']⟩, [⟨5, .char 'x', ['x']⟩]⟩
      .tie "\\sin x".toList "\\sin~x".toList :=
    ⟨by decide +kernel, rfl, by decide +kernel, by decide +kernel⟩
  have reported : Translator.report {} "\\sin x".toList = .ok ⟨"sin(x)".toList, []⟩ :=
    eq_ok_of_toOption (by decide +kernel)
  have isStrict : ({} : Translator).options.strict = true := rfl
  have same := (report_respaced isStrict respaced).1 (by decide +kernel)
  exact ⟨respaced, reported, (same _).2 reported⟩

/-- The check takes a tie behind a caret for the exponent, where it looks past a blank. -/
theorem report_ne_of_tie_behind_caret :
    Focus.IsRespaced
        ⟨[⟨1, .superscript, ['^']⟩, ⟨0, .char 'x', ['x']⟩], ⟨2, .blank, [' ']⟩,
          [⟨3, .char '2', ['2']⟩]⟩
        .tie "x^ 2".toList "x^~2".toList ∧
      Translator.report {} "x^ 2".toList = .ok ⟨"(x^2)".toList, []⟩ ∧
        Translator.report {} "x^~2".toList = .error ⟨1, .exponent "x^~".toList⟩ :=
  ⟨⟨by decide +kernel, rfl, by decide +kernel, by decide +kernel⟩,
    eq_ok_of_toOption (by decide +kernel), (report_eq_error_iff rfl).2 (by decide +kernel)⟩

end Translator

end TexCalc

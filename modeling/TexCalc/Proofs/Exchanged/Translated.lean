import TexCalc.Proofs.Dollars.Transparent
import TexCalc.Proofs.Exchanged.Linear
import TexCalc.Proofs.Exchanged.Normal
import TexCalc.Proofs.Nesting.Trimmed
import TexCalc.Proofs.Spacing.Interchanged
import TexCalc.Proofs.Words.Modes

/-!
# Options as other commands

The sign of `\pm` is the other one when `\pm` and `\mp` are exchanged, and a natural `\log` is an
`\ln`.  A formula is checked alike under the options and with the other commands.  It is translated
alike if no letters come to stand behind an exchanged command in its normal text: such letters make
another word of it, which is written out letter by letter in one of the two texts and in the other.
-/

namespace TexCalc

/-! ## Subscripts -/

namespace Token

theorem token_read_eq_subscript_iff {c : Char} {rest : Text} :
    (read c rest).token = .subscript ↔ c = '_' := by
  constructor
  · fun_cases read c rest <;> simp
  · rintro rfl
    rfl

/-- What trimming leaves of the last token of a text is a token. -/
theorem rest_read_trimEnd (c : Char) (rest : Text) :
    (read c (read c rest).taken.trimEnd).rest = [] := by
  have alone (c : Char) : (read c []).rest = [] :=
    (List.append_eq_nil_iff.1 (read_append c [])).2
  fun_cases read c rest with
  | case1 control isControl =>
      have isName := Control.isName_of_read? isControl
      have trimmed : control.name.trimEnd = control.name ∨ control.name.trimEnd = [] := by
        rcases isName with ⟨_, letters⟩ | ⟨d, isSymbol, _⟩
        · have word := Text.trimEnd_word letters []
          rw [Text.trimEnd_cons, List.append_nil] at word
          split at word
          · cases word
          · exact .inl ((List.cons.inj word).2.trans (List.append_nil _))
        · rw [isSymbol, Text.trimEnd_cons]
          cases TexCalc.isBlank d <;> simp [Text.trimEnd]
      rcases trimmed with whole | nothing
      · rw [whole, read_control (Control.read?_name isName)]
      · rw [nothing]
        exact alone '\\'
  | case3 said lineEnd after split =>
      have isEnd := (Text.splitLineEnd_mem_lineEnds
        (Text.endsRun_dropWhile (!Token.isLineEnd ·) rest)).1
      rw [split] at isEnd
      have blank : Text.trimEnd lineEnd = [] := by
        have allBlank : ∀ lineEnd ∈ lineEnds, Text.isAllBlank lineEnd = true := by decide
        exact Text.trimEnd_of_isAllBlank (allBlank _ isEnd)
      have inLine : List.all (Text.trimEnd said) (!isLineEnd ·) = true :=
        Text.all_trimEnd List.all_takeWhile
      rw [Text.trimEnd_append, if_pos blank, read_comment, Text.dropWhile_of_all inLine]
      rfl
  | case10 =>
      rw [Text.trimEnd_of_isAllBlank List.all_takeWhile]
      exact alone c
  | _ => exact alone _

theorem subscript_not_mem_normal {token : Token} (known : token.isKnown = true)
    (other : token ≠ .subscript) : '_' ∉ token.normal := by
  cases token with
  | control name =>
      rw [normal_control]
      split
      · decide
      · rename_i noOpener
        split
        · decide
        · rename_i noCloser
          split
          · decide
          · rename_i noSpacing
            obtain ⟨command, found⟩ := Option.isSome_iff_exists.1 known
            obtain ⟨_, letters⟩ := isAlpha_of_named? found
              (fun isSpacing => noSpacing (isSpacing ▸ found)) noOpener noCloser
            rw [List.mem_cons, not_or]
            exact ⟨by decide, Text.not_mem_of_all (by decide) letters⟩
  | char c =>
      have noSubscript : c ≠ '_' := by
        rintro rfl
        exact absurd known (by decide)
      rw [normal]
      split <;> simp [Ne.symm noSubscript]
  | subscript => exact absurd rfl other
  | comment said => exact List.not_mem_nil
  | _ => decide

theorem isKnown_of_isAccepted {formula : Text} (accepted : Translator.IsAccepted formula) :
    ∀ token ∈ formula.trim.lexemes.map Lexeme.token, token.isKnown = true := by
  intro token isMember
  obtain ⟨lexeme, isLexeme, rfl⟩ := List.mem_map.1 isMember
  exact isKnown_of_issues_eq_nil (List.map_eq_nil_iff.1 accepted) isLexeme

end Token

namespace Text

/-- Whether a text is read without a subscript. -/
def HasNoSubscript (text : Text) : Prop :=
  ∀ lexeme ∈ text.lexemes, lexeme.token ≠ .subscript

instance (text : Text) : Decidable text.HasNoSubscript :=
  inferInstanceAs (Decidable (∀ lexeme ∈ text.lexemes, _))

theorem hasNoSubscript_nil : HasNoSubscript [] := by
  decide +kernel

theorem hasNoSubscript_cons {c : Char} {rest : Text} : HasNoSubscript (c :: rest) ↔
    (Token.read c rest).token ≠ .subscript ∧ (Token.read c rest).rest.HasNoSubscript := by
  have tokens (text : Text) :
      text.HasNoSubscript ↔ .subscript ∉ text.lexemes.map Lexeme.token := by
    simp only [HasNoSubscript, List.mem_map, not_exists, not_and]
  rw [tokens, tokens, map_token_lexemes_cons, List.mem_cons, not_or]
  exact and_congr_left' ne_comm

theorem HasNoSubscript.trimEnd {text : Text} (none : text.HasNoSubscript) :
    text.trimEnd.HasNoSubscript := by
  induction size : text.length using Nat.strongRecOn generalizing text with
  | ind size ih =>
      subst size
      cases text with
      | nil => exact none
      | cons c rest =>
          obtain ⟨other, behind⟩ := hasNoSubscript_cons.1 none
          have later := ih _ (Nat.lt_succ_of_le (Token.length_rest_read_le c rest)) behind rfl
          have whole : Text.trimEnd (c :: rest) =
              Text.trimEnd ((c :: (Token.read c rest).taken) ++ (Token.read c rest).rest) := by
            rw [List.cons_append, Token.read_append]
          rw [whole, trimEnd_append]
          split
          · rw [trimEnd_cons]
            split
            · exact hasNoSubscript_nil
            · rw [hasNoSubscript_cons, Token.rest_read_trimEnd]
              rw [ne_eq, Token.token_read_eq_subscript_iff] at other ⊢
              exact ⟨other, hasNoSubscript_nil⟩
          · rename_i some
            rw [List.cons_append, hasNoSubscript_cons,
              Token.read_taken_append c rest (head?_trimEnd some)]
            exact ⟨other, later⟩

theorem HasNoSubscript.trim {text : Text} (none : text.HasNoSubscript) :
    text.trim.HasNoSubscript := by
  refine HasNoSubscript.trimEnd ?_
  cases text with
  | nil => exact none
  | cons c rest =>
      cases blank : isBlank c with
      | true =>
          have behind := (hasNoSubscript_cons.1 none).2
          rw [Token.read_of_isBlank blank] at behind
          rwa [trimStart, List.dropWhile_cons_of_pos blank]
      | false => rwa [trimStart, List.dropWhile_cons_of_neg (by simp [blank])]

/-- Only a subscript leaves its sign in normal text. -/
theorem subscript_not_mem_ofTokens {tokens : List Token}
    (known : ∀ token ∈ tokens, token.isKnown = true) (none : .subscript ∉ tokens) (isOpen : Bool) :
    '_' ∉ ofTokens isOpen tokens := by
  fun_induction ofTokens isOpen tokens with
  | case1 => exact List.not_mem_nil
  | case2 isOpen token rest side _ next later after delimiter _ ih =>
      have without : '_' ∉ side.normal delimiter := by
        fun_cases Side.normal side delimiter <;> decide
      have ending : ∀ token ∈ later, token ∈ rest := fun token isMember =>
        (List.dropWhile_sublist Token.isBlank).subset (after ▸ List.mem_cons_of_mem _ isMember)
      rw [List.mem_append, not_or]
      exact ⟨without, ih (fun token isMember => known token (List.mem_cons_of_mem _
        (ending token isMember))) fun isMember => none (List.mem_cons_of_mem _ (ending _ isMember))⟩
  | case3 _ _ _ _ _ _ _ _ _ ih | case4 _ _ _ _ _ _ ih =>
      exact ih (fun token isMember => known token (List.mem_cons_of_mem _ isMember))
        fun isMember => none (List.mem_cons_of_mem _ isMember)
  | case5 isOpen rest _ ih =>
      have without : '_' ∉ (if isOpen then "))".toList else "(abs(".toList) := by
        cases isOpen <;> decide
      rw [List.mem_append, not_or]
      exact ⟨without, ih (fun token isMember => known token (List.mem_cons_of_mem _ isMember))
        fun isMember => none (List.mem_cons_of_mem _ isMember)⟩
  | case6 isOpen token rest _ _ ih =>
      rw [List.mem_append, not_or]
      refine ⟨?_, ih (fun token isMember => known token (List.mem_cons_of_mem _ isMember))
        fun isMember => none (List.mem_cons_of_mem _ isMember)⟩
      refine Token.subscript_not_mem_normal (known token List.mem_cons_self) ?_
      rintro rfl
      exact none List.mem_cons_self

theorem subscript_not_mem_normal {formula : Text} (accepted : Translator.IsAccepted formula)
    (none : formula.HasNoSubscript) : '_' ∉ formula.normal := by
  refine subscript_not_mem_ofTokens (Token.isKnown_of_isAccepted accepted) (fun isMember => ?_) false
  obtain ⟨lexeme, isLexeme, isToken⟩ := List.mem_map.1 isMember
  exact none.trim lexeme isLexeme isToken

end Text

namespace Exchange

variable {exchange : Exchange} {options options' : Options} {formula : Text}

/-! ## The check -/

theorem takeWhile_formula (exchange : Exchange) (formula : Text) :
    (exchange.formula formula).takeWhile isBlank = formula.takeWhile isBlank :=
  (exchange.respelled_formula formula).takeWhile_eq (by decide)

/-- With the signs exchanged a formula has issues of the same kinds at the same places. -/
theorem map_key_issues_signs (formula : Text) :
    (Translator.issues (signs.formula formula)).map Issue.key =
      (Translator.issues formula).map Issue.key := by
  have keys : (signs.formula formula.trim).issues.map Issue.key =
      formula.trim.issues.map Issue.key := by
    refine @Issue.map_key_ordered 0 _ _ ?_
    rw [lexemes_signs]
    exact signs.map_key_ofLexemes formula.trim (.inl rfl)
  have shifted (issues : List Issue) (bytes : Nat) : (issues.map (·.shift bytes)).map Issue.key =
      (issues.map Issue.key).map fun key => (key.1, key.2 + bytes) := by
    rw [List.map_map, List.map_map]
    rfl
  simp only [Translator.issues, shifted, trim_formula, takeWhile_formula, keys]

/-- A formula with other commands is accepted exactly when the formula is. -/
theorem isAccepted_formula_iff (admitted : exchange = .signs ∨ formula.HasNoSubscript) :
    Translator.IsAccepted (exchange.formula formula) ↔ Translator.IsAccepted formula := by
  rw [Translator.isAccepted_iff, Translator.isAccepted_iff, trim_formula]
  exact exchange.ofLexemes_formula_eq_nil_iff formula.trim
    (admitted.imp_right Text.HasNoSubscript.trim)

/-! ## The expression -/

/-- The normal text of an accepted formula is respelled, and the letters behind its exchanged
commands stay where they are. -/
theorem respelled_normal_formula (accepted : Translator.IsAccepted formula)
    (free : exchange.IsFree formula) :
    exchange.Respelled true formula.normal (exchange.formula formula).normal := by
  have tokens : (exchange.formula formula.trim).lexemes.map Lexeme.token =
      (formula.trim.lexemes.map Lexeme.token).map exchange.token := by
    have replaces := exchange.forall₂_replaces formula.trim 0 fun _ => rfl
    rw [← Text.lexemes, ← Text.lexemes] at replaces
    rw [List.map_map]
    generalize formula.trim.lexemes = first, (exchange.formula formula.trim).lexemes = second
      at replaces
    induction replaces with
    | nil => rfl
    | cons replaced _ ih => rw [List.map_cons, List.map_cons, ih, replaced.token]; rfl
  rw [Text.normal, Text.normal, trim_formula, tokens]
  exact respelled_ofTokens (Token.isKnown_of_isAccepted accepted) free false

theorem reportDespite_formula (agree : exchange.Agree options options')
    (admitted : exchange = .signs ∨ formula.HasNoSubscript)
    (accepted : Translator.IsAccepted formula) (free : exchange.IsFree formula)
    (vocabulary : Vocabulary) :
    Translator.reportDespite ⟨options', vocabulary⟩ (exchange.formula formula) [] =
      Translator.reportDespite ⟨options, vocabulary⟩ formula [] := by
  have respelled := respelled_normal_formula accepted free
  have linear := respelled.linear_eq (admitted.imp_right fun none => ?_) agree vocabulary
  · simp only [Translator.reportDespite, Translator.symbols, Text.normal_trim, linear]
  · exact Text.subscript_not_mem_normal accepted none

end Exchange

/-! ## The report -/

namespace Translator

open Exchange

theorem report_signs (vocabulary : Vocabulary) (base : LogBase) (formula : Text) :
    let minus := (report ⟨⟨true, .minus, base⟩, vocabulary⟩ formula).mapError Issue.key
    let plus := (report ⟨⟨true, .plus, base⟩, vocabulary⟩ (signs.formula formula)).mapError Issue.key
    minus.map (fun _ => ()) = plus.map (fun _ => ()) ∧ (signs.IsFree formula → minus = plus) := by
  have keys := map_key_issues_signs formula
  simp only [report, if_true]
  cases isOld : issues formula with
  | nil =>
      rw [isOld] at keys
      rw [List.map_eq_nil_iff.1 keys]
      refine ⟨rfl, fun free => congrArg Except.ok ?_⟩
      exact (reportDespite_formula (.signs .minus base) (.inl rfl) isOld free vocabulary).symm
  | cons issue rest =>
      rw [isOld] at keys
      obtain ⟨issue', rest', isNew, same, _⟩ := List.map_eq_cons_iff.1 keys
      rw [isNew]
      have sameKey : (Except.error issue.key : Except _ Report) = .error issue'.key :=
        congrArg Except.error same.symm
      exact ⟨congrArg (·.map fun _ => ()) sameKey, fun _ => sameKey⟩

theorem report_logs (vocabulary : Vocabulary) (sign : Sign) {formula : Text}
    (none : formula.HasNoSubscript) :
    let log := (report ⟨⟨true, sign, .natural⟩, vocabulary⟩ formula).toOption
    let ln := (report ⟨⟨true, sign, .natural⟩, vocabulary⟩ (logs.formula formula)).toOption
    log.isSome = ln.isSome ∧ (logs.IsFree formula → log = ln) := by
  have accepts : issues (logs.formula formula) = [] ↔ issues formula = [] :=
    isAccepted_formula_iff (.inr none)
  simp only [report, if_true]
  cases isOld : issues formula with
  | nil =>
      rw [accepts.2 isOld]
      refine ⟨rfl, fun free => congrArg some ?_⟩
      exact (reportDespite_formula (.logs sign .natural) (.inr none) isOld free vocabulary).symm
  | cons issue rest =>
      cases isNew : issues (logs.formula formula) with
      | nil =>
          rw [accepts.1 isNew] at isOld
          cases isOld
      | cons issue' rest' => exact ⟨rfl, fun _ => rfl⟩

/-- Options act as other commands, as far as no letters come to stand behind an exchanged command.
A formula has the report with a negative `\pm` that it has with a positive one when `\pm` and `\mp`
change places, or fails with the same kind of issue at the same place.  Without a subscript it has the
report with a natural `\log` that it has when `\log` is written `\ln`.  Whether it is accepted, and
how it fails, does not depend on any letters. -/
theorem report_exchanged (vocabulary : Vocabulary) (sign : Sign) (base : LogBase) (formula : Text) :
    (let minus := (report ⟨⟨true, .minus, base⟩, vocabulary⟩ formula).mapError Issue.key
      let plus := (report ⟨⟨true, .plus, base⟩, vocabulary⟩ (signs.formula formula)).mapError
        Issue.key
      minus.map (fun _ => ()) = plus.map (fun _ => ()) ∧
        (signs.IsFree formula → minus = plus)) ∧
      (formula.HasNoSubscript →
        let log := (report ⟨⟨true, sign, .natural⟩, vocabulary⟩ formula).toOption
        let ln := (report ⟨⟨true, sign, .natural⟩, vocabulary⟩ (logs.formula formula)).toOption
        log.isSome = ln.isSome ∧ (logs.IsFree formula → log = ln)) :=
  ⟨report_signs vocabulary base formula, report_logs vocabulary sign⟩

theorem report_exchanged_of_logarithm :
    signs.IsFree "2\\pm\\log x".toList ∧ Text.HasNoSubscript "2\\pm\\log x".toList ∧
      logs.IsFree "2\\pm\\log x".toList ∧
      (report ⟨⟨true, .minus, .common⟩, .standard⟩ "2\\pm\\log x".toList).mapError Issue.key =
        (report ⟨⟨true, .plus, .common⟩, .standard⟩ "2\\mp\\log x".toList).mapError Issue.key ∧
      (report ⟨⟨true, .plus, .natural⟩, .standard⟩ "2\\pm\\log x".toList).toOption =
        (report ⟨⟨true, .plus, .natural⟩, .standard⟩ "2\\pm\\ln x".toList).toOption := by
  have freeSigns : signs.IsFree "2\\pm\\log x".toList := by decide +kernel
  have freeLogs : logs.IsFree "2\\pm\\log x".toList := by decide +kernel
  have noSubscript : Text.HasNoSubscript "2\\pm\\log x".toList := by decide +kernel
  have isSigns : signs.formula "2\\pm\\log x".toList = "2\\mp\\log x".toList := by decide +kernel
  have isLogs : logs.formula "2\\pm\\log x".toList = "2\\pm\\ln x".toList := by decide +kernel
  obtain ⟨⟨_, sameSigns⟩, logarithms⟩ :=
    report_exchanged .standard .plus .common "2\\pm\\log x".toList
  rw [isSigns] at sameSigns
  rw [isLogs] at logarithms
  exact ⟨freeSigns, noSubscript, freeLogs, sameSigns freeSigns, (logarithms noSubscript).2 freeLogs⟩

/-- A comment keeps the letter behind it apart from the command in the formula and leaves nothing
between them in the normal text, where the letter makes another word of the command.  Both formulas
are accepted, and what is left of that word is printed letter by letter. -/
theorem expression_ne_of_comment :
    ((report ⟨⟨true, .minus, .common⟩, .standard⟩ "\\pm%\nx^2".toList).toOption.map
        Report.expression = some "p*m*x^2)".toList ∧
      (report ⟨⟨true, .plus, .common⟩, .standard⟩
        (signs.formula "\\pm%\nx^2".toList)).toOption.map Report.expression =
          some "m*p*x^2)".toList) ∧
    ((report ⟨⟨true, .plus, .natural⟩, .standard⟩ "\\log%\nx^2".toList).toOption.map
        Report.expression = some "l*o*g*x^2)".toList ∧
      (report ⟨⟨true, .plus, .natural⟩, .standard⟩
        (logs.formula "\\log%\nx^2".toList)).toOption.map Report.expression =
          some "l*n*x^2)".toList) :=
  ⟨⟨by decide +kernel, by decide +kernel⟩, by decide +kernel, by decide +kernel⟩

end Translator

end TexCalc

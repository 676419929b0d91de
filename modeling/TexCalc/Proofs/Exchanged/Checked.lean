import TexCalc.Proofs.Dollars.Checked
import TexCalc.Proofs.Exchanged.Formula
import TexCalc.Proofs.Spacing.Fitting

/-!
# The check of a formula with other commands

No test of the check tells the exchanged commands apart, but for the one that asks for a logarithm
in front of a subscript.  So the check finds issues of the same kinds at the same lexemes.
-/

namespace TexCalc

namespace Exchange

variable {exchange : Exchange} {text other : Text}

/-! ## Tokens -/

/-- A test that does not tell the exchanged names apart has one result. -/
theorem test_name {result : Type} (exchange : Exchange) (test : Text → result)
    (same : ∀ pair ∈ signs.pairs ++ logs.pairs, test pair.2 = test pair.1) (name : Text) :
    test (exchange.name name) = test name := by
  rcases exchange.name_eq_or_mem name with kept | isMember
  · rw [kept]
  · exact forall_pairs (fun pair => test pair.2 = test pair.1) same _ isMember

theorem test_token {result : Type} (exchange : Exchange) (test : Token → result)
    (same : ∀ pair ∈ signs.pairs ++ logs.pairs, test (.control pair.2) = test (.control pair.1))
    (token : Token) : test (exchange.token token) = test token := by
  cases token with
  | control name => exact exchange.test_name (fun name => test (.control name)) same name
  | _ => rfl

/-- What passes a test that no exchanged name passes is not exchanged. -/
theorem name_eq_self (exchange : Exchange) (test : Text → Bool)
    (fails : ∀ pair ∈ signs.pairs ++ logs.pairs, test pair.1 = false) {name : Text}
    (passes : test name = true) : exchange.name name = name := by
  rcases exchange.name_eq_or_mem name with kept | isMember
  · exact kept
  · rw [forall_pairs (fun pair => test pair.1 = false) fails _ isMember] at passes
    cases passes

theorem token_eq_self (exchange : Exchange) (test : Token → Bool)
    (fails : ∀ pair ∈ signs.pairs ++ logs.pairs, test (.control pair.1) = false) {token : Token}
    (passes : test token = true) : exchange.token token = token := by
  cases token with
  | control name =>
      exact congrArg Token.control
        (exchange.name_eq_self (fun name => test (.control name)) fails passes)
  | _ => rfl

/-- Among the signs there is no logarithm. -/
theorem isLog_token (isSigns : exchange = .signs) (token : Token) :
    ((exchange.token token).command? == some .log) = (token.command? == some .log) := by
  subst isSigns
  cases token with
  | control name =>
      rcases signs.name_eq_or_mem name with kept | isMember
      · rw [Exchange.token, kept]
      · have noLog : ∀ pair ∈ signs.pairs, ((Token.control pair.2).command? == some .log) =
            ((Token.control pair.1).command? == some .log) := by decide
        exact noLog _ isMember
  | _ => rfl

section

variable (exchange : Exchange) (token : Token)

@[simp] theorem side?_token : (exchange.token token).side? = token.side? :=
  exchange.test_token Token.side? (by decide) token

@[simp] theorem sizedDelimiter?_token :
    (exchange.token token).sizedDelimiter? = token.sizedDelimiter? :=
  exchange.test_token Token.sizedDelimiter? (by decide) token

@[simp] theorem delimiter?_token : (exchange.token token).delimiter? = token.delimiter? :=
  exchange.test_token Token.delimiter? (by decide) token

@[simp] theorem isSignificant_token :
    (exchange.token token).isSignificant = token.isSignificant :=
  exchange.test_token Token.isSignificant (by decide) token

@[simp] theorem isPassedOver_token : (exchange.token token).isPassedOver = token.isPassedOver :=
  exchange.test_token Token.isPassedOver (by decide) token

@[simp] theorem isScript_token : (exchange.token token).isScript = token.isScript :=
  exchange.test_token Token.isScript (by decide) token

@[simp] theorem isSign_token : (exchange.token token).isSign = token.isSign :=
  exchange.test_token Token.isSign (by decide) token

@[simp] theorem beginsExponent_token :
    (exchange.token token).beginsExponent = token.beginsExponent :=
  exchange.test_token Token.beginsExponent (by decide) token

/-- No token other than a command becomes another one, and no command becomes another token. -/
@[simp] theorem token_eq_iff {other : Token} (noControl : ∀ name, other ≠ .control name) :
    exchange.token token = other ↔ token = other := by
  cases token with
  | control name => exact ⟨fun same => absurd same.symm (noControl _),
      fun same => absurd same.symm (noControl _)⟩
  | _ => rfl

end

/-! ## Lexemes -/

/-- The lexeme with the other token. -/
def lexeme (exchange : Exchange) (lexeme : Lexeme) : Lexeme :=
  ⟨lexeme.offset, exchange.token lexeme.token, exchange.source lexeme⟩

@[simp] theorem token_lexeme (exchange : Exchange) (lexeme : Lexeme) :
    (exchange.lexeme lexeme).token = exchange.token lexeme.token :=
  rfl

theorem fromOperand_map (exchange : Exchange) (lexemes : List Lexeme) :
    Lexeme.fromOperand (lexemes.map exchange.lexeme) =
      (Lexeme.fromOperand lexemes).map exchange.lexeme := by
  rw [Lexeme.fromOperand, List.dropWhile_map]
  congr 2
  funext lexeme
  simp

theorem afterBrace?_map (exchange : Exchange) (depth : Nat) (lexemes : List Lexeme) :
    Lexeme.afterBrace? depth (lexemes.map exchange.lexeme) =
      (Lexeme.afterBrace? depth lexemes).map (List.map exchange.lexeme) := by
  fun_induction Lexeme.afterBrace? depth lexemes <;>
    simp_all [Lexeme.afterBrace?_cons, Lexeme.afterBrace?]

theorem afterScript?_map (exchange : Exchange) (lexemes : List Lexeme) :
    Lexeme.afterScript? (lexemes.map exchange.lexeme) =
      (Lexeme.afterScript? lexemes).map (List.map exchange.lexeme) := by
  rw [Lexeme.afterScript?, Lexeme.afterScript?, fromOperand_map]
  cases Lexeme.fromOperand lexemes with
  | nil => rfl
  | cons first rest =>
      simp only [List.map_cons, token_lexeme, afterBrace?_map]
      split <;> simp_all

theorem fromBase?_map (exchange : Exchange) (lexemes : List Lexeme) :
    Lexeme.fromBase? (lexemes.map exchange.lexeme) =
      (Lexeme.fromBase? lexemes).map (List.map exchange.lexeme) := by
  rw [Lexeme.fromBase?_eq, fromOperand_map]
  fun_induction Lexeme.fromBase? lexemes with
  | case1 lexemes nothing =>
      rw [nothing]
      rfl
  | case2 lexemes first rest isOperand isScript after isAfter ih =>
      rw [isOperand]
      simp only [List.map_cons, token_lexeme, isScript_token, isScript, if_true, afterScript?_map,
        isAfter, Option.map_some, Option.bind_some]
      rw [Lexeme.fromBase?_eq, fromOperand_map]
      exact ih
  | case3 lexemes first rest isOperand isScript noEnd =>
      rw [isOperand]
      simp only [List.map_cons, token_lexeme, isScript_token, isScript, if_true, afterScript?_map,
        noEnd]
      rfl
  | case4 lexemes first rest isOperand noScript =>
      rw [isOperand]
      simp only [List.map_cons, token_lexeme, isScript_token, noScript]
      rfl

/-- Whether an operand begins. -/
theorem beginsArgument_map (exchange : Exchange) (lexemes : List Lexeme) :
    Lexeme.beginsArgument (lexemes.map exchange.lexeme) = Lexeme.beginsArgument lexemes := by
  cases lexemes with
  | nil => rfl
  | cons first rest =>
      rw [List.map_cons, Lexeme.beginsArgument, Lexeme.beginsArgument, fromOperand_map, token_lexeme]
      cases isToken : first.token with
      | control name =>
          exact exchange.test_token (fun token => Lexeme.beginsArgument [⟨0, token, []⟩]) (by decide)
            (.control name)
      | openBrace =>
          cases Lexeme.fromOperand rest with
          | nil => rfl
          | cons inner _ => exact exchange.test_token (· != .closeBrace) (by decide) inner.token
      | _ => rfl

theorem lacksArgument_map (exchange : Exchange) (lexemes : List Lexeme) :
    Lexeme.lacksArgument (lexemes.map exchange.lexeme) = Lexeme.lacksArgument lexemes := by
  rw [Lexeme.lacksArgument_eq, Lexeme.lacksArgument_eq, fromBase?_map, Option.any_map]
  congr 1
  funext base
  cases base with
  | nil => rfl
  | cons first rest =>
      have operand := exchange.beginsArgument_map (first :: rest)
      have behind := exchange.beginsArgument_map (Lexeme.fromOperand rest)
      rw [List.map_cons] at operand
      simp only [List.map_cons, Lexeme.lacksFromBase, token_lexeme,
        isSign_token, fromOperand_map, operand, behind]

theorem find?_map (exchange : Exchange) (lexemes : List Lexeme) :
    (lexemes.map exchange.lexeme).find? (·.token.isSignificant) =
      (lexemes.find? (·.token.isSignificant)).map exchange.lexeme := by
  rw [List.find?_map]
  congr 2
  funext lexeme
  simp

theorem any_map (exchange : Exchange) (found : Option Lexeme) (test : Token → Bool)
    (same : ∀ pair ∈ signs.pairs ++ logs.pairs, test (.control pair.2) = test (.control pair.1)) :
    (found.map exchange.lexeme).any (test ·.token) = found.any (test ·.token) := by
  cases found with
  | none => rfl
  | some lexeme => exact exchange.test_token test same lexeme.token

theorem startsExponent_map (exchange : Exchange) (lexemes : List Lexeme) :
    Lexeme.startsExponent (lexemes.map exchange.lexeme) = Lexeme.startsExponent lexemes := by
  cases lexemes with
  | nil => rfl
  | cons next rest =>
      have inner := exchange.any_map (rest.find? (·.token.isSignificant)) (· != .closeBrace)
        (by decide)
      rw [← find?_map] at inner
      have brace : (exchange.token next.token = .openBrace) = (next.token = .openBrace) :=
        propext (exchange.token_eq_iff _ nofun)
      simp only [Lexeme.startsExponent, List.map_cons, token_lexeme, brace, inner,
        beginsExponent_token]

/-! ## What follows a command -/

/-- What two texts have where a command expects an argument. -/
inductive ProbesAlike (exchange : Exchange) : Probe → Probe → Prop where
  | present {rest rest' : Text} (respelled : exchange.Respelled false rest rest') :
      ProbesAlike exchange (.present rest) (.present rest')
  | blank : ProbesAlike exchange .blank .blank
  | missing : ProbesAlike exchange .missing .missing
  | unclosed : ProbesAlike exchange .unclosed .unclosed

namespace Respelled

variable (respelled : exchange.Respelled false text other)

include respelled

theorem probe : exchange.ProbesAlike (Probe.ofText text) (Probe.ofText other) := by
  have arguments := respelled.argument?
  have heads := respelled.skipBlanks.rest.head?
  unfold Probe.ofText
  rw [heads]
  generalize Argument.read? text = found, Argument.read? other = found' at arguments ⊢
  cases arguments with
  | none =>
      simp only
      split
      · exact .unclosed
      · exact .missing
  | some alike =>
      simp only [alike.grouped, alike.text.isAllBlank_eq]
      split
      · exact .blank
      · exact .present alike.rest

theorem ofFraction?_eq (command : Text) (count : Nat) :
    Malformation.ofFraction? command count other = Malformation.ofFraction? command count text := by
  induction count generalizing text other with
  | zero => rfl
  | succ count ih =>
      have probes := respelled.probe
      rw [Malformation.ofFraction?, Malformation.ofFraction?]
      generalize Probe.ofText text = probe, Probe.ofText other = probe' at probes ⊢
      cases probes with
      | present respelled => exact ih respelled
      | _ => rfl

theorem ofRadicand?_eq (command : Text) :
    Malformation.ofRadicand? command other = Malformation.ofRadicand? command text := by
  have probes := respelled.probe
  rw [Malformation.ofRadicand?, Malformation.ofRadicand?]
  generalize Probe.ofText text = probe, Probe.ofText other = probe' at probes ⊢
  cases probes <;> rfl

theorem ofRoot?_eq (command : Text) :
    Malformation.ofRoot? command other = Malformation.ofRoot? command text := by
  have indices := respelled.optionalArgument?
  rw [Malformation.ofRoot?, Malformation.ofRoot?, respelled.skipBlanks.rest.head?,
    respelled.ofRadicand?_eq]
  generalize Argument.readOptional? text = found, Argument.readOptional? other = found' at indices ⊢
  cases indices with
  | none => rfl
  | some alike => simp only [alike.text.isAllBlank_eq, alike.rest.ofRadicand?_eq]

end Respelled

end Exchange

/-! ## Lexemes in focus -/

namespace Focus

/-- The focus with other lexemes. -/
def map (change : Lexeme → Lexeme) (focus : Focus) : Focus :=
  ⟨focus.before.map change, change focus.here, focus.after.map change⟩

theorem allFrom_map (change : Lexeme → Lexeme) (before lexemes : List Lexeme) :
    allFrom (before.map change) (lexemes.map change) =
      (allFrom before lexemes).map (map change) := by
  induction lexemes generalizing before with
  | nil => rfl
  | cons here after ih =>
      rw [List.map_cons, allFrom, allFrom, List.map_cons, ← ih, List.map_cons]
      rfl

end Focus

namespace Exchange

variable (exchange : Exchange) {focus : Focus}

theorem previous?_map : (focus.map exchange.lexeme).previous? =
    focus.previous?.map exchange.lexeme :=
  exchange.find?_map focus.before

theorem next?_map : (focus.map exchange.lexeme).next? = focus.next?.map exchange.lexeme :=
  exchange.find?_map focus.after

theorem isSome_sizedBy?_map :
    (focus.map exchange.lexeme).sizedBy?.isSome = focus.sizedBy?.isSome := by
  rw [Focus.sizedBy?, Focus.sizedBy?, previous?_map, Focus.map, token_lexeme, sizedDelimiter?_token]
  split
  · cases focus.previous? <;> simp
  · rfl

theorem sizedDelimiter?_map :
    (focus.map exchange.lexeme).sizedDelimiter? = focus.sizedDelimiter?.map exchange.lexeme := by
  rw [Focus.sizedDelimiter?, Focus.sizedDelimiter?, next?_map]
  cases focus.next? with
  | none => rfl
  | some next =>
      simp only [Option.map_some, Option.filter, token_lexeme, sizedDelimiter?_token]
      split <;> rfl

theorem event?_map : (focus.map exchange.lexeme).event? = focus.event? := by
  have here : (focus.map exchange.lexeme).here = exchange.lexeme focus.here := rfl
  rw [Focus.event?, Focus.event?, isSome_sizedBy?_map, sizedDelimiter?_map, here, token_lexeme,
    side?_token, delimiter?_token]
  split
  · rename_i side isSide
    have isSized : focus.here.token.side?.isSome = true := by
      rw [isSide]
      rfl
    have sameSide := exchange.token_eq_self (·.side?.isSome) (by decide) isSized
    cases found : focus.sizedDelimiter? with
    | none => rfl
    | some delimiter =>
        have sized : delimiter.token.sizedDelimiter?.isSome = true :=
          (Option.filter_eq_some_iff.1 found).2
        have sameDelimiter := exchange.token_eq_self (·.sizedDelimiter?.isSome)
          (by decide) sized
        simp only [Option.map_some, token_lexeme, sameSide, sameDelimiter]
        rfl
  · split
    · rfl
    · cases found : focus.here.token.delimiter? with
      | none => rfl
      | some delimits =>
          have isDelimiter : focus.here.token.delimiter?.isSome = true := by
            rw [found]
            rfl
          have same := exchange.token_eq_self (·.delimiter?.isSome) (by decide) isDelimiter
          simp only [Option.map_some, same]
          rfl

theorem isBar_map : (focus.map exchange.lexeme).isBar = focus.isBar := by
  have sized : (focus.map exchange.lexeme).sizedBy?.isSome = _ := exchange.isSome_sizedBy?_map
  have bar := exchange.test_token (· == .char '|') (by decide) focus.here.token
  rw [Focus.isBar, Focus.isBar, ← Option.not_isSome, ← Option.not_isSome, sized]
  exact congrArg (· && _) bar

/-- What follows is exchanged as a formula is, when it is read as it was read in the formula. -/
theorem following_map (lexed : ∃ place, focus.following.lexemesFrom place = focus.after) :
    (focus.map exchange.lexeme).following = exchange.formula focus.following := by
  obtain ⟨place, isLexed⟩ := lexed
  rw [← flatMap_source exchange place, isLexed, Focus.following, Text.ofLexemes, Focus.map,
    List.flatMap_map]
  rfl

theorem hasExponent_map : (focus.map exchange.lexeme).hasExponent = focus.hasExponent := by
  have gap : (fun lexeme : Lexeme => !lexeme.token.isSignificant) ∘ exchange.lexeme =
      (!·.token.isSignificant) := by
    funext lexeme
    simp
  have mapped : (focus.after.map exchange.lexeme).dropWhile (!·.token.isSignificant) =
      (focus.after.dropWhile (!·.token.isSignificant)).map exchange.lexeme := by
    rw [List.dropWhile_map, gap]
  exact (congrArg Lexeme.startsExponent mapped).trans (exchange.startsExponent_map _)

theorem kind_controlFault?_map {name : Text}
    (lexed : ∃ place, focus.following.lexemesFrom place = focus.after) :
    ((focus.map exchange.lexeme).controlFault? (exchange.name name)).map Fault.kind =
      (focus.controlFault? name).map Fault.kind := by
  have respelled := exchange.respelled_formula focus.following
  rw [← exchange.following_map lexed] at respelled
  have here : (focus.map exchange.lexeme).here = exchange.lexeme focus.here := rfl
  have after : (focus.map exchange.lexeme).after = focus.after.map exchange.lexeme := rfl
  unfold Focus.controlFault?
  rw [here, after, token_lexeme, side?_token, sizedDelimiter?_map, Option.isSome_map,
    exchange.test_name Command.isFraction (by decide) name,
    exchange.test_name Command.isRoot (by decide) name, lacksArgument_map]
  split
  · rfl
  · split
    · rename_i isFraction
      rw [exchange.name_eq_self Command.isFraction (by decide) isFraction, respelled.ofFraction?_eq]
    · split
      · rename_i isRoot
        rw [exchange.name_eq_self Command.isRoot (by decide) isRoot, respelled.ofRoot?_eq]
      · have takes := exchange.test_name (fun name => (Command.named? name).map Command.takesArgument)
          (by decide) name
        cases isOld : Command.named? name <;> cases isNew : Command.named? (exchange.name name) <;>
          simp only [isOld, isNew, Option.map_some, Option.map_none] at takes ⊢
        · rfl
        · cases takes
        · cases takes
        · rw [Option.some.inj takes]
          split <;> rfl

theorem kind_subscriptFault?_map
    (lexed : ∃ place, focus.following.lexemesFrom place = focus.after) (isSigns : exchange = .signs) :
    (focus.map exchange.lexeme).subscriptFault?.map Fault.kind =
      focus.subscriptFault?.map Fault.kind := by
  have respelled := exchange.respelled_formula focus.following
  rw [← exchange.following_map lexed] at respelled
  have log : (focus.map exchange.lexeme).previous?.any (·.token.command? == some .log) =
      focus.previous?.any (·.token.command? == some .log) := by
    rw [previous?_map]
    cases focus.previous? with
    | none => rfl
    | some previous => exact isLog_token isSigns previous.token
  have probes := respelled.probe
  rw [Focus.subscriptFault?, Focus.subscriptFault?, log]
  split
  · generalize Probe.ofText focus.following = probe,
      Probe.ofText (focus.map exchange.lexeme).following = probe' at probes ⊢
    cases probes <;> rfl
  · rfl

/-- Faults of the same kind are found at the same lexemes. -/
theorem kind_fault?_map (lexed : ∃ place, focus.following.lexemesFrom place = focus.after)
    (admitted : exchange = .signs ∨ focus.here.token ≠ .subscript) :
    (focus.map exchange.lexeme).fault?.map Fault.kind = focus.fault?.map Fault.kind := by
  have here : (focus.map exchange.lexeme).here = exchange.lexeme focus.here := rfl
  unfold Focus.fault?
  rw [here, token_lexeme]
  cases isToken : focus.here.token with
  | control name => exact exchange.kind_controlFault?_map lexed
  | superscript =>
      have base := exchange.any_map focus.previous? Token.isBase (by decide)
      rw [← previous?_map] at base
      simp only [token, Focus.exponentFault?, base, hasExponent_map]
      split <;> rfl
  | subscript => exact exchange.kind_subscriptFault?_map lexed (admitted.resolve_right (· isToken))
  | _ => rfl

/-- Issues of the same kind are found at the same places. -/
theorem key_issue?_map (lexed : ∃ place, focus.following.lexemesFrom place = focus.after)
    (admitted : exchange = .signs ∨ focus.here.token ≠ .subscript) :
    (focus.map exchange.lexeme).issue?.map Issue.key = focus.issue?.map Issue.key := by
  have kinds := exchange.kind_fault?_map lexed admitted
  unfold Focus.issue?
  cases isOld : focus.fault? <;> cases isNew : (focus.map exchange.lexeme).fault? <;>
    rw [isOld, isNew] at kinds
  · rfl
  · cases kinds
  · cases kinds
  · exact congrArg (·.map (·, focus.here.offset)) kinds

/-! ## All lexemes of a formula -/

theorem all_map (lexemes : List Lexeme) :
    Focus.all (lexemes.map exchange.lexeme) = (Focus.all lexemes).map (Focus.map exchange.lexeme) :=
  Focus.allFrom_map exchange.lexeme [] lexemes

theorem oddBars?_map (lexemes : List Lexeme) :
    Issue.oddBars? (lexemes.map exchange.lexeme) = Issue.oddBars? lexemes := by
  have bars : Focus.isBar ∘ Focus.map exchange.lexeme = Focus.isBar :=
    funext fun _ => exchange.isBar_map
  rw [Issue.oddBars?, Issue.oddBars?, all_map, List.filter_map, bars, List.length_map,
    List.getLast?_map, Option.map_map]
  rfl

/-- The issues of a formula with other commands are of the same kinds and at the same places, as far
as the check asks for no logarithm. -/
theorem map_key_ofLexemes (text : Text)
    (admitted : exchange = .signs ∨ ∀ lexeme ∈ text.lexemes, lexeme.token ≠ .subscript) :
    (Issue.ofLexemes (text.lexemes.map exchange.lexeme)).map Issue.key =
      (Issue.ofLexemes text.lexemes).map Issue.key := by
  have events : DelimiterEvent.ofLexemes (text.lexemes.map exchange.lexeme) =
      DelimiterEvent.ofLexemes text.lexemes := by
    rw [DelimiterEvent.ofLexemes, DelimiterEvent.ofLexemes, all_map, List.filterMap_map]
    exact List.filterMap_congr fun focus _ => exchange.event?_map
  have faults : ((Focus.all (text.lexemes.map exchange.lexeme)).filterMap Focus.issue?).map
      Issue.key = ((Focus.all text.lexemes).filterMap Focus.issue?).map Issue.key := by
    rw [all_map, List.filterMap_map, List.map_filterMap, List.map_filterMap]
    refine List.filterMap_congr fun focus isFocus => exchange.key_issue?_map ?_ ?_
    · have split := Focus.eq_of_mem_all isFocus
      rw [List.append_cons] at split
      exact Text.exists_lexemesFrom_of_append split
    · refine admitted.imp_right fun noScript => noScript _ ?_
      rw [Focus.eq_of_mem_all isFocus]
      simp
  rw [Issue.ofLexemes, Issue.ofLexemes, List.map_append, List.map_append, List.map_append,
    List.map_append, faults, events, oddBars?_map]

omit exchange in
/-- With the signs exchanged a formula has the same lexemes, but for the signs. -/
theorem lexemes_signs (text : Text) : (signs.formula text).lexemes = text.lexemes.map signs.lexeme := by
  have replaces := signs.forall₂_replaces text 0 fun _ => rfl
  rw [← Text.lexemes, ← Text.lexemes] at replaces
  generalize text.lexemes = first, (signs.formula text).lexemes = second at replaces
  induction replaces with
  | nil => rfl
  | @cons here other _ _ replaced _ ih =>
      obtain ⟨place, token, source⟩ := other
      obtain ⟨rfl, rfl, same⟩ := replaced
      obtain rfl := same rfl
      rw [ih]
      rfl

/-- A formula with other commands has no issues exactly when the formula has none. -/
theorem ofLexemes_formula_eq_nil_iff (text : Text)
    (admitted : exchange = .signs ∨ ∀ lexeme ∈ text.lexemes, lexeme.token ≠ .subscript) :
    Issue.ofLexemes (exchange.formula text).lexemes = [] ↔ Issue.ofLexemes text.lexemes = [] := by
  have copies : List.Forall₂ Lexeme.IsCopy (text.lexemes.map exchange.lexeme)
      (exchange.formula text).lexemes := by
    rw [List.forall₂_map_left_iff]
    exact (exchange.forall₂_replaces text 0 fun _ => rfl).imp fun _ _ replaced =>
      ⟨replaced.token, replaced.source⟩
  have copies' := copies.flip.imp fun _ _ (copy : Lexeme.IsCopy _ _) =>
    (⟨copy.1.symm, copy.2.symm⟩ : Lexeme.IsCopy _ _)
  have mapped : Issue.ofLexemes (text.lexemes.map exchange.lexeme) = [] ↔
      Issue.ofLexemes text.lexemes = [] := by
    rw [← List.map_eq_nil_iff, exchange.map_key_ofLexemes text admitted, List.map_eq_nil_iff]
  rw [← mapped]
  exact ⟨Issue.ofLexemes_eq_nil_of_fits (Focus.forall₂_fits copies' (.inl rfl)),
    Issue.ofLexemes_eq_nil_of_fits (Focus.forall₂_fits copies (.inl rfl))⟩

end Exchange

end TexCalc

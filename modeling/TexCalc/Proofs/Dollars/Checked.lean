import Mathlib.Data.List.Forall2
import TexCalc.Check.Issues
import TexCalc.Proofs.Dollars.Contained

/-!
# The check of a formula between dollar signs

A lexeme of a self-contained formula and the same lexeme in the formula between dollar signs match:
no test of their surroundings tells them apart.  Faults, delimiters and bars are therefore found at
the same lexemes, and the issues have the same kinds, in the same order and at the same distances.
The fragment that an issue quotes may differ, since it may reach to a dollar sign.
-/

namespace TexCalc

variable {trail : Text}

/-! ## Arguments in front of idle text -/

theorem Probe.ofText_append_of_holds {count : Nat} {text : Text} (idle : trail.isIdle = true)
    (holds : text.holdsArguments (count + 1) = true) :
    ofText (text ++ trail) = (ofText text).followedBy trail := by
  refine ofText_append idle ?_
  simpa using (Bool.and_eq_true_iff.1 holds).1

theorem Malformation.ofFraction?_append (idle : trail.isIdle = true) (command : Text) {count : Nat}
    {text : Text} (holds : text.holdsArguments count = true) :
    ofFraction? command count (text ++ trail) = ofFraction? command count text := by
  induction count generalizing text with
  | zero => rfl
  | succ count ih =>
      have later := (Bool.and_eq_true_iff.1 holds).2
      rw [ofFraction?, ofFraction?, Probe.ofText_append_of_holds idle holds]
      cases found : Probe.ofText text with
      | present rest =>
          rw [found] at later
          exact ih later
      | _ => rfl

theorem Malformation.ofRadicand?_append (idle : trail.isIdle = true) (command : Text) {text : Text}
    (holds : text.holdsArguments 1 = true) :
    ofRadicand? command (text ++ trail) = ofRadicand? command text := by
  rw [ofRadicand?, ofRadicand?, Probe.ofText_append_of_holds idle holds]
  cases Probe.ofText text <;> rfl

theorem Malformation.ofRoot?_append (idle : trail.isIdle = true) (command : Text) {text : Text}
    (holds : text.holdsRadicand = true) :
    ofRoot? command (text ++ trail) = ofRoot? command text := by
  unfold Text.holdsRadicand at holds
  have sameHead (some : text.skipBlanks ≠ []) :
      (Text.skipBlanks (text ++ trail)).head? = text.skipBlanks.head? := by
    obtain ⟨c, rest, start⟩ := List.exists_cons_of_ne_nil some
    rw [Text.skipBlanks_append some, start]
    rfl
  split at holds
  · rename_i opens
    have some : text.skipBlanks ≠ [] := by
      rintro nothing
      simp [nothing] at opens
    rw [ofRoot?, ofRoot?, if_pos opens, if_pos ((sameHead some).trans opens),
      Argument.readOptional?_append idle]
    cases isIndex : Argument.readOptional? text with
    | none => rfl
    | some index =>
        rw [isIndex] at holds
        have radicand := ofRadicand?_append idle command holds
        simp only [Option.map_some, Argument.followedBy, radicand]
  · rename_i other
    have goesOn : text.isSpent = false := by simpa using (Bool.and_eq_true_iff.1 holds).1
    have some := (Text.skipBlanks_of_isSpent goesOn).1
    rw [ofRoot?, ofRoot?, if_neg other, if_neg (by rwa [sameHead some]),
      ofRadicand?_append idle command holds]

/-- What an issue says about the formula without a quotation from it. -/
def Issue.key (issue : Issue) : FaultKind × Nat :=
  (issue.kind, issue.offset)

/-- The same delimiter in a formula that has `bytes` more bytes in front. -/
def DelimiterEvent.shift (bytes : Nat) (event : DelimiterEvent) : DelimiterEvent :=
  { event with offset := event.offset + bytes }

/-! ## Matching lexemes -/

/-- A text that is spent has no operand in it. -/
theorem Text.isSpent_eq_false {text : Text} {offset : Nat}
    (answered : Lexeme.areAnswered (text.lexemesFrom offset) = true)
    (some : Lexeme.fromOperand (text.lexemesFrom offset) ≠ []) : text.isSpent = false := by
  have allBlank : (text.takeWhile isAsciiBlank).all isBlank = true :=
    List.all_eq_true.2 fun c isMember =>
      isBlank_of_isAsciiBlank (List.all_eq_true.1 List.all_takeWhile c isMember)
  have whole : text.takeWhile isAsciiBlank ++ text.skipBlanks = text :=
    List.takeWhile_append_dropWhile
  cases spent : text.isSpent with
  | false => rfl
  | true =>
      have ends : text.skipBlanks.endsRun isBlank = true := by
        simp only [isSpent, Bool.or_eq_true, beq_iff_eq] at spent
        rcases spent with nothing | lone
        · rw [nothing]
          rfl
        · rw [lone]
          rfl
      obtain ⟨front, blank, lexemes⟩ := exists_lexemesFrom_blanks allBlank ends offset
      rw [whole] at lexemes
      simp only [isSpent, Bool.or_eq_true, beq_iff_eq] at spent
      rcases spent with nothing | lone
      · rw [nothing, lexemesFrom, List.append_nil] at lexemes
        rw [lexemes] at some
        obtain ⟨here, rest, isOperand⟩ := List.exists_cons_of_ne_nil some
        have isMember : here ∈ front :=
          (Lexeme.fromOperand_suffix front).subset (isOperand ▸ List.mem_cons_self)
        have significant := Lexeme.isSignificant_of_fromOperand isOperand
        rw [blank here isMember] at significant
        cases significant
      · rw [lone] at lexemes
        have answeredLone := Lexeme.areAnswered_of_suffix answered
          (lexemes ▸ List.suffix_append front _)
        rw [lexemesFrom] at answeredLone
        cases answeredLone

/-- No test that fails on a dollar sign tells the nearest significant lexemes of two lists apart. -/
def Lexeme.SameNearest (first second : List Lexeme) : Prop :=
  ∀ test : Token → Bool, test .mathShift = false →
    (second.find? (·.token.isSignificant)).any (test ·.token) =
      (first.find? (·.token.isSignificant)).any (test ·.token)

theorem Lexeme.SameNearest.cons {first second : List Lexeme} {here other : Lexeme}
    (nearest : SameNearest first second) (same : other.token = here.token) :
    SameNearest (here :: first) (other :: second) := by
  intro test refused
  rw [List.find?_cons, List.find?_cons, same]
  cases here.token.isSignificant with
  | true => rw [Option.any_some, Option.any_some, same]
  | false => exact nearest test refused

namespace Focus

/-- Two lexemes in focus have the same token, one `bytes` behind the other, and no test that fails
on a dollar sign tells their surroundings apart. -/
structure Matches (bytes : Nat) (trail : Text) (first second : Focus) : Prop where
  offset : second.here.offset = first.here.offset + bytes
  token : second.here.token = first.here.token
  nearest : Lexeme.SameNearest first.before second.before
  after : Lexeme.Agree first.after second.after
  following : second.following = first.following ++ trail
  /-- What follows the first lexeme is what its following text is read as. -/
  lexed : ∃ offset, first.after = first.following.lexemesFrom offset
  answered : Lexeme.areAnswered (first.here :: first.after) = true

namespace Matches

variable {bytes : Nat} {first second : Focus}

theorem previous (same : Matches bytes trail first second) (test : Token → Bool)
    (refused : test .mathShift = false) :
    second.previous?.any (test ·.token) = first.previous?.any (test ·.token) :=
  same.nearest test refused

theorem answered_after (same : Matches bytes trail first second) :
    Lexeme.areAnswered first.after = true :=
  (Bool.and_eq_true_iff.1 same.answered).2

theorem map_token_sizedDelimiter? (same : Matches bytes trail first second) :
    second.sizedDelimiter?.map Lexeme.token = first.sizedDelimiter?.map Lexeme.token := by
  unfold sizedDelimiter? next?
  rcases same.after.find?_isSignificant with ⟨here, other, isHere, isOther, isToken⟩ | ⟨none, shift⟩
  · rw [isHere, isOther]
    simp only [Option.filter, isToken]
    split <;> simp [isToken]
  · rw [none]
    cases found : second.after.find? (·.token.isSignificant) with
    | none => rfl
    | some other =>
        simp only [Option.filter, shift other found]
        rfl

theorem isSome_sizedBy? (same : Matches bytes trail first second) :
    second.sizedBy?.isSome = first.sizedBy?.isSome := by
  have previous := same.previous (·.side?.isSome) rfl
  unfold sizedBy?
  rw [same.token]
  split
  · cases isSecond : second.previous? <;> cases isFirst : first.previous? <;>
      simp_all
  · rfl

/-- The fault of a control sequence is the same. -/
theorem controlFault?_eq (idle : trail.isIdle = true) (same : Matches bytes trail first second)
    {name : Text} (isControl : first.here.token = .control name) :
    second.controlFault? name = first.controlFault? name := by
  have sized : second.sizedDelimiter?.isSome = first.sizedDelimiter?.isSome := by
    rw [← Option.isSome_map, same.map_token_sizedDelimiter?, Option.isSome_map]
  have answers := (Bool.and_eq_true_iff.1 same.answered).1
  rw [isControl, Token.isAnswered, ← Focus.following] at answers
  unfold controlFault?
  rw [same.token, sized, same.following, same.after.lacksArgument_eq same.answered_after]
  split
  · rfl
  · split at answers
    · rename_i isFraction
      rw [if_pos isFraction, if_pos isFraction, Malformation.ofFraction?_append idle name answers]
    · rename_i noFraction
      rw [if_neg noFraction, if_neg noFraction]
      split at answers
      · rename_i isRoot
        rw [if_pos isRoot, if_pos isRoot, Malformation.ofRoot?_append idle name answers]
      · rename_i noRoot
        rw [if_neg noRoot, if_neg noRoot]

/-- An exponent is there in both places or in none. -/
theorem hasExponent_eq (same : Matches bytes trail first second) :
    second.hasExponent = first.hasExponent :=
  (same.after.dropWhile (!·.isSignificant)).startsExponent_eq
    (Lexeme.areAnswered_of_suffix same.answered_after (List.dropWhile_suffix _))

/-- A subscript has the same kind of fault. -/
theorem kind_subscriptFault? (idle : trail.isIdle = true) (same : Matches bytes trail first second)
    (isScript : first.here.token = .subscript) :
    second.subscriptFault?.map Fault.kind = first.subscriptFault?.map Fault.kind := by
  have logarithm := same.previous (fun token => token.command? == some .log) rfl
  obtain ⟨offset, lexed⟩ := same.lexed
  have goesOn : first.following.isSpent = false := by
    refine Text.isSpent_eq_false (lexed ▸ same.answered_after) ?_
    exact lexed ▸ Lexeme.fromOperand_ne_nil same.answered (.inr (.inl isScript))
  unfold subscriptFault?
  rw [logarithm, same.following, Probe.ofText_append idle goesOn]
  split
  · cases Probe.ofText first.following <;> rfl
  · rfl

/-- Faults are found at the same lexemes and are of the same kind. -/
theorem kind_fault? (idle : trail.isIdle = true) (same : Matches bytes trail first second) :
    second.fault?.map Fault.kind = first.fault?.map Fault.kind := by
  unfold fault?
  rw [same.token]
  cases isToken : first.here.token with
  | control name => simp only [same.controlFault?_eq idle isToken]
  | superscript =>
      have base := same.previous Token.isBase rfl
      simp only [exponentFault?, base, same.hasExponent_eq]
      split <;> rfl
  | subscript => exact same.kind_subscriptFault? idle isToken
  | _ => rfl

/-- The issues at two lexemes that match are of one kind, and one lies `bytes` behind the other. -/
theorem key_issue? (idle : trail.isIdle = true) (same : Matches bytes trail first second) :
    second.issue?.map Issue.key = first.issue?.map fun issue => (issue.shift bytes).key := by
  have kinds := same.kind_fault? idle
  unfold issue?
  cases isFirst : first.fault? <;> cases isSecond : second.fault? <;>
    rw [isFirst, isSecond] at kinds
  · rfl
  · cases kinds
  · cases kinds
  · simp only [Option.map_some, Issue.key, Issue.kind, Issue.shift, same.offset] at kinds ⊢
    rw [Option.some.inj kinds]

/-- Two lexemes that match open and close the same. -/
theorem event?_eq (same : Matches bytes trail first second) :
    second.event? = first.event?.map (·.shift bytes) := by
  have delimiters := same.map_token_sizedDelimiter?
  unfold event?
  rw [same.token, same.isSome_sizedBy?]
  split
  · cases isFirst : first.sizedDelimiter? <;> cases isSecond : second.sizedDelimiter? <;>
      rw [isFirst, isSecond] at delimiters
    · rfl
    · cases delimiters
    · cases delimiters
    · simp only [Option.map_some, DelimiterEvent.shift, same.offset] at delimiters ⊢
      rw [Option.some.inj delimiters]
  · split
    · rfl
    · rw [Option.map_map, same.offset]
      rfl

theorem isBar_eq (same : Matches bytes trail first second) : second.isBar = first.isBar := by
  have sized := same.isSome_sizedBy?
  rw [isBar, isBar, same.token, ← Option.not_isSome, ← Option.not_isSome, sized]

end Matches

/-! ## All lexemes of a formula -/

/-- Lexemes that stand for something: all but the idle ones. -/
def isLive (focus : Focus) : Bool :=
  !focus.here.token.isIdle

/-- Idle lexemes have no issue, are no delimiters and no bars. -/
theorem of_isLive_eq_false {focus : Focus} (idle : focus.isLive = false) :
    focus.issue? = none ∧ focus.event? = none ∧ focus.isBar = false := by
  rw [isLive, Bool.not_eq_false'] at idle
  rcases Token.eq_of_isIdle idle with isToken | ⟨text, isToken⟩ | isToken <;>
    simp [issue?, fault?, event?, isBar, isToken, Token.side?, Token.delimiter?]

theorem filter_isLive_eq_nil {lexemes : List Lexeme} (idle : lexemes.all (·.token.isIdle) = true)
    (before : List Lexeme) : (allFrom before lexemes).filter isLive = [] := by
  induction lexemes generalizing before with
  | nil => rfl
  | cons here after ih =>
      rw [List.all_cons, Bool.and_eq_true] at idle
      rw [allFrom, List.filter_cons_of_neg (by simp [isLive, idle.1])]
      exact ih idle.2 _

/-- Idle lexemes in front of a list are nothing but the lexemes before it. -/
theorem filter_isLive_append {front : List Lexeme} (idle : front.all (·.token.isIdle) = true)
    (before lexemes : List Lexeme) :
    (allFrom before (front ++ lexemes)).filter isLive =
      (allFrom (front.reverse ++ before) lexemes).filter isLive := by
  induction front generalizing before with
  | nil => rfl
  | cons here front ih =>
      rw [List.all_cons, Bool.and_eq_true] at idle
      rw [List.cons_append, allFrom, List.filter_cons_of_neg (by simp [isLive, idle.1]),
        ih idle.2, List.reverse_cons, List.append_assoc, List.singleton_append]

variable {trail : Text}

theorem Matches.isLive_eq {bytes : Nat} {first second : Focus}
    (same : Matches bytes trail first second) : second.isLive = first.isLive := by
  rw [isLive, isLive, same.token]

/-- A lexeme with the same token matches when what follows is continued with idle text. -/
theorem matches_lexemesFrom (idle : trail.isIdle = true) {bytes : Nat} {rest : Text}
    (visible : rest.endsVisibly = true) {offset later : Nat} {here other : Lexeme}
    (answered : Lexeme.areAnswered (here :: rest.lexemesFrom offset) = true)
    (place : other.offset = here.offset + bytes) (same : other.token = here.token)
    {before before' : List Lexeme} (nearest : Lexeme.SameNearest before before') :
    Matches bytes trail ⟨before, here, rest.lexemesFrom offset⟩
      ⟨before', other, (rest ++ trail).lexemesFrom later⟩ where
  offset := place
  token := same
  nearest := nearest
  after := Lexeme.agree_lexemesFrom idle visible (Bool.and_eq_true_iff.1 answered).2 later
  following := by simp only [following, Text.ofLexemes_lexemesFrom]
  lexed := ⟨offset, by simp only [following, Text.ofLexemes_lexemesFrom]⟩
  answered := answered

/-- The lexemes of a text that stand for something match those of the same text in front of idle
text, when the lexemes in front of the two texts cannot be told apart. -/
theorem forall₂_matches (idle : trail.isIdle = true) (bytes : Nat) {text : Text}
    (visible : text.endsVisibly = true) {offset : Nat}
    (answered : Lexeme.areAnswered (text.lexemesFrom offset) = true) {before before' : List Lexeme}
    (nearest : Lexeme.SameNearest before before') :
    List.Forall₂ (Matches bytes trail)
      ((allFrom before (text.lexemesFrom offset)).filter isLive)
      ((allFrom before' ((text ++ trail).lexemesFrom (offset + bytes))).filter isLive) := by
  fun_induction Text.lexemesFrom offset text generalizing before before' with
  | case1 offset =>
      rw [List.nil_append, filter_isLive_eq_nil (Text.all_isIdle_lexemesFrom idle _)]
      exact .nil
  | case2 offset c rest reading source ih =>
      have ending : reading.rest <:+ c :: rest :=
        ⟨c :: reading.taken, congrArg (c :: ·) (Token.read_append c rest)⟩
      have visibleRest := Text.endsVisibly_of_suffix visible ending
      rw [List.cons_append, Text.lexemesFrom]
      rcases Token.read_append_idle idle visible (Lexeme.ne_backslash answered) with
        same | ⟨⟨text, taken, isComment⟩, text', taken', left, isLonger, behindTrail⟩
      · let here : Lexeme := ⟨offset, reading.token, source⟩
        let other : Lexeme := ⟨offset + bytes, reading.token, source⟩
        have sameToken : other.token = here.token := rfl
        have place : offset + bytes + source.byteLength = offset + source.byteLength + bytes := by
          omega
        have later := ih visibleRest (Bool.and_eq_true_iff.1 answered).2 (nearest.cons sameToken)
        have matching : Matches bytes trail
            ⟨before, here, reading.rest.lexemesFrom (offset + source.byteLength)⟩
            ⟨before', other,
              (reading.rest ++ trail).lexemesFrom (offset + source.byteLength + bytes)⟩ :=
          matches_lexemesFrom idle visibleRest answered rfl sameToken nearest
        rw [same]
        change List.Forall₂ _ (List.filter isLive (⟨before, here, _⟩ :: _))
          (List.filter isLive (allFrom before'
            (other :: (reading.rest ++ trail).lexemesFrom (offset + bytes + source.byteLength))))
        rw [place, allFrom, List.filter_cons, List.filter_cons, matching.isLive_eq]
        split
        · exact .cons matching later
        · exact later
      · have isToken : reading.token = .comment text := congrArg Token.Reading.token isComment
        have nothing : reading.rest = [] := congrArg Token.Reading.rest isComment
        have idleLeft := Text.all_isIdle_lexemesFrom (Text.isIdle_of_suffix idle behindTrail)
        rw [filter_isLive_eq_nil, filter_isLive_eq_nil]
        · exact .nil
        · rw [isLonger, List.all_cons, idleLeft]
          rfl
        · rw [nothing, isToken, Text.lexemesFrom]
          rfl

/-- What is found at the lexemes of two lists that match, one by one. -/
theorem map_filterMap_eq {found result : Type} {bytes : Nat} {first second : List Focus}
    (matching : List.Forall₂ (Matches bytes trail) first second) {find? : Focus → Option found}
    {before after : found → result}
    (each : ∀ {focus other : Focus}, Matches bytes trail focus other →
      (find? other).map after = (find? focus).map before) :
    (second.filterMap find?).map after = (first.filterMap find?).map before := by
  induction matching with
  | nil => rfl
  | @cons focus other _ _ same _ ih =>
      have here := each same
      rw [List.filterMap_cons, List.filterMap_cons]
      cases isFirst : find? focus <;> cases isSecond : find? other <;>
        rw [isFirst, isSecond] at here
      · exact ih
      · cases here
      · cases here
      · rw [List.map_cons, List.map_cons, ih, Option.some.inj here]

theorem filterMap_filter_isLive {found : Type} {find? : Focus → Option found}
    (nothing : ∀ focus : Focus, focus.isLive = false → find? focus = none) (foci : List Focus) :
    (foci.filter isLive).filterMap find? = foci.filterMap find? := by
  rw [List.filterMap_filter]
  congr
  funext focus
  split
  · rfl
  · rename_i dead
    exact (nothing focus (Bool.eq_false_iff.2 dead)).symm

end Focus

/-! ## Delimiters, bars and issues -/

namespace DelimiterEvent

/-- Delimiters that are all moved by as many bytes leave the same issues, moved as well. -/
theorem unmatchedIn_shift (bytes : Nat) (stack events : List DelimiterEvent) :
    unmatchedIn (stack.map (shift bytes)) (events.map (shift bytes)) =
      (unmatchedIn stack events).map (·.shift bytes) := by
  induction events generalizing stack with
  | nil => simp [unmatchedIn, unclosed, Issue.shift, shift]
  | cons event rest ih =>
      have partners (opened : DelimiterEvent) :
          ((shift bytes opened).delimiter == (shift bytes event).delimiter) =
            (opened.delimiter == event.delimiter) := rfl
      have opens : (shift bytes event).opens = event.opens := rfl
      simp only [List.map_cons, unmatchedIn, List.any_map, List.takeWhile_map, List.dropWhile_map,
        ← List.map_tail, Function.comp_def, partners, opens]
      split
      · exact ih (event :: stack)
      · split
        · rw [ih, List.map_append, List.map_map, List.map_map]
          rfl
        · rw [ih, List.map_cons]
          rfl

theorem ofLexemes_shift {bytes : Nat} {first second : List Lexeme}
    (matching : List.Forall₂ (Focus.Matches bytes trail) ((Focus.all first).filter Focus.isLive)
      ((Focus.all second).filter Focus.isLive)) :
    ofLexemes second = (ofLexemes first).map (shift bytes) := by
  have each {focus other : Focus} (same : Focus.Matches bytes trail focus other) :
      other.event?.map id = focus.event?.map (shift bytes) := by
    rw [Option.map_id, id, same.event?_eq]
  have events := Focus.map_filterMap_eq matching each
  rwa [List.map_id, Focus.filterMap_filter_isLive fun _ dead => (Focus.of_isLive_eq_false dead).2.1,
    Focus.filterMap_filter_isLive fun _ dead => (Focus.of_isLive_eq_false dead).2.1] at events

end DelimiterEvent

namespace Issue

theorem map_key_oddBars? {bytes : Nat} {first second : List Lexeme}
    (matching : List.Forall₂ (Focus.Matches bytes trail) ((Focus.all first).filter Focus.isLive)
      ((Focus.all second).filter Focus.isLive)) :
    (oddBars? second).map key = (oddBars? first).map fun issue => (issue.shift bytes).key := by
  have each {focus other : Focus} (same : Focus.Matches bytes trail focus other) :
      (Option.guard Focus.isBar other).map (·.here.offset) =
        (Option.guard Focus.isBar focus).map (·.here.offset + bytes) := by
    simp only [Option.guard, same.isBar_eq]
    split
    · simp [same.offset]
    · rfl
  have places := Focus.map_filterMap_eq matching each
  have dead (focus : Focus) (idle : focus.isLive = false) : Option.guard Focus.isBar focus = none := by
    simp [Option.guard, (Focus.of_isLive_eq_false idle).2.2]
  rw [Focus.filterMap_filter_isLive dead, Focus.filterMap_filter_isLive dead,
    List.filterMap_eq_filter] at places
  have count := congrArg List.length places
  have last := congrArg List.getLast? places
  simp only [List.length_map, List.getLast?_map] at count last
  simp only [oddBars?, count]
  split
  · have marked := congrArg (Option.map fun place => (FaultKind.malformed, place)) last
    rwa [Option.map_map, Option.map_map] at marked ⊢
  · rfl

/-- The issues of two formulas whose lexemes match, one by one. -/
theorem map_key_ofLexemes (idle : trail.isIdle = true) {bytes : Nat} {first second : List Lexeme}
    (matching : List.Forall₂ (Focus.Matches bytes trail) ((Focus.all first).filter Focus.isLive)
      ((Focus.all second).filter Focus.isLive)) :
    (ofLexemes second).map key = (ofLexemes first).map fun issue => (issue.shift bytes).key := by
  have single := Focus.map_filterMap_eq matching (fun same => same.key_issue? idle)
  rw [Focus.filterMap_filter_isLive fun _ dead => (Focus.of_isLive_eq_false dead).1,
    Focus.filterMap_filter_isLive fun _ dead => (Focus.of_isLive_eq_false dead).1] at single
  have pairs := DelimiterEvent.unmatchedIn_shift bytes [] (DelimiterEvent.ofLexemes first)
  have bars := map_key_oddBars? matching
  simp only [ofLexemes, List.map_append, DelimiterEvent.unmatched, single,
    DelimiterEvent.ofLexemes_shift matching]
  rw [← Option.toList_map, bars, Option.toList_map]
  have delimiters := congrArg (List.map key) pairs
  rw [List.map_nil, List.map_map] at delimiters
  rw [delimiters]
  rfl

/-- Issues whose keys are those of other issues, all moved by as many bytes, have the same order. -/
theorem map_key_ordered {bytes : Nat} {first second : List Issue}
    (same : second.map key = first.map fun issue => (issue.shift bytes).key) :
    (ordered second).map key = (ordered first).map fun issue => (issue.shift bytes).key := by
  unfold ordered
  rw [List.map_mergeSort (s := fun first second => first.2 ≤ second.2),
    List.map_mergeSort (s := fun first second => first.2 ≤ second.2), same]
  · intro issue _ other _
    simp [key, shift]
  · exact fun _ _ _ _ => rfl

end Issue

end TexCalc

import TexCalc.Check.Issues
import TexCalc.Proofs.Check.Clean
import TexCalc.Proofs.Dollars.Contained
import TexCalc.Proofs.Spacing.Respaced
import TexCalc.Proofs.Spacing.Sought

/-!
# Formulas that are checked alike

What is hidden from a look at a list of lexemes may be replaced by something else that is hidden,
and the look comes upon the same token.  An operand is looked for past blanks, comments, ties and
spacing commands, everything else past blanks and comments only.

Whether a formula has issues depends on the faults of its lexemes, on the kinds of its delimiters
and on the number of its bars.  Lexemes that stand one by one in the place of others make no issue
when they are no faults where the others are none and open and close the same.  Copies of lexemes do
so, if the nearest significant lexeme in front of them is not told apart.
-/

namespace TexCalc

/-! ## Looking past what is hidden -/

namespace Lexeme

/-- Two lexemes have the same token, or both are hidden. -/
def Alike (hidden : Token → Bool) (first second : Lexeme) : Prop :=
  second.token = first.token ∨ hidden first.token = true ∧ hidden second.token = true

theorem IsCopy.alike {first second : Lexeme} (copy : IsCopy first second) (hidden : Token → Bool) :
    Alike hidden first second :=
  .inl copy.1

/-- Two lists are empty, or they begin with the same token and go on alike. -/
inductive Matched (hidden : Token → Bool) : List Lexeme → List Lexeme → Prop where
  | nil : Matched hidden [] []
  | cons {here other : Lexeme} {first second : List Lexeme} (same : other.token = here.token)
      (behind : List.Forall₂ (Alike hidden) first second) :
      Matched hidden (here :: first) (other :: second)

variable {hidden : Token → Bool} {first second : List Lexeme}

/-- What is found past hidden lexemes. -/
theorem matched_dropWhile (alike : List.Forall₂ (Alike hidden) first second) :
    Matched hidden (first.dropWhile (hidden ·.token)) (second.dropWhile (hidden ·.token)) := by
  induction alike with
  | nil => exact .nil
  | @cons here other first second pair behind ih =>
      rw [List.dropWhile_cons, List.dropWhile_cons]
      rcases pair with same | ⟨isHidden, isHidden'⟩
      · rw [same]
        split
        · exact ih
        · exact .cons same behind
      · rw [if_pos isHidden, if_pos isHidden']
        exact ih

/-- The nearest significant lexemes have the same token. -/
theorem map_token_find? (alike : List.Forall₂ (Alike (!·.isSignificant)) first second) :
    (second.find? (·.token.isSignificant)).map token =
      (first.find? (·.token.isSignificant)).map token := by
  induction alike with
  | nil => rfl
  | @cons here other first second pair behind ih =>
      rw [List.find?_cons, List.find?_cons]
      rcases pair with same | ⟨isHidden, isHidden'⟩
      · rw [same]
        cases here.token.isSignificant with
        | true => exact congrArg some same
        | false => exact ih
      · rw [Bool.not_eq_true'] at isHidden isHidden'
        rw [isHidden, isHidden']
        exact ih

/-- A test of the token of a lexeme that may be there. -/
theorem any_token_eq {found other : Option Lexeme} (same : other.map token = found.map token)
    (test : Token → Bool) : other.any (test ·.token) = found.any (test ·.token) := by
  have through (found : Option Lexeme) :
      found.any (test ·.token) = (found.map token).any test := by
    cases found <;> rfl
  rw [through, through, same]

/-- Whether an exponent begins does not change. -/
theorem Matched.startsExponent_eq (matched : Matched (!·.isSignificant) first second) :
    startsExponent second = startsExponent first := by
  cases matched with
  | nil => rfl
  | @cons here other first second same behind =>
      have inner := map_token_find? behind
      simp only [startsExponent, same]
      split
      · exact any_token_eq inner (· != .closeBrace)
      · rfl

/-! ## The argument of a function -/

theorem afterBrace?_alike (alike : List.Forall₂ (Alike (·.isPassedOver)) first second)
    (depth : Nat) :
    Option.Rel (List.Forall₂ (Alike (·.isPassedOver))) (afterBrace? depth first)
      (afterBrace? depth second) := by
  induction alike generalizing depth with
  | nil => cases depth <;> exact .none
  | @cons here other first second pair behind ih =>
      rw [afterBrace?_cons, afterBrace?_cons]
      rcases pair with same | ⟨isHidden, isHidden'⟩
      · rw [same]
        split
        · exact ih _
        · split
          · cases depth with
            | zero => exact .some behind
            | succ depth => exact ih _
          · exact ih _
      · have noBrace {lexeme : Lexeme} (isHidden : lexeme.token.isPassedOver = true) :
            lexeme.token ≠ .openBrace ∧ lexeme.token ≠ .closeBrace := by
          constructor <;> (intro isBrace; rw [isBrace] at isHidden; cases isHidden)
        rw [if_neg (noBrace isHidden).1, if_neg (noBrace isHidden).2, if_neg (noBrace isHidden').1,
          if_neg (noBrace isHidden').2]
        exact ih depth

theorem matched_fromOperand (alike : List.Forall₂ (Alike (·.isPassedOver)) first second) :
    Matched (·.isPassedOver) (fromOperand first) (fromOperand second) :=
  matched_dropWhile alike

theorem afterScript?_alike (alike : List.Forall₂ (Alike (·.isPassedOver)) first second) :
    Option.Rel (List.Forall₂ (Alike (·.isPassedOver))) (afterScript? first)
      (afterScript? second) := by
  have operands := matched_fromOperand alike
  unfold afterScript?
  generalize fromOperand first = front, fromOperand second = back at operands
  cases operands with
  | nil => exact .none
  | cons same behind =>
      simp only [same]
      split
      · exact afterBrace?_alike behind 0
      · exact .some behind

/-- The first operand that is no script is found at the same place. -/
theorem fromBase?_alike (alike : List.Forall₂ (Alike (·.isPassedOver)) first second) :
    Option.Rel (Matched (·.isPassedOver)) (fromBase? first) (fromBase? second) := by
  have operands := matched_fromOperand alike
  rw [fromBase?_eq second]
  fun_induction fromBase? first generalizing second with
  | case1 lexemes nothing =>
      rw [nothing] at operands
      generalize fromOperand second = found at operands
      cases operands
      exact .some .nil
  | case2 lexemes here rest isOperand isScript after isAfter ih =>
      rw [isOperand] at operands
      generalize fromOperand second = found at operands
      cases operands with
      | cons same behind =>
          have scripts := afterScript?_alike behind
          simp only [same, isScript, if_true]
          rw [isAfter] at scripts
          generalize afterScript? _ = later at scripts
          cases scripts with
          | some alikeAfter =>
              have bases := ih alikeAfter (matched_fromOperand alikeAfter)
              rwa [← fromBase?_eq] at bases
  | case3 lexemes here rest isOperand isScript noEnd =>
      rw [isOperand] at operands
      generalize fromOperand second = found at operands
      cases operands with
      | cons same behind =>
          have scripts := afterScript?_alike behind
          simp only [same, isScript, if_true]
          rw [noEnd] at scripts
          generalize afterScript? _ = later at scripts
          cases scripts
          exact .none
  | case4 lexemes here rest isOperand noScript =>
      rw [isOperand] at operands
      generalize fromOperand second = found at operands
      cases operands with
      | cons same behind =>
          simp only [same, noScript]
          exact .some (.cons same behind)

theorem Matched.beginsArgument_eq (matched : Matched (·.isPassedOver) first second) :
    beginsArgument second = beginsArgument first := by
  cases matched with
  | nil => rfl
  | @cons here other first second same behind =>
      have inner := matched_fromOperand behind
      rw [beginsArgument, beginsArgument, same]
      cases here.token with
      | openBrace =>
          generalize fromOperand first = front, fromOperand second = back at inner
          cases inner with
          | nil => rfl
          | cons same _ => simp only [same]
      | _ => rfl

theorem Matched.lacksFromBase_eq (matched : Matched (·.isPassedOver) first second) :
    lacksFromBase second = lacksFromBase first := by
  cases matched with
  | nil => rfl
  | cons same behind =>
      have operands := (matched_fromOperand behind).beginsArgument_eq
      have whole := (Matched.cons same behind).beginsArgument_eq
      simp only [lacksFromBase, same, operands, whole]

/-- Whether a function lacks its argument does not change. -/
theorem lacksArgument_alike (alike : List.Forall₂ (Alike (·.isPassedOver)) first second) :
    lacksArgument second = lacksArgument first := by
  have bases := fromBase?_alike alike
  rw [lacksArgument_eq, lacksArgument_eq]
  generalize fromBase? first = front, fromBase? second = back at bases
  cases bases with
  | none => rfl
  | some matched => exact matched.lacksFromBase_eq

end Lexeme

/-! ## Lists of lexemes that are checked alike -/

/-- What matters for the partner of a delimiter. -/
def DelimiterEvent.key (event : DelimiterEvent) : Delimiter × Bool :=
  (event.delimiter, event.opens)

/-- What stands in the first focus has no fault only if what stands in the second one has none, and
both open or close the same. -/
structure Focus.Fits (first second : Focus) : Prop where
  faultless : first.fault? = none → second.fault? = none
  event : second.event?.map DelimiterEvent.key = first.event?.map DelimiterEvent.key
  bar : second.isBar = first.isBar

namespace DelimiterEvent

theorem Settles.unmatchedIn_eq {event : DelimiterEvent} {stack later rest : List DelimiterEvent}
    (settles : event.Settles stack later) :
    unmatchedIn stack (event :: rest) = unmatchedIn later rest := by
  cases settles with
  | opening opens => exact unmatchedIn_opening opens
  | closing closes partner =>
      have isPartner : ∀ opened : DelimiterEvent, opened.delimiter = event.delimiter →
          event.isOther opened = false := fun opened same => by simp [isOther, same]
      have noOther : event.IsApart [] := List.forall_mem_nil _
      exact unmatchedIn_closing closes noOther (isPartner _ partner)

/-- Delimiters with the same keys are all matched when the others are. -/
theorem unmatchedIn_eq_nil {stack stack' events events' : List DelimiterEvent}
    (sameStack : stack'.map key = stack.map key) (sameEvents : events'.map key = events.map key)
    (matched : unmatchedIn stack events = []) : unmatchedIn stack' events' = [] := by
  induction events generalizing stack stack' events' with
  | nil =>
      obtain rfl := List.map_eq_nil_iff.1 sameEvents
      obtain rfl := List.map_eq_nil_iff.1 matched
      obtain rfl := List.map_eq_nil_iff.1 sameStack
      rfl
  | cons event events ih =>
      obtain ⟨event', rest', rfl, sameKey, sameRest⟩ := List.map_eq_cons_iff.1 sameEvents
      obtain ⟨sameDelimiter, sameOpens⟩ := Prod.mk.inj sameKey
      obtain ⟨later, settles, behind⟩ := exists_settles matched
      cases settles with
      | opening opens =>
          rw [(Settles.opening (sameOpens.trans opens)).unmatchedIn_eq]
          exact ih (by rw [List.map_cons, List.map_cons, sameKey, sameStack]) sameRest behind
      | @closing opened outer closes partner =>
          obtain ⟨opened', outer', rfl, sameOpened, sameOuter⟩ := List.map_eq_cons_iff.1 sameStack
          have partner' : opened'.delimiter = event'.delimiter :=
            (Prod.mk.inj sameOpened).1.trans (partner.trans sameDelimiter.symm)
          rw [(Settles.closing (sameOpens.trans closes) partner').unmatchedIn_eq]
          exact ih sameOuter sameRest behind

end DelimiterEvent

namespace Issue

theorem oddBars?_eq_none_iff {lexemes : List Lexeme} :
    oddBars? lexemes = none ↔ (Focus.all lexemes).countP Focus.isBar % 2 ≠ 1 := by
  rw [oddBars?, List.countP_eq_length_filter]
  generalize (Focus.all lexemes).filter Focus.isBar = bars
  by_cases odd : bars.length % 2 = 1
  · have some : bars ≠ [] := by
      rintro rfl
      cases odd
    simp [odd, List.getLast?_eq_some_getLast some]
  · simp [odd]

/-- No issue arises from lexemes that fit those of a formula without issues. -/
theorem ofLexemes_eq_nil_of_fits {first second : List Lexeme}
    (fits : List.Forall₂ Focus.Fits (Focus.all first) (Focus.all second))
    (noIssues : ofLexemes first = []) : ofLexemes second = [] := by
  simp only [ofLexemes, List.append_eq_nil_iff, Option.toList_eq_nil_iff,
    oddBars?_eq_none_iff, DelimiterEvent.ofLexemes, DelimiterEvent.unmatched] at noIssues ⊢
  obtain ⟨⟨faultless, matched⟩, even⟩ := noIssues
  generalize Focus.all first = foci, Focus.all second = others at fits faultless matched even ⊢
  refine ⟨⟨?_, DelimiterEvent.unmatchedIn_eq_nil rfl ?_ matched⟩, ?_⟩
  · clear matched even
    induction fits with
    | nil => rfl
    | @cons focus other _ _ fit _ ih =>
        rw [List.filterMap_eq_nil_iff, List.forall_mem_cons] at faultless ⊢
        rw [← List.filterMap_eq_nil_iff] at faultless ⊢
        refine ⟨?_, ih faultless.2⟩
        rw [Focus.issue?, Option.map_eq_none_iff] at faultless ⊢
        exact fit.faultless faultless.1
  · clear faultless matched even
    induction fits with
    | nil => rfl
    | @cons focus other _ _ fit _ ih =>
        rw [List.map_filterMap, List.map_filterMap] at ih ⊢
        rw [List.filterMap_cons, List.filterMap_cons, fit.event, ih]
  · clear faultless matched
    suffices same : others.countP Focus.isBar = foci.countP Focus.isBar by rwa [same]
    clear even
    induction fits with
    | nil => rfl
    | @cons focus other _ _ fit _ ih => rw [List.countP_cons, List.countP_cons, ih, fit.bar]

end Issue

/-! ## Copies of lexemes -/

namespace Lexeme

variable {first second : List Lexeme} (copies : List.Forall₂ IsCopy first second)

include copies

theorem alike_of_copies (hidden : Token → Bool) : List.Forall₂ (Alike hidden) first second :=
  copies.imp fun _ _ copy => copy.alike hidden

theorem map_token_copies : second.map token = first.map token := by
  induction copies with
  | nil => rfl
  | cons copy _ ih => rw [List.map_cons, List.map_cons, ih, copy.1]

theorem ofLexemes_copies : Text.ofLexemes second = Text.ofLexemes first := by
  unfold Text.ofLexemes
  induction copies with
  | nil => rfl
  | cons copy _ ih => rw [List.flatMap_cons, List.flatMap_cons, ih, copy.2]

end Lexeme

namespace Focus

theorem isSome_sizedDelimiter? (focus : Focus) :
    focus.sizedDelimiter?.isSome = focus.next?.any (·.token.sizedDelimiter?.isSome) := by
  unfold sizedDelimiter?
  cases focus.next? with
  | none => rfl
  | some next =>
      rw [Option.any_some, Option.filter]
      split <;> simp_all

theorem exponentFault?_eq_none_iff {focus : Focus} : focus.exponentFault? = none ↔
    focus.previous?.any (·.token.isBase) = true ∧ focus.hasExponent = true := by
  rw [exponentFault?, ← Bool.and_eq_true]
  split <;> simp_all

theorem subscriptFault?_eq_none_iff {focus : Focus} : focus.subscriptFault? = none ↔
    focus.previous?.any (·.token.command? == some .log) = true ∧
      Malformation.ofFraction? [] 1 focus.following = none := by
  unfold subscriptFault?
  split
  · rename_i isLog
    rw [Malformation.ofFraction?]
    cases Probe.ofText focus.following <;> simp [isLog, Malformation.ofFraction?]
  · rename_i noLog
    simp [noLog]

/-- What opens or closes at two lexemes with the same token. -/
theorem map_key_event? {first second : Focus} (same : second.here.token = first.here.token)
    (sizes : first.here.token.side?.isSome = true →
      second.sizedDelimiter?.isSome = first.sizedDelimiter?.isSome)
    (sized : second.sizedBy?.isSome = first.sizedBy?.isSome) :
    second.event?.map DelimiterEvent.key = first.event?.map DelimiterEvent.key := by
  simp only [event?, same, sized]
  cases isSide : first.here.token.side? with
  | some side =>
      have sizes := sizes (by rw [isSide]; rfl)
      cases isFirst : first.sizedDelimiter? <;> cases isSecond : second.sizedDelimiter? <;>
        simp_all [DelimiterEvent.key]
  | none =>
      simp only
      split
      · rfl
      · rw [Option.map_map, Option.map_map]
        rfl

/-- A copy of a lexeme in front of copies of what follows. -/
theorem Fits.of_copies {first second : Focus} (same : second.here.token = first.here.token)
    (copies : List.Forall₂ Lexeme.IsCopy first.after second.after)
    (scripts : first.here.token.isScript = true →
      second.previous?.map Lexeme.token = first.previous?.map Lexeme.token)
    (sized : second.sizedBy?.isSome = first.sizedBy?.isSome) : Fits first second := by
  have sizes : second.sizedDelimiter?.isSome = first.sizedDelimiter?.isSome := by
    rw [isSome_sizedDelimiter?, isSome_sizedDelimiter?]
    exact Lexeme.any_token_eq (Lexeme.map_token_find? (Lexeme.alike_of_copies copies _))
      (·.sizedDelimiter?.isSome)
  have following : second.following = first.following := Lexeme.ofLexemes_copies copies
  refine ⟨fun faultless => ?_, map_key_event? same (fun _ => sizes) sized, ?_⟩
  · simp only [fault?, same] at faultless ⊢
    cases isToken : first.here.token with
    | control name =>
        have lacks := Lexeme.lacksArgument_alike (Lexeme.alike_of_copies copies _)
        rw [isToken] at faultless
        simp only [controlFault?] at faultless ⊢
        rwa [same, following, sizes, lacks]
    | superscript =>
        have previous := Lexeme.any_token_eq (scripts (by rw [isToken]; rfl)) Token.isBase
        have has : second.hasExponent = first.hasExponent :=
          (Lexeme.matched_dropWhile (Lexeme.alike_of_copies copies _)).startsExponent_eq
        simp only [isToken, exponentFault?_eq_none_iff] at faultless ⊢
        rwa [previous, has]
    | subscript =>
        have previous := Lexeme.any_token_eq (scripts (by rw [isToken]; rfl))
          (fun token => token.command? == some .log)
        simp only [isToken, subscriptFault?_eq_none_iff] at faultless ⊢
        rwa [previous, following]
    | char c =>
        rw [isToken] at faultless
        exact faultless
    | _ => rfl
  · rw [isBar, isBar, same, ← Option.not_isSome, ← Option.not_isSome, sized]

/-- The nearest significant lexemes have the same token, or none of them is a `\left` or `\right`
and no script follows. -/
def NearestAlike (before before' rest : List Lexeme) : Prop :=
  (before'.find? (·.token.isSignificant)).map Lexeme.token =
      (before.find? (·.token.isSignificant)).map Lexeme.token ∨
    (∀ here, before.find? (·.token.isSignificant) = some here → here.token.side? = none) ∧
      (∀ here, before'.find? (·.token.isSignificant) = some here → here.token.side? = none) ∧
        ∀ here, rest.find? (·.token.isSignificant) = some here → here.token.isScript = false

namespace NearestAlike

variable {before before' rest : List Lexeme} {here other : Lexeme}
  (nearest : NearestAlike before before' (here :: rest))

include nearest

/-- A script has the same token in front of it. -/
theorem of_isScript (isScript : here.token.isScript = true) :
    (before'.find? (·.token.isSignificant)).map Lexeme.token =
      (before.find? (·.token.isSignificant)).map Lexeme.token := by
  have significant : here.token.isSignificant = true := by
    simp only [Token.isScript, Bool.or_eq_true, beq_iff_eq] at isScript
    rcases isScript with isToken | isToken <;> rw [isToken] <;> rfl
  rcases nearest with same | ⟨_, _, noScript⟩
  · exact same
  · have contrary := noScript here (by rw [List.find?_cons, significant])
    rw [isScript] at contrary
    cases contrary

/-- A delimiter is sized in both places or in none. -/
theorem isSome_bind_side? :
    ((before'.find? (·.token.isSignificant)).bind (·.token.side?)).isSome =
      ((before.find? (·.token.isSignificant)).bind (·.token.side?)).isSome := by
  rcases nearest with same | ⟨noSide, noSide', _⟩
  · have through (found : Option Lexeme) :
        (found.bind (·.token.side?)).isSome = found.any (·.token.side?.isSome) := by
      cases found <;> rfl
    rw [through, through]
    exact Lexeme.any_token_eq same (·.side?.isSome)
  · have nothing {found : Option Lexeme}
        (noSide : ∀ here, found = some here → here.token.side? = none) :
        found.bind (·.token.side?) = none := by
      cases found with
      | none => rfl
      | some here => exact noSide here rfl
    rw [nothing noSide, nothing noSide']

theorem cons (same : other.token = here.token) :
    NearestAlike (here :: before) (other :: before') rest := by
  simp only [NearestAlike, List.find?_cons, same] at nearest ⊢
  cases significant : here.token.isSignificant with
  | true => exact .inl (congrArg some same)
  | false =>
      rw [significant] at nearest
      exact nearest

end NearestAlike

/-- Copies of lexemes fit, when the lexemes in front are not told apart. -/
theorem forall₂_fits {rest rest' : List Lexeme} (copies : List.Forall₂ Lexeme.IsCopy rest rest')
    {before before' : List Lexeme} (nearest : NearestAlike before before' rest) :
    List.Forall₂ Fits (allFrom before rest) (allFrom before' rest') := by
  induction copies generalizing before before' with
  | nil => exact .nil
  | @cons here other rest rest' copy copies ih =>
      refine .cons (Fits.of_copies copy.1 copies nearest.of_isScript ?_) (ih (nearest.cons copy.1))
      simp only [sizedBy?, copy.1]
      split
      · exact nearest.isSome_bind_side?
      · rfl

end Focus

end TexCalc

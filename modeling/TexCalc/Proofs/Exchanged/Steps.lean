import TexCalc.Proofs.Exchanged.Read
import TexCalc.Proofs.Linear.Commands

/-!
# The steps up to the renaming on respelled texts

Fractions and roots, inverse functions and logarithms with a base are resolved in a respelled text as
they are in the text itself, for no exchanged command is one of theirs, except for the logarithm
when it has a base.  What the steps make of two texts that differ in commands differs in the same
commands.  The renaming then takes away the difference.
-/

namespace TexCalc

/-! ## Trimming -/

namespace Text

variable {c : Char} {front text : Text}

theorem trimEnd_cons (c : Char) (text : Text) :
    trimEnd (c :: text) = if text.trimEnd.isEmpty && isBlank c then [] else c :: text.trimEnd := by
  rw [trimEnd, trimEnd, List.reverse_cons, List.dropWhile_append]
  cases text.reverse.dropWhile isBlank with
  | nil => cases blank : isBlank c <;> simp [blank]
  | cons d rest => simp

theorem trimEnd_append_of_visible (visible : front.all (!isBlank ·) = true) (text : Text) :
    trimEnd (front ++ text) = front ++ text.trimEnd := by
  induction front with
  | nil => rfl
  | cons c front ih =>
      rw [List.all_cons, Bool.and_eq_true, Bool.not_eq_true'] at visible
      rw [List.cons_append, trimEnd_cons, visible.1, Bool.and_false, if_neg Bool.false_ne_true,
        ih visible.2, List.cons_append]

theorem trimEnd_word {name : Text} (letters : name.all Char.isAlpha = true) (text : Text) :
    trimEnd ('\\' :: (name ++ text)) = '\\' :: (name ++ text.trimEnd) := by
  have visible : List.all ('\\' :: name) (!isBlank ·) = true := by
    refine List.all_eq_true.2 fun c isMember => ?_
    rcases List.mem_cons.1 isMember with rfl | isMember
    · rfl
    · have letter := List.all_eq_true.1 letters c isMember
      rw [isBlank_eq_false_of_isAlphanum (by simp [Char.isAlphanum, letter])]
      rfl
  exact trimEnd_append_of_visible visible text

theorem endsRun_trimEnd {accept : Char → Bool} (ends : text.endsRun accept = true) :
    text.trimEnd.endsRun accept = true := by
  cases text with
  | nil => rfl
  | cons c text =>
      rw [trimEnd_cons]
      split
      · rfl
      · exact ends

theorem endsRun_of_takeWhile_eq {accept : Char → Bool} {other : Text}
    (same : other.takeWhile accept = text.takeWhile accept) (ends : text.endsRun accept = true) :
    other.endsRun accept = true := by
  rw [takeWhile_eq_nil_of_endsRun ends] at same
  cases other with
  | nil => rfl
  | cons c other =>
      cases accepted : accept c with
      | false => simp [endsRun, accepted]
      | true => simp [accepted] at same

end Text

namespace Exchange

variable {exchange : Exchange} {text other : Text}

namespace Respelled

variable (respelled : exchange.Respelled true text other)

include respelled

theorem isEmpty_eq : other.isEmpty = text.isEmpty := by
  cases respelled <;> rfl

theorem trimEnd : exchange.Respelled true text.trimEnd other.trimEnd := by
  induction respelled with
  | nil => exact .nil
  | backslash raw => cases raw
  | plain plain _ ih =>
      rw [Text.trimEnd_cons, Text.trimEnd_cons, ih.isEmpty_eq]
      split
      · exact .nil
      · exact .plain plain ih
  | @control old new text other spells ends _ ih =>
      have letters := spells.2.1
      rw [Text.trimEnd_word letters, Text.trimEnd_word (spells.all_isAlpha.trans letters)]
      exact .control spells (fun _ => Text.endsRun_trimEnd (ends letters)) ih

theorem trim : exchange.Respelled true text.trim other.trim :=
  respelled.trimStart.rest.trimEnd

theorem isEnclosed_eq : other.isEnclosed = text.isEnclosed := by
  have trimmed := respelled.trim
  unfold Text.isEnclosed
  generalize text.trim = inner, other.trim = inner' at trimmed ⊢
  cases trimmed with
  | nil | backslash | control => rfl
  | @plain c inner inner' plain later =>
      by_cases opens : c = '('
      · subst opens
        have groups := later.groupFrom? .round 0
        simp only [Bracket.group?]
        generalize Bracket.round.groupFrom? 0 inner = found,
          Bracket.round.groupFrom? 0 inner' = found' at groups ⊢
        cases groups with
        | none => rfl
        | some alike => exact alike.reaches.rest.isEmpty_eq
      · simp [opens]

theorem wrap : exchange.Respelled true text.wrap other.wrap := by
  rw [Text.wrap, Text.wrap, respelled.isEnclosed_eq]
  split
  · exact respelled.trim
  · exact respelled.trim.parenthesized

end Respelled

/-! ## Fractions and roots -/

/-- Two structures, with what follows them, on one line. -/
def StructuresAlike (exchange : Exchange) (found found' : Structure × Text) : Prop :=
  exchange.Respelled true (found.1.linear ++ found.2) (found'.1.linear ++ found'.2)

namespace Respelled

variable (respelled : exchange.Respelled true text other)

include respelled

theorem readFraction? : Option.Rel exchange.StructuresAlike (Structure.readFraction? text)
    (Structure.readFraction? other) :=
  Option.rel_bind respelled.argument? fun _ numerator =>
    Option.rel_map numerator.rest.argument? fun denominator =>
      (numerator.text.wrap.append_cons (by decide) (by decide)
        denominator.text.wrap).parenthesized_append denominator.rest

theorem readRoot? : Option.Rel exchange.StructuresAlike (Structure.readRoot? text)
    (Structure.readRoot? other) := by
  rw [Structure.readRoot?, Structure.readRoot?, respelled.skipBlanks.rest.head?]
  split
  · refine Option.rel_bind respelled.optionalArgument? fun _ index => ?_
    refine Option.rel_map index.rest.argument? fun radicand => ?_
    have exponent := (index.text.wrap.append_of_not_mem
      (show '\\' ∉ "1/".toList by decide)).parenthesized
    exact (radicand.text.wrap.append_cons (by decide) (by decide)
      exponent).parenthesized_append radicand.rest
  · refine Option.rel_map respelled.argument? fun radicand => ?_
    exact (radicand.text.trim.parenthesized.append_of_not_mem
      (show '\\' ∉ "sqrt".toList by decide)).parenthesized_append radicand.rest

theorem structure? {everywhere : Bool} {old new : Text}
    (spells : exchange.Spells everywhere old new) :
    Option.Rel exchange.StructuresAlike (Structure.read? old text) (Structure.read? new other) := by
  have fraction := spells.eq_of_pairs Command.isFraction (by decide)
  have root := spells.eq_of_pairs Command.isRoot (by decide)
  rw [Structure.read?, Structure.read?, fraction, root]
  split
  · exact respelled.readFraction?
  · split
    · exact respelled.readRoot?
    · exact .none

theorem resolveLast? : Option.Rel (exchange.Respelled true) (Structure.resolveLast? text.pieces)
    (Structure.resolveLast? other.pieces) := by
  induction respelled with
  | nil =>
      rw [Text.pieces]
      exact .none
  | backslash raw => cases raw
  | @plain c text other plain later ih =>
      rw [Text.pieces_cons plain, Text.pieces_cons plain]
      simp only [Structure.resolveLast?]
      generalize Structure.resolveLast? text.pieces = found,
        Structure.resolveLast? other.pieces = found' at ih ⊢
      cases ih with
      | none => exact .none
      | some resolved => exact .some (.plain plain resolved)
  | @control old new text other spells ends later ih =>
      obtain ⟨isOld, isNew⟩ := spells.read? ends later
      have here := later.structure? spells
      rw [Text.pieces_control isOld, Text.pieces_control isNew]
      simp only [Structure.resolveLast?, Text.ofPieces_pieces]
      cases found : Structure.resolveLast? text.pieces with
      | none =>
          rw [found] at ih
          generalize Structure.resolveLast? other.pieces = found' at ih ⊢
          cases ih
          exact Option.rel_map here id
      | some resolved =>
          have kept := (Structure.count_pieces_resolveLast? found).2
          rw [found] at ih
          generalize Structure.resolveLast? other.pieces = found' at ih ⊢
          cases ih with
          | some behind => exact .some (.control spells (fun letters => kept (ends letters)) behind)

theorem count_pieces_eq : Structure.count other.pieces = Structure.count text.pieces := by
  induction respelled with
  | nil => rfl
  | backslash raw => cases raw
  | plain plain _ ih =>
      rw [Structure.count_pieces_cons plain, Structure.count_pieces_cons plain, ih]
  | control spells ends later ih =>
      obtain ⟨isOld, isNew⟩ := spells.read? ends later
      have same := spells.eq_of_pairs (fun name => if Structure.IsName name then 1 else 0) (by decide)
      rw [Structure.count_pieces_control isOld, Structure.count_pieces_control isNew, ih, same]

theorem resolveStructures :
    exchange.Respelled true text.resolveStructures other.resolveStructures := by
  rw [Text.resolveStructures, Text.resolveStructures, respelled.count_pieces_eq]
  generalize Structure.count text.pieces = rounds
  induction rounds generalizing text other with
  | zero => exact respelled
  | succ rounds ih =>
      have next := respelled.resolveLast?
      simp only [Structure.resolveUpTo]
      generalize Structure.resolveLast? text.pieces = found,
        Structure.resolveLast? other.pieces = found' at next ⊢
      cases next with
      | none => exact respelled
      | some resolved => exact ih resolved

end Respelled

/-! ## Inverse functions -/

/-- What begins with an exchanged name is no inverse function. -/
theorem inverseMark?_of_mem {old new : Text} (isMember : (old, new) ∈ exchange.pairs) (text : Text) :
    Text.inverseMark? ('\\' :: (old ++ text)) = none ∧
      Text.inverseMark? ('\\' :: (new ++ text)) = none := by
  have apart {c : Char} (other : c ∉ ['s', 'c', 't']) (rest : Text) :
      Text.inverseMark? ('\\' :: c :: rest) = none := by
    simp only [List.mem_cons, List.not_mem_nil, or_false, not_or] at other
    simp [Text.inverseMark?, Text.trigonometric, Text.dropLead?, other]
  cases exchange <;> simp only [pairs, List.mem_cons, Prod.mk.injEq, List.not_mem_nil, or_false]
    at isMember
  · rcases isMember with ⟨rfl, rfl⟩ | ⟨rfl, rfl⟩ <;>
      exact ⟨apart (by decide) _, apart (by decide) _⟩
  · obtain ⟨rfl, rfl⟩ := isMember
    exact ⟨apart (by decide) _, apart (by decide) _⟩

namespace Respelled

variable (respelled : exchange.Respelled true text other)

include respelled

theorem afterMinusOne? : Option.Rel (exchange.Respelled true) text.afterMinusOne?
    other.afterMinusOne? := by
  suffices passes : ∀ {marks : List Char}, '\\' ∉ marks → ∀ {text other : Text},
      exchange.Respelled true text other → Option.Rel (exchange.Respelled true)
        (marks.foldlM (fun rest c => (Text.trimStart rest).dropLead? [c]) text)
        (marks.foldlM (fun rest c => (Text.trimStart rest).dropLead? [c]) other) from
    passes (by decide) respelled
  intro marks plain
  induction marks with
  | nil => exact fun respelled => .some respelled
  | cons mark marks ih =>
      intro text other respelled
      rw [List.mem_cons, not_or] at plain
      rw [List.foldlM_cons, List.foldlM_cons]
      refine Option.rel_bind (respelled.trimStart.rest.dropLead? ?_) fun _ reaches =>
        ih plain.2 reaches.rest
      simpa using plain.1

theorem inverseMark? : Option.Rel (fun mark mark' : Cut =>
      mark'.text = mark.text ∧ exchange.Respelled true mark.rest mark'.rest)
    text.inverseMark? other.inverseMark? := by
  cases respelled with
  | nil => exact .none
  | backslash raw => cases raw
  | plain plain _ =>
      rw [Text.inverseMark?_cons plain, Text.inverseMark?_cons plain]
      exact .none
  | @control old new text other spells ends later =>
      rcases spells.eq_or_mem with rfl | isMember
      · have same := later.append_of_not_mem (Text.not_mem_of_all_isAlpha spells.2.1)
        simp only [Text.inverseMark?]
        have plain : ∀ name ∈ Text.trigonometric, '\\' ∉ name := by decide
        refine Option.rel_findSome? fun name isMember => ?_
        refine Option.rel_bind (same.dropLead? (plain name isMember)) fun _ reaches => ?_
        refine Option.rel_bind reaches.rest.afterMinusOne? fun _ after => ?_
        cases Command.inverse? name with
        | none => exact .none
        | some inverse => exact .some ⟨rfl, after⟩
      · rw [(inverseMark?_of_mem isMember text).1, (inverseMark?_of_mem isMember other).2]
        exact .none

omit respelled in
/-- A step that leaves a command where it is goes on behind it. -/
theorem passed {step : Text → Text} {old new : Text} (spells : exchange.Spells true old new)
    (ends : old.all Char.isAlpha = true → text.endsRun Char.isAlpha = true)
    (append : ∀ {front rest : Text}, '\\' ∉ front → step (front ++ rest) = front ++ step rest)
    (kept : (step text).takeWhile Char.isAlpha = text.takeWhile Char.isAlpha)
    (later : exchange.Respelled true (step text) (step other)) :
    exchange.Respelled true ('\\' :: step (old ++ text)) ('\\' :: step (new ++ other)) := by
  have letters := spells.2.1
  rw [append (Text.not_mem_of_all_isAlpha letters),
    append (Text.not_mem_of_all_isAlpha (spells.all_isAlpha.trans letters))]
  exact .control spells (fun _ => Text.endsRun_of_takeWhile_eq kept (ends letters)) later

theorem resolveInverses (vocabulary : Vocabulary) : exchange.Respelled true
    (text.resolveInverses vocabulary) (other.resolveInverses vocabulary) := by
  induction size : text.length using Nat.strongRecOn generalizing text other with
  | ind size ih =>
      subst size
      cases respelled with
      | nil =>
          rw [Text.resolveInverses]
          exact .nil
      | backslash raw => cases raw
      | @plain c text other plain later =>
          rw [Text.resolveInverses_plain plain, Text.resolveInverses_plain plain]
          exact .plain plain (ih text.length (Nat.lt_succ_self _) later rfl)
      | @control old new text other spells ends later =>
          have marks := (Respelled.control spells ends later).inverseMark?
          rw [Text.resolveInverses_eq, Text.resolveInverses_eq]
          cases isMark : Text.inverseMark? ('\\' :: (old ++ text)) with
          | none =>
              have shorter : text.length < ('\\' :: (old ++ text)).length := by
                simp only [List.length_cons, List.length_append]
                omega
              rw [isMark] at marks
              generalize Text.inverseMark? ('\\' :: (new ++ other)) = found at marks ⊢
              cases marks
              exact passed spells ends Text.resolveInverses_append
                (Text.takeWhile_resolveInverses vocabulary text) (ih _ shorter later rfl)
          | some mark =>
              have shorter := Text.length_lt_of_inverseMark? isMark
              obtain ⟨_, _, _, _, plain⟩ := Text.words_of_inverseMark? isMark
              rw [isMark] at marks
              generalize Text.inverseMark? ('\\' :: (new ++ other)) = found at marks ⊢
              cases marks with
              | @some _ mark' same =>
                  obtain ⟨sameText, rests⟩ := same
                  have arguments := rests.bareArgument? vocabulary
                  simp only [sameText]
                  cases isArgument : mark.rest.bareArgument? vocabulary with
                  | none =>
                      rw [isArgument] at arguments
                      generalize mark'.rest.bareArgument? vocabulary = found at arguments ⊢
                      cases arguments
                      refine .plain (by decide) (Respelled.append_of_not_mem plain ?_)
                      exact .plain (by decide) (ih _ shorter rests rfl)
                  | some argument =>
                      have fewer := Text.length_le_of_bareArgument? isArgument
                      rw [isArgument] at arguments
                      generalize mark'.rest.bareArgument? vocabulary = found at arguments ⊢
                      cases arguments with
                      | some same =>
                          simp only [List.append_assoc, List.cons_append]
                          refine .plain (by decide) (Respelled.append_of_not_mem plain ?_)
                          exact same.1.parenthesized_append
                            (ih _ (Nat.lt_of_le_of_lt fewer shorter) same.2 rfl)

/-! ## Logarithms with a base -/

/-- A text without commands is not spelled differently. -/
theorem eq_of_not_mem (plain : '\\' ∉ text ∨ '\\' ∉ other) : other = text := by
  induction respelled with
  | nil | backslash => rfl
  | plain _ _ ih =>
      rw [List.mem_cons, List.mem_cons, not_or, not_or] at plain
      rw [ih (plain.imp And.right And.right)]
  | control => simp at plain

theorem logFunction?_eq : Text.logFunction? other = Text.logFunction? text := by
  have told {base : Text} (plain : '\\' ∉ base) : (other = base) = (text = base) := by
    refine propext ⟨?_, ?_⟩ <;> rintro rfl
    · exact (respelled.eq_of_not_mem (.inr plain)).symm
    · exact respelled.eq_of_not_mem (.inl plain)
  rw [Text.logFunction?, Text.logFunction?]
  simp only [told (show '\\' ∉ "10".toList by decide), told (show '\\' ∉ "e".toList by decide)]

theorem logOf_append {argument argument' right right' : Text}
    (arguments : exchange.Respelled true argument argument')
    (later : exchange.Respelled true right right') :
    exchange.Respelled true (Text.logOf text argument ++ right)
      (Text.logOf other argument' ++ right') := by
  rw [Text.logOf, Text.logOf, respelled.logFunction?_eq]
  cases found : Text.logFunction? text with
  | some function =>
      simp only [List.append_assoc, List.cons_append]
      exact .plain (by decide) (Respelled.append_of_not_mem (Text.not_mem_of_logFunction? found).2
        (arguments.parenthesized_append later))
  | none =>
      have base := respelled.parenthesized.append_of_not_mem (show '\\' ∉ "/log".toList by decide)
      have quotient := (arguments.parenthesized_append base).append_of_not_mem
        (show '\\' ∉ "log".toList by decide)
      simp only [List.append_assoc, List.cons_append]
      exact .plain (by decide) (quotient.parenthesized_append later)

theorem bareLog_append {right right' : Text} (later : exchange.Respelled true right right') :
    exchange.Respelled true (Text.bareLog text ++ right) (Text.bareLog other ++ right') := by
  rw [Text.bareLog, Text.bareLog, respelled.logFunction?_eq]
  cases found : Text.logFunction? text with
  | some function =>
      simp only [List.append_assoc, List.cons_append]
      exact .plain (by decide) (Respelled.append_of_not_mem (Text.not_mem_of_logFunction? found).2
        (.plain (by decide) later))
  | none =>
      have base := respelled.parenthesized.append_of_not_mem (show '\\' ∉ "1/log".toList by decide)
      have factor := later.append_of_not_mem (show '\\' ∉ "* log ".toList by decide)
      simp only [List.append_assoc, List.cons_append]
      exact .plain (by decide) (base.parenthesized_append factor)

theorem afterLogMark? (isSigns : exchange = .signs) : Option.Rel (exchange.Respelled true)
    text.afterLogMark? other.afterLogMark? := by
  cases respelled with
  | nil => exact .none
  | backslash raw => cases raw
  | plain plain _ =>
      rw [Text.afterLogMark?_cons plain, Text.afterLogMark?_cons plain]
      exact .none
  | @control old new text other spells ends later =>
      have begins (rest : Text) : Text.afterLogMark? ('\\' :: rest) =
          (rest.dropLead? "log".toList).bind fun rest => rest.trimStart.dropLead? ['_'] := rfl
      rw [begins, begins]
      rcases spells.eq_or_mem with rfl | isMember
      · have same := later.append_of_not_mem (Text.not_mem_of_all_isAlpha spells.2.1)
        refine Option.rel_bind (same.dropLead? (by decide)) fun _ reaches => ?_
        exact Option.rel_mono (reaches.rest.trimStart.rest.dropLead? (by decide)) Reaches.rest
      · subst isSigns
        simp only [pairs, List.mem_cons, Prod.mk.injEq, List.not_mem_nil, or_false] at isMember
        rcases isMember with ⟨rfl, rfl⟩ | ⟨rfl, rfl⟩ <;> exact .none

theorem resolveLogBases_signs (isSigns : exchange = .signs) (vocabulary : Vocabulary) :
    exchange.Respelled true (text.resolveLogBases vocabulary) (other.resolveLogBases vocabulary) := by
  induction size : text.length using Nat.strongRecOn generalizing text other with
  | ind size ih =>
      subst size
      cases respelled with
      | nil =>
          rw [Text.resolveLogBases]
          exact .nil
      | backslash raw => cases raw
      | @plain c text other plain later =>
          rw [Text.resolveLogBases_plain plain, Text.resolveLogBases_plain plain]
          exact .plain plain (ih text.length (Nat.lt_succ_self _) later rfl)
      | @control old new text other spells ends later =>
          have bases := Option.rel_bind ((Respelled.control spells ends later).afterLogMark? isSigns)
            fun _ after => after.argument?
          rw [Text.resolveLogBases_eq, Text.resolveLogBases_eq]
          cases isBase : (Text.afterLogMark? ('\\' :: (old ++ text))).bind Argument.read? with
          | none =>
              have shorter : text.length < ('\\' :: (old ++ text)).length := by
                simp only [List.length_cons, List.length_append]
                omega
              rw [isBase] at bases
              generalize (Text.afterLogMark? ('\\' :: (new ++ other))).bind Argument.read? = found
                at bases ⊢
              cases bases
              exact passed spells ends Text.resolveLogBases_append
                (Text.takeWhile_resolveLogBases vocabulary text) (ih _ shorter later rfl)
          | some base =>
              have shorter : base.rest.length < ('\\' :: (old ++ text)).length := by
                obtain ⟨after, isAfter, isRead⟩ := Option.bind_eq_some_iff.1 isBase
                have marked := Text.length_lt_of_afterLogMark? isAfter
                have read := Argument.length_lt_of_read? isRead
                omega
              rw [isBase] at bases
              generalize (Text.afterLogMark? ('\\' :: (new ++ other))).bind Argument.read? = found
                at bases ⊢
              cases bases with
              | @some _ base' same =>
                  have arguments := same.rest.bareArgument? vocabulary
                  simp only
                  cases isArgument : base.rest.bareArgument? vocabulary with
                  | none =>
                      rw [isArgument] at arguments
                      generalize base'.rest.bareArgument? vocabulary = found at arguments ⊢
                      cases arguments
                      exact same.text.trim.bareLog_append (ih _ shorter same.rest rfl)
                  | some argument =>
                      have fewer := Text.length_le_of_bareArgument? isArgument
                      rw [isArgument] at arguments
                      generalize base'.rest.bareArgument? vocabulary = found at arguments ⊢
                      cases arguments with
                      | some both =>
                          exact same.text.trim.logOf_append both.1
                            (ih _ (Nat.lt_of_le_of_lt fewer shorter) both.2 rfl)

end Respelled

end Exchange

end TexCalc

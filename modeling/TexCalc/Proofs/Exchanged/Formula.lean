import TexCalc.Proofs.Exchanged.Steps
import TexCalc.Proofs.Tex.Spans

/-!
# A formula with other commands

In a formula the exchanged commands are those that are read as tokens; what a comment says about
them is kept.  The formula with the other commands in their places is read as the same tokens,
the exchanged ones apart, and trimming it makes no difference.
-/

namespace TexCalc

namespace Text

/-- Trimming the end of two texts one behind the other. -/
theorem trimEnd_append (front text : Text) :
    trimEnd (front ++ text) = if text.trimEnd = [] then front.trimEnd else front ++ text.trimEnd := by
  simp only [trimEnd, List.reverse_append, List.dropWhile_append, List.isEmpty_iff,
    List.reverse_eq_nil_iff]
  split <;> simp

theorem head?_trimEnd {text : Text} (some : text.trimEnd ≠ []) : text.trimEnd.head? = text.head? := by
  cases text with
  | nil => rfl
  | cons c text =>
      rw [trimEnd_cons] at some ⊢
      split at some
      · exact absurd rfl some
      · rename_i stays
        rw [if_neg stays]
        rfl

theorem trimEnd_of_isAllBlank {blanks : Text} (allBlank : blanks.isAllBlank = true) :
    blanks.trimEnd = [] := by
  rw [trimEnd, dropWhile_of_all (by rwa [List.all_reverse]), List.reverse_nil]

theorem all_trimEnd {accept : Char → Bool} {text : Text} (all : text.all accept = true) :
    text.trimEnd.all accept = true := by
  rw [trimEnd, List.all_reverse, List.all_eq_true]
  intro c isMember
  exact List.all_eq_true.1 all c (List.mem_reverse.1 ((List.dropWhile_suffix _).subset isMember))

end Text

/-- A token ends where it has ended when the text behind it begins as before. -/
theorem Token.read_taken_append (c : Char) (rest : Text) {new : Text}
    (same : new.head? = (read c rest).rest.head?) :
    read c ((read c rest).taken ++ new) = { read c rest with rest := new } := by
  have whole := read_append c rest
  cases new with
  | nil =>
      have ends := List.head?_eq_none_iff.1 same.symm
      rw [ends] at whole
      rw [whole, ← ends]
  | cons d new =>
      obtain ⟨old, isRest⟩ := List.head?_eq_some_iff.1 same.symm
      have wasRead : read c ((read c rest).taken ++ d :: old) =
          ⟨(read c rest).token, (read c rest).taken, d :: old⟩ := by
        rw [← isRest, whole]
      exact read_replace wasRead id id .inl new

/-- A name alone. -/
theorem Control.read?_name {name : Text} (isName : IsName name) : read? name = some ⟨name, []⟩ := by
  have found : read? (name ++ []) = some ⟨name, []⟩ := read?_of_isName isName fun _ => rfl
  rwa [List.append_nil] at found

/-- A control sequence is read behind its backslash. -/
theorem Token.of_read_eq_control {c : Char} {rest name : Text}
    (isToken : (read c rest).token = .control name) :
    c = '\\' ∧ Control.read? rest = some ⟨name, (read c rest).rest⟩ ∧
      (read c rest).taken = name := by
  revert isToken
  fun_cases read c rest with
  | case1 control isControl =>
      rintro ⟨⟩
      exact ⟨rfl, isControl, rfl⟩
  | _ => rintro ⟨⟩

namespace Exchange

/-- The token in the place of the given one. -/
def token (exchange : Exchange) : Token → Token
  | .control name => .control (exchange.name name)
  | token => token

/-- What is written in the place of a lexeme. -/
def source (exchange : Exchange) (lexeme : Lexeme) : Text :=
  match lexeme.token with
  | .control name => '\\' :: exchange.name name
  | _ => lexeme.source

/-- The formula with the other commands in the places of the exchanged ones. -/
def formula (exchange : Exchange) (text : Text) : Text :=
  text.lexemes.flatMap exchange.source

/-- A lexeme stands in the place of another one. -/
structure Replaces (exchange : Exchange) (first second : Lexeme) : Prop where
  token : second.token = exchange.token first.token
  source : second.source = exchange.source first
  /-- The signs are equally long. -/
  offset : exchange = .signs → second.offset = first.offset

variable {exchange : Exchange} {text other : Text}

theorem formula_nil : exchange.formula [] = [] := by
  rw [formula, Text.lexemes, Text.lexemesFrom]
  rfl

theorem flatMap_source (exchange : Exchange) (offset : Nat) (text : Text) :
    (text.lexemesFrom offset).flatMap exchange.source = exchange.formula text := by
  rw [formula, Text.lexemes]
  have copies := text.forall₂_isCopy offset 0
  generalize text.lexemesFrom offset = first, text.lexemesFrom 0 = second at copies ⊢
  induction copies with
  | nil => rfl
  | cons copy _ ih => simp only [List.flatMap_cons, ih, source, copy.1, copy.2]

theorem formula_cons (exchange : Exchange) (c : Char) (rest : Text) :
    exchange.formula (c :: rest) =
      exchange.source ⟨0, (Token.read c rest).token, c :: (Token.read c rest).taken⟩ ++
        exchange.formula (Token.read c rest).rest := by
  rw [formula, Text.lexemes, Text.lexemesFrom, List.flatMap_cons, flatMap_source]

/-- In front of a text that was not read as a control sequence nothing is exchanged. -/
theorem source_of_ne (exchange : Exchange) {lexeme : Lexeme}
    (other : ∀ name, lexeme.token ≠ .control name) : exchange.source lexeme = lexeme.source := by
  unfold source
  split
  · rename_i name isToken
    exact absurd isToken (other name)
  · rfl

/-- A text is respelled as itself where nothing need be exchanged. -/
theorem Respelled.refl (exchange : Exchange) (text : Text) : exchange.Respelled false text text := by
  induction size : text.length using Nat.strongRecOn generalizing text with
  | ind size ih =>
      subst size
      cases text with
      | nil => exact .nil
      | cons c rest =>
          by_cases isBackslash : c = '\\'
          · subst isBackslash
            cases found : Control.read? rest with
            | none =>
                rw [Control.read?_eq_none_iff.1 found]
                exact .backslash rfl
            | some control =>
                have shorter := Control.length_lt_of_read? found
                rw [Control.eq_of_read? found]
                exact .control ⟨Control.isName_of_read? found, .inl rfl⟩
                  (Control.endsRun_of_read? found)
                  (ih control.rest.length (Nat.lt_succ_of_lt shorter) _ rfl)
          · exact .plain isBackslash (ih rest.length (Nat.lt_succ_self _) rest rfl)

/-- A comment keeps what it says. -/
theorem Respelled.comment {span rest rest' : Text} {said : Text}
    (isSpan : (Token.comment said).IsSpan span rest)
    (later : exchange.Respelled false rest rest') (same : rest = [] → rest' = []) :
    exchange.Respelled false (span ++ rest) (span ++ rest') := by
  obtain ⟨_, lineEnd, isEnd, rfl, atEnd⟩ := isSpan
  have kept := Respelled.refl exchange said
  rw [List.cons_append, List.append_assoc, List.cons_append, List.append_assoc]
  refine .plain (by decide) ?_
  simp only [lineEnds, List.mem_cons, List.not_mem_nil, or_false] at isEnd
  rcases isEnd with rfl | rfl | rfl | rfl
  · rw [same (atEnd rfl), atEnd rfl]
    simpa using kept
  · exact kept.append_cons (by decide) (by decide) later
  · exact kept.append_cons (by decide) (by decide) later
  · exact kept.append_cons (by decide) (by decide) (.plain (by decide) later)

theorem respelled_formula (exchange : Exchange) (text : Text) :
    exchange.Respelled false text (exchange.formula text) := by
  induction size : text.length using Nat.strongRecOn generalizing text with
  | ind size ih =>
      subst size
      cases text with
      | nil =>
          rw [formula_nil]
          exact .nil
      | cons c rest =>
          have behind := ih _ (Nat.lt_succ_of_le (Token.length_rest_read_le c rest)) _ rfl
          have isSpan := Token.isSpan_read c rest
          rw [formula_cons]
          revert behind isSpan
          fun_cases Token.read c rest with
          | case1 control isControl =>
              intro behind _
              rw [Control.eq_of_read? isControl]
              exact .control ⟨Control.isName_of_read? isControl, .inr rfl⟩
                (Control.endsRun_of_read? isControl) behind
          | case2 isNone =>
              intro _ _
              rw [Control.read?_eq_none_iff.1 isNone, formula_nil]
              exact .backslash rfl
          | case3 said lineEnd after split =>
              intro behind isSpan
              have whole := Text.splitLineEnd_append (rest.dropWhile (!Token.isLineEnd ·))
              rw [split] at whole
              have kept := Respelled.comment isSpan behind fun nothing =>
                (congrArg exchange.formula nothing).trans formula_nil
              rwa [List.cons_append, List.append_assoc, whole, List.takeWhile_append_dropWhile]
                at kept
          | case10 _ back =>
              intro behind _
              have plain : '\\' ∉ rest.takeWhile isBlank :=
                Text.not_mem_of_all (by decide) List.all_takeWhile
              have kept := behind.append_of_not_mem plain
              rw [List.takeWhile_append_dropWhile] at kept
              exact .plain back kept
          | case11 _ back =>
              intro behind _
              exact .plain back behind
          | _ =>
              intro behind _
              exact .plain (by decide) behind

theorem head?_formula (exchange : Exchange) (text : Text) :
    (exchange.formula text).head? = text.head? :=
  (respelled_formula exchange text).head?

/-- The token in the place of the first one of a text. -/
theorem exists_read_formula (exchange : Exchange) (c : Char) (rest : Text) :
    ∃ taken, exchange.source ⟨0, (Token.read c rest).token, c :: (Token.read c rest).taken⟩ =
        c :: taken ∧
      Token.read c (taken ++ exchange.formula (Token.read c rest).rest) =
        ⟨exchange.token (Token.read c rest).token, taken,
          exchange.formula (Token.read c rest).rest⟩ ∧
      (exchange = .signs → Text.byteLength taken = (Token.read c rest).taken.byteLength) := by
  by_cases isControl : ∃ name, (Token.read c rest).token = .control name
  · obtain ⟨name, isToken⟩ := isControl
    obtain ⟨rfl, found, isTaken⟩ := Token.of_read_eq_control isToken
    have spells : exchange.Spells false name (exchange.name name) :=
      ⟨Control.isName_of_read? found, .inr rfl⟩
    obtain ⟨_, isNew⟩ := spells.read? (Control.endsRun_of_read? found)
      (respelled_formula exchange (Token.read '\\' rest).rest)
    rw [isToken, isTaken]
    refine ⟨exchange.name name, rfl, Token.read_control isNew, ?_⟩
    rintro rfl
    rcases spells.eq_or_mem with same | isMember
    · rw [same]
    · have sameSize : ∀ pair ∈ signs.pairs, Text.byteLength pair.2 = Text.byteLength pair.1 := by
        decide
      exact sameSize _ isMember
  · simp only [not_exists] at isControl
    have same : exchange.token (Token.read c rest).token = (Token.read c rest).token := by
      unfold token
      split
      · rename_i name isToken
        exact absurd isToken (isControl name)
      · rfl
    refine ⟨(Token.read c rest).taken, exchange.source_of_ne isControl, ?_, fun _ => rfl⟩
    rw [same]
    exact Token.read_taken_append c rest (head?_formula exchange _)

/-- The tokens of the formula with other commands are those in the places of its own. -/
theorem forall₂_replaces (exchange : Exchange) (text : Text) (offset : Nat) {other : Nat}
    (place : exchange = .signs → other = offset) :
    List.Forall₂ exchange.Replaces (text.lexemesFrom offset)
      ((exchange.formula text).lexemesFrom other) := by
  fun_induction Text.lexemesFrom offset text generalizing other with
  | case1 =>
      rw [formula_nil, Text.lexemesFrom]
      exact .nil
  | case2 offset c rest =>
      rename_i reading span ih
      obtain ⟨taken, isSource, isRead, sameSize⟩ := exchange.exists_read_formula c rest
      rw [formula_cons, isSource, List.cons_append, Text.lexemesFrom, isRead]
      refine .cons ⟨rfl, isSource.symm, place⟩ (ih fun isSigns => ?_)
      have size := sameSize isSigns
      simp only [span, reading, Text.byteLength, place isSigns, size]

/-! ## Trimming -/

theorem formula_eq_nil_iff : exchange.formula text = [] ↔ text = [] := by
  rw [← List.head?_eq_none_iff, head?_formula, List.head?_eq_none_iff]

theorem trimStart_formula (exchange : Exchange) (text : Text) :
    (exchange.formula text).trimStart = exchange.formula text.trimStart := by
  have begins : (exchange.formula text.trimStart).endsRun isBlank = true := by
    rw [Text.endsRun, head?_formula]
    exact Text.endsRun_dropWhile isBlank text
  cases text with
  | nil => rw [formula_nil]; exact formula_nil.symm
  | cons c rest =>
      cases blank : isBlank c with
      | true =>
          have trimmed : Text.trimStart (c :: rest) = rest.dropWhile isBlank :=
            List.dropWhile_cons_of_pos blank
          rw [trimmed] at begins ⊢
          rw [formula_cons, Token.read_of_isBlank blank]
          refine Text.dropWhile_append_of_endsRun ?_ begins
          rw [source, List.all_cons, blank, List.all_takeWhile]
          rfl
      | false =>
          have trimmed : Text.trimStart (c :: rest) = c :: rest :=
            List.dropWhile_cons_of_neg (by simp [blank])
          rw [trimmed] at begins ⊢
          exact Text.dropWhile_eq_self_of_endsRun begins

/-- A character alone is not exchanged. -/
theorem formula_singleton (exchange : Exchange) (c : Char) : exchange.formula [c] = [c] := by
  have taken := Token.read_append c []
  rw [List.append_eq_nil_iff] at taken
  rw [formula_cons, taken.1, taken.2, formula_nil, List.append_nil]
  refine exchange.source_of_ne fun name isToken => ?_
  exact absurd (Token.of_read_eq_control isToken).2.1 (by simp [Control.read?])

/-- A control sequence alone. -/
theorem formula_control (exchange : Exchange) {name : Text} (isName : Control.IsName name) :
    exchange.formula ('\\' :: name) = '\\' :: exchange.name name := by
  rw [formula_cons, Token.read_control (Control.read?_name isName), formula_nil, List.append_nil]
  rfl

/-- A control word has nothing to trim, and a symbol is kept. -/
theorem trimEnd_control (exchange : Exchange) {name : Text} (isName : Control.IsName name) :
    Text.trimEnd ('\\' :: exchange.name name) = exchange.formula (Text.trimEnd ('\\' :: name)) := by
  have spells : exchange.Spells false name (exchange.name name) := ⟨isName, .inr rfl⟩
  have whole := exchange.formula_control isName
  rcases isName with ⟨_, letters⟩ | ⟨d, rfl, noLetter⟩
  · have alone {name : Text} (letters : name.all Char.isAlpha = true) :
        Text.trimEnd ('\\' :: name) = '\\' :: name := by
      have trimmed := Text.trimEnd_word letters []
      rwa [show Text.trimEnd [] = [] from rfl, List.append_nil] at trimmed
    rw [alone letters, alone (spells.all_isAlpha.trans letters), whole]
  · have same : exchange.name [d] = [d] := spells.eq_of_symbol (by simp [noLetter])
    have trimmed : Text.trimEnd ['\\', d] = if isBlank d then ['\\'] else ['\\', d] := by
      rw [Text.trimEnd_cons, Text.trimEnd_cons]
      cases isBlank d <;> rfl
    rw [same] at whole ⊢
    rw [trimmed]
    split
    · exact (exchange.formula_singleton '\\').symm
    · exact whole.symm

/-- What is trimmed from the last token of a formula. -/
theorem trimEnd_source (exchange : Exchange) (c : Char) (rest : Text) :
    (exchange.source ⟨0, (Token.read c rest).token, c :: (Token.read c rest).taken⟩).trimEnd =
      exchange.formula (Text.trimEnd (c :: (Token.read c rest).taken)) := by
  have single (d : Char) : Text.trimEnd [d] = exchange.formula (Text.trimEnd [d]) := by
    rw [Text.trimEnd_cons]
    split
    · exact formula_nil.symm
    · exact (exchange.formula_singleton d).symm
  fun_cases Token.read c rest with
  | case1 control isControl => exact exchange.trimEnd_control (Control.isName_of_read? isControl)
  | case3 said lineEnd after split =>
      have isEnd := (Text.splitLineEnd_mem_lineEnds
        (Text.endsRun_dropWhile (!Token.isLineEnd ·) rest)).1
      rw [split] at isEnd
      have blank : Text.trimEnd lineEnd = [] := by
        have allBlank : ∀ lineEnd ∈ lineEnds, Text.isAllBlank lineEnd = true := by decide
        exact Text.trimEnd_of_isAllBlank (allBlank _ isEnd)
      have trimmed : Text.trimEnd ('%' :: (said ++ lineEnd)) = '%' :: Text.trimEnd said := by
        have visible : ['%'].all (!isBlank ·) = true := rfl
        rw [← List.cons_append, Text.trimEnd_append, if_pos blank]
        exact Text.trimEnd_append_of_visible visible said
      have inLine : List.all (Text.trimEnd said) (!Token.isLineEnd ·) = true :=
        Text.all_trimEnd List.all_takeWhile
      have kept : exchange.formula ('%' :: Text.trimEnd said) = '%' :: Text.trimEnd said := by
        rw [formula_cons, Token.read_comment, Text.takeWhile_of_all inLine,
          Text.dropWhile_of_all inLine]
        simp [Text.splitLineEnd, source, formula_nil]
      exact trimmed.trans (kept.symm.trans (congrArg exchange.formula trimmed.symm))
  | case10 _ _ _ _ _ _ _ _ _ blank =>
      have allBlank : Text.isAllBlank (c :: rest.takeWhile isBlank) = true := by
        rw [Text.isAllBlank, List.all_cons, List.all_takeWhile, blank]
        rfl
      have nothing := Text.trimEnd_of_isAllBlank allBlank
      exact nothing.trans (formula_nil.symm.trans (congrArg exchange.formula nothing.symm))
  | _ => exact single _

theorem trimEnd_formula (exchange : Exchange) (text : Text) :
    (exchange.formula text).trimEnd = exchange.formula text.trimEnd := by
  induction size : text.length using Nat.strongRecOn generalizing text with
  | ind size ih =>
      subst size
      cases text with
      | nil => rw [formula_nil]; exact formula_nil.symm
      | cons c rest =>
          have behind := ih _ (Nat.lt_succ_of_le (Token.length_rest_read_le c rest)) _ rfl
          have ending := exchange.trimEnd_source c rest
          have whole : Text.trimEnd (c :: rest) =
              Text.trimEnd ((c :: (Token.read c rest).taken) ++ (Token.read c rest).rest) := by
            rw [List.cons_append, Token.read_append]
          rw [whole, formula_cons, Text.trimEnd_append, Text.trimEnd_append, behind]
          by_cases nothing : (Token.read c rest).rest.trimEnd = []
          · rw [if_pos (formula_eq_nil_iff.2 nothing), if_pos nothing]
            exact ending
          · rw [if_neg (mt formula_eq_nil_iff.1 nothing), if_neg nothing, List.cons_append,
              formula_cons, Token.read_taken_append c rest (Text.head?_trimEnd nothing)]

theorem trim_formula (exchange : Exchange) (text : Text) :
    (exchange.formula text).trim = exchange.formula text.trim := by
  rw [Text.trim, trimStart_formula, trimEnd_formula, Text.trim]

end Exchange

end TexCalc

import TexCalc.Proofs.Tex.Groups
import TexCalc.Proofs.Tex.Spans

/-!
# Partners of brackets

The tokens of a formula say which bracket closes which: it is the closing token of the same kind at
which, counted from the opening one on, as many have been closed as were opened, for the first time.
The place of that token is where the text, read by characters or by bytes, has the bracket closed,
and nowhere on the way has more been closed than was opened.
-/

namespace TexCalc

namespace Bracket

/-- How many more of the tokens open a bracket of this kind than close one. -/
def surplus (bracket : Bracket) (lexemes : List Lexeme) : Int :=
  lexemes.countP (·.token = bracket.openToken) - lexemes.countP (·.token = bracket.closeToken)

/-- The token closes what the opening one has opened: with it the count from the opening token on
returns to zero, as it did nowhere in between. -/
structure IsPartner (bracket : Bracket) (opening : Lexeme) (inside : List Lexeme)
    (closing : Lexeme) : Prop where
  closes : closing.token = bracket.closeToken
  settles : bracket.surplus (opening :: (inside ++ [closing])) = 0
  waits : ∀ front, front <+: inside → bracket.surplus (opening :: front) ≠ 0

variable {bracket : Bracket}

/-! ## Counting -/

/-- What one token does to the count. -/
def change (bracket : Bracket) (token : Token) : Int :=
  if token = bracket.openToken then 1 else if token = bracket.closeToken then -1 else 0

theorem openToken_ne_closeToken : bracket.openToken ≠ bracket.closeToken := by
  cases bracket <;> decide

theorem change_opening {token : Token} (opens : token = bracket.openToken) :
    bracket.change token = 1 :=
  if_pos opens

theorem change_closing {token : Token} (closes : token = bracket.closeToken) :
    bracket.change token = -1 := by
  rw [change, closes, if_neg openToken_ne_closeToken.symm, if_pos rfl]

theorem change_other {token : Token} (noOpening : token ≠ bracket.openToken)
    (noClosing : token ≠ bracket.closeToken) : bracket.change token = 0 := by
  rw [change, if_neg noOpening, if_neg noClosing]

theorem surplus_nil : bracket.surplus [] = 0 :=
  rfl

theorem surplus_cons (first : Lexeme) (rest : List Lexeme) :
    bracket.surplus (first :: rest) = bracket.change first.token + bracket.surplus rest := by
  simp only [surplus, List.countP_cons, decide_eq_true_eq]
  by_cases opens : first.token = bracket.openToken
  · rw [change_opening opens, if_pos opens, opens, if_neg openToken_ne_closeToken]
    omega
  · by_cases closes : first.token = bracket.closeToken
    · rw [change_closing closes, if_neg opens, if_pos closes]
      omega
    · rw [change_other opens closes, if_neg opens, if_neg closes]
      omega

theorem surplus_append (front behind : List Lexeme) :
    bracket.surplus (front ++ behind) = bracket.surplus front + bracket.surplus behind := by
  simp only [surplus, List.countP_append]
  omega

/-- The count does not come to zero in front of the tokens, nor among them or behind them. -/
def StaysOpen (bracket : Bracket) (count : Int) (lexemes : List Lexeme) : Prop :=
  ∀ front, front <+: lexemes → count + bracket.surplus front ≠ 0

theorem StaysOpen.ne_zero {count : Int} {lexemes : List Lexeme}
    (stays : bracket.StaysOpen count lexemes) : count ≠ 0 := by
  simpa [surplus_nil] using stays [] List.nil_prefix

theorem staysOpen_nil_iff {count : Int} : bracket.StaysOpen count [] ↔ count ≠ 0 := by
  simp [StaysOpen, surplus_nil]

theorem staysOpen_cons_iff {count : Int} {first : Lexeme} {rest : List Lexeme} :
    bracket.StaysOpen count (first :: rest) ↔
      count ≠ 0 ∧ bracket.StaysOpen (count + bracket.change first.token) rest := by
  constructor
  · intro stays
    constructor
    · exact stays.ne_zero
    · intro front isPrefix
      have counted := stays (first :: front) (List.cons_prefix_cons.2 ⟨rfl, isPrefix⟩)
      rwa [surplus_cons, ← Int.add_assoc] at counted
  · rintro ⟨nonzero, stays⟩ front isPrefix
    rcases List.prefix_cons_iff.1 isPrefix with rfl | ⟨front, rfl, behind⟩
    · simpa [surplus_nil] using nonzero
    · rw [surplus_cons, ← Int.add_assoc]
      exact stays front behind

/-! ## Tokens -/

/-- The token at which the last of `depth + 1` open brackets is closed, and what is behind it. -/
def closingFrom? (bracket : Bracket) : (depth : Nat) → List Lexeme → Option (Lexeme × List Lexeme)
  | _, [] => none
  | depth, first :: rest =>
      if first.token = bracket.openToken then
        bracket.closingFrom? (depth + 1) rest
      else if first.token = bracket.closeToken then
        match depth with
        | 0 => some (first, rest)
        | depth + 1 => bracket.closingFrom? depth rest
      else
        bracket.closingFrom? depth rest

section Steps

variable {depth : Nat} {first : Lexeme} {rest : List Lexeme}

theorem closingFrom?_opening (opens : first.token = bracket.openToken) :
    bracket.closingFrom? depth (first :: rest) = bracket.closingFrom? (depth + 1) rest := by
  cases depth <;> rw [closingFrom?, if_pos opens]

theorem closingFrom?_settled (closes : first.token = bracket.closeToken) :
    bracket.closingFrom? 0 (first :: rest) = some (first, rest) := by
  rw [closingFrom?, closes, if_neg openToken_ne_closeToken.symm, if_pos rfl]

theorem closingFrom?_closing (closes : first.token = bracket.closeToken) :
    bracket.closingFrom? (depth + 1) (first :: rest) = bracket.closingFrom? depth rest := by
  rw [closingFrom?, closes, if_neg openToken_ne_closeToken.symm, if_pos rfl]

theorem closingFrom?_other (noOpening : first.token ≠ bracket.openToken)
    (noClosing : first.token ≠ bracket.closeToken) :
    bracket.closingFrom? depth (first :: rest) = bracket.closingFrom? depth rest := by
  cases depth <;> rw [closingFrom?, if_neg noOpening, if_neg noClosing]

end Steps

/-- With the closing token the count comes to zero for the first time. -/
structure ClosesAt (bracket : Bracket) (count : Int) (inside : List Lexeme) (closing : Lexeme) :
    Prop where
  closes : closing.token = bracket.closeToken
  waits : bracket.StaysOpen count inside
  settles : count + bracket.surplus inside = 1

theorem closesAt_cons_iff {count : Int} {first closing : Lexeme} {inside : List Lexeme} :
    bracket.ClosesAt count (first :: inside) closing ↔
      count ≠ 0 ∧ bracket.ClosesAt (count + bracket.change first.token) inside closing := by
  constructor
  · rintro ⟨closes, waits, settles⟩
    obtain ⟨nonzero, waits⟩ := staysOpen_cons_iff.1 waits
    rw [surplus_cons, ← Int.add_assoc] at settles
    exact ⟨nonzero, closes, waits, settles⟩
  · rintro ⟨nonzero, closes, waits, settles⟩
    refine ⟨closes, staysOpen_cons_iff.2 ⟨nonzero, waits⟩, ?_⟩
    rwa [surplus_cons, ← Int.add_assoc]

theorem closesAt_nil_iff {count : Int} {closing : Lexeme} :
    bracket.ClosesAt count [] closing ↔ closing.token = bracket.closeToken ∧ count = 1 := by
  constructor
  · rintro ⟨closes, _, settles⟩
    exact ⟨closes, by simpa [surplus_nil] using settles⟩
  · rintro ⟨closes, rfl⟩
    exact ⟨closes, staysOpen_nil_iff.2 Int.one_ne_zero, rfl⟩

/-- A closing token is looked for from token to token. -/
theorem exists_closesAt_cons_iff {count : Int} {first closing : Lexeme} {behind rest : List Lexeme}
    (nonzero : count ≠ 0) :
    (∃ inside, first :: behind = inside ++ closing :: rest ∧
        bracket.ClosesAt count inside closing) ↔
      (first = closing ∧ behind = rest ∧ closing.token = bracket.closeToken ∧ count = 1) ∨
        ∃ inside, behind = inside ++ closing :: rest ∧
          bracket.ClosesAt (count + bracket.change first.token) inside closing := by
  constructor
  · rintro ⟨inside, split, closesAt⟩
    cases inside with
    | nil =>
        obtain ⟨rfl, rfl⟩ := List.cons.inj split
        exact .inl ⟨rfl, rfl, closesAt_nil_iff.1 closesAt⟩
    | cons _ inside =>
        rw [List.cons_append, List.cons.injEq] at split
        obtain ⟨rfl, split⟩ := split
        exact .inr ⟨inside, split, (closesAt_cons_iff.1 closesAt).2⟩
  · rintro (⟨rfl, rfl, closesAt⟩ | ⟨inside, rfl, closesAt⟩)
    · exact ⟨[], rfl, closesAt_nil_iff.2 closesAt⟩
    · exact ⟨first :: inside, rfl, closesAt_cons_iff.2 ⟨nonzero, closesAt⟩⟩

theorem closingFrom?_eq_some_iff {depth : Nat} {lexemes rest : List Lexeme} {closing : Lexeme} :
    bracket.closingFrom? depth lexemes = some (closing, rest) ↔
      ∃ inside, lexemes = inside ++ closing :: rest ∧
        bracket.ClosesAt (depth + 1) inside closing := by
  -- Only the last bracket can be closed at once: the other tokens leave the count where it is, or
  -- above zero, so that the closing token is farther on.
  fun_induction closingFrom? bracket depth lexemes with
  | case1 => simp
  | case2 depth first behind opens ih =>
      rw [ih, exists_closesAt_cons_iff (by omega), change_opening opens, or_iff_right]
      · rfl
      · rintro ⟨rfl, _, closes, _⟩
        exact openToken_ne_closeToken (opens.symm.trans closes)
  | case3 first behind noOpening closes =>
      rw [exists_closesAt_cons_iff (by omega), change_closing closes, or_iff_left]
      · simp only [Option.some.injEq, Prod.mk.injEq]
        constructor
        · rintro ⟨rfl, rfl⟩
          exact ⟨rfl, rfl, closes, rfl⟩
        · rintro ⟨rfl, rfl, _⟩
          exact ⟨rfl, rfl⟩
      · rintro ⟨inside, _, closesAt⟩
        exact closesAt.waits.ne_zero rfl
  | case4 first behind noOpening closes depth ih =>
      rw [ih, exists_closesAt_cons_iff (by omega), change_closing closes, or_iff_right]
      · rw [Int.add_neg_cancel_right]
        rfl
      · rintro ⟨_, _, _, isOne⟩
        omega
  | case5 depth first behind noOpening noClosing ih =>
      rw [ih, exists_closesAt_cons_iff (by omega), change_other noOpening noClosing, or_iff_right]
      · rw [Int.add_zero]
      · rintro ⟨rfl, _, closes, _⟩
        exact noClosing closes

theorem closingFrom?_eq_none_iff {depth : Nat} {lexemes : List Lexeme} :
    bracket.closingFrom? depth lexemes = none ↔ bracket.StaysOpen (depth + 1) lexemes := by
  fun_induction closingFrom? bracket depth lexemes with
  | case1 depth =>
      rw [staysOpen_nil_iff]
      exact iff_of_true rfl (by omega)
  | case2 depth first rest opens ih =>
      rw [ih, staysOpen_cons_iff, change_opening opens, and_iff_right (by omega)]
      rfl
  | case3 first rest noOpening closes =>
      rw [staysOpen_cons_iff, change_closing closes]
      exact iff_of_false (Option.some_ne_none _) fun stays => stays.2.ne_zero rfl
  | case4 first rest noOpening closes depth ih =>
      rw [ih, staysOpen_cons_iff, change_closing closes, and_iff_right (by omega),
        Int.add_neg_cancel_right]
      rfl
  | case5 depth first rest noOpening noClosing ih =>
      rw [ih, staysOpen_cons_iff, change_other noOpening noClosing, and_iff_right (by omega),
        Int.add_zero]

/-- The tokens inside of braces are passed over likewise. -/
theorem map_closingFrom?_curly (depth : Nat) (lexemes : List Lexeme) :
    (curly.closingFrom? depth lexemes).map Prod.snd = Lexeme.afterBrace? depth lexemes := by
  fun_induction Lexeme.afterBrace? depth lexemes with
  | case1 => rfl
  | case2 depth first rest opens ih => rw [closingFrom?_opening opens, ih]
  | case3 first rest _ closes => rw [closingFrom?_settled closes, Option.map_some]
  | case4 first rest _ closes depth ih => rw [closingFrom?_closing closes, ih]
  | case5 depth first rest noOpening noClosing ih =>
      rw [closingFrom?_other noOpening noClosing, ih]

/-- In a text without comments the group ends where the tokens have it closed. -/
theorem map_groupFrom?_eq {offset : Nat} {text : Text}
    (noComment : ∀ lexeme ∈ text.lexemesFrom offset, lexeme.token.isComment = false) (depth : Nat) :
    (bracket.groupFrom? depth text).map (offset + ·.inside.byteLength) =
      (bracket.closingFrom? depth (text.lexemesFrom offset)).map (·.1.offset) := by
  -- Token by token: a token of the kind is one character, on which both readers change the depth
  -- alike, and what any other token was read from is passed over by the group as a whole.
  fun_induction Text.lexemesFrom offset text generalizing depth with
  | case1 => cases depth <;> rfl
  | case2 offset c rest reading source ih =>
      rw [List.forall_mem_cons] at noComment
      have behind := ih noComment.2
      by_cases opens : reading.token = bracket.openToken
      · obtain rfl := eq_opener_of_read opens
        simp only [source, reading, bracket.read_opener rest] at behind ⊢
        rw [Text.IsNeutral.groupFrom?_opener, Group.map_place_extend, behind,
          closingFrom?_opening rfl]
      · by_cases closes : reading.token = bracket.closeToken
        · obtain rfl := eq_closer_of_read closes
          simp only [source, reading, bracket.read_closer rest] at behind ⊢
          cases depth with
          | zero =>
              rw [closingFrom?_settled rfl]
              cases bracket <;> rfl
          | succ depth =>
              rw [Text.IsNeutral.groupFrom?_closer, Group.map_place_extend, behind,
                closingFrom?_closing rfl]
        · rw [groupFrom?_read opens closes noComment.1, Group.map_place_extend, behind,
            closingFrom?_other opens closes]

/-- The place at which a bracket behind some text is closed. -/
theorem closingOffset?_append (lead rest : Text) :
    Text.closingOffset? (lead ++ bracket.opener :: rest) lead.byteLength =
      (bracket.group? rest).map ((lead ++ [bracket.opener]).byteLength + ·.inside.byteLength) := by
  have isKind : ofOpener? bracket.opener = some bracket := by
    cases bracket <;> rfl
  rw [Text.closingOffset?, Text.fromByte?_append, Text.byteLength_append]
  simp only [isKind, Option.bind_some]
  rfl

section Opening

variable {opening : Lexeme} (opens : opening.token = bracket.openToken)

include opens

theorem surplus_opening (front : List Lexeme) :
    bracket.surplus (opening :: front) = 1 + bracket.surplus front := by
  rw [surplus_cons, change_opening opens]

theorem staysOpen_one_iff (after : List Lexeme) :
    bracket.StaysOpen 1 after ↔
      ∀ front, front <+: after → bracket.surplus (opening :: front) ≠ 0 := by
  simp only [StaysOpen, surplus_opening opens]

theorem isPartner_iff (inside : List Lexeme) (closing : Lexeme) :
    bracket.IsPartner opening inside closing ↔ bracket.ClosesAt 1 inside closing := by
  have settled (closes : closing.token = bracket.closeToken) :
      bracket.surplus (opening :: (inside ++ [closing])) = bracket.surplus inside := by
    rw [surplus_opening opens, surplus_append, surplus_cons, change_closing closes, surplus_nil]
    omega
  constructor
  · rintro ⟨closes, settles, waits⟩
    rw [settled closes] at settles
    exact ⟨closes, (staysOpen_one_iff opens inside).2 waits, by rw [settles]; rfl⟩
  · rintro ⟨closes, waits, settles⟩
    refine ⟨closes, ?_, (staysOpen_one_iff opens inside).1 waits⟩
    rw [settled closes]
    omega

/-- The token that closes what the opening one has opened is its partner. -/
theorem closingFrom?_zero_iff {after rest : List Lexeme} {closing : Lexeme} :
    bracket.closingFrom? 0 after = some (closing, rest) ↔
      ∃ inside, after = inside ++ closing :: rest ∧ bracket.IsPartner opening inside closing := by
  simp only [closingFrom?_eq_some_iff, isPartner_iff opens]
  rfl

end Opening

/-- Where an opening token is read its bracket stands in the text. -/
theorem exists_of_openToken {text : Text} {before after : List Lexeme} {opening : Lexeme}
    (isLexed : text.lexemes = before ++ opening :: after)
    (opens : opening.token = bracket.openToken) :
    ∃ lead rest : Text, text = lead ++ bracket.opener :: rest ∧ opening.offset = lead.byteLength ∧
      after = rest.lexemesFrom (lead ++ [bracket.opener]).byteLength := by
  obtain ⟨lead, span, rest, split, isSpan, place, isAfter⟩ :=
    Text.exists_span_of_lexemesFrom isLexed
  have isOpener : span = [bracket.opener] := by
    rw [opens] at isSpan
    cases bracket <;> exact isSpan
  rw [isOpener] at split isAfter
  rw [Nat.zero_add] at place isAfter
  exact ⟨lead, rest, split, place, isAfter⟩

/-- Looking for the partner byte by byte, from an opening bracket on. -/
theorem search_drop (lead rest : Text) :
    bracket.search lead.byteLength 0 ((Text.bytes (lead ++ bracket.opener :: rest)).drop
        lead.byteLength) =
      (Text.closingOffset? (lead ++ bracket.opener :: rest) lead.byteLength).elim
        .unclosed .found := by
  rw [Text.drop_bytes_append, search_opener, search_bytes, closingOffset?_append,
    Text.byteLength_append, byteLength_opener, group?]

end Bracket

/-- In a formula without comments a bracket is closed at the token at which the tokens, counted by
opening and closing ones of its kind, have it closed for the first time, and it stays open just when
they never do.  Whoever looks for that place byte by byte finds it and counts below zero at no byte;
whoever passes over braces token by token goes on behind that token. -/
theorem Text.closingOffset?_iff_isPartner {text : Text} {bracket : Bracket}
    {before after : List Lexeme} {opening : Lexeme}
    (noComment : ∀ lexeme ∈ text.lexemes, lexeme.token.isComment = false)
    (isLexed : text.lexemes = before ++ opening :: after)
    (opens : opening.token = bracket.openToken) :
    (∀ place, text.closingOffset? opening.offset = some place ↔
        ∃ inside closing rest, after = inside ++ closing :: rest ∧ closing.offset = place ∧
          bracket.IsPartner opening inside closing) ∧
      (text.closingOffset? opening.offset = none ↔
        ∀ front, front <+: after → bracket.surplus (opening :: front) ≠ 0) ∧
      bracket.search opening.offset 0 (text.bytes.drop opening.offset) =
        (text.closingOffset? opening.offset).elim .unclosed .found ∧
      (bracket = .curly → ∀ rest, Lexeme.afterBrace? 0 after = some rest ↔
        ∃ inside closing, after = inside ++ closing :: rest ∧
          bracket.IsPartner opening inside closing) := by
  obtain ⟨lead, rest, rfl, place, isAfter⟩ := Bracket.exists_of_openToken isLexed opens
  have noCommentBehind : ∀ lexeme ∈ after, lexeme.token.isComment = false := by
    intro lexeme isMember
    refine noComment lexeme ?_
    rw [isLexed]
    exact List.mem_append_right before (List.mem_cons_of_mem opening isMember)
  have agree : closingOffset? (lead ++ bracket.opener :: rest) opening.offset =
      (bracket.closingFrom? 0 after).map (·.1.offset) := by
    rw [isAfter] at noCommentBehind ⊢
    rw [place, Bracket.closingOffset?_append, Bracket.group?,
      Bracket.map_groupFrom?_eq noCommentBehind]
  refine ⟨?_, ?_, ?_, ?_⟩
  · intro found
    rw [agree, Option.map_eq_some_iff]
    constructor
    · rintro ⟨⟨closing, rest⟩, isClosing, rfl⟩
      obtain ⟨inside, split, partner⟩ := (Bracket.closingFrom?_zero_iff opens).1 isClosing
      exact ⟨inside, closing, rest, split, rfl, partner⟩
    · rintro ⟨inside, closing, rest, split, rfl, partner⟩
      exact ⟨(closing, rest), (Bracket.closingFrom?_zero_iff opens).2 ⟨inside, split, partner⟩, rfl⟩
  · rw [agree, Option.map_eq_none_iff, Bracket.closingFrom?_eq_none_iff]
    exact Bracket.staysOpen_one_iff opens after
  · rw [place]
    exact bracket.search_drop lead rest
  · rintro rfl behind
    rw [← Bracket.map_closingFrom?_curly, Option.map_eq_some_iff]
    constructor
    · rintro ⟨⟨closing, rest⟩, isClosing, rfl⟩
      obtain ⟨inside, split, partner⟩ := (Bracket.closingFrom?_zero_iff opens).1 isClosing
      exact ⟨inside, closing, split, partner⟩
    · rintro ⟨inside, closing, split, partner⟩
      have isClosing := (Bracket.closingFrom?_zero_iff opens).2 ⟨inside, split, partner⟩
      exact ⟨(closing, behind), isClosing, rfl⟩

/-- Neither the parenthesis behind a backslash nor what a backslash hides of a longer character is
counted. -/
theorem Text.closingOffset?_past_hidden :
    Text.closingOffset? "√(\\(\\€(x))".toList 3 = some 13 ∧
      (∃ inside closing rest,
        [⟨4, .control ['('], "\\(".toList⟩, ⟨6, .control ['€'], "\\€".toList⟩,
          ⟨10, .char '(', ['(']⟩, ⟨11, .char 'x', ['x']⟩, ⟨12, .char ')', [')']⟩,
          ⟨13, .char ')', [')']⟩] =
            inside ++ closing :: rest ∧
          closing.offset = 13 ∧ Bracket.round.IsPartner ⟨3, .char '(', ['(']⟩ inside closing) ∧
      Bracket.round.search 3 0 ((Text.bytes "√(\\(\\€(x))".toList).drop 3) = .found 13 := by
  have found : Text.closingOffset? "√(\\(\\€(x))".toList 3 = some 13 := by decide +kernel
  have isLexed : Text.lexemes "√(\\(\\€(x))".toList =
      [⟨0, .char '√', ['√']⟩] ++ ⟨3, .char '(', ['(']⟩ ::
        [⟨4, .control ['('], "\\(".toList⟩, ⟨6, .control ['€'], "\\€".toList⟩,
          ⟨10, .char '(', ['(']⟩, ⟨11, .char 'x', ['x']⟩, ⟨12, .char ')', [')']⟩,
          ⟨13, .char ')', [')']⟩] := by
    decide +kernel
  have opens : Token.char '(' = Bracket.round.openToken := rfl
  have partner := closingOffset?_iff_isPartner (by decide +kernel) isLexed opens
  refine ⟨found, (partner.1 13).1 found, ?_⟩
  rw [partner.2.2.1, found]
  rfl

end TexCalc

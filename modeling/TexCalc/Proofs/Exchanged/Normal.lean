import TexCalc.Proofs.Exchanged.Checked
import TexCalc.Proofs.Tex.ControlWords
import TexCalc.Proofs.Tex.Normal
import TexCalc.Proofs.Words.Accepted

/-!
# The normal text of a formula with other commands

In normal text a control word goes on with the letters behind it, which a comment, a dollar sign or
a sized delimiter had kept apart from it in the formula.  An exchanged command that goes on so is no
longer the command that it was.  Where there is none of these, the normal text of the formula with
the other commands is the respelled normal text of the formula.
-/

namespace TexCalc

namespace Exchange

variable {exchange : Exchange} {name text other front : Text}

/-- No letters come to stand behind an exchanged command of the formula. -/
def IsFree (exchange : Exchange) (formula : Text) : Prop :=
  ∀ word ∈ Text.followedWords (formula.trim.lexemes.map Lexeme.token),
    ∀ pair ∈ exchange.pairs, word.1 = pair.1 → word.2 = []

instance (exchange : Exchange) (formula : Text) : Decidable (exchange.IsFree formula) :=
  inferInstanceAs (Decidable (∀ word ∈ Text.followedWords _, _))

/-- The letters behind a command belong to it in both texts, or there are none. -/
theorem name_append (named : (Command.named? name).isSome = true) {run : Text}
    (free : ∀ pair ∈ exchange.pairs, name = pair.1 → run = []) :
    exchange.name (name ++ run) = exchange.name name ++ run := by
  by_cases isKey : ∃ pair ∈ exchange.pairs, name = pair.1
  · obtain ⟨pair, isMember, isName⟩ := isKey
    rw [free pair isMember isName, List.append_nil, List.append_nil]
  · simp only [not_exists, not_and] at isKey
    rw [name_of_forall_ne isKey]
    refine name_of_forall_ne fun pair isMember longer => isKey pair isMember ?_
    obtain ⟨command, found⟩ := Option.isSome_iff_exists.1 named
    have apart : ∀ pair ∈ signs.pairs ++ logs.pairs, ∀ entry ∈ Command.table,
        entry.1 <+: pair.1 → entry.1 = pair.1 := by decide
    exact forall_pairs _ apart pair isMember _ (Command.mem_table_of_named? found) ⟨_, longer⟩

/-- A command in front of a normal text, whatever letters it takes from it. -/
theorem Respelled.word (named : (Command.named? name).isSome = true) (nonempty : name ≠ [])
    (letters : name.all Char.isAlpha = true)
    (free : ∀ pair ∈ exchange.pairs, name = pair.1 → text.takeWhile Char.isAlpha = [])
    (later : exchange.Respelled true text other) :
    exchange.Respelled true ('\\' :: (name ++ text)) ('\\' :: (exchange.name name ++ other)) := by
  have run : other.takeWhile Char.isAlpha = text.takeWhile Char.isAlpha :=
    later.takeWhile_eq (by decide)
  have behind : exchange.Reaches true text other (text.dropWhile Char.isAlpha) _ :=
    later.dropWhile (by decide)
  have allLetters : (name ++ text.takeWhile Char.isAlpha).all Char.isAlpha = true := by
    rw [List.all_append, letters, List.all_takeWhile]
    rfl
  have spells : exchange.Spells true (name ++ text.takeWhile Char.isAlpha)
      (exchange.name name ++ text.takeWhile Char.isAlpha) :=
    ⟨.inl ⟨by simp [nonempty], allLetters⟩, allLetters, (name_append named free).symm⟩
  have whole := Respelled.control spells (fun _ => Text.endsRun_dropWhile _ text) behind.rest
  rw [List.append_assoc, List.append_assoc, List.takeWhile_append_dropWhile] at whole
  rwa [← run, List.takeWhile_append_dropWhile] at whole

theorem respelled_normal {token : Token} (known : token.isKnown = true)
    (free : ∀ name, token = .control name → ∀ pair ∈ exchange.pairs, name = pair.1 →
      text.takeWhile Char.isAlpha = [])
    (later : exchange.Respelled true text other) :
    exchange.Respelled true (token.normal ++ text) ((exchange.token token).normal ++ other) := by
  have kept {front : Text} (plain : '\\' ∉ front) :
      exchange.Respelled true (front ++ text) (front ++ other) :=
    later.append_of_not_mem plain
  cases token with
  | control name =>
      have opener := exchange.test_name (fun name => decide (name = ['\x7b'])) (by decide) name
      have closer := exchange.test_name (fun name => decide (name = ['\x7d'])) (by decide) name
      have spacing := exchange.test_name
        (fun name => decide (Command.named? name = some .spacing)) (by decide) name
      rw [decide_eq_decide] at opener closer spacing
      rw [Token.normal_control, Exchange.token, Token.normal_control]
      simp only [opener, closer, spacing]
      split
      · exact kept (by decide)
      · rename_i noOpener
        split
        · exact kept (by decide)
        · rename_i noCloser
          split
          · exact kept (by decide)
          · rename_i noSpacing
            obtain ⟨command, found⟩ := Option.isSome_iff_exists.1 known
            obtain ⟨nonempty, letters⟩ := Token.isAlpha_of_named? found
              (fun isSpacing => noSpacing (isSpacing ▸ found)) noOpener noCloser
            exact .word known nonempty letters (free name rfl) later
  | char c =>
      refine kept ?_
      have noBackslash : c ≠ '\\' := by
        rintro rfl
        exact absurd known (by decide)
      rw [Token.normal]
      split <;> simp [Ne.symm noBackslash]
  | comment said => exact later
  | _ => exact kept (by decide)

theorem respelled_ofTokens {tokens : List Token} (known : ∀ token ∈ tokens, token.isKnown = true)
    (free : ∀ word ∈ Text.followedWords tokens, ∀ pair ∈ exchange.pairs, word.1 = pair.1 →
      word.2 = []) (isOpen : Bool) :
    exchange.Respelled true (Text.ofTokens isOpen tokens)
      (Text.ofTokens isOpen (tokens.map exchange.token)) := by
  have dropped (rest : List Token) : (rest.map exchange.token).dropWhile Token.isBlank =
      (rest.dropWhile Token.isBlank).map exchange.token := by
    rw [List.dropWhile_map]
    congr 2
    funext token
    exact exchange.test_token Token.isBlank (by decide) token
  fun_induction Text.ofTokens isOpen tokens with
  | case1 =>
      rw [List.map_nil, Text.ofTokens]
      exact .nil
  | case2 isOpen token rest side isSide next later after delimiter isDelimiter ih =>
      have plain : '\\' ∉ side.normal delimiter := by
        fun_cases Side.normal side delimiter <;> decide
      have within : ∀ token ∈ later, token.isKnown = true := fun token isMember =>
        known token (List.mem_cons_of_mem _ ((List.dropWhile_sublist Token.isBlank).subset
          (after ▸ List.mem_cons_of_mem _ isMember)))
      rw [Text.followedWords_cons_of_eq_none (Text.word?_of_side? isSide),
        ← Text.followedWords_dropWhile_isBlank rest, after,
        Text.followedWords_cons_of_eq_none (Text.word?_of_sizedDelimiter? isDelimiter)] at free
      rw [List.map_cons, Text.ofTokens_side (by rw [side?_token, isSide]), dropped, after,
        List.map_cons]
      simp only [sizedDelimiter?_token, isDelimiter]
      exact (ih within free).append_of_not_mem plain
  | case3 isOpen token rest side isSide next later after noDelimiter ih =>
      rw [Text.followedWords_cons_of_eq_none (Text.word?_of_side? isSide)] at free
      rw [List.map_cons, Text.ofTokens_side (by rw [side?_token, isSide]), dropped, after,
        List.map_cons]
      simp only [sizedDelimiter?_token, noDelimiter]
      exact ih (fun token isMember => known token (List.mem_cons_of_mem _ isMember)) free
  | case4 isOpen token rest side isSide after ih =>
      rw [Text.followedWords_cons_of_eq_none (Text.word?_of_side? isSide)] at free
      rw [List.map_cons, Text.ofTokens_side (by rw [side?_token, isSide]), dropped, after]
      exact ih (fun token isMember => known token (List.mem_cons_of_mem _ isMember)) free
  | case5 isOpen rest noSide ih =>
      have plain : '\\' ∉ (if isOpen then "))".toList else "(abs(".toList) := by
        cases isOpen <;> decide
      have later := ih (fun token isMember => known token (List.mem_cons_of_mem _ isMember)) free
      rw [List.map_cons, Text.ofTokens, side?_token, noSide]
      exact later.append_of_not_mem plain
  | case6 isOpen token rest noSide noBar ih =>
      have bar : exchange.token token ≠ .char '|' := mt (exchange.token_eq_iff token (by simp)).1 noBar
      rw [List.map_cons, Text.ofTokens, side?_token, noSide]
      simp only [if_neg bar]
      refine respelled_normal (known token List.mem_cons_self) ?_
        (ih (fun token isMember => known token (List.mem_cons_of_mem _ isMember)) ?_)
      · rintro name rfl pair isMember isName
        have kept : ∀ pair ∈ signs.pairs ++ logs.pairs,
            (Token.control pair.1).word?.filter Text.isKeptWord = some pair.1 := by decide
        have isKept := forall_pairs _ kept pair isMember
        rw [Text.takeWhile_ofTokens]
        refine free (name, Text.leadingLetters rest) ?_ pair isMember isName
        rw [Text.followedWords, isName, isKept]
        exact List.mem_cons_self
      · intro word isWord
        refine free word ?_
        rw [Text.followedWords]
        split
        · exact List.mem_cons_of_mem _ isWord
        · exact isWord

end Exchange

end TexCalc

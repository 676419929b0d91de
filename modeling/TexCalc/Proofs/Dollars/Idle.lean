import TexCalc.Check.Faults
import TexCalc.Proofs.Tex.Lexemes
import TexCalc.Proofs.Text.Neutral

/-!
# Idle text behind a formula

Blanks and dollar signs are nothing that a reader of brackets, arguments or words looks for.  When
they are appended to a text, each reader finds what it has found without them and leaves them
behind, as long as it does not come to the end of the text: an argument that is missing at the end
would be taken from the appended text, and a backslash that ends the text would take a character
of it.
-/

namespace TexCalc

namespace Text

/-- Blanks and dollar signs. -/
def isIdle (text : Text) : Bool :=
  text.all fun c => isBlank c || c == '$'

/-- Whether the last character is something to see, when there is one. -/
def endsVisibly (text : Text) : Bool :=
  text.getLast?.all (!isBlank ·)

variable {text rest trail : Text}

theorem isIdle_cons_iff {c : Char} :
    isIdle (c :: text) = true ↔ (isBlank c = true ∨ c = '$') ∧ text.isIdle = true := by
  simp [isIdle]

theorem isIdle_of_suffix (idle : trail.isIdle = true) (ending : rest <:+ trail) :
    rest.isIdle = true :=
  List.all_eq_true.2 fun c isMember => List.all_eq_true.1 idle c (ending.subset isMember)

/-- No idle character is a letter. -/
theorem endsRun_isAlpha_of_isIdle (idle : trail.isIdle = true) :
    trail.endsRun Char.isAlpha = true := by
  cases trail with
  | nil => rfl
  | cons c trail =>
      suffices noLetter : c.isAlpha = false by simp [endsRun, noLetter]
      cases letter : c.isAlpha with
      | false => rfl
      | true =>
          rcases (isIdle_cons_iff.1 idle).1 with blank | rfl
          · rw [isBlank_eq_false_of_isAlphanum (by simp [Char.isAlphanum, letter])] at blank
            cases blank
          · cases letter

/-- No idle character is a bracket or a backslash. -/
theorem isNeutral_of_isIdle (idle : trail.isIdle = true) : trail.IsNeutral := by
  refine .of_plain (List.all_eq_true.2 fun c isMember => ?_)
  rw [Bool.not_eq_true']
  cases markup : isMarkup c with
  | false => rfl
  | true =>
      have idleChar := List.all_eq_true.1 idle c isMember
      simp only [isMarkup, decide_eq_true_eq, List.mem_cons, List.not_mem_nil, or_false] at markup
      rcases markup with rfl | rfl | rfl | rfl | rfl | rfl | rfl <;> cases idleChar

theorem endsVisibly_of_suffix (visible : text.endsVisibly = true) (ending : rest <:+ text) :
    rest.endsVisibly = true :=
  all_getLast?_of_suffix visible ending

end Text

/-! ## Brackets and arguments -/

/-- The same group in front of more text. -/
def Group.followedBy (trail : Text) (group : Group) : Group :=
  { group with rest := group.rest ++ trail }

/-- The same argument in front of more text. -/
def Argument.followedBy (trail : Text) (argument : Argument) : Argument :=
  { argument with rest := argument.rest ++ trail }

/-- The same finding in front of more text. -/
def Probe.followedBy (trail : Text) : Probe → Probe
  | present rest => present (rest ++ trail)
  | probe => probe

section Readers

variable {text trail : Text}

/-- No idle text closes a group. -/
theorem Bracket.groupFrom?_of_isIdle (idle : trail.isIdle = true) (bracket : Bracket)
    (depth : Nat) : bracket.groupFrom? depth trail = none := by
  have passed := Text.isNeutral_of_isIdle idle bracket depth []
  rwa [List.append_nil] at passed

theorem Bracket.groupFrom?_append (idle : trail.isIdle = true) (bracket : Bracket) (depth : Nat)
    (text : Text) : bracket.groupFrom? depth (text ++ trail) =
      (bracket.groupFrom? depth text).map (Group.followedBy trail) := by
  fun_induction groupFrom? bracket depth text with
  | case1 depth => exact groupFrom?_of_isIdle idle bracket depth
  | case2 depth hidden rest ih =>
      rw [List.cons_append, List.cons_append, groupFrom?, ih, Option.map_map, Option.map_map]
      rfl
  | case3 depth rest hides ih =>
      rw [List.cons_append, Text.IsNeutral.groupFrom?_opener, ih, Option.map_map, Option.map_map]
      rfl
  | case4 => cases bracket <;> rfl
  | case5 rest _ _ depth ih =>
      rw [List.cons_append, Text.IsNeutral.groupFrom?_closer, ih, Option.map_map, Option.map_map]
      rfl
  | case6 depth c rest hides noOpener noCloser ih =>
      by_cases back : c = '\\'
      · -- A backslash that ends the text hides an idle character, which closes nothing either.
        have ending : rest = [] := by
          cases rest with
          | nil => rfl
          | cons hidden rest => exact (hides hidden rest back rfl).elim
        subst back ending
        have unclosed : bracket.groupFrom? depth ['\\'] = none := by
          cases bracket <;> cases depth <;> rfl
        have nothing : bracket.groupFrom? depth [] = none := groupFrom?_of_isIdle rfl bracket depth
        rw [nothing]
        cases trail with
        | nil =>
            rw [List.append_nil, unclosed]
            rfl
        | cons hidden trail =>
            rw [List.cons_append, List.nil_append, groupFrom?,
              groupFrom?_of_isIdle (Text.isIdle_cons_iff.1 idle).2]
            rfl
      · rw [List.cons_append, Text.IsNeutral.groupFrom?_cons noOpener noCloser back, ih,
          Option.map_map, Option.map_map]
        rfl

theorem Bracket.group?_append (idle : trail.isIdle = true) (bracket : Bracket) (text : Text) :
    bracket.group? (text ++ trail) = (bracket.group? text).map (Group.followedBy trail) :=
  groupFrom?_append idle bracket 0 text

/-- A control sequence that ends with the text ends in front of idle text too. -/
theorem Control.read?_append (idle : trail.isIdle = true) (nonempty : text ≠ []) :
    read? (text ++ trail) =
      (read? text).map fun control => { control with rest := control.rest ++ trail } :=
  Control.read?_append_rest nonempty (Text.endsRun_isAlpha_of_isIdle idle)

namespace Text

/-- Whether a reader that skips blanks comes to the end of the text, or to a backslash that ends
it. -/
def isSpent (text : Text) : Bool :=
  text.skipBlanks == [] || text.skipBlanks == ['\\']

theorem skipBlanks_append (stops : text.skipBlanks ≠ []) :
    skipBlanks (text ++ trail) = text.skipBlanks ++ trail :=
  (takeWhile_append_of_ne_nil stops trail).2

theorem skipBlanks_of_isSpent (goesOn : text.isSpent = false) :
    text.skipBlanks ≠ [] ∧ text.skipBlanks ≠ ['\\'] := by
  simpa [isSpent] using goesOn

end Text

/-- An argument is read as before unless the text is spent. -/
theorem Argument.read?_append (idle : trail.isIdle = true) (goesOn : text.isSpent = false) :
    read? (text ++ trail) = (read? text).map (followedBy trail) := by
  obtain ⟨nonempty, noBackslash⟩ := Text.skipBlanks_of_isSpent goesOn
  simp only [read?, Text.skipBlanks_append nonempty]
  obtain ⟨c, rest, start⟩ := List.exists_cons_of_ne_nil nonempty
  simp only [start, List.cons_append]
  split
  · rw [Bracket.group?_append idle, Option.map_map, Option.map_map]
    rfl
  · split
    · rename_i back
      have more : rest ≠ [] := by
        rintro rfl
        exact noBackslash (by rw [start, back])
      rw [Control.read?_append idle more, Option.map_map, Option.map_map]
      rfl
    · split <;> rfl

/-- An optional argument is read as before, even when the text is spent. -/
theorem Argument.readOptional?_append (idle : trail.isIdle = true) (text : Text) :
    readOptional? (text ++ trail) = (readOptional? text).map (followedBy trail) := by
  unfold readOptional?
  cases start : text.skipBlanks with
  | nil =>
      have skipped : Text.skipBlanks (text ++ trail) = trail.skipBlanks := by
        rw [Text.skipBlanks, List.dropWhile_append, if_pos (by rw [← Text.skipBlanks, start]; rfl)]
        rfl
      rw [skipped]
      split
      · rename_i rest begins
        have ending : '[' :: rest <:+ trail := begins ▸ List.dropWhile_suffix isAsciiBlank
        have isMember : '[' ∈ trail := ending.subset List.mem_cons_self
        cases List.all_eq_true.1 idle _ isMember
      · rfl
  | cons c rest =>
      rw [Text.skipBlanks_append (by simp [start]), start, List.cons_append]
      split
      · rename_i rest' begins
        cases begins
        simp only [Bracket.group?_append idle, Option.map_map]
        rfl
      · rename_i other
        split
        · rename_i begins
          cases begins
          exact absurd rfl (other _)
        · rfl

/-- What is found where an argument is expected does not change unless the text is spent. -/
theorem Probe.ofText_append (idle : trail.isIdle = true) (goesOn : text.isSpent = false) :
    ofText (text ++ trail) = (ofText text).followedBy trail := by
  unfold ofText
  rw [Argument.read?_append idle goesOn,
    Text.skipBlanks_append (Text.skipBlanks_of_isSpent goesOn).1]
  cases Argument.read? text with
  | some argument =>
      simp only [Option.map_some, Argument.followedBy]
      split <;> rfl
  | none =>
      obtain ⟨c, rest, start⟩ :=
        List.exists_cons_of_ne_nil (Text.skipBlanks_of_isSpent goesOn).1
      simp only [start, Option.map_none, List.cons_append, List.head?_cons]
      split <;> rfl

end Readers

/-! ## Tokens -/

/-- A line end inside a text that ends with something to see is not continued behind it. -/
theorem Text.splitLineEnd_append_trail {text trail : Text} (visible : text.endsVisibly = true)
    (nonempty : text ≠ []) :
    (text ++ trail).splitLineEnd = (text.splitLineEnd.1, text.splitLineEnd.2 ++ trail) := by
  fun_cases splitLineEnd text with
  | case1 => rfl
  | case2 rest other =>
      cases rest with
      | nil => cases visible
      | cons c rest =>
          rw [List.cons_append, List.cons_append, splitLineEnd]
          rintro _ same
          cases same
          exact other _ rfl
  | case3 => rfl
  | case4 =>
      rename_i _ noReturn noNewline
      obtain ⟨c, rest, rfl⟩ := List.exists_cons_of_ne_nil nonempty
      rw [List.cons_append, splitLineEnd]
      · exact fun _ same => noReturn rest (by rw [(List.cons.inj same).1])
      · exact fun _ same => noReturn rest (by rw [(List.cons.inj same).1])
      · exact fun _ same => noNewline rest (by rw [(List.cons.inj same).1])

namespace Token

variable {trail : Text}

/-- Tokens that nothing looks for: blanks, comments and dollar signs. -/
def isIdle (token : Token) : Bool :=
  !token.isSignificant || token == mathShift

/-- The same token in front of more text. -/
def Reading.followedBy (trail : Text) (reading : Reading) : Reading :=
  { reading with rest := reading.rest ++ trail }

theorem read_of_isBlank {c : Char} (blank : TexCalc.isBlank c = true) (rest : Text) :
    read c rest =
      ⟨.blank, rest.takeWhile TexCalc.isBlank, rest.dropWhile TexCalc.isBlank⟩ := by
  unfold read
  split
  case h_9 => rw [if_pos blank]
  all_goals cases blank

/-- A comment reaches to the end of the text and into what is appended, or it ends before. -/
theorem read_comment_append {rest : Text} (visible : Text.endsVisibly ('%' :: rest) = true) :
    read '%' (rest ++ trail) = (read '%' rest).followedBy trail ∨
      (∃ text taken, read '%' rest = ⟨.comment text, taken, []⟩) ∧
        ∃ text taken later, read '%' (rest ++ trail) = ⟨.comment text, taken, later⟩ ∧
          later <:+ trail := by
  have shape (rest : Text) : read '%' rest = ⟨.comment (rest.takeWhile (!isLineEnd ·)),
      rest.takeWhile (!isLineEnd ·) ++ (Text.splitLineEnd (rest.dropWhile (!isLineEnd ·))).1,
      (Text.splitLineEnd (rest.dropWhile (!isLineEnd ·))).2⟩ := rfl
  rw [shape, shape]
  by_cases stops : rest.dropWhile (!isLineEnd ·) = []
  · right
    have reached : (rest ++ trail).dropWhile (!isLineEnd ·) = trail.dropWhile (!isLineEnd ·) := by
      rw [List.dropWhile_append, if_pos (by rw [stops]; rfl)]
    have ending : (Text.splitLineEnd (trail.dropWhile (!isLineEnd ·))).2 <:+ trail :=
      .trans ⟨_, Text.splitLineEnd_append _⟩ (List.dropWhile_suffix _)
    rw [stops, reached]
    exact ⟨⟨_, _, rfl⟩, _, _, _, rfl, ending⟩
  · left
    obtain ⟨same, later⟩ := Text.takeWhile_append_of_ne_nil stops trail
    have ending : rest.dropWhile (!isLineEnd ·) <:+ '%' :: rest :=
      (List.dropWhile_suffix _).trans (List.suffix_cons '%' rest)
    rw [same, later, Text.splitLineEnd_append_trail (Text.endsVisibly_of_suffix visible ending) stops]
    rfl

/-- A token is read as before, or it is a comment that reaches to the end of the text and into
what is appended. -/
theorem read_append_idle (idle : trail.isIdle = true) {c : Char} {rest : Text}
    (visible : Text.endsVisibly (c :: rest) = true) (noBackslash : (read c rest).token ≠ .char '\\') :
    read c (rest ++ trail) = (read c rest).followedBy trail ∨
      (∃ text taken, read c rest = ⟨.comment text, taken, []⟩) ∧
        ∃ text taken later, read c (rest ++ trail) = ⟨.comment text, taken, later⟩ ∧
          later <:+ trail := by
  by_cases percent : c = '%'
  · subst percent
    exact read_comment_append visible
  fun_cases read c rest with
  | case1 found isFound =>
      left
      have more : rest ≠ [] := by
        rintro rfl
        cases isFound
      have again := Control.read?_append idle more
      rw [isFound, Option.map_some] at again
      rw [read_control again]
      rfl
  | case2 notFound =>
      unfold read at noBackslash
      rw [notFound] at noBackslash
      exact absurd rfl noBackslash
  | case3 => exact absurd rfl percent
  | case10 =>
      rename_i blank
      left
      have stops : rest.dropWhile TexCalc.isBlank ≠ [] := by
        have some := Text.dropWhile_ne_nil visible (List.cons_ne_nil c rest)
        rwa [List.dropWhile_cons_of_pos blank] at some
      obtain ⟨same, later⟩ := Text.takeWhile_append_of_ne_nil stops trail
      rw [read_of_isBlank blank, same, later]
      rfl
  | case11 =>
      rename_i back _ opener closer dollar caret line tie visible
      have single : isSingle c = true := by
        simp only [isSingle, Bool.eq_false_iff.2 visible, List.mem_cons, List.not_mem_nil,
          or_false, not_or, Bool.not_false, Bool.true_and, decide_eq_true_eq]
        exact ⟨back, percent, opener, closer, dollar, caret, line, tie⟩
      rw [read_of_isSingle single]
      exact .inl rfl
  | _ => exact .inl rfl

/-- What idle text is read as. -/
theorem isIdle_read {c : Char} {rest : Text} (idle : Text.isIdle (c :: rest) = true) :
    (read c rest).token.isIdle = true ∧ (read c rest).rest <:+ rest := by
  rcases (Text.isIdle_cons_iff.1 idle).1 with blank | rfl
  · rw [read_of_isBlank blank]
    exact ⟨rfl, List.dropWhile_suffix _⟩
  · exact ⟨rfl, List.suffix_refl _⟩

end Token

/-- The lexemes of idle text are idle. -/
theorem Text.all_isIdle_lexemesFrom {trail : Text} (idle : trail.isIdle = true) (offset : Nat) :
    (trail.lexemesFrom offset).all (·.token.isIdle) = true := by
  fun_induction lexemesFrom offset trail with
  | case1 => rfl
  | case2 offset c rest reading source ih =>
      obtain ⟨first, ending⟩ := Token.isIdle_read idle
      rw [List.all_cons, Bool.and_eq_true]
      exact ⟨first, ih (isIdle_of_suffix (isIdle_cons_iff.1 idle).2 ending)⟩

/-- Blanks in front of a text are at most one lexeme. -/
theorem Text.exists_lexemesFrom_blanks {blanks text : Text} (allBlank : blanks.all isBlank = true)
    (ends : text.endsRun isBlank = true) (offset : Nat) :
    ∃ front : List Lexeme, (∀ lexeme ∈ front, lexeme.token = .blank) ∧
      (blanks ++ text).lexemesFrom offset =
        front ++ text.lexemesFrom (offset + blanks.byteLength) := by
  cases blanks with
  | nil => exact ⟨[], by simp, rfl⟩
  | cons c blanks =>
      rw [List.all_cons, Bool.and_eq_true] at allBlank
      have isRead : Token.read c (blanks ++ text) = ⟨.blank, blanks, text⟩ := by
        rw [Token.read_of_isBlank allBlank.1, takeWhile_append_of_endsRun allBlank.2 ends,
          dropWhile_append_of_endsRun allBlank.2 ends]
      refine ⟨[⟨offset, .blank, c :: blanks⟩], by simp, ?_⟩
      rw [List.cons_append, lexemesFrom, isRead]
      rfl

end TexCalc

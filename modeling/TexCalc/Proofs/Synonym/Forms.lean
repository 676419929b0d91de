import TexCalc.Proofs.Dollars.Padded
import TexCalc.Proofs.Inside.Applied
import TexCalc.Proofs.Linear.Steps
import TexCalc.Proofs.Linear.Structures
import TexCalc.Proofs.Tex.Normal
import TexCalc.Proofs.Words.Accepted

/-!
# Two ways to write a function

Some functions are written with a base or an exponent behind the command of another one, and with
a command of their own.  Up to the step that reads the argument of the first form, both commands
stay in front of the text that follows them.
-/

namespace TexCalc

/-- A command and the script that follows it. -/
structure Spelling where
  name : Text
  script : Text
  deriving DecidableEq, Repr

namespace Spelling

def text (spelling : Spelling) : Text :=
  '\\' :: (spelling.name ++ spelling.script)

/-- The characters of a script, which are tokens of their own. -/
def isScriptChar (c : Char) : Bool :=
  c ∈ ['^', '_', '\x7b', '\x7d', '-', '1', '0', 'e']

/-- The spelling of a function, with a script that does not go on with its name. -/
structure IsFunction (spelling : Spelling) : Prop where
  letters : spelling.name.all Char.isAlpha = true
  nonempty : spelling.name ≠ []
  noSide : (Token.control spelling.name).side? = none
  visible : Command.named? spelling.name ≠ some .spacing
  noStructure : ¬ Structure.IsName spelling.name
  marks : spelling.script.all isScriptChar = true
  ends : spelling.script.endsRun Char.isAlpha = true

variable {spelling : Spelling}

theorem exists_token {c : Char} (isMark : isScriptChar c = true) :
    ∃ token : Token, token.side? = none ∧ token ≠ .char '|' ∧ token.normal = [c] ∧
      ∀ rest, Token.read c rest = ⟨token, [], rest⟩ := by
  simp only [isScriptChar, List.mem_cons, List.not_mem_nil, or_false, decide_eq_true_eq] at isMark
  rcases isMark with rfl | rfl | rfl | rfl | other
  · exact ⟨.superscript, rfl, by decide, rfl, fun _ => rfl⟩
  · exact ⟨.subscript, rfl, by decide, rfl, fun _ => rfl⟩
  · exact ⟨.openBrace, rfl, by decide, rfl, fun _ => rfl⟩
  · exact ⟨.closeBrace, rfl, by decide, rfl, fun _ => rfl⟩
  · refine ⟨.char c, rfl, ?_, ?_, fun rest => Token.read_of_isSingle ?_ rest⟩ <;>
      rcases other with rfl | rfl | rfl | rfl <;> decide

theorem normalized_script {script : Text} (marks : script.all isScriptChar = true) (rest : Text) :
    Text.normalized (script ++ rest) = script ++ rest.normalized := by
  induction script with
  | nil => rfl
  | cons c script ih =>
      rw [List.all_cons, Bool.and_eq_true] at marks
      obtain ⟨token, noSide, noBar, shape, isRead⟩ := exists_token marks.1
      rw [List.cons_append, Text.normalized_of_read (isRead _) noSide noBar, shape, ih marks.2]
      rfl

namespace IsFunction

theorem normalized_text (isFunction : spelling.IsFunction) {rest : Text}
    (ends : rest.endsRun Char.isAlpha = true) :
    Text.normalized (spelling.text ++ rest) = spelling.text ++ rest.normalized := by
  have script : Text.endsRun Char.isAlpha (spelling.script ++ rest) = true := by
    have stops := isFunction.ends
    cases shape : spelling.script with
    | nil => exact ends
    | cons c later =>
        rw [shape] at stops
        exact stops
  rw [text, List.cons_append, List.append_assoc,
    Text.normalized_word isFunction.letters isFunction.nonempty script isFunction.noSide
      isFunction.visible, normalized_script isFunction.marks, List.cons_append, List.append_assoc]

theorem all_visible_text (isFunction : spelling.IsFunction) :
    spelling.text.all (!isBlank ·) = true := by
  have name (c : Char) (isMember : c ∈ spelling.name) : (!isBlank c) = true := by
    have letter : c.isAlpha = true := List.all_eq_true.1 isFunction.letters c isMember
    have word : c.isAlphanum = true := by simp [Char.isAlphanum, letter]
    rw [isBlank_eq_false_of_isAlphanum word]
    rfl
  have script (c : Char) (isMember : c ∈ spelling.script) : (!isBlank c) = true := by
    have isMark := List.all_eq_true.1 isFunction.marks c isMember
    simp only [isScriptChar, List.mem_cons, List.not_mem_nil, or_false, decide_eq_true_eq] at isMark
    rcases isMark with rfl | rfl | rfl | rfl | rfl | rfl | rfl | rfl <;> rfl
  rw [text, List.all_cons, List.all_append, Bool.and_eq_true, Bool.and_eq_true, List.all_eq_true,
    List.all_eq_true]
  exact ⟨rfl, name, script⟩

theorem trim_text (isFunction : spelling.IsFunction) : spelling.text.trim = spelling.text := by
  have nonempty : spelling.text ≠ [] := List.cons_ne_nil _ _
  have visible := List.all_eq_true.1 isFunction.all_visible_text _ (List.getLast_mem nonempty)
  exact Text.trim_eq_of_ends rfl (List.dropLast_concat_getLast nonempty).symm rfl
    ((Bool.not_eq_true' _).mp visible)

theorem hasWordsOnly_text (isFunction : spelling.IsFunction) : spelling.text.HasWordsOnly := by
  have plain : '\\' ∉ spelling.script := Text.not_mem_of_all (by decide) isFunction.marks
  rw [Text.HasWordsOnly, text, Text.words_word isFunction.letters isFunction.ends, List.mem_cons,
    not_or]
  exact ⟨isFunction.nonempty.symm, Text.hasWordsOnly_of_not_mem plain⟩

/-- The linear form of a command in front of an argument is that of the command in front of the
normal text of the argument. -/
theorem linear_normal (isFunction : spelling.IsFunction) (vocabulary : Vocabulary)
    (options : Options) (argument : Text) :
    (spelling.text ++ ' ' :: argument).normal.linear vocabulary options =
      Text.linear vocabulary options (spelling.text ++ ' ' :: argument.normal) := by
  cases start : argument.trimStart with
  | nil =>
      have blank : argument.isAllBlank = true := by
        have whole : argument.takeWhile isBlank ++ argument.trimStart = argument :=
          List.takeWhile_append_dropWhile
        rw [start, List.append_nil] at whole
        rw [← whole]
        exact List.all_takeWhile
      have trimmed : Text.trim (spelling.text ++ ' ' :: argument) = spelling.text := by
        have alone : Text.trim ([] ++ (spelling.text ++ ' ' :: argument)) = spelling.text.trim :=
          Text.trim_append_blanks rfl (by rwa [Text.isAllBlank, List.all_cons]) spelling.text
        exact alone.trans isFunction.trim_text
      have command : spelling.text.normalized = spelling.text := by
        have whole : Text.normalized (spelling.text ++ []) = spelling.text ++ Text.normalized [] :=
          isFunction.normalized_text rfl
        rwa [Text.normalized_nil, List.append_nil] at whole
      have nothing : argument.normal = [] := by
        rw [Text.normal, Text.trim, start]
        exact Text.normalized_nil
      rw [Text.normal, trimmed, nothing]
      exact (congrArg (Text.linear vocabulary options) command).trans
        (Text.linear_space vocabulary options isFunction.hasWordsOnly_text).symm
  | cons c rest =>
      have visible : isBlank c = false := by
        have stops := Text.endsRun_dropWhile isBlank argument
        rw [← Text.trimStart, start] at stops
        simpa [Text.endsRun] using stops
      have shape : argument.trim = c :: Text.trimEnd rest := by
        rw [Text.trim, start]
        exact Text.trimEnd_append_cons visible [] rest
      have split : spelling.text ++ ' ' :: argument =
          (spelling.text ++ ' ' :: argument.takeWhile isBlank) ++ c :: rest := by
        rw [← start, List.append_assoc, List.cons_append, Text.trimStart,
          List.takeWhile_append_dropWhile]
      have trimmed : Text.trim (spelling.text ++ ' ' :: argument) =
          spelling.text ++ ' ' :: (argument.takeWhile isBlank ++ argument.trim) := by
        have begins : Text.trimStart (spelling.text ++ ' ' :: argument) =
            spelling.text ++ ' ' :: argument := Text.trimStart_eq_of_head rfl
        rw [Text.trim, begins, split, Text.trimEnd_append_cons visible, shape]
        simp
      have spaced : Text.normalized (' ' :: (argument.takeWhile isBlank ++ argument.trim)) =
          ' ' :: argument.normal := by
        have behind : (argument.takeWhile isBlank ++ argument.trim).dropWhile isBlank =
            argument.trim := by
          refine Text.dropWhile_append_of_endsRun List.all_takeWhile ?_
          rw [shape]
          simp [Text.endsRun, visible]
        have isRead (rest : Text) :
            Token.read ' ' rest = ⟨.blank, rest.takeWhile isBlank, rest.dropWhile isBlank⟩ := rfl
        rw [Text.normalized_of_read (isRead _) rfl (by decide), behind]
        rfl
      rw [Text.normal, trimmed]
      exact congrArg (Text.linear vocabulary options)
        ((isFunction.normalized_text rfl).trans (congrArg (spelling.text ++ ·) spaced))

theorem pieces_text (isFunction : spelling.IsFunction) (argument : Text) :
    Text.pieces ((spelling.text ++ [' ']) ++ argument) =
      (.control spelling.name :: (spelling.script ++ [' ']).map .plain) ++ argument.pieces := by
  have plain : '\\' ∉ spelling.script ++ [' '] := by
    rw [List.mem_append, not_or]
    exact ⟨Text.not_mem_of_all (by decide) isFunction.marks, by decide⟩
  have script : Text.pieces ((spelling.script ++ [' ']) ++ argument) =
      (spelling.script ++ [' ']).map .plain ++ argument.pieces := by
    generalize spelling.script ++ [' '] = script at plain
    induction script with
    | nil => rfl
    | cons c script ih =>
        rw [List.mem_cons, not_or] at plain
        rw [List.cons_append, Text.pieces_cons (Ne.symm plain.1), ih plain.2]
        rfl
  have ends : Text.endsRun Char.isAlpha ((spelling.script ++ [' ']) ++ argument) = true := by
    have stops := isFunction.ends
    cases shape : spelling.script with
    | nil => rfl
    | cons c later =>
        rw [shape] at stops
        exact stops
  have split : (spelling.text ++ [' ']) ++ argument =
      '\\' :: (spelling.name ++ ((spelling.script ++ [' ']) ++ argument)) := by simp [text]
  rw [split, Text.pieces_word isFunction.letters isFunction.nonempty ends, script]
  rfl

/-- Fractions and roots are replaced behind the command. -/
theorem resolveStructures_text (isFunction : spelling.IsFunction) (argument : Text) :
    Text.resolveStructures (spelling.text ++ ' ' :: argument) =
      spelling.text ++ ' ' :: argument.resolveStructures := by
  have none (name : Text) (isMember : .control name ∈
      Piece.control spelling.name :: (spelling.script ++ [' ']).map .plain) :
      ¬ Structure.IsName name := by
    rcases List.mem_cons.1 isMember with same | inScript
    · cases same
      exact isFunction.noStructure
    · obtain ⟨c, _, same⟩ := List.mem_map.1 inScript
      cases same
  have whole := Structure.resolveStructures_append isFunction.pieces_text none argument
  simpa only [List.append_assoc, List.singleton_append] using whole

end IsFunction

end Spelling

/-- A function that is written in two ways. -/
inductive Synonym where
  | commonLog
  | naturalLog
  | arcsine
  | arccosine
  | arctangent
  deriving DecidableEq, Repr

namespace Synonym

/-- The spelling with a base or an exponent. -/
def scripted : Synonym → Spelling
  | commonLog => ⟨"log".toList, "_\x7b10\x7d".toList⟩
  | naturalLog => ⟨"log".toList, "_\x7be\x7d".toList⟩
  | arcsine => ⟨"sin".toList, "^\x7b-1\x7d".toList⟩
  | arccosine => ⟨"cos".toList, "^\x7b-1\x7d".toList⟩
  | arctangent => ⟨"tan".toList, "^\x7b-1\x7d".toList⟩

/-- The spelling by a command of its own. -/
def named : Synonym → Spelling
  | commonLog => ⟨"log".toList, []⟩
  | naturalLog => ⟨"ln".toList, []⟩
  | arcsine => ⟨"arcsin".toList, []⟩
  | arccosine => ⟨"arccos".toList, []⟩
  | arctangent => ⟨"arctan".toList, []⟩

/-- The function of the target language. -/
def target : Synonym → Name
  | commonLog => ⟨"log10".toList, rfl⟩
  | naturalLog => ⟨"log".toList, rfl⟩
  | arcsine => ⟨"asin".toList, rfl⟩
  | arccosine => ⟨"acos".toList, rfl⟩
  | arctangent => ⟨"atan".toList, rfl⟩

theorem isFunction_scripted (synonym : Synonym) : synonym.scripted.IsFunction := by
  constructor <;> cases synonym <;> decide

theorem isFunction_named (synonym : Synonym) : synonym.named.IsFunction := by
  constructor <;> cases synonym <;> decide

/-! ## Steps -/

/-- The steps in front of the one that reads the argument of the spelling with a script. -/
def prepare : Synonym → Text → Text
  | commonLog | naturalLog => fun text => text.resolveStructures.resolveInverses .standard
  | arcsine | arccosine | arctangent => Text.resolveStructures

/-- The step that reads the argument of the spelling with a script. -/
def resolve : Synonym → Text → Text
  | commonLog | naturalLog => Text.resolveLogBases .standard
  | arcsine | arccosine | arctangent => Text.resolveInverses .standard

/-- The steps behind it up to the renaming. -/
def rename : Synonym → Text → Text
  | commonLog | naturalLog => Text.renameCommands .standard
  | arcsine | arccosine | arctangent =>
      fun text => (text.resolveLogBases .standard).renameCommands .standard

theorem linear_eq (synonym : Synonym) (text : Text) :
    text.linear .standard .standard =
      (((synonym.rename (synonym.resolve (synonym.prepare text))).completeCalls .standard
        false).raised .standard).flatten := by
  cases synonym <;> rfl

/-- A command that begins with another letter has no inverse. -/
theorem resolveInverses_other {c : Char} (other : c ∉ ['s', 'c', 't']) {front : Text}
    (plain : '\\' ∉ c :: front) (rest : Text) :
    Text.resolveInverses .standard ('\\' :: c :: front ++ rest) =
      '\\' :: c :: front ++ rest.resolveInverses .standard := by
  simp only [List.mem_cons, List.not_mem_nil, or_false, not_or] at other
  have none : Text.inverseMark? ('\\' :: c :: (front ++ rest)) = none := by
    simp [Text.inverseMark?, Text.trigonometric, Text.dropLead?, other]
  have behind : Text.resolveInverses .standard ((c :: front) ++ rest) =
      (c :: front) ++ rest.resolveInverses .standard := Text.resolveInverses_append plain
  exact (Text.resolveInverses_cons none).trans (congrArg ('\\' :: ·) behind)

theorem prepare_scripted (synonym : Synonym) (argument : Text) :
    synonym.prepare (synonym.scripted.text ++ ' ' :: argument) =
      synonym.scripted.text ++ ' ' :: synonym.prepare argument := by
  have structures := synonym.isFunction_scripted.resolveStructures_text argument
  cases synonym with
  | commonLog =>
      refine (congrArg (Text.resolveInverses .standard) structures).trans ?_
      exact resolveInverses_other (show 'l' ∉ ['s', 'c', 't'] by decide)
        (show '\\' ∉ "log_\x7b10\x7d ".toList by decide) _
  | naturalLog =>
      refine (congrArg (Text.resolveInverses .standard) structures).trans ?_
      exact resolveInverses_other (show 'l' ∉ ['s', 'c', 't'] by decide)
        (show '\\' ∉ "log_\x7be\x7d ".toList by decide) _
  | arcsine | arccosine | arctangent => exact structures

theorem prepare_named (synonym : Synonym) (argument : Text) :
    synonym.prepare (synonym.named.text ++ ' ' :: argument) =
      synonym.named.text ++ ' ' :: synonym.prepare argument := by
  have structures := synonym.isFunction_named.resolveStructures_text argument
  cases synonym with
  | commonLog =>
      refine (congrArg (Text.resolveInverses .standard) structures).trans ?_
      exact resolveInverses_other (show 'l' ∉ ['s', 'c', 't'] by decide)
        (show '\\' ∉ "log ".toList by decide) _
  | naturalLog =>
      refine (congrArg (Text.resolveInverses .standard) structures).trans ?_
      exact resolveInverses_other (show 'l' ∉ ['s', 'c', 't'] by decide)
        (show '\\' ∉ "ln ".toList by decide) _
  | arcsine | arccosine | arctangent => exact structures

/-- Where a command stands for an inverse function, its argument is read behind one space. -/
theorem resolveInverses_mark {c : Char} {rest argument : Text} (name : Text)
    (isMark : Text.inverseMark? (c :: rest) = some ⟨name, ' ' :: argument⟩) :
    Text.resolveInverses .standard (c :: rest) =
      match argument.bareArgument? .standard with
      | some cut => ' ' :: (name ++ '(' :: (cut.text ++
          ')' :: cut.rest.resolveInverses .standard))
      | none => ' ' :: (name ++ ' ' :: ' ' :: argument.resolveInverses .standard) := by
  have spaced : Text.bareArgument? .standard (' ' :: argument) =
      argument.bareArgument? .standard := rfl
  rw [Text.resolveInverses_eq, isMark]
  simp only [spaced]
  cases argument.bareArgument? .standard with
  | some cut => simp [Text.parenthesized]
  | none =>
      rw [Text.resolveInverses_plain (by decide)]
      rfl

theorem resolveLogBases_mark {c : Char} {rest argument : Text} (base name : Text)
    (isBase : (Text.afterLogMark? (c :: rest)).bind Argument.read? =
      some ⟨base, true, ' ' :: argument⟩)
    (known : Text.logFunction? base.trim = some name) :
    Text.resolveLogBases .standard (c :: rest) =
      match argument.bareArgument? .standard with
      | some cut => ' ' :: (name ++ '(' :: (cut.text ++
          ')' :: cut.rest.resolveLogBases .standard))
      | none => ' ' :: (name ++ ' ' :: ' ' :: argument.resolveLogBases .standard) := by
  have spaced : Text.bareArgument? .standard (' ' :: argument) =
      argument.bareArgument? .standard := rfl
  rw [Text.resolveLogBases_eq, isBase]
  simp only [spaced, Text.logOf, Text.bareLog, known]
  cases argument.bareArgument? .standard with
  | some cut => simp [Text.parenthesized]
  | none =>
      simp only
      rw [Text.resolveLogBases_plain (by decide)]
      simp

/-- The spelling with a script takes its argument. -/
theorem resolve_scripted (synonym : Synonym) (argument : Text) :
    synonym.resolve (synonym.scripted.text ++ ' ' :: argument) =
      match argument.bareArgument? .standard with
      | some cut =>
          ' ' :: (synonym.target.text ++ '(' :: (cut.text ++ ')' :: synonym.resolve cut.rest))
      | none => ' ' :: (synonym.target.text ++ ' ' :: ' ' :: synonym.resolve argument) := by
  cases synonym with
  | commonLog => exact resolveLogBases_mark "10".toList "log10".toList rfl rfl
  | naturalLog => exact resolveLogBases_mark "e".toList "log".toList rfl rfl
  | arcsine => exact resolveInverses_mark "asin".toList rfl
  | arccosine => exact resolveInverses_mark "acos".toList rfl
  | arctangent => exact resolveInverses_mark "atan".toList rfl

/-- A command for which no base is read stays in place. -/
theorem resolveLogBases_command {front : Text} (plain : '\\' ∉ front) {rest : Text}
    (none : Text.afterLogMark? ('\\' :: (front ++ rest)) = none) :
    Text.resolveLogBases .standard ('\\' :: (front ++ rest)) =
      '\\' :: (front ++ rest.resolveLogBases .standard) := by
  have noBase : (Text.afterLogMark? ('\\' :: (front ++ rest))).bind Argument.read? = Option.none := by
    rw [none]
    rfl
  rw [Text.resolveLogBases_cons noBase, Text.resolveLogBases_append plain]

/-- The spelling by a command of its own stays in place, unless a base follows it. -/
theorem resolve_named (synonym : Synonym) {argument : Text}
    (noBase : argument.trimStart.head? ≠ some '_') :
    synonym.resolve (synonym.named.text ++ ' ' :: argument) =
      synonym.named.text ++ ' ' :: synonym.resolve argument := by
  have inverse {front : Text} (plain : '\\' ∉ 'a' :: front) :
      Text.resolveInverses .standard ('\\' :: 'a' :: front ++ argument) =
        '\\' :: 'a' :: front ++ argument.resolveInverses .standard :=
    resolveInverses_other (by decide) plain argument
  cases synonym with
  | commonLog =>
      have none : Text.dropLead? argument.trimStart ['_'] = none := by
        cases start : argument.trimStart with
        | nil => rfl
        | cons c rest =>
            rw [start] at noBase
            exact if_neg fun same => noBase (by rw [same]; rfl)
      exact resolveLogBases_command (show '\\' ∉ "log ".toList by decide) none
  | naturalLog => exact resolveLogBases_command (show '\\' ∉ "ln ".toList by decide) rfl
  | arcsine => exact inverse (show '\\' ∉ "arcsin ".toList by decide)
  | arccosine => exact inverse (show '\\' ∉ "arccos ".toList by decide)
  | arctangent => exact inverse (show '\\' ∉ "arctan ".toList by decide)

theorem renameCommands_named (synonym : Synonym) (rest : Text) :
    Text.renameCommands .standard (synonym.named.text ++ ' ' :: rest) =
      ' ' :: (synonym.target.text ++ ' ' :: ' ' :: rest.renameCommands .standard) := by
  have isFunction := synonym.isFunction_named
  have noScript : synonym.named.script = [] := by cases synonym <;> rfl
  have target : Command.rename .standard synonym.named.name =
      ' ' :: (synonym.target.text ++ [' ']) := by
    cases synonym <;> decide +kernel
  rw [Spelling.text, noScript, List.append_nil, List.cons_append,
    Text.renameCommands_word isFunction.letters isFunction.nonempty rfl, target,
    Text.renameCommands_plain (by decide)]
  simp

theorem rename_named (synonym : Synonym) (rest : Text) :
    synonym.rename (synonym.named.text ++ ' ' :: rest) =
      ' ' :: (synonym.target.text ++ ' ' :: ' ' :: synonym.rename rest) := by
  have renamed := synonym.renameCommands_named
  cases synonym with
  | commonLog | naturalLog => exact renamed rest
  | arcsine =>
      exact (congrArg (Text.renameCommands .standard) (resolveLogBases_command
        (show '\\' ∉ "arcsin ".toList by decide) rfl)).trans (renamed _)
  | arccosine =>
      exact (congrArg (Text.renameCommands .standard) (resolveLogBases_command
        (show '\\' ∉ "arccos ".toList by decide) rfl)).trans (renamed _)
  | arctangent =>
      exact (congrArg (Text.renameCommands .standard) (resolveLogBases_command
        (show '\\' ∉ "arctan ".toList by decide) rfl)).trans (renamed _)

theorem rename_append (synonym : Synonym) {front : Text} (plain : '\\' ∉ front) (rest : Text) :
    synonym.rename (front ++ rest) = front ++ synonym.rename rest := by
  cases synonym with
  | commonLog | naturalLog => exact Text.renameCommands_append plain
  | arcsine | arccosine | arctangent =>
      exact (congrArg _ (Text.resolveLogBases_append plain)).trans (Text.renameCommands_append plain)

end Synonym

end TexCalc

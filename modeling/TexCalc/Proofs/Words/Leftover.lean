import TexCalc.Linear.Renaming
import TexCalc.Proofs.Words.Accepted
import TexCalc.Proofs.Words.Backslashes
import TexCalc.Proofs.Words.Cut
import TexCalc.Proofs.Words.Kept

/-!
# Leftover control sequences

Renaming replaces a control word that names a command, unless it is one for structures.  In
strict mode it leaves all other words, and otherwise those that do not begin with the name
of a function or a constant.  Every word that is left accounts for one backslash, and no
other backslash is written.

Every backslash of a linear formula begins a control sequence that nothing has replaced.
There are as many of them among the symbols as there are backslashes, hence as many as
control words that the renaming leaves.
-/

namespace TexCalc

/-! ## Words that the renaming leaves -/

namespace Command

/-- Whether the control word with the given name is left as it is. -/
def isLeft (options : Options) (name : Text) : Bool :=
  match named? name with
  | some command => command == structural
  | none => options.strict || (fused? name).isNone

/-- The command at the start of a fused word. -/
theorem named?_of_fused? {word key : Text} {command : Command}
    (found : fused? word = some (key, command)) :
    named? key = some command ∧ command.isNamed = true := by
  obtain ⟨length, _, matched⟩ := List.exists_of_findSome?_eq_some found
  split at matched
  · obtain ⟨named, isNamed, same⟩ := Option.map_eq_some_iff.1 matched
    cases same
    exact Option.filter_eq_some_iff.1 isNamed
  · cases matched

theorem append_drop_of_fused? {word key : Text} {command : Command}
    (found : fused? word = some (key, command)) : key ++ word.drop key.length = word := by
  obtain ⟨length, isMember, matched⟩ := List.exists_of_findSome?_eq_some found
  rw [List.mem_reverse, List.mem_range] at isMember
  split at matched
  · obtain ⟨named, _, same⟩ := Option.map_eq_some_iff.1 matched
    cases same
    rw [List.length_take, Nat.min_eq_left (Nat.le_of_lt isMember), List.take_append_drop]
  · cases matched

/-- A control sequence keeps its name behind the backslash, or the command at the start of its name
is replaced by a target form. -/
theorem rename_cases (options : Options) (name : Text) :
    rename options name = '\\' :: name ∨
      ∃ key command source rest, named? key = some command ∧ command ≠ structural ∧
        name = key ++ rest ∧ rename options name = command.target options source ++ rest := by
  cases found : named? name with
  | some command =>
      simp only [rename, found]
      by_cases same : command = structural
      · rw [same]
        exact .inl rfl
      · exact .inr ⟨name, command, _, [], found, same, (List.append_nil _).symm,
          (List.append_nil _).symm⟩
  | none =>
      simp only [rename, found]
      split
      · rename_i key command split
        have fused : fused? name = some (key, command) := by
          cases strict : options.strict with
          | true => simp [strict] at split
          | false => simpa [strict] using split
        obtain ⟨isTarget, isNamed⟩ := named?_of_fused? fused
        have other : command ≠ structural := by
          rintro rfl
          cases isNamed
        exact .inr ⟨key, command, _, _, isTarget, other, (append_drop_of_fused? fused).symm, rfl⟩
      · exact .inl rfl

/-- Only letters can stand behind a command in the name of a control sequence. -/
theorem all_isAlpha_of_named? {key rest : Text} {command : Command}
    (found : named? key = some command)
    (isName : (key ++ rest).all Char.isAlpha = true ∨ ∃ c, key ++ rest = [c]) :
    rest.all Char.isAlpha = true := by
  have nonempty : ∀ entry ∈ table, entry.1 ≠ [] := by decide
  obtain ⟨d, front, rfl⟩ := List.exists_cons_of_ne_nil (nonempty _ (mem_table_of_named? found))
  rcases isName with letters | ⟨c, single⟩
  · rw [List.all_append, Bool.and_eq_true] at letters
    exact letters.2
  · rw [List.cons_append, List.cons.injEq, List.append_eq_nil_iff] at single
    rw [single.2.2]
    rfl

/-- What holds of the characters of every target form in the table. -/
def AllTargets (accept : Char → Bool) : Prop :=
  ∀ plusMinus ∈ [Sign.plus, Sign.minus], ∀ logBase ∈ [LogBase.common, LogBase.natural],
    ∀ entry ∈ table, entry.2 = structural ∨
      (entry.2.target ⟨true, plusMinus, logBase⟩ []).all accept = true

instance (accept : Char → Bool) : Decidable (AllTargets accept) :=
  inferInstanceAs (Decidable (∀ plusMinus ∈ _, _))

theorem AllTargets.all_target {accept : Char → Bool} (inTable : AllTargets accept)
    (options : Options) {name : Text} {command : Command} (found : named? name = some command)
    (other : command ≠ structural) (source : Text) :
    (command.target options source).all accept = true := by
  obtain ⟨strict, plusMinus, logBase⟩ := options
  have signs : plusMinus ∈ [Sign.plus, Sign.minus] := by cases plusMinus <;> decide
  have bases : logBase ∈ [LogBase.common, LogBase.natural] := by cases logBase <;> decide
  rcases inTable plusMinus signs logBase bases _ (mem_table_of_named? found) with same | all
  · exact absurd same other
  · cases command <;> first | exact absurd rfl other | exact all

/-- A target form holds no backslash. -/
theorem not_mem_target (options : Options) {name : Text} {command : Command}
    (found : named? name = some command) (other : command ≠ structural) (source : Text) :
    '\\' ∉ command.target options source := by
  have inTable : AllTargets (· != '\\') := by decide
  intro isMember
  have plain := List.all_eq_true.1 (inTable.all_target options found other source) _ isMember
  exact absurd plain (by decide)

/-- Where the characters of target forms and of control words are accepted, those of a renamed
command are. -/
theorem AllTargets.all_rename {accept : Char → Bool} (inTable : AllTargets accept)
    (options : Options) {name : Text} (written : accept '\\' = true)
    (named : name.all accept = true) : (rename options name).all accept = true := by
  rcases rename_cases options name with kept | ⟨key, command, source, rest, found, other, rfl, form⟩
  · rw [kept, List.all_cons, written, named]
    rfl
  · rw [List.all_append, Bool.and_eq_true] at named
    rw [form, List.all_append, inTable.all_target options found other, named.2]
    rfl

/-- A control word that is left keeps its backslash, and any other loses it. -/
theorem words_rename (options : Options) {name : Text} (letters : name.all Char.isAlpha = true) :
    (rename options name).words = if isLeft options name then [name] else [] := by
  have kept : Text.words ('\\' :: name) = [name] := by
    rw [Text.words_cons_backslash, Text.takeWhile_of_all_isAlpha letters,
      Text.words_of_not_mem (Text.not_mem_of_all_isAlpha letters)]
  cases found : named? name with
  | some command =>
      simp only [rename, isLeft, found]
      cases same : command == structural with
      | true =>
          rw [eq_of_beq same]
          exact kept
      | false =>
          have other : command ≠ structural := by simpa using same
          exact Text.words_of_not_mem (not_mem_target options found other _)
  | none =>
      cases fused : if options.strict then none else fused? name with
      | none =>
          have stays : (options.strict || (fused? name).isNone) = true := by
            cases strict : options.strict <;> simp_all
          simp only [rename, isLeft, found, fused, stays, if_true]
          exact kept
      | some parts =>
          obtain ⟨key, command⟩ := parts
          have lenient : options.strict = false ∧ fused? name = some (key, command) := by
            cases strict : options.strict <;> simp_all
          obtain ⟨named, isNamed⟩ := named?_of_fused? lenient.2
          have other : command ≠ structural := by
            rintro rfl
            cases isNamed
          have rest : '\\' ∉ name.drop key.length := fun isMember =>
            Text.not_mem_of_all_isAlpha letters (List.mem_of_mem_drop isMember)
          simp only [rename, isLeft, found, lenient.1, lenient.2, Option.isNone_some,
            Bool.or_self, Bool.false_eq_true, if_false]
          apply Text.words_of_not_mem
          rw [List.mem_append, not_or]
          exact ⟨not_mem_target options named other _, rest⟩

end Command

namespace Text

/-- The control sequences of a text are its control words. -/
theorem mem_words_of_mem_pieces {text name : Text} (only : text.HasWordsOnly)
    (isMember : .control name ∈ text.pieces) : name ∈ text.words := by
  fun_induction pieces text with
  | case1 => cases isMember
  | case2 rest control isControl ih =>
      have within := words_of_control only isControl
      rw [within]
      rcases List.mem_cons.1 isMember with same | later
      · cases same
        exact List.mem_cons_self
      · exact List.mem_cons_of_mem _
          (ih (only.of_control isControl) later)
  | case3 rest isNone => simp at isMember
  | case4 c rest plain ih =>
      rw [words_cons_of_ne plain]
      simp only [List.mem_cons, reduceCtorEq, false_or] at isMember
      exact ih only.tail isMember

/-- Renaming leaves a text in which every backslash is followed by a letter. -/
theorem hasWordsOnly_renameCommands (options : Options) {text : Text}
    (only : text.HasWordsOnly) : (text.renameCommands options).HasWordsOnly := by
  unfold renameCommands
  fun_induction pieces text with
  | case1 => exact List.not_mem_nil
  | case2 rest control isControl ih =>
      obtain ⟨_, letters, _, _⟩ := control_of_hasWordsOnly only isControl
      have first : (Command.rename options control.name).HasWordsOnly := by
        rw [HasWordsOnly, Command.words_rename options letters]
        split
        · simpa using Ne.symm (Control.name_ne_nil_of_read? isControl)
        · exact List.not_mem_nil
      exact first.append (ih (only.of_control isControl))
  | case3 rest isNone =>
      rw [Control.read?_eq_none_iff.1 isNone] at only
      exact absurd List.mem_cons_self only
  | case4 c rest plain ih =>
      have first : HasWordsOnly [c] := hasWordsOnly_of_not_mem (by simpa using Ne.symm plain)
      exact first.append (ih only.tail)

/-- The backslashes after the renaming are those of the words that it leaves. -/
theorem count_renameCommands (options : Options) {text : Text} (only : text.HasWordsOnly) :
    (text.renameCommands options).count '\\' =
      text.words.countP (Command.isLeft options) := by
  unfold renameCommands
  fun_induction pieces text with
  | case1 => rfl
  | case2 rest control isControl ih =>
      have within := words_of_control only isControl
      obtain ⟨_, letters, _, _⟩ := control_of_hasWordsOnly only isControl
      have first : (Command.rename options control.name).count '\\' =
          if Command.isLeft options control.name then 1 else 0 := by
        rw [← length_words, Command.words_rename options letters]
        split <;> rfl
      rw [within, List.countP_cons, List.flatMap_cons, List.count_append,
        ih (only.of_control isControl), Nat.add_comm]
      exact congrArg (_ + ·) first
  | case3 rest isNone =>
      rw [Control.read?_eq_none_iff.1 isNone] at only
      exact absurd List.mem_cons_self only
  | case4 c rest plain ih =>
      have first : List.count '\\' [c] = 0 := List.count_eq_zero.2 (by simpa using Ne.symm plain)
      rw [words_cons_of_ne plain, List.flatMap_cons, List.count_append, ih only.tail]
      exact (congrArg (· + _) first).trans (Nat.zero_add _)

end Text

/-! ## Words among the symbols -/

namespace Text

theorem count_of_append {left right : Text} (without : '\\' ∉ left) :
    List.count '\\' (left ++ right) = right.count '\\' := by
  rw [List.count_append, List.count_eq_zero.2 without, Nat.zero_add]

theorem isLetter_backslash : isLetter '\\' = false := by
  decide +kernel

/-- The name of a control sequence begins no other one when no two backslashes meet. -/
theorem not_mem_of_control {text : Text} {control : Control} (apart : IsApart ('\\' :: text))
    (found : Control.read? text = some control) : '\\' ∉ control.name := by
  cases text with
  | nil => cases found
  | cons c rest =>
      simp only [Control.read?] at found
      split at found
      · rename_i letter
        cases found
        have letters : (c :: rest.takeWhile Char.isAlpha).all Char.isAlpha = true := by
          simp [letter]
        exact not_mem_of_all_isAlpha letters
      · cases found
        have other : c ≠ '\\' := fun back => apart.1 rfl (by rw [back]; rfl)
        simpa using Ne.symm other

/-- Each backslash gives one leftover symbol, when no backslash hides another one. -/
theorem length_leftovers_symbols (vocabulary : Vocabulary) {text : Text} (apart : text.IsApart) :
    ((text.symbols vocabulary).filterMap Symbol.leftover?).length = text.count '\\' := by
  fun_induction symbols vocabulary text with
  | case1 => rfl
  | case2 c rest begins ih =>
      have other : c ≠ '\\' := by
        rintro rfl
        simp [beginsNumeral] at begins
      have split : rest = rest.takeWhile isNumeralChar ++ rest.dropWhile isNumeralChar :=
        List.takeWhile_append_dropWhile.symm
      have plain : '\\' ∉ rest.takeWhile isNumeralChar := fun isMember =>
        absurd (List.all_eq_true.1 List.all_takeWhile _ isMember) (by decide)
      rw [List.filterMap_cons_none rfl, List.count_cons_of_ne other]
      conv => rhs; rw [split, count_of_append plain]
      rw [split] at apart
      exact ih apart.2.of_append_right
  | case3 c rest _ _ entry after found ih =>
      have split := Vocabulary.eq_of_entryAt? found
      have none : (Symbol.ofEntry entry).leftover? = none := by
        unfold Symbol.ofEntry
        split <;> rfl
      rw [split] at apart
      rw [List.filterMap_cons_none none, split, count_of_append (not_mem_name entry.name)]
      exact ih apart.of_append_right
  | case4 c rest _ letter _ ih =>
      have other : c ≠ '\\' := by
        rintro rfl
        exact absurd letter (by rw [isLetter_backslash]; decide)
      rw [List.filterMap_cons_none rfl, List.count_cons_of_ne other]
      exact ih apart.2
  | case5 rest control found _ _ ih =>
      have plain := not_mem_of_control apart found
      have split := Control.eq_of_read? found
      have named : (Symbol.leftover control.name).leftover? = some control.name := rfl
      rw [List.filterMap_cons_some named, List.length_cons, List.count_cons_self]
      conv => rhs; rw [split, count_of_append plain]
      have later := apart.2
      rw [split] at later
      rw [ih later.of_append_right]
  | case6 rest found _ _ =>
      rw [Control.read?_eq_none_iff.1 found]
      rfl
  | case7 c rest _ _ other _ ih =>
      rw [List.count_cons_of_ne other]
      exact ih apart.2
  | case8 c rest _ _ other _ ih =>
      have none : (Symbol.ofPunctuation c).leftover? = none := by
        unfold Symbol.ofPunctuation
        repeat' split
        all_goals rfl
      rw [List.filterMap_cons_none none, List.count_cons_of_ne other]
      exact ih apart.2

end Text

namespace Symbol

/-- Products are made explicit without leftover symbols. -/
theorem filterMap_leftover?_multiplyAfter (joins : Symbol → Symbol → Bool)
    (previous? : Option Symbol) (symbols : List Symbol) :
    (multiplyAfter joins previous? symbols).filterMap leftover? =
      symbols.filterMap leftover? := by
  induction symbols generalizing previous? with
  | nil => rfl
  | cons symbol rest ih =>
      simp only [multiplyAfter]
      split
      · rw [List.filterMap_cons_none rfl, List.filterMap_cons, List.filterMap_cons, ih]
      · rw [List.filterMap_cons, List.filterMap_cons, ih]

end Symbol

namespace Text

/-- A formula at the time when its commands are renamed. -/
def beforeRenaming (vocabulary : Vocabulary) (text : Text) : Text :=
  (text.resolveStructures.resolveInverses vocabulary).resolveLogBases vocabulary

/-- The text in which parked functions are written out. -/
def beforeWritingOut (vocabulary : Vocabulary) (options : Options) (text : Text) : Text :=
  ((text.beforeRenaming vocabulary).renameCommands options).attachArguments vocabulary

theorem keepsWords_beforeRenaming (vocabulary : Vocabulary) {text : Text}
    (only : text.HasWordsOnly) :
    KeepsWords (fun name => name ∈ trigonometric ∨ name = "log".toList)
      text.resolveStructures (text.beforeRenaming vocabulary) := by
  have onlyResolved := (keepsWords_resolveStructures only).hasWordsOnly only
  have inverted := keepsWords_resolveInverses vocabulary onlyResolved
  have based := keepsWords_resolveLogBases vocabulary (inverted.hasWordsOnly onlyResolved)
  exact (inverted.mono fun _ => .inl).trans (based.mono fun _ => .inr)

theorem hasWordsOnly_beforeRenaming (vocabulary : Vocabulary) {text : Text}
    (only : text.HasWordsOnly) : (text.beforeRenaming vocabulary).HasWordsOnly :=
  (keepsWords_beforeRenaming vocabulary only).hasWordsOnly
    ((keepsWords_resolveStructures only).hasWordsOnly only)

/-- The backslashes of the linear form are those of the control words that the renaming leaves. -/
theorem count_backslash_linear (vocabulary : Vocabulary) (options : Options) {text : Text}
    (only : text.HasWordsOnly) :
    (text.linear vocabulary options).count '\\' =
      (text.beforeRenaming vocabulary).words.countP (Command.isLeft options) := by
  have based := hasWordsOnly_beforeRenaming vocabulary only
  have called := hasWordsOnly_attachArguments vocabulary
    (hasWordsOnly_renameCommands options based)
  have raised := backslashes_resolveExponents vocabulary (hasWordsOnly_expandParked called)
  calc (text.linear vocabulary options).count '\\'
      = ((text.beforeRenaming vocabulary).renameCommands options).count '\\' :=
        (count_flatten _).trans (raised.2.trans
          ((count_expandParked _).trans (count_attachArguments vocabulary _)))
    _ = (text.beforeRenaming vocabulary).words.countP (Command.isLeft options) :=
        count_renameCommands options based

/-- The control sequences that are left over are the control words that the renaming
leaves. -/
theorem length_leftovers (vocabulary : Vocabulary) (options : Options) {text : Text}
    (only : text.HasWordsOnly) :
    (((text.linear vocabulary options).classify vocabulary).filterMap
        Symbol.leftover?).length =
      (text.beforeRenaming vocabulary).words.countP (Command.isLeft options) := by
  have expanded := hasWordsOnly_expandParked (hasWordsOnly_attachArguments vocabulary
    (hasWordsOnly_renameCommands options (hasWordsOnly_beforeRenaming vocabulary only)))
  have apart := isApart_flatten (backslashes_resolveExponents vocabulary expanded).1
  rw [classify, Symbol.multiply, Symbol.filterMap_leftover?_multiplyAfter,
    ← count_backslash_linear vocabulary options only]
  exact length_leftovers_symbols vocabulary apart

end Text

end TexCalc

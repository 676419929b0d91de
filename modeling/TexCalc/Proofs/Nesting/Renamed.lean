import TexCalc.Proofs.Nesting.Structures
import TexCalc.Proofs.Words.Leftover

/-!
# Nesting up to the renaming

When the last root has been read, every reader of an operand takes a part of the text that leaves
loose brackets behind and closes nothing that was opened before.  Such a part may be copied, put in
parentheses or moved.

The mark of an inverse function is a group in braces that goes away.  The base of a logarithm goes
behind its argument.  Names of commands hold no brackets, so that renaming does not touch any.
-/

namespace TexCalc

/-! ## Operands -/

/-- What is read from the text is a part that leaves loose brackets, and the rest goes on with them. -/
def Text.HasPart (text part rest : Text) : Prop :=
  ∀ before after, Walk false true before text after →
    ∃ count, part.Leaves false count ∧ Walk false true (loose count ++ before) rest after

namespace Text.Leaves

variable {guarded : Bool} {count : Nat} {text : Text}

/-- A text in brackets that cannot be loose. -/
theorem enclosed {bracket : Bracket} (fixed : bracket ≠ .square)
    (leaves : Leaves guarded count text) :
    Leaves guarded count (bracket.opener :: (text ++ [bracket.closer])) := by
  intro before
  apply Walk.step (Step.opens fun square => absurd square fixed)
  apply Walk.anywhere
  apply (leaves _).append
  have closed :
      Walk guarded (isRound bracket.closer) (loose count ++ before) [] (loose count ++ before) :=
    .done _
  exact @Walk.closes_through guarded false _ [] (.bracket bracket) count before
    (fun counted => absurd (by simpa [Pending.isCountedBy] using counted) fixed) closed

end Text.Leaves

namespace Text

variable {vocabulary : Vocabulary} {text part rest : Text}

theorem HasPart.of_plain (plain : part.all (!isBracket ·) = true) :
    HasPart (part ++ rest) part rest :=
  fun _ _ walk => ⟨0, .of_plain plain, walk.of_plain_append plain⟩

theorem HasPart.of_skipBlanks (found : HasPart text.skipBlanks part rest) :
    HasPart text part rest :=
  fun before after walk => found before after walk.skipBlanks

theorem HasPart.skipBlanks_right (found : HasPart text part rest) :
    HasPart text part rest.skipBlanks := by
  intro before after walk
  obtain ⟨count, leaves, later⟩ := found before after walk
  exact ⟨count, leaves, later.skipBlanks⟩

theorem HasPart.plain_cons {c : Char} (other : isBracket c = false)
    (found : HasPart text part rest) :
    HasPart (c :: text) part rest :=
  fun before after walk => found before after (walk.of_plain other).mono

theorem HasPart.wrap (found : HasPart text part rest) : HasPart text part.wrap rest := by
  intro before after walk
  obtain ⟨count, leaves, later⟩ := found before after walk
  exact ⟨count, leaves.wrap, later⟩

/-- One part after another. -/
theorem HasPart.append {middle more : Text} (first : HasPart text part middle)
    (second : HasPart middle more rest) : HasPart text (part ++ more) rest := by
  intro before after walk
  obtain ⟨count, leaves, later⟩ := first before after walk
  obtain ⟨count', leaves', later'⟩ := second _ after later
  refine ⟨count' + count, leaves.append leaves', ?_⟩
  rwa [loose_add, List.append_assoc]

/-- The inside of a group. -/
theorem hasPart_of_group? {bracket : Bracket} {group : Group} (fixed : bracket ≠ .square)
    (only : text.HasWordsOnly) (found : bracket.group? text = some group) :
    HasPart (bracket.opener :: text) group.inside group.rest := by
  intro before after walk
  exact walk.of_group? fixed (fun guarded => absurd guarded Bool.false_ne_true) only found

theorem all_plain_name (name : Name) : name.text.all (!isBracket ·) = true :=
  all_plain_of (by decide) name.all_isAlphanum

theorem hasPart_of_constantAt? {name : Name}
    (found : vocabulary.constantAt? text = some (name, rest)) : HasPart text name.text rest := by
  rw [Vocabulary.eq_of_constantAt? found]
  exact .of_plain (all_plain_name name)

theorem hasPart_of_exponent? {exponent : Cut} (only : text.HasWordsOnly)
    (found : text.exponent? vocabulary = some exponent) :
    HasPart text exponent.text exponent.rest := by
  have within := only.skipBlanks
  apply HasPart.of_skipBlanks
  simp only [exponent?] at found
  split at found
  · cases found
  · rename_i c rest start
    rw [start] at within ⊢
    split at found
    · rename_i bracket opens
      obtain ⟨group, isGroup, rfl⟩ := Option.map_eq_some_iff.1 found
      rw [← opener_of_ofArgument? opens]
      exact (hasPart_of_group? (ne_square_of_ofArgument? opens) within.tail isGroup).wrap
    · split at found
      · rename_i isConstant
        cases found
        exact hasPart_of_constantAt? isConstant
      · split at found
        · rename_i word
          cases found
          have plain := isBracket_eq_false_of (by decide) word
          exact @HasPart.of_plain [c] rest (by rw [List.all_cons, plain]; rfl)
        · cases found

/-- What is passed over is a part of the text. -/
theorem exists_part_of_passes {withCommands : Bool} (only : text.HasWordsOnly)
    (passes : Passes withCommands text rest) :
    ∃ part, text = part ++ rest ∧ HasPart text part rest := by
  induction passes with
  | done text => exact ⟨[], rfl, @HasPart.of_plain [] text rfl⟩
  | @char c text rest plain _ ih =>
      obtain ⟨part, rfl, later⟩ := ih only.tail
      have other : isBracket c = false := by
        rcases plain with operand | listed
        · exact isBracket_eq_false_of (by decide +kernel) operand
        · simp only [List.mem_cons, List.not_mem_nil, or_false] at listed
          rcases listed with rfl | rfl | rfl <;> rfl
      exact ⟨c :: part, rfl,
        (@HasPart.of_plain [c] _ (by rw [List.all_cons, other]; rfl)).append later⟩
  | @group bracket text rest group fixed found _ ih =>
      have split := Bracket.eq_of_group? found
      have onlyRest : group.rest.HasWordsOnly := by
        have within := only.tail
        rw [split] at within
        exact within.of_append_right.tail
      obtain ⟨part, isPart, later⟩ := ih onlyRest
      refine ⟨bracket.opener :: (group.inside ++ [bracket.closer]) ++ part, ?_, ?_⟩
      · conv => lhs; rw [split, isPart]
        simp
      · apply HasPart.append _ later
        intro before after walk
        obtain ⟨count, leaves, behind⟩ := hasPart_of_group? fixed only.tail found before after walk
        exact ⟨count, leaves.enclosed fixed, behind⟩
  | @control text rest control _ found _ ih =>
      obtain ⟨split, letters, _, _⟩ := control_of_hasWordsOnly only found
      have within := only
      rw [split, ← List.cons_append] at within
      obtain ⟨part, isPart, later⟩ := ih within.of_append_right
      have plain : List.all ('\\' :: control.name) (!isBracket ·) = true := by
        rw [List.all_cons, all_plain_of (by decide) letters]
        rfl
      refine ⟨'\\' :: control.name ++ part, ?_, ?_⟩
      · conv => lhs; rw [split, isPart]
        simp
      · rw [split]
        exact (@HasPart.of_plain ('\\' :: control.name) control.rest plain).append later

theorem hasPart_of_drops (drops : text.Drops isOperandChar rest) :
    HasPart text (text.before rest) rest := by
  obtain ⟨lead, rfl, all⟩ := drops
  rw [before_append]
  exact .of_plain (all_plain_of (by decide +kernel) all)

/-- A reader that stops at an ending of the text. -/
theorem hasPart_before {withCommands : Bool} (only : text.HasWordsOnly)
    (passes : Passes withCommands text rest) : HasPart text (text.before rest) rest := by
  obtain ⟨part, rfl, found⟩ := exists_part_of_passes only passes
  rwa [before_append]

theorem hasPart_of_bareArgument? {argument : Cut} (only : text.HasWordsOnly)
    (found : text.bareArgument? vocabulary = some argument) :
    HasPart text argument.text argument.rest := by
  have within := only.skipBlanks
  apply HasPart.of_skipBlanks
  simp only [bareArgument?] at found
  split at found
  · cases found
  · rename_i c rest start
    rw [start] at within ⊢
    split at found
    · rename_i bracket opens
      obtain ⟨group, isGroup, rfl⟩ := Option.map_eq_some_iff.1 found
      rw [← opener_of_ofArgument? opens]
      exact hasPart_of_group? (ne_square_of_ofArgument? opens) within.tail isGroup
    · obtain ⟨after, isAfter, rfl⟩ := Option.map_eq_some_iff.1 found
      exact hasPart_before within (passes_of_afterBareArgument? isAfter)

end Text

/-! ## Inverse functions -/

/-- What stands on top is closed by its own partner only. -/
theorem Walk.of_closer {guarded may : Bool} {before after : List Pending} {bracket : Bracket}
    {rest : Text}
    (walk : Walk guarded may (.bracket bracket :: before) (bracket.closer :: rest) after) :
    Walk guarded true before rest after := by
  rcases walk.of_cons with
    ⟨plain, _⟩ | ⟨pending, same, _⟩ | ⟨count, pending, below, _, _, same, later⟩
  · rw [isBracket_closer] at plain
    cases plain
  · rcases pending with kind | _
    · cases bracket <;> cases kind <;> cases same
    · cases bracket <;> cases same
  · cases count with
    | zero =>
        cases same
        exact later.mono
    | succ count => cases same

namespace Text

variable {vocabulary : Vocabulary} {before after : List Pending} {text rest : Text}

theorem walk_trimStart {guarded may : Bool} (walk : Walk guarded may before text after) :
    Walk guarded may before text.trimStart after := by
  have whole : text.takeWhile isBlank ++ text.trimStart = text := List.takeWhile_append_dropWhile
  rw [← whole] at walk
  exact walk.of_plain_append (all_plain_of (by decide) List.all_takeWhile)

/-- A character that a text begins with, blanks apart. -/
theorem walk_of_dropLead? {guarded may : Bool} {c : Char}
    (found : dropLead? text.trimStart [c] = some rest) (walk : Walk guarded may before text after) :
    Walk guarded may before (c :: rest) after := by
  have start := walk_trimStart walk
  rwa [dropLead?_eq_some_iff.1 found] at start

theorem walk_of_afterMinusOne? (found : text.afterMinusOne? = some rest)
    (walk : Walk false true before text after) : Walk false true before rest after := by
  simp only [afterMinusOne?, List.foldlM_cons, List.foldlM_nil] at found
  obtain ⟨script, isScript, found⟩ := Option.bind_eq_some_iff.1 found
  obtain ⟨sign, isSign, found⟩ := Option.bind_eq_some_iff.1 found
  obtain ⟨digit, isDigit, found⟩ := Option.bind_eq_some_iff.1 found
  obtain ⟨closer, isCloser, found⟩ := Option.bind_eq_some_iff.1 found
  obtain ⟨ending, isEnding, found⟩ := Option.bind_eq_some_iff.1 found
  cases found
  have raised := (walk_of_dropLead? isScript walk).of_plain (by decide)
  have braced : Walk false false before (Bracket.curly.opener :: sign) after :=
    walk_of_dropLead? isSign raised
  have opened : Walk false false (.bracket .curly :: before) sign after :=
    braced.of_opener (by decide)
  have minus := (walk_of_dropLead? isDigit opened).of_plain (by decide)
  have one := (walk_of_dropLead? isCloser minus).of_plain (by decide)
  have closed : Walk false false (.bracket .curly :: before) (Bracket.curly.closer :: rest) after :=
    walk_of_dropLead? isEnding one
  exact closed.of_closer

/-- The mark of an inverse function goes, and a name comes in its place. -/
theorem walk_of_inverseMark? {mark : Cut} (found : text.inverseMark? = some mark)
    (walk : Walk false true before text after) :
    mark.text.all (!isBracket ·) = true ∧ Walk false true before mark.rest after := by
  obtain ⟨name, isName, rest, rfl, isBehind, isInverse⟩ := exists_of_inverseMark? found
  have plain : ∀ name ∈ trigonometric, name.all (!isBracket ·) = true ∧
      ∀ inverse ∈ Command.inverse? name, inverse.all (!isBracket ·) = true := by
    decide
  obtain ⟨plainName, plainInverse⟩ := plain name isName
  have named := walk.of_plain (by decide)
  exact ⟨plainInverse mark.text isInverse,
    walk_of_afterMinusOne? isBehind (named.of_plain_append plainName).mono⟩

/-- Calling inverse functions by name keeps brackets nested. -/
theorem walk_resolveInverses (vocabulary : Vocabulary) (only : text.HasWordsOnly)
    (walk : Walk false true before text after) :
    Walk false true before (text.resolveInverses vocabulary) after := by
  fun_induction resolveInverses vocabulary text generalizing before with
  | case1 => exact walk
  | case2 c rest _ ih =>
      apply walk.congr_cons
      intro between later
      exact (ih only.tail later.mono).unguarded _
  | case3 c rest mark isMark argument isArgument ih =>
      have onlyMark := only.of_inverseMark? isMark
      obtain ⟨plain, marked⟩ := walk_of_inverseMark? isMark walk
      obtain ⟨count, leaves, behind⟩ := hasPart_of_bareArgument? onlyMark isArgument _ _ marked
      rw [List.append_assoc, List.cons_append]
      apply Walk.plain_cons (by decide)
      apply Walk.plain_append plain
      exact leaves.walk_parenthesized (ih (onlyMark.of_bareArgument? isArgument) behind)
  | case4 c rest mark isMark _ ih =>
      obtain ⟨plain, marked⟩ := walk_of_inverseMark? isMark walk
      rw [List.cons_append]
      apply Walk.plain_cons (by decide)
      apply Walk.plain_append plain
      apply Walk.plain_cons (by decide)
      exact (ih (only.of_inverseMark? isMark) marked).unguarded false

/-! ## Logarithms with a base -/

variable {right : Text} {opened : List Pending}

/-- A text without brackets opens none. -/
theorem Opens.eq_nil_of_plain {guarded : Bool} (plain : text.all (!isBracket ·) = true)
    (opens : Opens guarded opened text) : opened = [] := by
  cases opens with
  | round => cases plain
  | square => cases plain
  | leaves leaves =>
      have whole := leaves []
      rw [← List.append_nil text] at whole
      have same := (whole.of_plain_append plain).length_of_nil
      rw [List.append_nil, List.length_nil] at same
      exact List.eq_nil_of_length_eq_zero same.symm

/-- A base and an argument that have changed places, in parentheses. -/
theorem Opens.walk_close {guarded may : Bool} {count : Nat} (opens : Opens guarded opened text)
    (later : Walk guarded true (loose count ++ (opened ++ before)) right after) :
    Walk guarded may (opened ++ (loose count ++ .bracket .round :: before)) (')' :: right)
      after := by
  cases opens with
  | round => exact @Walk.closeParen _ _ _ _ _ 0 later
  | square =>
      rw [List.singleton_append, loose_append_cons] at later
      exact @Walk.closeParen _ _ _ _ _ (count + 1) later
  | @leaves more _ _ =>
      rw [← List.append_assoc, ← loose_add] at later ⊢
      rw [Nat.add_comm] at later
      exact .closeParen later

theorem all_plain_of_logFunction? {base function : Text}
    (found : logFunction? base = some function) :
    base.all (!isBracket ·) = true ∧ function.all (!isBracket ·) = true := by
  simp only [logFunction?] at found
  split at found
  · rename_i isTen
    cases found
    exact ⟨isTen ▸ by decide, by decide⟩
  · split at found
    · rename_i isEuler
      cases found
      exact ⟨isEuler ▸ by decide, by decide⟩
    · cases found

/-- The base of a logarithm goes behind its argument. -/
theorem walk_logOf {base argument : Text} {count : Nat} (opens : base.Opens false opened)
    (leaves : argument.Leaves false count)
    (later : Walk false true (loose count ++ (opened ++ before)) right after) :
    Walk false true before (logOf base argument ++ right) after := by
  simp only [logOf]
  split
  · rename_i function found
    obtain ⟨plainBase, plainFunction⟩ := all_plain_of_logFunction? found
    rw [opens.eq_nil_of_plain plainBase, List.nil_append] at later
    rw [List.append_assoc, List.cons_append]
    apply Walk.plain_cons (by decide)
    apply Walk.plain_append plainFunction
    exact leaves.walk_parenthesized later
  · rw [List.cons_append, parenthesized_append]
    simp only [List.append_assoc]
    apply Walk.plain_cons (by decide)
    apply Walk.paren
    apply Walk.plain_append (by decide)
    apply leaves.walk_parenthesized
    apply Walk.plain_append (by decide)
    apply opens.walk_parenthesized
    exact opens.walk_close later

theorem walk_bareLog {base : Text} (opens : base.Opens false opened)
    (later : Walk false true (opened ++ before) right after) :
    Walk false true before (bareLog base ++ right) after := by
  have behind := later.unguarded false
  simp only [bareLog]
  split
  · rename_i function found
    obtain ⟨plainBase, plainFunction⟩ := all_plain_of_logFunction? found
    rw [opens.eq_nil_of_plain plainBase] at behind
    rw [List.append_assoc, List.cons_append]
    apply Walk.plain_cons (by decide)
    apply Walk.plain_append plainFunction
    exact .plain_append (by decide) behind
  · rw [List.append_assoc, List.cons_append, parenthesized_append, List.append_assoc]
    apply Walk.plain_cons (by decide)
    apply Walk.paren
    apply Walk.plain_append (by decide)
    apply opens.walk_parenthesized
    have closed : Walk false true (opened ++ (loose 0 ++ .bracket .round :: before))
        (')' :: ("* log ".toList ++ right)) after :=
      opens.walk_close (.plain_append (by decide) behind)
    exact closed

/-- Reading the bases of logarithms keeps brackets nested. -/
theorem walk_resolveLogBases (vocabulary : Vocabulary) (only : text.HasWordsOnly)
    (walk : Walk false true before text []) :
    Walk false true before (text.resolveLogBases vocabulary) [] := by
  have ofMark {text : Text} {base : Argument} {before : List Pending} (only : text.HasWordsOnly)
      (walk : Walk false true before text [])
      (found : text.afterLogMark?.bind Argument.read? = some base) :
      ∃ opened, base.text.trim.Opens false opened ∧
        Walk false true (opened ++ before) base.rest [] := by
    obtain ⟨behind, isBehind, isBase⟩ := Option.bind_eq_some_iff.1 found
    obtain ⟨script, isScript, isRest⟩ := Option.bind_eq_some_iff.1 isBehind
    have onlyBehind : behind.HasWordsOnly := fun isMember =>
      only ((words_of_afterLogMark? isBehind).1 ▸ List.mem_cons_of_mem _ isMember)
    rw [dropLead?_eq_some_iff.1 isScript] at walk
    have marked :=
      (walk_of_dropLead? isRest (walk.of_plain_append (by decide))).of_plain (by decide)
    obtain ⟨opened, opens, later⟩ := marked.of_argument onlyBehind isBase
    exact ⟨opened, opens.trim, later⟩
  fun_induction resolveLogBases vocabulary text generalizing before with
  | case1 => exact walk
  | case2 c rest _ ih =>
      apply walk.congr_cons
      intro between later
      exact (ih only.tail later.mono).unguarded _
  | case3 c rest base isBase argument isArgument ih =>
      have onlyBase := only.of_logBase? isBase
      obtain ⟨opened, opens, marked⟩ := ofMark only walk isBase
      obtain ⟨count, leaves, behind⟩ := hasPart_of_bareArgument? onlyBase isArgument _ _ marked
      exact walk_logOf opens leaves (ih (onlyBase.of_bareArgument? isArgument) behind)
  | case4 c rest base isBase _ ih =>
      obtain ⟨opened, opens, marked⟩ := ofMark only walk isBase
      exact walk_bareLog opens (ih (only.of_logBase? isBase) marked)

/-! ## Renaming -/

/-- Renaming commands keeps brackets nested. -/
theorem walk_renameCommands (options : Options) (only : text.HasWordsOnly)
    (walk : Walk false true before text after) :
    Walk false true before (text.renameCommands options) after := by
  have inTable : Command.AllTargets (!isBracket ·) := by decide
  unfold renameCommands
  fun_induction pieces text generalizing before with
  | case1 => exact walk
  | case2 rest control isControl ih =>
      obtain ⟨split, letters, _, _⟩ := control_of_hasWordsOnly only isControl
      have plain := all_plain_of (by decide) letters
      have behind := walk.of_plain (by decide)
      rw [split] at behind
      have renamed : (Piece.rename options (.control control.name)).all (!isBracket ·) = true :=
        inTable.all_rename options (by decide) plain
      have later := ih (only.of_control isControl)
        (behind.of_plain_append plain).mono
      exact .plain_append renamed (later.unguarded false)
  | case3 rest isNone =>
      rw [Control.read?_eq_none_iff.1 isNone] at walk
      exact walk
  | case4 c rest _ ih =>
      apply walk.congr_cons
      intro between later
      exact (ih only.tail later.mono).unguarded _

end Text

end TexCalc

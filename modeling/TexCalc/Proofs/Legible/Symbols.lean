import TexCalc.Proofs.Alphabet.Finished
import TexCalc.Proofs.Legible.Powers
import TexCalc.Proofs.Symbol.Recognized

/-!
# Symbols of a legible formula

On one line a legible formula is a sequence of glyphs, and every glyph is read as one symbol.  No
name is read where its letters stand for themselves, and no name is torn.  A function is called when
an opening parenthesis follows it, and here all functions are.
-/

namespace TexCalc

/-! ## Functions that are called -/

namespace Symbol

def isFunction : Symbol → Bool
  | function _ => true
  | _ => false

/-- Whether an opening parenthesis follows every function. -/
def areCalled : List Symbol → Bool
  | [] => true
  | symbol :: rest => (!symbol.isFunction || rest.head?.any isOpening) && areCalled rest

variable {symbols : List Symbol}

theorem areCalled_iff : areCalled symbols = true ↔ ∀ before name after,
    symbols = before ++ .function name :: after → after.head? = some (.delimiter '(') := by
  induction symbols with
  | nil => simp [areCalled]
  | cons symbol rest ih =>
      rw [areCalled, Bool.and_eq_true, ih]
      constructor
      · intro ⟨here, later⟩ before name after split
        cases before with
        | nil =>
            cases split
            simpa [isFunction, isOpening, Option.any_eq_true] using here
        | cons first before =>
            cases split
            exact later before name after rfl
      · intro called
        constructor
        · cases symbol with
          | function name => simp [isOpening, called [] name rest rfl]
          | _ => rfl
        · intro before name after split
          exact called (symbol :: before) name after (by rw [split]; rfl)

theorem areCalled_cons {symbol : Symbol} (other : symbol.isFunction = false)
    (called : areCalled symbols = true) : areCalled (symbol :: symbols) = true := by
  rw [areCalled, other, called]
  rfl

theorem areCalled_function (name : Text) (opens : symbols.head?.any isOpening = true)
    (called : areCalled symbols = true) : areCalled (.function name :: symbols) = true := by
  rw [areCalled, opens, called, Bool.or_true]
  rfl

/-- Neither a function nor its parenthesis has a product sign put between them. -/
theorem areCalled_multiplyAfter (called : areCalled symbols = true) (previous? : Option Symbol) :
    areCalled (multiplyAfter joinsNames previous? symbols) = true ∧
      (symbols.head?.any isOpening = true →
        (multiplyAfter joinsNames previous? symbols).head?.any isOpening = true) := by
  induction symbols generalizing previous? with
  | nil => exact ⟨rfl, nofun⟩
  | cons symbol rest ih =>
      rw [areCalled, Bool.and_eq_true] at called
      obtain ⟨later, isOpened⟩ := ih called.2 (if symbol.isGap then previous? else some symbol)
      have whole : areCalled (symbol :: multiplyAfter joinsNames
          (if symbol.isGap then previous? else some symbol) rest) = true := by
        rw [areCalled, later, Bool.and_true, Bool.or_eq_true]
        exact (Bool.or_eq_true_iff.1 called.1).imp_right isOpened
      simp only [multiplyAfter]
      split
      · rename_i joined
        refine ⟨areCalled_cons rfl whole, fun opening => ?_⟩
        obtain rfl : symbol = .delimiter '(' := by simpa [isOpening] using opening
        simp [joinsNames, isName, isValueName] at joined
      · exact ⟨whole, id⟩

theorem count_var_multiplyAfter (symbols : List Symbol) (previous? : Option Symbol) (c : Char) :
    (multiplyAfter joinsNames previous? symbols).count (.var c) = symbols.count (.var c) := by
  induction symbols generalizing previous? with
  | nil => rfl
  | cons symbol rest ih =>
      simp only [multiplyAfter]
      split
      · rw [List.count_cons_of_ne (by simp [times]), List.count_cons, List.count_cons, ih]
      · rw [List.count_cons, List.count_cons, ih]

end Symbol

theorem isAlpha_eq_false_of_isNumeralChar {c : Char} (numeral : isNumeralChar c = true) :
    c.isAlpha = false := by
  rw [isNumeralChar, Bool.or_eq_true, beq_iff_eq] at numeral
  rcases numeral with digit | rfl
  · exact isAlpha_eq_false_of_isDigit digit
  · rfl

theorem Parked.count_append_of_not_mem {front : Text} (noMark : mark ∉ front) (rest : Text) :
    count (front ++ rest) = count rest := by
  induction front with
  | nil => rfl
  | cons c front ih =>
      rw [List.mem_cons, not_or] at noMark
      rw [List.cons_append, count, read?_eq_none (Ne.symm noMark.1), ih noMark.2]
      exact Nat.zero_add _

namespace Text

variable {letter : Char} {count : Nat} {text rest : Text} {c : Char} {state : State}

/-- A text of glyphs in which every function has a group behind it. -/
inductive Spelled (letter : Char) : Nat → Text → Prop where
  | nil (count : Nat) : Spelled letter count []
  | glyph {glyph : Glyph} {rest : Text} {role : Role} {count : Nat}
      (isRole : glyph.role? rest = some role) (applied : role ≠ .call false)
      (noWord : ∀ name, glyph ≠ .word name) (noParked : ∀ parked, glyph ≠ .call (.parked parked))
      (later : Spelled letter count rest) :
      Spelled letter (glyph.weight letter + count) (glyph.source ++ rest)

namespace Spelled

theorem mono_count (spelled : Spelled letter count text) {more : Nat} (le : count ≤ more) :
    Spelled letter more text := by
  induction spelled generalizing more with
  | nil count => exact .nil more
  | @glyph glyph rest role count isRole applied noWord noParked later ih =>
      obtain ⟨extra, rfl⟩ := Nat.exists_eq_add_of_le le
      rw [Nat.add_assoc]
      exact .glyph isRole applied noWord noParked (ih (Nat.le_add_right count extra))

theorem cons {role : Role} (noLetter : c.isAlpha = false) (isRole : Role.ofChar? c = some role)
    (later : Spelled letter count rest) : Spelled letter count (c :: rest) := by
  have applied : role ≠ .call false := by
    rintro rfl
    exact Role.fits_of_ofChar? isRole
  have whole : Spelled letter ((Glyph.char c).weight letter + count) ([c] ++ rest) :=
    .glyph ((Glyph.role?_of_not_isAlpha noLetter rest).trans isRole) applied nofun nofun later
  rwa [Glyph.weight_of_not_isAlpha letter noLetter, Nat.zero_add] at whole

theorem of_cons (spelled : Spelled letter count (c :: rest)) (noLetter : c.isAlpha = false) :
    Spelled letter count rest ∧ ∃ role, Role.ofChar? c = some role := by
  generalize whole : c :: rest = text at spelled
  cases spelled with
  | nil count => cases whole
  | @glyph glyph rest' role count isRole applied noWord noParked later =>
      have noName {name : Name} (same : c :: rest = name.text ++ rest') : False := by
        obtain ⟨d, run, isText⟩ := List.exists_cons_of_ne_nil name.text_ne_nil
        have valid := name.isName
        rw [isText] at same valid
        obtain ⟨rfl, -⟩ := List.cons.inj same
        rw [Text.isName, Bool.and_eq_true, noLetter] at valid
        cases valid.1
      cases glyph with
      | char d =>
          obtain ⟨rfl, rfl⟩ := List.cons.inj whole
          exact ⟨later.mono_count (Nat.le_add_left _ _), role, Glyph.ofChar?_of_role? isRole⟩
      | value name => exact (noName whole).elim
      | word name => exact absurd rfl (noWord name)
      | call callable =>
          cases callable with
          | function name => exact (noName whole).elim
          | parked waiting => exact absurd rfl (noParked waiting)

theorem dropWhile {accept : Char → Bool} (spelled : Spelled letter count text)
    (noLetter : ∀ c, accept c = true → c.isAlpha = false) :
    Spelled letter count (text.dropWhile accept) := by
  induction text with
  | nil => exact spelled
  | cons c text ih =>
      rw [List.dropWhile_cons]
      split
      · rename_i accepted
        exact ih (spelled.of_cons (noLetter c accepted)).1
      · exact spelled

/-- What is put behind a glyph may change as long as it stands for what was there. -/
theorem glyph_of_standsFor {glyph : Glyph} {new : Text} {role : Role}
    (isRole : glyph.role? rest = some role) (applied : role ≠ .call false)
    (noWord : ∀ name, glyph ≠ .word name) (noParked : ∀ parked, glyph ≠ .call (.parked parked))
    (later : Spelled letter count new) (standsFor : new.StandsFor rest) :
    Spelled letter (glyph.weight letter + count) (glyph.source ++ new) := by
  obtain ⟨role', isRole', rfl | ⟨rfl, -⟩⟩ := Glyph.exists_role?_of_standsFor standsFor isRole
  · exact .glyph isRole' applied noWord noParked later
  · exact absurd rfl applied

end Spelled

/-! ## Flat text -/

theorem joinGroups_brace (rest : Text) :
    (∃ after, rest.trimStart = '\x7b' :: after ∧
      joinGroups ('\x7d' :: rest) = ")*(".toList ++ joinGroups after) ∨
        joinGroups ('\x7d' :: rest) = '\x7d' :: joinGroups rest := by
  rw [joinGroups, if_pos rfl]
  split
  · rename_i after start
    exact .inl ⟨after, start, rfl⟩
  · exact .inr rfl

theorem standsFor_joinGroups (text : Text) : text.joinGroups.StandsFor text := by
  induction text with
  | nil =>
      rw [joinGroups]
      exact .refl []
  | cons c text ih =>
      by_cases brace : c = '\x7d'
      · subst brace
        rcases joinGroups_brace text with ⟨after, -, joined⟩ | joined
        all_goals
          rw [joined]
          exact .of_ends rfl fun applied => by cases applied
      · rw [joinGroups_cons_of_ne brace]
        exact ih.cons c

theorem standsFor_map_flatBracket (text : Text) : StandsFor (text.map flatBracket) text := by
  induction text with
  | nil => exact .refl []
  | cons c text ih =>
      rw [List.map_cons, flatBracket]
      split
      · rename_i isOpener
        rcases isOpener with rfl | rfl <;> exact .of_ends rfl fun _ => rfl
      · split
        · rename_i isCloser
          rcases isCloser with rfl | rfl <;> exact .of_ends rfl fun applied => by cases applied
        · exact ih.cons c

namespace Spelled

theorem joinGroups (spelled : Spelled letter count text) : Spelled letter count text.joinGroups := by
  induction length : text.length using Nat.strongRecOn generalizing text count with
  | ind bound ih =>
    cases spelled with
    | nil count =>
        rw [Text.joinGroups]
        exact .nil count
    | @glyph glyph rest role count isRole applied noWord noParked later =>
        have shorter : rest.length < bound := by
          have nonempty := List.length_pos_iff.2 (Glyph.source_ne_nil isRole)
          rw [List.length_append] at length
          omega
        by_cases brace : glyph = .char '\x7d'
        · subst brace
          refine mono_count ?_ (Nat.le_add_left _ _)
          rcases joinGroups_brace rest with ⟨after, start, joined⟩ | joined
          · have trimmed : Spelled letter count rest.trimStart :=
              later.dropWhile fun _ blank => isAlpha_eq_false_of_isBlank blank
            have fewer := rest.length_trimStart_le
            rw [start] at trimmed fewer
            have inner := ih after.length (Nat.lt_trans (Nat.lt_of_succ_le fewer) shorter)
              (trimmed.of_cons rfl).1 rfl
            exact joined ▸ ((inner.cons rfl rfl).cons rfl rfl).cons rfl rfl
          · exact joined ▸ (ih rest.length shorter later rfl).cons rfl rfl
        · have noCloser : '\x7d' ∉ glyph.source := by
            cases glyph with
            | char c => simpa [Glyph.source, eq_comm] using brace
            | value name => exact not_mem_of_all (by decide) name.all_isAlphanum
            | word name => exact absurd rfl (noWord name)
            | call callable =>
                cases callable with
                | function name => exact not_mem_of_all (by decide) name.all_isAlphanum
                | parked waiting => exact absurd rfl (noParked waiting)
          rw [joinGroups_append_of_not_mem noCloser]
          exact glyph_of_standsFor isRole applied noWord noParked (ih rest.length shorter later rfl)
            (standsFor_joinGroups rest)

theorem map_flatBracket (spelled : Spelled letter count text) :
    Spelled letter count (text.map flatBracket) := by
  induction spelled with
  | nil count => exact .nil count
  | @glyph glyph rest role count isRole applied noWord noParked later ih =>
      have whole := glyph_of_standsFor isRole applied noWord noParked ih
        (standsFor_map_flatBracket rest)
      have name {name : Name} : name.text.map flatBracket = name.text := by
        refine (List.map_congr_left fun c isMember => ?_).trans (List.map_id _)
        exact flatBracket_of_isBaseChar
          (isBaseChar_of_isAlphanum c (List.all_eq_true.1 name.all_isAlphanum c isMember))
      rw [List.map_append]
      cases glyph with
      | value other =>
          rw [Glyph.source, name]
          exact whole
      | word name => exact absurd rfl (noWord name)
      | call callable =>
          cases callable with
          | parked waiting => exact absurd rfl (noParked waiting)
          | function other =>
              rw [Glyph.source, Callable.text, name]
              exact whole
      | char c =>
          have more : count ≤ (Glyph.char c).weight letter + count := Nat.le_add_left _ _
          rw [Glyph.source, List.map_singleton, List.singleton_append, flatBracket]
          split
          · exact (ih.cons rfl rfl).mono_count more
          · split
            · exact (ih.cons rfl rfl).mono_count more
            · exact whole

end Spelled

/-! ## Symbols -/

/-- The group of a function is a parenthesis among the symbols. -/
theorem head?_symbols_of_isApplied (noBrace : '\x7b' ∉ text) (applied : text.isApplied = true) :
    (text.symbols .standard).head?.any Symbol.isOpening = true := by
  induction text with
  | nil => cases applied
  | cons c text ih =>
      rw [List.mem_cons, not_or] at noBrace
      cases blank : isAsciiBlank c with
      | true =>
          have behind : isApplied (c :: text) = isApplied text := by
            simp [isApplied, skipBlanks, blank]
          rw [symbols_blank (isBlank_of_isAsciiBlank blank)]
          exact ih noBrace.2 (behind ▸ applied)
      | false =>
          rw [isApplied, skipBlanks_cons blank] at applied
          obtain ⟨bracket, isOpener⟩ := Option.isSome_iff_exists.1 applied
          obtain rfl := opener_of_ofArgument? isOpener
          cases bracket with
          | round =>
              have single : markSymbols '(' = [.delimiter '('] := by decide +kernel
              rw [show Bracket.round.opener = '(' from rfl, symbols_cons (by decide) (by decide), single]
              rfl
          | curly => exact absurd rfl noBrace.1
          | square => cases isOpener

/-- A name is one symbol. -/
theorem symbols_name {name : Name} {kind : NameKind}
    (isMember : name ∈ Vocabulary.standard.namesOf kind)
    (ends : rest.endsRun Char.isAlphanum = true) :
    symbols .standard (name.text ++ rest) = .ofEntry ⟨name, kind⟩ :: symbols .standard rest := by
  have found : Vocabulary.standard.entryAt? (name.text ++ rest) = some (⟨name, kind⟩, rest) :=
    Vocabulary.entryAt?_eq_some_iff.2 ⟨(takeWhile_append_of_endsRun name.all_isAlphanum ends).symm,
      Vocabulary.isOrdered_standard.mem_namesOf_iff.1 isMember,
      (dropWhile_append_of_endsRun name.all_isAlphanum ends).symm⟩
  obtain ⟨c, run, isText⟩ := List.exists_cons_of_ne_nil name.text_ne_nil
  rw [isText, List.cons_append] at found ⊢
  have letter := Vocabulary.isAlpha_of_entryAt? found
  exact symbols_entry (not_beginsNumeral_of_isAlpha letter _) (isLetter_of_isAlpha letter) found

/-- No name is read at a character. -/
theorem entryAt?_char {role : Role} (isRole : (Glyph.char c).role? rest = some role) :
    Vocabulary.standard.entryAt? (c :: rest) = none := by
  rw [Option.eq_none_iff_forall_ne_some]
  intro found isFound
  obtain ⟨entry, isEntry, matched⟩ := List.exists_of_findSome?_eq_some isFound
  obtain ⟨after, isAfter, -⟩ := Option.map_eq_some_iff.1 matched
  have begins : beginsName (c :: rest) = true := by
    rw [beginsName, Bool.or_eq_true]
    exact .inl (List.any_eq_true.2
      ⟨entry, isEntry, decide_eq_true (Name.isPrefix_of_after? isAfter)⟩)
  simp [Glyph.role?, begins] at isRole

theorem symbols_mark (noNumeral : ¬ beginsNumeral c rest = true) (noLetter : isLetter c = false)
    (plain : c ≠ '\\') :
    symbols .standard (c :: rest) =
      (if isBlank c then [] else [.ofPunctuation c]) ++ symbols .standard rest := by
  rw [symbols, if_neg noNumeral, if_neg (by simp [noLetter]), if_neg plain]
  split <;> rfl

/-- Among the characters with a role only those of ASCII are letters, and none is a backslash. -/
theorem visible_of_ofChar? {role : Role} (isRole : Role.ofChar? c = some role)
    (noLetter : c.isAlpha = false) (noNumeral : ¬ beginsNumeral c rest = true) :
    isLetter c = false ∧ c ≠ '\\' := by
  have fits := Role.fits_of_ofChar? isRole
  cases role with
  | blank | caret | underscore | point =>
      cases fits
      decide +kernel
  | sign => rcases fits with rfl | rfl <;> decide +kernel
  | mark => rcases fits with rfl | rfl | rfl <;> decide +kernel
  | «opens» bracket | closes bracket =>
      cases fits
      cases bracket <;> decide +kernel
  | letter => cases noLetter.symm.trans (show c.isAlpha = true from fits)
  | euler =>
      cases fits
      cases noLetter
  | digit =>
      have digit : c.isDigit = true := fits
      exact absurd (by simp [beginsNumeral, digit]) noNumeral
  | _ => exact fits.elim

theorem areCalled_mark (c : Char) {others : List Symbol} (called : Symbol.areCalled others = true)
    (letter : Char) :
    Symbol.areCalled ((if isBlank c then [] else [Symbol.ofPunctuation c]) ++ others) = true ∧
      ((if isBlank c then [] else [Symbol.ofPunctuation c]) ++ others).count (Symbol.var letter) =
        others.count (.var letter) := by
  split
  · exact ⟨called, rfl⟩
  · have kind : (Symbol.ofPunctuation c).isFunction = false ∧ Symbol.ofPunctuation c ≠ .var letter := by
      unfold Symbol.ofPunctuation
      repeat' split
      all_goals exact ⟨rfl, nofun⟩
    exact ⟨Symbol.areCalled_cons kind.1 called, List.count_cons_of_ne kind.2⟩

namespace Spelled

/-- Every glyph is one symbol: functions are called, and the variables are the letters that stand for
themselves. -/
theorem areCalled_symbols (spelled : Spelled letter count text) (noBrace : '\x7b' ∉ text) :
    Symbol.areCalled (text.symbols .standard) = true ∧
      (text.symbols .standard).count (.var letter) ≤ count := by
  induction length : text.length using Nat.strongRecOn generalizing text count with
  | ind bound ih =>
    cases spelled with
    | nil count =>
        rw [Text.symbols]
        exact ⟨rfl, Nat.zero_le count⟩
    | @glyph glyph rest role count isRole applied noWord noParked later =>
        have shorter : rest.length < bound := by
          have nonempty := List.length_pos_iff.2 (Glyph.source_ne_nil isRole)
          rw [List.length_append] at length
          omega
        rw [List.mem_append, not_or] at noBrace
        obtain ⟨called, isCount⟩ := ih rest.length shorter later noBrace.2 rfl
        cases glyph with
        | word name => exact absurd rfl (noWord name)
        | value name =>
            obtain ⟨-, isMember, ends⟩ := Glyph.exists_value isRole
            rw [Glyph.source, symbols_name isMember ends]
            refine ⟨Symbol.areCalled_cons rfl called, ?_⟩
            rw [List.count_cons_of_ne (by simp [Symbol.ofEntry])]
            exact Nat.le_trans isCount (Nat.le_add_left _ _)
        | call callable =>
            cases callable with
            | parked waiting => exact absurd rfl (noParked waiting)
            | function name =>
                obtain ⟨rfl, isStandard, ends⟩ := Glyph.exists_call isRole
                have behind : rest.isApplied = true := by simpa using applied
                rw [Glyph.source, Callable.text, symbols_name (of_decide_eq_true isStandard) ends]
                refine ⟨Symbol.areCalled_function _
                  (head?_symbols_of_isApplied noBrace.2 behind) called, ?_⟩
                rw [List.count_cons_of_ne (by simp [Symbol.ofEntry])]
                exact Nat.le_trans isCount (Nat.le_add_left _ _)
        | char c =>
            rw [Glyph.source, List.singleton_append]
            by_cases numeral : beginsNumeral c rest = true
            · have fewer := length_dropWhile_le isNumeralChar rest
              obtain ⟨called, isCount⟩ := ih _ (Nat.lt_of_le_of_lt fewer shorter)
                (later.dropWhile fun d isNumeral => isAlpha_eq_false_of_isNumeralChar isNumeral)
                (fun isMember => noBrace.2 ((List.dropWhile_sublist _).subset isMember)) rfl
              rw [symbols_numeral numeral]
              refine ⟨Symbol.areCalled_cons rfl called, ?_⟩
              rw [List.count_cons_of_ne (by simp)]
              exact Nat.le_trans isCount (Nat.le_add_left _ _)
            · cases isLetter : c.isAlpha with
              | true =>
                  rw [symbols_variable numeral (isLetter_of_isAlpha isLetter) (entryAt?_char isRole)]
                  refine ⟨Symbol.areCalled_cons rfl called, ?_⟩
                  rw [List.count_cons, Glyph.weight, Nat.add_comm]
                  refine Nat.add_le_add ?_ isCount
                  by_cases same : c = letter
                  · subst same
                    simp [isLetter]
                  · simp [same]
              | false =>
                  obtain ⟨noLetter, plain⟩ :=
                    visible_of_ofChar? (Glyph.ofChar?_of_role? isRole) isLetter numeral
                  obtain ⟨called, sameCount⟩ := areCalled_mark c called letter
                  rw [symbols_mark numeral noLetter plain]
                  exact ⟨called, by rw [sameCount]; exact Nat.le_trans isCount (Nat.le_add_left _ _)⟩

end Spelled

namespace Follows

/-- Where calls are completed no function waits for its argument. -/
theorem spelled (follows : Follows (.formula .called) letter state count text)
    (noBack : '\\' ∉ text) (noMark : Parked.mark ∉ text) : Spelled letter count text := by
  induction follows with
  | done count closes => exact .nil count
  | @glyph state next glyph rest role count isRole moves later ih =>
      rw [List.mem_append, not_or] at noBack noMark
      refine .glyph isRole ?_ ?_ ?_ (ih noBack.2 noMark.2)
      · rintro rfl
        obtain ⟨behind, isNext, -⟩ := Grammar.exists_of_step rfl moves
        obtain ⟨mode, limits, frames⟩ := state
        cases mode <;> cases isNext
      · rintro name rfl
        exact noBack.1 List.mem_cons_self
      · rintro parked rfl
        exact noMark.1 List.mem_cons_self

/-- No mark is left when no parked name is. -/
theorem mark_not_mem (follows : Follows (.formula .called) letter state count text)
    (noBack : '\\' ∉ text) (none : Parked.count text = 0) : Parked.mark ∉ text := by
  induction follows with
  | done count closes => exact List.not_mem_nil
  | @glyph state next glyph rest role count isRole moves later ih =>
      rw [List.mem_append, not_or] at noBack
      have noWord (name : Text) : glyph ≠ .word name := by
        rintro rfl
        exact noBack.1 List.mem_cons_self
      have noParked (parked : Parked) : glyph ≠ .call (.parked parked) := by
        rintro rfl
        have isRead : Parked.read? (parked.name ++ rest) = some (parked, rest) :=
          Parked.read?_eq_some_iff.2 rfl
        have counted : Parked.count (parked.name ++ rest) = 0 := none
        rw [Parked.name, List.cons_append] at isRead counted
        simp [Parked.count, isRead] at counted
      have noMark := mark_not_mem_source isRole noWord noParked
      rw [Parked.count_append_of_not_mem noMark] at none
      exact fun isMember => (List.mem_append.1 isMember).elim noMark (ih noBack.2 none)

end Follows

theorem Spelled.not_mem_backslash (spelled : Spelled letter count text) : '\\' ∉ text := by
  induction spelled with
  | nil count => exact List.not_mem_nil
  | @glyph glyph rest role count isRole applied noWord noParked later ih =>
      exact fun isMember => (List.mem_append.1 isMember).elim (Glyph.not_mem_source isRole noWord) ih

/-- The symbols of a legible formula whose calls are completed. -/
theorem Follows.areCalled_classify {limits : Limits}
    (follows : Follows (.formula .called) letter ⟨.idle, limits, []⟩ count text)
    (noBack : '\\' ∉ text) :
    Symbol.areCalled ((text.expandParked.resolveExponents .standard).flatten.classify .standard) =
        true ∧
      ((text.expandParked.resolveExponents .standard).flatten.classify .standard).count
        (.var letter) ≤ count := by
  have settled (text : Text) : IsSettled ⟨.idle, limits, []⟩ text := ⟨.inl rfl, nofun⟩
  have expanded := (follows.expandParked (settled text) noBack).1
  have noBackExpanded := plain_expandParked noBack
  have noMark := expanded.mark_not_mem noBackExpanded (parkedCount_expandParked text)
  have raised := (expanded.resolveExponents (settled _) noBackExpanded noMark).1
  have noMarkRaised : Parked.mark ∉ text.expandParked.resolveExponents .standard := by
    rw [← List.count_eq_zero, count_resolveExponents isForeign_mark, List.count_eq_zero]
    exact noMark
  have spelled := (raised.spelled (plain_raised noBack) noMarkRaised).joinGroups
  have flat := spelled.map_flatBracket
  have noBrace : '\x7b' ∉
      (text.expandParked.resolveExponents .standard).joinGroups.map flatBracket := by
    intro isMember
    obtain ⟨c, -, isBrace⟩ := List.mem_map.1 isMember
    unfold flatBracket at isBrace
    repeat' split at isBrace
    · cases isBrace
    · cases isBrace
    · rename_i noOpener _
      exact noOpener (.inl isBrace)
  have called := flat.areCalled_symbols noBrace
  have same : Text.symbols .standard (text.expandParked.resolveExponents .standard).flatten =
      Text.symbols .standard
        ((text.expandParked.resolveExponents .standard).joinGroups.map flatBracket) :=
    symbols_flatten_eq spelled.not_mem_backslash
  rw [classify, same]
  refine ⟨(Symbol.areCalled_multiplyAfter called.1 none).1, ?_⟩
  rw [Symbol.multiply, Symbol.count_var_multiplyAfter]
  exact called.2

end Text

end TexCalc

import Mathlib.Data.List.Basic
import Mathlib.Data.List.TakeWhile
import TexCalc.Proofs.Symbol.Conserved
import TexCalc.Proofs.Symbol.Reading
import TexCalc.Proofs.Vocabulary.History

/-!
# Names that are recognized

A name is recognized where a run of letters and digits, from some character of it up to its end,
spells an entry of the vocabulary.  A run is read from left to right, so that the longest of its
endings that is an entry is recognized.  In front of it there are letters that stand for themselves
and numerals, of which the first may have begun in front of the run, and the last may go on behind a
run without an entry.
-/

namespace TexCalc

namespace Vocabulary

variable {vocabulary : Vocabulary} {text rest : Text}

/-- What is found at some place is the entry of the whole run there. -/
theorem entryAt?_eq_some_iff {entry : Entry} :
    vocabulary.entryAt? text = some (entry, rest) ↔
      entry.name.text = text.takeWhile Char.isAlphanum ∧
        vocabulary.kindOf? entry.name.text = some entry.kind ∧
          rest = text.dropWhile Char.isAlphanum := by
  have all : (text.takeWhile Char.isAlphanum).all Char.isAlphanum = true := List.all_takeWhile
  have isFound := vocabulary.entryAt?_append all (Text.endsRun_dropWhile Char.isAlphanum text)
  rw [List.takeWhile_append_dropWhile] at isFound
  have spelling {entry : Entry} (isEntry : vocabulary.entries.find?
      (·.name.text == text.takeWhile Char.isAlphanum) = some entry) :
      entry.name.text = text.takeWhile Char.isAlphanum := by
    simpa using List.find?_some isEntry
  rw [isFound, Option.map_eq_some_iff]
  constructor
  · rintro ⟨_, isEntry, same⟩
    cases same
    have spelled := spelling isEntry
    refine ⟨spelled, ?_, rfl⟩
    rw [kindOf?, spelled, isEntry]
    rfl
  · rintro ⟨spelled, isKind, rfl⟩
    rw [kindOf?, spelled, Option.map_eq_some_iff] at isKind
    obtain ⟨other, isEntry, sameKind⟩ := isKind
    have sameName : other.name = entry.name :=
      Name.ext_text ((spelling isEntry).trans spelled.symm)
    refine ⟨other, isEntry, ?_⟩
    cases other
    cases entry
    cases sameName
    cases sameKind
    rfl

theorem isAlpha_of_entryAt? {c : Char} {entry : Entry} {after : Text}
    (found : vocabulary.entryAt? (c :: rest) = some (entry, after)) : c.isAlpha = true := by
  cases letter : c.isAlpha with
  | true => rfl
  | false =>
      rw [vocabulary.entryAt?_eq_none letter] at found
      cases found

theorem constantAt?_eq_some_iff (ordered : vocabulary.IsOrdered) {name : Name} :
    vocabulary.constantAt? text = some (name, rest) ↔
      name.text = text.takeWhile Char.isAlphanum ∧
        vocabulary.kindOf? name.text = some .constant ∧
          rest = text.dropWhile Char.isAlphanum := by
  have reading (name : Name) : name.after? text =
      if name.text = text.takeWhile Char.isAlphanum then some (text.dropWhile Char.isAlphanum)
      else none := by
    have all : (text.takeWhile Char.isAlphanum).all Char.isAlphanum = true := List.all_takeWhile
    have isRead := name.after?_append all (Text.endsRun_dropWhile Char.isAlphanum text)
    rwa [List.takeWhile_append_dropWhile] at isRead
  have found {name : Name} {rest : Text}
      (isFound : vocabulary.constantAt? text = some (name, rest)) :
      name.text = text.takeWhile Char.isAlphanum ∧
        vocabulary.kindOf? name.text = some .constant ∧
          rest = text.dropWhile Char.isAlphanum := by
    obtain ⟨_, isMember, matched⟩ := List.exists_of_findSome?_eq_some isFound
    rw [reading, Option.map_eq_some_iff] at matched
    obtain ⟨after, isAfter, same⟩ := matched
    cases same
    obtain ⟨spelled, isRest⟩ := Option.ite_none_right_eq_some.1 isAfter
    exact ⟨spelled, ordered.mem_namesOf_iff.1 isMember, (Option.some.inj isRest).symm⟩
  constructor
  · exact found
  · rintro ⟨spelled, isKind, rfl⟩
    cases isFound : vocabulary.constantAt? text with
    | none =>
        have unread := List.findSome?_eq_none_iff.1 isFound name (ordered.mem_namesOf_iff.2 isKind)
        rw [reading, if_pos spelled] at unread
        cases unread
    | some other =>
        obtain ⟨otherSpelled, _, isRest⟩ := found isFound
        have sameName : other.1 = name := Name.ext_text (otherSpelled.trans spelled.symm)
        rw [← sameName, ← isRest]

end Vocabulary

/-! ## Symbols of a text without backslashes -/

/-- Symbols that stand for no name with an entry: single letters and numerals. -/
def Symbol.isLetterOrNumeral : Symbol → Bool
  | var c => c.isAlpha
  | number digits => digits.all isNumeralChar
  | _ => false

namespace Text

variable {vocabulary : Vocabulary} {text run rest : Text}

theorem shown_of_not_mem (plain : '\\' ∉ text) :
    text.shown = text.filter (!isBlank ·) ∧ text.removed = [] := by
  induction text with
  | nil => rw [shown, removed, pieces]; exact ⟨rfl, rfl⟩
  | cons c text ih =>
      rw [List.mem_cons, not_or] at plain
      obtain ⟨isShown, noneRemoved⟩ := ih plain.2
      have other : c ≠ '\\' := Ne.symm plain.1
      have unnamed : Piece.removed? (.plain c) = none := if_neg other
      rw [shown, removed, pieces_cons other, List.filterMap_cons_none unnamed]
      refine ⟨?_, noneRemoved⟩
      cases blank : isBlank c with
      | true =>
          have hidden : Piece.shown? (.plain c) = none := if_pos (.inr blank)
          rw [List.filterMap_cons_none hidden, List.filter_cons_of_neg (by simp [blank])]
          exact isShown
      | false =>
          have kept : Piece.shown? (.plain c) = some c := if_neg (by simp [other, blank])
          rw [List.filterMap_cons_some kept, List.filter_cons_of_pos (by simp [blank])]
          exact congrArg (c :: ·) isShown

theorem ofSymbols_symbols (plain : '\\' ∉ text) :
    ofSymbols (text.symbols vocabulary) = text.filter (!isBlank ·) := by
  obtain ⟨shown, removed⟩ := shown_of_not_mem plain
  have account := text.account_symbols vocabulary
  have noLeftover := account.removed.trans removed
  have whole : Symbol.printed (text.symbols vocabulary) = text.symbols vocabulary := by
    refine List.filter_eq_self.2 fun symbol isMember => ?_
    rw [Option.isNone_iff_eq_none]
    exact List.filterMap_eq_nil_iff.1 noLeftover symbol isMember
  rw [← shown, ← account.shown, whole]

end Text

/-! ## One run -/

/-- The text of an entry, if there is one. -/
def Entry.spelling (found? : Option Entry) : Text :=
  found?.elim [] (·.name.text)

namespace Vocabulary

/-- No ending of the run that is in the vocabulary is longer than the name. -/
def IsLongestEnding (vocabulary : Vocabulary) (run name : Text) : Prop :=
  ∀ ending, ending <:+ run → vocabulary.contains ending = true → ending.length ≤ name.length

variable {vocabulary : Vocabulary} {run name : Text} {c : Char}

theorem IsLongestEnding.cons (longest : vocabulary.IsLongestEnding run name)
    (missing : vocabulary.contains (c :: run) = false) :
    vocabulary.IsLongestEnding (c :: run) name := by
  intro ending isEnding isName
  rcases List.suffix_cons_iff.1 isEnding with rfl | behind
  · rw [missing] at isName
    cases isName
  · exact longest ending behind isName

/-- Only what has the form of a name is in a vocabulary. -/
theorem contains_eq_false (noLetter : c.isAlpha = false) (rest : Text) :
    vocabulary.contains (c :: rest) = false := by
  rw [contains, Option.isSome_eq_false_iff, Option.isNone_iff_eq_none, kindOf?,
    Option.map_eq_none_iff, List.find?_eq_none]
  intro entry _ same
  obtain ⟨d, run, isCons, letter, _⟩ := entry.name.exists_eq_cons
  rw [eq_of_beq same] at isCons
  cases isCons
  rw [noLetter] at letter
  cases letter

theorem IsLongestEnding.append {digits : Text} (longest : vocabulary.IsLongestEnding run name)
    (all : digits.all Char.isDigit = true) : vocabulary.IsLongestEnding (digits ++ run) name := by
  induction digits with
  | nil => exact longest
  | cons c digits ih =>
      rw [List.all_cons, Bool.and_eq_true] at all
      exact (ih all.2).cons (contains_eq_false (isAlpha_eq_false_of_isDigit all.1) _)

end Vocabulary

/-- How a run of letters and digits is read: the symbols that belong to it, the entry at its end, if
there is one, and the symbols behind it.  A numeral may begin in front of the run, with the
characters of `start`, and may go on behind it. -/
structure RunReading (vocabulary : Vocabulary) (start run rest : Text) where
  /-- The symbols in front of the entry. -/
  inside : List Symbol
  found? : Option Entry
  /-- The symbols behind the run. -/
  behind : List Symbol
  /-- What the run has in front of the entry. -/
  front : Text
  /-- What the last numeral takes of the text behind the run. -/
  stop : Text
  /-- The text that the symbols behind the run are read from. -/
  after : Text
  run_eq : run = front ++ Entry.spelling found?
  rest_eq : rest = stop ++ after
  print_inside : Text.ofSymbols inside = start ++ (front ++ stop)
  print_behind : Text.ofSymbols behind = after.filter (!isBlank ·)
  isStart : start.all isNumeralChar = true
  isStop : stop.all isNumeralChar = true
  start_eq : start = [] ∨ run.head?.any Char.isDigit = true
  stop_eq : stop = [] ∨ found? = none ∧ run.getLast?.any Char.isDigit = true
  simple : inside.all Symbol.isLetterOrNumeral = true
  isEntry : ∀ entry, found? = some entry → vocabulary.kindOf? entry.name.text = some entry.kind
  longest : vocabulary.IsLongestEnding run (Entry.spelling found?)

namespace RunReading

variable {vocabulary : Vocabulary} {start run rest : Text}

/-- All symbols from the numeral in front of the run on. -/
def symbols (reading : RunReading vocabulary start run rest) : List Symbol :=
  reading.inside ++ ((reading.found?.map Symbol.ofEntry).toList ++ reading.behind)

/-- What remains of a run behind its last letter or digit. -/
def nil (plain : '\\' ∉ rest) : RunReading vocabulary [] [] rest where
  inside := []
  found? := none
  behind := rest.symbols vocabulary
  front := []
  stop := []
  after := rest
  run_eq := rfl
  rest_eq := rfl
  print_inside := rfl
  print_behind := Text.ofSymbols_symbols plain
  isStart := rfl
  isStop := rfl
  start_eq := .inl rfl
  stop_eq := .inl rfl
  simple := rfl
  isEntry := nofun
  longest := fun _ isEnding _ => isEnding.length_le

/-- A run that is an entry as a whole. -/
def ofEntry (entry : Entry) (isEntry : vocabulary.kindOf? entry.name.text = some entry.kind)
    (plain : '\\' ∉ rest) : RunReading vocabulary [] entry.name.text rest where
  inside := []
  found? := some entry
  behind := rest.symbols vocabulary
  front := []
  stop := []
  after := rest
  run_eq := rfl
  rest_eq := rfl
  print_inside := rfl
  print_behind := Text.ofSymbols_symbols plain
  isStart := rfl
  isStop := rfl
  start_eq := .inl rfl
  stop_eq := .inl rfl
  simple := rfl
  isEntry := fun _ same => Option.some.inj same ▸ isEntry
  longest := fun _ isEnding _ => isEnding.length_le

/-- A letter with which no entry begins that goes up to the end of the run. -/
def letter {c : Char} (isLetter : c.isAlpha = true)
    (missing : vocabulary.contains (c :: run) = false)
    (reading : RunReading vocabulary [] run rest) : RunReading vocabulary [] (c :: run) rest where
  inside := .var c :: reading.inside
  found? := reading.found?
  behind := reading.behind
  front := c :: reading.front
  stop := reading.stop
  after := reading.after
  run_eq := congrArg (c :: ·) reading.run_eq
  rest_eq := reading.rest_eq
  print_inside := congrArg (c :: ·) reading.print_inside
  print_behind := reading.print_behind
  isStart := rfl
  isStop := reading.isStop
  start_eq := .inl rfl
  stop_eq := reading.stop_eq.imp_right fun ends => ⟨ends.1, Text.any_getLast?_append [c] ends.2⟩
  simple := by rw [List.all_cons, reading.simple, Bool.and_true]; exact isLetter
  isEntry := reading.isEntry
  longest := reading.longest.cons missing

/-- A numeral that ends in the run. -/
def numeral {digits : Text} (isStart : start.all isNumeralChar = true)
    (all : digits.all Char.isDigit = true) (nonempty : digits ≠ [])
    (reading : RunReading vocabulary [] run rest) :
    RunReading vocabulary start (digits ++ run) rest where
  inside := .number (start ++ digits) :: reading.inside
  found? := reading.found?
  behind := reading.behind
  front := digits ++ reading.front
  stop := reading.stop
  after := reading.after
  run_eq := by rw [List.append_assoc, ← reading.run_eq]
  rest_eq := reading.rest_eq
  print_inside := by
    rw [Text.ofSymbols, List.flatMap_cons, ← Text.ofSymbols, reading.print_inside, Symbol.print,
      List.nil_append, List.append_assoc, List.append_assoc]
  print_behind := reading.print_behind
  isStart := isStart
  isStop := reading.isStop
  start_eq := .inr (by
    rw [List.head?_append_of_ne_nil _ nonempty]
    exact Text.any_head?_of_all all nonempty)
  stop_eq := reading.stop_eq.imp_right fun ends => ⟨ends.1, Text.any_getLast?_append digits ends.2⟩
  simple := by
    rw [List.all_cons, reading.simple, Symbol.isLetterOrNumeral, List.all_append, isStart,
      Text.all_isNumeralChar_of_isDigit all]
    rfl
  isEntry := reading.isEntry
  longest := reading.longest.append all

/-- A numeral that takes all of the run, and more where it can. -/
def throughout {digits : Text} (isStart : start.all isNumeralChar = true)
    (all : digits.all Char.isDigit = true) (nonempty : digits ≠ []) (plain : '\\' ∉ rest) :
    RunReading vocabulary start digits rest where
  inside := [.number (start ++ (digits ++ rest.takeWhile isNumeralChar))]
  found? := none
  behind := Text.symbols vocabulary (rest.dropWhile isNumeralChar)
  front := digits
  stop := rest.takeWhile isNumeralChar
  after := rest.dropWhile isNumeralChar
  run_eq := (List.append_nil digits).symm
  rest_eq := List.takeWhile_append_dropWhile.symm
  print_inside := List.append_nil _
  print_behind :=
    Text.ofSymbols_symbols fun isMember => plain ((List.dropWhile_sublist _).subset isMember)
  isStart := isStart
  isStop := List.all_takeWhile
  start_eq := .inr (Text.any_head?_of_all all nonempty)
  stop_eq := .inr ⟨rfl, Text.any_getLast?_of_all all nonempty⟩
  simple := by
    rw [List.all_cons, Symbol.isLetterOrNumeral, List.all_append, List.all_append, isStart,
      Text.all_isNumeralChar_of_isDigit all, List.all_takeWhile]
    rfl
  isEntry := nofun
  longest := by
    have longest : vocabulary.IsLongestEnding [] [] := fun _ isEnding _ => isEnding.length_le
    rw [← List.append_nil digits]
    exact longest.append all

/-- A numeral takes the digits with which the run begins, and goes on behind the run when there is
nothing else in it. -/
theorem exists_numeral {digits : Text} (isStart : start.all isNumeralChar = true)
    (all : digits.all Char.isDigit = true) (nonempty : digits ≠ [])
    (ends : run.endsRun isNumeralChar = true)
    (plain : '\\' ∉ rest) (reading : RunReading vocabulary [] run rest)
    (isRead : reading.symbols = Text.symbols vocabulary (run ++ rest)) :
    ∃ whole : RunReading vocabulary start (digits ++ run) rest, whole.symbols =
      .number (start ++ (digits ++ (run ++ rest)).takeWhile isNumeralChar) ::
        Text.symbols vocabulary ((digits ++ (run ++ rest)).dropWhile isNumeralChar) := by
  have numerals := Text.all_isNumeralChar_of_isDigit all
  cases run with
  | nil =>
      rw [List.nil_append, List.append_nil,
        List.takeWhile_append_of_pos (List.all_eq_true.1 numerals),
        List.dropWhile_append_of_pos (List.all_eq_true.1 numerals)]
      exact ⟨throughout isStart all nonempty plain, rfl⟩
  | cons c run =>
      have stillEnds : Text.endsRun isNumeralChar (c :: run ++ rest) = true := ends
      rw [Text.takeWhile_append_of_endsRun numerals stillEnds,
        Text.dropWhile_append_of_endsRun numerals stillEnds, ← isRead]
      exact ⟨numeral isStart all nonempty reading, rfl⟩

/-- The digits with which a run begins are what a numeral takes of it. -/
theorem exists_digits (all : run.all Char.isAlphanum = true) :
    ∃ digits letters : Text, run = digits ++ letters ∧ digits.all Char.isDigit = true ∧
      letters.endsRun isNumeralChar = true := by
  refine ⟨run.takeWhile isNumeralChar, run.dropWhile isNumeralChar,
    List.takeWhile_append_dropWhile.symm, ?_, Text.endsRun_dropWhile isNumeralChar run⟩
  rw [List.all_eq_true] at all ⊢
  intro c isMember
  have word := all c ((List.takeWhile_sublist _).subset isMember)
  have numeral := List.all_eq_true.1 List.all_takeWhile c isMember
  rw [isNumeralChar, Bool.or_eq_true, beq_iff_eq] at numeral
  rcases numeral with digit | rfl
  · exact digit
  · cases word

/-- Every run is read up to the longest of its endings that is an entry. -/
theorem exists_symbols_eq (vocabulary : Vocabulary) (all : run.all Char.isAlphanum = true)
    (ends : rest.endsRun Char.isAlphanum = true) (plain : '\\' ∉ rest) :
    ∃ reading : RunReading vocabulary [] run rest,
      reading.symbols = Text.symbols vocabulary (run ++ rest) := by
  induction length : run.length using Nat.strongRecOn generalizing run with
  | _ size ih =>
      cases run with
      | nil => exact ⟨nil plain, rfl⟩
      | cons c run =>
          have whole := all
          rw [List.all_cons, Bool.and_eq_true] at all
          have later {ending : Text} (isEnding : ending <:+ run) :
              ∃ reading : RunReading vocabulary [] ending rest,
                reading.symbols = Text.symbols vocabulary (ending ++ rest) := by
            refine ih ending.length ?_ ?_ rfl
            · rw [← length, List.length_cons]
              exact Nat.lt_succ_of_le isEnding.length_le
            · exact List.all_eq_true.2 fun d isMember =>
                List.all_eq_true.1 all.2 d (isEnding.subset isMember)
          cases digit : c.isDigit with
          | true =>
              obtain ⟨digits, letters, rfl, allDigits, endsLetters⟩ := exists_digits all.2
              obtain ⟨reading, isRead⟩ := later (List.suffix_append digits letters)
              have allDigits : (c :: digits).all Char.isDigit = true := by
                rw [List.all_cons, digit, allDigits]
                rfl
              have begins : beginsNumeral c (digits ++ letters ++ rest) = true := by
                rw [beginsNumeral, digit, Bool.true_or]
              have isNumeral : isNumeralChar c = true := by
                rw [isNumeralChar, digit, Bool.true_or]
              have found := exists_numeral List.all_nil allDigits (List.cons_ne_nil c digits)
                endsLetters plain reading isRead
              simp only [List.cons_append, List.nil_append, List.takeWhile_cons_of_pos isNumeral,
                List.dropWhile_cons_of_pos isNumeral] at found
              rwa [List.cons_append, Text.symbols_numeral begins, List.append_assoc]
          | false =>
              have isLetter : c.isAlpha = true := by
                simpa [Char.isAlphanum, digit] using all.1
              have noNumeral := not_beginsNumeral_of_isAlpha isLetter (run ++ rest)
              have symbol := TexCalc.isLetter_of_isAlpha isLetter
              cases found : vocabulary.entryAt? (c :: (run ++ rest)) with
              | some reached =>
                  obtain ⟨entry, after⟩ := reached
                  obtain ⟨spelled, isEntry, isRest⟩ := Vocabulary.entryAt?_eq_some_iff.1 found
                  rw [← List.cons_append] at spelled isRest
                  rw [Text.takeWhile_append_of_endsRun whole ends] at spelled
                  rw [Text.dropWhile_append_of_endsRun whole ends] at isRest
                  rw [List.cons_append, Text.symbols_entry noNumeral symbol found, isRest,
                    ← spelled]
                  exact ⟨ofEntry entry isEntry plain, rfl⟩
              | none =>
                  obtain ⟨reading, isRead⟩ := later (List.suffix_refl run)
                  have missing : vocabulary.contains (c :: run) = false := by
                    rw [← List.cons_append, vocabulary.entryAt?_append whole ends,
                      Option.map_eq_none_iff] at found
                    rw [Vocabulary.contains, Vocabulary.kindOf?, found]
                    rfl
                  rw [List.cons_append, Text.symbols_variable noNumeral symbol found, ← isRead]
                  exact ⟨letter isLetter missing reading, rfl⟩

end RunReading

/-! ## Runs of a text -/

namespace Text

variable {vocabulary : Vocabulary} {text lead run rest : Text}

theorem filter_eq_of_visible (visible : ∀ c ∈ text, isBlank c = false) :
    text.filter (!isBlank ·) = text := by
  refine List.filter_eq_self.2 fun c isMember => ?_
  rw [visible c isMember]
  rfl

theorem ofSymbols_number {digits : Text} (all : digits.all isNumeralChar = true) :
    ofSymbols [.number digits] = digits.filter (!isBlank ·) := by
  rw [filter_eq_of_visible, ofSymbols, List.flatMap_singleton, Symbol.print]
  exact fun c isMember => (visible_of_isNumeralChar (List.all_eq_true.1 all c isMember)).1

/-- A character at which neither a numeral nor an entry begins gives one symbol, or none when it is
blank. -/
theorem exists_symbols_single (vocabulary : Vocabulary) {c : Char} (plain : c ≠ '\\')
    (noNumeral : ¬ beginsNumeral c rest = true)
    (noEntry : isLetter c = true → vocabulary.entryAt? (c :: rest) = none) :
    ∃ here : List Symbol, symbols vocabulary (c :: rest) = here ++ symbols vocabulary rest ∧
      ofSymbols here = [c].filter (!isBlank ·) := by
  cases letter : isLetter c with
  | true =>
      refine ⟨[.var c], symbols_variable noNumeral letter (noEntry letter), ?_⟩
      rw [List.filter_cons_of_pos (by simp [(visible_of_isLetter letter).1])]
      rfl
  | false =>
      rw [symbols, if_neg noNumeral, if_neg (by simp [letter]), if_neg plain]
      cases blank : isBlank c with
      | true =>
          refine ⟨[], rfl, ?_⟩
          rw [List.filter_cons_of_neg (by simp [blank])]
          rfl
      | false =>
          refine ⟨[.ofPunctuation c], rfl, ?_⟩
          rw [List.filter_cons_of_pos (by simp [blank]), ofSymbols, List.flatMap_singleton,
            Symbol.print_ofPunctuation]
          rfl

/-- The symbols of a text around one of its runs: those that are read from the text in front of the
run, up to a numeral that goes on in the run, and those of the run and of what is behind it. -/
def IsReadAround (vocabulary : Vocabulary) (lead run rest : Text) : Prop :=
  ∃ (ahead start : Text) (before : List Symbol) (reading : RunReading vocabulary start run rest),
    lead = ahead ++ start ∧ ofSymbols before = ahead.filter (!isBlank ·) ∧
      symbols vocabulary (lead ++ (run ++ rest)) = before ++ reading.symbols

namespace IsReadAround

theorem append {taken : Text} {here : List Symbol} (later : IsReadAround vocabulary lead run rest)
    (isRead : symbols vocabulary (taken ++ (lead ++ (run ++ rest))) =
      here ++ symbols vocabulary (lead ++ (run ++ rest)))
    (isPrinted : ofSymbols here = taken.filter (!isBlank ·)) :
    IsReadAround vocabulary (taken ++ lead) run rest := by
  obtain ⟨ahead, start, before, reading, rfl, printed, symbols⟩ := later
  refine ⟨taken ++ ahead, start, here ++ before, reading, ?_, ?_, ?_⟩
  · rw [List.append_assoc]
  · rw [ofSymbols, List.flatMap_append, ← ofSymbols, ← ofSymbols, isPrinted, printed,
      List.filter_append]
  · rw [List.append_assoc, isRead, symbols, List.append_assoc]

variable {c : Char}

/-- A numeral that ends in front of the run. -/
theorem numeral (begins : beginsNumeral c (lead ++ (run ++ rest)) = true)
    (stops : lead.dropWhile isNumeralChar ≠ [])
    (later : IsReadAround vocabulary (lead.dropWhile isNumeralChar) run rest) :
    IsReadAround vocabulary (c :: lead) run rest := by
  obtain ⟨isTaken, isLeft⟩ := takeWhile_append_of_ne_nil stops (run ++ rest)
  have isRead : symbols vocabulary (c :: (lead ++ (run ++ rest))) = _ := symbols_numeral begins
  rw [isTaken, isLeft] at isRead
  have split : (c :: lead.takeWhile isNumeralChar) ++ lead.dropWhile isNumeralChar = c :: lead := by
    rw [List.cons_append, List.takeWhile_append_dropWhile]
  have numerals : (c :: lead.takeWhile isNumeralChar).all isNumeralChar = true := by
    rw [List.all_cons, isNumeralChar_of_beginsNumeral begins, List.all_takeWhile]
    rfl
  rw [← split]
  refine later.append ?_ (ofSymbols_number numerals)
  rw [← List.append_assoc, split]
  exact isRead

/-- An entry that ends in front of the run. -/
theorem entry {entry : Entry} {after : Text}
    (noNumeral : ¬ beginsNumeral c (lead ++ (run ++ rest)) = true)
    (found : vocabulary.entryAt? (c :: (lead ++ (run ++ rest))) = some (entry, after))
    (stops : (c :: lead).dropWhile Char.isAlphanum ≠ [])
    (later : IsReadAround vocabulary ((c :: lead).dropWhile Char.isAlphanum) run rest) :
    IsReadAround vocabulary (c :: lead) run rest := by
  obtain ⟨isTaken, isLeft⟩ := takeWhile_append_of_ne_nil stops (run ++ rest)
  obtain ⟨spelled, _, isRest⟩ := Vocabulary.entryAt?_eq_some_iff.1 found
  rw [← List.cons_append] at spelled isRest
  rw [isTaken] at spelled
  rw [isLeft] at isRest
  have letter := isLetter_of_isAlpha (Vocabulary.isAlpha_of_entryAt? found)
  have isRead := symbols_entry noNumeral letter found
  have split : entry.name.text ++ (c :: lead).dropWhile Char.isAlphanum = c :: lead := by
    rw [spelled, List.takeWhile_append_dropWhile]
  have isPrinted : ofSymbols [Symbol.ofEntry entry] = entry.name.text.filter (!isBlank ·) := by
    rw [ofSymbols, List.flatMap_singleton, filter_eq_of_visible, Symbol.print_ofEntry]
    intro d isMember
    exact isBlank_eq_false_of_isAlphanum (List.all_eq_true.1 entry.name.all_isAlphanum d isMember)
  rw [← split]
  refine later.append ?_ isPrinted
  rw [← List.append_assoc, split, ← isRest]
  exact isRead

end IsReadAround

/-- A numeral that is not ended in front of the run goes on in it if the run begins with digits. -/
theorem isReadAround_numeral {c : Char} (begins : beginsNumeral c (lead ++ (run ++ rest)) = true)
    (numerals : lead.all isNumeralChar = true) (nonempty : run ≠ [])
    (all : run.all Char.isAlphanum = true) (ends : rest.endsRun Char.isAlphanum = true)
    (plain : '\\' ∉ rest) : IsReadAround vocabulary (c :: lead) run rest := by
  have whole : (c :: lead).all isNumeralChar = true := by
    rw [List.all_cons, isNumeralChar_of_beginsNumeral begins, numerals]
    rfl
  have isRead : symbols vocabulary (c :: (lead ++ (run ++ rest))) =
      .number (c :: (lead ++ (run ++ rest).takeWhile isNumeralChar)) ::
        symbols vocabulary ((run ++ rest).dropWhile isNumeralChar) := by
    rw [symbols_numeral begins, List.takeWhile_append_of_pos (List.all_eq_true.1 numerals),
      List.dropWhile_append_of_pos (List.all_eq_true.1 numerals)]
  obtain ⟨digits, letters, rfl, allDigits, endsLetters⟩ := RunReading.exists_digits all
  rw [List.all_append, Bool.and_eq_true] at all
  obtain ⟨reading, isReading⟩ := RunReading.exists_symbols_eq vocabulary all.2 ends plain
  by_cases noDigits : digits = []
  · subst noDigits
    have atLetters : (letters ++ rest).endsRun isNumeralChar = true := by
      obtain ⟨d, letters, rfl⟩ := List.exists_cons_of_ne_nil nonempty
      exact endsLetters
    have around : IsReadAround vocabulary [] letters rest :=
      ⟨[], [], [], reading, rfl, rfl, isReading.symm⟩
    rw [List.nil_append, takeWhile_eq_nil_of_endsRun atLetters,
      dropWhile_eq_self_of_endsRun atLetters, List.append_nil] at isRead
    have goesOn : IsReadAround vocabulary (c :: lead ++ []) letters rest := by
      refine around.append ?_ (ofSymbols_number whole)
      exact isRead
    rwa [List.append_nil] at goesOn
  · obtain ⟨through, isThrough⟩ :=
      RunReading.exists_numeral whole allDigits noDigits endsLetters plain reading isReading
    refine ⟨[], c :: lead, [], through, rfl, rfl, ?_⟩
    rw [List.cons_append, isRead, List.nil_append, isThrough, List.append_assoc]
    rfl

/-- Every run of a text is read as a run, whatever stands in front of it. -/
theorem isReadAround (vocabulary : Vocabulary) (nonempty : run ≠ [])
    (all : run.all Char.isAlphanum = true)
    (begins : lead.getLast?.all (!Char.isAlphanum ·) = true)
    (ends : rest.endsRun Char.isAlphanum = true) (plain : '\\' ∉ lead ++ (run ++ rest)) :
    IsReadAround vocabulary lead run rest := by
  have plainRest : '\\' ∉ rest := fun isMember =>
    plain (List.mem_append_right _ (List.mem_append_right _ isMember))
  induction length : lead.length using Nat.strongRecOn generalizing lead with
  | _ size ih =>
      cases lead with
      | nil =>
          obtain ⟨reading, isRead⟩ := RunReading.exists_symbols_eq vocabulary all ends plainRest
          exact ⟨[], [], [], reading, rfl, rfl, isRead.symm⟩
      | cons c lead =>
          have later {ending : Text} (isEnding : ending <:+ lead) :
              IsReadAround vocabulary ending run rest := by
            have isLater : ending <:+ c :: lead := isEnding.trans (List.suffix_cons c lead)
            refine ih ending.length ?_ (all_getLast?_of_suffix begins isLater) ?_ rfl
            · rw [← length, List.length_cons]
              exact Nat.lt_succ_of_le isEnding.length_le
            · rw [List.mem_append] at plain ⊢
              exact fun isMember => plain (isMember.imp_left (isLater.subset ·))
          have noBackslash : c ≠ '\\' := by
            rintro rfl
            exact plain List.mem_cons_self
          cases numeral : beginsNumeral c (lead ++ (run ++ rest)) with
          | true =>
              cases numerals : lead.all isNumeralChar with
              | true => exact isReadAround_numeral numeral numerals nonempty all ends plainRest
              | false =>
                  have stops : lead.dropWhile isNumeralChar ≠ [] := by
                    intro nothing
                    rw [List.all_eq_true.2 (List.dropWhile_eq_nil_iff.1 nothing)] at numerals
                    cases numerals
                  exact .numeral numeral stops (later (List.dropWhile_suffix _))
          | false =>
              have noNumeral : ¬ beginsNumeral c (lead ++ (run ++ rest)) = true := by
                simp [numeral]
              cases found : vocabulary.entryAt? (c :: (lead ++ (run ++ rest))) with
              | some reached =>
                  have stops := dropWhile_ne_nil begins (List.cons_ne_nil c lead)
                  refine .entry noNumeral found stops (later ?_)
                  have word : c.isAlphanum = true := by
                    rw [Char.isAlphanum, Vocabulary.isAlpha_of_entryAt? found, Bool.true_or]
                  rw [List.dropWhile_cons_of_pos word]
                  exact List.dropWhile_suffix _
              | none =>
                  obtain ⟨here, isRead, isPrinted⟩ :=
                    exists_symbols_single vocabulary noBackslash noNumeral fun _ => found
                  exact (later (List.suffix_refl lead)).append isRead isPrinted

end Text

/-- Whichever names were entered, an entry is found where the whole run from that place on spells
one, and a constant where it spells one of that kind.  In a text without backslashes every run of
letters and digits gives at most one entry, the longest of its endings that the vocabulary has.  In
front of the entry it gives letters and numerals, of which the first may have begun in front of the
run; a numeral goes on behind a run only if that has no entry. -/
theorem Vocabulary.recognizes_runs (insertions : List (Text × NameKind)) :
    let vocabulary := empty.enterAll insertions
    (∀ text entry rest, vocabulary.entryAt? text = some (entry, rest) ↔
        entry.name.text = text.takeWhile Char.isAlphanum ∧
          vocabulary.kindOf? entry.name.text = some entry.kind ∧
            rest = text.dropWhile Char.isAlphanum) ∧
      (∀ text name rest, vocabulary.constantAt? text = some (name, rest) ↔
        name.text = text.takeWhile Char.isAlphanum ∧
          vocabulary.kindOf? name.text = some .constant ∧
            rest = text.dropWhile Char.isAlphanum) ∧
      ∀ lead run rest : Text, run ≠ [] → run.all Char.isAlphanum = true →
        lead.getLast?.all (!Char.isAlphanum ·) = true → rest.endsRun Char.isAlphanum = true →
        '\\' ∉ lead ++ (run ++ rest) →
          ∃ (ahead start : Text) (before : List Symbol)
            (reading : RunReading vocabulary start run rest),
            lead = ahead ++ start ∧ Text.ofSymbols before = ahead.filter (!isBlank ·) ∧
              (lead ++ (run ++ rest)).classify vocabulary =
                Symbol.multiply Symbol.joinsNames (before ++ reading.symbols) := by
  intro vocabulary
  have ordered : vocabulary.IsOrdered := isOrdered_empty.enterAll insertions
  refine ⟨fun _ _ _ => entryAt?_eq_some_iff, fun _ _ _ => constantAt?_eq_some_iff ordered, ?_⟩
  intro lead run rest nonempty all begins ends plain
  obtain ⟨ahead, start, before, reading, split, printed, isRead⟩ :=
    Text.isReadAround vocabulary nonempty all begins ends plain
  refine ⟨ahead, start, before, reading, split, printed, ?_⟩
  rw [Text.classify, isRead]

/-- The numeral in front goes on in the run, and the constant `in` is part of a longer ending. -/
theorem Vocabulary.recognizes_runs_of_sine :
    let vocabulary := empty.enterAll [("in".toList, .constant), ("sin".toList, .function)]
    (∃ (ahead start : Text) (before : List Symbol)
        (reading : RunReading vocabulary start "5a1sin".toList "(x)".toList),
        "2+1.".toList = ahead ++ start ∧ Text.ofSymbols before = ahead.filter (!isBlank ·) ∧
          Text.classify vocabulary ("2+1.".toList ++ ("5a1sin".toList ++ "(x)".toList)) =
            Symbol.multiply Symbol.joinsNames (before ++ reading.symbols)) ∧
      Text.classify vocabulary ("2+1.".toList ++ ("5a1sin".toList ++ "(x)".toList)) =
        [.number "2".toList, .operator '+', .number "1.5".toList, .var 'a', .number "1".toList,
          .function "sin".toList, .delimiter '(', .var 'x', .delimiter ')'] := by
  have recognized := (recognizes_runs [("in".toList, .constant), ("sin".toList, .function)]).2.2
  refine ⟨recognized _ _ _ ?_ ?_ ?_ ?_ ?_, ?_⟩ <;> decide +kernel

end TexCalc

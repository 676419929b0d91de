import TexCalc.Proofs.Legible.Expanded

/-!
# Powers of a legible formula

The base of a power is a run of letters, digits and points, in which no function is named, and its
exponent is a group, a constant or a single character.
-/

namespace TexCalc

namespace Text

variable {letter : Char} {mode behind : Mode} {limits : Limits} {frames : List Frame}
  {count first second : Nat} {run text tail new rest script : Text} {state : State} {glyph : Glyph}
  {role : Role} {exponent : Cut}

/-! ## Runs -/

/-- A digit keeps what is behind it away from the letters in front of it. -/
theorem standsFor_of_digit (digit : run.getLast?.any Char.isDigit = true)
    (untouched : new.touchesMark = false) : (run ++ new).StandsFor (run ++ tail) := by
  induction run with
  | nil => cases digit
  | cons c run ih =>
      cases run with
      | cons d run => exact (ih digit).cons c
      | nil =>
          have isDigit : c.isDigit = true := digit
          have noLetter := isAlpha_eq_false_of_isDigit isDigit
          have word : c.isAlphanum = true := by simp [Char.isAlphanum, isDigit]
          constructor
          · simp [noLetter]
          · exact id
          · simp [touchesMark_cons, word, untouched]
          · simp [isApplied, skipBlanks_cons (isAsciiBlank_eq_false_of_isAlphanum word),
              Bracket.ofArgument?_of_isAlphanum word]

/-- In no name of the standard vocabulary a digit has the letter `e` behind it. -/
theorem not_digit_of_name {name : Name} {kind : NameKind}
    (isMember : name ∈ Vocabulary.standard.namesOf kind) (isText : name.text = run ++ 'e' :: rest) :
    run.getLast?.any Char.isDigit = false := by
  have digitsLast : ∀ entry ∈ Vocabulary.standard.entries,
      (entry.name.text.dropWhile (!Char.isDigit ·)).all Char.isDigit = true := by decide +kernel
  obtain ⟨entry, isEntry, rfl⟩ := List.mem_map.1 isMember
  have all := digitsLast entry (List.mem_filter.1 isEntry).1
  rw [isText] at all
  clear isText
  rw [Bool.eq_false_iff]
  intro digit
  suffices isLeft : 'e' ∈ (run ++ 'e' :: rest).dropWhile (!Char.isDigit ·) from
    absurd (List.all_eq_true.1 all _ isLeft) (by decide)
  clear all
  induction run with
  | nil => cases digit
  | cons c run ih =>
      rw [List.cons_append, List.dropWhile_cons]
      cases run with
      | nil =>
          have isDigit : c.isDigit = true := digit
          simp [isDigit]
      | cons d run =>
          split
          · exact ih digit
          · simp

/-- No name goes on behind a run that ends there. -/
theorem eq_nil_of_source {excess : Text} {c : Char} (isRole : glyph.role? rest = some role)
    (base : isBaseChar c = true) (isSource : glyph.source = c :: run ++ excess)
    (apart : (excess ++ rest).endsRun isBaseChar = true ∨
      (c :: run).getLast?.any Char.isDigit = true ∧ (excess ++ rest).head? = some 'e') :
    excess = [] := by
  cases excess with
  | nil => rfl
  | cons d excess =>
      have noName {name : Name} {kind : NameKind}
          (isMember : name ∈ Vocabulary.standard.namesOf kind)
          (isText : name.text = c :: run ++ d :: excess) : False := by
        rcases apart with ends | ⟨digit, isEuler⟩
        · have word := name.all_isAlphanum
          have isWord := List.all_eq_true.1 word d (by simp [isText])
          simp [endsRun, isBaseChar, isWord] at ends
        · cases isEuler
          rw [not_digit_of_name isMember isText] at digit
          cases digit
      cases glyph with
      | char b => simp [Glyph.source] at isSource
      | word name =>
          cases (List.cons.inj isSource).1
          cases base
      | value name => exact (noName (Glyph.exists_value isRole).2.1 isSource).elim
      | call callable =>
          cases callable with
          | parked waiting =>
              cases (List.cons.inj isSource).1
              cases base
          | function name =>
              obtain ⟨-, isStandard, -⟩ := Glyph.exists_call isRole
              exact (noName (of_decide_eq_true isStandard) isSource).elim

theorem isApplied_of_run (nonempty : run ≠ []) (all : run.all isBaseChar = true) :
    (run ++ tail).isApplied = false := by
  cases run with
  | nil => exact absurd rfl nonempty
  | cons c run =>
      have base : isBaseChar c = true := List.all_eq_true.1 all c List.mem_cons_self
      rw [isBaseChar, Bool.or_eq_true, beq_iff_eq] at base
      rcases base with word | rfl
      · simp [isApplied, skipBlanks_cons (isAsciiBlank_eq_false_of_isAlphanum word),
          Bracket.ofArgument?_of_isAlphanum word]
      · rfl

/-- What may come behind a run in the place of something else: what stands for it, and behind a digit,
in the place of `e`, whatever touches no parked name. -/
def MayReplace (run old new : Text) : Prop :=
  new.StandsFor old ∨ run.getLast?.any Char.isDigit = true ∧ old.head? = some 'e' ∧
    new.touchesMark = false

theorem MayReplace.append (may : MayReplace run tail new) : (run ++ new).StandsFor (run ++ tail) :=
  may.elim (·.append run) fun digit => standsFor_of_digit digit.1 digit.2.2

namespace Follows

/-- The last glyph of a run. -/
theorem glyph_of_mayReplace {stage : Stage} {next : State} (isRole : glyph.role? tail = some role)
    (noWord : ∀ name, glyph ≠ .word name)
    (moves : (Grammar.formula stage).step state role = some next)
    (may : MayReplace glyph.source tail new) (follows : Follows (.formula stage) letter next count new) :
    Follows (.formula stage) letter state (glyph.weight letter + count) (glyph.source ++ new) := by
  rcases may with stands | ⟨digit, isEuler, -⟩
  · exact .glyph_of_standsFor isRole moves follows stands
  · -- A digit keeps its role, and no name has a letter right behind it.
    cases glyph with
    | char c =>
        have noLetter : c.isAlpha = false := isAlpha_eq_false_of_isDigit digit
        rw [Glyph.role?_of_not_isAlpha noLetter] at isRole
        exact .glyph ((Glyph.role?_of_not_isAlpha noLetter new).trans isRole) moves follows
    | word name => exact absurd rfl (noWord name)
    | _ =>
        have ends := Glyph.endsRun_of_role? isRole (by simp) (by simp)
        rw [endsRun, isEuler] at ends
        cases ends

/-- A run in front of something else may have something else behind it. -/
theorem exists_of_run (isSettled : IsSettled ⟨mode, limits, frames⟩ (run ++ tail))
    (all : run.all isBaseChar = true)
    (apart : tail.endsRun isBaseChar = true ∨
      run.getLast?.any Char.isDigit = true ∧ tail.head? = some 'e')
    (follows : Follows (.formula .called) letter ⟨mode, limits, frames⟩ count (run ++ tail)) :
    ∃ first second behind, first + second = count ∧ IsSettled ⟨behind, limits, frames⟩ tail ∧
      Follows (.formula .called) letter ⟨behind, limits, frames⟩ second tail ∧
        ∀ {frames' : List Frame} {new : Text} {more : Nat}, MayReplace run tail new →
          Follows (.formula .called) letter ⟨behind, limits, frames'⟩ more new →
            Follows (.formula .called) letter ⟨mode, limits, frames'⟩ (first + more) (run ++ new) := by
  generalize whole : run ++ tail = text at isSettled follows
  generalize isState : (⟨mode, limits, frames⟩ : State) = state at isSettled follows
  induction follows generalizing mode run with
  | @done mode' _ count closes =>
      cases isState
      obtain ⟨rfl, rfl⟩ := List.append_eq_nil_iff.1 whole
      exact ⟨0, count, _, Nat.zero_add count, isSettled, .done count closes,
        fun _ follows => by simpa using follows⟩
  | @glyph state next glyph rest role count isRole moves later ih =>
      subst isState
      cases run with
      | nil =>
          obtain rfl : tail = _ := whole
          exact ⟨0, _, mode, Nat.zero_add _, isSettled, .glyph isRole moves later,
            fun _ follows => by simpa using follows⟩
      | cons c run =>
          have base : isBaseChar c = true := List.all_eq_true.1 all c List.mem_cons_self
          have noWord (name : Text) : glyph ≠ .word name := by
            rintro rfl
            obtain ⟨rfl, -⟩ := List.cons.inj whole
            cases base
          have isPlain : role.isBracket = false := by
            rw [Bool.eq_false_iff]
            intro isBracket
            rcases Glyph.eq_char_of_isBracket isRole isBracket with
              ⟨bracket, rfl, rfl⟩ | ⟨bracket, rfl, rfl⟩
            all_goals
              obtain ⟨rfl, -⟩ := List.cons.inj whole
              cases bracket <;> cases base
          obtain ⟨mode', isNext, rfl⟩ := Grammar.exists_of_step isPlain moves
          have settled := isSettled.step_called isRole noWord moves
          have moved (frames' : List Frame) := Grammar.step_of_next isPlain isNext frames'
          -- The run does not end inside the glyph.
          obtain ⟨behind, isRun, rfl⟩ : ∃ behind, c :: run = glyph.source ++ behind ∧
              rest = behind ++ tail := by
            rcases List.append_eq_append_iff.1 whole with
              ⟨excess, isSource, rfl⟩ | ⟨behind, isRun, isRest⟩
            · obtain rfl := eq_nil_of_source isRole base isSource apart
              exact ⟨[], by simpa using isSource.symm, rfl⟩
            · exact ⟨behind, isRun, isRest⟩
          cases behind with
          | nil =>
              refine ⟨glyph.weight letter, count, mode', rfl, settled, later, fun may follows => ?_⟩
              rw [isRun, List.append_nil] at may ⊢
              exact .glyph_of_mayReplace isRole noWord (moved _) may follows
          | cons d behind =>
              have last : (c :: run).getLast? = (d :: behind).getLast? := by
                rw [isRun, List.getLast?_append, List.getLast?_cons]
                rfl
              have allBehind : (d :: behind).all isBaseChar = true := by
                rw [isRun, List.all_append, Bool.and_eq_true] at all
                exact all.2
              rw [last] at apart
              obtain ⟨first, second, mode'', isSum, settled', follows, leads⟩ :=
                ih allBehind apart rfl rfl settled
              refine ⟨glyph.weight letter + first, second, mode'', by omega, settled', follows,
                fun may follows => ?_⟩
              rw [MayReplace, last] at may
              rw [isRun, List.append_assoc, Nat.add_assoc]
              exact .glyph_of_standsFor isRole (moved _) (leads may follows) (MayReplace.append may)

/-! ## Exponents -/

/-- The exponent that is read behind a `^` is in parentheses or a single glyph. -/
theorem exists_exponent
    (follows : Follows (.formula .called) letter ⟨.exponent, limits, frames⟩ count text)
    (found : text.exponent? .standard = some exponent) :
    ∃ first second, first + second = count ∧
      Follows (.formula .called) letter ⟨.exponent, limits, []⟩ first exponent.text ∧
        Follows (.formula .called) letter ⟨.idle, limits, frames⟩ second exponent.rest ∧
          (exponent.text.all Char.isAlphanum = true ∨ ∃ inside,
            exponent.text = parenthesized inside ∧
              Follows (.formula .called) letter ⟨.idle, limits, []⟩ first inside) := by
  rcases follows.exponent?_cases (fun _ => rfl) found with
    ⟨bracket, rest, group, fixed, start, isGroup, rfl⟩ |
    ⟨glyph, role, behind, later, start, isText, isWord, isRole, isMember, isNext, rfl, isRest⟩
  · have skipped := follows.skipBlanks
    rw [start] at skipped
    obtain ⟨resume, deeper, group', first, second, opens, isGroup', isSum, isInside, isRest⟩ :=
      exists_group skipped
    cases isGroup.symm.trans isGroup'
    cases opens
    obtain ⟨inside, isWrap, follows⟩ := isInside.exists_wrap rfl
    refine ⟨first, second, isSum, ?_, isRest, .inr ⟨inside, isWrap, follows⟩⟩
    have wrapped : Follows (.formula .called) letter ⟨.exponent, limits, []⟩ (first + 0)
        (group.inside.wrap ++ []) := wrap_append rfl rfl isInside ended
    simpa using wrapped
  · simp only [List.mem_cons, List.not_mem_nil, or_false] at isMember
    have noCall (applied : Bool) : role ≠ .call applied := by
      rintro rfl
      simp at isMember
    have isPlain : role.isBracket = false := by rcases isMember with rfl | rfl | rfl | rfl <;> rfl
    have isBehind : behind = .idle ∨ behind = .euler := by
      rcases isMember with rfl | rfl | rfl | rfl <;> cases isNext <;> simp
    have closes : (Grammar.formula .called).closes behind = true := by
      rcases isBehind with rfl | rfl <;> rfl
    refine ⟨glyph.weight letter, later, rfl, ?_, ?_, .inl (isText ▸ isWord)⟩
    · have single : Follows (.formula .called) letter ⟨.exponent, limits, []⟩
          (glyph.weight letter + 0) (glyph.source ++ []) :=
        .glyph (Glyph.role?_of_prefix isRole noCall List.nil_prefix)
          (Grammar.step_of_next isPlain isNext []) (.done 0 closes)
      rw [isText]
      simpa using single
    · rcases isBehind with rfl | rfl
      · exact isRest
      · exact isRest.widen .euler

/-- Where a caret follows a letter, a digit or a point, nothing was expected. -/
theorem caret_of_run (isSettled : IsSettled ⟨mode, limits, frames⟩ tail)
    (isScript : tail.skipBlanks = '^' :: script)
    (follows : Follows (.formula .called) letter ⟨mode, limits, frames⟩ count tail) :
    mode = .idle ∧ Follows (.formula .called) letter ⟨.exponent, limits, frames⟩ count script := by
  have skipped := follows.skipBlanks
  rw [isScript] at skipped
  obtain ⟨role, next, isRole, moves, later⟩ :=
    skipped.exists_char (by decide) (by decide) (by decide)
  cases isRole
  obtain ⟨behind, isNext, rfl⟩ := Grammar.exists_of_step rfl moves
  rcases isSettled.mode with isMode | ⟨-, applied⟩
  · cases mode with
    | idle =>
        cases isNext
        exact ⟨rfl, later⟩
    | exponent | euler => cases isNext
    | _ => cases isMode
  · rw [isApplied, isScript] at applied
    cases applied

/-- Only a group that is an exponent already is the argument of the exponential itself. -/
theorem exists_exponential (isSimple : text.all Char.isAlphanum = true ∨ ∃ inside,
      text = parenthesized inside ∧ Follows (.formula .called) letter ⟨.idle, limits, []⟩ count inside)
    (follows : Follows (.formula .called) letter ⟨.exponent, limits, []⟩ count text) :
    ∃ inside, text.exponential = "exp".toList ++ parenthesized inside ∧
      Follows (.formula .called) letter ⟨.idle, limits, []⟩ count inside := by
  rw [exponential]
  split
  · rename_i enclosed
    rcases isSimple with word | ⟨inside, rfl, isInside⟩
    · obtain ⟨lead, trail, split, -, -⟩ := exists_trim_eq text
      unfold isEnclosed at enclosed
      split at enclosed
      · rename_i start
        rw [start] at split
        exact absurd (List.all_eq_true.1 word '(' (by rw [split]; simp)) (by decide)
      · cases enclosed
    · exact ⟨inside, rfl, isInside⟩
  · exact ⟨text, rfl, follows.widen .exponent⟩

/-- Where a power of `e` is the exponential, no exponent was expected. -/
theorem idle_of_euler (isSettled : IsSettled ⟨mode, limits, frames⟩ ('e' :: tail))
    (ends : tail.endsRun isBaseChar = true) (isScript : tail.skipBlanks = '^' :: script)
    (follows : Follows (.formula .called) letter ⟨mode, limits, frames⟩ count ('e' :: tail)) :
    (mode = .idle ∨ mode = .euler) ∧
      Follows (.formula .called) letter ⟨.exponent, limits, frames⟩ count script := by
  obtain ⟨glyph, rest, role, next, later, same, isRole, moves, rfl, follows⟩ :=
    follows.exists_glyph (List.cons_ne_nil 'e' tail)
  obtain ⟨rfl, rfl⟩ : glyph = .char 'e' ∧ tail = rest := by
    obtain ⟨c, more, isSource⟩ := List.exists_cons_of_ne_nil (Glyph.source_ne_nil isRole)
    rw [isSource, List.cons_append] at same
    obtain ⟨rfl, rfl⟩ := List.cons.inj same
    have isRun : glyph.source = 'e' :: [] ++ more := isSource
    obtain rfl := eq_nil_of_source isRole (by decide) isRun (.inl ends)
    refine ⟨?_, rfl⟩
    have noName {name : Name} {kind : NameKind}
        (isMember : name ∈ Vocabulary.standard.namesOf kind) (isText : name.text = ['e']) : False := by
      have names : ∀ entry ∈ Vocabulary.standard.entries, entry.name.text ≠ ['e'] := by
        decide +kernel
      obtain ⟨entry, isEntry, rfl⟩ := List.mem_map.1 isMember
      exact names entry (List.mem_filter.1 isEntry).1 isText
    cases glyph with
    | char c => rw [Glyph.source] at isSource; cases isSource; rfl
    | word name => cases isSource
    | value name => exact (noName (Glyph.exists_value isRole).2.1 isSource).elim
    | call callable =>
        cases callable with
        | parked waiting => cases isSource
        | function name =>
            obtain ⟨-, isStandard, -⟩ := Glyph.exists_call isRole
            exact (noName (of_decide_eq_true isStandard) isSource).elim
  have settled := isSettled.step_called isRole (by simp) moves
  cases Glyph.ofChar?_of_role? isRole
  obtain ⟨behind, isNext, rfl⟩ := Grammar.exists_of_step rfl moves
  obtain ⟨rfl, isExponent⟩ := follows.caret_of_run settled isScript
  refine ⟨?_, isExponent.mono_count (Nat.le_add_left _ _)⟩
  rcases isSettled.mode with isMode | ⟨-, applied⟩
  · cases mode with
    | idle => exact .inl rfl
    | euler => exact .inr rfl
    | exponent => cases isNext
    | _ => cases isMode
  · cases applied

/-- The coefficient of an exponential may be any run that ends in a digit. -/
theorem exists_coefficient (isSettled : IsSettled ⟨mode, limits, frames⟩ (run ++ 'e' :: tail))
    (all : run.all isBaseChar = true) (digit : run.getLast?.all Char.isDigit = true)
    (ends : tail.endsRun isBaseChar = true) (isScript : tail.skipBlanks = '^' :: script)
    (follows : Follows (.formula .called) letter ⟨mode, limits, frames⟩ count (run ++ 'e' :: tail)) :
    ∃ base raised, base + raised = count ∧
      Follows (.formula .called) letter ⟨.exponent, limits, frames⟩ raised script ∧
        ∀ {inside rest : Text} {first second : Nat},
          Follows (.formula .called) letter ⟨.idle, limits, []⟩ first inside →
            Follows (.formula .called) letter ⟨.idle, limits, frames⟩ second rest →
              Follows (.formula .called) letter ⟨mode, limits, frames⟩ (base + (first + second))
                (run ++ ("exp".toList ++ (parenthesized inside ++ rest))) := by
  obtain ⟨exponential, isText, isStandard⟩ := Callable.exists_of_mem
    (show "exp".toList ∈ Vocabulary.functionNames by decide)
  have same := Limits.behind_alone limits
  -- The exponential may stand where `e` stood.
  have call {mode : Mode} {inside rest : Text} {first second : Nat}
      (isMode : mode = .idle ∨ mode = .euler)
      (isInside : Follows (.formula .called) letter ⟨.idle, limits, []⟩ first inside)
      (later : Follows (.formula .called) letter ⟨.idle, limits, frames⟩ second rest) :
      Follows (.formula .called) letter ⟨mode, limits, frames⟩ (first + second)
        ("exp".toList ++ (parenthesized inside ++ rest)) := by
    rw [← isText]
    refine call_append exponential isStandard ?_ (same ▸ isInside) later
    rcases isMode with rfl | rfl <;> rfl
  by_cases empty : run = []
  · subst empty
    obtain ⟨isMode, isExponent⟩ := follows.idle_of_euler isSettled ends isScript
    refine ⟨0, count, Nat.zero_add count, isExponent, fun isInside later => ?_⟩
    rw [Nat.zero_add]
    exact call isMode isInside later
  · have last : run.getLast?.any Char.isDigit = true := by
      cases isLast : run.getLast? with
      | none => exact absurd (List.getLast?_eq_none_iff.1 isLast) empty
      | some c => simpa [isLast] using digit
    obtain ⟨base, raised, mid, isSum, settled, behind, leads⟩ :=
      follows.exists_of_run isSettled all (.inr ⟨last, rfl⟩)
    obtain ⟨isMode, isExponent⟩ := behind.idle_of_euler settled ends isScript
    exact ⟨base, raised, isSum, isExponent, fun isInside later =>
      leads (.inr ⟨last, rfl, rfl⟩) (call isMode isInside later)⟩

/-- What may stand for a power, given its exponent. -/
theorem exists_power (isSettled : IsSettled ⟨mode, limits, frames⟩ (run ++ tail))
    (all : run.all isBaseChar = true) (nonempty : run ≠ []) (ends : tail.endsRun isBaseChar = true)
    (isScript : tail.skipBlanks = '^' :: script)
    (follows : Follows (.formula .called) letter ⟨mode, limits, frames⟩ count (run ++ tail)) :
    ∃ base raised, base + raised = count ∧
      Follows (.formula .called) letter ⟨.exponent, limits, frames⟩ raised script ∧
        ∀ {exponent rest : Text} {first second : Nat},
          Follows (.formula .called) letter ⟨.exponent, limits, []⟩ first exponent →
            (exponent.all Char.isAlphanum = true ∨ ∃ inside, exponent = parenthesized inside ∧
              Follows (.formula .called) letter ⟨.idle, limits, []⟩ first inside) →
              Follows (.formula .called) letter ⟨.idle, limits, frames⟩ second rest →
                Follows (.formula .called) letter ⟨mode, limits, frames⟩ (base + (first + second))
                  (power run exponent ++ rest) := by
  cases isEuler : run.beforeEuler? with
  | some coefficient =>
      obtain ⟨digit, rfl⟩ : coefficient.getLast?.all Char.isDigit = true ∧
          run = coefficient ++ ['e'] := by
        unfold beforeEuler? at isEuler
        split at isEuler
        · rename_i last
          obtain ⟨front, rfl⟩ := List.getLast?_eq_some_iff.1 last
          rw [List.dropLast_concat] at isEuler
          split at isEuler <;> cases isEuler
          exact ⟨‹_›, rfl⟩
        · cases isEuler
      rw [List.append_assoc, List.singleton_append] at isSettled follows
      rw [List.all_append, Bool.and_eq_true] at all
      obtain ⟨base, raised, isSum, isExponent, leads⟩ :=
        follows.exists_coefficient isSettled all.1 digit ends isScript
      refine ⟨base, raised, isSum, isExponent, fun isRaised isSimple later => ?_⟩
      obtain ⟨inside, isText, isInside⟩ := exists_exponential isSimple isRaised
      rw [power, isEuler]
      simp only [isText, List.append_assoc]
      exact leads isInside later
  | none =>
      obtain ⟨base, raised, mid, isSum, settled, behind, leads⟩ :=
        follows.exists_of_run isSettled all (.inl ends)
      obtain ⟨rfl, isExponent⟩ := behind.caret_of_run settled isScript
      have isMode : mode.isSettled = true := by
        refine isSettled.mode.resolve_right fun ⟨_, applied⟩ => ?_
        rw [isApplied_of_run nonempty all] at applied
        cases applied
      have unapplied : tail.isApplied = true → false = true := by
        rw [isApplied, isScript]
        exact id
      refine ⟨base, raised, isSum, isExponent, fun {exponent rest first second} isRaised _ later => ?_⟩
      have caret : Follows (.formula .called) letter ⟨.idle, limits, []⟩ first ('^' :: exponent) :=
        isRaised.cons (by decide) rfl rfl
      have stands : StandsFor ('^' :: exponent) tail :=
        .of_ends rfl fun applied => absurd (unapplied applied) Bool.false_ne_true
      have inside := leads (.inl stands) caret
      rw [power, isEuler]
      simp only
      cases mode with
      | idle => exact (parenthesized_append rfl inside later).mono_count (by omega)
      | exponent =>
          exact (parenthesized_append rfl (inside.widen .exponent) later).mono_count (by omega)
      | euler => exact (parenthesized_append rfl (inside.widen .euler) later).mono_count (by omega)
      | _ => cases isMode

theorem endsRun_of_blank {gap : Text} (blank : gap.all isAsciiBlank = true)
    (ends : rest.endsRun Text.isNameChar = true) : (gap ++ rest).endsRun Text.isNameChar = true := by
  cases gap with
  | nil => exact ends
  | cons c gap =>
      rw [List.all_cons, Bool.and_eq_true] at blank
      cases isName : Text.isNameChar c with
      | false => simp [endsRun, isName]
      | true =>
          rw [Text.isNameChar, Bool.or_eq_true, beq_iff_eq] at isName
          rcases isName with word | rfl
          · rw [isAsciiBlank_eq_false_of_isAlphanum word] at blank
            cases blank.1
          · cases blank.1

/-- The blanks of a legible formula are spaces. -/
theorem all_space {gap : Text} (blank : gap.all isAsciiBlank = true)
    (follows : Follows (.formula .called) letter state count (gap ++ rest)) :
    gap.all (· == ' ') = true := by
  induction gap with
  | nil => rfl
  | cons c gap ih =>
      rw [List.all_cons, Bool.and_eq_true] at blank
      obtain rfl := follows.eq_space (isBlank_of_isAsciiBlank blank.1)
      simpa using ih blank.2 follows.of_blank

/-- A run with no exponent behind it stays as it is. -/
theorem resolveExponents_run (isSettled : IsSettled ⟨mode, limits, frames⟩ (run ++ tail))
    (all : run.all isBaseChar = true) (ends : tail.endsRun isBaseChar = true)
    (noScript : tail.beginsScript = false) (noMark : Parked.mark ∉ tail)
    (follows : Follows (.formula .called) letter ⟨mode, limits, frames⟩ count (run ++ tail))
    (resolved : ∀ {behind : Mode} {count : Nat}, IsSettled ⟨behind, limits, frames⟩ tail →
      Follows (.formula .called) letter ⟨behind, limits, frames⟩ count tail →
        Follows (.formula .called) letter ⟨behind, limits, frames⟩ count
            (tail.resolveExponents .standard) ∧
          (tail.isApplied = true → (tail.resolveExponents .standard).isApplied = true)) :
    Follows (.formula .called) letter ⟨mode, limits, frames⟩ count
      (Text.resolveExponents .standard (run ++ tail)) := by
  obtain ⟨before, later, behind, rfl, settled, isTail, leads⟩ :=
    follows.exists_of_run isSettled all (.inl ends)
  obtain ⟨isResolved, applied⟩ := resolved settled isTail
  have whole : Text.resolveExponents .standard (run ++ tail) =
      run ++ tail.resolveExponents .standard := Raises.append all ends noScript rfl
  rw [whole]
  refine leads (.inl ?_) isResolved
  cases tail with
  | nil =>
      rw [resolveExponents_nil]
      exact .refl []
  | cons c tail =>
      have other : isBaseChar c = false := by simpa [endsRun] using ends
      have noName : Text.isNameChar c = false := by
        rw [List.mem_cons, not_or] at noMark
        simp [Text.isNameChar, (Bool.or_eq_false_iff.1 other).1, Ne.symm noMark.1]
      rw [resolveExponents_cons other] at applied ⊢
      exact .of_ends (by simp [endsRun, noName]) applied

/-- A run with an exponent behind it becomes a power, if the exponent can be read. -/
theorem resolveExponents_power {gap : Text}
    (isSettled : IsSettled ⟨mode, limits, frames⟩ (run ++ (gap ++ '^' :: script)))
    (all : run.all isBaseChar = true) (nonempty : run ≠ []) (blank : gap.all isAsciiBlank = true)
    (ends : (gap ++ '^' :: script).endsRun isBaseChar = true)
    (follows : Follows (.formula .called) letter ⟨mode, limits, frames⟩ count
      (run ++ (gap ++ '^' :: script)))
    (resolved : ∀ {count : Nat},
      Follows (.formula .called) letter ⟨.exponent, limits, frames⟩ count script →
        Follows (.formula .called) letter ⟨.exponent, limits, frames⟩ count
          (script.resolveExponents .standard)) :
    Follows (.formula .called) letter ⟨mode, limits, frames⟩ count
      (Text.resolveExponents .standard (run ++ (gap ++ '^' :: script))) := by
  have isScript : Text.skipBlanks (gap ++ '^' :: script) = '^' :: script := by
    rw [Text.skipBlanks, List.dropWhile_append_of_pos (List.all_eq_true.1 blank)]
    rfl
  rw [resolveExponents_script all blank, if_neg (by simpa using nonempty)]
  split
  · rename_i exponent found
    obtain ⟨base, raised, rfl, isExponent, powers⟩ :=
      follows.exists_power isSettled all nonempty ends isScript
    obtain ⟨first, second, rfl, isText, isRest, isSimple⟩ :=
      (resolved isExponent).exists_exponent found
    exact powers isText isSimple isRest
  · obtain ⟨before, later, behind, rfl, settled, isTail, leads⟩ :=
      follows.exists_of_run isSettled all (.inl ends)
    obtain ⟨rfl, isExponent⟩ := isTail.caret_of_run settled isScript
    have caret : Follows (.formula .called) letter ⟨.idle, limits, frames⟩ later
        ('^' :: Text.resolveExponents .standard script) :=
      (resolved isExponent).cons (by decide) rfl rfl
    have unapplied : Text.isApplied (gap ++ '^' :: script) = false := by
      rw [isApplied, isScript]
      rfl
    rw [List.append_assoc]
    refine leads (.inl (.of_ends (endsRun_of_blank blank rfl) fun applied => ?_))
      (blanks_append (isTail.all_space blank) caret)
    rw [unapplied] at applied
    cases applied

/-- In a legible formula powers are brought into their final form. -/
theorem resolveExponents (isSettled : IsSettled state text) (noBack : '\\' ∉ text)
    (noMark : Parked.mark ∉ text) (follows : Follows (.formula .called) letter state count text) :
    Follows (.formula .called) letter state count (text.resolveExponents .standard) ∧
      (text.isApplied = true → (text.resolveExponents .standard).isApplied = true) := by
  induction length : text.length using Nat.strongRecOn generalizing text state count with
  | ind bound ih =>
    cases text with
    | nil =>
        rw [resolveExponents_nil]
        exact ⟨follows, id⟩
    | cons c rest =>
        cases base : isBaseChar c with
        | false =>
            rw [List.mem_cons, not_or] at noBack noMark
            have noLetter : c.isAlpha = false :=
              (Bool.or_eq_false_iff.1 (Bool.or_eq_false_iff.1 base).1).1
            obtain ⟨role, next, isRole, moves, later⟩ :=
              follows.exists_char noLetter (Ne.symm noMark.1) (Ne.symm noBack.1)
            have settled : IsSettled next rest := isSettled.step_called
              ((Glyph.role?_of_not_isAlpha noLetter rest).trans isRole) (by simp) moves
            obtain ⟨follows, applied⟩ := ih rest.length (by simp [← length]) settled noBack.2
              noMark.2 later rfl
            rw [resolveExponents_cons base]
            exact ⟨follows.cons noLetter isRole moves, isApplied_cons applied c⟩
        | true =>
            obtain ⟨run, tail, whole, nonempty, all, ends⟩ : ∃ run tail : Text,
                c :: rest = run ++ tail ∧ run ≠ [] ∧ run.all isBaseChar = true ∧
                  tail.endsRun isBaseChar = true :=
              ⟨(c :: rest).takeWhile isBaseChar, (c :: rest).dropWhile isBaseChar,
                List.takeWhile_append_dropWhile.symm, by simp [base], List.all_takeWhile,
                endsRun_dropWhile _ _⟩
            obtain ⟨mode, limits, frames⟩ := state
            rw [whole] at follows isSettled noBack noMark length ⊢
            rw [List.mem_append, not_or] at noBack noMark
            have fewer := List.length_pos_iff.2 nonempty
            rw [List.length_append] at length
            constructor
            · cases begins : tail.beginsScript with
              | false =>
                  exact resolveExponents_run isSettled all ends begins noMark.2 follows
                    fun settled isTail => ih tail.length (by omega) settled noBack.2 noMark.2 isTail rfl
              | true =>
                  obtain ⟨gap, script, blank, rfl⟩ := exists_of_beginsScript begins
                  have shorter : script.length < bound := by
                    rw [List.length_append, List.length_cons] at length
                    omega
                  have noBackScript : '\\' ∉ script := fun isMember => noBack.2 (by simp [isMember])
                  have noMarkScript : Parked.mark ∉ script := fun isMember =>
                    noMark.2 (by simp [isMember])
                  have settled : IsSettled ⟨.exponent, limits, frames⟩ script :=
                    ⟨.inl rfl, isSettled.frames⟩
                  exact resolveExponents_power isSettled all nonempty blank ends follows
                    fun isExponent =>
                      (ih _ shorter settled noBackScript noMarkScript isExponent rfl).1
            · rw [isApplied_of_run nonempty all]
              exact fun applied => absurd applied Bool.false_ne_true

end Follows

end Text

end TexCalc

import TexCalc.Proofs.Linear.Calls
import TexCalc.Proofs.Marks.Called
import TexCalc.Proofs.Words.Backslashes

/-!
# Writing out takes every name

A round writes out the last parked name.  What is put in its place begins with a parenthesis or
with a target function, neither of which goes on a name in front of it, so that a round takes one
name away and makes none: the others stay, in their order (`names_of_writeOutLast?`).  A text
therefore comes to rest within as many rounds as it has names, not in fewer, and no name is left.
The marks that are left then are hidden or torn.
-/

namespace TexCalc

namespace Parked

/-! ## Names go one by one -/

section

variable {text : Text} {c : Char}

/-- No name goes on over a character that is neither a letter nor a mark. -/
theorem count_append_cons (other : c ≠ mark) (noLetter : c.isAlpha = false) (left right : Text) :
    count (left ++ c :: right) = count left + count right := by
  have ends : Text.endsRun Char.isAlpha (c :: right) = true := by simp [Text.endsRun, noLetter]
  induction left with
  | nil => simp [count, read?_eq_none other]
  | cons d left ih =>
      have same : (read? (d :: (left ++ c :: right))).isSome = (read? (d :: left)).isSome := by
        by_cases isMark : d = mark
        · subst isMark
          have run := Text.takeWhile_append_rest left ends
          rw [Bool.eq_iff_iff]
          exact ⟨isSome_read?_of_letters (run ▸ List.prefix_refl _),
            fun isNamed => isSome_read?_append isNamed _⟩
        · rw [read?_eq_none isMark, read?_eq_none isMark]
      rw [List.cons_append, count, count, same, ih, Nat.add_assoc]

theorem count_of_not_mem (noMark : mark ∉ text) : count text = 0 := by
  have alone := count_append noMark []
  rwa [List.append_nil] at alone

theorem mark_not_mem_of_isAllBlank (blank : text.isAllBlank = true) : mark ∉ text :=
  Text.not_mem_of_all (by decide) blank

theorem count_trim (text : Text) : count text.trim = count text := by
  obtain ⟨lead, trail, split, leadBlank, trailBlank⟩ := text.exists_trim_eq
  conv => rhs; rw [split, count_append (mark_not_mem_of_isAllBlank leadBlank)]
  cases trail with
  | nil => rw [List.append_nil]
  | cons c trail =>
      have noMark := mark_not_mem_of_isAllBlank trailBlank
      rw [List.mem_cons, not_or] at noMark
      have noLetter :=
        (Text.not_isAlpha_of_isBlank (List.all_eq_true.1 trailBlank c List.mem_cons_self)).1
      rw [count_append_cons (Ne.symm noMark.1) noLetter, count_of_not_mem noMark.2, Nat.add_zero]

theorem count_parenthesized_append (text right : Text) :
    count (text.parenthesized ++ right) = count text + count right := by
  have front : mark ∉ ['('] := by decide
  rw [Text.parenthesized_append, ← count_append_cons (c := ')') (by decide) (by decide)]
  exact count_append front _

theorem count_parenthesized (text : Text) : count text.parenthesized = count text := by
  have alone := count_parenthesized_append text []
  rwa [List.append_nil] at alone

theorem count_wrap (text : Text) : count text.wrap = count text := by
  unfold Text.wrap
  split
  · exact count_trim text
  · rw [count_parenthesized, count_trim]

end

variable {text written after : Text}

theorem mark_not_mem_target (parked : Parked) : mark ∉ parked.target := by
  rcases parked with ⟨function, inverse⟩
  cases function <;> cases inverse <;> decide

theorem count_applied_append (parked : Parked) (argument right : Text) :
    count (parked.applied argument ++ right) = count argument + count right := by
  have quotient : mark ∉ "1/".toList := by decide
  unfold applied
  split
  · rw [List.append_assoc, count_append parked.mark_not_mem_target, count_parenthesized_append,
      count_append quotient, count_wrap]
  · rw [count_parenthesized_append, List.append_assoc, count_append quotient,
      count_append parked.mark_not_mem_target, count_parenthesized]

theorem count_bare_append (parked : Parked) (right : Text) :
    count (parked.bare ++ right) = count right := by
  have quotient : mark ∉ "1/".toList ++ parked.target := by
    rw [List.mem_append, not_or]
    exact ⟨by decide, parked.mark_not_mem_target⟩
  unfold bare
  split
  · exact count_append parked.mark_not_mem_target right
  · rw [count_parenthesized_append, count_of_not_mem quotient, Nat.zero_add]

/-- What is put in the place of a name brings no other one. -/
theorem count_eq_of_writtenOut (parked : Parked) (after : Text) :
    count (parked.writtenOut after) = count after := by
  rcases parked.writtenOut_cases after with
    bare | ⟨bracket, rest, group, start, opens, isGroup, applied⟩
  · rw [bare, count_bare_append]
  · obtain ⟨noLetter, _⟩ := Text.not_isAlpha_closer bracket
    have blanks : mark ∉ after.takeWhile isAsciiBlank :=
      Text.not_mem_of_all (by decide) List.all_takeWhile
    have front : mark ∉ after.takeWhile isAsciiBlank ++ [bracket.opener] := by
      rw [List.mem_append, List.mem_singleton, not_or]
      exact ⟨blanks, Ne.symm (Text.opener_ne_mark bracket)⟩
    have whole : after =
        (after.takeWhile isAsciiBlank ++ [bracket.opener]) ++ rest := by
      rw [List.append_assoc, List.singleton_append, ← start]
      exact List.takeWhile_append_dropWhile.symm
    conv => rhs; rw [whole, count_append front, Bracket.eq_of_group? isGroup,
      count_append_cons (Text.closer_ne_mark bracket) noLetter]
    rw [applied, count_applied_append]

theorem writeOutLast?_eq_none_iff : writeOutLast? text = none ↔ count text = 0 := by
  induction text with
  | nil => exact ⟨fun _ => rfl, fun _ => rfl⟩
  | cons c rest ih =>
      rw [count, Nat.add_eq_zero_iff, ← ih, writeOutLast?]
      cases writeOutLast? rest <;> cases read? (c :: rest) <;> simp

/-! ## Which names there are -/

/-- The parked function with whose name a text begins. -/
def first? (text : Text) : Option Parked :=
  (read? text).map Prod.fst

theorem first?_eq_some_iff {parked : Parked} :
    first? text = some parked ↔ parked.name <+: text := by
  rw [first?, Option.map_eq_some_iff]
  constructor
  · rintro ⟨⟨_, after⟩, found, rfl⟩
    exact ⟨after, (read?_eq_some_iff.1 found).symm⟩
  · rintro ⟨after, rfl⟩
    exact ⟨(parked, after), read?_eq_some_iff.2 rfl, rfl⟩

/-- The parked functions whose names stand in a text, from left to right. -/
def names : Text → List Parked
  | [] => []
  | c :: rest => (first? (c :: rest)).toList ++ names rest

theorem length_names (text : Text) : (names text).length = count text := by
  induction text with
  | nil => rfl
  | cons c rest ih =>
      rw [names, List.length_append, ih, count, first?]
      cases read? (c :: rest) <;> rfl

theorem names_eq_nil_iff : names text = [] ↔ count text = 0 := by
  rw [← length_names, List.length_eq_zero_iff]

theorem mem_names_iff {parked : Parked} : parked ∈ names text ↔ parked.name <:+: text := by
  induction text with
  | nil =>
      rw [List.infix_nil]
      exact iff_of_false List.not_mem_nil (List.cons_ne_nil _ _)
  | cons c rest ih =>
      rw [names, List.mem_append, Option.mem_toList, ih, first?_eq_some_iff,
        List.infix_cons_iff]

/-- A parked function is written out as a group or as the target function of an inverse. -/
theorem writtenOut_begins (parked : Parked) (after : Text) :
    (∃ rest, parked.writtenOut after = '(' :: rest) ∨
      parked.inverse = true ∧ ∃ rest, parked.writtenOut after = parked.target ++ rest := by
  cases inverse : parked.inverse with
  | false =>
      left
      rcases parked.writtenOut_cases after with bare | ⟨_, _, _, _, _, _, applied⟩
      · rw [bare, Parked.bare, inverse]
        exact ⟨_, rfl⟩
      · rw [applied, Parked.applied, inverse]
        exact ⟨_, rfl⟩
  | true =>
      right
      rcases parked.writtenOut_cases after with bare | ⟨_, _, _, _, _, _, applied⟩
      · rw [bare, Parked.bare, inverse]
        exact ⟨rfl, _, rfl⟩
      · rw [applied, Parked.applied, inverse]
        exact ⟨rfl, _, List.append_assoc ..⟩

/-- Whether a text begins with letters is settled by what stands in front, if none of the letters is
left for what is behind. -/
theorem prefix_append_iff {letters front behind : Text}
    (noneLeft : ∀ more, letters = front ++ more → more <+: behind → more = []) :
    letters <+: front ++ behind ↔ letters <+: front := by
  constructor
  · rintro ⟨right, split⟩
    rcases List.append_eq_append_iff.1 split with ⟨more, isFront, _⟩ | ⟨more, isLetters, behind⟩
    · exact ⟨more, isFront.symm⟩
    · have isFront : letters = front := by
        rw [isLetters, noneLeft more isLetters ⟨right, behind.symm⟩, List.append_nil]
      exact isFront ▸ List.prefix_rfl
  · exact fun isPrefix => isPrefix.trans (List.prefix_append front behind)

/-- No target function of an inverse goes on like the rest of a name. -/
theorem target_apart {parked : Parked} (inverse : parked.inverse = true) (other : Parked)
    {taken : Nat} (shorter : taken < other.name.tail.length) :
    ¬ (other.name.tail.drop taken <+: parked.target ∨
      parked.target <+: other.name.tail.drop taken) := by
  have apart : ∀ parked ∈ all, ∀ other ∈ all, ∀ taken ∈ List.range other.name.tail.length,
      parked.inverse = true → ¬ (other.name.tail.drop taken <+: parked.target ∨
        parked.target <+: other.name.tail.drop taken) := by
    decide
  exact apart parked parked.mem_all other other.mem_all taken (List.mem_range.2 shorter) inverse

/-- No name is finished by what is written out behind its beginning, and none in front is broken
off. -/
theorem first?_writtenOut (parked : Parked) (front after : Text) :
    first? (mark :: (front ++ parked.writtenOut after)) =
      first? (mark :: (front ++ (parked.name ++ after))) := by
  ext other
  obtain ⟨letters, isName, all, _⟩ := other.exists_name_eq
  have letter {c : Char} {more : Text} (isLetters : letters = front ++ c :: more) :
      c.isAlpha = true := by
    rw [isLetters] at all
    exact List.all_eq_true.1 all c (List.mem_append_right front List.mem_cons_self)
  rw [first?_eq_some_iff, first?_eq_some_iff, isName, List.prefix_cons_inj, List.prefix_cons_inj,
    prefix_append_iff, prefix_append_iff]
  · intro more isLetters isPrefix
    cases more with
    | nil => rfl
    | cons c more =>
        obtain ⟨rfl, _⟩ := List.cons_prefix_cons.1 isPrefix
        cases letter isLetters
  · intro more isLetters isPrefix
    cases more with
    | nil => rfl
    | cons c more =>
        exfalso
        rcases parked.writtenOut_begins after with ⟨rest, opens⟩ | ⟨inverse, rest, function⟩
        · rw [opens] at isPrefix
          obtain ⟨rfl, _⟩ := List.cons_prefix_cons.1 isPrefix
          cases letter isLetters
        · have isTail : other.name.tail = front ++ c :: more := by
            rw [isName, List.tail_cons, isLetters]
          have shorter : front.length < other.name.tail.length := by
            rw [isTail, List.length_append, List.length_cons]
            omega
          refine target_apart inverse other shorter ?_
          rw [isTail, List.drop_left]
          rw [function] at isPrefix
          exact List.prefix_or_prefix_of_prefix isPrefix (List.prefix_append parked.target rest)

/-- A round takes the last name away and leaves all others, in their order. -/
theorem names_of_writeOutLast? (found : writeOutLast? text = some written) :
    ∃ front parked after, text = front ++ (name parked ++ after) ∧
      written = front ++ parked.writtenOut after ∧ names after = [] ∧
        names text = names written ++ [parked] := by
  induction text generalizing written with
  | nil => cases found
  | cons c rest ih =>
      simp only [writeOutLast?] at found
      split at found
      · rename_i later isLater
        cases found
        obtain ⟨front, parked, after, isText, isWritten, nameless, split⟩ := ih isLater
        -- What is written out further behind makes no name that begins here, and breaks none off.
        have same : first? (c :: later) = first? (c :: rest) := by
          by_cases isMark : c = mark
          · rw [isMark, isText, isWritten, first?_writtenOut]
          · rw [first?, first?, read?_eq_none isMark, read?_eq_none isMark]
        refine ⟨c :: front, parked, after, by rw [isText, List.cons_append],
          by rw [isWritten, List.cons_append], nameless, ?_⟩
        rw [names, names, split, same, List.append_assoc]
      · rename_i noneBehind
        obtain ⟨⟨parked, after⟩, isParked, rfl⟩ := Option.map_eq_some_iff.1 found
        obtain ⟨letters, isName, all, _⟩ := parked.exists_name_eq
        have split := read?_eq_some_iff.1 isParked
        have isRest : rest = letters ++ after := by
          rw [isName, List.cons_append, List.cons.injEq] at split
          exact split.2
        have noneInRest : count rest = 0 := writeOutLast?_eq_none_iff.1 noneBehind
        have noneAfter : count after = 0 := by
          rwa [isRest, count_append (Text.mark_not_mem_of_all_isAlpha all)] at noneInRest
        have noneWritten : count (parked.writtenOut after) = 0 := by
          rw [count_eq_of_writtenOut, noneAfter]
        refine ⟨[], parked, after, split, rfl, names_eq_nil_iff.2 noneAfter, ?_⟩
        rw [names, names_eq_nil_iff.2 noneInRest, names_eq_nil_iff.2 noneWritten, first?, isParked]
        rfl

theorem count_of_writeOutLast? (found : writeOutLast? text = some written) :
    count text = count written + 1 := by
  obtain ⟨_, parked, _, _, _, _, split⟩ := names_of_writeOutLast? found
  rw [← length_names, ← length_names, split, List.length_append, List.length_singleton]

/-- Every round takes one name. -/
theorem settles_writeOutUpTo {rounds : Nat} (enough : count text ≤ rounds) :
    Settles writeOutLast? rounds text (writeOutUpTo rounds text) := by
  induction rounds generalizing text with
  | zero => exact .rest (writeOutLast?_eq_none_iff.2 (Nat.le_zero.1 enough))
  | succ rounds ih =>
      rw [writeOutUpTo]
      cases found : writeOutLast? text with
      | none => exact .rest found
      | some written =>
          have fewer := count_of_writeOutLast? found
          exact .step found (ih (by omega))

theorem settles_expandParked (text : Text) :
    Settles writeOutLast? (count text) text text.expandParked :=
  settles_writeOutUpTo (Nat.le_refl _)

section

variable {rounds : Nat} {result : Text} (settles : Settles writeOutLast? rounds text result)

include settles

theorem count_le_of_settles : count text ≤ rounds := by
  induction settles with
  | rest still =>
      rw [writeOutLast?_eq_none_iff.1 still]
      exact Nat.zero_le _
  | step moves _ ih =>
      rw [count_of_writeOutLast? moves]
      exact Nat.succ_le_succ ih

theorem expandParked_of_settles : text.expandParked = result := by
  have expands := (settles_expandParked text).within (count_le_of_settles settles)
  exact (writeOutUpTo_of_settles expands).symm.trans (writeOutUpTo_of_settles settles)

end

theorem settles_iff {rounds : Nat} {result : Text} :
    Settles writeOutLast? rounds text result ↔
      count text ≤ rounds ∧ result = text.expandParked := by
  constructor
  · exact fun settles => ⟨count_le_of_settles settles, (expandParked_of_settles settles).symm⟩
  · rintro ⟨enough, rfl⟩
    exact (settles_expandParked text).within enough

end Parked

/-- All parked names are written out, whatever the text. -/
theorem Text.parkedCount_expandParked (text : Text) : Parked.count text.expandParked = 0 :=
  Parked.writeOutLast?_eq_none_iff.1 (Parked.settles_expandParked text).still

/-- A round writes out the last parked name: the names in front of it are still there afterwards, in
their order, and there are no others.  A text comes to rest within just as many rounds as it has
names or more, whatever else it holds, and always as the same text, in which none of the names is
left. -/
theorem Text.expandParked_terminates (text : Text) :
    (∀ earlier later : Text, Parked.writeOutLast? earlier = some later →
      ∃ (front : Text) (parked : Parked) (after : Text),
        earlier = front ++ (parked.name ++ after) ∧ later = front ++ parked.writtenOut after ∧
          Parked.names after = [] ∧ Parked.names earlier = Parked.names later ++ [parked]) ∧
    (∀ rounds result, Settles Parked.writeOutLast? rounds text result ↔
      (Parked.names text).length ≤ rounds ∧ result = text.expandParked) ∧
    ∀ parked : Parked, ¬ parked.name <:+: text.expandParked := by
  refine ⟨fun _ _ found => Parked.names_of_writeOutLast? found, ?_, ?_⟩
  · intro rounds result
    rw [Parked.length_names]
    exact Parked.settles_iff
  · intro parked
    rw [← Parked.mem_names_iff, Parked.names_eq_nil_iff.2 text.parkedCount_expandParked]
    exact List.not_mem_nil

/-! ## Marks that are left -/

namespace Parked

open Text (HasMarks)

variable {hidden inside : Bool} {torn more : Nat} {text written argument right : Text}

/-- Where nothing can be written out, no mark has its name. -/
theorem hasMarks_of_count_eq_zero (none : count text = 0)
    (marks : HasMarks true hidden inside torn text) : HasMarks false hidden inside torn text := by
  induction marks with
  | nil => exact .nil
  | other other _ ih => exact .other other (ih (Nat.add_eq_zero_iff.1 none).2)
  | hidden _ ih => exact .hidden (ih (Nat.add_eq_zero_iff.1 none).2)
  | named _ isNamed =>
      rw [count, if_pos isNamed] at none
      omega
  | torn shut _ ih => exact .torn shut (ih (Nat.add_eq_zero_iff.1 none).2)

theorem target_ne_nil (parked : Parked) : parked.target ≠ [] := by
  rcases parked with ⟨function, inverse⟩
  cases function <;> cases inverse <;> decide

/-- A target function in front of a text without names. -/
theorem hasMarks_target_append (parked : Parked) (later : HasMarks false false false torn right) :
    HasMarks false hidden inside torn (parked.target ++ right) :=
  later.behind parked.target_ne_nil parked.mark_not_mem_target parked.not_mem_target

theorem hasMarks_applied_append (parked : Parked) (inner : HasMarks false false false torn argument)
    (later : HasMarks false false false more right) :
    HasMarks false hidden inside (torn + more) (parked.applied argument ++ right) := by
  unfold applied
  split
  · have quotient : HasMarks false false false torn ("1/".toList ++ argument.wrap) :=
      .plain_append (by decide) (by decide) inner.wrap
    rw [List.append_assoc]
    exact parked.hasMarks_target_append (quotient.parenthesized_append later)
  · have call : HasMarks false false false torn
        ("1/".toList ++ (parked.target ++ argument.parenthesized)) :=
      .plain_append (by decide) (by decide) (parked.hasMarks_target_append inner.parenthesized)
    rw [← List.append_assoc] at call
    exact call.parenthesized_append later

theorem hasMarks_bare_append (parked : Parked) (later : HasMarks false false false more right) :
    HasMarks false hidden inside more (parked.bare ++ right) := by
  unfold bare
  split
  · exact parked.hasMarks_target_append later
  · have quotient : HasMarks false false false 0 ("1/".toList ++ parked.target) := by
      refine .of_not_mem ?_
      rw [List.mem_append, not_or]
      exact ⟨by decide, parked.mark_not_mem_target⟩
    have whole : HasMarks false hidden inside (0 + more) _ := quotient.parenthesized_append later
    rwa [Nat.zero_add] at whole

theorem hasMarks_writtenOut (parked : Parked) (later : HasMarks false false false torn text) :
    HasMarks false hidden inside torn (parked.writtenOut text) := by
  rcases parked.writtenOut_cases text with
    bare | ⟨bracket, rest, group, start, opens, isGroup, applied⟩
  · rw [bare]
    exact parked.hasMarks_bare_append later
  · have skipped := later.skipBlanks
    rw [start] at skipped
    obtain ⟨within, behind, rfl, inner, rest⟩ := skipped.of_brackets isGroup
    rw [applied]
    exact parked.hasMarks_applied_append inner rest

theorem isShut_writeOutLast? (found : writeOutLast? text = some written)
    (shut : text.isShut = true) : written.isShut = true := by
  cases text with
  | nil => cases found
  | cons c rest =>
      obtain ⟨bracket, rfl⟩ := Text.exists_closer_of_isShut shut
      simp only [writeOutLast?, read?_eq_none (Text.closer_ne_mark bracket),
        Option.map_none] at found
      split at found
      · cases found
        exact shut
      · cases found

/-- A round takes its own name along and no other one apart. -/
theorem hasMarks_writeOutLast? (found : writeOutLast? text = some written)
    (marks : HasMarks true hidden inside torn text) : HasMarks true hidden inside torn written := by
  induction text generalizing written hidden inside torn with
  | nil => cases found
  | cons c rest ih =>
      simp only [writeOutLast?] at found
      split at found
      · rename_i later isLater
        cases found
        cases marks with
        | other other behind => exact .other other (ih isLater behind)
        | hidden behind => exact .hidden (ih isLater behind)
        | named allowed isNamed behind =>
            have run := (length_words_writeOutLast? isLater).2.2
            exact .named allowed (isSome_read?_of_letters run isNamed) (ih isLater behind)
        | torn shut behind => exact .torn (isShut_writeOutLast? isLater shut) (ih isLater behind)
      · rename_i isNone
        obtain ⟨⟨parked, after⟩, isParked, rfl⟩ := Option.map_eq_some_iff.1 found
        have isNamed : (read? (c :: rest)).isSome = true := by rw [isParked]; rfl
        obtain ⟨letters, isName, all, _⟩ := parked.exists_name_eq
        have split := read?_eq_some_iff.1 isParked
        rw [isName, List.cons_append, List.cons.injEq] at split
        obtain ⟨rfl, rfl⟩ := split
        have last {torn : Nat} (behind : HasMarks true false false torn (letters ++ after)) :
            HasMarks true hidden inside torn (parked.writtenOut after) := by
          have nameless := hasMarks_of_count_eq_zero (writeOutLast?_eq_none_iff.1 isNone) behind
          exact (parked.hasMarks_writtenOut (nameless.of_plain_append
            (Text.mark_not_mem_of_all_isAlpha all) (Text.not_mem_of_all_isAlpha all))).allow
        cases marks with
        | other other => exact absurd rfl other
        | hidden behind => exact last behind
        | named _ _ behind => exact last behind
        | torn shut =>
            rw [read?_eq_none_of_endsRun (Text.endsRun_of_isShut shut)] at isNamed
            cases isNamed

end Parked

/-- When parked functions have been written out, no mark is left but hidden and torn ones. -/
theorem Text.hasMarks_expandParked {text : Text} {hidden inside : Bool} {torn : Nat}
    (marks : HasMarks true hidden inside torn text) :
    HasMarks false hidden inside torn text.expandParked :=
  Parked.hasMarks_of_count_eq_zero text.parkedCount_expandParked
    (Parked.writeOutUpTo_induct (motive := HasMarks true hidden inside torn)
      (fun _ _ found kept => Parked.hasMarks_writeOutLast? found kept) _ marks)

end TexCalc

import TexCalc.Proofs.Alphabet.Foreign
import TexCalc.Proofs.Residue.Concealed
import TexCalc.Proofs.Tex.Lexemes
import TexCalc.Proofs.Vocabulary.Standard

/-!
# Torn marks

A mark that the translation puts into a text has the name of a parked function behind it.  A mark
that is taken away from its name is torn: it ends what it was taken into, and the bracket that
closes this will follow it for good.  A mark that the formula spells itself is the name of a
control symbol, and its backslash hides it.  Where the readers of operands cut a text, they cut no
name and bring no mark out from behind its backslash.
-/

namespace TexCalc

namespace Parked

/-- A parked name is the mark and a run of letters. -/
theorem exists_name_eq (parked : Parked) :
    ∃ letters : Text, parked.name = mark :: letters ∧ letters.all Char.isAlpha = true ∧
      letters ≠ [] := by
  refine ⟨_, rfl, ?_⟩
  rcases parked with ⟨function, inverse⟩
  cases function <;> cases inverse <;> decide

/-- A mark has its name when a run of letters after it is the one of a parked function. -/
theorem isSome_read?_iff {text : Text} :
    (read? (mark :: text)).isSome = true ↔
      ∃ parked : Parked, ∃ letters rest : Text, parked.name = mark :: letters ∧
        letters.all Char.isAlpha = true ∧ letters ≠ [] ∧ text = letters ++ rest := by
  rw [Option.isSome_iff_exists]
  constructor
  · rintro ⟨⟨parked, rest⟩, found⟩
    obtain ⟨letters, isName, all, nonempty⟩ := parked.exists_name_eq
    have split := read?_eq_some_iff.1 found
    rw [isName, List.cons_append, List.cons.injEq] at split
    exact ⟨parked, letters, rest, isName, all, nonempty, split.2⟩
  · rintro ⟨parked, letters, rest, isName, _, _, rfl⟩
    refine ⟨(parked, rest), read?_eq_some_iff.2 ?_⟩
    rw [isName, List.cons_append]

/-- Letters that stay in place keep a name whole. -/
theorem isSome_read?_of_letters {text after : Text}
    (letters : text.takeWhile Char.isAlpha <+: after.takeWhile Char.isAlpha)
    (found : (read? (mark :: text)).isSome = true) :
    (read? (mark :: after)).isSome = true := by
  obtain ⟨parked, run, rest, isName, all, nonempty, rfl⟩ := isSome_read?_iff.1 found
  rw [List.takeWhile_append_of_pos (List.all_eq_true.1 all)] at letters
  obtain ⟨right, split⟩ := ((List.prefix_append _ _).trans letters).trans
    (List.takeWhile_prefix _)
  exact isSome_read?_iff.2 ⟨parked, run, right, isName, all, nonempty, split.symm⟩

/-- What follows a name does not matter. -/
theorem isSome_read?_append {text : Text} (found : (read? (mark :: text)).isSome = true)
    (right : Text) : (read? (mark :: (text ++ right))).isSome = true := by
  obtain ⟨parked, letters, rest, isName, all, nonempty, rfl⟩ := isSome_read?_iff.1 found
  exact isSome_read?_iff.2
    ⟨parked, letters, rest ++ right, isName, all, nonempty, List.append_assoc ..⟩

/-- A name is read only where a letter follows the mark. -/
theorem read?_eq_none_of_endsRun {text : Text} (ends : text.endsRun Char.isAlpha = true) :
    read? (mark :: text) = none := by
  rw [← Option.not_isSome_iff_eq_none, isSome_read?_iff]
  rintro ⟨_, letters, rest, _, all, nonempty, rfl⟩
  obtain ⟨c, run, rfl⟩ := List.exists_cons_of_ne_nil nonempty
  rw [List.all_cons, Bool.and_eq_true] at all
  simp [Text.endsRun, all.1] at ends

end Parked

namespace Text

open Parked (mark)

theorem isForeign_mark : isForeign mark = true := by
  decide

/-- Nothing but a closing bracket can follow. -/
def isShut (text : Text) : Bool :=
  text.head?.all fun c => c ∈ [')', ']', '\x7d']

/-- The marks of a text, its start being hidden or inside a control word or not.  Each is hidden,
has its name, where names are allowed, outside of all control words, or is torn, and the torn ones
are counted. -/
inductive HasMarks (named : Bool) : (hidden inside : Bool) → (torn : Nat) → Text → Prop where
  | nil {hidden inside : Bool} : HasMarks named hidden inside 0 []
  | other {hidden inside : Bool} {torn : Nat} {c : Char} {rest : Text} (other : c ≠ mark)
      (later : HasMarks named (c == '\\' && !hidden) (c == '\\' || inside && c.isAlpha) torn rest) :
      HasMarks named hidden inside torn (c :: rest)
  | hidden {inside : Bool} {torn : Nat} {rest : Text}
      (later : HasMarks named false false torn rest) :
      HasMarks named true inside torn (mark :: rest)
  | named {torn : Nat} {rest : Text} (allowed : named = true)
      (isNamed : (Parked.read? (mark :: rest)).isSome = true)
      (later : HasMarks named false false torn rest) :
      HasMarks named false false torn (mark :: rest)
  | torn {inside : Bool} {torn : Nat} {rest : Text} (shut : rest.isShut = true)
      (later : HasMarks named false false torn rest) :
      HasMarks named false inside (torn + 1) (mark :: rest)

variable {named hidden inside : Bool} {torn more : Nat} {text left right rest : Text} {c : Char}

theorem isShut_append (seam : text ≠ [] ∨ right.isShut = true) (shut : text.isShut = true) :
    (text ++ right).isShut = true := by
  cases text with
  | nil => exact seam.resolve_left (absurd rfl)
  | cons c text => exact shut

theorem isShut_of_append (shut : (left ++ right).isShut = true) : left.isShut = true := by
  cases left with
  | nil => rfl
  | cons c left => exact shut

theorem isShut_closer (bracket : Bracket) (rest : Text) :
    isShut (bracket.closer :: rest) = true := by
  cases bracket <;> rfl

theorem exists_closer_of_isShut (shut : isShut (c :: text) = true) :
    ∃ bracket : Bracket, c = bracket.closer := by
  have listed : c ∈ [')', ']', '\x7d'] := of_decide_eq_true shut
  simp only [List.mem_cons, List.not_mem_nil, or_false] at listed
  rcases listed with rfl | rfl | rfl
  · exact ⟨.round, rfl⟩
  · exact ⟨.square, rfl⟩
  · exact ⟨.curly, rfl⟩

theorem endsRun_of_isShut (shut : text.isShut = true) : text.endsRun Char.isAlpha = true := by
  cases text with
  | nil => rfl
  | cons c text =>
      obtain ⟨bracket, rfl⟩ := exists_closer_of_isShut shut
      simp [endsRun, (not_isAlpha_closer bracket).1]

theorem closer_ne_mark (bracket : Bracket) : bracket.closer ≠ mark := by
  cases bracket <;> decide

theorem opener_ne_mark (bracket : Bracket) : bracket.opener ≠ mark := by
  cases bracket <;> decide

namespace HasMarks

/-! ## Texts put together -/

theorem of_not_mem (without : mark ∉ text) : HasMarks named hidden inside 0 text := by
  induction text generalizing hidden inside with
  | nil => exact .nil
  | cons c rest ih =>
      rw [List.mem_cons, not_or] at without
      exact .other (Ne.symm without.1) (ih without.2)

theorem eq_zero_of_not_mem (marks : HasMarks named hidden inside torn text)
    (without : mark ∉ text) : torn = 0 := by
  induction marks with
  | nil => rfl
  | other _ _ ih => exact ih fun isMember => without (List.mem_cons_of_mem _ isMember)
  | hidden | named | torn => exact absurd List.mem_cons_self without

/-- Names need not be there where they are allowed. -/
theorem allow (marks : HasMarks false hidden inside torn text) :
    HasMarks true hidden inside torn text := by
  induction marks with
  | nil => exact .nil
  | other other _ ih => exact .other other ih
  | hidden _ ih => exact .hidden ih
  | named allowed => cases allowed
  | torn shut _ ih => exact .torn shut ih

/-- Without names control words do not matter. -/
theorem within_words (marks : HasMarks false hidden inside torn text) (other : Bool) :
    HasMarks false hidden other torn text := by
  induction marks generalizing other with
  | nil => exact .nil
  | other different _ ih => exact .other different (ih _)
  | hidden later => exact .hidden later
  | named allowed => cases allowed
  | torn shut later => exact .torn shut later

/-- Outside of a control word less is asked of a text. -/
theorem outside (marks : HasMarks named false inside torn text) :
    HasMarks named false false torn text := by
  induction text generalizing inside torn with
  | nil =>
      cases marks
      exact .nil
  | cons c rest ih =>
      cases marks with
      | other other later =>
          refine .other other ?_
          cases back : c == '\\' with
          | true =>
              rw [back, Bool.true_or] at later
              exact later
          | false =>
              rw [back, Bool.false_and, Bool.false_or] at later
              exact ih later
      | named allowed isNamed later => exact .named allowed isNamed later
      | torn shut later => exact .torn shut later

theorem hidesNext_mark (hidden : Bool) (rest : Text) :
    hidesNext hidden (mark :: rest) = hidesNext false rest :=
  rfl

theorem insideWord_mark (inside : Bool) (rest : Text) :
    insideWord inside (mark :: rest) = insideWord false rest := by
  rw [insideWord, show mark.isAlpha = false from rfl, Bool.and_false]
  rfl

/-- A torn mark at the end of a text is followed by a closing bracket or by nothing. -/
theorem append (first : HasMarks named hidden inside torn left)
    (second : HasMarks named (hidesNext hidden left) (insideWord inside left) more right)
    (seam : left.getLast? ≠ some mark ∨ right.isShut = true) :
    HasMarks named hidden inside (torn + more) (left ++ right) := by
  have tail {c : Char} {rest : Text}
      (seam : (c :: rest).getLast? ≠ some mark ∨ right.isShut = true) :
      rest.getLast? ≠ some mark ∨ right.isShut = true := by
    refine seam.imp_left fun noMark isLast => noMark ?_
    cases rest with
    | nil => cases isLast
    | cons d rest => rwa [List.getLast?_cons_cons]
  induction first with
  | nil =>
      rw [Nat.zero_add]
      exact second
  | other other _ ih => exact .other other (ih second (tail seam))
  | hidden _ ih =>
      rw [hidesNext_mark, insideWord_mark] at second
      exact .hidden (ih second (tail seam))
  | named allowed isNamed _ ih =>
      exact .named allowed (Parked.isSome_read?_append isNamed right) (ih second (tail seam))
  | @torn _ torn rest shut _ ih =>
      rw [insideWord_mark] at second
      rw [Nat.add_right_comm]
      refine .torn (isShut_append ?_ shut) (ih second (tail seam))
      cases rest with
      | nil => exact .inr (seam.resolve_left (absurd rfl))
      | cons => exact .inl (List.cons_ne_nil _ _)

/-- Behind a character that is neither a mark nor part of a control word. -/
theorem cons (other : c ≠ mark) (noLetter : c.isAlpha = false) (plain : c ≠ '\\')
    (later : HasMarks named false false torn text) :
    HasMarks named hidden inside torn (c :: text) := by
  refine .other other ?_
  rwa [beq_false_of_ne plain, noLetter, Bool.and_false]

theorem tail (marks : HasMarks named hidden inside torn (c :: text)) (other : c ≠ mark)
    (plain : c ≠ '\\') : HasMarks named false false torn text := by
  cases marks with
  | other _ later =>
      rw [beq_false_of_ne plain, Bool.false_and] at later
      exact later.outside
  | hidden | named | torn => exact absurd rfl other

/-- A part without marks and backslashes in front of a text. -/
theorem plain_append (noMark : mark ∉ left) (plain : '\\' ∉ left)
    (later : HasMarks named false false torn right) :
    HasMarks named false false torn (left ++ right) := by
  induction left with
  | nil => exact later
  | cons c left ih =>
      rw [List.mem_cons, not_or] at noMark plain
      refine .other (Ne.symm noMark.1) ?_
      rw [beq_false_of_ne (Ne.symm plain.1), Bool.false_and, Bool.false_and]
      exact ih noMark.2 plain.2

/-- Without names it does not matter where a text stands that is put behind characters of no
meaning. -/
theorem behind (later : HasMarks false false false torn right) (nonempty : left ≠ [])
    (noMark : mark ∉ left) (plain : '\\' ∉ left) :
    HasMarks false hidden inside torn (left ++ right) := by
  obtain ⟨c, left, rfl⟩ := List.exists_cons_of_ne_nil nonempty
  rw [List.mem_cons, not_or] at noMark plain
  refine .other (Ne.symm noMark.1) ?_
  rw [beq_false_of_ne (Ne.symm plain.1), Bool.false_and]
  exact (plain_append noMark.2 plain.2 later).within_words _

theorem of_plain_append (noMark : mark ∉ left) (plain : '\\' ∉ left)
    (marks : HasMarks named false inside torn (left ++ right)) :
    HasMarks named false false torn right := by
  induction left generalizing inside with
  | nil => exact marks.outside
  | cons c left ih =>
      rw [List.mem_cons, not_or] at noMark plain
      exact ih noMark.2 plain.2 (marks.tail (Ne.symm noMark.1) (Ne.symm plain.1))

/-- A character that belongs to neither a name nor a control word divides the torn marks. -/
theorem of_append_cons (other : c ≠ mark) (noLetter : c.isAlpha = false) (plain : c ≠ '\\')
    (marks : HasMarks named hidden inside torn (left ++ c :: right)) :
    ∃ before after, torn = before + after ∧ HasMarks named hidden inside before left ∧
      HasMarks named false false after right := by
  induction left generalizing hidden inside torn with
  | nil => exact ⟨0, torn, (Nat.zero_add torn).symm, .nil, marks.tail other plain⟩
  | cons d left ih =>
      have run : (left ++ c :: right).takeWhile Char.isAlpha <+: left.takeWhile Char.isAlpha := by
        have same := takeWhile_append_rest left
          (show endsRun Char.isAlpha (c :: right) = true by simp [endsRun, noLetter])
        exact same ▸ List.prefix_refl _
      cases marks with
      | other different later =>
          obtain ⟨before, after, rfl, first, second⟩ := ih later
          exact ⟨before, after, rfl, .other different first, second⟩
      | hidden later =>
          obtain ⟨before, after, rfl, first, second⟩ := ih later
          exact ⟨before, after, rfl, .hidden first, second⟩
      | named allowed isNamed later =>
          obtain ⟨before, after, rfl, first, second⟩ := ih later
          have stays := Parked.isSome_read?_of_letters run isNamed
          exact ⟨before, after, rfl, .named allowed stays first, second⟩
      | torn shut later =>
          obtain ⟨before, after, rfl, first, second⟩ := ih later
          exact ⟨before + 1, after, Nat.add_right_comm .., .torn (isShut_of_append shut) first,
            second⟩

/-- A text that ends with a character of neither a name nor a control word can be continued. -/
theorem concat_append (other : c ≠ mark) (noLetter : c.isAlpha = false) (plain : c ≠ '\\')
    (first : HasMarks named hidden inside torn (left ++ [c]))
    (second : HasMarks named false false more right) :
    HasMarks named hidden inside (torn + more) (left ++ [c] ++ right) := by
  refine first.append ?_ (.inl ?_)
  · rw [hidesNext_concat plain, insideWord_append, insideWord, insideWord, beq_false_of_ne plain,
      noLetter, Bool.and_false]
    exact second
  · rw [List.getLast?_concat, ne_eq, Option.some.injEq]
    exact other

/-- The closing bracket of a group shuts in what stands in front of it. -/
theorem append_closer (bracket : Bracket) (first : HasMarks named hidden inside torn left)
    (second : HasMarks named false false more right) :
    HasMarks named hidden inside (torn + more) (left ++ bracket.closer :: right) := by
  obtain ⟨noLetter, plain⟩ := not_isAlpha_closer bracket
  exact first.append (.cons (closer_ne_mark bracket) noLetter plain second)
    (.inr (isShut_closer bracket right))

theorem parenthesized_append (first : HasMarks named false false torn text)
    (second : HasMarks named false false more right) :
    HasMarks named hidden inside (torn + more) (text.parenthesized ++ right) := by
  rw [Text.parenthesized_append]
  exact .cons (by decide) (by decide) (by decide) (first.append_closer .round second)

theorem parenthesized (marks : HasMarks named false false torn text) :
    HasMarks named hidden inside torn text.parenthesized := by
  have alone : HasMarks named hidden inside (torn + 0) (text.parenthesized ++ []) :=
    marks.parenthesized_append .nil
  rwa [List.append_nil] at alone

theorem dropWhile {accept : Char → Bool} (noMark : accept mark = false)
    (plain : accept '\\' = false) (marks : HasMarks named false inside torn text) :
    HasMarks named false false torn (text.dropWhile accept) := by
  rw [← List.takeWhile_append_dropWhile (p := accept) (l := text)] at marks
  exact marks.of_plain_append (not_mem_of_all noMark List.all_takeWhile)
    (not_mem_of_all plain List.all_takeWhile)

theorem skipBlanks (marks : HasMarks named false inside torn text) :
    HasMarks named false false torn text.skipBlanks :=
  marks.dropWhile (by decide) (by decide)

theorem trim (marks : HasMarks named false inside torn text) :
    HasMarks named false false torn text.trim := by
  obtain ⟨lead, trail, split, leadBlank, trailBlank⟩ := text.exists_trim_eq
  rw [split] at marks
  have back := marks.of_plain_append (not_mem_of_all (by decide) leadBlank)
    (not_mem_of_all (by decide) leadBlank)
  cases trail with
  | nil => rwa [List.append_nil] at back
  | cons d trail =>
      have blank := List.all_eq_true.1 trailBlank d List.mem_cons_self
      obtain ⟨noLetter, plain⟩ := not_isAlpha_of_isBlank blank
      have other : d ≠ mark := by
        rintro rfl
        cases blank
      obtain ⟨before, after, rfl, first, second⟩ := back.of_append_cons other noLetter plain
      have nothing : after = 0 := second.eq_zero_of_not_mem fun isMember =>
        not_mem_of_all (by decide) trailBlank (List.mem_cons_of_mem d isMember)
      rwa [nothing]

theorem wrap (marks : HasMarks named false inside torn text) :
    HasMarks named false false torn text.wrap := by
  unfold Text.wrap
  split
  · exact marks.trim
  · exact marks.trim.parenthesized

theorem wrap_append (first : HasMarks named false inside torn text)
    (second : HasMarks named false false more right) :
    HasMarks named false false (torn + more) (text.wrap ++ right) := by
  obtain ⟨within, shape, _⟩ := exists_wrap_eq text
  have isConcat : text.wrap = ('(' :: within) ++ [')'] := shape
  have wrapped := first.wrap
  rw [isConcat] at wrapped ⊢
  exact wrapped.concat_append (by decide) (by decide) (by decide) second

/-! ## Readers -/

theorem of_group? {bracket : Bracket} {group : Group}
    (found : bracket.group? text = some group)
    (marks : HasMarks named hidden inside torn text) :
    ∃ within after, torn = within + after ∧ HasMarks named hidden inside within group.inside ∧
      HasMarks named false false after group.rest := by
  rw [Bracket.eq_of_group? found] at marks
  obtain ⟨noLetter, plain⟩ := not_isAlpha_closer bracket
  exact marks.of_append_cons (closer_ne_mark bracket) noLetter plain

/-- A group in brackets, and what follows it. -/
theorem of_brackets {bracket : Bracket} {group : Group}
    (found : bracket.group? text = some group)
    (marks : HasMarks named hidden inside torn (bracket.opener :: text)) :
    ∃ within after, torn = within + after ∧ HasMarks named false false within group.inside ∧
      HasMarks named false false after group.rest :=
  of_group? found (marks.tail (opener_ne_mark bracket) (not_isAlpha_opener bracket).2)

/-- Inside a control word letters are passed over. -/
theorem of_letters {letters : Text} (all : letters.all Char.isAlpha = true)
    (marks : HasMarks named false true torn (letters ++ rest)) :
    HasMarks named false true torn rest := by
  induction letters with
  | nil => exact marks
  | cons d letters ih =>
      rw [List.all_cons, Bool.and_eq_true] at all
      cases marks with
      | other _ later =>
          rw [beq_false_of_ne (ne_backslash_of_isAlpha all.1), all.1] at later
          exact ih all.2 later
      | torn => cases all.1

theorem letters_append {letters : Text} (all : letters.all Char.isAlpha = true)
    (later : HasMarks named false true torn rest) :
    HasMarks named false true torn (letters ++ rest) := by
  induction letters with
  | nil => exact later
  | cons d letters ih =>
      rw [List.all_cons, Bool.and_eq_true] at all
      refine .other (Parked.ne_mark_of_isAlpha all.1) ?_
      rw [beq_false_of_ne (ne_backslash_of_isAlpha all.1), all.1]
      exact ih all.2

/-- The backslash of a control sequence hides nothing behind its name. -/
theorem of_control {name : Text} (isName : Control.IsName name)
    (marks : HasMarks named false inside torn ('\\' :: (name ++ rest))) :
    HasMarks named false (insideWord true name) torn rest := by
  have later : HasMarks named true true torn (name ++ rest) := by
    cases marks with
    | other _ later => exact later
  rcases isName with ⟨nonempty, letters⟩ | ⟨c, rfl, noLetter⟩
  · rw [insideWord_true_of_all letters]
    obtain ⟨d, run, rfl⟩ := List.exists_cons_of_ne_nil nonempty
    rw [List.all_cons, Bool.and_eq_true] at letters
    cases later with
    | other _ later =>
        rw [beq_false_of_ne (ne_backslash_of_isAlpha letters.1), letters.1] at later
        exact later.of_letters letters.2
    | hidden => cases letters.1
  · cases later with
    | other _ later =>
        rw [Bool.not_true, Bool.and_false] at later
        exact later
    | hidden later => exact later

theorem control_append {name : Text} (isName : Control.IsName name)
    (later : HasMarks named false (insideWord true name) torn rest) :
    HasMarks named false inside torn ('\\' :: (name ++ rest)) := by
  refine .other (by decide) ?_
  change HasMarks named true true torn (name ++ rest)
  rcases isName with ⟨nonempty, letters⟩ | ⟨c, rfl, noLetter⟩
  · rw [insideWord_true_of_all letters] at later
    obtain ⟨d, run, rfl⟩ := List.exists_cons_of_ne_nil nonempty
    rw [List.all_cons, Bool.and_eq_true] at letters
    refine .other (Parked.ne_mark_of_isAlpha letters.1) ?_
    rw [beq_false_of_ne (ne_backslash_of_isAlpha letters.1), letters.1]
    exact later.letters_append letters.2
  · by_cases same : c = mark
    · subst same
      exact .hidden later
    · refine .other same ?_
      rw [Bool.not_true, Bool.and_false]
      exact later

end HasMarks

/-- `rest` is an ending of `text` at which no mark is brought out or taken away from its name. -/
def PartsMarks (text rest : Text) : Prop :=
  ∃ lead, text = lead ++ rest ∧ ∀ {named inside : Bool} {torn : Nat},
    HasMarks named false inside torn text → ∃ before after, torn = before + after ∧
      HasMarks named false inside before lead ∧ HasMarks named false false after rest

namespace PartsMarks

/-- No reader of operands cuts a parked name in two. -/
theorem of_passes {withCommands : Bool} (passes : Passes withCommands text rest) :
    text.PartsMarks rest := by
  induction passes with
  | done text =>
      exact ⟨[], rfl, fun marks => ⟨0, _, (Nat.zero_add _).symm, .nil, marks.outside⟩⟩
  | @char c text rest plain _ ih =>
      obtain ⟨lead, rfl, parts⟩ := ih
      have facts : c ≠ mark ∧ c ≠ '\\' := by
        constructor <;>
        · rintro rfl
          rcases plain with operand | listed
          · exact absurd operand (by decide +kernel)
          · exact absurd listed (by decide)
      refine ⟨c :: lead, rfl, fun marks => ?_⟩
      cases marks with
      | other other later =>
          have back := beq_false_of_ne facts.2
          rw [back, Bool.false_and] at later
          obtain ⟨before, after, same, first, second⟩ := parts later
          refine ⟨before, after, same, .other other ?_, second⟩
          rwa [back, Bool.false_and]
      | named | torn => exact absurd rfl facts.1
  | @group bracket text rest group _ found _ ih =>
      obtain ⟨lead, split, parts⟩ := ih
      obtain ⟨noLetter, plain⟩ := not_isAlpha_opener bracket
      refine ⟨bracket.opener :: (group.inside ++ bracket.closer :: lead), ?_, fun marks => ?_⟩
      · rw [Bracket.eq_of_group? found, split, List.cons_append, List.append_assoc,
          List.cons_append]
      · obtain ⟨within, behind, rfl, inner, later⟩ := marks.of_brackets found
        obtain ⟨before, after, rfl, first, second⟩ := parts later
        exact ⟨within + before, after, (Nat.add_assoc ..).symm,
          .cons (opener_ne_mark bracket) noLetter plain (inner.append_closer bracket first),
          second⟩
  | @control text rest control _ found _ ih =>
      obtain ⟨lead, split, parts⟩ := ih
      have isName := Control.isName_of_read? found
      have whole := Control.eq_of_read? found
      refine ⟨'\\' :: (control.name ++ lead), ?_, fun marks => ?_⟩
      · rw [List.cons_append, List.append_assoc, ← split, ← whole]
      · rw [whole] at marks
        obtain ⟨before, after, same, first, second⟩ := parts (marks.of_control isName)
        exact ⟨before, after, same, first.control_append isName, second⟩

theorem of_drops (drops : text.Drops isOperandChar rest) : text.PartsMarks rest := by
  have passes : Passes false text rest := .of_drops drops
  exact of_passes passes

/-- The part of a text that is taken, and what follows it. -/
theorem exists_eq_add (parts : text.PartsMarks rest)
    (marks : HasMarks named false inside torn text) :
    ∃ before after, torn = before + after ∧
      HasMarks named false inside before (text.before rest) ∧
        HasMarks named false false after rest := by
  obtain ⟨lead, rfl, divides⟩ := parts
  rw [before_append]
  exact divides marks

end PartsMarks

namespace HasMarks

/-- An exponent, and what follows it. -/
theorem of_exponent? {vocabulary : Vocabulary} {exponent : Cut}
    (found : text.exponent? vocabulary = some exponent)
    (marks : HasMarks named false inside torn text) :
    ∃ raised after, torn = raised + after ∧ HasMarks named false false raised exponent.text ∧
      HasMarks named false false after exponent.rest := by
  have skipped := marks.skipBlanks
  have ofWord {word after : Text} (all : word.all Char.isAlphanum = true)
      (split : text.skipBlanks = word ++ after) :
      ∃ raised behind, torn = raised + behind ∧ HasMarks named false false raised word ∧
        HasMarks named false false behind after := by
    rw [split] at skipped
    exact ⟨0, torn, (Nat.zero_add torn).symm, .of_not_mem (not_mem_of_all (by decide) all),
      skipped.of_plain_append (not_mem_of_all (by decide) all) (not_mem_of_all (by decide) all)⟩
  simp only [exponent?] at found
  split at found
  · cases found
  · rename_i c rest start
    split at found
    · rename_i bracket opens
      obtain ⟨group, isGroup, rfl⟩ := Option.map_eq_some_iff.1 found
      rw [start, ← opener_of_ofArgument? opens] at skipped
      obtain ⟨within, after, same, inner, later⟩ := skipped.of_brackets isGroup
      exact ⟨within, after, same, inner.wrap, later⟩
    · split at found
      · rename_i name after isConstant
        cases found
        exact ofWord name.all_isAlphanum (start ▸ Vocabulary.eq_of_constantAt? isConstant)
      · split at found
        · rename_i word
          cases found
          have all : [c].all Char.isAlphanum = true := by simp [word]
          exact ofWord all start
        · cases found

end HasMarks

end Text

end TexCalc

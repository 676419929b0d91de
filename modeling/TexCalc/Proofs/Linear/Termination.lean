import TexCalc.Proofs.Linear.Structures

/-!
# Replacing fractions and roots comes to an end

A round replaces one command by brackets, signs and the texts of its arguments.  Trimming an
argument may take away the blank that a backslash hides, which then hides the parenthesis behind it
instead; neither is the name of a structure.  No round makes a command out of what was none, so that
each leaves one command less, and no more rounds are needed than there are commands.
-/

namespace TexCalc

namespace Structure

variable {c : Char} {text rest after right : Text}

/-! ## Counting the commands of texts put together -/

theorem not_isName_single (c : Char) : ¬ IsName [c] := by
  simp [IsName, Command.isFraction, Command.isRoot]

theorem count_pieces_cons (plain : c ≠ '\\') (rest : Text) :
    count (Text.pieces (c :: rest)) = count rest.pieces := by
  rw [Text.pieces_cons plain]
  exact List.countP_cons_of_neg Bool.false_ne_true

theorem count_pieces_control {control : Control} (found : Control.read? rest = some control) :
    count (Text.pieces ('\\' :: rest)) =
      count control.rest.pieces + if IsName control.name then 1 else 0 := by
  rw [Text.pieces_control found, count, List.countP_cons]
  rfl

/-- No command goes on over a character that is neither a letter nor a backslash.  A backslash in
front of the character hides it, as it would hide any other one. -/
theorem count_pieces_append_cons (plain : c ≠ '\\') (noLetter : c.isAlpha = false)
    (left right : Text) :
    count (Text.pieces (left ++ c :: right)) = count left.pieces + count right.pieces := by
  have ends : Text.endsRun Char.isAlpha (c :: right) = true := by simp [Text.endsRun, noLetter]
  fun_induction Text.pieces left with
  | case1 => exact (count_pieces_cons plain right).trans (Nat.zero_add _).symm
  | case2 rest control found ih =>
      have nonempty : rest ≠ [] := fun empty => by simp [empty, Control.read?] at found
      have longer : Control.read? (rest ++ c :: right) =
          some { control with rest := control.rest ++ c :: right } := by
        rw [Control.read?_append_rest nonempty ends, found]
        rfl
      rw [List.cons_append, count_pieces_control longer, ih, ← Text.pieces_control found,
        count_pieces_control found]
      exact Nat.add_right_comm _ _ _
  | case3 rest nothing =>
      have hidden : Control.read? (c :: right) = some ⟨[c], right⟩ := by
        simp [Control.read?, noLetter]
      rw [Control.read?_eq_none_iff.1 nothing, List.cons_append, List.nil_append,
        count_pieces_control hidden, if_neg (not_isName_single c)]
      exact (Nat.zero_add _).symm
  | case4 d rest other ih =>
      rw [List.cons_append, count_pieces_cons other, ih, ← Text.pieces_cons other,
        count_pieces_cons other]

theorem count_pieces_of_not_mem (plain : '\\' ∉ text) : count text.pieces = 0 := by
  induction text with
  | nil => rw [Text.pieces]; rfl
  | cons c text ih =>
      rw [List.mem_cons, not_or] at plain
      rw [count_pieces_cons (Ne.symm plain.1), ih plain.2]

theorem count_pieces_append_of_not_mem {front : Text} (plain : '\\' ∉ front) (rest : Text) :
    count (Text.pieces (front ++ rest)) = count rest.pieces := by
  induction front with
  | nil => rfl
  | cons c front ih =>
      rw [List.mem_cons, not_or] at plain
      rw [List.cons_append, count_pieces_cons (Ne.symm plain.1), ih plain.2]

theorem not_mem_of_isAllBlank (blank : text.isAllBlank = true) : '\\' ∉ text :=
  Text.not_mem_of_all (by decide) blank

theorem count_pieces_trim (text : Text) : count text.trim.pieces = count text.pieces := by
  obtain ⟨lead, trail, split, leadBlank, trailBlank⟩ := text.exists_trim_eq
  conv => rhs; rw [split, count_pieces_append_of_not_mem (not_mem_of_isAllBlank leadBlank)]
  cases trail with
  | nil => rw [List.append_nil]
  | cons c trail =>
      have plain := not_mem_of_isAllBlank trailBlank
      rw [List.mem_cons, not_or] at plain
      have noLetter :=
        (Text.not_isAlpha_of_isBlank (List.all_eq_true.1 trailBlank c List.mem_cons_self)).1
      rw [count_pieces_append_cons (Ne.symm plain.1) noLetter, count_pieces_of_not_mem plain.2,
        Nat.add_zero]

theorem count_pieces_parenthesized_append (text right : Text) :
    count (Text.pieces (text.parenthesized ++ right)) = count text.pieces + count right.pieces := by
  rw [Text.parenthesized_append, count_pieces_cons (by decide),
    count_pieces_append_cons (by decide) (by decide)]

theorem count_pieces_parenthesized (text : Text) :
    count (Text.pieces text.parenthesized) = count text.pieces := by
  have alone := count_pieces_parenthesized_append text []
  rwa [List.append_nil, Text.pieces] at alone

theorem count_pieces_wrap (text : Text) : count text.wrap.pieces = count text.pieces := by
  unfold Text.wrap
  split
  · exact count_pieces_trim text
  · rw [count_pieces_parenthesized, count_pieces_trim]

/-! ## One round -/

theorem count_pieces_source {name : Text} (isName : Control.IsName name) :
    count (Text.pieces ('\\' :: name)) = if IsName name then 1 else 0 := by
  have found : Control.read? (name ++ []) = some ⟨name, []⟩ :=
    Control.read?_of_isName isName fun _ => rfl
  rw [List.append_nil] at found
  rw [count_pieces_control found, Text.pieces]
  exact Nat.zero_add _

theorem count_pieces_of_group? {bracket : Bracket} {group : Group}
    (found : bracket.group? text = some group) :
    count text.pieces = count group.inside.pieces + count group.rest.pieces := by
  rw [Bracket.eq_of_group? found]
  exact count_pieces_append_cons (by cases bracket <;> decide) (by cases bracket <;> decide) _ _

theorem count_pieces_skipBlanks (text : Text) :
    count text.skipBlanks.pieces = count text.pieces := by
  have plain : '\\' ∉ text.takeWhile isAsciiBlank :=
    Text.not_mem_of_all (by decide) List.all_takeWhile
  have whole : text.takeWhile isAsciiBlank ++ text.skipBlanks = text :=
    List.takeWhile_append_dropWhile
  conv => rhs; rw [← whole, count_pieces_append_of_not_mem plain]

theorem count_pieces_of_argument {argument : Argument}
    (found : Argument.read? text = some argument) :
    count text.pieces = count argument.text.pieces + count argument.rest.pieces := by
  rw [← count_pieces_skipBlanks]
  simp only [Argument.read?] at found
  split at found
  · cases found
  · rename_i d rest start
    rw [start]
    split at found
    · rename_i brace
      obtain ⟨group, isGroup, rfl⟩ := Option.map_eq_some_iff.1 found
      rw [count_pieces_cons (brace ▸ by decide), count_pieces_of_group? isGroup]
    · split at found
      · rename_i back
        obtain ⟨control, isControl, rfl⟩ := Option.map_eq_some_iff.1 found
        rw [back, count_pieces_control isControl, Control.source,
          count_pieces_source (Control.isName_of_read? isControl), Nat.add_comm]
      · rename_i plain
        split at found <;> cases found
        rw [count_pieces_cons plain, count_pieces_cons plain, Text.pieces]
        exact (Nat.zero_add _).symm

theorem count_pieces_of_optionalArgument {argument : Argument}
    (found : Argument.readOptional? text = some argument) :
    count text.pieces = count argument.text.pieces + count argument.rest.pieces := by
  rw [← count_pieces_skipBlanks]
  simp only [Argument.readOptional?] at found
  split at found
  · rename_i rest start
    obtain ⟨group, isGroup, rfl⟩ := Option.map_eq_some_iff.1 found
    rw [start, count_pieces_cons (by decide), count_pieces_of_group? isGroup]
  · cases found

/-- A structure on one line has the commands of its arguments. -/
theorem count_pieces_linear_append (found : Structure) (right : Text) :
    count (Text.pieces (found.linear ++ right)) =
      (match found with
        | fraction numerator denominator => count numerator.pieces + count denominator.pieces
        | root radicand => count radicand.pieces
        | indexedRoot index radicand => count index.pieces + count radicand.pieces) +
      count right.pieces := by
  have sqrt : '\\' ∉ "sqrt".toList := by decide
  have one : '\\' ∉ "1/".toList := by decide
  cases found with
  | fraction numerator denominator =>
      rw [linear, count_pieces_parenthesized_append,
        count_pieces_append_cons (by decide) (by decide), count_pieces_wrap, count_pieces_wrap]
  | root radicand =>
      rw [linear, count_pieces_parenthesized_append, count_pieces_append_of_not_mem sqrt,
        count_pieces_parenthesized, count_pieces_trim]
  | indexedRoot index radicand =>
      rw [linear, count_pieces_parenthesized_append,
        count_pieces_append_cons (by decide) (by decide), count_pieces_parenthesized,
        count_pieces_append_of_not_mem one, count_pieces_wrap, count_pieces_wrap,
        Nat.add_comm (count radicand.pieces)]

/-- A structure keeps the commands that stood behind its own one. -/
theorem count_pieces_of_read? {name : Text} {found : Structure}
    (isRead : read? name text = some (found, after)) :
    count (Text.pieces (found.linear ++ after)) = count text.pieces := by
  rw [count_pieces_linear_append]
  simp only [read?] at isRead
  split at isRead
  · obtain ⟨numerator, isNumerator, isRead⟩ := Option.bind_eq_some_iff.1 isRead
    obtain ⟨denominator, isDenominator, same⟩ := Option.map_eq_some_iff.1 isRead
    cases same
    rw [count_pieces_of_argument isNumerator, count_pieces_of_argument isDenominator, Nat.add_assoc]
  · split at isRead
    · simp only [readRoot?] at isRead
      split at isRead
      · obtain ⟨index, isIndex, isRead⟩ := Option.bind_eq_some_iff.1 isRead
        obtain ⟨radicand, isRadicand, same⟩ := Option.map_eq_some_iff.1 isRead
        cases same
        rw [count_pieces_of_optionalArgument isIndex, count_pieces_of_argument isRadicand,
          Nat.add_assoc]
      · obtain ⟨radicand, isRadicand, same⟩ := Option.map_eq_some_iff.1 isRead
        cases same
        rw [count_pieces_of_argument isRadicand]
    · cases isRead

/-- A round takes away one command, and it does not begin with a letter what did not before. -/
theorem count_pieces_resolveLast? {resolved : Text}
    (found : resolveLast? text.pieces = some resolved) :
    count text.pieces = count resolved.pieces + 1 ∧
      (text.endsRun Char.isAlpha = true → resolved.endsRun Char.isAlpha = true) := by
  apply resolveLast?_induct (motive := fun text resolved =>
    count text.pieces = count resolved.pieces + 1 ∧
      (text.endsRun Char.isAlpha = true → resolved.endsRun Char.isAlpha = true)) _ _ _ found
  · intro rest control structured after isControl isRead
    refine ⟨?_, fun _ => by cases structured <;> rfl⟩
    rw [count_pieces_control isControl, if_pos (isName_of_read? isRead),
      count_pieces_of_read? isRead]
  · intro rest control inner isControl ih
    obtain ⟨fewer, stillEnds⟩ := ih
    have again : Control.read? (control.name ++ inner) = some ⟨control.name, inner⟩ :=
      Control.read?_of_isName (Control.isName_of_read? isControl) fun letters =>
        stillEnds (Control.endsRun_of_read? isControl letters)
    refine ⟨?_, id⟩
    rw [count_pieces_control isControl, count_pieces_control again, fewer]
    exact Nat.add_right_comm _ _ _
  · intro d rest inner plain ih
    refine ⟨?_, id⟩
    rw [count_pieces_cons plain, count_pieces_cons plain, ih.1]

/-! ## All rounds -/

/-- A text with a command that can be read has a command. -/
theorem resolveLast?_eq_none_of_count (none : count text.pieces = 0) :
    resolveLast? text.pieces = Option.none := by
  cases found : resolveLast? text.pieces with
  | none => rfl
  | some resolved => rw [(count_pieces_resolveLast? found).1] at none; cases none

/-- As many rounds as there are commands bring a text to rest, each of them taking one command. -/
theorem settles_resolveUpTo {rounds : Nat} (enough : count text.pieces ≤ rounds) :
    Settles (fun text => resolveLast? text.pieces)
      (count text.pieces - count (resolveUpTo rounds text).pieces) text
      (resolveUpTo rounds text) := by
  induction rounds generalizing text with
  | zero => exact .rest (resolveLast?_eq_none_of_count (Nat.le_zero.1 enough))
  | succ rounds ih =>
      rw [resolveUpTo]
      cases found : resolveLast? text.pieces with
      | none => exact .rest found
      | some resolved =>
          have fewer := (count_pieces_resolveLast? found).1
          have enough : count resolved.pieces ≤ rounds := by omega
          have later := ih enough
          have most : count (resolveUpTo rounds resolved).pieces ≤ count resolved.pieces := by
            refine resolveUpTo_induct (motive := fun later =>
              count later.pieces ≤ count resolved.pieces) ?_ rounds (Nat.le_refl _)
            intro text next isNext kept
            have := (count_pieces_resolveLast? isNext).1
            omega
          rw [show count text.pieces - count (resolveUpTo rounds resolved).pieces =
            (count resolved.pieces - count (resolveUpTo rounds resolved).pieces) + 1 by omega]
          exact .step found later

/-- Where nothing is replaced any more, no command can be read. -/
theorem read?_eq_none_of_resolveLast? {front back : List Piece} {name : Text}
    (still : resolveLast? (front ++ .control name :: back) = none) :
    read? name (Text.ofPieces back) = none := by
  induction front with
  | nil =>
      rw [List.nil_append, resolveLast?] at still
      split at still
      · cases still
      · exact Option.map_eq_none_iff.1 still
  | cons piece front ih =>
      have behind : resolveLast? (front ++ .control name :: back) = none := by
        cases found : resolveLast? (front ++ .control name :: back) with
        | none => rfl
        | some resolved => simp [resolveLast?, found] at still
      exact ih behind

end Structure

/-- Every round leaves one command for a structure less, so that the rounds come to an end: after as
many as commands have gone, and the number of commands at the start is enough whatever the text.  No
command in the final text has arguments that can be read. -/
theorem Text.resolveStructures_terminates (text : Text) :
    (∀ earlier later : Text, Structure.resolveLast? earlier.pieces = some later →
      Structure.count earlier.pieces = Structure.count later.pieces + 1) ∧
    Settles (fun text => Structure.resolveLast? text.pieces)
      (Structure.count text.pieces - Structure.count text.resolveStructures.pieces) text
      text.resolveStructures ∧
    (∀ rounds, Structure.count text.pieces ≤ rounds →
      Structure.resolveUpTo rounds text = text.resolveStructures) ∧
    ∀ front name back, text.resolveStructures.pieces = front ++ .control name :: back →
      Structure.read? name (ofPieces back) = none := by
  have settles := Structure.settles_resolveUpTo (Nat.le_refl (Structure.count text.pieces))
  refine ⟨fun _ _ found => (Structure.count_pieces_resolveLast? found).1, settles, ?_, ?_⟩
  · exact fun rounds enough => Structure.resolveUpTo_of_settles
      (settles.within (Nat.le_trans (Nat.sub_le _ _) enough))
  · intro front name back split
    have still : Structure.resolveLast? text.resolveStructures.pieces = none := settles.still
    rw [split] at still
    exact Structure.read?_eq_none_of_resolveLast? still

end TexCalc

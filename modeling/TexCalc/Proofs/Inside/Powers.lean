import TexCalc.Proofs.Inside.Trails
import TexCalc.Proofs.Linear.Powers
import TexCalc.Proofs.Marks.WrittenOut
import TexCalc.Proofs.Nesting.Calls
import TexCalc.Proofs.Words.Kept

/-!
# Parked functions and powers in front of a trail

The last steps leave a trail where it is as well.  Inside a pair of brackets a closed text is
therefore brought into its linear form as if nothing stood around it.
-/

namespace TexCalc

variable {text trail : Text}

/-! ## Parked functions -/

namespace Parked

variable {next : Text}

theorem expandParked_of_moves (moves : writeOutLast? text = some next) :
    text.expandParked = next.expandParked :=
  expandParked_of_settles (.step moves (settles_expandParked next))

theorem expandParked_of_still (still : writeOutLast? text = none) : text.expandParked = text := by
  rw [Text.expandParked, writeOutLast?_eq_none_iff.1 still]
  rfl

theorem isClosed_of_writeOutLast? (closed : text.IsClosed)
    (found : writeOutLast? text = some next) : next.IsClosed :=
  closed.of_walk ((length_words_writeOutLast? found).2.1 closed.only)
    fun _ _ => walk_writeOutLast? found closed.only

/-- No name is written out in a text without marks. -/
theorem writeOutLast?_of_not_mem (noMark : mark ∉ text) : writeOutLast? text = none :=
  writeOutLast?_eq_none_iff.2 (count_of_not_mem noMark)

/-- What holds no mark stays in front of what follows. -/
theorem expandParked_append {front : Text} (noMark : mark ∉ front) (text : Text) :
    Text.expandParked (front ++ text) = front ++ text.expandParked := by
  refine expandParked_of_settles
    ((settles_expandParked text).behind front (fun _ => True) ?_ trivial ?_)
  · exact fun _ _ _ moves => ⟨writeOutLast?_append moves, trivial⟩
  · exact fun _ _ still => writeOutLast?_append_eq_none noMark still

theorem isTrail_of_writeOutLast? (isTrail : trail.IsTrail)
    (found : writeOutLast? trail = some next) : next.IsTrail := by
  induction trail generalizing next with
  | nil => cases found
  | cons c rest ih =>
      have stop : isStop c = true := isTrail.head
      rw [writeOutLast?, read?_eq_none (ne_of_isStop stop (by decide))] at found
      cases isLater : writeOutLast? rest with
      | none =>
          rw [isLater] at found
          cases found
      | some later =>
          rw [isLater] at found
          cases found
          cases blank : isAsciiBlank c with
          | false => exact .of_isStop blank stop later
          | true =>
              rw [Text.IsTrail, Text.skipBlanks, List.dropWhile_cons_of_pos blank] at isTrail ⊢
              exact ih isTrail isLater

section

variable (isTrail : trail.IsTrail)

include isTrail

theorem writtenOut_trail (parked : Parked) (keeps : text.KeepsGroups trail) :
    parked.writtenOut (text ++ trail) = parked.writtenOut text ++ trail := by
  cases start : text.skipBlanks with
  | nil =>
      have stops := isTrail.skipBlanks.head
      have bare : parked.writtenOut text = parked.bare ++ text := by simp only [writtenOut, start]
      rw [bare, List.append_assoc, writtenOut, Text.skipBlanks_trail_nil start]
      cases begins : trail.skipBlanks with
      | nil => rfl
      | cons c rest =>
          rw [begins] at stops
          simp only [Bracket.ofArgument?_of_isStop (show isStop c = true from stops),
            Option.bind_none]
  | cons c rest =>
      have ends : c :: rest <:+ text := start ▸ text.suffix_skipBlanks
      unfold writtenOut
      simp only [start, Text.skipBlanks_trail_cons start]
      cases isBracket : Bracket.ofArgument? c with
      | none => exact (List.append_assoc _ _ _).symm
      | some bracket =>
          have same := Text.opener_of_ofArgument? isBracket
          subst same
          simp only [Option.bind_some,
            keeps bracket rest (Text.ne_square_of_ofArgument? isBracket) ends]
          cases bracket.group? rest <;> exact (List.append_assoc _ _ _).symm

/-- In front of a trail without names the last name is written out as it is alone. -/
theorem writeOutLast?_trail (still : writeOutLast? trail = none) (keeps : text.KeepsGroups trail) :
    writeOutLast? (text ++ trail) = (writeOutLast? text).map (· ++ trail) := by
  induction text with
  | nil => exact still
  | cons c rest ih =>
      rw [List.cons_append, writeOutLast?, writeOutLast?,
        ih (keeps.of_suffix (List.suffix_cons c rest)), ← List.cons_append,
        Text.parkedAt?_trail isTrail]
      cases writeOutLast? rest with
      | some written => rfl
      | none =>
          simp only [Option.map_none]
          cases isRead : read? (c :: rest) with
          | none => rfl
          | some found =>
              obtain ⟨parked, after⟩ := found
              have ends : after <:+ c :: rest := by
                rw [read?_eq_some_iff.1 isRead]
                exact List.suffix_append _ _
              exact congrArg some (writtenOut_trail isTrail parked (keeps.of_suffix ends))

end

end Parked

namespace Text

/-- What follows has no part in what stands in front of it: it holds nothing to read, or no group
is open. -/
def IsApartFrom (trail text : Text) : Prop :=
  trail.isIdle = true ∨ text.IsClosed

theorem IsApartFrom.keepsGroups (apart : trail.IsApartFrom text) : text.KeepsGroups trail :=
  apart.elim (keepsGroups_of_isIdle · text) (·.keepsGroups trail)

theorem mark_not_mem_of_isIdle (idle : trail.isIdle = true) : Parked.mark ∉ trail :=
  not_mem_of_all (by decide) idle

theorem expandParked_cons {c : Char} (noMark : c ≠ Parked.mark) (rest : Text) :
    expandParked (c :: rest) = c :: rest.expandParked := by
  have single : Parked.mark ∉ [c] := by simpa using Ne.symm noMark
  exact Parked.expandParked_append single rest

/-- Parked functions are written out in front of a trail. -/
theorem expandParked_trail {text trail : Text} (isTrail : trail.IsTrail)
    (apart : trail.IsApartFrom text) :
    expandParked (text ++ trail) = text.expandParked ++ trail.expandParked := by
  cases trailMoves : Parked.writeOutLast? trail with
  | some next =>
      have fewer := Parked.count_of_writeOutLast? trailMoves
      have closed : text.IsClosed := apart.resolve_left fun idle => by
        rw [Parked.writeOutLast?_of_not_mem (mark_not_mem_of_isIdle idle)] at trailMoves
        cases trailMoves
      rw [Parked.expandParked_of_moves (Parked.writeOutLast?_append trailMoves),
        Parked.expandParked_of_moves trailMoves]
      exact expandParked_trail (Parked.isTrail_of_writeOutLast? isTrail trailMoves) (.inr closed)
  | none =>
      have moves := Parked.writeOutLast?_trail isTrail trailMoves apart.keepsGroups
      cases textMoves : Parked.writeOutLast? text with
      | some next =>
          have fewer := Parked.count_of_writeOutLast? textMoves
          rw [textMoves, Option.map_some] at moves
          rw [Parked.expandParked_of_moves moves, Parked.expandParked_of_moves textMoves]
          exact expandParked_trail isTrail
            (apart.imp_right (Parked.isClosed_of_writeOutLast? · textMoves))
      | none =>
          rw [textMoves, Option.map_none] at moves
          rw [Parked.expandParked_of_still moves, Parked.expandParked_of_still textMoves,
            Parked.expandParked_of_still trailMoves]
termination_by Parked.count trail + Parked.count text

/-! ## Powers -/

section

variable {vocabulary : Vocabulary}

theorem resolveExponents_nil : resolveExponents vocabulary [] = [] := by
  rw [resolveExponents]
  rfl

theorem resolveExponents_of_isIdle (idle : trail.isIdle = true) :
    trail.resolveExponents vocabulary = trail := by
  induction trail with
  | nil => exact resolveExponents_nil
  | cons c rest ih =>
      obtain ⟨here, later⟩ := isIdle_cons_iff.1 idle
      have other : isBaseChar c = false := by
        rcases here with blank | rfl
        · exact isBaseChar_of_isStop (isStop_of_isBlank blank)
        · rfl
      rw [resolveExponents_cons other, ih later]

theorem beginsScript_trail (isTrail : trail.IsTrail) (text : Text) :
    (text ++ trail).beginsScript = text.beginsScript := by
  cases start : text.skipBlanks with
  | nil =>
      have stops := isTrail.skipBlanks.head
      rw [beginsScript, beginsScript, skipBlanks_trail_nil start, start]
      cases begins : trail.skipBlanks with
      | nil => rfl
      | cons c rest =>
          rw [begins] at stops
          have noCaret : c ≠ '^' := ne_of_isStop (show isStop c = true from stops) (by decide)
          simp [noCaret]
  | cons c rest =>
      rw [beginsScript, beginsScript, skipBlanks_trail_cons start, start]
      rfl

theorem isTrail_resolveExponents (isTrail : trail.IsTrail) :
    (trail.resolveExponents vocabulary).IsTrail :=
  isTrail.map resolveExponents_nil fun _ rest stop =>
    resolveExponents_cons (isBaseChar_of_isStop stop) rest

theorem isClosed_resolveExponents (without : '\\' ∉ text) (closed : text.IsClosed) :
    (text.resolveExponents vocabulary).IsClosed := by
  have withoutRaised : '\\' ∉ text.resolveExponents vocabulary := by
    rw [← List.count_eq_zero, (backslashes_resolveExponents vocabulary closed.only).2,
      List.count_eq_zero]
    exact without
  exact closed.of_walk (hasWordsOnly_of_not_mem withoutRaised)
    fun _ _ => walk_resolveExponents vocabulary without

/-- Powers are formed in front of a trail. -/
theorem resolveExponents_trail {text : Text} (isTrail : trail.IsTrail)
    (apart : trail.isIdle = true ∨ '\\' ∉ text ∧ text.IsClosed) :
    resolveExponents vocabulary (text ++ trail) =
      resolveExponents vocabulary text ++ resolveExponents vocabulary trail := by
  have whole : text.takeWhile isBaseChar ++ text.dropWhile isBaseChar = text :=
    List.takeWhile_append_dropWhile
  have all : (text.takeWhile isBaseChar).all isBaseChar = true := List.all_takeWhile
  generalize text.takeWhile isBaseChar = run at whole all
  have stops := List.head?_dropWhile_not isBaseChar text
  cases left : text.dropWhile isBaseChar with
  | nil =>
      rw [left, List.append_nil] at whole
      subst whole
      have ends := isTrail.endsRun isBaseChar_of_isStop
      have noScript : trail.beginsScript = false := beginsScript_trail isTrail []
      have alone : Raises vocabulary (run ++ []) (run ++ []) := .append all rfl rfl .nil
      rw [List.append_nil] at alone
      rw [show resolveExponents vocabulary run = run from alone]
      exact Raises.append all ends noScript rfl
  | cons c rest =>
      rw [left] at whole stops
      have ofSuffix {later : Text} (ends : later <:+ text) :
          trail.isIdle = true ∨ '\\' ∉ later ∧ later.IsClosed :=
        apart.imp_right fun ⟨without, closed⟩ =>
          ⟨fun isMember => without (ends.subset isMember), closed.of_suffix ends⟩
      cases begins : beginsScript (c :: rest) with
      | false =>
          have other : isBaseChar c = false := by simpa using stops
          have noScript : beginsScript (c :: (rest ++ trail)) = false :=
            (beginsScript_trail isTrail (c :: rest)).trans begins
          have shorter : rest.length < text.length := by simp [← whole]; omega
          have ends : rest <:+ text :=
            (List.suffix_cons c rest).trans (whole ▸ List.suffix_append run _)
          rw [← whole, List.append_assoc, List.cons_append,
            resolveExponents_append_cons all other noScript,
            resolveExponents_append_cons all other begins,
            resolveExponents_trail isTrail (ofSuffix ends), List.append_assoc, List.cons_append]
      | true =>
          obtain ⟨gap, script, blank, split⟩ := exists_of_beginsScript begins
          have shorter : script.length < text.length := by simp [← whole, split]; omega
          have ends : script <:+ text := by
            rw [← whole, split]
            exact ((List.suffix_cons '^' script).trans (List.suffix_append gap _)).trans
              (List.suffix_append run _)
          have later := resolveExponents_trail isTrail (ofSuffix ends)
          have apartRaised : IsApartFrom (resolveExponents vocabulary trail)
              (resolveExponents vocabulary script) :=
            (ofSuffix ends).imp
              (fun idle => by rwa [resolveExponents_of_isIdle idle])
              (fun ⟨without, closed⟩ => isClosed_resolveExponents without closed)
          rw [← whole, split, List.append_assoc, List.append_assoc, List.cons_append,
            resolveExponents_script all blank, resolveExponents_script all blank, later,
            exponent?_trail (isTrail_resolveExponents isTrail) apartRaised.keepsGroups]
          cases run.isEmpty with
          | true => simp
          | false => cases exponent? vocabulary (resolveExponents vocabulary script) <;> simp
termination_by text.length

end

end Text

end TexCalc

import TexCalc.Proofs.Nesting.Groups
import TexCalc.Proofs.Words.Kept

/-!
# Fractions and roots keep brackets nested

An argument is a group, a control word or one character.  Where that character is a bracket, the
bracket stays open behind the parentheses around it.  Of a root with an index, the index goes behind
the radicand; the index is a group in square brackets, which has to leave nothing open.  This is why
square brackets are guarded until the last root has been read.
-/

namespace TexCalc

namespace Text

/-- What an argument opens: nothing but loose brackets, or itself when it is a bracket. -/
inductive Opens (guarded : Bool) : List Pending → Text → Prop where
  | round : Opens guarded [.bracket .round] ['(']
  | square : Opens guarded [.loose] ['[']
  | leaves {count : Nat} {text : Text} (leaves : text.Leaves guarded count) :
      Opens guarded (loose count) text

namespace Opens

variable {guarded may : Bool} {opened before after : List Pending} {text right : Text}

theorem trim (opens : Opens guarded opened text) : Opens guarded opened text.trim := by
  cases opens with
  | round => exact .round
  | square => exact .square
  | leaves leaves => exact .leaves leaves.trim

/-- An argument in parentheses opens what the argument opens. -/
theorem walk_parenthesized (opens : Opens guarded opened text)
    (later : Walk guarded true (opened ++ before) right after) :
    Walk guarded may before (text.parenthesized ++ right) after := by
  cases opens with
  | round => exact .paren (.paren (@Walk.closeParen _ _ _ _ _ 0 later))
  | square => exact .paren (.step (.loose fun _ => rfl) (@Walk.closeParen _ _ _ _ _ 1 later))
  | leaves leaves => exact leaves.walk_parenthesized later

theorem walk_wrap (opens : Opens guarded opened text)
    (later : Walk guarded false (opened ++ before) right after) :
    Walk guarded may before (text.wrap ++ right) after := by
  cases opens with
  | round => exact walk_parenthesized .round later.mono
  | square => exact walk_parenthesized .square later.mono
  | leaves leaves => exact leaves.wrap.walk_append later

/-- What an argument opens may be opened before a parenthesis instead. -/
theorem sinks (opens : Opens guarded opened text) (above : List Pending)
    (walk : Walk guarded may (above ++ .bracket .round :: (opened ++ before)) right after) :
    Walk guarded may (above ++ (opened ++ .bracket .round :: before)) right after := by
  cases opens with
  | round => exact walk
  | square => exact .sinks above (by decide) walk
  | leaves leaves => exact Walk.sinks_all (by decide) above walk

end Opens

end Text

namespace Walk

variable {guarded may : Bool} {before after : List Pending} {text rest : Text}

theorem skipBlanks (walk : Walk guarded may before text after) :
    Walk guarded may before text.skipBlanks after := by
  have whole : text.takeWhile isAsciiBlank ++ text.skipBlanks = text :=
    List.takeWhile_append_dropWhile
  rw [← whole] at walk
  exact walk.of_plain_append (all_plain_of (by decide) List.all_takeWhile)

theorem length_of_nil (walk : Walk guarded may before [] after) : before.length = after.length := by
  generalize whole : ([] : Text) = text at walk
  induction walk with
  | done => rfl
  | step => cases whole
  | sinks above _ _ ih =>
      rw [← ih whole]
      simp only [List.length_append, List.length_cons]

/-- A square bracket that has been taken as an argument is loose. -/
theorem loosen {above : List Pending}
    (walk : Walk guarded may (above ++ .bracket .square :: before) text []) :
    Walk guarded may (above ++ .loose :: before) text [] := by
  induction text generalizing above may with
  | nil =>
      have same := walk.length_of_nil
      simp only [List.length_append, List.length_cons, List.length_nil] at same
      omega
  | cons c rest ih =>
      rcases walk.of_cons with ⟨plain, later⟩ | ⟨pending, rfl, step, later⟩ |
        ⟨count, pending, below, rfl, fixed, same, later⟩
      · exact .step (.plain plain) (ih later)
      · have opened : Walk guarded _ ((pending :: above) ++ .bracket .square :: before) rest [] :=
            later
        exact .step (step.frame_replace _) (ih opened)
      · rcases eq_of_loose_append same with ⟨rfl, rfl, rfl⟩ | ⟨between, rfl, rfl⟩
        · rw [fixed rfl] at later ⊢
          exact .step .ends later
        · rw [← List.append_assoc] at later
          have closed := ih later
          rw [List.append_assoc] at closed ⊢
          exact .closes_through fixed closed

/-- An argument opens its brackets, and the text goes on behind it. -/
theorem of_argument {argument : Argument} (only : text.HasWordsOnly)
    (walk : Walk guarded may before text []) (found : Argument.read? text = some argument) :
    ∃ opened, argument.text.Opens guarded opened ∧
      Walk guarded true (opened ++ before) argument.rest [] := by
  have within := only.skipBlanks
  have start := walk.skipBlanks
  simp only [Argument.read?] at found
  split at found
  · cases found
  · rename_i c rest shape
    rw [shape] at within start
    split at found
    · rename_i brace
      subst brace
      obtain ⟨group, isGroup, rfl⟩ := Option.map_eq_some_iff.1 found
      obtain ⟨count, inside, behind⟩ :=
        @of_group? guarded may before [] rest .curly group (by decide) (fun _ => by decide)
          within.tail start isGroup
      exact ⟨_, .leaves inside, behind⟩
    · split at found
      · rename_i back
        subst back
        obtain ⟨control, isControl, rfl⟩ := Option.map_eq_some_iff.1 found
        obtain ⟨split, letters, _, _⟩ := Text.control_of_hasWordsOnly within isControl
        have plain : control.source.all (!isBracket ·) = true := by
          rw [Control.source, List.all_cons, all_plain_of (by decide) letters]
          rfl
        rw [split, ← List.cons_append] at start
        exact ⟨_, .leaves (.of_plain plain), (start.of_plain_append plain).mono⟩
      · split at found
        · cases found
        · rename_i noBrace noBack refused
          cases found
          rcases start.of_cons with ⟨plain, later⟩ | ⟨pending, rfl, _, later⟩ |
            ⟨_, pending, _, rfl, _⟩
          · exact ⟨_, .leaves (.of_plain (by rw [List.all_cons, plain]; rfl)), later.mono⟩
          · rcases pending with ⟨_ | _ | _⟩ | _
            · exact ⟨_, .round, later.mono⟩
            · exact ⟨_, .square, (@loosen guarded _ before rest [] later).mono⟩
            · exact absurd rfl noBrace
            · exact ⟨_, .square, later.mono⟩
          · refine absurd ?_ refused
            rcases pending with ⟨_ | _ | _⟩ | _ <;> decide

/-- An index leaves nothing open. -/
theorem of_index {index : Argument} (only : text.HasWordsOnly)
    (walk : Walk true false before text after) (found : Argument.readOptional? text = some index) :
    index.text.Leaves true 0 ∧ Walk true true before index.rest after := by
  have within := only.skipBlanks
  have start := walk.skipBlanks
  simp only [Argument.readOptional?] at found
  split at found
  · rename_i rest shape
    rw [shape] at within start
    obtain ⟨group, isGroup, rfl⟩ := Option.map_eq_some_iff.1 found
    rcases start.of_cons with ⟨plain, _⟩ | ⟨pending, same, step, later⟩ | ⟨_, pending, _, same, _⟩
    · cases plain
    · rcases pending with ⟨_ | _ | _⟩ | _
      · cases same
      · obtain ⟨count, noLoose, inside, behind⟩ :=
          @of_groupFrom? true false [] before after rest .square group within.tail later isGroup
        rw [noLoose rfl] at inside behind
        exact ⟨inside, behind⟩
      · cases same
      · exact absurd (step.may_of_loose rfl) Bool.false_ne_true
    · rcases pending with ⟨_ | _ | _⟩ | _ <;> cases same
  · cases found

end Walk

namespace Structure

variable {may : Bool} {before : List Pending} {text right : Text}

/-- What the two arguments of a fraction open is open behind the fraction. -/
theorem walk_fraction {numerator denominator : Text} {first second : List Pending}
    (above : numerator.Opens true first) (below : denominator.Opens true second)
    (later : Walk true true (second ++ (first ++ before)) right []) :
    Walk true may before ((fraction numerator denominator).linear ++ right) [] := by
  rw [linear, Text.parenthesized_append, List.append_assoc, List.cons_append]
  have closed :
      Walk true false (.bracket .round :: (second ++ (first ++ before))) (')' :: right) [] :=
    @Walk.closeParen true false _ [] right 0 later
  have sunk := below.sinks [] closed
  have inner := above.sinks second sunk
  exact .paren (above.walk_wrap (.plain_cons (by decide) (below.walk_wrap inner)))

theorem walk_root {radicand : Text} {opened : List Pending} (opens : radicand.Opens true opened)
    (later : Walk true true (opened ++ before) right []) :
    Walk true may before ((root radicand).linear ++ right) [] := by
  rw [linear, Text.parenthesized_append, List.append_assoc]
  have closed : Walk true true (.bracket .round :: (opened ++ before)) (')' :: right) [] :=
    @Walk.closeParen true true _ [] right 0 later
  exact .paren (.plain_append (by decide) (opens.trim.walk_parenthesized (opens.sinks [] closed)))

/-- The index goes behind the radicand. -/
theorem walk_indexedRoot {index radicand : Text} {opened : List Pending}
    (leaves : index.Leaves true 0) (opens : radicand.Opens true opened)
    (later : Walk true true (opened ++ before) right []) :
    Walk true may before ((indexedRoot index radicand).linear ++ right) [] := by
  rw [linear, Text.parenthesized_append, List.append_assoc, List.cons_append]
  have closed : Walk true false (.bracket .round :: (opened ++ before)) (')' :: right) [] :=
    @Walk.closeParen true false _ [] right 0 later
  have power : Text.Leaves true 0 (Text.parenthesized ("1/".toList ++ index.wrap)) :=
    (leaves.wrap.plain_append (by decide)).parenthesized
  have raised : Walk true false (opened ++ .bracket .round :: before)
      ('^' :: (Text.parenthesized ("1/".toList ++ index.wrap) ++ ')' :: right)) [] :=
    .plain_cons (by decide) (power.walk_append (opens.sinks [] closed))
  exact .paren (opens.walk_wrap raised)

/-- A structure opens what its command and its arguments open. -/
theorem walk_read? {name after : Text} {found : Structure} (only : text.HasWordsOnly)
    (walk : Walk true false before text []) (isRead : read? name text = some (found, after)) :
    Walk true may before (found.linear ++ after) [] := by
  simp only [read?] at isRead
  split at isRead
  · obtain ⟨numerator, isNumerator, isRead⟩ := Option.bind_eq_some_iff.1 isRead
    obtain ⟨denominator, isDenominator, same⟩ := Option.map_eq_some_iff.1 isRead
    cases same
    obtain ⟨first, above, walk⟩ := walk.of_argument only isNumerator
    obtain ⟨second, below, walk⟩ := walk.of_argument (only.of_argument isNumerator) isDenominator
    exact walk_fraction above below walk
  · split at isRead
    · simp only [readRoot?] at isRead
      split at isRead
      · obtain ⟨index, isIndex, isRead⟩ := Option.bind_eq_some_iff.1 isRead
        obtain ⟨radicand, isRadicand, same⟩ := Option.map_eq_some_iff.1 isRead
        cases same
        obtain ⟨leaves, walk⟩ := walk.of_index only isIndex
        obtain ⟨opened, opens, walk⟩ :=
          walk.of_argument (only.of_optionalArgument isIndex) isRadicand
        exact walk_indexedRoot leaves opens walk
      · obtain ⟨radicand, isRadicand, same⟩ := Option.map_eq_some_iff.1 isRead
        cases same
        obtain ⟨opened, opens, walk⟩ := walk.of_argument only isRadicand
        exact walk_root opens walk
    · cases isRead

theorem walk_resolveLast? {resolved : Text} (found : resolveLast? text.pieces = some resolved)
    (only : text.HasWordsOnly) (walk : Walk true may before text []) :
    Walk true may before resolved [] := by
  have ofControl {rest : Text} {control : Control} (isControl : Control.read? rest = some control)
      (only : Text.HasWordsOnly ('\\' :: rest)) {may : Bool} {before : List Pending}
      (walk : Walk true may before ('\\' :: rest) []) :
      control.name.all (!isBracket ·) = true ∧ control.rest.HasWordsOnly ∧
        Walk true false before control.rest [] := by
    obtain ⟨split, letters, _, _⟩ := Text.control_of_hasWordsOnly only isControl
    have plain := all_plain_of (by decide) letters
    have behind := walk.of_plain (by decide)
    rw [split] at behind
    exact ⟨plain, only.of_control isControl, behind.of_plain_append plain⟩
  revert may before only
  refine @resolveLast?_induct (fun text resolved => ∀ {may before}, text.HasWordsOnly →
    Walk true may before text [] → Walk true may before resolved []) ?_ ?_ ?_ _ _ found
  · intro rest control structured after isControl isRead may before only walk
    obtain ⟨_, onlyRest, later⟩ := ofControl isControl only walk
    exact walk_read? onlyRest later isRead
  · intro rest control inner isControl ih may before only walk
    obtain ⟨plain, onlyRest, later⟩ := ofControl isControl only walk
    exact .plain_cons (by decide) (.plain_append plain (ih onlyRest later))
  · intro c rest inner _ ih may before only walk
    exact walk.congr_cons fun between later => ih only.tail later

theorem walk_resolveUpTo (rounds : Nat) (only : text.HasWordsOnly)
    (walk : Walk true may before text []) : Walk true may before (resolveUpTo rounds text) [] := by
  apply And.right
  apply resolveUpTo_induct (motive := fun text =>
    text.HasWordsOnly ∧ Walk true may before text []) _ _ ⟨only, walk⟩
  intro text resolved found ⟨only, walk⟩
  exact ⟨(keepsWords_resolveLast? only found).1.hasWordsOnly only,
    walk_resolveLast? found only walk⟩

end Structure

/-- Replacing fractions and roots keeps brackets nested. -/
theorem Walk.resolveStructures {may : Bool} {before : List Pending} {text : Text}
    (only : text.HasWordsOnly) (walk : Walk true may before text []) :
    Walk true may before text.resolveStructures [] :=
  Structure.walk_resolveUpTo _ only walk

/-! ## Behind the last root -/

namespace Pending

/-- When the last root has been read, every square bracket may be loose. -/
def released : Pending → Pending
  | .bracket .square => .loose
  | pending => pending

theorem released_bracket {bracket : Bracket} (fixed : bracket ≠ .square) :
    released (.bracket bracket) = .bracket bracket := by
  cases bracket <;> first | rfl | exact absurd rfl fixed

end Pending

theorem Step.release {may : Bool} {before after : List Pending} {c : Char}
    (step : Step true may before c after) :
    Step false true (before.map Pending.released) c (after.map Pending.released) := by
  cases step with
  | plain other => exact .plain other
  | @opens _ bracket _ =>
      cases bracket with
      | square => exact .loose fun _ => rfl
      | round | curly => exact .opens (by decide)
  | @closes _ bracket =>
      cases bracket with
      | square => exact .ends
      | round | curly => exact .closes
  | loose _ => exact .loose fun _ => rfl
  | ends => exact .ends

theorem Walk.release {may : Bool} {before after : List Pending} {text : Text}
    (walk : Walk true may before text after) :
    Walk false true (before.map Pending.released) text (after.map Pending.released) := by
  induction walk with
  | done => exact .done _
  | step first _ ih => exact .step first.release (ih.unguarded _)
  | sinks above other _ ih =>
      simp only [List.map_append, List.map_cons, Pending.released_bracket other] at ih ⊢
      exact .sinks _ other ih

end TexCalc

import TexCalc.Proofs.Linear.Termination
import TexCalc.Proofs.Text.Neutral

/-!
# Texts that spell some commands differently

Options decide what `\pm`, `\mp` and `\log` stand for, so that other options and other commands may
come to the same.  Two texts are compared in which everything but the names of these commands is the
same.  They are cut into control sequences in the same way, and what a reader passes over in the one
text corresponds to what it passes over in the other.
-/

namespace TexCalc

/-- How commands are written differently. -/
inductive Exchange where
  /-- `\pm` and `\mp` change places. -/
  | signs
  /-- `\log` is written `\ln`. -/
  | logs
  deriving DecidableEq, Repr

namespace Exchange

/-- The names that are written differently, each with the name in its place. -/
def pairs : Exchange → List (Text × Text)
  | signs => [("pm".toList, "mp".toList), ("mp".toList, "pm".toList)]
  | logs => [("log".toList, "ln".toList)]

/-- The name that is written in the place of the given one. -/
def name (exchange : Exchange) (old : Text) : Text :=
  (exchange.pairs.lookup old).getD old

/-- Whether one text may have the name `new` where the other one has `old`.  In normal text every
command is exchanged, and there are control words only.  In a formula as it is written a name may
also stand in a comment, where it is kept. -/
def Spells (exchange : Exchange) (everywhere : Bool) (old new : Text) : Prop :=
  Control.IsName old ∧
    if everywhere then old.all Char.isAlpha = true ∧ new = exchange.name old
    else new = old ∨ new = exchange.name old

variable {exchange : Exchange} {everywhere : Bool} {old new : Text}

theorem name_eq_or_mem (exchange : Exchange) (old : Text) :
    exchange.name old = old ∨ (old, exchange.name old) ∈ exchange.pairs := by
  rw [name]
  cases found : exchange.pairs.lookup old with
  | none => exact .inl rfl
  | some new =>
      obtain ⟨front, back, split, _⟩ := List.lookup_eq_some_iff.1 found
      exact .inr (split ▸ List.mem_append_right _ List.mem_cons_self)

/-- A name that is not exchanged stays. -/
theorem name_of_forall_ne (other : ∀ pair ∈ exchange.pairs, old ≠ pair.1) :
    exchange.name old = old := by
  rw [name, List.lookup_eq_none_iff.2 (by simpa using other), Option.getD_none]

/-- What holds of all names that are exchanged is told by a glance at them. -/
theorem forall_pairs (holds : Text × Text → Prop)
    (all : ∀ pair ∈ signs.pairs ++ logs.pairs, holds pair) {exchange : Exchange} :
    ∀ pair ∈ exchange.pairs, holds pair := by
  intro pair isMember
  cases exchange with
  | signs => exact all pair (List.mem_append_left _ isMember)
  | logs => exact all pair (List.mem_append_right _ isMember)

namespace Spells

variable (spells : exchange.Spells everywhere old new)

include spells

theorem eq_or_mem : new = old ∨ (old, new) ∈ exchange.pairs := by
  obtain ⟨_, spells⟩ := spells
  cases everywhere with
  | false =>
      rcases spells with rfl | rfl
      · exact .inl rfl
      · exact exchange.name_eq_or_mem old
  | true =>
      obtain ⟨_, rfl⟩ := spells
      exact exchange.name_eq_or_mem old

/-- A test that does not tell the exchanged names apart does not tell the two names apart. -/
theorem eq_of_pairs {result : Type} (test : Text → result)
    (same : ∀ pair ∈ signs.pairs ++ logs.pairs, test pair.2 = test pair.1) :
    test new = test old := by
  rcases spells.eq_or_mem with rfl | isMember
  · rfl
  · exact forall_pairs (fun pair => test pair.2 = test pair.1) same _ isMember

theorem isName_old : Control.IsName old :=
  spells.1

theorem all_isAlpha : new.all Char.isAlpha = old.all Char.isAlpha :=
  spells.eq_of_pairs (·.all Char.isAlpha) (by decide)

theorem isName_new : Control.IsName new := by
  rcases spells.eq_or_mem with rfl | isMember
  · exact spells.isName_old
  · refine .inl (forall_pairs (fun pair => pair.2 ≠ [] ∧ pair.2.all Char.isAlpha = true)
      ?_ _ isMember)
    decide

/-- A symbol is never exchanged. -/
theorem eq_of_symbol (noWord : old.all Char.isAlpha = false) : new = old := by
  rcases spells.eq_or_mem with same | isMember
  · exact same
  · have word := forall_pairs (fun pair => pair.1.all Char.isAlpha = true)
      (by decide) _ isMember
    rw [word] at noWord
    cases noWord

end Spells

/-- Two texts that differ in the names of commands. -/
inductive Respelled (exchange : Exchange) (everywhere : Bool) : Text → Text → Prop where
  | nil : Respelled exchange everywhere [] []
  | backslash (raw : everywhere = false) : Respelled exchange everywhere ['\\'] ['\\']
  | plain {c : Char} {text other : Text} (plain : c ≠ '\\')
      (later : Respelled exchange everywhere text other) :
      Respelled exchange everywhere (c :: text) (c :: other)
  | control {old new text other : Text} (spells : exchange.Spells everywhere old new)
      (ends : old.all Char.isAlpha = true → text.endsRun Char.isAlpha = true)
      (later : Respelled exchange everywhere text other) :
      Respelled exchange everywhere ('\\' :: (old ++ text)) ('\\' :: (new ++ other))

/-- Two texts that differ in the names of commands in front of the given endings. -/
inductive RespelledBefore (exchange : Exchange) (everywhere : Bool) (rest rest' : Text) :
    Text → Text → Prop where
  | rest : RespelledBefore exchange everywhere rest rest' rest rest'
  | plain {c : Char} {text other : Text} (plain : c ≠ '\\')
      (later : RespelledBefore exchange everywhere rest rest' text other) :
      RespelledBefore exchange everywhere rest rest' (c :: text) (c :: other)
  | control {old new text other : Text} (spells : exchange.Spells everywhere old new)
      (ends : old.all Char.isAlpha = true → text.endsRun Char.isAlpha = true)
      (later : RespelledBefore exchange everywhere rest rest' text other) :
      RespelledBefore exchange everywhere rest rest' ('\\' :: (old ++ text)) ('\\' :: (new ++ other))

variable {text other rest rest' : Text}

namespace RespelledBefore

variable (before : exchange.RespelledBefore everywhere rest rest' text other)

include before

theorem trans {last last' : Text} (later : exchange.RespelledBefore everywhere last last' rest rest') :
    exchange.RespelledBefore everywhere last last' text other := by
  induction before with
  | rest => exact later
  | plain plain _ ih => exact .plain plain ih
  | control spells ends _ ih => exact .control spells ends ih

/-- What stands in front of the endings. -/
theorem exists_front : ∃ front front' : Text, text = front ++ rest ∧ other = front' ++ rest' ∧
    exchange.Respelled everywhere front front' := by
  induction before with
  | rest => exact ⟨[], [], rfl, rfl, .nil⟩
  | plain plain _ ih =>
      obtain ⟨front, front', rfl, rfl, respelled⟩ := ih
      exact ⟨_ :: front, _ :: front', rfl, rfl, .plain plain respelled⟩
  | @control old new _ _ spells ends _ ih =>
      obtain ⟨front, front', rfl, rfl, respelled⟩ := ih
      refine ⟨'\\' :: (old ++ front), '\\' :: (new ++ front'), by simp, by simp,
        .control spells (fun letters => ?_) respelled⟩
      have stops := ends letters
      cases front with
      | nil => rfl
      | cons c front => exact stops

end RespelledBefore

/-- Two texts that differ in the names of commands, and two endings of them that correspond. -/
structure Reaches (exchange : Exchange) (everywhere : Bool) (text other rest rest' : Text) :
    Prop where
  before : exchange.RespelledBefore everywhere rest rest' text other
  rest : exchange.Respelled everywhere rest rest'

namespace Reaches

theorem refl (respelled : exchange.Respelled everywhere text other) :
    exchange.Reaches everywhere text other text other :=
  ⟨.rest, respelled⟩

theorem plain {c : Char} (plain : c ≠ '\\')
    (reaches : exchange.Reaches everywhere text other rest rest') :
    exchange.Reaches everywhere (c :: text) (c :: other) rest rest' :=
  ⟨.plain plain reaches.before, reaches.rest⟩

theorem control (spells : exchange.Spells everywhere old new)
    (ends : old.all Char.isAlpha = true → text.endsRun Char.isAlpha = true)
    (reaches : exchange.Reaches everywhere text other rest rest') :
    exchange.Reaches everywhere ('\\' :: (old ++ text)) ('\\' :: (new ++ other)) rest rest' :=
  ⟨.control spells ends reaches.before, reaches.rest⟩

theorem trans {last last' : Text} (first : exchange.Reaches everywhere text other rest rest')
    (second : exchange.Reaches everywhere rest rest' last last') :
    exchange.Reaches everywhere text other last last' :=
  ⟨first.before.trans second.before, second.rest⟩

/-- What was passed over corresponds as well. -/
theorem upTo (reaches : exchange.Reaches everywhere text other rest rest') :
    exchange.Respelled everywhere (text.before rest) (other.before rest') := by
  obtain ⟨front, front', rfl, rfl, respelled⟩ := reaches.before.exists_front
  rwa [Text.before_append, Text.before_append]

end Reaches

namespace Respelled

variable (respelled : exchange.Respelled everywhere text other)

theorem append_of_not_mem {front : Text} (plain : '\\' ∉ front)
    (respelled : exchange.Respelled everywhere text other) :
    exchange.Respelled everywhere (front ++ text) (front ++ other) := by
  induction front with
  | nil => exact respelled
  | cons c front ih =>
      rw [List.mem_cons, not_or] at plain
      exact .plain (Ne.symm plain.1) (ih plain.2)

include respelled

/-- A character that begins no control word stands between two texts. -/
theorem append_cons {c : Char} {right right' : Text} (plain : c ≠ '\\')
    (noLetter : c.isAlpha = false) (later : exchange.Respelled everywhere right right') :
    exchange.Respelled everywhere (text ++ c :: right) (other ++ c :: right') := by
  induction respelled with
  | nil => exact .plain plain later
  | backslash raw =>
      subst raw
      have symbol : exchange.Spells false [c] [c] := ⟨.inr ⟨c, rfl, noLetter⟩, .inl rfl⟩
      change exchange.Respelled false ('\\' :: ([c] ++ right)) ('\\' :: ([c] ++ right'))
      exact .control symbol (fun letters => by simp [noLetter] at letters) later
  | plain plain _ ih => exact .plain plain ih
  | @control old new text _ spells ends _ ih =>
      rw [List.cons_append, List.append_assoc, List.cons_append, List.append_assoc]
      refine .control spells (fun letters => ?_) ih
      have stops := ends letters
      cases text with
      | nil => simp [Text.endsRun, noLetter]
      | cons d text => exact stops

theorem parenthesized_append {right right' : Text}
    (later : exchange.Respelled everywhere right right') :
    exchange.Respelled everywhere (text.parenthesized ++ right) (other.parenthesized ++ right') := by
  rw [Text.parenthesized_append, Text.parenthesized_append]
  exact .plain (by decide) (respelled.append_cons (by decide) (by decide) later)

theorem parenthesized :
    exchange.Respelled everywhere text.parenthesized other.parenthesized := by
  have alone := respelled.parenthesized_append .nil
  rwa [List.append_nil, List.append_nil] at alone

/-- Both texts begin alike. -/
theorem head? : other.head? = text.head? := by
  cases respelled <;> rfl

theorem endsRun_eq (accept : Char → Bool) : other.endsRun accept = text.endsRun accept := by
  rw [Text.endsRun, Text.endsRun, respelled.head?]

/-- A run of characters that are no backslashes is the same in both texts. -/
theorem dropWhile {accept : Char → Bool} (refused : accept '\\' = false) :
    exchange.Reaches everywhere text other (text.dropWhile accept) (other.dropWhile accept) := by
  induction respelled with
  | nil => exact .refl .nil
  | backslash raw =>
      rw [List.dropWhile_cons_of_neg (by simp [refused])]
      exact .refl (.backslash raw)
  | @plain c text other plain later ih =>
      rw [List.dropWhile_cons, List.dropWhile_cons]
      split
      · exact ih.plain plain
      · exact .refl (.plain plain later)
  | control spells ends later =>
      rw [List.dropWhile_cons_of_neg (by simp [refused]),
        List.dropWhile_cons_of_neg (by simp [refused])]
      exact .refl (.control spells ends later)

theorem takeWhile_eq {accept : Char → Bool} (refused : accept '\\' = false) :
    other.takeWhile accept = text.takeWhile accept := by
  induction respelled with
  | nil | backslash => rfl
  | plain _ _ ih => rw [List.takeWhile_cons, List.takeWhile_cons, ih]
  | control => simp [refused]

theorem skipBlanks :
    exchange.Reaches everywhere text other text.skipBlanks other.skipBlanks :=
  respelled.dropWhile (by decide)

theorem trimStart : exchange.Reaches everywhere text other text.trimStart other.trimStart :=
  respelled.dropWhile (by decide)

/-- What does not accept a backslash accepts both texts or none. -/
theorem all_eq {accept : Char → Bool} (refused : accept '\\' = false) :
    other.all accept = text.all accept := by
  induction respelled with
  | nil | backslash => rfl
  | plain _ _ ih => rw [List.all_cons, List.all_cons, ih]
  | control => rw [List.all_cons, List.all_cons, refused, Bool.false_and, Bool.false_and]

theorem isAllBlank_eq : other.isAllBlank = text.isAllBlank :=
  respelled.all_eq (by decide)

/-- Characters that are neither letters nor backslashes occur in both texts or in none. -/
theorem mem_iff (words : everywhere = true) {c : Char} (plain : c ≠ '\\')
    (noLetter : c.isAlpha = false) : c ∈ other ↔ c ∈ text := by
  have noMember {name : Text} (letters : name.all Char.isAlpha = true) : c ∉ name :=
    Text.not_mem_of_all noLetter letters
  subst words
  induction respelled with
  | nil | backslash => rfl
  | plain _ _ ih => exact List.mem_cons.trans ((or_congr_right ih).trans List.mem_cons.symm)
  | control spells _ _ ih =>
      have letters := spells.2.1
      have letters' := spells.all_isAlpha.trans letters
      simp [plain, noMember letters, noMember letters', ih]

end Respelled

end Exchange

end TexCalc

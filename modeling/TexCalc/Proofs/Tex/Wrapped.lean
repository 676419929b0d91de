import TexCalc.Proofs.Tex.Partners
import TexCalc.Proofs.Text.Balance

/-!
# One group in parentheses

Wrapping makes one group of a text just when the parentheses of the text are in balance: only then
is the parenthesis in front of it closed by the one behind it, and not earlier or never.
Parentheses are counted byte by byte, and a backslash makes one unit with the byte behind it.  At
the end of the text it would hide the parenthesis that is put there.
-/

namespace TexCalc

namespace Bracket

/-- What is read at once where brackets are counted: a backslash with the byte that it hides, or any
other byte by itself. -/
inductive IsByteUnit : List UInt8 → Prop where
  | pair (hidden : UInt8) : IsByteUnit ['\\'.toUInt8, hidden]
  | single {byte : UInt8} (visible : byte ≠ '\\'.toUInt8) : IsByteUnit [byte]

/-- The units in which brackets of the kind are counted are in balance, when `depth` brackets are
open in front of them. -/
def BalancesFrom (bracket : Bracket) (depth : Nat) (units : List (List UInt8)) : Prop :=
  Balances [bracket.opener.toUInt8] [bracket.closer.toUInt8] depth units

/-- The bytes consist of units that are in balance.  Bytes that end with a backslash that hides
nothing do not consist of units. -/
def IsBalanced (bracket : Bracket) (bytes : List UInt8) : Prop :=
  ∃ units : List (List UInt8), (∀ unit ∈ units, IsByteUnit unit) ∧ units.flatten = bytes ∧
    bracket.BalancesFrom 0 units

/-- The units of which the bytes consist. -/
def units? : List UInt8 → Option (List (List UInt8))
  | [] => some []
  | byte :: bytes =>
      if byte = '\\'.toUInt8 then
        match bytes with
        | [] => none
        | hidden :: bytes => (units? bytes).map ([byte, hidden] :: ·)
      else
        (units? bytes).map ([byte] :: ·)

variable {bracket : Bracket} {bytes : List UInt8} {units : List (List UInt8)}

theorem units?_cons {byte : UInt8} (visible : byte ≠ '\\'.toUInt8) (bytes : List UInt8) :
    units? (byte :: bytes) = (units? bytes).map ([byte] :: ·) := by
  cases bytes <;> simp [units?, visible]

theorem units?_flatten (areUnits : ∀ unit ∈ units, IsByteUnit unit) :
    units? units.flatten = some units := by
  induction units with
  | nil => rfl
  | cons unit units ih =>
      rw [List.forall_mem_cons] at areUnits
      have later := ih areUnits.2
      cases areUnits.1 with
      | pair hidden =>
          rw [List.flatten_cons, List.cons_append, List.singleton_append, units?, if_pos rfl, later]
          rfl
      | single visible =>
          rw [List.flatten_cons, List.singleton_append, units?_cons visible, later]
          rfl

theorem flatten_of_units? (found : units? bytes = some units) :
    (∀ unit ∈ units, IsByteUnit unit) ∧ units.flatten = bytes := by
  fun_induction units? bytes generalizing units with
  | case1 =>
      cases found
      exact ⟨List.forall_mem_nil _, rfl⟩
  | case2 => cases found
  | case3 hidden bytes ih =>
      obtain ⟨later, isLater, rfl⟩ := Option.map_eq_some_iff.1 found
      obtain ⟨areUnits, rfl⟩ := ih isLater
      exact ⟨List.forall_mem_cons.2 ⟨.pair hidden, areUnits⟩, rfl⟩
  | case4 byte bytes visible ih =>
      obtain ⟨later, isLater, rfl⟩ := Option.map_eq_some_iff.1 found
      obtain ⟨areUnits, rfl⟩ := ih isLater
      exact ⟨List.forall_mem_cons.2 ⟨.single visible, areUnits⟩, rfl⟩

/-- Bytes can be cut into units in one way only. -/
theorem isBalanced_iff : bracket.IsBalanced bytes ↔
    ∃ units, units? bytes = some units ∧ bracket.BalancesFrom 0 units := by
  constructor
  · rintro ⟨units, areUnits, rfl, balances⟩
    exact ⟨units, units?_flatten areUnits, balances⟩
  · rintro ⟨units, found, balances⟩
    obtain ⟨areUnits, isFlat⟩ := flatten_of_units? found
    exact ⟨units, areUnits, isFlat, balances⟩

theorem exists_map_iff {unit : List UInt8} {depth later : Nat}
    (step : ∀ units, bracket.BalancesFrom depth (unit :: units) ↔ bracket.BalancesFrom later units)
    (read : Option (List (List UInt8))) :
    (∃ units, read.map (unit :: ·) = some units ∧ bracket.BalancesFrom depth units) ↔
      ∃ units, read = some units ∧ bracket.BalancesFrom later units := by
  constructor
  · rintro ⟨_, found, balances⟩
    obtain ⟨units, isRead, rfl⟩ := Option.map_eq_some_iff.1 found
    exact ⟨units, isRead, (step units).1 balances⟩
  · rintro ⟨units, rfl, balances⟩
    exact ⟨unit :: units, rfl, (step units).2 balances⟩

theorem unit_ne : [bracket.opener.toUInt8] ≠ [bracket.closer.toUInt8] := by
  simpa using opener_ne_closer

/-- A bracket behind the bytes is the one with which the search ends just when the bytes are in
balance. -/
theorem search_append_closer_iff (bracket : Bracket) (place depth : Nat) (bytes : List UInt8) :
    bracket.search place (depth + 1) (bytes ++ [bracket.closer.toUInt8]) =
        .found (place + bytes.length) ↔
      ∃ units, units? bytes = some units ∧ bracket.BalancesFrom depth units := by
  -- By how bytes are cut into units: behind a unit it matters only how many brackets are open.
  fun_induction units? bytes generalizing place depth with
  | case1 =>
      rw [List.nil_append, search_closeByte]
      simp only [Option.some.injEq, exists_eq_left', List.length_nil, Nat.add_zero, BalancesFrom,
        Balances.nil_iff]
      split
      · rename_i closed
        exact iff_of_true rfl closed
      · rename_i stillOpen
        exact iff_of_false Search.noConfusion stillOpen
  | case2 =>
      simp [search]
  | case3 hidden bytes ih =>
      rw [exists_map_iff fun units => Balances.other_iff (by simp) (by simp), ← ih (place + 2),
        show place + List.length ('\\'.toUInt8 :: hidden :: bytes) = place + 2 + bytes.length by
          simp only [List.length_cons]; omega]
      rfl
  | case4 byte bytes visible ih =>
      have along : place + (byte :: bytes).length = place + 1 + bytes.length := by
        rw [List.length_cons]
        omega
      rw [List.cons_append, along]
      by_cases opens : byte = bracket.opener.toUInt8
      · subst opens
        rw [search_openByte, ih, exists_map_iff fun units => Balances.opening_iff unit_ne]
      · by_cases closes : byte = bracket.closer.toUInt8
        · subst closes
          cases depth with
          | zero =>
              -- The search ends here, in front of the bracket that was put behind the bytes.
              have tooEarly : Search.found place ≠ .found (place + 1 + bytes.length) := by
                rw [Ne, Search.found.injEq]
                omega
              rw [search_closeByte, if_pos rfl]
              refine iff_of_false tooEarly ?_
              rintro ⟨units, found, balances⟩
              obtain ⟨later, _, rfl⟩ := Option.map_eq_some_iff.1 found
              exact Balances.not_closing unit_ne balances
          | succ depth =>
              rw [search_closeByte, if_neg (Nat.succ_ne_zero depth), ih,
                exists_map_iff fun units => Balances.closing_iff unit_ne]
        · rw [search_otherByte visible opens closes, ih, exists_map_iff fun units =>
            Balances.other_iff (by simpa using opens) (by simpa using closes)]

/-- A pair of brackets around what is in balance leaves it in balance. -/
theorem IsBalanced.enclosed (balanced : bracket.IsBalanced bytes) :
    bracket.IsBalanced (bracket.opener.toUInt8 :: (bytes ++ [bracket.closer.toUInt8])) := by
  obtain ⟨units, areUnits, rfl, balances⟩ := balanced
  have closed : bracket.BalancesFrom 1 [[bracket.closer.toUInt8]] :=
    (Balances.closing_iff unit_ne).2 (Balances.nil_iff.2 rfl)
  refine ⟨[bracket.opener.toUInt8] :: (units ++ [[bracket.closer.toUInt8]]), ?_, by simp, ?_⟩
  · rw [List.forall_mem_cons, List.forall_mem_append, List.forall_mem_singleton]
    exact ⟨.single opener_ne_backslash, areUnits, .single closer_ne_backslash⟩
  · exact (Balances.opening_iff unit_ne).2 (balances.append closed)

instance (bracket : Bracket) (bytes : List UInt8) : Decidable (bracket.IsBalanced bytes) :=
  decidable_of_iff _ ((bracket.search_append_closer_iff 0 0 bytes).trans isBalanced_iff.symm)

end Bracket

namespace Text

variable {inside : Text}

theorem bytes_parenthesized (inside : Text) : inside.parenthesized.bytes =
    Bracket.round.opener.toUInt8 :: (inside.bytes ++ [Bracket.round.closer.toUInt8]) := by
  rw [parenthesized, bytes_cons, bytes_append]
  rfl

/-- The first parenthesis is closed by the last one just when what is between them is in balance. -/
theorem closingOffset?_parenthesized_iff (inside : Text) :
    closingOffset? inside.parenthesized 0 = some (inside.byteLength + 1) ↔
      Bracket.round.IsBalanced inside.bytes := by
  have found_iff (place? : Option Nat) (place : Nat) :
      place? = some place ↔ place?.elim Search.unclosed .found = .found place := by
    cases place? <;> simp
  have searched : Bracket.round.search 0 0 inside.parenthesized.bytes =
      (closingOffset? inside.parenthesized 0).elim .unclosed .found :=
    Bracket.round.search_drop [] (inside ++ [')'])
  rw [found_iff, ← searched, bytes_parenthesized, Bracket.search_openByte, Bracket.isBalanced_iff,
    ← Bracket.search_append_closer_iff _ 1, length_bytes, Nat.add_comm 1]

theorem isEnclosed_parenthesized_iff (inside : Text) :
    inside.parenthesized.isEnclosed = true ↔
      closingOffset? inside.parenthesized 0 = some (inside.byteLength + 1) := by
  have closing : closingOffset? inside.parenthesized 0 =
      (Bracket.round.group? (inside ++ [')'])).map (1 + ·.inside.byteLength) :=
    Bracket.round.closingOffset?_append [] (inside ++ [')'])
  rw [isEnclosed, trim_parenthesized, closing]
  simp only [parenthesized]
  cases found : Bracket.round.group? (inside ++ [')']) with
  | none => simp
  | some group =>
      have whole := congrArg byteLength (Bracket.eq_of_group? found)
      simp only [byteLength_append, byteLength, Bracket.closer] at whole
      simp only [Option.map_some, Option.some.injEq, List.isEmpty_iff]
      constructor
      · intro empty
        rw [empty] at whole
        simp only [byteLength] at whole
        omega
      · intro same
        cases shape : group.rest with
        | nil => rfl
        | cons c rest =>
            have longer := byteLength_cons_pos c rest
            rw [shape] at whole
            omega

theorem isEnclosed_trim (text : Text) : text.trim.isEnclosed = text.isEnclosed := by
  rw [isEnclosed, isEnclosed, trim_trim]

theorem isBalanced_of_isEnclosed {text : Text} (enclosed : text.isEnclosed = true) :
    Bracket.round.IsBalanced text.trim.bytes := by
  obtain ⟨inside, trimmed⟩ := exists_of_isEnclosed enclosed
  rw [← isEnclosed_trim, trimmed, isEnclosed_parenthesized_iff,
    closingOffset?_parenthesized_iff] at enclosed
  rw [trimmed, bytes_parenthesized]
  exact enclosed.enclosed

theorem isEnclosed_wrap_iff_isBalanced (text : Text) :
    text.wrap.isEnclosed = true ↔ Bracket.round.IsBalanced text.trim.bytes := by
  rw [wrap]
  split
  · rename_i enclosed
    rw [isEnclosed_trim]
    exact iff_of_true enclosed (isBalanced_of_isEnclosed enclosed)
  · exact (isEnclosed_parenthesized_iff _).trans (closingOffset?_parenthesized_iff _)

/-- A trimmed text that is not one group gets longer. -/
theorem wrap_eq_self_iff {text : Text} (whole : text.trim = text) :
    text.wrap = text ↔ text.isEnclosed = true := by
  rw [wrap, whole]
  split
  · rename_i enclosed
    exact iff_of_true rfl enclosed
  · rename_i other
    refine iff_of_false (fun same => ?_) other
    have longer := congrArg List.length same
    simp only [parenthesized, List.length_cons, List.length_append] at longer
    omega

/-- Wrapping a text gives one group just when the trimmed text is in balance.  The first parenthesis
of the wrapped text is then closed by its last byte, and wrapping once more changes nothing.  In any
other case it puts one more pair around the text. -/
theorem isEnclosed_wrap_iff (text : Text) :
    (text.wrap.isEnclosed = true ↔ Bracket.round.IsBalanced text.trim.bytes) ∧
      (text.wrap.closingOffset? 0 = some (text.wrap.byteLength - 1) ↔
        Bracket.round.IsBalanced text.trim.bytes) ∧
      (text.wrap.wrap = text.wrap ↔ Bracket.round.IsBalanced text.trim.bytes) := by
  have isGroup := isEnclosed_wrap_iff_isBalanced text
  obtain ⟨inside, wrapped, _⟩ := exists_wrap_eq text
  rw [wrapped] at isGroup ⊢
  have last : inside.parenthesized.byteLength - 1 = inside.byteLength + 1 := by
    have size : byteLength [')'] = 1 := rfl
    rw [parenthesized, byteLength, byteLength_append, size]
    exact Nat.add_sub_cancel_left 1 _
  refine ⟨isGroup, ?_, (wrap_eq_self_iff (trim_parenthesized inside)).trans isGroup⟩
  rw [last, ← isEnclosed_parenthesized_iff]
  exact isGroup

/-- The blank that a backslash hides at the end is trimmed, so that the backslash hides the
parenthesis that is put there. -/
example : wrap "(a)\\ ".toList = "((a)\\)".toList ∧
    ¬ Bracket.round.IsBalanced (bytes (trim "(a)\\ ".toList)) := by
  decide

end Text

end TexCalc

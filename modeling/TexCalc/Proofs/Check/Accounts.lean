import Mathlib.Data.List.Nodup
import TexCalc.Check.Issues
import TexCalc.Proofs.Check.Pairs

/-!
# The delimiters of a formula

No two lexemes of a formula stand at the same place, so that delimiters and their issues can be told
apart by their places.  No other fault is that of a delimiter without a partner.  The issues of this
kind, which are brought into the order of their places, are therefore those of the delimiters that
are in no pair.
-/

namespace TexCalc

/-! ## Places -/

theorem Text.byteLength_cons_pos (c : Char) (text : Text) : 0 < Text.byteLength (c :: text) :=
  Nat.add_pos_left c.utf8Size_pos _

theorem Text.pairwise_offset_lexemesFrom (offset : Nat) (text : Text) :
    (∀ lexeme ∈ text.lexemesFrom offset, offset ≤ lexeme.offset) ∧
      (text.lexemesFrom offset).Pairwise (·.offset < ·.offset) := by
  fun_induction lexemesFrom offset text with
  | case1 => exact ⟨List.forall_mem_nil _, .nil⟩
  | case2 offset c rest reading source ih =>
      obtain ⟨behind, apart⟩ := ih
      have longer : 0 < source.byteLength := byteLength_cons_pos c reading.taken
      have farther : ∀ lexeme ∈ reading.rest.lexemesFrom (offset + source.byteLength),
          offset < lexeme.offset := by
        intro lexeme isMember
        have := behind lexeme isMember
        omega
      constructor
      · refine List.forall_mem_cons.2 ⟨Nat.le_refl offset, ?_⟩
        intro lexeme isMember
        exact Nat.le_of_lt (farther lexeme isMember)
      · exact .cons farther apart

namespace Focus

theorem offset_of_event? {focus : Focus} {event : DelimiterEvent}
    (found : focus.event? = some event) : event.offset = focus.here.offset := by
  unfold event? at found
  split at found
  · obtain ⟨delimiter, -, rfl⟩ := Option.map_eq_some_iff.1 found
    rfl
  · split at found
    · cases found
    · obtain ⟨delimiter, -, rfl⟩ := Option.map_eq_some_iff.1 found
      rfl

end Focus

namespace DelimiterEvent

/-- No two delimiters of a formula stand at the same place, and they are found in their order. -/
theorem pairwise_offset_ofLexemes (text : Text) :
    (ofLexemes text.lexemes).Pairwise (·.offset < ·.offset) := by
  have places := (Text.pairwise_offset_lexemesFrom 0 text).2
  have foci : (Focus.all text.lexemes).Pairwise (·.here.offset < ·.here.offset) := by
    rw [← List.pairwise_map (f := Focus.here) (R := fun first second =>
      first.offset < second.offset), Focus.map_here_all]
    exact places
  apply foci.filterMap Focus.event?
  intro focus other before event found otherEvent otherFound
  rw [Focus.offset_of_event? found, Focus.offset_of_event? otherFound]
  exact before

/-! ## All delimiters of a formula -/

/-- Every delimiter of a list is in one of its pairs or has one issue, and there are no other
issues. -/
structure AccountsFor (events : List DelimiterEvent) (issues : List Issue) : Prop where
  apart : events.Pairwise (·.offset < ·.offset)
  pairs : ∀ pair ∈ pairs events, pair.1 ∈ events ∧ pair.2 ∈ events ∧ IsPair pair
  nested : (DelimiterEvent.pairs events).Pairwise IsNested
  once : ∀ event ∈ events, (members (DelimiterEvent.pairs events)).count event +
    issues.countP (·.offset == event.offset) = 1
  issues : issues =
    (events.filter (· ∉ members (DelimiterEvent.pairs events))).map lone

section

variable {events : List DelimiterEvent}

theorem nodup_of_apart (apart : events.Pairwise (·.offset < ·.offset)) : events.Nodup := by
  apply apart.imp
  intro first second before same
  rw [same] at before
  exact Nat.lt_irrefl _ before

theorem eq_of_offset (apart : events.Pairwise (·.offset < ·.offset)) {first second : DelimiterEvent}
    (isFirst : first ∈ events) (isSecond : second ∈ events)
    (same : first.offset = second.offset) : first = second := by
  have places : (events.map offset).Nodup :=
    List.pairwise_map.2 (apart.imp Nat.ne_of_lt)
  exact List.inj_on_of_nodup_map places isFirst isSecond same

theorem mem_of_mem_members {event : DelimiterEvent}
    (isMember : event ∈ members (pairs events)) : event ∈ events := by
  obtain ⟨pair, isPair, inPair⟩ := List.mem_flatMap.1 isMember
  obtain ⟨first, second⟩ := mem_of_mem_pairsIn isPair
  rcases List.mem_cons.1 inPair with rfl | inTail
  · exact first.resolve_left List.not_mem_nil
  · rw [List.mem_singleton.1 inTail]
    exact second

/-- Issues can be told apart by their places. -/
theorem countP_map_lone (apart : events.Pairwise (·.offset < ·.offset)) {event : DelimiterEvent}
    (isMember : event ∈ events) {others : List DelimiterEvent}
    (within : ∀ other ∈ others, other ∈ events) :
    (others.map lone).countP (·.offset == event.offset) = others.count event := by
  rw [List.countP_map, List.count]
  apply List.countP_congr
  intro other isOther
  simp only [Function.comp, offset_lone, beq_iff_eq]
  constructor
  · exact eq_of_offset apart (within other isOther) isMember
  · rintro rfl
    rfl

theorem perm_unmatched (events : List DelimiterEvent) :
    (unmatched events ++ (members (pairs events)).map lone).Perm (events.map lone) :=
  perm_unmatchedIn (List.forall_mem_nil _)

theorem once (apart : events.Pairwise (·.offset < ·.offset)) {event : DelimiterEvent}
    (isMember : event ∈ events) : (members (pairs events)).count event +
      (unmatched events).countP (·.offset == event.offset) = 1 := by
  have counts := (perm_unmatched events).countP_eq (·.offset == event.offset)
  have single : events.count event = 1 :=
    List.count_eq_one_of_mem (nodup_of_apart apart) isMember
  rw [List.countP_append, countP_map_lone apart isMember fun _ => mem_of_mem_members,
    countP_map_lone apart isMember fun _ => id, single] at counts
  rw [Nat.add_comm]
  exact counts

/-- The issues are those of the delimiters that are in no pair. -/
theorem perm_unmatched_lone (apart : events.Pairwise (·.offset < ·.offset)) :
    (unmatched events).Perm ((events.filter (· ∉ members (pairs events))).map lone) := by
  have nodup := nodup_of_apart apart
  have distinct : (members (pairs events)).Nodup := by
    rw [List.nodup_iff_count_le_one]
    intro event
    by_cases isMember : event ∈ members (pairs events)
    · have total := once apart (mem_of_mem_members isMember)
      omega
    · rw [List.count_eq_zero.2 isMember]
      exact Nat.zero_le 1
  have paired : (members (pairs events)).Perm (events.filter (· ∈ members (pairs events))) := by
    rw [List.perm_ext_iff_of_nodup distinct (nodup.filter _)]
    intro event
    rw [List.mem_filter, decide_eq_true_eq]
    exact ⟨fun isMember => ⟨mem_of_mem_members isMember, isMember⟩, And.right⟩
  have parts := List.filter_append_perm (· ∉ members (pairs events)) events
  have whole := (perm_unmatched events).trans (parts.symm.map lone)
  rw [List.map_append] at whole
  apply (List.perm_append_right_iff ((members (pairs events)).map lone)).1
  apply whole.trans
  apply List.Perm.append_left
  apply List.Perm.map
  simpa using paired.symm

end

end DelimiterEvent

/-! ## The issues of a formula -/

/-- The fault of a delimiter without a partner: it is never closed, or it closes nothing. -/
def Fault.isUnmatched : Fault → Bool
  | malformed (.unclosed _) | malformed (.unopened _) => true
  | _ => false

theorem DelimiterEvent.isUnmatched_lone (event : DelimiterEvent) :
    event.lone.fault.isUnmatched = true := by
  unfold lone
  split <;> rfl

namespace Malformation

variable {command text : Text} {malformation : Malformation}

theorem isUnmatched_ofFraction? {count : Nat}
    (found : ofFraction? command count text = some malformation) :
    (Fault.malformed malformation).isUnmatched = false := by
  induction count generalizing text with
  | zero => cases found
  | succ count ih =>
      simp only [ofFraction?] at found
      split at found
      · exact ih found
      · cases found
        rfl
      · cases found
        rfl
      · cases found

theorem isUnmatched_ofRadicand? (found : ofRadicand? command text = some malformation) :
    (Fault.malformed malformation).isUnmatched = false := by
  unfold ofRadicand? at found
  split at found <;> cases found <;> rfl

theorem isUnmatched_ofRoot? (found : ofRoot? command text = some malformation) :
    (Fault.malformed malformation).isUnmatched = false := by
  unfold ofRoot? at found
  split at found
  · split at found
    · split at found
      · cases found
        rfl
      · exact isUnmatched_ofRadicand? found
    · cases found
  · exact isUnmatched_ofRadicand? found

end Malformation

namespace Focus

variable {focus : Focus} {fault : Fault}

theorem isUnmatched_controlFault? {name : Text} (found : focus.controlFault? name = some fault) :
    fault.isUnmatched = false := by
  unfold controlFault? at found
  split at found
  · split at found <;> cases found
    rfl
  · split at found
    · obtain ⟨malformation, isFault, rfl⟩ := Option.map_eq_some_iff.1 found
      exact Malformation.isUnmatched_ofFraction? isFault
    · split at found
      · obtain ⟨malformation, isFault, rfl⟩ := Option.map_eq_some_iff.1 found
        exact Malformation.isUnmatched_ofRoot? isFault
      · split at found
        · cases found
          rfl
        · split at found <;> cases found
          rfl

/-- The fault of a single lexeme is never that of a delimiter. -/
theorem isUnmatched_fault? (found : focus.fault? = some fault) : fault.isUnmatched = false := by
  unfold fault? at found
  split at found
  · exact isUnmatched_controlFault? found
  · unfold exponentFault? at found
    split at found <;> cases found
    rfl
  · unfold subscriptFault? at found
    split at found
    · split at found <;> cases found <;> rfl
    · cases found
      rfl
  · split at found
    · cases found
      rfl
    · split at found <;> cases found
      rfl
  · cases found

end Focus

namespace Issue

open DelimiterEvent

theorem filter_isUnmatched_ofLexemes (lexemes : List Lexeme) :
    (ofLexemes lexemes).filter (·.fault.isUnmatched) =
      unmatched (DelimiterEvent.ofLexemes lexemes) := by
  have single : ((Focus.all lexemes).filterMap Focus.issue?).filter (·.fault.isUnmatched) = [] := by
    rw [List.filter_eq_nil_iff]
    intro issue isMember
    obtain ⟨focus, -, found⟩ := List.mem_filterMap.1 isMember
    obtain ⟨fault, isFault, rfl⟩ := Option.map_eq_some_iff.1 found
    rw [Focus.isUnmatched_fault? isFault]
    exact Bool.false_ne_true
  have bars : (oddBars? lexemes).toList.filter (·.fault.isUnmatched) = [] := by
    rw [List.filter_eq_nil_iff]
    intro issue isMember
    rw [Option.mem_toList, oddBars?] at isMember
    split at isMember
    · obtain ⟨last, -, rfl⟩ := Option.map_eq_some_iff.1 isMember
      exact Bool.false_ne_true
    · cases isMember
  have delimiters : (unmatched (DelimiterEvent.ofLexemes lexemes)).filter (·.fault.isUnmatched) =
      unmatched (DelimiterEvent.ofLexemes lexemes) := by
    rw [List.filter_eq_self]
    intro issue isMember
    have isLone := (perm_unmatched _).mem_iff.1 (List.mem_append_left _ isMember)
    obtain ⟨event, -, rfl⟩ := List.mem_map.1 isLone
    exact isUnmatched_lone event
  rw [ofLexemes, List.filter_append, List.filter_append, single, bars, delimiters, List.nil_append,
    List.append_nil]

theorem pairwise_offset_ordered (issues : List Issue) :
    (ordered issues).Pairwise (·.offset ≤ ·.offset) := by
  have sorted : (ordered issues).Pairwise fun first second =>
      decide (first.offset ≤ second.offset) = true := by
    apply List.pairwise_mergeSort
    · intro first second third before later
      rw [decide_eq_true_eq] at *
      exact Nat.le_trans before later
    · intro first second
      simpa using Nat.le_total first.offset second.offset
  exact sorted.imp of_decide_eq_true

end Issue

section

open DelimiterEvent

theorem Text.perm_filter_isUnmatched_issues (text : Text) :
    (text.issues.filter (·.fault.isUnmatched)).Perm
      (unmatched (DelimiterEvent.ofLexemes text.lexemes)) := by
  rw [← Issue.filter_isUnmatched_ofLexemes]
  exact (List.mergeSort_perm _ _).filter _

/-- The issues of this kind are those of the delimiters without a partner, from left to right. -/
theorem Text.filter_isUnmatched_issues (text : Text) :
    let events := DelimiterEvent.ofLexemes text.lexemes
    text.issues.filter (·.fault.isUnmatched) =
      (events.filter (· ∉ members (pairs events))).map lone := by
  intro events
  have apart := pairwise_offset_ofLexemes text
  have perm := text.perm_filter_isUnmatched_issues.trans (perm_unmatched_lone apart)
  -- Both lists are in the order of their places, and no two issues have the same place.
  apply List.Perm.eq_of_pairwise _ _ _ perm
  · exact fun first second => first.offset ≤ second.offset
  · intro first second isFirst isSecond before behind
    obtain ⟨event, isEvent, rfl⟩ := List.mem_map.1 (perm.mem_iff.1 isFirst)
    obtain ⟨other, isOther, rfl⟩ := List.mem_map.1 isSecond
    rw [offset_lone, offset_lone] at before behind
    exact congrArg lone (eq_of_offset apart (List.mem_filter.1 isEvent).1
      (List.mem_filter.1 isOther).1 (Nat.le_antisymm before behind))
  · exact (Issue.pairwise_offset_ordered _).filter _
  · rw [List.pairwise_map]
    apply (apart.filter _).imp
    intro first second before
    rw [offset_lone, offset_lone]
    exact Nat.le_of_lt before

/-- Every delimiter of a formula is accounted for exactly once: it is in one pair with a delimiter of
its kind, or it has one issue at its own place.  The pairs are nested.  No such issue is reported
exactly when the delimiters form a Dyck word over their five kinds. -/
theorem Text.accountsFor_issues (text : Text) :
    let events := DelimiterEvent.ofLexemes text.lexemes
    let unmatched := text.issues.filter (·.fault.isUnmatched)
    AccountsFor events unmatched ∧ (unmatched = [] ↔ IsDyck events) := by
  intro events reported
  have apart := pairwise_offset_ofLexemes text
  have isRead : IsRead [] events := apart
  have perm : reported.Perm (unmatched events) := text.perm_filter_isUnmatched_issues
  constructor
  · refine ⟨apart, ?_, pairwise_isNested_pairsIn isRead, ?_, text.filter_isUnmatched_issues⟩
    · intro pair isPair
      obtain ⟨first, second⟩ := mem_of_mem_pairsIn isPair
      exact ⟨first.resolve_left List.not_mem_nil, second,
        isPair_of_mem_pairsIn (List.forall_mem_nil _) isRead isPair⟩
    · intro event isMember
      rw [perm.countP_eq]
      exact once apart isMember
  · rw [← unmatched_eq_nil_iff]
    constructor
    · intro none
      rw [none] at perm
      exact perm.nil_eq.symm
    · intro none
      rw [none] at perm
      exact perm.eq_nil

end

end TexCalc

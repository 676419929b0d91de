import TexCalc.Proofs.Check.Clean

/-!
# Pairs of delimiters

Each closing delimiter is paired with the nearest open one of its kind, and takes off the stack what
has been opened inside the pair.  A delimiter is therefore in a pair or is reported, once in either
case, and the pairs are nested.  Nothing is reported exactly when the delimiters form a Dyck word.
-/

namespace TexCalc

namespace DelimiterEvent

/-! ## The walk over the delimiters -/

/-- The pairs of a list of delimiters, `stack` being the open delimiters in front of the list,
nearest first. -/
def pairsIn (stack : List DelimiterEvent) :
    List DelimiterEvent → List (DelimiterEvent × DelimiterEvent)
  | [] => []
  | event :: rest =>
      if event.opens then
        pairsIn (event :: stack) rest
      else
        match stack.dropWhile event.isOther with
        | [] => pairsIn stack rest
        | opened :: outer => (opened, event) :: pairsIn outer rest

/-- The pairs of opening and closing delimiters, in the order in which they are closed. -/
def pairs (events : List DelimiterEvent) : List (DelimiterEvent × DelimiterEvent) :=
  pairsIn [] events

/-- The delimiters in a list of pairs. -/
def members (pairs : List (DelimiterEvent × DelimiterEvent)) : List DelimiterEvent :=
  pairs.flatMap fun pair => [pair.1, pair.2]

/-- The issue of a delimiter that is in no pair. -/
def lone (event : DelimiterEvent) : Issue :=
  if event.opens then event.unclosed else event.unopened

theorem offset_lone (event : DelimiterEvent) : event.lone.offset = event.offset := by
  unfold lone
  split <;> rfl

section

variable {event opened : DelimiterEvent} {stack inner outer rest : List DelimiterEvent}

theorem pairsIn_opening (opens : event.opens = true) :
    pairsIn stack (event :: rest) = pairsIn (event :: stack) rest := by
  rw [pairsIn, if_pos opens]

theorem pairsIn_closing (closes : event.opens = false) (apart : event.IsApart inner)
    (partner : event.isOther opened = false) :
    pairsIn (inner ++ opened :: outer) (event :: rest) = (opened, event) :: pairsIn outer rest := by
  rw [pairsIn, closes, if_neg Bool.false_ne_true, dropWhile_isOther apart partner]

theorem pairsIn_stray (closes : event.opens = false) (apart : event.IsApart stack) :
    pairsIn stack (event :: rest) = pairsIn stack rest := by
  have dropped : stack.dropWhile event.isOther = [] := by
    rw [← List.append_nil stack, List.dropWhile_append_of_pos apart, List.dropWhile_nil]
  rw [pairsIn, closes, if_neg Bool.false_ne_true, dropped]

end

/-! ## What becomes of a delimiter -/

/-- Nothing is lost and nothing counts twice: a delimiter is in a pair or has an issue. -/
theorem perm_unmatchedIn {stack events : List DelimiterEvent}
    (open' : ∀ event ∈ stack, event.opens = true) :
    (unmatchedIn stack events ++ (members (pairsIn stack events)).map lone).Perm
      ((stack ++ events).map lone) := by
  have unclosed_eq {stack : List DelimiterEvent} (open' : ∀ event ∈ stack, event.opens = true) :
      stack.map unclosed = stack.map lone := by
    apply List.map_congr_left
    intro event isMember
    rw [lone, if_pos (open' event isMember)]
  induction stack, events using walk_induction with
  | nil stack =>
      rw [unmatchedIn, pairsIn, unclosed_eq open', List.append_nil]
      exact .of_eq (List.append_nil _)
  | opening stack event rest opens ih =>
      rw [unmatchedIn_opening opens, pairsIn_opening opens]
      refine (ih (List.forall_mem_cons.2 ⟨opens, open'⟩)).trans (List.Perm.map lone ?_)
      exact List.perm_middle.symm
  | closing inner opened outer event rest closes apart partner ih =>
      rw [List.forall_mem_append, List.forall_mem_cons] at open'
      obtain ⟨isInner, -, isOuter⟩ := open'
      have later := ih isOuter
      rw [unmatchedIn_closing closes apart partner, pairsIn_closing closes apart partner,
        unclosed_eq isInner, List.perm_iff_count]
      intro issue
      have counts := later.count_eq issue
      simp only [members, List.flatMap_cons, List.map_append, List.map_cons, List.map_nil,
        List.count_append, List.count_cons, List.count_nil] at counts ⊢
      omega
  | stray stack event rest closes apart ih =>
      have same : event.unopened = event.lone := by rw [lone, closes, if_neg Bool.false_ne_true]
      rw [unmatchedIn_stray closes apart, pairsIn_stray closes apart, same, List.cons_append]
      refine ((ih open').cons event.lone).trans ?_
      exact List.Perm.map lone List.perm_middle.symm

/-- The delimiters of a stack and those behind it stand in the order of their places. -/
def IsRead (stack events : List DelimiterEvent) : Prop :=
  (stack.reverse ++ events).Pairwise (·.offset < ·.offset)

namespace IsRead

variable {event opened : DelimiterEvent} {stack inner outer rest : List DelimiterEvent}

theorem opening (isRead : IsRead stack (event :: rest)) : IsRead (event :: stack) rest := by
  rw [IsRead, List.reverse_cons, List.append_assoc]
  exact isRead

theorem stray (isRead : IsRead stack (event :: rest)) : IsRead stack rest :=
  List.Pairwise.sublist ((List.sublist_cons_self event rest).append_left _) isRead

theorem outside (isRead : IsRead (inner ++ opened :: outer) (event :: rest)) : IsRead outer rest := by
  apply List.Pairwise.sublist _ isRead.stray
  apply List.Sublist.append_right
  apply List.Sublist.reverse
  exact (List.sublist_cons_self opened outer).trans (List.sublist_append_right inner _)

/-- A pair stands inside the pairs that are still open, and in front of all that follows. -/
theorem closing (isRead : IsRead (inner ++ opened :: outer) (event :: rest)) :
    opened.offset < event.offset ∧ (∀ other ∈ outer, other.offset < opened.offset) ∧
      ∀ other ∈ rest, event.offset < other.offset := by
  obtain ⟨stacked, ⟨behind, -⟩, before⟩ := by
    rw [IsRead, List.pairwise_append, List.pairwise_cons] at isRead
    exact isRead
  rw [List.pairwise_reverse, List.pairwise_append, List.pairwise_cons] at stacked
  refine ⟨?_, stacked.2.1.1, behind⟩
  apply before opened _ event List.mem_cons_self
  exact List.mem_reverse.2 (List.mem_append_right inner List.mem_cons_self)

end IsRead

/-- An opening delimiter and a closing one of its kind behind it. -/
structure IsPair (pair : DelimiterEvent × DelimiterEvent) : Prop where
  opens : pair.1.opens = true
  closes : pair.2.opens = false
  same : pair.1.delimiter = pair.2.delimiter
  before : pair.1.offset < pair.2.offset

/-- A pair stands in front of another one or inside it. -/
def IsNested (pair other : DelimiterEvent × DelimiterEvent) : Prop :=
  pair.2.offset < other.1.offset ∨
    other.1.offset < pair.1.offset ∧ pair.2.offset < other.2.offset

theorem mem_of_mem_pairsIn {stack events : List DelimiterEvent}
    {pair : DelimiterEvent × DelimiterEvent} (isMember : pair ∈ pairsIn stack events) :
    (pair.1 ∈ stack ∨ pair.1 ∈ events) ∧ pair.2 ∈ events := by
  induction stack, events using walk_induction with
  | nil stack => cases isMember
  | opening stack event rest opens ih =>
      rw [pairsIn_opening opens] at isMember
      obtain ⟨first, second⟩ := ih isMember
      rw [List.mem_cons, or_assoc, or_left_comm, ← List.mem_cons] at first
      exact ⟨first, List.mem_cons_of_mem event second⟩
  | closing inner opened outer event rest closes apart partner ih =>
      rw [pairsIn_closing closes apart partner] at isMember
      rcases List.mem_cons.1 isMember with rfl | later
      · constructor
        · exact .inl (List.mem_append_right inner List.mem_cons_self)
        · exact List.mem_cons_self
      · obtain ⟨first, second⟩ := ih later
        constructor
        · apply first.imp _ (List.mem_cons_of_mem event)
          intro isOuter
          exact List.mem_append_right inner (List.mem_cons_of_mem opened isOuter)
        · exact List.mem_cons_of_mem event second
  | stray stack event rest closes apart ih =>
      rw [pairsIn_stray closes apart] at isMember
      obtain ⟨first, second⟩ := ih isMember
      exact ⟨first.imp_right (List.mem_cons_of_mem event), List.mem_cons_of_mem event second⟩

theorem isPair_of_mem_pairsIn {stack events : List DelimiterEvent}
    (open' : ∀ event ∈ stack, event.opens = true) (isRead : IsRead stack events)
    {pair : DelimiterEvent × DelimiterEvent} (isMember : pair ∈ pairsIn stack events) :
    IsPair pair := by
  induction stack, events using walk_induction with
  | nil stack => cases isMember
  | opening stack event rest opens ih =>
      rw [pairsIn_opening opens] at isMember
      exact ih (List.forall_mem_cons.2 ⟨opens, open'⟩) isRead.opening isMember
  | closing inner opened outer event rest closes apart partner ih =>
      rw [List.forall_mem_append, List.forall_mem_cons] at open'
      obtain ⟨-, opens, isOuter⟩ := open'
      rw [pairsIn_closing closes apart partner] at isMember
      rcases List.mem_cons.1 isMember with rfl | later
      · exact ⟨opens, closes, delimiter_eq partner, isRead.closing.1⟩
      · exact ih isOuter isRead.outside later
  | stray stack event rest closes apart ih =>
      rw [pairsIn_stray closes apart] at isMember
      exact ih open' isRead.stray isMember

/-- Pairs do not cross: what is opened inside a pair is closed or given up inside it. -/
theorem pairwise_isNested_pairsIn {stack events : List DelimiterEvent}
    (isRead : IsRead stack events) : (pairsIn stack events).Pairwise IsNested := by
  induction stack, events using walk_induction with
  | nil stack => exact .nil
  | opening stack event rest opens ih =>
      rw [pairsIn_opening opens]
      exact ih isRead.opening
  | closing inner opened outer event rest closes apart partner ih =>
      rw [pairsIn_closing closes apart partner]
      obtain ⟨-, outside, behind⟩ := isRead.closing
      refine .cons ?_ (ih isRead.outside)
      intro pair isMember
      obtain ⟨isOuter | isRest, closer⟩ := mem_of_mem_pairsIn isMember
      · exact .inr ⟨outside _ isOuter, behind _ closer⟩
      · exact .inl (behind _ isRest)
  | stray stack event rest closes apart ih =>
      rw [pairsIn_stray closes apart]
      exact ih isRead.stray

/-! ## Dyck words -/

/-- Well nested delimiters of five kinds. -/
inductive IsDyck : List DelimiterEvent → Prop where
  | nil : IsDyck []
  | enclosed {opening closing : DelimiterEvent} {inside later : List DelimiterEvent}
      (opens : opening.opens = true) (closes : closing.opens = false)
      (same : opening.delimiter = closing.delimiter) (isInside : IsDyck inside)
      (isLater : IsDyck later) : IsDyck (opening :: (inside ++ closing :: later))

/-- Delimiters that close all that is open, nearest first, and are otherwise a Dyck word. -/
def ClosesAll : List DelimiterEvent → List DelimiterEvent → Prop
  | [], events => IsDyck events
  | opened :: stack, events =>
      ∃ inside closing later, events = inside ++ closing :: later ∧ IsDyck inside ∧
        closing.opens = false ∧ opened.delimiter = closing.delimiter ∧ ClosesAll stack later

theorem ClosesAll.opening {event : DelimiterEvent} {stack rest : List DelimiterEvent}
    (opens : event.opens = true) (closesAll : ClosesAll (event :: stack) rest) :
    ClosesAll stack (event :: rest) := by
  obtain ⟨inside, closing, later, rfl, isInside, closes, same, outside⟩ := closesAll
  cases stack with
  | nil => exact .enclosed opens closes same isInside outside
  | cons opened stack =>
      obtain ⟨between, closer, behind, rfl, isBetween, closerCloses, closerSame, outer⟩ := outside
      refine ⟨event :: (inside ++ closing :: between), closer, behind, ?_, ?_, closerCloses,
        closerSame, outer⟩
      · simp
      · exact .enclosed opens closes same isInside isBetween

theorem closesAll_of_unmatchedIn {stack events : List DelimiterEvent}
    (none : unmatchedIn stack events = []) : ClosesAll stack events := by
  induction events generalizing stack with
  | nil =>
      rw [unmatchedIn, List.map_eq_nil_iff] at none
      rw [none]
      exact IsDyck.nil
  | cons event rest ih =>
      obtain ⟨later, settles, behind⟩ := exists_settles none
      cases settles with
      | opening opens => exact .opening opens (ih behind)
      | closing closes partner => exact ⟨[], event, rest, rfl, .nil, closes, partner, ih behind⟩

/-- A Dyck word leaves the open delimiters as they are. -/
theorem IsDyck.unmatchedIn_append {events : List DelimiterEvent} (isDyck : IsDyck events)
    (stack rest : List DelimiterEvent) :
    unmatchedIn stack (events ++ rest) = unmatchedIn stack rest := by
  induction isDyck generalizing stack rest with
  | nil => rfl
  | @enclosed opening closing inside later opens closes same _ _ inner outer =>
      have partner : closing.isOther opening = false := by simp [isOther, same]
      have pair : unmatchedIn (opening :: stack) (closing :: (later ++ rest)) =
          unmatchedIn stack (later ++ rest) := by
        have apart : closing.IsApart [] := List.forall_mem_nil _
        exact unmatchedIn_closing closes apart partner
      rw [List.cons_append, List.append_assoc, List.cons_append, unmatchedIn_opening opens, inner,
        pair, outer]

theorem unmatched_eq_nil_iff {events : List DelimiterEvent} :
    unmatched events = [] ↔ IsDyck events := by
  constructor
  · exact closesAll_of_unmatchedIn
  · intro isDyck
    have whole := isDyck.unmatchedIn_append [] []
    rwa [List.append_nil] at whole

end DelimiterEvent

end TexCalc

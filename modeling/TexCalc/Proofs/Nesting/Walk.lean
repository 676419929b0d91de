import TexCalc.Text.Bracket

/-!
# Brackets that are open

Over a text the brackets are followed that are open at each place, the last one first.  A bracket
closes the one of its kind that was opened last.  There is one exception: a square bracket may be
the whole argument of a command.  It is put in parentheses then, while its partner stays where it
was, so that other brackets are closed in between.  Such a bracket is loose.

What one character does to the open brackets is a step, and a text is walked step by step.
-/

namespace TexCalc

/-- Brackets of every kind. -/
def isBracket (c : Char) : Bool :=
  c ∈ ['(', ')', '[', ']', '\x7b', '\x7d']

def isRound (c : Char) : Bool :=
  c == '(' || c == ')'

theorem isBracket_opener (bracket : Bracket) : isBracket bracket.opener = true := by
  cases bracket <;> rfl

theorem isBracket_closer (bracket : Bracket) : isBracket bracket.closer = true := by
  cases bracket <;> rfl

theorem ne_opener_of_plain {c : Char} (other : isBracket c = false) (bracket : Bracket) :
    c ≠ bracket.opener := by
  rintro rfl
  rw [isBracket_opener] at other
  cases other

theorem ne_closer_of_plain {c : Char} (other : isBracket c = false) (bracket : Bracket) :
    c ≠ bracket.closer := by
  rintro rfl
  rw [isBracket_closer] at other
  cases other

theorem isRound_opener (bracket : Bracket) : isRound bracket.opener = (bracket == .round) := by
  cases bracket <;> rfl

theorem isRound_of_plain {c : Char} (other : isBracket c = false) : isRound c = false := by
  rw [isRound, Bool.or_eq_false_iff, beq_eq_false_iff_ne, beq_eq_false_iff_ne]
  constructor <;> rintro rfl <;> exact absurd other (by decide)

theorem isBracket_cases (c : Char) :
    isBracket c = false ∨ ∃ bracket : Bracket, c = bracket.opener ∨ c = bracket.closer := by
  cases found : isBracket c with
  | false => exact .inl rfl
  | true =>
      right
      simp only [isBracket, decide_eq_true_eq, List.mem_cons, List.not_mem_nil, or_false] at found
      rcases found with rfl | rfl | rfl | rfl | rfl | rfl
      · exact ⟨.round, .inl rfl⟩
      · exact ⟨.round, .inr rfl⟩
      · exact ⟨.square, .inl rfl⟩
      · exact ⟨.square, .inr rfl⟩
      · exact ⟨.curly, .inl rfl⟩
      · exact ⟨.curly, .inr rfl⟩

/-- A class of characters that holds no bracket. -/
theorem isBracket_eq_false_of {accept : Char → Bool} {c : Char}
    (none : ['(', ')', '[', ']', '\x7b', '\x7d'].all (!accept ·) = true)
    (accepted : accept c = true) : isBracket c = false := by
  cases found : isBracket c with
  | false => rfl
  | true =>
      have here := List.all_eq_true.1 none c (by simpa [isBracket] using found)
      rw [accepted] at here
      cases here

theorem all_plain_of {accept : Char → Bool} {text : Text}
    (none : ['(', ')', '[', ']', '\x7b', '\x7d'].all (!accept ·) = true)
    (all : text.all accept = true) : text.all (!isBracket ·) = true := by
  rw [List.all_eq_true] at all ⊢
  intro c isMember
  rw [isBracket_eq_false_of none (all c isMember)]
  rfl

theorem isBracket_eq_false_of_isAlpha {c : Char} (letter : c.isAlpha = true) :
    isBracket c = false :=
  isBracket_eq_false_of (by decide) letter

/-- A bracket that is open: one that waits for its partner, or a loose square bracket. -/
inductive Pending where
  | bracket (bracket : Bracket)
  | loose
  deriving DecidableEq, Repr

namespace Pending

def opener : Pending → Char
  | .bracket kind => kind.opener
  | .loose => '['

def closer : Pending → Char
  | .bracket kind => kind.closer
  | .loose => ']'

theorem isBracket_opener (pending : Pending) : isBracket pending.opener = true := by
  rcases pending with kind | _
  · cases kind <;> rfl
  · rfl

theorem isBracket_closer (pending : Pending) : isBracket pending.closer = true := by
  rcases pending with kind | _
  · cases kind <;> rfl
  · rfl

/-- Whether a reader that looks for the partner of a bracket counts this one on its way. -/
def isCountedBy (reader : Bracket) : Pending → Bool
  | .bracket kind => kind == reader
  | .loose => reader == .square

end Pending

/-- A number of loose brackets. -/
def loose (count : Nat) : List Pending :=
  List.replicate count .loose

@[simp] theorem loose_zero : loose 0 = [] :=
  rfl

@[simp] theorem loose_succ (count : Nat) : loose (count + 1) = .loose :: loose count :=
  rfl

theorem loose_add (first second : Nat) : loose (first + second) = loose first ++ loose second :=
  List.replicate_append_replicate.symm

theorem loose_append_cons (count : Nat) (below : List Pending) :
    loose count ++ .loose :: below = loose (count + 1) ++ below := by
  rw [loose_add, List.append_assoc]
  rfl

/-- One bracket below others is the one below a number of loose brackets, or stands deeper. -/
theorem eq_of_loose_append {count : Nat} {above below below' : List Pending} {bracket : Bracket}
    {pending : Pending}
    (same : above ++ .bracket bracket :: below = loose count ++ pending :: below') :
    (above = loose count ∧ pending = .bracket bracket ∧ below' = below) ∨
      ∃ between, above = loose count ++ pending :: between ∧
        below' = between ++ .bracket bracket :: below := by
  induction count generalizing above with
  | zero =>
      cases above with
      | nil =>
          cases same
          exact .inl ⟨rfl, rfl, rfl⟩
      | cons first above =>
          cases same
          exact .inr ⟨above, rfl, rfl⟩
  | succ count ih =>
      cases above with
      | nil => cases same
      | cons first above =>
          rw [loose_succ, List.cons_append, List.cons_append] at same
          obtain ⟨rfl, later⟩ := List.cons.inj same
          rcases ih later with ⟨isLoose, isSame⟩ | ⟨between, isAbove, isBelow⟩
          · exact .inl ⟨by rw [isLoose, loose_succ], isSame⟩
          · exact .inr ⟨between, by rw [isAbove]; rfl, isBelow⟩

/-- What one character does to the open brackets.  While roots are still to be read, square
brackets are guarded: one is loose only where it `may` be. -/
inductive Step (guarded may : Bool) : List Pending → Char → List Pending → Prop where
  | plain {pending : List Pending} {c : Char} (other : isBracket c = false) :
      Step guarded may pending c pending
  | opens {pending : List Pending} {bracket : Bracket}
      (fixed : bracket = .square → guarded = true) :
      Step guarded may pending bracket.opener (.bracket bracket :: pending)
  | closes {pending : List Pending} {bracket : Bracket} :
      Step guarded may (.bracket bracket :: pending) bracket.closer pending
  | loose {pending : List Pending} (allowed : guarded = true → may = true) :
      Step guarded may pending '[' (.loose :: pending)
  | ends {pending : List Pending} : Step guarded may (.loose :: pending) ']' pending

/-- When the brackets `before` are open in front of a text, the brackets `after` are open behind it.
A guarded bracket may be loose right after a parenthesis.  A loose bracket may wait longer than one
that was opened before it. -/
inductive Walk (guarded : Bool) : (may : Bool) → (before : List Pending) → Text →
    (after : List Pending) → Prop where
  | done {may : Bool} (pending : List Pending) : Walk guarded may pending [] pending
  | step {may : Bool} {before between after : List Pending} {c : Char} {rest : Text}
      (first : Step guarded may before c between)
      (later : Walk guarded (isRound c) between rest after) :
      Walk guarded may before (c :: rest) after
  | sinks {may : Bool} (above : List Pending) {below after : List Pending} {bracket : Bracket}
      {text : Text} (other : bracket ≠ .square)
      (later : Walk guarded may (above ++ .bracket bracket :: .loose :: below) text after) :
      Walk guarded may (above ++ .loose :: .bracket bracket :: below) text after

/-! ## Steps -/

namespace Step

variable {guarded may : Bool} {before after : List Pending} {c : Char}

theorem mono (step : Step guarded may before c after) : Step guarded true before c after := by
  cases step with
  | plain other => exact .plain other
  | opens fixed => exact .opens fixed
  | closes => exact .closes
  | loose _ => exact .loose fun _ => rfl
  | ends => exact .ends

theorem unguarded (step : Step false may before c after) (may' : Bool) :
    Step false may' before c after := by
  cases step with
  | plain other => exact .plain other
  | opens fixed => exact .opens fixed
  | closes => exact .closes
  | loose _ => exact .loose fun guarded => absurd guarded Bool.false_ne_true
  | ends => exact .ends

/-- Whether a bracket can be opened does not depend on those that are open. -/
theorem frame_replace {pending : Pending} (step : Step guarded may before c (pending :: before))
    (below : List Pending) : Step guarded may below c (pending :: below) := by
  generalize opened : pending :: before = after at step
  have longer : after.length = before.length + 1 := by rw [← opened, List.length_cons]
  cases step with
  | plain _ => omega
  | opens fixed =>
      cases opened
      exact .opens fixed
  | closes => simp only [List.length_cons] at longer; omega
  | loose allowed =>
      cases opened
      exact .loose allowed
  | ends => simp only [List.length_cons] at longer; omega

theorem may_of_loose (step : Step guarded may before c (.loose :: before)) :
    guarded = true → may = true := by
  generalize opened : .loose :: before = after at step
  have longer : after.length = before.length + 1 := by rw [← opened, List.length_cons]
  cases step with
  | plain _ => omega
  | opens _ => cases opened
  | closes => simp only [List.length_cons] at longer; omega
  | loose allowed => exact allowed
  | ends => simp only [List.length_cons] at longer; omega

end Step

/-! ## Walks -/

namespace Walk

variable {guarded may : Bool} {before between after : List Pending} {c : Char}
  {text right rest : Text} {bracket : Bracket}

/-- Nothing is lost where a bracket may be loose. -/
theorem mono (walk : Walk guarded may before text after) : Walk guarded true before text after := by
  induction walk with
  | done => exact .done _
  | step first later _ => exact .step first.mono later
  | sinks above other _ ih => exact .sinks _ other ih

/-- A walk that holds away from parentheses holds everywhere. -/
theorem anywhere (walk : Walk guarded false before text after) (may : Bool) :
    Walk guarded may before text after := by
  cases may with
  | false => exact walk
  | true => exact walk.mono

/-- When no brackets are guarded, it does not matter what stands in front. -/
theorem unguarded (walk : Walk false may before text after) (may' : Bool) :
    Walk false may' before text after := by
  induction walk with
  | done => exact .done _
  | step first later _ => exact .step (first.unguarded may') later
  | sinks above other _ ih => exact .sinks _ other ih

theorem append (first : Walk guarded may before text between)
    (second : Walk guarded false between right after) :
    Walk guarded may before (text ++ right) after := by
  induction first with
  | done => exact second.anywhere _
  | step first _ ih => exact .step first (ih second)
  | sinks above other _ ih => exact .sinks _ other (ih second)

theorem split (walk : Walk guarded may before (text ++ right) after) :
    ∃ between, Walk guarded may before text between ∧ Walk guarded true between right after := by
  generalize whole : text ++ right = full at walk
  induction walk generalizing text with
  | done =>
      obtain ⟨rfl, rfl⟩ := List.append_eq_nil_iff.1 whole
      exact ⟨_, .done _, .done _⟩
  | step first later ih =>
      cases text with
      | nil =>
          rw [List.nil_append] at whole
          exact ⟨_, .done _, whole ▸ .step first.mono later⟩
      | cons d text =>
          rw [List.cons_append] at whole
          obtain ⟨rfl, shorter⟩ := List.cons.inj whole
          obtain ⟨between, front, back⟩ := ih shorter
          exact ⟨between, .step first front, back⟩
  | sinks above other _ ih =>
      obtain ⟨between, front, back⟩ := ih whole
      exact ⟨between, .sinks _ other front, back⟩

/-- What stands after a character may be replaced. -/
theorem congr_cons {new : Text} (walk : Walk guarded may before (c :: rest) after)
    (replaced : ∀ between, Walk guarded (isRound c) between rest after →
      Walk guarded (isRound c) between new after) :
    Walk guarded may before (c :: new) after := by
  generalize whole : c :: rest = full at walk
  induction walk with
  | done => cases whole
  | step first later _ =>
      cases whole
      exact .step first (replaced _ later)
  | sinks above other _ ih => exact .sinks _ other (ih replaced whole)

/-- All loose brackets right above a bracket may wait longer than it. -/
theorem sinks_all (other : bracket ≠ .square) (above : List Pending) {count : Nat}
    {below : List Pending}
    (walk : Walk guarded may (above ++ .bracket bracket :: (loose count ++ below)) text after) :
    Walk guarded may (above ++ (loose count ++ .bracket bracket :: below)) text after := by
  induction count generalizing below with
  | zero => exact walk
  | succ count ih =>
      rw [← loose_append_cons] at walk ⊢
      have sunk := ih walk
      rw [← List.append_assoc] at sunk ⊢
      exact .sinks _ other sunk

/-- Loose brackets wait on when the bracket below them is closed. -/
theorem closes_through {pending : Pending} {count : Nat} {below : List Pending}
    (fixed : pending.isCountedBy .square = true → count = 0)
    (later : Walk guarded (isRound pending.closer) (loose count ++ below) rest after) :
    Walk guarded may (loose count ++ pending :: below) (pending.closer :: rest) after := by
  have closed :
      Walk guarded may (pending :: (loose count ++ below)) (pending.closer :: rest) after := by
    cases pending with
    | bracket bracket => exact .step .closes later
    | loose => exact .step .ends later
  cases counted : pending.isCountedBy .square with
  | true =>
      rw [fixed counted] at closed ⊢
      exact closed
  | false =>
      cases pending with
      | bracket bracket => exact sinks_all (by simpa [Pending.isCountedBy] using counted) [] closed
      | loose => cases counted

/-- What the next character tells about the brackets that are open. -/
theorem of_cons (walk : Walk guarded may before (c :: rest) after) :
    (isBracket c = false ∧ Walk guarded (isRound c) before rest after) ∨
      (∃ pending, c = pending.opener ∧ Step guarded may before c (pending :: before) ∧
        Walk guarded (isRound c) (pending :: before) rest after) ∨
      (∃ count pending below, c = pending.closer ∧
        (pending.isCountedBy .square = true → count = 0) ∧
          before = loose count ++ pending :: below ∧
            Walk guarded (isRound c) (loose count ++ below) rest after) := by
  generalize whole : c :: rest = full at walk
  induction walk with
  | done => cases whole
  | step first later _ =>
      cases whole
      cases first with
      | plain other => exact .inl ⟨other, later⟩
      | @opens _ bracket fixed =>
          exact .inr (.inl ⟨.bracket bracket, rfl, .opens fixed, later⟩)
      | loose allowed => exact .inr (.inl ⟨.loose, rfl, .loose allowed, later⟩)
      | closes =>
          exact .inr (.inr ⟨0, .bracket _, _, rfl, fun _ => rfl, rfl, later⟩)
      | ends => exact .inr (.inr ⟨0, .loose, _, rfl, fun _ => rfl, rfl, later⟩)
  | @sinks _ above below _ sunk _ other _ ih =>
      rcases ih whole with ⟨plain, later⟩ | ⟨pending, opens, step, later⟩ |
        ⟨count, pending, rest, closes, fixed, same, later⟩
      · exact .inl ⟨plain, .sinks above other later⟩
      · have again := step.frame_replace (above ++ .loose :: .bracket sunk :: below)
        exact .inr (.inl ⟨pending, opens, again, .sinks (pending :: above) other later⟩)
      · rcases eq_of_loose_append same with ⟨rfl, rfl, rfl⟩ | ⟨between, rfl, rfl⟩
        · refine .inr (.inr ⟨count + 1, .bracket sunk, below, closes, ?_, ?_, ?_⟩)
          · exact fun square => absurd (by simpa [Pending.isCountedBy] using square) other
          · rw [loose_append_cons]
          · rwa [loose_append_cons] at later
        · refine .inr (.inr ⟨count, pending, between ++ .loose :: .bracket sunk :: below, closes,
            fixed, ?_, ?_⟩)
          · simp only [List.append_assoc, List.cons_append]
          · rw [← List.append_assoc] at later ⊢
            exact .sinks _ other later

/-- A character that is no bracket is passed over. -/
theorem of_plain (other : isBracket c = false) (walk : Walk guarded may before (c :: rest) after) :
    Walk guarded false before rest after := by
  rcases walk.of_cons with ⟨_, later⟩ | ⟨pending, rfl, _⟩ | ⟨_, pending, _, rfl, _⟩
  · rwa [isRound_of_plain other] at later
  · rw [pending.isBracket_opener] at other
    cases other
  · rw [pending.isBracket_closer] at other
    cases other

theorem of_plain_append {lead : Text} (plain : lead.all (!isBracket ·) = true)
    (walk : Walk guarded may before (lead ++ rest) after) : Walk guarded may before rest after := by
  induction lead with
  | nil => exact walk
  | cons c lead ih =>
      rw [List.all_cons, Bool.and_eq_true, Bool.not_eq_true'] at plain
      exact ih plain.2 ((walk.of_plain plain.1).anywhere may)

theorem plain_cons (other : isBracket c = false) (walk : Walk guarded false before rest after) :
    Walk guarded may before (c :: rest) after :=
  .step (.plain other) (isRound_of_plain other ▸ walk)

theorem plain_append {lead : Text} (plain : lead.all (!isBracket ·) = true)
    (walk : Walk guarded false before rest after) :
    Walk guarded may before (lead ++ rest) after := by
  induction lead generalizing may with
  | nil => exact walk.anywhere may
  | cons c lead ih =>
      rw [List.all_cons, Bool.and_eq_true, Bool.not_eq_true'] at plain
      exact plain_cons plain.1 (ih plain.2)

/-- Where no text is left, it does not matter what stands in front. -/
theorem nil_anywhere (walk : Walk guarded may before [] after) (may' : Bool) :
    Walk guarded may' before [] after := by
  generalize whole : ([] : Text) = text at walk
  induction walk with
  | done => exact .done _
  | step => cases whole
  | sinks above other _ ih => exact .sinks above other (ih whole)

/-- What is no bracket may be left out at the end, too. -/
theorem of_append_plain {trail : Text} (plain : trail.all (!isBracket ·) = true)
    (walk : Walk guarded may before (text ++ trail) after) :
    Walk guarded may before text after := by
  obtain ⟨between, front, back⟩ := walk.split
  have ended : Walk guarded true between [] after := by
    cases trail with
    | nil => exact back
    | cons c trail =>
        rw [List.all_cons, Bool.and_eq_true, Bool.not_eq_true'] at plain
        rw [← List.append_nil trail] at back
        exact ((back.of_plain plain.1).of_plain_append plain.2).mono
  have whole := front.append (ended.nil_anywhere false)
  rwa [List.append_nil] at whole

/-- A bracket that cannot be loose is opened. -/
theorem of_opener (fixed : bracket ≠ .square)
    (walk : Walk guarded may before (bracket.opener :: rest) after) :
    Walk guarded (bracket == .round) (.bracket bracket :: before) rest after := by
  rcases walk.of_cons with ⟨other, _⟩ | ⟨pending, same, _, later⟩ | ⟨_, pending, _, same, _⟩
  · rw [isBracket_opener] at other
    cases other
  · rw [isRound_opener] at later
    cases pending with
    | bracket kind =>
        have : bracket = kind := by cases bracket <;> cases kind <;> first | rfl | cases same
        exact this ▸ later
    | loose => cases bracket <;> first | exact absurd rfl fixed | cases same
  · rcases pending with kind | _
    · cases bracket <;> cases kind <;> cases same
    · cases bracket <;> cases same

/-- An opening parenthesis. -/
theorem paren (later : Walk guarded true (.bracket .round :: before) rest after) :
    Walk guarded may before ('(' :: rest) after :=
  .step (@Step.opens guarded may before .round fun square => nomatch square) later

/-- A closing parenthesis, with loose brackets in front. -/
theorem closeParen {count : Nat} (later : Walk guarded true (loose count ++ before) rest after) :
    Walk guarded may (loose count ++ .bracket .round :: before) (')' :: rest) after :=
  @closes_through guarded may after rest (.bracket .round) count before
    (fun square => nomatch square) later

end Walk

end TexCalc

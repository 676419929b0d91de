import TexCalc.Proofs.Residue.Concealed
import TexCalc.Proofs.Spacing.Respaced

/-!
# Looking for arguments across a blank

A command looks for its arguments in the text as it was written.  It has read them in front of a
blank, it looks for one just at the blank, or it has come upon a group that reaches across the
blank.  What is written in the place of the blank matters in the second case only, and in the third
one when there is nothing else in the group.
-/

namespace TexCalc

namespace Text

/-- Whether one of the next `count` arguments is looked for at the end of the text. -/
def seeksArgument : (count : Nat) → Text → Bool
  | 0, _ => false
  | count + 1, text =>
      text.skipBlanks.isEmpty ||
        match Probe.ofText text with
        | .present rest => seeksArgument count rest
        | .blank | .missing | .unclosed => false

/-- Whether the radicand of a root is looked for at the end of the text. -/
def seeksRadicand (text : Text) : Bool :=
  if text.skipBlanks.head? = some '[' then
    match Argument.readOptional? text with
    | some index => seeksArgument 1 index.rest
    | none => false
  else
    seeksArgument 1 text

/-- Whether a group is opened at the end of one text and closed at the start of another one, with
nothing but blanks inside. -/
def enclose (front back : Text) : Bool :=
  front.trimEnd.getLast?.any (· ∈ ['\x7b', '[']) && back.trimStart.head?.any (· ∈ ['\x7d', ']'])

theorem enclose_of_group {bracket : Bracket} (other : bracket ≠ .round) {left inside : Text}
    (leftBlank : left.isAllBlank = true) (insideBlank : inside.isAllBlank = true)
    (lead rest : Text) :
    enclose (lead ++ bracket.opener :: left) (inside ++ bracket.closer :: rest) = true := by
  have visible : isBlank bracket.opener = false ∧ isBlank bracket.closer = false ∧
      bracket.opener ∈ ['\x7b', '['] ∧ bracket.closer ∈ ['\x7d', ']'] := by
    cases bracket
    · exact absurd rfl other
    · decide
    · decide
  have front : trimEnd (lead ++ bracket.opener :: left) = lead ++ [bracket.opener] := by
    have blank : left.reverse.all isBlank = true := by rwa [List.all_reverse]
    have ends : endsRun isBlank (bracket.opener :: lead.reverse) = true := by
      simp [endsRun, visible.1]
    rw [trimEnd, List.reverse_append, List.reverse_cons, List.append_assoc, List.singleton_append,
      dropWhile_append_of_endsRun blank ends, List.reverse_cons, List.reverse_reverse]
  have back : trimStart (inside ++ bracket.closer :: rest) = bracket.closer :: rest :=
    dropWhile_append_of_endsRun insideBlank (by simp [endsRun, visible.2.1])
  rw [enclose, front, back, List.getLast?_concat, List.head?_cons, Option.any_some, Option.any_some,
    decide_eq_true visible.2.2.1, decide_eq_true visible.2.2.2]
  rfl

end Text

/-! ## Nothing is hidden between lexemes -/

/-- A token in front of more text hides nothing of it. -/
theorem Token.hidesNext_read {c d : Char} {rest later : Text}
    (more : (read c rest).rest = d :: later) :
    Text.hidesNext false (c :: (read c rest).taken) = false := by
  by_cases percent : c = '%'
  · subst percent
    have isEnd := Text.isEnd_of_splitLineEnd (Text.endsRun_dropWhile (!isLineEnd ·) rest) more
    rw [read_comment]
    generalize (Text.splitLineEnd _).1 = lineEnd at isEnd
    obtain ⟨e, ending, rfl, plain⟩ : ∃ e ending, lineEnd = ending ++ [e] ∧ e ≠ '\\' := by
      rcases isEnd with rfl | rfl | ⟨rfl, _⟩
      · exact ⟨'\n', ['\r'], rfl, by decide⟩
      · exact ⟨'\n', [], rfl, by decide⟩
      · exact ⟨'\r', [], rfl, by decide⟩
    rw [← List.append_assoc, ← List.cons_append]
    exact Text.hidesNext_concat plain false _
  · by_cases back : c = '\\'
    · subst back
      cases found : Control.read? rest with
      | none =>
          rw [Control.read?_eq_none_iff] at found
          subst found
          cases more
      | some control =>
          rw [read_control found]
          exact Text.CutsOpenly.hidesNext_control found
    · cases isBlank : TexCalc.isBlank c with
      | true =>
          rw [read_of_isBlank isBlank]
          refine Text.hidesNext_of_clean (List.all_eq_true.2 fun e isMember => ?_)
          rcases List.mem_cons.1 isMember with rfl | later
          · exact isClean_of_isBlank isBlank
          · exact isClean_of_isBlank (List.all_eq_true.1 List.all_takeWhile e later)
      | false =>
          obtain ⟨token, same, _⟩ := exists_read_eq percent back isBlank
          rw [same]
          exact Text.hidesNext_concat back false []

/-- Lexemes in front of another one hide nothing of it. -/
theorem Text.hidesNext_ofLexemes {text : Text} {offset : Nat} {front after : List Lexeme}
    {here : Lexeme} (isLexed : text.lexemesFrom offset = front ++ here :: after) :
    hidesNext false (ofLexemes front) = false := by
  induction front generalizing text offset with
  | nil => rfl
  | cons first front ih =>
      obtain ⟨c, rest, rfl, same, later⟩ := exists_of_lexemesFrom isLexed
      obtain ⟨d, more, isRest⟩ : ∃ d more, (Token.read c rest).rest = d :: more := by
        refine List.exists_cons_of_ne_nil fun nothing => ?_
        rw [nothing, lexemesFrom] at later
        exact List.append_ne_nil_of_right_ne_nil front (List.cons_ne_nil here after) later.symm
      have source : ofLexemes (first :: front) = first.source ++ ofLexemes front := rfl
      rw [source, hidesNext_append, same, Token.hidesNext_read isRest]
      exact ih later

/-! ## What reaches behind a text -/

/-- A group is closed in a text, or it reaches behind it. -/
inductive Bracket.Reaches (bracket : Bracket) (depth : Nat) (text : Text) : Prop where
  | inside (group : Group) (found : bracket.groupFrom? depth text = some group)
      (openly : Text.hidesNext false group.rest = false)
      (same : ∀ rest, bracket.groupFrom? depth (text ++ rest) = some (group.followedBy rest))
  | behind (later : Nat)
      (same : ∀ rest, bracket.groupFrom? depth (text ++ rest) =
        (bracket.groupFrom? later rest).map (Group.extend text))

namespace Bracket

/-- A reader of groups that takes over a few characters. -/
theorem Reaches.append {bracket : Bracket} {depth next : Nat} (lead : Text) {text : Text}
    (step : ∀ rest, bracket.groupFrom? depth (lead ++ rest) =
      (bracket.groupFrom? next rest).map (Group.extend lead))
    (reaches : bracket.Reaches next text) : bracket.Reaches depth (lead ++ text) := by
  cases reaches with
  | inside group found openly same =>
      refine .inside (group.extend lead) ?_ openly fun rest => ?_
      · rw [step, found, Option.map_some]
      · rw [List.append_assoc, step, same, Option.map_some]
        rfl
  | behind later same =>
      refine .behind later fun rest => ?_
      rw [List.append_assoc, step, same, Text.IsNeutral.map_extend_extend]

theorem reaches {text : Text} (openly : Text.hidesNext false text = false) (bracket : Bracket)
    (depth : Nat) : bracket.Reaches depth text := by
  have plain {c : Char} {rest : Text} (other : c ≠ '\\')
      (openly : Text.hidesNext false (c :: rest) = false) : Text.hidesNext false rest = false := by
    rwa [Text.hidesNext, beq_false_of_ne other, Bool.false_and] at openly
  have opener : bracket.opener ≠ '\\' := by cases bracket <;> decide
  have closer : bracket.closer ≠ '\\' := by cases bracket <;> decide
  fun_induction groupFrom? bracket depth text with
  | case1 depth =>
      refine .behind depth fun rest => ?_
      cases found : bracket.groupFrom? depth rest <;> simp [found, Group.extend]
  | case2 depth hidden rest ih =>
      rw [Text.hidesNext, Text.hidesNext] at openly
      refine Reaches.append ['\\', hidden] (fun rest => ?_) (ih (by simpa using openly))
      rw [List.cons_append, List.singleton_append, groupFrom?]
  | case3 depth rest _ ih =>
      exact Reaches.append [bracket.opener]
        (Text.IsNeutral.groupFrom?_opener bracket depth) (ih (plain opener openly))
  | case4 rest =>
      refine .inside ⟨[], rest⟩ ?_ (plain closer openly) fun later => ?_
      · cases bracket <;> rfl
      · cases bracket <;> rfl
  | case5 rest depth _ _ ih =>
      exact Reaches.append [bracket.closer]
        (Text.IsNeutral.groupFrom?_closer bracket depth) (ih (plain closer openly))
  | case6 depth c rest hides noOpener noCloser ih =>
      by_cases back : c = '\\'
      · cases rest with
        | nil =>
            subst back
            cases openly
        | cons hidden rest => exact (hides hidden rest back rfl).elim
      · exact Reaches.append [c]
          (Text.IsNeutral.groupFrom?_cons noOpener noCloser back depth) (ih (plain back openly))

end Bracket

/-- What is found where a group of which `left` was read goes on with the given group. -/
def Probe.ofGroup (left : Text) : Option Group → Probe
  | none => unclosed
  | some group => if (left ++ group.inside).isAllBlank then blank else present group.rest

theorem Probe.ofGroup_extend (left gap : Text) (group? : Option Group) :
    ofGroup left (group?.map (Group.extend gap)) = ofGroup (left ++ gap) group? := by
  cases group? with
  | none => rfl
  | some group => simp only [Option.map_some, ofGroup, Group.extend, List.append_assoc]

/-- An argument is looked for behind a text, it is read or refused in the text, or it is a group
that reaches behind the text. -/
inductive Probe.Reaches (text : Text) : Prop where
  | sought (spent : text.skipBlanks = []) (same : ∀ rest, ofText (text ++ rest) = ofText rest)
  | inside (goesOn : text.skipBlanks ≠ [])
      (cuts : ∀ rest, ofText text = present rest → text.CutsOpenly rest)
      (same : ∀ rest : Text, rest.endsRun Char.isAlpha = true →
        ofText (text ++ rest) = (ofText text).followedBy rest)
  | behind (lead left : Text) (whole : text = lead ++ '\x7b' :: left) (later : Nat)
      (same : ∀ rest, ofText (text ++ rest) =
        ofGroup left (Bracket.curly.groupFrom? later rest))

theorem Text.skipBlanks_append_of_eq_nil {text : Text} (spent : text.skipBlanks = [])
    (rest : Text) : skipBlanks (text ++ rest) = rest.skipBlanks := by
  rw [skipBlanks, List.dropWhile_append, if_pos (by rw [← skipBlanks, spent]; rfl)]
  rfl

namespace Text.CutsOpenly

variable {text rest : Text}

theorem skipBlanks (text : Text) : text.CutsOpenly text.skipBlanks := by
  have whole : text.takeWhile isAsciiBlank ++ text.skipBlanks = text :=
    List.takeWhile_append_dropWhile
  have clean : (text.takeWhile isAsciiBlank).all isClean = true := List.all_eq_true.2 fun c isMember =>
    isClean_of_isBlank (isBlank_of_isAsciiBlank
      (List.all_eq_true.1 List.all_takeWhile c isMember))
  exact ⟨_, whole.symm, hidesNext_of_clean clean⟩

/-- Nothing is hidden behind the cut if nothing is hidden behind the text. -/
theorem hidesNext_eq_false (cuts : text.CutsOpenly rest) (openly : hidesNext false text = false) :
    hidesNext false rest = false := by
  obtain ⟨lead, rfl, openLead⟩ := cuts
  rwa [hidesNext_append, openLead] at openly

end Text.CutsOpenly

namespace Probe

theorem ofText_congr {text other : Text} (same : text.skipBlanks = other.skipBlanks) :
    ofText text = ofText other := by
  simp only [ofText, Argument.read?, same]

/-- What a probe finds in a text with something to see. -/
theorem ofText_cons {text rest : Text} {c : Char} (start : text.skipBlanks = c :: rest) :
    ofText text =
      if c = '\x7b' then
        match Bracket.curly.group? rest with
        | none => .unclosed
        | some group => if group.inside.isAllBlank then .blank else .present group.rest
      else if c = '\\' then
        match Control.read? rest with
        | none => .missing
        | some control => .present control.rest
      else if Argument.isRefused c then .missing
      else .present rest := by
  simp only [ofText, Argument.read?, start, List.head?_cons, Option.some.injEq]
  by_cases opens : c = '\x7b'
  · simp only [if_pos opens]
    cases Bracket.curly.group? rest <;> rfl
  · by_cases back : c = '\\'
    · simp only [if_neg opens, if_pos back]
      cases Control.read? rest <;> rfl
    · simp only [if_neg opens, if_neg back]
      cases Argument.isRefused c <;> rfl

theorem reaches {text : Text} (openly : Text.hidesNext false text = false) : Reaches text := by
  cases start : text.skipBlanks with
  | nil =>
      refine .sought start fun rest => ofText_congr ?_
      exact Text.skipBlanks_append_of_eq_nil start rest
  | cons c more =>
      have goesOn : text.skipBlanks ≠ [] := by simp [start]
      have longer (rest : Text) : Text.skipBlanks (text ++ rest) = c :: (more ++ rest) := by
        rw [Text.skipBlanks_append goesOn, start, List.cons_append]
      have skipped := Text.CutsOpenly.skipBlanks text
      rw [start] at skipped
      have openMore := skipped.hidesNext_eq_false openly
      by_cases opens : c = '\x7b'
      · subst opens
        have openInside : Text.hidesNext false more = false := openMore
        cases Bracket.reaches openInside .curly 0 with
        | inside group found openGroup same =>
            have isFirst := ofText_cons start
            rw [if_pos rfl, Bracket.group?, found] at isFirst
            change ofText text = if group.inside.isAllBlank then blank else present group.rest at isFirst
            refine .inside goesOn (fun rest isRest => ?_) fun rest _ => ?_
            · rw [isFirst] at isRest
              split at isRest
              · cases isRest
              · obtain rfl : group.rest = rest := Probe.present.inj isRest
                have inGroup : Text.CutsOpenly more group.rest := .of_group? found
                exact skipped.trans (inGroup.cons (by decide))
            · rw [ofText_cons (longer rest), if_pos rfl, Bracket.group?, same, isFirst]
              change (if group.inside.isAllBlank then blank else present (group.rest ++ rest)) = _
              split <;> rfl
        | behind later same =>
            refine .behind (text.takeWhile isAsciiBlank) more ?_ later fun rest => ?_
            · exact (List.takeWhile_append_dropWhile (p := isAsciiBlank)).symm.trans
                (congrArg _ start)
            · rw [ofText_cons (longer rest), if_pos rfl, Bracket.group?, same]
              cases Bracket.curly.groupFrom? later rest <;> rfl
      · by_cases back : c = '\\'
        · subst back
          have named : more ≠ [] := by
            rintro rfl
            cases openMore
          refine .inside goesOn (fun rest isRest => ?_) fun rest ends => ?_
          · rw [ofText_cons start, if_neg opens, if_pos rfl] at isRest
            split at isRest
            · cases isRest
            · rename_i control isControl
              obtain rfl : control.rest = rest := Probe.present.inj isRest
              exact skipped.trans (.of_control isControl)
          · rw [ofText_cons (longer rest), if_neg opens, if_pos rfl, ofText_cons start, if_neg opens,
              if_pos rfl, Control.read?_append_rest named ends]
            cases Control.read? more <;> rfl
        · refine .inside goesOn (fun rest isRest => ?_) fun rest _ => ?_
          · rw [ofText_cons start, if_neg opens, if_neg back] at isRest
            split at isRest
            · cases isRest
            · obtain rfl : more = rest := Probe.present.inj isRest
              exact skipped.trans ⟨[c], rfl, Text.hidesNext_concat back false []⟩
          · rw [ofText_cons (longer rest), if_neg opens, if_neg back, ofText_cons start, if_neg opens,
              if_neg back]
            split <;> rfl

end Probe

/-! ## Spacers in front of arguments -/

namespace Spacer

variable (spacer : Spacer)

/-- Readers of groups pass over a spacer. -/
theorem isNeutral : spacer.text.IsNeutral := by
  cases spacer with
  | tie => exact .of_plain rfl
  | command sign _ => exact .control sign .nil
  | blanks run _ isAllBlank =>
      refine .of_plain (List.all_eq_true.2 fun c isMember => ?_)
      have blank := List.all_eq_true.1 isAllBlank c isMember
      cases markup : Text.isMarkup c with
      | false => rfl
      | true =>
          simp only [Text.isMarkup, List.mem_cons, List.not_mem_nil, or_false,
            decide_eq_true_eq] at markup
          rcases markup with rfl | rfl | rfl | rfl | rfl | rfl | rfl <;> cases blank

theorem bracket_not_mem : '[' ∉ spacer.text := by
  intro isMember
  cases spacer with
  | tie => simp [text] at isMember
  | command sign isSpacing =>
      simp only [text, List.mem_cons, List.not_mem_nil, or_false] at isMember isSpacing
      rcases isMember with back | rfl
      · cases back
      · simp at isSpacing
  | blanks run nonempty isAllBlank => cases List.all_eq_true.1 isAllBlank _ isMember

/-- No spacer continues a control word. -/
theorem endsRun_append (rest : Text) : Text.endsRun Char.isAlpha (spacer.text ++ rest) = true := by
  obtain ⟨c, more, begins, noLetter⟩ := spacer.exists_text_eq_cons
  rw [begins]
  simp [Text.endsRun, noLetter]

/-- Whether a reader of arguments skips the spacer. -/
def isSkipped : Bool :=
  spacer.text.all isAsciiBlank

theorem skipBlanks_append (skipped : spacer.isSkipped = true) (rest : Text) :
    Text.skipBlanks (spacer.text ++ rest) = rest.skipBlanks :=
  List.dropWhile_append_of_pos (List.all_eq_true.1 skipped)

end Spacer

theorem Argument.readOptional?_index {text rest : Text} (start : text.skipBlanks = '[' :: rest) :
    readOptional? text =
      (Bracket.square.group? rest).map fun group => ⟨group.inside, true, group.rest⟩ := by
  simp only [readOptional?, start]

namespace Malformation

variable {command : Text}

theorem ofRadicand?_eq_none_iff {text : Text} :
    ofRadicand? command text = none ↔ ofFraction? command 1 text = none := by
  rw [ofRadicand?, ofFraction?]
  cases Probe.ofText text <;> simp [ofFraction?]

/-- Fewer arguments are there when more are there. -/
theorem ofFraction?_of_succ {count : Nat} {text : Text}
    (complete : ofFraction? command (count + 1) text = none) :
    ofFraction? command count text = none := by
  induction count generalizing text with
  | zero => rfl
  | succ count ih =>
      rw [ofFraction?] at complete ⊢
      cases found : Probe.ofText text <;> rw [found] at complete <;>
        first | exact ih complete | cases complete

theorem ofFraction?_congr {text other : Text} (same : Probe.ofText text = Probe.ofText other)
    (count : Nat) : ofFraction? command count text = ofFraction? command count other := by
  cases count with
  | zero => rfl
  | succ count => rw [ofFraction?, ofFraction?, same]

theorem ofRoot?_congr {text other : Text} (same : text.skipBlanks = other.skipBlanks) :
    ofRoot? command text = ofRoot? command other := by
  simp only [ofRoot?, Argument.readOptional?, same, ofRadicand?, Probe.ofText_congr same]

/-- What is wrong with a root that has an index. -/
theorem ofRoot?_index {text rest : Text} (start : text.skipBlanks = '[' :: rest) :
    ofRoot? command text =
      match Bracket.square.group? rest with
      | none => none
      | some group =>
          if group.inside.isAllBlank then some .emptyIndex else ofRadicand? command group.rest := by
  rw [ofRoot?, start, Argument.readOptional?_index start]
  cases Bracket.square.group? rest <;> rfl

/-- A character that is taken for an argument takes the place of one. -/
theorem ofFraction?_cons {c : Char} (visible : isAsciiBlank c = false) (noBrace : c ≠ '\x7b')
    (noBackslash : c ≠ '\\') (taken : Argument.isRefused c = false) (count : Nat) (rest : Text) :
    ofFraction? command (count + 1) (c :: rest) = ofFraction? command count rest := by
  have start : Text.skipBlanks (c :: rest) = c :: rest :=
    List.dropWhile_cons_of_neg (by simp [visible])
  rw [ofFraction?, Probe.ofText_cons start, if_neg noBrace, if_neg noBackslash, taken]
  rfl

/-- A blank that is not skipped is taken for an argument, and another one may be taken for the
next. -/
theorem ofFraction?_blanks {run : Text} (isAllBlank : run.isAllBlank = true)
    (taken : run.all isAsciiBlank = false) {count : Nat} {rest : Text}
    (complete : ofFraction? command count rest = none) :
    ofFraction? command (count + 1) (run ++ rest) = none := by
  induction run with
  | nil => cases taken
  | cons c run ih =>
      rw [Text.isAllBlank, List.all_cons, Bool.and_eq_true] at isAllBlank
      cases ascii : isAsciiBlank c with
      | true =>
          have skipped : Text.skipBlanks (c :: (run ++ rest)) = Text.skipBlanks (run ++ rest) :=
            List.dropWhile_cons_of_pos ascii
          rw [List.cons_append, ofFraction?_congr (Probe.ofText_congr skipped)]
          exact ih isAllBlank.2 (by rwa [List.all_cons, ascii, Bool.true_and] at taken)
      | false =>
          have refused : ∀ d ∈ ['\x7b', '\\', '\x7d', ')', ']', '^', '_', '&'], c ≠ d := by
            rintro d isMember rfl
            simp only [List.mem_cons, List.not_mem_nil, or_false] at isMember
            rcases isMember with rfl | rfl | rfl | rfl | rfl | rfl | rfl | rfl <;>
              cases isAllBlank.1
          simp only [List.forall_mem_cons] at refused
          obtain ⟨noBrace, noBackslash, closers⟩ := refused
          rw [List.cons_append, ofFraction?_cons ascii noBrace noBackslash]
          · cases allAscii : run.all isAsciiBlank with
            | true =>
                have skipped : Text.skipBlanks (run ++ rest) = rest.skipBlanks :=
                  List.dropWhile_append_of_pos (List.all_eq_true.1 allAscii)
                rwa [ofFraction?_congr (Probe.ofText_congr skipped)]
            | false => exact ofFraction?_of_succ (ih isAllBlank.2 allAscii)
          · simp [Argument.isRefused, closers]

/-- A spacer that is not skipped is taken for an argument. -/
theorem ofFraction?_taken {spacer : Spacer} (taken : spacer.isSkipped = false) {count : Nat}
    {rest : Text} (complete : ofFraction? command count rest = none) :
    ofFraction? command (count + 1) (spacer.text ++ rest) = none := by
  cases spacer with
  | blanks run _ isAllBlank => exact ofFraction?_blanks isAllBlank taken complete
  | tie => exact (ofFraction?_cons rfl (by decide) (by decide) rfl count rest).trans complete
  | command sign isSpacing =>
      have noLetter : sign.isAlpha = false := by
        simp only [List.mem_cons, List.not_mem_nil, or_false] at isSpacing
        rcases isSpacing with rfl | rfl | rfl | rfl <;> rfl
      have found : Probe.ofText ('\\' :: sign :: rest) = .present rest := by
        rw [Probe.ofText_cons rfl, if_neg (by decide), if_pos rfl, Control.read?, noLetter]
        rfl
      change ofFraction? command (count + 1) ('\\' :: sign :: rest) = none
      rw [ofFraction?, found]
      exact complete

/-- No argument is missing behind a spacer that is not missing without it. -/
theorem ofFraction?_spacer (spacer : Spacer) {count : Nat} {rest : Text}
    (complete : ofFraction? command count rest = none) :
    ofFraction? command count (spacer.text ++ rest) = none := by
  cases skipped : spacer.isSkipped with
  | true => rwa [ofFraction?_congr (Probe.ofText_congr (spacer.skipBlanks_append skipped rest))]
  | false => exact ofFraction?_of_succ (ofFraction?_taken skipped complete)

/-- A root takes no spacer for the bracket of an index. -/
theorem head?_skipBlanks_spacer {spacer : Spacer} (taken : spacer.isSkipped = false) (rest : Text) :
    (Text.skipBlanks (spacer.text ++ rest)).head? ≠ some '[' := by
  have goesOn : spacer.text.skipBlanks ≠ [] := by
    intro spent
    have whole : spacer.text.takeWhile isAsciiBlank ++ spacer.text.skipBlanks = spacer.text :=
      List.takeWhile_append_dropWhile
    rw [spent, List.append_nil] at whole
    rw [Spacer.isSkipped, ← whole, List.all_takeWhile] at taken
    cases taken
  obtain ⟨c, more, start⟩ := List.exists_cons_of_ne_nil goesOn
  rw [Text.skipBlanks_append goesOn, start, List.cons_append, List.head?_cons]
  rintro isBracket
  obtain rfl := Option.some.inj isBracket
  refine spacer.bracket_not_mem ((List.dropWhile_suffix isAsciiBlank).subset ?_)
  exact (show '[' ∈ spacer.text.skipBlanks from start ▸ List.mem_cons_self)

/-- No radicand is missing behind a spacer that is not missing without it. -/
theorem ofRoot?_spacer (spacer : Spacer) {rest : Text} (complete : ofRoot? command rest = none) :
    ofRoot? command (spacer.text ++ rest) = none := by
  cases skipped : spacer.isSkipped with
  | true => rwa [ofRoot?_congr (spacer.skipBlanks_append skipped rest)]
  | false =>
      rw [ofRoot?, if_neg (head?_skipBlanks_spacer skipped rest), ofRadicand?_eq_none_iff]
      exact ofFraction?_taken skipped rfl

end Malformation

/-! ## Arguments on both sides of a spacer -/

/-- The only group that another spacer makes blank has nothing else in it. -/
theorem isAllBlank_respaced (bracket : Bracket) (other : bracket ≠ .round) {lead left rest : Text}
    {old new : Spacer} (apart : new.text.isAllBlank = true → old.text.isAllBlank = true ∨
      Text.enclose (lead ++ bracket.opener :: left) rest = false)
    {depth : Nat} {group : Group} (found : bracket.groupFrom? depth rest = some group)
    (blank : Text.isAllBlank (left ++ new.text ++ group.inside) = true) :
    Text.isAllBlank (left ++ old.text ++ group.inside) = true := by
  simp only [Text.isAllBlank, List.all_append, Bool.and_eq_true] at blank apart ⊢
  obtain ⟨⟨leftBlank, newBlank⟩, insideBlank⟩ := blank
  refine ⟨⟨leftBlank, (apart newBlank).resolve_right fun notEnclosed => ?_⟩, insideBlank⟩
  have enclosed := Text.enclose_of_group other leftBlank insideBlank lead group.rest
  rw [← Bracket.eq_of_groupFrom? found, notEnclosed] at enclosed
  cases enclosed

theorem Probe.ofGroup_respaced {lead left rest : Text} {old new : Spacer} (depth : Nat)
    (apart : new.text.isAllBlank = true → old.text.isAllBlank = true ∨
      Text.enclose (lead ++ '\x7b' :: left) rest = false) :
    ofGroup (left ++ old.text) (Bracket.curly.groupFrom? depth rest) = .blank ∨
      ofGroup (left ++ new.text) (Bracket.curly.groupFrom? depth rest) =
        ofGroup (left ++ old.text) (Bracket.curly.groupFrom? depth rest) := by
  cases found : Bracket.curly.groupFrom? depth rest with
  | none => exact .inr rfl
  | some group =>
      cases oldBlank : Text.isAllBlank (left ++ old.text ++ group.inside) with
      | true => exact .inl (if_pos oldBlank)
      | false =>
          have newVisible : ¬Text.isAllBlank (left ++ new.text ++ group.inside) = true := by
            intro blank
            have both := isAllBlank_respaced .curly (by decide) apart found blank
            rw [oldBlank] at both
            cases both
          right
          simp only [ofGroup, if_neg newVisible, oldBlank]
          rfl

namespace Malformation

variable {command : Text}

section

variable {lead text rest : Text} {old new : Spacer}
  (openly : Text.hidesNext false text = false)
  (apart : new.text.isAllBlank = true → old.text.isAllBlank = true ∨
    Text.enclose (lead ++ text) rest = false)

include openly apart

/-- No argument is missing around a spacer that is not missing around another one, when none is
looked for where the spacers stand, or the other one is skipped there. -/
theorem ofFraction?_respaced {count : Nat}
    (skips : text.seeksArgument count = true → old.isSkipped = true)
    (complete : ofFraction? command count (text ++ (old.text ++ rest)) = none) :
    ofFraction? command count (text ++ (new.text ++ rest)) = none := by
  induction count generalizing lead text with
  | zero => rfl
  | succ count ih =>
      have reaches := Probe.reaches openly
      cases reaches with
      | sought spent same =>
          have skipped := skips (by simp [Text.seeksArgument, spent])
          have behind := Probe.ofText_congr (old.skipBlanks_append skipped rest)
          rw [ofFraction?_congr ((same _).trans behind)] at complete
          rw [ofFraction?_congr (same _)]
          exact ofFraction?_spacer new complete
      | inside goesOn cuts same =>
          rw [ofFraction?, same _ (old.endsRun_append rest)] at complete
          rw [ofFraction?, same _ (new.endsRun_append rest)]
          cases found : Probe.ofText text with
          | present later =>
              rw [found] at complete
              have cut := cuts later found
              obtain ⟨passed, whole, _⟩ := id cut
              rw [whole, ← List.append_assoc] at apart
              refine ih (cut.hidesNext_eq_false openly) apart (fun seeks => skips ?_) complete
              simp [Text.seeksArgument, found, seeks]
          | _ =>
              rw [found] at complete
              exact complete
      | behind before left whole depth same =>
          rw [ofFraction?, same, old.isNeutral, Probe.ofGroup_extend] at complete
          rw [ofFraction?, same, new.isNeutral, Probe.ofGroup_extend]
          rw [whole, ← List.append_assoc] at apart
          rcases Probe.ofGroup_respaced depth apart with blank | other
          · rw [blank] at complete
            cases complete
          · rwa [other]

/-- No radicand is missing around a spacer that is not missing around another one, when it is not
looked for where the spacers stand, or the other one is skipped there. -/
theorem ofRoot?_respaced (skips : text.seeksRadicand = true → old.isSkipped = true)
    (complete : ofRoot? command (text ++ (old.text ++ rest)) = none) :
    ofRoot? command (text ++ (new.text ++ rest)) = none := by
  cases start : text.skipBlanks with
  | nil =>
      have behind (rest : Text) := Text.skipBlanks_append_of_eq_nil start rest
      have skipped := skips (by simp [Text.seeksRadicand, Text.seeksArgument, start])
      rw [ofRoot?_congr ((behind _).trans (old.skipBlanks_append skipped rest))] at complete
      rw [ofRoot?_congr (behind _)]
      exact ofRoot?_spacer new complete
  | cons c more =>
      have goesOn : text.skipBlanks ≠ [] := by simp [start]
      have longer (rest : Text) : Text.skipBlanks (text ++ rest) = c :: (more ++ rest) := by
        rw [Text.skipBlanks_append goesOn, start, List.cons_append]
      by_cases opens : c = '['
      · subst opens
        have skipped := Text.CutsOpenly.skipBlanks text
        rw [start] at skipped
        have openMore := skipped.hidesNext_eq_false openly
        rw [ofRoot?_index (longer _), Bracket.group?] at complete ⊢
        have openInside : Text.hidesNext false more = false := openMore
        cases Bracket.reaches openInside .square 0 with
        | inside group found openGroup same =>
            have isIndex := Argument.readOptional?_index start
            rw [Bracket.group?, found, Option.map_some] at isIndex
            rw [same] at complete ⊢
            change (if group.inside.isAllBlank then some emptyIndex
              else ofRadicand? command (group.rest ++ (old.text ++ rest))) = none at complete
            change (if group.inside.isAllBlank then some emptyIndex
              else ofRadicand? command (group.rest ++ (new.text ++ rest))) = none
            split at complete
            · cases complete
            · rename_i visible
              rw [if_neg visible, ofRadicand?_eq_none_iff]
              rw [ofRadicand?_eq_none_iff] at complete
              have isGroup : Bracket.square.group? more = some group := found
              obtain ⟨passed, whole, _⟩ :=
                skipped.trans ((Text.CutsOpenly.of_group? isGroup).cons (by decide))
              rw [whole, ← List.append_assoc] at apart
              refine ofFraction?_respaced openGroup apart (fun seeks => skips ?_) complete
              simp [Text.seeksRadicand, start, isIndex, seeks]
        | behind depth same =>
            rw [same, old.isNeutral, Text.IsNeutral.map_extend_extend] at complete
            rw [same, new.isNeutral, Text.IsNeutral.map_extend_extend]
            cases found : Bracket.square.groupFrom? depth rest with
            | none => rfl
            | some group =>
                rw [found] at complete
                change (if Text.isAllBlank (more ++ old.text ++ group.inside) then some emptyIndex
                  else ofRadicand? command group.rest) = none at complete
                change (if Text.isAllBlank (more ++ new.text ++ group.inside) then some emptyIndex
                  else ofRadicand? command group.rest) = none
                obtain ⟨passed, whole, _⟩ := skipped
                rw [whole, ← List.append_assoc] at apart
                split at complete
                · cases complete
                · rename_i visible
                  rw [if_neg]
                  · exact complete
                  · exact fun blank => visible
                      (isAllBlank_respaced .square (by decide) apart found blank)
      · have noIndex (rest : Text) :
            ofRoot? command (text ++ rest) = ofRadicand? command (text ++ rest) := by
          rw [ofRoot?, if_neg (by simp [longer, opens])]
        rw [noIndex, ofRadicand?_eq_none_iff] at complete ⊢
        refine ofFraction?_respaced openly apart (fun seeks => skips ?_) complete
        simp [Text.seeksRadicand, start, opens, seeks]

end

end Malformation

end TexCalc

import TexCalc.Proofs.Tex.Partners

/-!
# Scanners stop between characters

A scanner is given a place in bytes and gives back another one, at which the text is cut.  Runs of
ASCII characters are passed over byte by byte, forward and backward, and brackets are looked for
byte by byte, with a backslash that hides one byte only.  None of them comes to rest inside a
character, so that every piece which is cut out is a text again.
-/

namespace TexCalc

namespace Text

/-- A place in bytes at one end of the text or between two of its characters. -/
def IsBoundary (text : Text) (place : Nat) : Prop :=
  String.Pos.Raw.IsValid (String.ofList text) ⟨place⟩

/-- How many bytes at the front are the codes of accepted characters. -/
def byteRun (accept : Char → Bool) (bytes : List UInt8) : Nat :=
  (bytes.takeWhile (accept ∘ Char.ofUInt8)).length

variable {text lead rest : Text} {place : Nat}

/-! ## Places between characters -/

theorem byteIdx_rawEndPos (text : Text) :
    (String.ofList text).rawEndPos.byteIdx = text.byteLength := by
  rw [← length_bytes]
  exact List.size_toByteArray

theorem isBoundary_iff :
    text.IsBoundary place ↔ ∃ lead rest, text = lead ++ rest ∧ lead.byteLength = place := by
  rw [IsBoundary, String.Pos.Raw.isValid_iff_exists_append]
  constructor
  · rintro ⟨first, second, split, isEnd⟩
    refine ⟨first.toList, second.toList, ?_, ?_⟩
    · simpa using congrArg String.toList split
    · rw [← byteIdx_rawEndPos, String.ofList_toList, ← isEnd]
  · rintro ⟨lead, rest, rfl, rfl⟩
    refine ⟨String.ofList lead, String.ofList rest, String.ofList_append, ?_⟩
    rw [← byteIdx_rawEndPos]

theorem isBoundary_append (lead rest : Text) : (lead ++ rest).IsBoundary lead.byteLength :=
  isBoundary_iff.2 ⟨lead, rest, rfl, rfl⟩

theorem byteLength_reverse (text : Text) : byteLength text.reverse = text.byteLength := by
  induction text with
  | nil => rfl
  | cons c text ih =>
      rw [List.reverse_cons, byteLength_append, ih, Nat.add_comm]
      rfl

/-! ## Runs of ASCII characters -/

theorem ofUInt8_toUInt8 {c : Char} (ascii : c.toNat < 128) : Char.ofUInt8 c.toUInt8 = c := by
  have code : c.toNat < 256 := Nat.lt_trans ascii (by decide)
  exact Char.toNat_inj.1 (Nat.mod_eq_of_lt code)

section Runs

variable {accept : Char → Bool} (ascii : ∀ c, accept c = true → c.toNat < 128)

include ascii

/-- A run of ASCII characters takes as many bytes as it has codes, in whatever order the bytes of a
character are gone through. -/
theorem byteRun_flatMap {encode : Char → List UInt8}
    (reordered : ∀ c, (encode c).Perm (String.utf8EncodeChar c)) (text : Text) :
    byteRun accept (text.flatMap encode) = byteLength (text.takeWhile accept) := by
  induction text with
  | nil => rfl
  | cons c rest ih =>
      rw [List.flatMap_cons]
      rcases Nat.lt_or_ge c.toNat 128 with isAscii | isWide
      · have code : encode c = [c.toUInt8] := by
          rw [← List.perm_singleton, ← utf8EncodeChar_of_ascii isAscii]
          exact reordered c
        have size := String.length_utf8EncodeChar c
        rw [utf8EncodeChar_of_ascii isAscii] at size
        rw [code, List.singleton_append, byteRun, List.takeWhile_cons, List.takeWhile_cons,
          Function.comp_apply, ofUInt8_toUInt8 isAscii]
        split
        · rw [List.length_cons, byteLength, ← size, ← ih, Nat.add_comm]
          rfl
        · rfl
      · -- Whichever byte comes first, it is not the code of an ASCII character.
        have refused (d : Char) (beyond : 128 ≤ d.toNat) : accept d = false := by
          cases accepted : accept d with
          | false => rfl
          | true => exact absurd (ascii d accepted) (Nat.not_lt.2 beyond)
        have nonempty : encode c ≠ [] := fun empty =>
          utf8EncodeChar_ne_nil c (List.nil_perm.1 (empty ▸ reordered c))
        obtain ⟨first, more, isCons⟩ := List.exists_cons_of_ne_nil nonempty
        have isMember : first ∈ String.utf8EncodeChar c := by
          rw [← (reordered c).mem_iff, isCons]
          exact List.mem_cons_self
        have noCode : accept (Char.ofUInt8 first) = false :=
          refused _ (le_toNat_of_mem_utf8EncodeChar isWide isMember)
        rw [isCons, List.cons_append, byteRun, List.takeWhile_cons, List.takeWhile_cons,
          Function.comp_apply, noCode, refused c isWide]
        rfl

theorem byteRun_bytes (text : Text) :
    byteRun accept text.bytes = byteLength (text.takeWhile accept) :=
  byteRun_flatMap ascii (fun _ => .refl _) text

theorem byteRun_reverse_bytes (text : Text) :
    byteRun accept text.bytes.reverse = byteLength (text.reverse.takeWhile accept) := by
  rw [bytes, List.reverse_flatMap]
  exact byteRun_flatMap ascii (fun c => List.reverse_perm _) text.reverse

end Runs

theorem toNat_lt_of_isAsciiBlank {c : Char} (blank : isAsciiBlank c = true) : c.toNat < 128 := by
  simp only [isAsciiBlank, Bool.or_eq_true, beq_iff_eq] at blank
  omega

theorem toNat_lt_of_isAlpha {c : Char} (letter : c.isAlpha = true) : c.toNat < 128 := by
  have := toNat_of_isAlpha letter
  omega

/-! ## The scanners -/

section Scanners

variable (lead rest : Text)

theorem skipBlanksFrom_append : skipBlanksFrom (lead ++ rest) lead.byteLength =
    (lead ++ rest.takeWhile isAsciiBlank).byteLength := by
  rw [skipBlanksFrom, fromByte?_append, byteLength_append]

theorem isBoundary_skipBlanksFrom :
    (lead ++ rest).IsBoundary (skipBlanksFrom (lead ++ rest) lead.byteLength) := by
  have split : lead ++ rest = (lead ++ rest.takeWhile isAsciiBlank) ++ rest.skipBlanks := by
    rw [List.append_assoc]
    exact congrArg (lead ++ ·) List.takeWhile_append_dropWhile.symm
  rw [skipBlanksFrom_append, split]
  exact isBoundary_append _ _

theorem isBoundary_skipBlanksBack? :
    ∃ back, skipBlanksBack? (lead ++ rest) lead.byteLength = some back ∧
      (lead ++ rest).IsBoundary back ∧
        back = lead.byteLength - byteRun isAsciiBlank lead.bytes.reverse := by
  have split : (lead.reverse.dropWhile isAsciiBlank).reverse ++
      (lead.reverse.takeWhile isAsciiBlank).reverse = lead := by
    rw [← List.reverse_append, List.takeWhile_append_dropWhile, List.reverse_reverse]
  have size := congrArg byteLength split
  rw [byteLength_append, byteLength_reverse (lead.reverse.takeWhile isAsciiBlank)] at size
  have run := byteRun_reverse_bytes (fun _ => toNat_lt_of_isAsciiBlank) lead
  refine ⟨_, ?_, ?_, rfl⟩
  · rw [skipBlanksBack?, splitAtByte?_append, run]
  · rw [run, Nat.sub_eq_of_eq_add size.symm]
    conv =>
      enter [1]
      rw [← split, List.append_assoc]
    exact isBoundary_append _ _

variable {lead rest} {length closing : Nat}

theorem exists_of_controlLength?
    (found : controlLength? (lead ++ rest) lead.byteLength = some length) :
    ∃ (after : Text) (control : Control), rest = '\\' :: after ∧
      Control.read? after = some control ∧ length = control.source.byteLength := by
  rw [controlLength?, fromByte?_append] at found
  split at found
  · rename_i after same
    cases same
    obtain ⟨control, isControl, rfl⟩ := Option.map_eq_some_iff.1 found
    exact ⟨after, control, rfl, isControl, rfl⟩
  · cases found

theorem isBoundary_controlLength?
    (found : controlLength? (lead ++ rest) lead.byteLength = some length) :
    (lead ++ rest).IsBoundary (lead.byteLength + length) := by
  obtain ⟨after, control, rfl, isControl, rfl⟩ := exists_of_controlLength? found
  rw [Control.eq_of_read? isControl, ← byteLength_append, ← List.cons_append, ← List.append_assoc]
  exact isBoundary_append (lead ++ control.source) control.rest

/-- The letters behind a backslash are passed over byte by byte. -/
theorem length_of_controlLength?
    (found : controlLength? (lead ++ rest) lead.byteLength = some length) :
    byteRun Char.isAlpha ((lead ++ rest).bytes.drop (lead.byteLength + 1)) = 0 ∨
      length = 1 + byteRun Char.isAlpha ((lead ++ rest).bytes.drop (lead.byteLength + 1)) := by
  obtain ⟨after, control, rfl, isControl, rfl⟩ := exists_of_controlLength? found
  have behind : (lead ++ '\\' :: after).bytes.drop (lead.byteLength + 1) = after.bytes := by
    have isSplit := drop_bytes_append (lead ++ ['\\']) after
    rwa [List.append_assoc, List.singleton_append, byteLength_append] at isSplit
  rw [behind, byteRun_bytes fun _ => toNat_lt_of_isAlpha]
  cases after with
  | nil => cases isControl
  | cons c after =>
      cases letter : c.isAlpha with
      | false =>
          rw [List.takeWhile_cons_of_neg (by simp [letter])]
          exact .inl rfl
      | true =>
          simp only [Control.read?, letter, if_true, Option.some.injEq] at isControl
          rw [List.takeWhile_cons_of_pos letter, ← isControl]
          exact .inr rfl

theorem isBoundary_closingOffset?
    (found : closingOffset? (lead ++ rest) lead.byteLength = some closing) :
    (lead ++ rest).IsBoundary closing ∧ ∃ bracket : Bracket,
      bracket.search lead.byteLength 0 ((lead ++ rest).bytes.drop lead.byteLength) =
        .found closing := by
  obtain ⟨bracket, after, rfl⟩ :
      ∃ (bracket : Bracket) (after : Text), rest = bracket.opener :: after := by
    rw [closingOffset?, fromByte?_append] at found
    split at found
    · rename_i c after same
      cases same
      obtain ⟨bracket, opens, _⟩ := Option.bind_eq_some_iff.1 found
      exact ⟨bracket, after, by rw [Bracket.opener_of_ofOpener? opens]⟩
    · cases found
  refine ⟨?_, bracket, ?_⟩
  · rw [bracket.closingOffset?_append] at found
    obtain ⟨group, isGroup, rfl⟩ := Option.map_eq_some_iff.1 found
    have split : lead ++ bracket.opener :: after =
        (lead ++ [bracket.opener] ++ group.inside) ++ bracket.closer :: group.rest := by
      rw [Bracket.eq_of_group? isGroup]
      simp
    rw [split, ← byteLength_append]
    exact isBoundary_append _ _
  · rw [bracket.search_drop, found]
    rfl

end Scanners

end Text

namespace Argument

/-- Where an argument stands in a text: something may be in front of it, and behind it there is its
closing bracket, when it was written as a group. -/
def IsReadFrom (argument : Argument) (text : Text) : Prop :=
  ∃ front back : Text, text = front ++ (argument.text ++ (back ++ argument.rest)) ∧
    back.byteLength = (if argument.grouped then 1 else 0) ∧
    0 < Text.byteLength (front ++ (argument.text ++ back))

variable {argument : Argument} {text rest : Text}

theorem IsReadFrom.of_skipBlanks (isRead : argument.IsReadFrom text.skipBlanks) :
    argument.IsReadFrom text := by
  obtain ⟨front, back, split, closed, taken⟩ := isRead
  refine ⟨text.takeWhile isAsciiBlank ++ front, back, ?_, closed, ?_⟩
  · rw [List.append_assoc, ← split]
    exact List.takeWhile_append_dropWhile.symm
  · rw [List.append_assoc, Text.byteLength_append]
    exact Nat.lt_add_left _ taken

theorem isReadFrom_group (bracket : Bracket) {group : Group}
    (isGroup : bracket.group? rest = some group) :
    IsReadFrom ⟨group.inside, true, group.rest⟩ (bracket.opener :: rest) := by
  have closer := bracket.byteLength_closer
  refine ⟨[bracket.opener], [bracket.closer], ?_, closer, ?_⟩
  · rw [Bracket.eq_of_group? isGroup]
    rfl
  · rw [Text.byteLength_append, Text.byteLength_append, closer]
    omega

theorem isReadFrom_read? (found : read? text = some argument) : argument.IsReadFrom text := by
  apply IsReadFrom.of_skipBlanks
  simp only [read?] at found
  split at found
  · cases found
  · rename_i c rest start
    rw [start]
    split at found
    · rename_i opens
      subst opens
      obtain ⟨group, isGroup, rfl⟩ := Option.map_eq_some_iff.1 found
      exact isReadFrom_group .curly isGroup
    · split at found
      · rename_i back
        subst back
        obtain ⟨control, isControl, rfl⟩ := Option.map_eq_some_iff.1 found
        refine ⟨[], [], ?_, rfl, ?_⟩
        · rw [Control.eq_of_read? isControl]
          rfl
        · exact Text.byteLength_cons_pos _ _
      · split at found
        · cases found
        · cases found
          exact ⟨[], [], rfl, rfl, Text.byteLength_cons_pos _ _⟩

theorem isReadFrom_readOptional? (found : readOptional? text = some argument) :
    argument.IsReadFrom text := by
  apply IsReadFrom.of_skipBlanks
  simp only [readOptional?] at found
  split at found
  · rename_i rest start
    rw [start]
    obtain ⟨group, isGroup, rfl⟩ := Option.map_eq_some_iff.1 found
    exact isReadFrom_group .square isGroup
  · cases found

end Argument

namespace Extent

/-- An extent that can be cut from the text: its places are in order and between characters, and
what is between the first two is its text. -/
structure IsCutFrom (extent : Extent) (text : Text) : Prop where
  start_le_stop : extent.start ≤ extent.stop
  stop_le_finish : extent.stop ≤ extent.finish
  isBoundary_start : text.IsBoundary extent.start
  isBoundary_stop : text.IsBoundary extent.stop
  isBoundary_finish : text.IsBoundary extent.finish
  bytes_eq : (text.bytes.take extent.stop).drop extent.start = extent.text.bytes

variable {argument : Argument} {lead front back : Text}

/-- The places of an argument are measured from the end of the text. -/
theorem ofArgument_append (closed : back.byteLength = if argument.grouped then 1 else 0) :
    ofArgument (lead ++ (front ++ (argument.text ++ (back ++ argument.rest)))).byteLength argument =
      ⟨(lead ++ front).byteLength, (lead ++ front ++ argument.text).byteLength,
        (lead ++ front ++ argument.text ++ back).byteLength, argument.grouped, argument.text⟩ := by
  have finish : (lead ++ (front ++ (argument.text ++ (back ++ argument.rest)))).byteLength -
      argument.rest.byteLength = (lead ++ front ++ argument.text ++ back).byteLength := by
    simp only [Text.byteLength_append]
    omega
  have stop : (if argument.grouped then (lead ++ front ++ argument.text ++ back).byteLength - 1
      else (lead ++ front ++ argument.text ++ back).byteLength) =
        (lead ++ front ++ argument.text).byteLength := by
    rw [Text.byteLength_append _ back, closed]
    split <;> rfl
  have start : (lead ++ front ++ argument.text).byteLength - argument.text.byteLength =
      (lead ++ front).byteLength := by
    rw [Text.byteLength_append _ argument.text, Nat.add_sub_cancel]
  simp only [ofArgument, finish, stop, start]

theorem isCutFrom_ofArgument {rest : Text} (isRead : argument.IsReadFrom rest) :
    (ofArgument (lead ++ rest).byteLength argument).IsCutFrom (lead ++ rest) ∧
      lead.byteLength < (ofArgument (lead ++ rest).byteLength argument).finish := by
  obtain ⟨front, back, rfl, closed, taken⟩ := isRead
  rw [ofArgument_append closed]
  have afterFront : lead ++ (front ++ (argument.text ++ (back ++ argument.rest))) =
      (lead ++ front) ++ (argument.text ++ (back ++ argument.rest)) :=
    (List.append_assoc _ _ _).symm
  have afterText : lead ++ (front ++ (argument.text ++ (back ++ argument.rest))) =
      (lead ++ front ++ argument.text) ++ (back ++ argument.rest) :=
    afterFront.trans (List.append_assoc _ _ _).symm
  have afterBack : lead ++ (front ++ (argument.text ++ (back ++ argument.rest))) =
      (lead ++ front ++ argument.text ++ back) ++ argument.rest :=
    afterText.trans (List.append_assoc _ _ _).symm
  constructor
  · constructor
    · exact Text.byteLength_append _ argument.text ▸ Nat.le_add_right _ _
    · exact Text.byteLength_append _ back ▸ Nat.le_add_right _ _
    · exact afterFront ▸ Text.isBoundary_append _ _
    · exact afterText ▸ Text.isBoundary_append _ _
    · exact afterBack ▸ Text.isBoundary_append _ _
    · rw [afterText, Text.take_bytes_append, Text.drop_bytes_append]
  · simp only [Text.byteLength_append] at taken ⊢
    omega

/-- What a sound reader of arguments finds can be cut from the text. -/
theorem isCutFrom_readWith? {reader : Text → Option Argument} {rest : Text} {extent : Extent}
    (sound : ∀ {argument}, reader rest = some argument → argument.IsReadFrom rest)
    (found : readWith? reader (lead ++ rest) lead.byteLength = some extent) :
    extent.IsCutFrom (lead ++ rest) ∧ lead.byteLength < extent.finish := by
  rw [readWith?, Text.fromByte?_append, Option.bind_some] at found
  obtain ⟨argument, isRead, rfl⟩ := Option.map_eq_some_iff.1 found
  exact isCutFrom_ofArgument (sound isRead)

end Extent

/-- From a place between two characters a scanner comes to such places only, none of them beyond
the end of the text.  Blanks are passed over byte by byte in both directions, and so are the letters
of a control word; where a bracket is closed is found byte by byte as well.  What is read as an
argument is what the text holds in the range of the argument, and reading goes on behind the place
at which it began. -/
theorem Text.isBoundary_of_scan {text : Text} {place : Nat} (isBoundary : text.IsBoundary place) :
    (text.IsBoundary (text.skipBlanksFrom place) ∧
      text.skipBlanksFrom place = place + byteRun isAsciiBlank (text.bytes.drop place)) ∧
    (∃ back, text.skipBlanksBack? place = some back ∧ text.IsBoundary back ∧
      back = place - byteRun isAsciiBlank (text.bytes.take place).reverse) ∧
    (∀ length, text.controlLength? place = some length → text.IsBoundary (place + length) ∧
      (byteRun Char.isAlpha (text.bytes.drop (place + 1)) = 0 ∨
        length = 1 + byteRun Char.isAlpha (text.bytes.drop (place + 1)))) ∧
    (∀ closing, text.closingOffset? place = some closing → text.IsBoundary closing ∧
      ∃ bracket : Bracket, bracket.search place 0 (text.bytes.drop place) = .found closing) ∧
    ∀ extent, Extent.argument? text place = some extent ∨
        Extent.optionalArgument? text place = some extent →
      extent.IsCutFrom text ∧ place < extent.finish := by
  obtain ⟨lead, rest, rfl, rfl⟩ := isBoundary_iff.1 isBoundary
  refine ⟨⟨isBoundary_skipBlanksFrom lead rest, ?_⟩, ?_, ?_, ?_, ?_⟩
  · rw [drop_bytes_append, byteRun_bytes fun _ => toNat_lt_of_isAsciiBlank, skipBlanksFrom_append,
      byteLength_append]
  · rw [take_bytes_append]
    exact isBoundary_skipBlanksBack? lead rest
  · exact fun _ found => ⟨isBoundary_controlLength? found, length_of_controlLength? found⟩
  · exact fun _ found => isBoundary_closingOffset? found
  · intro extent found
    rcases found with found | found
    · exact Extent.isCutFrom_readWith? Argument.isReadFrom_read? found
    · exact Extent.isCutFrom_readWith? Argument.isReadFrom_readOptional? found

/-- Behind a root of three bytes the blank is passed over, and the group is closed behind a letter
of two bytes, of which the backslash hides the first one only. -/
theorem Text.isBoundary_of_scan_of_hidden :
    let text : Text := "√ \x7b\\é\x7d".toList
    let inner : Extent := ⟨5, 8, 9, true, "\\é".toList⟩
    text.IsBoundary 3 ∧ text.skipBlanksFrom 3 = 4 ∧ text.IsBoundary 4 ∧
      text.closingOffset? 4 = some 8 ∧ text.IsBoundary 8 ∧
        Extent.argument? text 3 = some inner ∧ inner.IsCutFrom text ∧ 3 < inner.finish := by
  intro text inner
  have start : text.IsBoundary 3 := isBoundary_iff.2 ⟨['√'], " \x7b\\é\x7d".toList, rfl, rfl⟩
  obtain ⟨⟨behindBlank, _⟩, _, _, _, arguments⟩ := isBoundary_of_scan start
  have skipped : text.skipBlanksFrom 3 = 4 := by decide +kernel
  have isArgument : Extent.argument? text 3 = some inner := by decide +kernel
  have closed : text.closingOffset? 4 = some 8 := by decide +kernel
  rw [skipped] at behindBlank
  obtain ⟨_, _, _, closings, _⟩ := isBoundary_of_scan behindBlank
  obtain ⟨isCut, further⟩ := arguments inner (.inl isArgument)
  exact ⟨start, skipped, behindBlank, closed, (closings 8 closed).1, isArgument, isCut, further⟩

end TexCalc

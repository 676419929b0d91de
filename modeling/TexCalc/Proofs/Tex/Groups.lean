import TexCalc.Proofs.Check.Faultless
import TexCalc.Proofs.Text.Neutral

/-!
# Groups, token by token and byte by byte

Groups are read character by character, and a backslash hides the character behind it.  A reader
that goes from token to token comes upon the same brackets: those that count are tokens of their
own, and no other token holds one, but for comments.  So does a reader that goes from byte to byte,
to which a backslash hides one byte only: it may come out inside of a character, but what is left of
that character cannot be taken for another one.
-/

namespace TexCalc

/-! ## Tokens -/

namespace Bracket

variable {bracket : Bracket} {c : Char} {rest : Text}

/-- The group with a control sequence in front is that sequence and the group. -/
theorem groupFrom?_control {name : Text} (isName : Control.IsName name) (bracket : Bracket)
    (depth : Nat) (text : Text) :
    bracket.groupFrom? depth ('\\' :: (name ++ text)) =
      (bracket.groupFrom? depth text).map (Group.extend ('\\' :: name)) := by
  rcases isName with ⟨nonempty, letters⟩ | ⟨c, rfl, _⟩
  · obtain ⟨c, run, rfl⟩ := List.exists_cons_of_ne_nil nonempty
    rw [List.all_cons, Bool.and_eq_true] at letters
    exact ((Text.IsNeutral.of_all (by decide) letters.2).control c) bracket depth text
  · exact (Text.IsNeutral.nil.control c) bracket depth text

/-- Only an opening bracket is read as the token of one. -/
theorem eq_opener_of_read (opens : (Token.read c rest).token = bracket.openToken) :
    c = bracket.opener := by
  revert opens
  fun_cases Token.read c rest <;> cases bracket <;> intro opens <;> cases opens <;> rfl

theorem eq_closer_of_read (closes : (Token.read c rest).token = bracket.closeToken) :
    c = bracket.closer := by
  revert closes
  fun_cases Token.read c rest <;> cases bracket <;> intro closes <;> cases closes <;> rfl

/-- A token that is neither of the brackets that count, and no comment, is passed over. -/
theorem groupFrom?_read (noOpening : (Token.read c rest).token ≠ bracket.openToken)
    (noClosing : (Token.read c rest).token ≠ bracket.closeToken)
    (noComment : (Token.read c rest).token.isComment = false) (depth : Nat) :
    bracket.groupFrom? depth (c :: rest) =
      (bracket.groupFrom? depth (Token.read c rest).rest).map
        (Group.extend (c :: (Token.read c rest).taken)) := by
  have noOpener : c ≠ bracket.opener := by
    rintro rfl
    exact noOpening (congrArg Token.Reading.token (bracket.read_opener rest))
  have noCloser : c ≠ bracket.closer := by
    rintro rfl
    exact noClosing (congrArg Token.Reading.token (bracket.read_closer rest))
  revert noComment
  fun_cases Token.read c rest <;> intro noComment
  case case1 control found =>
      rw [Control.eq_of_read? found]
      exact groupFrom?_control (Control.isName_of_read? found) bracket depth control.rest
  case case2 none =>
      rw [Control.read?_eq_none_iff.1 none]
      cases bracket <;> cases depth <;> rfl
  case case3 => cases noComment
  case case10 blank =>
      have blanks : (c :: rest.takeWhile TexCalc.isBlank).all TexCalc.isBlank = true := by
        rw [List.all_cons, blank, List.all_takeWhile]
        rfl
      have passed := (Text.IsNeutral.of_all (by decide) blanks) bracket depth
        (rest.dropWhile TexCalc.isBlank)
      rwa [List.cons_append, List.takeWhile_append_dropWhile] at passed
  all_goals
    apply Text.IsNeutral.groupFrom?_cons noOpener noCloser
    first | decide | assumption

end Bracket

/-! ## Bytes -/

/-- The place behind the inside of a group, when something stands in front of the group. -/
theorem Group.map_place_extend (place : Nat) (lead : Text) (group? : Option Group) :
    (group?.map (Group.extend lead)).map (place + ·.inside.byteLength) =
      group?.map (place + lead.byteLength + ·.inside.byteLength) := by
  rw [Option.map_map]
  refine Option.map_congr fun group _ => ?_
  rw [Function.comp_apply, Group.extend, Text.byteLength_append, Nat.add_assoc]

section Encoding

variable {c d : Char}

theorem utf8EncodeChar_of_ascii (ascii : c.toNat < 128) :
    String.utf8EncodeChar c = [c.toUInt8] := by
  have narrow : c.val.toNat ≤ 127 := Nat.le_of_lt_succ ascii
  rw [String.utf8EncodeChar, if_pos narrow]
  rfl

/-- No byte of a character that is not ASCII is the code of one that is. -/
theorem le_toNat_of_mem_utf8EncodeChar (wide : 128 ≤ c.toNat) {byte : UInt8}
    (isMember : byte ∈ String.utf8EncodeChar c) : 128 ≤ byte.toNat := by
  have tooWide : ¬c.val.toNat ≤ 127 := Nat.not_le.2 wide
  rw [String.utf8EncodeChar, if_neg tooWide] at isMember
  split at isMember
  · simp only [List.mem_cons, List.not_mem_nil, or_false] at isMember
    rcases isMember with rfl | rfl <;> rw [UInt8.toNat_ofNat'] <;> omega
  · split at isMember
    · simp only [List.mem_cons, List.not_mem_nil, or_false] at isMember
      rcases isMember with rfl | rfl | rfl <;> rw [UInt8.toNat_ofNat'] <;> omega
    · simp only [List.mem_cons, List.not_mem_nil, or_false] at isMember
      rcases isMember with rfl | rfl | rfl | rfl <;> rw [UInt8.toNat_ofNat'] <;> omega

theorem utf8EncodeChar_ne_nil (c : Char) : String.utf8EncodeChar c ≠ [] := by
  rw [← List.length_pos_iff, String.length_utf8EncodeChar]
  exact c.utf8Size_pos

/-- Behind the first byte of a character there is none that is the code of an ASCII character. -/
theorem exists_utf8EncodeChar_eq (c : Char) :
    ∃ first more, String.utf8EncodeChar c = first :: more ∧ ∀ byte ∈ more, 128 ≤ byte.toNat := by
  rcases Nat.lt_or_ge c.toNat 128 with ascii | wide
  · exact ⟨c.toUInt8, [], utf8EncodeChar_of_ascii ascii, List.forall_mem_nil _⟩
  · obtain ⟨first, more, isCons⟩ := List.exists_cons_of_ne_nil (utf8EncodeChar_ne_nil c)
    refine ⟨first, more, isCons, fun byte isMember => ?_⟩
    exact le_toNat_of_mem_utf8EncodeChar wide (isCons ▸ List.mem_cons_of_mem first isMember)

theorem toUInt8_ne (asciiLeft : c.toNat < 128) (asciiRight : d.toNat < 128) (other : c ≠ d) :
    c.toUInt8 ≠ d.toUInt8 := by
  intro same
  have codes : c.toNat % 256 = d.toNat % 256 := congrArg UInt8.toNat same
  rw [Nat.mod_eq_of_lt (by omega), Nat.mod_eq_of_lt (by omega)] at codes
  exact other (Char.toNat_inj.1 codes)

end Encoding

namespace Text

/-- The bytes of a text in UTF-8. -/
def bytes (text : Text) : List UInt8 :=
  text.flatMap String.utf8EncodeChar

theorem bytes_cons (c : Char) (rest : Text) :
    bytes (c :: rest) = String.utf8EncodeChar c ++ rest.bytes :=
  List.flatMap_cons

theorem bytes_append (first second : Text) :
    bytes (first ++ second) = first.bytes ++ second.bytes :=
  List.flatMap_append

theorem length_bytes (text : Text) : text.bytes.length = text.byteLength := by
  induction text with
  | nil => rfl
  | cons c rest ih =>
      rw [bytes_cons, List.length_append, String.length_utf8EncodeChar, ih, byteLength]

theorem take_bytes_append (lead rest : Text) :
    (lead ++ rest).bytes.take lead.byteLength = lead.bytes := by
  rw [bytes_append, ← length_bytes lead, List.take_left]

theorem drop_bytes_append (lead rest : Text) :
    (lead ++ rest).bytes.drop lead.byteLength = rest.bytes := by
  rw [bytes_append, ← length_bytes lead, List.drop_left]

end Text

/-- What looking for the partner of a bracket comes to: the place of the partner, the end of the
text, or a bracket that closes what was never opened. -/
inductive Search where
  | found (place : Nat)
  | unclosed
  | underflow
  deriving DecidableEq, Repr

namespace Bracket

/-- Looking for the partner of a bracket byte by byte, from a place in front of which `depth`
brackets are open.  Whatever byte is behind a backslash is passed over. -/
def search (bracket : Bracket) : (place depth : Nat) → List UInt8 → Search
  | _, _, [] => .unclosed
  | place, depth, byte :: bytes =>
      if byte = '\\'.toUInt8 then
        match bytes with
        | [] => .unclosed
        | _ :: bytes => bracket.search (place + 2) depth bytes
      else if byte = bracket.opener.toUInt8 then
        bracket.search (place + 1) (depth + 1) bytes
      else if byte = bracket.closer.toUInt8 then
        match depth with
        | 0 => .underflow
        | depth + 1 => if depth = 0 then .found place else bracket.search (place + 1) depth bytes
      else
        bracket.search (place + 1) depth bytes

variable {bracket : Bracket} {place depth : Nat} {c : Char} {rest : Text}

theorem search_cons (bracket : Bracket) (place depth : Nat) (byte : UInt8) (bytes : List UInt8) :
    bracket.search place depth (byte :: bytes) =
      if byte = '\\'.toUInt8 then bracket.search (place + 2) depth bytes.tail
      else if byte = bracket.opener.toUInt8 then bracket.search (place + 1) (depth + 1) bytes
      else if byte = bracket.closer.toUInt8 then
        match depth with
        | 0 => .underflow
        | depth + 1 => if depth = 0 then .found place else bracket.search (place + 1) depth bytes
      else bracket.search (place + 1) depth bytes := by
  cases bytes <;> rfl

theorem byteLength_opener : Text.byteLength [bracket.opener] = 1 := by
  cases bracket <;> rfl

theorem byteLength_closer : Text.byteLength [bracket.closer] = 1 := by
  cases bracket <;> rfl

theorem isAscii : bracket.opener.toNat < 128 ∧ bracket.closer.toNat < 128 := by
  cases bracket <;> decide

/-! ### One byte -/

section OneByte

variable {byte : UInt8} {bytes : List UInt8}

theorem opener_ne_backslash : bracket.opener.toUInt8 ≠ '\\'.toUInt8 := by
  cases bracket <;> decide

theorem closer_ne_backslash : bracket.closer.toUInt8 ≠ '\\'.toUInt8 := by
  cases bracket <;> decide

theorem opener_ne_closer : bracket.opener.toUInt8 ≠ bracket.closer.toUInt8 := by
  cases bracket <;> decide

theorem search_openByte (place depth : Nat) (bytes : List UInt8) :
    bracket.search place depth (bracket.opener.toUInt8 :: bytes) =
      bracket.search (place + 1) (depth + 1) bytes := by
  rw [search_cons, if_neg opener_ne_backslash, if_pos rfl]

theorem search_closeByte (place depth : Nat) (bytes : List UInt8) :
    bracket.search place (depth + 1) (bracket.closer.toUInt8 :: bytes) =
      if depth = 0 then .found place else bracket.search (place + 1) depth bytes := by
  rw [search_cons, if_neg closer_ne_backslash, if_neg opener_ne_closer.symm, if_pos rfl]

theorem search_otherByte (noBack : byte ≠ '\\'.toUInt8) (noOpener : byte ≠ bracket.opener.toUInt8)
    (noCloser : byte ≠ bracket.closer.toUInt8) :
    bracket.search place depth (byte :: bytes) = bracket.search (place + 1) depth bytes := by
  rw [search_cons, if_neg noBack, if_neg noOpener, if_neg noCloser]

end OneByte

/-! ### One character -/

/-- Bytes that are the code of no ASCII character are passed over. -/
theorem search_wide {wide : List UInt8} (all : ∀ byte ∈ wide, 128 ≤ byte.toNat)
    (place depth : Nat) (bytes : List UInt8) :
    bracket.search place depth (wide ++ bytes) =
      bracket.search (place + wide.length) depth bytes := by
  have differs {byte : UInt8} (high : 128 ≤ byte.toNat) {d : Char} (ascii : d.toNat < 128) :
      byte ≠ d.toUInt8 := by
    rintro rfl
    have code : d.toUInt8.toNat = d.toNat % 256 := rfl
    omega
  induction wide generalizing place with
  | nil => rfl
  | cons byte wide ih =>
      rw [List.forall_mem_cons] at all
      rw [List.cons_append, search_otherByte (differs all.1 (by decide)) (differs all.1 isAscii.1)
        (differs all.1 isAscii.2), ih all.2, List.length_cons, Nat.add_right_comm, Nat.add_assoc]

/-- A backslash hides the character behind it, although it is one byte only that it hides. -/
theorem search_hidden (hidden : Char) :
    bracket.search place depth (Text.bytes ('\\' :: hidden :: rest)) =
      bracket.search (place + Text.byteLength ['\\', hidden]) depth rest.bytes := by
  have back : String.utf8EncodeChar '\\' = ['\\'.toUInt8] := utf8EncodeChar_of_ascii (by decide)
  obtain ⟨first, more, isCons, wide⟩ := exists_utf8EncodeChar_eq hidden
  have size : Text.byteLength ['\\', hidden] = 2 + more.length := by
    have here := String.length_utf8EncodeChar hidden
    rw [isCons, List.length_cons] at here
    rw [show Text.byteLength ['\\', hidden] = 1 + hidden.utf8Size from rfl, ← here]
    omega
  rw [Text.bytes_cons, Text.bytes_cons, back, isCons, List.singleton_append, search_cons,
    if_pos rfl, List.cons_append, List.tail_cons, search_wide wide, size, Nat.add_assoc]

theorem search_opener :
    bracket.search place depth (Text.bytes (bracket.opener :: rest)) =
      bracket.search (place + 1) (depth + 1) rest.bytes := by
  rw [Text.bytes_cons, utf8EncodeChar_of_ascii isAscii.1, List.singleton_append, search_openByte]

theorem search_closer :
    bracket.search place (depth + 1) (Text.bytes (bracket.closer :: rest)) =
      if depth = 0 then .found place else bracket.search (place + 1) depth rest.bytes := by
  rw [Text.bytes_cons, utf8EncodeChar_of_ascii isAscii.2, List.singleton_append, search_closeByte]

theorem search_other (noBack : c ≠ '\\') (noOpener : c ≠ bracket.opener)
    (noCloser : c ≠ bracket.closer) :
    bracket.search place depth (Text.bytes (c :: rest)) =
      bracket.search (place + c.utf8Size) depth rest.bytes := by
  rw [Text.bytes_cons]
  rcases Nat.lt_or_ge c.toNat 128 with ascii | wide
  · have size := String.length_utf8EncodeChar c
    rw [utf8EncodeChar_of_ascii ascii] at size ⊢
    rw [List.singleton_append, search_otherByte (toUInt8_ne ascii (by decide) noBack)
      (toUInt8_ne ascii isAscii.1 noOpener) (toUInt8_ne ascii isAscii.2 noCloser), ← size,
      List.length_singleton]
  · rw [search_wide (fun _ => le_toNat_of_mem_utf8EncodeChar wide), String.length_utf8EncodeChar]

/-- Going through the bytes of a text gives the place of the bracket that ends the group. -/
theorem search_bytes (bracket : Bracket) (place depth : Nat) (text : Text) :
    bracket.search place (depth + 1) text.bytes =
      ((bracket.groupFrom? depth text).map (place + ·.inside.byteLength)).elim
        .unclosed .found := by
  fun_induction groupFrom? bracket depth text generalizing place with
  | case1 => rfl
  | case2 depth hidden rest ih => rw [search_hidden, ih, Group.map_place_extend]
  | case3 depth rest _ ih => rw [search_opener, ih, Group.map_place_extend, byteLength_opener]
  | case4 rest => rw [search_closer, if_pos rfl]; rfl
  | case5 rest depth _ _ ih =>
      rw [search_closer, if_neg (Nat.succ_ne_zero depth), ih, Group.map_place_extend,
        byteLength_closer]
  | case6 depth c rest noHidden noOpener noCloser ih =>
      by_cases back : c = '\\'
      · subst back
        cases rest with
        | nil => cases depth <;> rfl
        | cons hidden rest => exact absurd rfl (noHidden hidden rest rfl)
      · rw [search_other back noOpener noCloser, ih, Group.map_place_extend]
        rfl

end Bracket

end TexCalc

import FuzzyRules.Proofs.Number.Numeral

namespace FuzzyRules.Numeral

/-! All that is looked for has one byte, and no other character starts with such
a byte, so every cut is made between characters. -/

/-- The text before a byte offset, unless the offset lies inside of a character
or past the end. -/
def before? (text : String) (offset : Nat) : Option String :=
  (text.pos? ⟨offset⟩).map fun stop => (text.sliceTo stop).copy

/-- The text behind a byte offset, unless the offset lies inside of a character
or past the end. -/
def behind? (text : String) (offset : Nat) : Option String :=
  (text.pos? ⟨offset⟩).map fun stop => (text.sliceFrom stop).copy

/-- The byte at the offset is that of one of the characters. -/
def FoundAt (chars : List Char) (bytes : List UInt8) (offset : Nat) : Prop :=
  ∃ c ∈ chars, bytes[offset]? = some c.toUInt8

instance (chars : List Char) (bytes : List UInt8) (offset : Nat) :
    Decidable (FoundAt chars bytes offset) :=
  inferInstanceAs (Decidable (∃ c ∈ chars, bytes[offset]? = some c.toUInt8))

def isDigitByte (byte : UInt8) : Bool :=
  '0'.toUInt8 ≤ byte && byte ≤ '9'.toUInt8

def digitCount (bytes : List UInt8) (start : Nat) : Nat :=
  ((bytes.drop start).takeWhile isDigitByte).length

def signEnd (bytes : List UInt8) (start : Nat) : Nat :=
  if FoundAt ['+', '-'] bytes start then start + 1 else start

/-- The number of digits behind a point; without a point there are none. -/
def fractionCount (bytes : List UInt8) (start : Nat) : Nat :=
  if FoundAt ['.'] bytes start then digitCount bytes (start + 1) else 0

def fractionEnd (bytes : List UInt8) (start : Nat) : Nat :=
  if FoundAt ['.'] bytes start then start + 1 + digitCount bytes (start + 1)
  else start

def exponentEnd (bytes : List UInt8) (start : Nat) : Nat :=
  if FoundAt ['e', 'E'] bytes start then
    let size := signEnd bytes (start + 1)
    if 0 < digitCount bytes size then size + digitCount bytes size else start
  else start

/-- The value of a text that is a numeral as a whole. -/
def parse? (text : List Char) : Option Binary64 :=
  match read? text with
  | some (number, []) => some number
  | _ => none

/-- The value of the numeral at the front of a text and its size in bytes. It
fails, rather than to find no numeral, where a cut of the text would divide a
character. -/
def readBytes? (text : String) : Option (Option (Binary64 × Nat)) :=
  let bytes := text.toByteArray.data.toList
  let start := signEnd bytes 0
  (behind? text start).bind fun unsigned =>
    if infinityWord.isPrefixOf unsigned.toList then
      some
        (some (.infinite (FoundAt ['-'] bytes 0), start + infinityWord.length))
    else
      let point := start + digitCount bytes start
      if digitCount bytes start + fractionCount bytes point = 0 then some none
      else
        let stop := exponentEnd bytes (fractionEnd bytes point)
        (before? text stop).map fun numeral =>
          (parse? numeral.toList).map (·, stop)

def encode (text : List Char) : List UInt8 :=
  text.flatMap String.utf8EncodeChar

private theorem toByteArray_ofList (text : List Char) :
    (String.ofList text).toByteArray.data.toList = encode text := by
  rw [String.toByteArray_ofList]
  exact List.toList_data_toByteArray

theorem utf8ByteSize_ofList (text : List Char) :
    (String.ofList text).utf8ByteSize = (encode text).length := by
  rw [← toByteArray_ofList]
  rfl

private theorem encode_append (front rest : List Char) :
    encode (front ++ rest) = encode front ++ encode rest :=
  List.flatMap_append

private theorem encode_cons_of_ascii {c : Char} (ascii : c.toNat < 128)
    (rest : List Char) : encode (c :: rest) = c.toUInt8 :: encode rest := by
  have small : c.val.toNat ≤ 127 := Nat.le_of_lt_succ ascii
  have byte : String.utf8EncodeChar c = [c.toUInt8] := if_pos small
  rw [encode, List.flatMap_cons, byte]
  rfl

private theorem exists_lead {c : Char} (large : 128 ≤ c.toNat)
    (rest : List Char) :
    ∃ lead others, encode (c :: rest) = lead :: others ∧ 128 ≤ lead.toNat := by
  have code : c.val.toNat = c.toNat := rfl
  rw [encode, List.flatMap_cons]
  fun_cases String.utf8EncodeChar c with
  | case1 => omega
  | case2 =>
      refine ⟨_, _, rfl, ?_⟩
      rw [UInt8.toNat_ofNat']
      omega
  | case3 =>
      refine ⟨_, _, rfl, ?_⟩
      rw [UInt8.toNat_ofNat']
      omega
  | case4 =>
      refine ⟨_, _, rfl, ?_⟩
      rw [UInt8.toNat_ofNat']
      omega

private theorem toNat_toUInt8 {c : Char} (ascii : c.toNat < 128) :
    c.toUInt8.toNat = c.toNat := by
  have code : c.toUInt8.toNat = c.toNat % 256 := UInt32.toNat_toUInt8 c.val
  omega

private theorem head?_encode_iff {c : Char} (ascii : c.toNat < 128)
    (text : List Char) :
    (encode text).head? = some c.toUInt8 ↔ text.head? = some c := by
  have code := toNat_toUInt8 ascii
  cases text with
  | nil => exact ⟨nofun, nofun⟩
  | cons first rest =>
      rw [List.head?_cons, Option.some_inj]
      by_cases firstAscii : first.toNat < 128
      · rw [encode_cons_of_ascii firstAscii, List.head?_cons, Option.some_inj]
        refine ⟨fun same => Char.toNat_inj.mp ?_, congrArg Char.toUInt8⟩
        rw [← toNat_toUInt8 firstAscii, same, code]
      · obtain ⟨lead, others, bytes, leadLarge⟩ :=
          exists_lead (Nat.not_lt.mp firstAscii) rest
        rw [bytes, List.head?_cons, Option.some_inj]
        constructor
        · rintro rfl
          omega
        · rintro rfl
          exact absurd ascii firstAscii

private theorem isDigit_iff (c : Char) :
    c.isDigit = true ↔ 48 ≤ c.toNat ∧ c.toNat ≤ 57 := by
  rw [Char.isDigit, Bool.and_eq_true, decide_eq_true_iff, decide_eq_true_iff]
  exact Iff.rfl

private theorem isDigitByte_iff (byte : UInt8) :
    isDigitByte byte = true ↔ 48 ≤ byte.toNat ∧ byte.toNat ≤ 57 := by
  rw [isDigitByte, Bool.and_eq_true, decide_eq_true_iff, decide_eq_true_iff]
  exact Iff.rfl

private theorem takeWhile_encode (text : List Char) :
    (encode text).takeWhile isDigitByte =
      encode (text.takeWhile Char.isDigit) := by
  induction text with
  | nil => rfl
  | cons c rest ih =>
      rw [List.takeWhile_cons]
      by_cases ascii : c.toNat < 128
      · have same : isDigitByte c.toUInt8 = c.isDigit := by
          rw [Bool.eq_iff_iff, isDigitByte_iff, toNat_toUInt8 ascii,
            isDigit_iff]
        rw [encode_cons_of_ascii ascii, List.takeWhile_cons, same, ih]
        split
        · rw [encode_cons_of_ascii ascii]
        · rfl
      · obtain ⟨lead, others, bytes, leadLarge⟩ :=
          exists_lead (Nat.not_lt.mp ascii) rest
        have noByte : ¬isDigitByte lead = true := by
          rw [isDigitByte_iff]
          omega
        have noDigit : ¬c.isDigit = true := by
          rw [isDigit_iff]
          omega
        rw [bytes, List.takeWhile_cons_of_neg noByte, if_neg noDigit]
        rfl

private theorem length_encode_of_ascii {text : List Char}
    (ascii : ∀ c ∈ text, c.toNat < 128) :
    (encode text).length = text.length := by
  induction text with
  | nil => rfl
  | cons c rest ih =>
      obtain ⟨firstAscii, restAscii⟩ := List.forall_mem_cons.mp ascii
      rw [encode_cons_of_ascii firstAscii, List.length_cons, List.length_cons,
        ih restAscii]

private theorem pos?_offset {text : String} (stop : text.Pos) :
    text.pos? stop.offset = some stop := by
  have valid :=
    String.Pos.Raw.isValidForSlice_eq_true_iff.mpr stop.isValid.toSlice
  rw [String.pos?, String.Slice.pos?, dif_pos valid]
  rfl

/-- A byte offset into a text with the part of the text that follows. -/
def StandsBefore (text : List Char) (offset : Nat) (rest : List Char) : Prop :=
  ∃ front, front ++ rest = text ∧ (encode front).length = offset

namespace StandsBefore

variable {text rest : List Char} {offset : Nat}

theorem start (text : List Char) : StandsBefore text 0 text :=
  ⟨[], rfl, rfl⟩

theorem advance (taken : List Char)
    (stands : StandsBefore text offset (taken ++ rest)) :
    StandsBefore text (offset + (encode taken).length) rest := by
  obtain ⟨front, rfl, rfl⟩ := stands
  refine ⟨front ++ taken, List.append_assoc .., ?_⟩
  rw [encode_append, List.length_append]

theorem drop_encode (stands : StandsBefore text offset rest) :
    (encode text).drop offset = encode rest := by
  obtain ⟨front, rfl, rfl⟩ := stands
  rw [encode_append, List.drop_left]

theorem foundAt_cases (stands : StandsBefore text offset rest)
    (chars : List Char) (ascii : ∀ c ∈ chars, c.toNat < 128) :
    (FoundAt chars (encode text) offset ∧
      ∃ c ∈ chars, ∃ others, rest = c :: others ∧
        StandsBefore text (offset + 1) others) ∨
    (¬FoundAt chars (encode text) offset ∧ Stops (· ∈ chars) rest) := by
  have first (c) (member : c ∈ chars) :
      (encode text)[offset]? = some c.toUInt8 ↔ rest.head? = some c := by
    rw [← head?_encode_iff (ascii c member), ← stands.drop_encode,
      List.head?_drop]
  by_cases found : FoundAt chars (encode text) offset
  · refine Or.inl ⟨found, ?_⟩
    obtain ⟨c, member, byte⟩ := found
    obtain ⟨others, rfl⟩ := List.head?_eq_some_iff.mp ((first c member).mp byte)
    refine ⟨c, member, others, rfl, ?_⟩
    have one : (encode [c]).length = 1 := by
      rw [encode_cons_of_ascii (ascii c member)]
      rfl
    have advanced := advance [c] stands
    rwa [one] at advanced
  · refine Or.inr ⟨found, ?_⟩
    cases rest with
    | nil => trivial
    | cons c others =>
        rw [Stops.cons_iff, decide_eq_false_iff_not]
        exact fun member => found ⟨c, member, (first c member).mpr rfl⟩

theorem signEnd (stands : StandsBefore text offset rest) :
    StandsBefore text (signEnd (encode text) offset) (readSign rest).2 := by
  obtain ⟨found, c, member, others, rfl, after⟩ | ⟨missing, stops⟩ :=
    stands.foundAt_cases ['+', '-'] (by simp)
  · rw [Numeral.signEnd, if_pos found]
    rcases List.mem_pair.mp member with rfl | rfl
    · exact after
    · exact after
  · have unsigned : Stops isSign rest := stops.mono fun c => by simp [isSign]
    have read : readSign rest = (false, rest) := readSign_text .none unsigned
    rw [Numeral.signEnd, if_neg missing, read]
    exact stands

theorem digits (stands : StandsBefore text offset rest) :
    digitCount (encode text) offset = (rest.takeWhile Char.isDigit).length ∧
      StandsBefore text (offset + digitCount (encode text) offset)
        (rest.dropWhile Char.isDigit) := by
  have ascii : ∀ c ∈ rest.takeWhile Char.isDigit, c.toNat < 128 := by
    intro c member
    have code := (isDigit_iff c).mp (List.mem_takeWhile_imp member)
    omega
  have count : digitCount (encode text) offset =
      (encode (rest.takeWhile Char.isDigit)).length := by
    rw [digitCount, stands.drop_encode, takeWhile_encode]
  refine ⟨count.trans (length_encode_of_ascii ascii), ?_⟩
  rw [count]
  apply advance
  rwa [List.takeWhile_append_dropWhile]

theorem fraction (stands : StandsBefore text offset rest) :
    fractionCount (encode text) offset = (readFraction rest).1.length ∧
      StandsBefore text (fractionEnd (encode text) offset)
        (readFraction rest).2 := by
  obtain ⟨found, c, member, others, rfl, after⟩ | ⟨missing, stops⟩ :=
    stands.foundAt_cases ['.'] (by simp)
  · cases List.mem_singleton.mp member
    rw [fractionCount, fractionEnd, if_pos found, if_pos found]
    exact after.digits
  · have noPoint : Stops (· = '.') rest := stops.mono fun c => by simp
    rw [fractionCount, fractionEnd, if_neg missing, if_neg missing,
      readFraction_of_stops noPoint]
    exact ⟨rfl, stands⟩

theorem exponentEnd (stands : StandsBefore text offset rest) :
    StandsBefore text (exponentEnd (encode text) offset)
      (readExponent rest).2 := by
  obtain ⟨found, mark, member, others, rfl, after⟩ | ⟨missing, stops⟩ :=
    stands.foundAt_cases ['e', 'E'] (by simp)
  · obtain ⟨count, afterDigits⟩ := after.signEnd.digits
    rw [Numeral.exponentEnd, if_pos found, readExponent_cons]
    dsimp only
    by_cases noDigits : (readSign others).2.takeWhile Char.isDigit = []
    · -- The mark is given back, and the sign behind it, if there is one.
      have none : ¬0 < digitCount (encode text)
          (Numeral.signEnd (encode text) (offset + 1)) := by
        rw [count, noDigits]
        exact Nat.lt_irrefl 0
      rw [if_neg none, if_neg fun complete => complete.2 noDigits]
      exact stands
    · have some : 0 < digitCount (encode text)
          (Numeral.signEnd (encode text) (offset + 1)) := by
        rw [count]
        exact List.length_pos_iff.mpr noDigits
      rw [if_pos some, if_pos ⟨List.mem_pair.mp member, noDigits⟩]
      exact afterDigits
  · rw [Numeral.exponentEnd, if_neg missing]
    cases rest with
    | nil => exact stands
    | cons mark others =>
        have noMark : ¬(mark = 'e' ∨ mark = 'E') := by simpa using stops
        rw [readExponent_cons, if_neg fun complete => noMark complete.1]
        exact stands

theorem pos? (stands : StandsBefore text offset rest) :
    ∃ front, front ++ rest = text ∧ ∃ stop : (String.ofList text).Pos,
      (String.ofList text).pos? ⟨offset⟩ = some stop ∧
        stop.Splits (String.ofList front) (String.ofList rest) := by
  obtain ⟨front, rfl, rfl⟩ := stands
  have parts : String.ofList (front ++ rest) =
      String.ofList front ++ String.ofList rest :=
    String.ofList_append
  have splits := String.Pos.splits_ofEqAppend parts
  refine ⟨front, rfl, String.Pos.ofEqAppend parts, ?_, splits⟩
  rw [← pos?_offset, splits.offset_eq_rawEndPos, ← utf8ByteSize_ofList]
  rfl

theorem before? (stands : StandsBefore text offset rest) :
    ∃ front, front ++ rest = text ∧
      before? (String.ofList text) offset = some (String.ofList front) := by
  obtain ⟨front, parts, stop, position, splits⟩ := stands.pos?
  exact ⟨front, parts,
    by rw [Numeral.before?, position, Option.map_some, splits.copy_sliceTo_eq]⟩

theorem behind? (stands : StandsBefore text offset rest) :
    behind? (String.ofList text) offset = some (String.ofList rest) := by
  obtain ⟨front, parts, stop, position, splits⟩ := stands.pos?
  rw [Numeral.behind?, position, Option.map_some, splits.copy_sliceFrom_eq]

theorem offset_eq (stands : StandsBefore text offset rest) :
    offset = (encode text).length - (encode rest).length := by
  obtain ⟨front, rfl, rfl⟩ := stands
  rw [encode_append, List.length_append, Nat.add_sub_cancel]

end StandsBefore

private theorem decide_foundAt_minus (text : List Char) :
    decide (FoundAt ['-'] (encode text) 0) = (readSign text).1 := by
  obtain ⟨found, c, member, others, rfl, _⟩ | ⟨missing, stops⟩ :=
    (StandsBefore.start text).foundAt_cases ['-'] (by simp)
  · cases List.mem_singleton.mp member
    exact decide_eq_true found
  · obtain ⟨sign, parts, negative⟩ := exists_sign text
    rw [decide_eq_false missing, negative]
    cases sign with
    | none => rfl
    | plus => rfl
    | minus =>
        rw [parts] at stops
        simp [Sign.text] at stops

theorem StandsBefore.parse? {text rest : List Char} {offset : Nat}
    {number : Binary64} (stands : StandsBefore text offset rest)
    (read : read? text = some (number, rest)) :
    (Numeral.before? (String.ofList text) offset).map
        (fun numeral => (Numeral.parse? numeral.toList).map (·, offset)) =
      some (some (number, offset)) := by
  obtain ⟨front, parts, cut⟩ := stands.before?
  obtain ⟨form, isText, value⟩ := exists_form read
  cases List.append_cancel_right (parts.trans isText)
  rw [cut, Option.map_some, String.toList_ofList, Numeral.parse?,
    read?_text, value]
  rfl

theorem readBytes?_ofList (text : List Char) :
    readBytes? (String.ofList text) =
      some ((read? text).map fun found =>
        (found.1, (encode text).length - (encode found.2).length)) := by
  have signed := (StandsBefore.start text).signEnd
  rw [readBytes?, toByteArray_ofList, signed.behind?, Option.bind_some,
    String.toList_ofList]
  by_cases infinite : infinityWord <+: (readSign text).2
  · rw [if_pos (List.isPrefixOf_iff_prefix.mpr infinite), read?_eq,
      if_pos infinite, decide_foundAt_minus]
    obtain ⟨others, isRest⟩ := infinite
    have behind : StandsBefore text
        (signEnd (encode text) 0 + infinityWord.length) others := by
      rw [← isRest] at signed
      exact signed.advance infinityWord
    rw [← isRest, List.drop_left, behind.offset_eq]
    rfl
  · obtain ⟨wholeCount, point⟩ := signed.digits
    obtain ⟨fractionCount, mantissaEnd⟩ := point.fraction
    have stopped := mantissaEnd.exponentEnd
    have count : digitCount (encode text) (signEnd (encode text) 0) +
        Numeral.fractionCount (encode text)
          (signEnd (encode text) 0 +
            digitCount (encode text) (signEnd (encode text) 0)) =
        ((readSign text).2.takeWhile Char.isDigit ++
          (readFraction
            ((readSign text).2.dropWhile Char.isDigit)).1).length := by
      rw [fractionCount, wholeCount, List.length_append]
    have read := read?_eq text
    rw [if_neg infinite, readDecimal?_eq] at read
    rw [if_neg (mt List.isPrefixOf_iff_prefix.mp infinite)]
    dsimp only at read ⊢
    rw [count]
    split
    · next noDigit =>
        rw [if_pos (List.length_eq_zero_iff.mp noDigit)] at read
        rw [read]
        rfl
    · next digit =>
        rw [if_neg (mt List.length_eq_zero_iff.mpr digit)] at read
        rw [stopped.parse? read, read, stopped.offset_eq]
        rfl

/-- The sizes in bytes of the numerals at the front of a text. -/
def numeralSizes (text : String) : Set Nat :=
  {size | ∃ front ∈ numerals, front <+: text.toList ∧
    (String.ofList front).utf8ByteSize = size}

private theorem isGreatest_numeralSizes {text : String} {taken rest : List Char}
    {number : Binary64} (read : read? text.toList = some (number, rest))
    (parts : text.toList = taken ++ rest) (member : taken ∈ numerals) :
    IsGreatest (numeralSizes text) (String.ofList taken).utf8ByteSize := by
  refine ⟨⟨taken, member, ⟨rest, parts.symm⟩, rfl⟩, ?_⟩
  rintro _ ⟨front, frontMember, inFront, rfl⟩
  obtain ⟨more, rfl⟩ := prefix_of_read? read parts frontMember inFront
  rw [String.ofList_append, String.utf8ByteSize_append]
  exact Nat.le_add_right _ _

/-- Reading takes the longest numeral at the front of a text, with the value
that this numeral has on its own, and finds none only where there is none.
Looking for the end of the numeral among the bytes of the text finds the same,
and never cuts the text inside of a character. -/
theorem read?_longest (text : String) :
    (read? text.toList = none ↔ ∀ front ∈ numerals, ¬front <+: text.toList) ∧
    (read? text.toList = none → readBytes? text = some none) ∧
    ∀ number rest, read? text.toList = some (number, rest) →
      ∃ form : Form,
        text = String.ofList form.text ++ String.ofList rest ∧
        IsGreatest (numeralSizes text) (String.ofList form.text).utf8ByteSize ∧
        number = form.value ∧ read? form.text = some (number, []) ∧
        readBytes? text =
          some (some (number, (String.ofList form.text).utf8ByteSize)) := by
  have scanned : readBytes? text = _ :=
    String.ofList_toList ▸ readBytes?_ofList text.toList
  refine ⟨read?_eq_none_iff text.toList, fun nothing => ?_,
    fun number rest read => ?_⟩
  · rw [scanned, nothing, Option.map_none]
  · obtain ⟨form, parts, value⟩ := exists_form read
    have member : form.text ∈ numerals := mem_numerals_iff.mpr ⟨form, rfl⟩
    have size : (encode text.toList).length - (encode rest).length =
        (String.ofList form.text).utf8ByteSize := by
      have stands : StandsBefore text.toList (encode form.text).length rest :=
        ⟨_, parts.symm, rfl⟩
      rw [← stands.offset_eq, utf8ByteSize_ofList]
    refine ⟨form, ?_, isGreatest_numeralSizes read parts member, value, ?_, ?_⟩
    · rw [← String.ofList_append, ← parts, String.ofList_toList]
    · rw [read?_text, value]
    · rw [scanned, read, Option.map_some, size]

/-- An exponent without digits behind a numeral without a whole part, and a
character of two bytes. -/
def dangling : String := "-.5e+é"

def minusHalf : Binary64 := .ofRank true 0x3fe0000000000000

/-- A sign and a point without digits, and a character of two bytes. -/
def bare : String := "+.é"

theorem read?_longest_dangling :
    read? dangling.toList = some (minusHalf, "e+é".toList) ∧
    IsGreatest (numeralSizes dangling) 3 ∧
    readBytes? dangling = some (some (minusHalf, 3)) ∧
    read? bare.toList = none ∧
    (∀ front ∈ numerals, ¬front <+: bare.toList) ∧
    readBytes? bare = some none := by
  have read : read? dangling.toList = some (minusHalf, "e+é".toList) := by
    decide +kernel
  have nothing : read? bare.toList = none := by decide +kernel
  obtain ⟨form, parts, greatest, _, _, scanned⟩ :=
    (read?_longest dangling).2.2 _ _ read
  have size : (String.ofList form.text).utf8ByteSize = 3 := by
    have sizes := congrArg String.utf8ByteSize parts
    rw [String.utf8ByteSize_append] at sizes
    exact Nat.add_right_cancel (show _ + 4 = 3 + 4 from sizes.symm)
  rw [size] at greatest scanned
  exact ⟨read, greatest, scanned, nothing, (read?_longest bare).1.mp nothing,
    (read?_longest bare).2.1 nothing⟩

end FuzzyRules.Numeral

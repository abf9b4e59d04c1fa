import ExprForest.Proofs.Forest.Pointing
import ExprForest.Proofs.Text.Decoding

namespace ExprForest

/-!
# Parsing bytes

* `Text.slice?` — the characters between two bytes of a text, if both stand between characters;
* `Parser.malformedBySlices?` — the error of bytes that are not UTF-8, worked out by slices of the lossy
  reading, each of them checked;
* `Text.Utf8.Undecodable` — where the first ill-formed sequence stands in the bytes and in their lossy
  reading;
* `Parser.forestOfBytes_decodes_or_points` — bytes are parsed as the text they encode, or the error points
  at the replacement character of their first ill-formed sequence.
-/

open Text (byteLength lastLine row column)
open Text.Utf8 (encode Begins IllFormed Lossy Malformed)

variable {before pre inside after rest : List Char} {bytes bad behind : List UInt8} {m : Malformed}

/-! ### Slices -/

namespace Text

/-- The characters of a text between two bytes, if these are in order and each stands between two
    characters. -/
def slice? (text : String) (start stop : Nat) : Option (List Char) := do
  let i ← charsWithin? text start
  let j ← charsWithin? text stop
  if start ≤ stop then some ((text.toList.take j).drop i) else none

theorem slice?_byteLength {text : String} (h : text.toList = pre ++ (inside ++ after)) :
    slice? text (byteLength pre) (byteLength pre + byteLength inside) = some inside := by
  have hstop : text.toList = (pre ++ inside) ++ after := by rw [h, List.append_assoc]
  have hi := charsWithin?_byteLength h
  have hj := charsWithin?_byteLength hstop
  rw [byteLength_append] at hj
  have hchars : (text.toList.take (pre ++ inside).length).drop pre.length = inside := by
    rw [hstop, List.take_left, List.drop_left]
  simp only [slice?, hi, hj, Option.bind_eq_bind, Option.bind_some, if_pos (Nat.le_add_right _ _),
    hchars]

/-- The bytes between two places in a list of them, if these are in order and inside. -/
def bytesBetween? (bytes : List UInt8) (start stop : Nat) : Option (List UInt8) :=
  if start ≤ stop ∧ stop ≤ bytes.length then some ((bytes.take stop).drop start) else none

theorem bytesBetween?_append (start bad behind : List UInt8) :
    bytesBetween? (start ++ (bad ++ behind)) start.length (start.length + bad.length) = some bad := by
  have hinside : start.length ≤ start.length + bad.length ∧
      start.length + bad.length ≤ (start ++ (bad ++ behind)).length := by
    simp only [List.length_append]
    omega
  rw [bytesBetween?, if_pos hinside, ← List.append_assoc, ← List.length_append, List.take_left,
    List.drop_left]

end Text

/-! ### The error of ill-formed bytes -/

namespace Parser

/-- The error of bytes that are not UTF-8, from the length of their well-formed start, the length of the
    ill-formed sequence behind it, if that does not go up to the end, and the lossy reading.  Every slice
    that is taken has to be in range and, in a text, between characters. -/
def malformedBySlices? (bytes : List UInt8) (valid : Nat) (errorLength? : Option Nat)
    (lossy : String) : Option ParseError := do
  let bad ← Text.bytesBetween? bytes valid (valid + errorLength?.getD (bytes.length - valid))
  let before ← Text.slice? lossy 0 valid
  let lineStart := byteLength (Text.rowsBefore before)
  let lineNumber := before.count '\n' + 1
  let behind ← Text.slice? lossy lineStart lossy.utf8ByteSize
  let lineStop := lineStart + byteLength (behind.takeWhile (· ≠ '\n'))
  let line := String.ofList (← Text.slice? lossy lineStart lineStop)
  let start := valid - lineStart
  let span := Span.cover line start (start + '\ufffd'.utf8Size)
  return (ParseError.invalidToken (String.join (bad.map byteText)) span ⟨false, line⟩).inBuffer
    lineNumber lineStart lossy

/-- The line of the lossy reading that the first ill-formed sequence stands in. -/
def malformedLine (before rest : List Char) : String :=
  String.ofList (lastLine before ++ '\ufffd' :: rest.takeWhile (· ≠ '\n'))

theorem malformedBytes_eq (h : m.lossy = m.before ++ '\ufffd' :: rest) :
    malformedBytes m = .invalidToken (String.join (m.bytes.map byteText))
      ((Span.cover (malformedLine m.before rest) (byteLength (lastLine m.before))
        (byteLength (lastLine m.before) + '\ufffd'.utf8Size)).shift
          (row m.before) (byteLength (Text.rowsBefore m.before)))
      ⟨true, String.ofList m.lossy⟩ := by
  have hbehind : (m.lossy.drop m.before.length).takeWhile (· ≠ '\n') =
      '\ufffd' :: rest.takeWhile (· ≠ '\n') := by
    rw [h, List.drop_left, List.takeWhile_cons_of_pos (by decide)]
  have hstart : byteLength m.before - byteLength (lastLine m.before) =
      byteLength (Text.rowsBefore m.before) := by
    have := Text.byteLength_rowsBefore m.before
    omega
  have hrow : m.before.count '\n' + 1 = row m.before := Nat.add_comm _ _
  have hline : (m.before.reverse.takeWhile (· ≠ '\n')).reverse = lastLine m.before := rfl
  simp only [malformedBytes, hline, hbehind, hstart, hrow]
  rfl

/-- **Slices.**  The slices on the way to the error of ill-formed bytes are all in range and between
    characters, and they give that error. -/
theorem malformedBySlices?_eq (hm : m.Of bytes behind) {errorLength? : Option Nat}
    (hlength : errorLength?.getD (bytes.length - byteLength m.before) = m.bytes.length) :
    malformedBySlices? bytes (byteLength m.before) errorLength? (String.ofList m.lossy) =
      some (malformedBytes m) := by
  obtain ⟨rest, hlossy⟩ := hm.replaced
  have hbytes : Text.bytesBetween? bytes (byteLength m.before)
      (byteLength m.before + m.bytes.length) = some m.bytes := by
    rw [hm.cut, ← Text.Utf8.length_encode, Text.bytesBetween?_append]
  have htext : (String.ofList m.lossy).toList =
      Text.rowsBefore m.before ++ (lastLine m.before ++ '\ufffd' :: rest) := by
    rw [String.toList_ofList, hlossy, ← List.append_assoc, Text.rowsBefore_append_lastLine]
  have hbefore : Text.slice? (String.ofList m.lossy) 0 (byteLength m.before) = some m.before := by
    have := @Text.slice?_byteLength [] m.before ('\ufffd' :: rest) (String.ofList m.lossy)
      (by rw [String.toList_ofList, hlossy, List.nil_append])
    rwa [Text.byteLength_nil, Nat.zero_add] at this
  have hbehind : Text.slice? (String.ofList m.lossy) (byteLength (Text.rowsBefore m.before))
      (String.ofList m.lossy).utf8ByteSize = some (lastLine m.before ++ '\ufffd' :: rest) := by
    have := @Text.slice?_byteLength (Text.rowsBefore m.before) (lastLine m.before ++ '\ufffd' :: rest)
      [] (String.ofList m.lossy) (by rw [htext, List.append_nil])
    rwa [← Text.byteLength_append, ← htext, Text.byteLength_toList] at this
  -- the line goes on behind the replacement character up to the next line feed
  have hline : (lastLine m.before ++ '\ufffd' :: rest).takeWhile (· ≠ '\n') =
      lastLine m.before ++ '\ufffd' :: rest.takeWhile (· ≠ '\n') := by
    rw [Text.takeWhile_lineFeed_append (Text.not_mem_lastLine m.before),
      List.takeWhile_cons_of_pos (by decide)]
  have hslice : Text.slice? (String.ofList m.lossy) (byteLength (Text.rowsBefore m.before))
      (byteLength (Text.rowsBefore m.before) +
        byteLength (lastLine m.before ++ '\ufffd' :: rest.takeWhile (· ≠ '\n'))) =
      some (lastLine m.before ++ '\ufffd' :: rest.takeWhile (· ≠ '\n')) := by
    refine @Text.slice?_byteLength _ _ (rest.dropWhile (· ≠ '\n')) _ ?_
    rw [htext, List.append_assoc, List.cons_append, List.takeWhile_append_dropWhile]
  have hstart : byteLength m.before - byteLength (Text.rowsBefore m.before) =
      byteLength (lastLine m.before) := by
    have := Text.byteLength_rowsBefore m.before
    omega
  have hrow : m.before.count '\n' + 1 = row m.before := Nat.add_comm _ _
  rw [malformedBytes_eq hlossy]
  simp only [malformedBySlices?, hlength, hbytes, hbefore, hbehind, hline, hslice, hstart, hrow,
    Option.bind_eq_bind, Option.bind_some]
  rfl

/-! ### Its place -/

/-- The error of ill-formed bytes points at the first replacement character of their lossy reading. -/
theorem malformedBytes_eq_of_replaced (hm : m.Of bytes behind) :
    ∃ span : Span, span.Marks m.before ['\ufffd'] ∧
      malformedBytes m = .invalidToken (String.join (m.bytes.map byteText)) span
        ⟨true, String.ofList m.lossy⟩ := by
  obtain ⟨rest, hlossy⟩ := hm.replaced
  refine ⟨_, ?_, malformedBytes_eq hlossy⟩
  have hrest := Text.not_mem_takeWhile rest
  have hbefore := Text.not_mem_lastLine m.before
  have hline : (malformedLine m.before rest).toList =
      lastLine m.before ++ (['\ufffd'] ++ rest.takeWhile (· ≠ '\n')) := String.toList_ofList
  have hfeed : '\n' ∉ (malformedLine m.before rest).toList := by
    rw [hline, List.mem_append, List.mem_append, not_or, not_or]
    exact ⟨hbefore, by decide, hrest⟩
  have hmarks := (Span.marks_cover hline hfeed).shift (Text.lastLine_rowsBefore m.before) hbefore
    (by decide)
  rwa [Text.row_rowsBefore, Text.rowsBefore_append_lastLine] at hmarks

/-- The digits of a byte. -/
def hexDigits : List Char :=
  "0123456789ABCDEF".toList

/-- A byte in hexadecimal, behind a backslash and an x. -/
def hexEscape (b : UInt8) : List Char :=
  ['\\', 'x', hexDigits.getD (b.toNat / 16) '0', hexDigits.getD (b.toNat % 16) '0']

theorem toList_byteText (b : UInt8) : (byteText b).toList = hexEscape b := by
  have hdigit : ∀ n < 16, (Nat.digitChar n).toUpper = hexDigits.getD n '0' := by decide
  have hhigh : b.toNat / 16 < 16 := by
    have := b.toNat_lt
    omega
  have hlow : b.toNat % 16 < 16 := Nat.mod_lt _ (by decide)
  rw [hexEscape, ← hdigit _ hhigh, ← hdigit _ hlow, byteText, String.toList_append,
    String.toList_ofList, String.toList_ofList]
  rfl

theorem toList_join_byteText (bad : List UInt8) :
    (String.join (bad.map byteText)).toList = bad.flatMap hexEscape := by
  rw [String.toList_join, List.flatMap_map]
  simp only [toList_byteText]

end Parser

/-! ### Bytes that are not UTF-8 -/

/-- Where bytes stop being UTF-8.  Their longest well-formed start are `v` bytes, those of the characters
    `before`; behind them comes the ill-formed sequence `bad`, which is all the rest if that could still
    become a character; in the lossy reading `source` a replacement character stands for it. -/
structure Text.Utf8.Undecodable (bytes : List UInt8) (v : Nat) (before : List Char)
    (bad : List UInt8) (source : String) : Prop where
  length_eq : (encode before).length = v
  well_formed : bytes.take v = encode before
  longest : ∀ cs, encode cs <+: bytes → (encode cs).length ≤ v
  ill_formed : ∃ behind, bytes.drop v = bad ++ behind ∧ IllFormed bad behind
  truncated : Begins (bytes.drop v) → bad = bytes.drop v
  lossy : Lossy bytes source.toList
  same_start : (encode source.toList).take v = bytes.take v
  replacement : ((encode source.toList).drop v).take 3 = encode ['\ufffd']

/-- What the reader sets apart is where the bytes stop being UTF-8. -/
theorem Text.Utf8.Malformed.Of.undecodable (hm : m.Of bytes behind) :
    Undecodable bytes (byteLength m.before) m.before m.bytes (String.ofList m.lossy) := by
  obtain ⟨rest, hlossy⟩ := hm.replaced
  have hlength : (encode m.before).length = byteLength m.before := length_encode m.before
  have htake : bytes.take (byteLength m.before) = encode m.before := by
    rw [hm.cut, ← hlength, List.take_left]
  have hdrop : bytes.drop (byteLength m.before) = m.bytes ++ behind := by
    rw [hm.cut, ← hlength, List.drop_left]
  have hsource : encode (String.ofList m.lossy).toList =
      encode m.before ++ (encode ['\ufffd'] ++ encode rest) := by
    rw [String.toList_ofList, hlossy, encode_append, ← List.singleton_append, encode_append]
  refine ⟨hlength, htake, ?_, ⟨behind, hdrop, hm.illFormed⟩, ?_, ?_, ?_, ?_⟩
  · intro cs hpre
    rw [← hlength]
    exact length_encode_le_of_illFormed hm.illFormed (hm.cut ▸ hpre)
  · -- nothing is left behind the most bytes that could still become a character
    rw [hdrop]
    intro hbegins
    have hle := hm.illFormed.longest _ hbegins List.prefix_rfl
    rw [List.length_append] at hle
    have hnil : behind = [] := List.length_eq_zero_iff.mp (by omega)
    rw [hnil, List.append_nil]
  · rw [String.toList_ofList]
    exact hm.lossy
  · rw [hsource, htake, ← hlength, List.take_left]
  · have hthree : (encode ['\ufffd']).length = 3 := rfl
    rw [hsource, ← hlength, List.drop_left, ← hthree, List.take_left]

namespace Parser

/-- **The bytes of a buffer.**  Those of a text are parsed as the text.  All others fail before any engine
    is started, with an invalid token: its lexeme shows the first ill-formed sequence, its span is that of
    the replacement character for it in the lossy reading, and the slices by which it is worked out, with
    or without the length of a truncated sequence, are all in range and between characters. -/
theorem forestOfBytes_decodes_or_points {g : Grammar} (p : Parser g) (log : Log) :
    (∀ text : String, p.forestOfBytes (some (encode text.toList)) log = p.forest text log) ∧
      ∀ bytes : List UInt8, (∃ text : String, bytes = encode text.toList) ∨
        ∃ v before bad source lexeme error,
          Text.Utf8.Undecodable bytes v before bad source ∧
          lexeme.toList = bad.flatMap hexEscape ∧
          error = .invalidToken lexeme
            ⟨1 + (bytes.take v).count 0x0a, 1 + (lastLine before).length,
              1 + (bytes.take v).count 0x0a, 1 + (lastLine before).length, v, 3⟩
            ⟨true, source⟩ ∧
          p.forestOfBytes (some bytes) log = (.failure error, log) ∧
          ∀ errorLength?,
            errorLength? = some bad.length ∨ errorLength? = none ∧ Begins (bytes.drop v) →
              malformedBySlices? bytes v errorLength? source = some error := by
  refine ⟨fun text => ?_, fun bytes => ?_⟩
  · rw [forestOfBytes, Text.Utf8.read_encode]
  rcases Text.Utf8.read_cases bytes with ⟨text, -, hbytes⟩ | ⟨m, behind, hread, hm⟩
  · exact .inl ⟨text, hbytes⟩
  right
  have hundecodable := hm.undecodable
  obtain ⟨span, hmarks, herror⟩ := malformedBytes_eq_of_replaced hm
  -- the rows are those of the bytes, since a line feed is the only character with its byte
  have hrow : row m.before = 1 + (bytes.take (byteLength m.before)).count 0x0a := by
    rw [hundecodable.well_formed, Text.Utf8.count_lineFeed_encode, row]
  have hspan : span = ⟨1 + (bytes.take (byteLength m.before)).count 0x0a,
      1 + (lastLine m.before).length, 1 + (bytes.take (byteLength m.before)).count 0x0a,
      1 + (lastLine m.before).length, byteLength m.before, 3⟩ := by
    obtain ⟨firstLine, firstColumn, lastRow, lastColumn, offset, length⟩ := span
    obtain ⟨rfl, rfl, rfl, rfl, rfl, rfl⟩ := hmarks
    rw [hrow]
    simp only [List.dropLast_singleton, List.append_nil]
    rfl
  refine ⟨byteLength m.before, m.before, m.bytes, String.ofList m.lossy, _, malformedBytes m,
    hundecodable, toList_join_byteText m.bytes, ?_, ?_, ?_⟩
  · rw [herror, hspan]
  · rw [forestOfBytes, hread]
  · rintro errorLength? (rfl | ⟨rfl, hbegins⟩)
    · exact malformedBySlices?_eq hm rfl
    · refine malformedBySlices?_eq hm ?_
      rw [hundecodable.truncated hbegins, List.length_drop]
      rfl

end Parser

end ExprForest

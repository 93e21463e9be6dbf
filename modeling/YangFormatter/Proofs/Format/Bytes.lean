import YangFormatter.Proofs.Format.Report
import YangFormatter.Proofs.Text.Utf8
import YangFormatter.Proofs.Token.Coverage

/-! # Bytes and text

Bytes that encode a text are formatted as the text is, and the tokens that are read from them
are slices of them. Bytes that encode no text are refused as a whole, at the end of what is
well-formed in them (`Source.bytes_agree`).
-/

namespace YangFormatter

open TokenStream

/-- Tokens side by side are slices of the bytes they lie on. -/
theorem Token.Tile.extract_eq {start stop : Nat} {tokens : List Token} {token : Token}
    (tile : Tile start tokens stop) (member : token ∈ tokens) {front : List UInt8}
    (placed : front.length = start) (rest : Text) :
    (front ++ Utf8.encode (tokens.flatMap (·.text) ++ rest)).extract token.span.start
      token.span.stop = Utf8.encode token.text := by
  induction tokens generalizing start front with
  | nil => cases member
  | cons first tokens ih =>
      obtain ⟨_, begins, length, others⟩ := tile
      have stops : first.span.stop = start + (Utf8.encode first.text).length := by
        have := first.span.start_le_stop
        rw [Utf8.length_encode, ← length, Span.length]
        omega
      rw [List.flatMap_cons, List.append_assoc, Utf8.encode_append]
      rcases List.mem_cons.mp member with rfl | further
      · rw [List.extract_eq_take_drop, begins, stops, ← placed, List.drop_left,
          Nat.add_sub_cancel_left, List.take_left]
      · rw [← List.append_assoc]
        refine ih others further ?_
        rw [List.length_append, placed, stops]

/-- The tokens of a text are slices of its bytes. -/
theorem TokenStream.extract_ofText {text : Text} {token : Token}
    (member : token ∈ (ofText text).tokens) :
    (Utf8.encode text).extract token.span.start token.span.stop = Utf8.encode token.text := by
  obtain ⟨rest, spelled, tiled, _⟩ := tile_scan 0 text
  have slice := tiled.extract_eq member List.length_nil rest
  rwa [spelled, List.nil_append] at slice

namespace Source

/-- An encoded text is decoded to itself. -/
theorem decode_encode (text : Text) :
    decode (.bytes (Utf8.encode text)) = decode (.text text) := by
  simp only [decode, Utf8.decode_encode, Except.mapError]

/-- An encoded text has the tree of the text. -/
theorem parse_encode (text : Text) :
    parse (.bytes (Utf8.encode text)) = parse (.text text) := by
  rw [parse, decode_encode]
  rfl

/-- Bytes that are no text have a first fault. -/
theorem exists_fault {bytes : List UInt8} (illFormed : ¬ Utf8.WellFormed bytes) :
    ∃ fault, Utf8.decode bytes = .error fault ∧ fault.Ends bytes := by
  cases decoded : Utf8.decode bytes with
  | ok text => exact (illFormed ⟨text, (Utf8.decode_eq_ok_iff.mp decoded).symm⟩).elim
  | error fault => exact ⟨fault, rfl, Utf8.ends_of_decode decoded⟩

end Source

/-- An encoded text is formatted as the text is. -/
theorem Style.attemptFormat_encode (style : Style) (machine : Machine) (text : Text) :
    style.attemptFormat machine (.bytes (Utf8.encode text)) =
      style.attemptFormat machine (.text text) := by
  rw [attemptFormat, Source.parse_encode]
  rfl

/-- An encoded text is reported on as the text is. -/
theorem Style.attemptReport_encode (style : Style) (machine : Machine) (text : Text) :
    style.attemptReport machine (.bytes (Utf8.encode text)) =
      style.attemptReport machine (.text text) := by
  rw [attemptReport, attemptFormat_encode, Source.decodeLossy, Utf8.decodeLossy_encode]
  rfl

/-- Bytes that encode a text are split, parsed, formatted and reported on as the text is, and
each token is a slice of them. Other bytes are refused before there is a token, directly
behind the longest part at their start that encodes a text. -/
theorem Source.bytes_agree (bytes : List UInt8) :
    (∀ text, Utf8.encode text = bytes →
      ofSource (.bytes bytes) = ofSource (.text text) ∧
      Source.parse (.bytes bytes) = Source.parse (.text text) ∧
      (∀ (style : Style) (machine : Machine),
        style.attemptFormat machine (.bytes bytes) = style.attemptFormat machine (.text text) ∧
          style.attemptReport machine (.bytes bytes) =
            style.attemptReport machine (.text text)) ∧
      ∃ stream tokens fault, ofSource (.bytes bytes) = .ok stream ∧ stream.Yields tokens fault ∧
        ∀ token ∈ tokens,
          bytes.extract token.span.start token.span.stop = Utf8.encode token.text) ∧
    (¬ Utf8.WellFormed bytes →
      ∃ (fault : Utf8.Fault) (problem : Problem), fault.Ends bytes ∧
        problem = ⟨.unexpectedCharacter [Char.ofNat fault.byte.toNat], fault.offset⟩ ∧
        ofSource (.bytes bytes) = .error problem ∧
        Source.parse (.bytes bytes) = .error problem ∧
        ∀ (style : Style) (machine : Machine),
          style.attemptFormat machine (.bytes bytes) = .error (.problem problem) ∧
            ∃ report, style.attemptReport machine (.bytes bytes) = .ok report ∧
              report.OfProblem (.bytes bytes) problem) := by
  constructor
  · intro text same
    subst same
    have stream : ofSource (.bytes (Utf8.encode text)) = .ok (ofText text) := by
      rw [ofSource, decode_encode]
      rfl
    refine ⟨stream, parse_encode text, fun style machine => ?_, ?_⟩
    · exact ⟨style.attemptFormat_encode machine text, style.attemptReport_encode machine text⟩
    · exact ⟨_, _, _, stream, yields_self _, fun token member => extract_ofText member⟩
  · intro illFormed
    obtain ⟨fault, fails, ends⟩ := exists_fault illFormed
    have refused : Source.decode (.bytes bytes) = .error (Source.illFormed fault) := by
      rw [Source.decode, fails]
      rfl
    have failed : Source.parse (.bytes bytes) = .error (Source.illFormed fault) := by
      rw [Source.parse, refused]
      rfl
    refine ⟨fault, Source.illFormed fault, ends, rfl, ?_, failed, fun style machine => ⟨?_, ?_⟩⟩
    · rw [ofSource, refused]
      rfl
    · exact Style.attemptFormat_of_error failed style machine
    · exact Style.attemptReport_of_error failed style machine

/-- A keyword of two bytes, and a character of three bytes of which the last is missing. -/
theorem Source.bytes_agree_truncated :
    Source.parse (.bytes [0xC3, 0xA9, 0x3B]) = .ok [.leaf { keyword := "é".toList }] ∧
    ∃ report, Style.attemptReport {} {} (.bytes [0x61, 0x20, 0xE2, 0x82]) = .ok report ∧
      report.OfProblem (.bytes [0x61, 0x20, 0xE2, 0x82]) ⟨.unexpectedCharacter ['â'], 2⟩ := by
  have encoded : Utf8.encode "é;".toList = [0xC3, 0xA9, 0x3B] := by
    decide
  have parsed : Source.parse (.text "é;".toList) = .ok [.leaf { keyword := "é".toList }] := by
    cbv
  have fails : Utf8.decode [0x61, 0x20, 0xE2, 0x82] = .error ⟨2, 0xE2⟩ := by
    rw [Utf8.decode, Utf8.decodeOnto]
    change Utf8.decodeOnto ['a'] 1 [0x20, 0xE2, 0x82] = _
    rw [Utf8.decodeOnto]
    change Utf8.decodeOnto [' ', 'a'] 2 [0xE2, 0x82] = _
    rw [Utf8.decodeOnto]
    rfl
  have illFormed : ¬ Utf8.WellFormed [0x61, 0x20, 0xE2, 0x82] := by
    intro wellFormed
    obtain ⟨text, same⟩ := wellFormed
    rw [← same, Utf8.decode_encode] at fails
    cases fails
  have refused : Source.parse (.bytes [0x61, 0x20, 0xE2, 0x82]) =
      .error ⟨.unexpectedCharacter ['â'], 2⟩ := by
    rw [Source.parse, Source.decode, fails]
    rfl
  obtain ⟨_, agrees, _⟩ := (Source.bytes_agree _).1 _ encoded
  obtain ⟨_, problem, _, _, _, failed, reports⟩ := (Source.bytes_agree _).2 illFormed
  obtain rfl := Except.error.inj (refused.symm.trans failed)
  exact ⟨agrees.trans parsed, (reports {} {}).2⟩

end YangFormatter

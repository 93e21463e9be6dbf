import YangFormatter.Text.Basic

/-! # UTF-8

Encoding, strict decoding and lenient decoding. A byte sequence is ill-formed
where the lead byte or one of the bytes after it is not one that the encoding
allows there; overlong forms, surrogates and values past the last code point are
excluded by the ranges of the second byte.
-/

namespace YangFormatter.Utf8

/-- The UTF-8 encoding of a text. -/
def encode (text : Text) : List UInt8 :=
  text.flatMap String.utf8EncodeChar

/-- The number of bytes a text takes up. -/
def length (text : Text) : Nat :=
  text.foldr (fun character size => character.utf8Size + size) 0

/-- The values that a byte after the lead byte may have. -/
structure Continuation where
  /-- The least value. -/
  low : Nat
  /-- The greatest value. -/
  high : Nat
deriving DecidableEq, Repr

/-- Whether a byte is one of the allowed values. -/
def Continuation.accepts (range : Continuation) (byte : UInt8) : Bool :=
  range.low ≤ byte.toNat && byte.toNat ≤ range.high

/-- The range of a byte after the lead byte where nothing narrows it. -/
def Continuation.any : Continuation :=
  ⟨0x80, 0xBF⟩

/-- What a lead byte says about the sequence it opens. -/
structure Lead where
  /-- The leading bits of the code point. -/
  bits : Nat
  /-- The ranges of the bytes that have to follow. -/
  following : List Continuation
deriving DecidableEq, Repr

/-- Reads a lead byte; nothing for a byte that opens no sequence. -/
def lead? (byte : UInt8) : Option Lead :=
  let value := byte.toNat
  if value < 0x80 then some ⟨value, []⟩
  else if value < 0xC2 then none
  else if value < 0xE0 then some ⟨value - 0xC0, [.any]⟩
  else if value = 0xE0 then some ⟨0x0, [⟨0xA0, 0xBF⟩, .any]⟩
  else if value = 0xED then some ⟨0xD, [⟨0x80, 0x9F⟩, .any]⟩
  else if value < 0xF0 then some ⟨value - 0xE0, [.any, .any]⟩
  else if value = 0xF0 then some ⟨0, [⟨0x90, 0xBF⟩, .any, .any]⟩
  else if value < 0xF4 then some ⟨value - 0xF0, [.any, .any, .any]⟩
  else if value = 0xF4 then some ⟨4, [⟨0x80, 0x8F⟩, .any, .any]⟩
  else none

/-- Reads the bytes after a lead byte, six bits from each. The first part is the
code point, or nothing where a byte is missing or not allowed; the second part
is what was not read. -/
def follow (bits : Nat) : List Continuation → List UInt8 → Option Nat × List UInt8
  | [], bytes => (some bits, bytes)
  | _ :: _, [] => (none, [])
  | range :: ranges, byte :: bytes =>
      if range.accepts byte then follow (bits * 64 + (byte.toNat - 0x80)) ranges bytes
      else (none, byte :: bytes)

/-- Reads one character from the bytes that start with `byte`. Where they open no
well-formed sequence there is no character, and the rest starts after the bytes
that could still have begun one. -/
def first (byte : UInt8) (bytes : List UInt8) : Option Char × List UInt8 :=
  match lead? byte with
  | none => (none, bytes)
  | some lead =>
      let (point, remaining) := follow lead.bits lead.following bytes
      (point.map Char.ofNat, remaining)

/-- What follows is taken from the front. -/
theorem follow_remaining_length_le (bits : Nat) (ranges : List Continuation)
    (bytes : List UInt8) : (follow bits ranges bytes).2.length ≤ bytes.length := by
  induction ranges generalizing bits bytes with
  | nil => simp [follow]
  | cons range ranges ih =>
      cases bytes with
      | nil => simp [follow]
      | cons byte bytes =>
          by_cases accepted : range.accepts byte
          · simp only [follow, accepted, ↓reduceIte, List.length_cons]
            exact Nat.le_succ_of_le (ih _ _)
          · simp [follow, accepted]

/-- Reading a character takes no byte beyond those at hand. -/
theorem first_remaining_length_le (byte : UInt8) (bytes : List UInt8) :
    (first byte bytes).2.length ≤ bytes.length := by
  unfold first
  split
  · exact Nat.le_refl _
  · exact follow_remaining_length_le _ _ _

/-- Where bytes stop being UTF-8. -/
structure Fault where
  /-- The offset of the first byte of the first ill-formed sequence. -/
  offset : Nat
  /-- That byte. -/
  byte : UInt8
deriving DecidableEq, Repr

/-- Decodes the bytes from `offset` on; `decoded` holds the characters before it,
newest first. -/
def decodeOnto (decoded : Text) (offset : Nat) : List UInt8 → Except Fault Text
  | [] => .ok decoded.reverse
  | byte :: bytes =>
      match _step : first byte bytes with
      | (some character, remaining) =>
          decodeOnto (character :: decoded) (offset + character.utf8Size) remaining
      | (none, _) => .error ⟨offset, byte⟩
termination_by bytes => bytes.length
decreasing_by
  have bound := first_remaining_length_le byte bytes
  simp_all only [List.length_cons]
  omega

/-- The text that the bytes encode, or the place of the first fault. -/
def decode (bytes : List UInt8) : Except Fault Text :=
  decodeOnto [] 0 bytes

/-- The character that stands for bytes that are not UTF-8. -/
def replacement : Char := '\ufffd'

/-- Decodes leniently; `decoded` holds the characters read so far, newest first. -/
def decodeLossyOnto (decoded : Text) : List UInt8 → Text
  | [] => decoded.reverse
  | byte :: bytes =>
      match _step : first byte bytes with
      | (character, remaining) =>
          decodeLossyOnto (character.getD replacement :: decoded) remaining
termination_by bytes => bytes.length
decreasing_by
  have bound := first_remaining_length_le byte bytes
  simp_all only [List.length_cons]
  omega

/-- The text that the bytes encode, with one replacement character for each
longest run of bytes that could have begun a sequence and did not complete one. -/
def decodeLossy (bytes : List UInt8) : Text :=
  decodeLossyOnto [] bytes

@[simp]
theorem length_nil : length [] = 0 := rfl

@[simp]
theorem length_cons (character : Char) (text : Text) :
    length (character :: text) = character.utf8Size + length text := rfl

@[simp]
theorem length_append (first second : Text) :
    length (first ++ second) = length first + length second := by
  induction first with
  | nil => rw [List.nil_append, length_nil, Nat.zero_add]
  | cons character rest ih => rw [List.cons_append, length_cons, length_cons, ih, Nat.add_assoc]

@[simp]
theorem encode_nil : encode [] = [] := rfl

@[simp]
theorem encode_append (first second : Text) :
    encode (first ++ second) = encode first ++ encode second := by
  simp [encode]

/-- The byte length is the length of the encoding. -/
theorem length_encode (text : Text) : (encode text).length = length text := by
  induction text with
  | nil => rfl
  | cons character text ih =>
      simp only [encode, List.flatMap_cons, List.length_append, length_cons] at ih ⊢
      rw [ih, String.length_utf8EncodeChar]

end YangFormatter.Utf8

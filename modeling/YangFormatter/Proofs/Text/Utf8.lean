import Mathlib.Tactic
import YangFormatter.Proofs.Token.Returns
import YangFormatter.Text.Utf8

/-! # Decoding and encoding

A character is read from bytes exactly if they begin with its encoding
(`Utf8.first_eq_some_iff`). So strict decoding accepts the encodings of texts and nothing else
(`Utf8.decode_eq_ok_iff`), and on those lenient decoding agrees with it
(`Utf8.decodeLossy_encode`). Of other bytes it reads all that is well-formed before it fails
(`Utf8.ends_of_decode`).
-/

namespace YangFormatter.Utf8

/-! ## Code points -/

/-- The bytes of a code point. -/
def encodePoint (point : Nat) : List UInt8 :=
  if point ≤ 0x7F then [.ofNat point]
  else if point ≤ 0x7FF then [.ofNat (point / 64 % 32 + 0xC0), .ofNat (point % 64 + 0x80)]
  else if point ≤ 0xFFFF then
    [.ofNat (point / 4096 % 16 + 0xE0), .ofNat (point / 64 % 64 + 0x80), .ofNat (point % 64 + 0x80)]
  else
    [.ofNat (point / 262144 % 8 + 0xF0), .ofNat (point / 4096 % 64 + 0x80),
      .ofNat (point / 64 % 64 + 0x80), .ofNat (point % 64 + 0x80)]

theorem utf8EncodeChar_eq (character : Char) :
    String.utf8EncodeChar character = encodePoint character.toNat := rfl

private theorem ofNat_eq_of_toNat {number : Nat} (byte : UInt8) (same : number = byte.toNat) :
    UInt8.ofNat number = byte := by
  rw [same, UInt8.ofNat_toNat]

private theorem toNat_ofNat (number : Nat) (small : number < 256) :
    (UInt8.ofNat number).toNat = number :=
  UInt8.toNat_ofNat_of_lt' small

section Lengths

variable {byte second third fourth : UInt8} {bits unit middle last : Nat}

/-- A byte below 0x80 encodes itself. -/
theorem encodePoint_one (own : byte.toNat < 0x80) : encodePoint byte.toNat = [byte] := by
  rw [encodePoint, if_pos (by omega), UInt8.ofNat_toNat]

/-- Two bytes encode eleven bits. -/
theorem encodePoint_two (least : 2 ≤ bits) (most : bits < 32) (small : last < 64)
    (own : byte.toNat = 0xC0 + bits) (final : second.toNat = 0x80 + last) :
    encodePoint (bits * 64 + last) = [byte, second] := by
  rw [encodePoint, if_neg (by omega), if_pos (by omega), ofNat_eq_of_toNat byte (by omega),
    ofNat_eq_of_toNat second (by omega)]

/-- Three bytes encode sixteen bits. -/
theorem encodePoint_three (most : bits < 16) (small : unit < 64) (small' : last < 64)
    (long : 0x20 ≤ bits * 64 + unit) (own : byte.toNat = 0xE0 + bits)
    (next : second.toNat = 0x80 + unit) (final : third.toNat = 0x80 + last) :
    encodePoint ((bits * 64 + unit) * 64 + last) = [byte, second, third] := by
  rw [encodePoint, if_neg (by omega), if_neg (by omega), if_pos (by omega),
    ofNat_eq_of_toNat byte (by omega), ofNat_eq_of_toNat second (by omega),
    ofNat_eq_of_toNat third (by omega)]

/-- Four bytes encode twenty-one bits. -/
theorem encodePoint_four (most : bits < 8) (small : unit < 64) (small' : middle < 64)
    (small'' : last < 64) (long : 0x10 ≤ bits * 64 + unit) (own : byte.toNat = 0xF0 + bits)
    (next : second.toNat = 0x80 + unit) (behind : third.toNat = 0x80 + middle)
    (final : fourth.toNat = 0x80 + last) :
    encodePoint (((bits * 64 + unit) * 64 + middle) * 64 + last) =
      [byte, second, third, fourth] := by
  rw [encodePoint, if_neg (by omega), if_neg (by omega), if_neg (by omega),
    ofNat_eq_of_toNat byte (by omega), ofNat_eq_of_toNat second (by omega),
    ofNat_eq_of_toNat third (by omega), ofNat_eq_of_toNat fourth (by omega)]

end Lengths

/-! ## Reading a character -/

/-- What a lead byte asks for, by the length of its sequence. -/
theorem lead?_eq_some_iff {byte : UInt8} {lead : Lead} :
    lead? byte = some lead ↔
      (byte.toNat < 0x80 ∧ ⟨byte.toNat, []⟩ = lead) ∨
      (∃ bits, 2 ≤ bits ∧ bits < 32 ∧ byte.toNat = 0xC0 + bits ∧ ⟨bits, [.any]⟩ = lead) ∨
      (∃ bits, bits < 16 ∧ byte.toNat = 0xE0 + bits ∧
        ⟨bits, [⟨if bits = 0 then 0xA0 else 0x80, if bits = 0xD then 0x9F else 0xBF⟩, .any]⟩ =
          lead) ∨
      ∃ bits, bits ≤ 4 ∧ byte.toNat = 0xF0 + bits ∧
        ⟨bits, [⟨if bits = 0 then 0x90 else 0x80, if bits = 4 then 0x8F else 0xBF⟩, .any, .any]⟩ =
          lead := by
  unfold lead?
  generalize byte.toNat = value
  dsimp only
  constructor
  · intro opens
    by_cases one : value < 0x80
    · rw [if_pos one] at opens
      exact .inl ⟨one, Option.some.inj opens⟩
    rw [if_neg one] at opens
    by_cases unused : value < 0xC2
    · rw [if_pos unused] at opens
      cases opens
    rw [if_neg unused] at opens
    by_cases two : value < 0xE0
    · rw [if_pos two] at opens
      exact .inr (.inl ⟨value - 0xC0, by omega, by omega, by omega, Option.some.inj opens⟩)
    rw [if_neg two] at opens
    by_cases least : value = 0xE0
    · rw [if_pos least] at opens
      exact .inr (.inr (.inl ⟨0, by omega, least, Option.some.inj opens⟩))
    rw [if_neg least] at opens
    by_cases surrogates : value = 0xED
    · rw [if_pos surrogates] at opens
      exact .inr (.inr (.inl ⟨0xD, by omega, surrogates, Option.some.inj opens⟩))
    rw [if_neg surrogates] at opens
    by_cases three : value < 0xF0
    · rw [if_pos three] at opens
      refine .inr (.inr (.inl ⟨value - 0xE0, by omega, by omega, ?_⟩))
      rw [if_neg (by omega), if_neg (by omega)]
      exact Option.some.inj opens
    rw [if_neg three] at opens
    by_cases long : value = 0xF0
    · rw [if_pos long] at opens
      exact .inr (.inr (.inr ⟨0, by omega, long, Option.some.inj opens⟩))
    rw [if_neg long] at opens
    by_cases four : value < 0xF4
    · rw [if_pos four] at opens
      refine .inr (.inr (.inr ⟨value - 0xF0, by omega, by omega, ?_⟩))
      rw [if_neg (by omega), if_neg (by omega)]
      exact Option.some.inj opens
    rw [if_neg four] at opens
    by_cases most : value = 0xF4
    · rw [if_pos most] at opens
      exact .inr (.inr (.inr ⟨4, by omega, most, Option.some.inj opens⟩))
    · rw [if_neg most] at opens
      cases opens
  · rintro (⟨one, rfl⟩ | ⟨bits, low, high, rfl, rfl⟩ | ⟨bits, high, rfl, rfl⟩ |
      ⟨bits, high, rfl, rfl⟩)
    · rw [if_pos one]
    · rw [if_neg (by omega), if_neg (by omega), if_pos (by omega), Nat.add_sub_cancel_left]
    · rw [if_neg (by omega), if_neg (by omega), if_neg (by omega)]
      by_cases least : bits = 0
      · subst least
        rfl
      by_cases surrogates : bits = 0xD
      · subst surrogates
        rfl
      rw [if_neg (by omega), if_neg (by omega), if_pos (by omega), if_neg least, if_neg surrogates,
        Nat.add_sub_cancel_left]
      rfl
    · interval_cases bits <;> rfl

theorem follow_nil_iff {bits point : Nat} {bytes remaining : List UInt8} :
    follow bits [] bytes = (some point, remaining) ↔ bits = point ∧ bytes = remaining := by
  simp [follow]

/-- A byte that is to follow lies in its range and adds six bits. -/
theorem follow_cons_iff {bits point : Nat} {range : Continuation} {ranges : List Continuation}
    {bytes remaining : List UInt8} :
    follow bits (range :: ranges) bytes = (some point, remaining) ↔
      ∃ byte rest, bytes = byte :: rest ∧ (range.low ≤ byte.toNat ∧ byte.toNat ≤ range.high) ∧
        follow (bits * 64 + (byte.toNat - 0x80)) ranges rest = (some point, remaining) := by
  cases bytes with
  | nil => simp [follow]
  | cons byte rest =>
      have accepts : range.accepts byte = true ↔
          range.low ≤ byte.toNat ∧ byte.toNat ≤ range.high := by
        simp [Continuation.accepts]
      rw [follow]
      split
      next within =>
        constructor
        · exact fun reads => ⟨byte, rest, rfl, accepts.mp within, reads⟩
        · rintro ⟨_, _, ⟨⟩, _, reads⟩
          exact reads
      next outside =>
        constructor
        · intro reads
          cases reads
        · rintro ⟨_, _, ⟨⟩, within, _⟩
          exact (outside (accepts.mpr within)).elim

/-- The bytes after a lead byte have six bits each; the range of the second one may be narrower. -/
theorem follow_any_iff {bits point : Nat} {ranges : List Continuation}
    {bytes remaining : List UInt8} :
    follow bits (.any :: ranges) bytes = (some point, remaining) ↔
      ∃ byte rest, bytes = byte :: rest ∧ (0x80 ≤ byte.toNat ∧ byte.toNat ≤ 0xBF) ∧
        follow (bits * 64 + (byte.toNat - 0x80)) ranges rest = (some point, remaining) :=
  follow_cons_iff

/-- Bytes that follow as the first one asks encode a character. -/
private theorem encodes_of_follow {byte : UInt8} {bytes remaining : List UInt8} {lead : Lead}
    {point : Nat} (opens : lead? byte = some lead)
    (follows : follow lead.bits lead.following bytes = (some point, remaining)) :
    point.isValidChar ∧ byte :: bytes = encodePoint point ++ remaining := by
  unfold Nat.isValidChar
  rcases lead?_eq_some_iff.mp opens with
    ⟨one, rfl⟩ | ⟨bits, least, most, own, rfl⟩ | ⟨bits, most, own, rfl⟩ | ⟨bits, most, own, rfl⟩ <;>
    dsimp only at follows
  · obtain ⟨rfl, rfl⟩ := follow_nil_iff.mp follows
    exact ⟨by omega, by rw [encodePoint_one one, List.singleton_append]⟩
  · obtain ⟨second, rest, rfl, range, follows⟩ := follow_any_iff.mp follows
    obtain ⟨rfl, rfl⟩ := follow_nil_iff.mp follows
    have final : second.toNat = 0x80 + (second.toNat - 0x80) := by omega
    refine ⟨by omega, ?_⟩
    rw [encodePoint_two least most (by omega) own final]
    rfl
  · obtain ⟨second, _, rfl, narrow, follows⟩ := follow_cons_iff.mp follows
    obtain ⟨third, rest, rfl, range, follows⟩ := follow_any_iff.mp follows
    obtain ⟨rfl, rfl⟩ := follow_nil_iff.mp follows
    dsimp only at narrow
    -- the range of the second byte excludes longer forms of shorter sequences, and surrogates
    obtain ⟨wide, long, scalar⟩ : (0x80 ≤ second.toNat ∧ second.toNat ≤ 0xBF) ∧
        0x20 ≤ bits * 64 + (second.toNat - 0x80) ∧
          (bits * 64 + (second.toNat - 0x80) < 0x360 ∨
            0x37F < bits * 64 + (second.toNat - 0x80)) := by
      split_ifs at narrow <;> omega
    have next : second.toNat = 0x80 + (second.toNat - 0x80) := by omega
    have final : third.toNat = 0x80 + (third.toNat - 0x80) := by omega
    refine ⟨by omega, ?_⟩
    rw [encodePoint_three most (by omega) (by omega) long own next final]
    rfl
  · obtain ⟨second, _, rfl, narrow, follows⟩ := follow_cons_iff.mp follows
    obtain ⟨third, _, rfl, range, follows⟩ := follow_any_iff.mp follows
    obtain ⟨fourth, rest, rfl, range', follows⟩ := follow_any_iff.mp follows
    obtain ⟨rfl, rfl⟩ := follow_nil_iff.mp follows
    dsimp only at narrow
    obtain ⟨wide, long, scalar⟩ : (0x80 ≤ second.toNat ∧ second.toNat ≤ 0xBF) ∧
        0x10 ≤ bits * 64 + (second.toNat - 0x80) ∧
          bits * 64 + (second.toNat - 0x80) < 0x110 := by
      split_ifs at narrow <;> omega
    have next : second.toNat = 0x80 + (second.toNat - 0x80) := by omega
    have behind : third.toNat = 0x80 + (third.toNat - 0x80) := by omega
    have final : fourth.toNat = 0x80 + (fourth.toNat - 0x80) := by omega
    refine ⟨by omega, ?_⟩
    rw [encodePoint_four (by omega) (by omega) (by omega) (by omega) long own next behind final]
    rfl

/-- The bytes of a character follow as the first one asks. -/
private theorem exists_follow_of_encodes {byte : UInt8} {bytes remaining : List UInt8} {point : Nat}
    (valid : point.isValidChar) (encoded : byte :: bytes = encodePoint point ++ remaining) :
    ∃ lead, lead? byte = some lead ∧
      follow lead.bits lead.following bytes = (some point, remaining) := by
  unfold Nat.isValidChar at valid
  have units : ∀ number, ∃ bits unit, unit < 64 ∧ number = bits * 64 + unit := fun number =>
    ⟨number / 64, number % 64, by omega, by omega⟩
  have behind : ∀ {unit : Nat}, unit < 64 → (UInt8.ofNat (0x80 + unit)).toNat = 0x80 + unit :=
    fun small => toNat_ofNat _ (by omega)
  by_cases one : point < 0x80
  · have own := toNat_ofNat point (by omega)
    rw [encodePoint, if_pos (by omega)] at encoded
    obtain ⟨rfl, rfl⟩ := List.cons.inj encoded
    refine ⟨_, lead?_eq_some_iff.mpr (.inl ⟨by omega, rfl⟩), ?_⟩
    rw [own]
    rfl
  obtain ⟨bits, last, small, rfl⟩ := units point
  have final := behind small
  by_cases two : bits < 32
  · have own := toNat_ofNat (0xC0 + bits) (by omega)
    rw [encodePoint_two (by omega) two small own final] at encoded
    obtain ⟨rfl, rfl⟩ := List.cons.inj encoded
    refine ⟨_, lead?_eq_some_iff.mpr (.inr (.inl ⟨bits, by omega, two, own, rfl⟩)), ?_⟩
    refine follow_any_iff.mpr ⟨_, _, rfl, by omega, ?_⟩
    exact follow_nil_iff.mpr ⟨by dsimp only; omega, rfl⟩
  obtain ⟨bits, unit, small', rfl⟩ := units bits
  have next := behind small'
  by_cases three : bits < 16
  · have own := toNat_ofNat (0xE0 + bits) (by omega)
    rw [encodePoint_three three small' small (by omega) own next final] at encoded
    obtain ⟨rfl, rfl⟩ := List.cons.inj encoded
    refine ⟨_, lead?_eq_some_iff.mpr (.inr (.inr (.inl ⟨bits, three, own, rfl⟩))), ?_⟩
    refine follow_cons_iff.mpr ⟨_, _, rfl, ?_, follow_any_iff.mpr ⟨_, _, rfl, by omega, ?_⟩⟩
    · dsimp only
      split_ifs <;> omega
    · exact follow_nil_iff.mpr ⟨by dsimp only; omega, rfl⟩
  obtain ⟨bits, second, small'', rfl⟩ := units bits
  have own := toNat_ofNat (0xF0 + bits) (by omega)
  rw [encodePoint_four (by omega) small'' small' small (by omega) own (behind small'') next final]
    at encoded
  obtain ⟨rfl, rfl⟩ := List.cons.inj encoded
  have early := behind small''
  refine ⟨_, lead?_eq_some_iff.mpr (.inr (.inr (.inr ⟨bits, by omega, own, rfl⟩))), ?_⟩
  refine follow_cons_iff.mpr ⟨_, _, rfl, ?_, follow_any_iff.mpr ⟨_, _, rfl, by omega,
    follow_any_iff.mpr ⟨_, _, rfl, by omega, ?_⟩⟩⟩
  · dsimp only
    split_ifs <;> omega
  · exact follow_nil_iff.mpr ⟨by dsimp only; omega, rfl⟩

/-- A character is read from bytes that begin with its encoding, and from no others. -/
theorem first_eq_some_iff {byte : UInt8} {bytes remaining : List UInt8} {character : Char} :
    first byte bytes = (some character, remaining) ↔
      byte :: bytes = String.utf8EncodeChar character ++ remaining := by
  rw [utf8EncodeChar_eq]
  constructor
  · intro reads
    unfold first at reads
    split at reads
    next => cases reads
    next lead opens =>
      obtain ⟨read, rest⟩ := Prod.mk.inj reads
      obtain ⟨point, found, rfl⟩ := Option.map_eq_some_iff.mp read
      obtain ⟨valid, encoded⟩ := encodes_of_follow opens (Prod.ext found rest)
      have same : (Char.ofNat point).toNat = point := by rw [Char.ofNat, dif_pos valid]; rfl
      rw [same]
      exact encoded
  · intro encoded
    obtain ⟨lead, opens, follows⟩ := exists_follow_of_encodes character.valid encoded
    simp only [first, opens, follows, Option.map_some]
    exact congrArg (some · , remaining) (Char.ofNat_toNat character)

/-! ## Decoding -/

theorem encode_cons (character : Char) (text : Text) :
    encode (character :: text) = String.utf8EncodeChar character ++ encode text :=
  List.flatMap_cons

/-- The bytes of a character are read as that character, whatever stands behind them. -/
theorem exists_first (character : Char) (remaining : List UInt8) :
    ∃ byte bytes, String.utf8EncodeChar character ++ remaining = byte :: bytes ∧
      first byte bytes = (some character, remaining) := by
  cases same : String.utf8EncodeChar character ++ remaining with
  | nil =>
      have noBytes := congrArg List.length same
      rw [List.length_append, String.length_utf8EncodeChar] at noBytes
      have := character.utf8Size_pos
      simp only [List.length_nil] at noBytes
      omega
  | cons byte bytes => exact ⟨byte, bytes, rfl, first_eq_some_iff.mpr same.symm⟩

/-- The first character of an encoded text is read. -/
private theorem exists_encode_cons (character : Char) (text : Text) :
    ∃ byte bytes, encode (character :: text) = byte :: bytes ∧
      first byte bytes = (some character, encode text) := by
  rw [encode_cons]
  exact exists_first character (encode text)

/-- Decoding succeeds exactly on bytes that encode a text. -/
private theorem decodeOnto_eq_ok_iff {decoded text : Text} {offset : Nat} {bytes : List UInt8} :
    decodeOnto decoded offset bytes = .ok text ↔
      ∃ rest, bytes = encode rest ∧ decoded.reverse ++ rest = text := by
  constructor
  · intro decodes
    fun_induction decodeOnto decoded offset bytes with
    | case1 decoded offset =>
        cases decodes
        exact ⟨[], rfl, List.append_nil _⟩
    | case2 decoded offset byte bytes character remaining reads ih =>
        obtain ⟨rest, rfl, rfl⟩ := ih decodes
        refine ⟨character :: rest, ?_, by simp⟩
        rw [encode_cons, first_eq_some_iff.mp reads]
    | case3 => cases decodes
  · rintro ⟨rest, rfl, rfl⟩
    induction rest generalizing decoded offset with
    | nil => rw [encode_nil, decodeOnto, List.append_nil]
    | cons character rest ih =>
        obtain ⟨byte, bytes, same, reads⟩ := exists_encode_cons character rest
        have behind := @ih (character :: decoded) (offset + character.utf8Size)
        rw [List.reverse_cons, List.append_assoc, List.singleton_append] at behind
        rw [same, decodeOnto, ← behind]
        split
        next reads' => rw [reads] at reads'; cases reads'; rfl
        next reads' => rw [reads] at reads'; cases reads'

/-- Strict decoding accepts the encodings of texts and nothing else. -/
theorem decode_eq_ok_iff {bytes : List UInt8} {text : Text} :
    decode bytes = .ok text ↔ bytes = encode text := by
  rw [decode, decodeOnto_eq_ok_iff]
  simp

/-- Decoding undoes encoding. -/
theorem decode_encode (text : Text) : decode (encode text) = .ok text :=
  decode_eq_ok_iff.mpr rfl

/-- No two texts have the same bytes. -/
theorem encode_injective : Function.Injective encode := by
  intro text other same
  have both := decode_encode text
  rw [same, decode_encode] at both
  exact (Except.ok.inj both).symm

/-- Decoding leniently goes on with an encoded text as it is. -/
private theorem decodeLossyOnto_encode (decoded text : Text) :
    decodeLossyOnto decoded (encode text) = decoded.reverse ++ text := by
  induction text generalizing decoded with
  | nil => rw [encode_nil, decodeLossyOnto, List.append_nil]
  | cons character text ih =>
      obtain ⟨byte, bytes, same, reads⟩ := exists_encode_cons character text
      rw [same, decodeLossyOnto, reads]
      exact (ih _).trans (by simp)

/-- Where nothing has to be replaced, lenient decoding is strict decoding. -/
theorem decodeLossy_encode (text : Text) : decodeLossy (encode text) = text :=
  decodeLossyOnto_encode [] text

/-! ## Faults -/

/-- Bytes that encode a text. -/
def WellFormed (bytes : List UInt8) : Prop :=
  ∃ text, encode text = bytes

/-- A fault lies directly behind the longest well-formed part at the start of some bytes. -/
structure Fault.Ends (fault : Fault) (bytes : List UInt8) : Prop where
  byte : bytes[fault.offset]? = some fault.byte
  before : WellFormed (bytes.take fault.offset)
  longest : ∀ size ≤ bytes.length, WellFormed (bytes.take size) → size ≤ fault.offset

/-- Decoding fails behind an encoded text, at a byte that begins no character. -/
private theorem exists_of_decodeOnto {decoded : Text} {offset : Nat} {bytes : List UInt8}
    {fault : Fault} (fails : decodeOnto decoded offset bytes = .error fault) :
    ∃ text byte rest, bytes = encode text ++ byte :: rest ∧
      fault = ⟨offset + length text, byte⟩ ∧ (first byte rest).1 = none := by
  fun_induction decodeOnto decoded offset bytes with
  | case1 => cases fails
  | case2 decoded offset first bytes character remaining reads ih =>
      obtain ⟨text, byte, rest, rfl, rfl, unread⟩ := ih fails
      refine ⟨character :: text, byte, rest, ?_, ?_, unread⟩
      · rw [encode_cons, List.append_assoc, first_eq_some_iff.mp reads]
      · rw [length_cons, Nat.add_assoc]
  | case3 decoded offset byte bytes _ unread =>
      cases fails
      exact ⟨[], byte, bytes, rfl, rfl, congrArg Prod.fst unread⟩

/-- No text goes on in bytes from which no character can be read. -/
private theorem length_le_of_unread {byte : UInt8} {rest behind : List UInt8}
    (unread : (first byte rest).1 = none) {text other : Text}
    (same : encode other ++ behind = encode text ++ byte :: rest) :
    length other ≤ length text := by
  induction other generalizing text with
  | nil => exact Nat.zero_le _
  | cons character other ih =>
      rw [encode_cons, List.append_assoc] at same
      obtain ⟨lead, bytes, whole, reads⟩ := exists_first character (encode other ++ behind)
      cases text with
      | nil =>
          have opens : lead :: bytes = byte :: rest := whole.symm.trans same
          cases opens
          rw [reads] at unread
          cases unread
      | cons own text =>
          rw [encode_cons, List.append_assoc] at same
          have again := first_eq_some_iff.mpr (whole.symm.trans same)
          rw [reads] at again
          obtain ⟨alike, further⟩ := Prod.mk.inj again
          cases alike
          rw [length_cons, length_cons]
          exact Nat.add_le_add_left (ih further) _

/-- Strict decoding fails behind the longest well-formed part. -/
theorem ends_of_decode {bytes : List UInt8} {fault : Fault}
    (fails : decode bytes = .error fault) : fault.Ends bytes := by
  obtain ⟨text, byte, rest, rfl, rfl, unread⟩ := exists_of_decodeOnto fails
  have place : 0 + length text = (encode text).length := by rw [Nat.zero_add, length_encode]
  refine ⟨?_, ⟨text, ?_⟩, ?_⟩
  · rw [place, List.getElem?_append_right (Nat.le_refl _), Nat.sub_self, List.getElem?_cons_zero]
  · rw [place, List.take_left]
  · intro size within wellFormed
    obtain ⟨other, same⟩ := wellFormed
    have whole : encode other ++ (encode text ++ byte :: rest).drop size =
        encode text ++ byte :: rest := by
      rw [same, List.take_append_drop]
    calc
      size = length other := by rw [← length_encode, same, List.length_take_of_le within]
      _ ≤ length text := length_le_of_unread unread whole
      _ = 0 + length text := (Nat.zero_add _).symm

/-! ## Carriage returns -/

/-- Whether every carriage return among some bytes stands directly before a line feed. -/
def returnsPaired : List UInt8 → Bool
  | [] => true
  | byte :: rest => (byte != 0x0D || rest.head? == some 0x0A) && returnsPaired rest

/-- What ends bytes in which line feeds follow carriage returns is such bytes too. -/
private theorem returnsPaired_of_append {before bytes : List UInt8}
    (paired : returnsPaired (before ++ bytes) = true) : returnsPaired bytes = true := by
  induction before with
  | nil => exact paired
  | cons byte rest ih =>
      rw [List.cons_append, returnsPaired, Bool.and_eq_true] at paired
      exact ih paired.2

/-- Only a line feed is encoded as one. -/
private theorem head?_of_head?_encode {text : Text} (feed : (encode text).head? = some 0x0A) :
    text.head? = some '\n' := by
  cases text with
  | nil => cases feed
  | cons character rest =>
      obtain ⟨byte, bytes, same, reads⟩ := exists_encode_cons character rest
      rw [same] at feed
      obtain rfl : byte = 0x0A := Option.some.inj feed
      have newline : first 0x0A bytes = (some '\n', bytes) := first_eq_some_iff.mpr rfl
      rw [newline] at reads
      exact (Prod.mk.inj reads).1.symm

/-- Carriage returns that are paired among the bytes of a text are paired in the text. -/
theorem returnsPaired_of_encode {text : Text} (paired : returnsPaired (encode text) = true) :
    text.returnsPaired = true := by
  induction text with
  | nil => rfl
  | cons character rest ih =>
      rw [encode_cons] at paired
      rw [Text.returnsPaired, Bool.and_eq_true]
      refine ⟨?_, ih (returnsPaired_of_append paired)⟩
      by_cases carriage : character = '\r'
      · have single : String.utf8EncodeChar '\r' = [0x0D] := rfl
        rw [carriage, single, List.singleton_append, returnsPaired, Bool.and_eq_true] at paired
        have feed : (encode rest).head? = some 0x0A := by simpa using paired.1
        simp [head?_of_head?_encode feed]
      · simp [carriage]

end YangFormatter.Utf8

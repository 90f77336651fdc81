/-!
# Failures of encoding and decoding

The causes for which an encoding session or a decoding cursor stops, with the identifier and the
text of each.
-/

set_option autoImplicit false
set_option relaxedAutoImplicit false

namespace Cose.Cbor

/-- Why an encoding session failed. -/
inductive EncodeError where
  /-- The output region is too small for the encoding. -/
  | bufferTooSmall
  /-- The encoding would be longer than the longest allowed. -/
  | bufferTooLarge
  /-- Too many levels are open at once. -/
  | nestingTooDeep
  /-- A close with nothing open. -/
  | tooManyCloses
  /-- A close of another kind than the innermost open item. -/
  | closeMismatch
  /-- The session was finished with items still open. -/
  | stillOpen
  /-- Too many items in one container. -/
  | arrayTooLong
  /-- A map was closed after a label that has no value. -/
  | incompleteMapPair
  /-- Two entries of a map have the same encoded label. -/
  | duplicateLabel
  /-- The rules of the session forbid the construct. -/
  | notAllowed
  /-- The encoder cannot produce the construct. -/
  | unsupported
  /-- Bytes were asked of a session that only computes a size. -/
  | noOutputBuffer
deriving DecidableEq, Repr

/-- The causes of encoding failures. -/
def EncodeError.all : List EncodeError :=
  [.bufferTooSmall, .bufferTooLarge, .nestingTooDeep, .tooManyCloses, .closeMismatch, .stillOpen,
   .arrayTooLong, .incompleteMapPair, .duplicateLabel, .notAllowed, .unsupported, .noOutputBuffer]

/-- The identifier of an encoding failure. -/
def EncodeError.name : EncodeError → String
  | bufferTooSmall => "BufferTooSmall"
  | bufferTooLarge => "BufferTooLarge"
  | nestingTooDeep => "NestingTooDeep"
  | tooManyCloses => "TooManyCloses"
  | closeMismatch => "CloseMismatch"
  | stillOpen => "ArrayOrMapStillOpen"
  | arrayTooLong => "ArrayTooLong"
  | incompleteMapPair => "IncompleteMapPair"
  | duplicateLabel => "DuplicateLabel"
  | notAllowed => "NotAllowed"
  | unsupported => "Unsupported"
  | noOutputBuffer => "NoOutputBuffer"

/-- The cause with an identifier. -/
def EncodeError.ofName? (name : String) : Option EncodeError := all.find? fun cause ↦ cause.name == name

theorem EncodeError.mem_all (cause : EncodeError) : cause ∈ all := by cases cause <;> decide

@[simp]
theorem EncodeError.ofName?_name (cause : EncodeError) : ofName? cause.name = some cause := by
  cases cause <;> rfl

/-- The text of an encoding failure. -/
def EncodeError.message : EncodeError → String
  | bufferTooSmall => "output buffer too small"
  | bufferTooLarge => "encoded output too large"
  | nestingTooDeep => "nesting too deep"
  | tooManyCloses => "close without matching open"
  | closeMismatch => "close does not match open item"
  | stillOpen => "array or map still open"
  | arrayTooLong => "too many items in array or map"
  | incompleteMapPair => "map label without value"
  | duplicateLabel => "duplicate map label"
  | notAllowed => "construct not allowed by encoding mode"
  | unsupported => "unsupported construct"
  | noOutputBuffer => "no output buffer"

/-- Why decoding failed. -/
inductive DecodeError where
  /-- The input is not well-formed. -/
  | notWellFormed
  /-- The input ends in the middle of an item. -/
  | hitEnd
  /-- An item is of another type than required. -/
  | unexpectedType
  /-- Too many levels of arrays and maps. -/
  | nestingTooDeep
  /-- An array or map announces too many entries. -/
  | arrayTooLong
  /-- An item has too many tags. -/
  | tooManyTags
  /-- A text string is not valid UTF-8. -/
  | invalidUtf8
  /-- A byte or text string of indefinite length. -/
  | indefiniteString
  /-- Data is left over after the last item. -/
  | extraBytes
  /-- Decoding was finished inside an array or map. -/
  | unconsumed
  /-- No items are left. -/
  | noMoreItems
  /-- An integer does not fit the requested type. -/
  | integerOverflow
deriving DecidableEq, Repr

/-- The causes of decoding failures. -/
def DecodeError.all : List DecodeError :=
  [.notWellFormed, .hitEnd, .unexpectedType, .nestingTooDeep, .arrayTooLong, .tooManyTags,
   .invalidUtf8, .indefiniteString, .extraBytes, .unconsumed, .noMoreItems, .integerOverflow]

/-- The identifier of a decoding failure. -/
def DecodeError.name : DecodeError → String
  | notWellFormed => "NotWellFormed"
  | hitEnd => "HitEnd"
  | unexpectedType => "UnexpectedType"
  | nestingTooDeep => "NestingTooDeep"
  | arrayTooLong => "ArrayTooLong"
  | tooManyTags => "TooManyTags"
  | invalidUtf8 => "InvalidUtf8"
  | indefiniteString => "IndefiniteStringUnsupported"
  | extraBytes => "ExtraBytes"
  | unconsumed => "ArrayOrMapUnconsumed"
  | noMoreItems => "NoMoreItems"
  | integerOverflow => "IntegerOverflow"

/-- The cause with an identifier. -/
def DecodeError.ofName? (name : String) : Option DecodeError := all.find? fun cause ↦ cause.name == name

theorem DecodeError.mem_all (cause : DecodeError) : cause ∈ all := by cases cause <;> decide

@[simp]
theorem DecodeError.ofName?_name (cause : DecodeError) : ofName? cause.name = some cause := by
  cases cause <;> rfl

/-- The text of a decoding failure. -/
def DecodeError.message : DecodeError → String
  | notWellFormed => "not well-formed CBOR"
  | hitEnd => "unexpected end of input"
  | unexpectedType => "unexpected item type"
  | nestingTooDeep => "nesting too deep"
  | arrayTooLong => "array or map too long"
  | tooManyTags => "too many tags on item"
  | invalidUtf8 => "invalid UTF-8 in text string"
  | indefiniteString => "indefinite-length string"
  | extraBytes => "extra bytes after data item"
  | unconsumed => "array or map not fully consumed"
  | noMoreItems => "no more items"
  | integerOverflow => "integer out of range"

end Cose.Cbor

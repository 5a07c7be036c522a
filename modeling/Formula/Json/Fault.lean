/-!
# Faults of JSON text

What can be wrong with a JSON text, and how it is reported.
-/

namespace Formula.Json

inductive Fault where
  | expectedValue
  | expectedWord
  | expectedColon
  | expectedListEnd
  | expectedObjectEnd
  | keyMustBeText
  | trailingComma
  | trailingCharacters
  | invalidNumber
  | numberOutOfRange
  | tooDeep
  | controlCharacter
  | invalidEscape
  | loneSurrogate
  | halfSurrogatePair
  | endOfValue
  | endOfList
  | endOfObject
  | endOfText
  deriving DecidableEq, Repr

namespace Fault

def message : Fault → String
  | expectedValue => "expected value"
  | expectedWord => "expected ident"
  | expectedColon => "expected `:`"
  | expectedListEnd => "expected `,` or `]`"
  | expectedObjectEnd => "expected `,` or `\x7d`"
  | keyMustBeText => "key must be a string"
  | trailingComma => "trailing comma"
  | trailingCharacters => "trailing characters"
  | invalidNumber => "invalid number"
  | numberOutOfRange => "number out of range"
  | tooDeep => "recursion limit exceeded"
  | controlCharacter => "control character (\\u0000-\\u001F) found while parsing a string"
  | invalidEscape => "invalid escape"
  | loneSurrogate => "lone leading surrogate in hex escape"
  | halfSurrogatePair => "unexpected end of hex escape"
  | endOfValue => "EOF while parsing a value"
  | endOfList => "EOF while parsing a list"
  | endOfObject => "EOF while parsing an object"
  | endOfText => "EOF while parsing a string"

/-- Whether the text ends too early, so that more text could mend it. -/
def isEnd : Fault → Bool
  | endOfValue | endOfList | endOfObject | endOfText => true
  | _ => false

end Fault

end Formula.Json

import Formula.Json.Fault
import Formula.Text.Position

/-!
# Quoted texts

JSON's written form of a text. `quote` escapes what has to be escaped and writes everything else as
it is. `decode` reads such a form, and where it has to stop it says how many bytes it had consumed.
-/

namespace Formula.Json

/-- How a character is written between the quotes. -/
def encodeChar (c : Char) : List Char :=
  match c with
  | '"' => ['\\', '"']
  | '\\' => ['\\', '\\']
  | '\x08' => ['\\', 'b']
  | '\t' => ['\\', 't']
  | '\n' => ['\\', 'n']
  | '\x0c' => ['\\', 'f']
  | '\r' => ['\\', 'r']
  | c =>
    if c.toNat < 0x20 then
      ['\\', 'u', '0', '0', Nat.digitChar (c.toNat / 16), Nat.digitChar (c.toNat % 16)]
    else [c]

/-- The quoted form of a text. -/
def quoteChars (cs : List Char) : List Char := '"' :: cs.flatMap encodeChar ++ ['"']

def quote (s : String) : String := String.ofList (quoteChars s.toList)

/-- Why decoding stopped, and how many bytes it had consumed, an offending one included. -/
structure Stop where
  fault : Fault
  consumed : Nat
  deriving DecidableEq, Repr

/-- The same stop, seen from `count` bytes further left. -/
def Stop.after (stop : Stop) (count : Nat) : Stop :=
  { stop with consumed := count + stop.consumed }

/-- The character that a one-letter escape stands for. -/
def shortEscape? : Char → Option Char
  | '"' => some '"'
  | '\\' => some '\\'
  | '/' => some '/'
  | 'b' => some '\x08'
  | 'f' => some '\x0c'
  | 'n' => some '\n'
  | 'r' => some '\r'
  | 't' => some '\t'
  | _ => none

def hexDigit? (c : Char) : Option Nat :=
  if '0' ≤ c ∧ c ≤ '9' then some (c.toNat - '0'.toNat)
  else if 'a' ≤ c ∧ c ≤ 'f' then some (c.toNat - 'a'.toNat + 10)
  else if 'A' ≤ c ∧ c ≤ 'F' then some (c.toNat - 'A'.toNat + 10)
  else none

def hexDigits? : List Char → Option Nat
  | [a, b, c, d] => do
    return ((← hexDigit? a) * 16 + (← hexDigit? b)) * 256 + (← hexDigit? c) * 16 + (← hexDigit? d)
  | _ => none

/-- The UTF-16 unit that the next four bytes spell. -/
def hexUnit (cs : List Char) : Except Stop Nat :=
  match hexDigits? (cs.take 4) with
  | some n => .ok n
  | none =>
    if Text.byteLength cs < 4 then .error ⟨.endOfText, Text.byteLength cs⟩
    else .error ⟨.invalidEscape, 4⟩

def isHighSurrogate (n : Nat) : Bool := 0xd800 ≤ n && n ≤ 0xdbff

def isLowSurrogate (n : Nat) : Bool := 0xdc00 ≤ n && n ≤ 0xdfff

/-- The low surrogate that has to be written right after a high one. -/
def lowSurrogate : List Char → Except Stop Nat
  | [] => .error ⟨.endOfText, 0⟩
  | ['\\'] => .error ⟨.endOfText, 1⟩
  | '\\' :: 'u' :: cs =>
    match hexUnit cs with
    | .error stop => .error (stop.after 2)
    | .ok n => if isLowSurrogate n then .ok n else .error ⟨.loneSurrogate, 6⟩
  | '\\' :: _ => .error ⟨.halfSurrogatePair, 2⟩
  | _ => .error ⟨.halfSurrogatePair, 1⟩

/-- The character of an escape, whose backslash has been read, and the number of its characters.
They are all ASCII, so this is also the number of bytes. -/
def escape : List Char → Except Stop (Char × Nat)
  | [] => .error ⟨.endOfText, 0⟩
  | 'u' :: cs =>
    match hexUnit cs with
    | .error stop => .error (stop.after 1)
    | .ok n =>
      if isLowSurrogate n then .error ⟨.loneSurrogate, 5⟩
      else if isHighSurrogate n then
        match lowSurrogate (cs.drop 4) with
        | .error stop => .error (stop.after 5)
        | .ok low => .ok (Char.ofNat (0x10000 + (n - 0xd800) * 0x400 + (low - 0xdc00)), 11)
      else .ok (Char.ofNat n, 5)
  | c :: _ =>
    match shortEscape? c with
    | some d => .ok (d, 1)
    | none => .error ⟨.invalidEscape, 1⟩

/-- The text whose opening quote has been read, and what follows its closing quote. -/
def decode : List Char → Except Stop (List Char × List Char)
  | [] => .error ⟨.endOfText, 0⟩
  | c :: cs =>
    if c = '"' then .ok ([], cs)
    else if c = '\\' then
      match escape cs with
      | .error stop => .error (stop.after 1)
      | .ok (d, count) =>
        match decode (cs.drop count) with
        | .error stop => .error (stop.after (1 + count))
        | .ok (text, rest) => .ok (d :: text, rest)
    else if c.toNat < 0x20 then .error ⟨.controlCharacter, 1⟩
    else
      match decode cs with
      | .error stop => .error (stop.after c.utf8Size)
      | .ok (text, rest) => .ok (c :: text, rest)
termination_by cs => cs.length
decreasing_by all_goals (simp only [List.length_drop, List.length_cons]; omega)

/-- The text that is written as a quoted form and nothing else. -/
def unquote : List Char → Except Stop (List Char)
  | '"' :: cs =>
    match decode cs with
    | .error stop => .error (stop.after 1)
    | .ok (text, []) => .ok text
    | .ok (_, rest) =>
      .error ⟨.trailingCharacters, 1 + Text.byteLength cs - Text.byteLength rest + 1⟩
  | _ => .error ⟨.expectedValue, 1⟩

end Formula.Json

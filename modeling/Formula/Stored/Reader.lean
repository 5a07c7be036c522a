import Formula.Expression
import Formula.Json.Reader
import Formula.Stored.Fault

/-!
# Reading stored formulas

Readers for the stored forms of values, kinds of tokens, tokens and expressions. A text is read from
left to right and its first fault is reported, so a token of the wrong form is found before a fault
in the tokens after it. Records may also be written as lists of their fields, and fields that nobody
knows are skipped.
-/

namespace Formula

mutual

/-- The value that a JSON value stands for. There is none for an object. -/
def Value.ofJson? : Json → Option Value
  | .null => some .empty
  | .bool b => some (.bool b)
  | .number n => some (.number n.toFloat)
  | .text s => some (.text s)
  | .array xs => (Value.ofJsonAll? xs).map .list
  | .object _ => none

def Value.ofJsonAll? : List Json → Option (List Value)
  | [] => some []
  | x :: xs =>
    match Value.ofJson? x, Value.ofJsonAll? xs with
    | some v, some vs => some (v :: vs)
    | _, _ => none

end

/-- The token of a kind with a payload. Signs are told by their kind alone, and arguments are
scalars. -/
def Token.ofPayload (kind : Token.Kind) (payload : Value) : Except Stored.Fault Token :=
  match kind, payload with
  | .number, .number x => .ok (.number x)
  | .text, .text s => .ok (.text s)
  | .bool, .bool b => .ok (.bool b)
  | .name, .text s => .ok (.name s)
  | .operator o, _ => .ok (.operator o)
  | .openParen, _ => .ok .openParen
  | .closeParen, _ => .ok .closeParen
  | .comma, _ => .ok .comma
  | .args, .list vs =>
    if vs.all Value.isScalar then .ok (.args vs) else .error (.wrongPayload .args .list)
  | kind, payload => .error (.wrongPayload kind payload.kind)

namespace Stored

open Json (Reader Rest skipSpace)

abbrev StoredReader (α : Type) := Reader Fault α

/-- The fault where something else is found than what is wanted. A value of one token is read to its
end first, and a fault in it comes before. -/
def mismatch (wanted : Wanted) (c : Char) (rest : List Char) : Fault :=
  let wrong (result : Except Json.Fault Found) : Fault :=
    match result with
    | .error fault => .json fault
    | .ok found => .wrongType found wanted
  if c = 'n' then wrong ((Json.expectWord "ull".toList rest).map fun _ => .null)
  else if c = 't' then wrong ((Json.expectWord "rue".toList rest).map fun _ => .bool true)
  else if c = 'f' then wrong ((Json.expectWord "alse".toList rest).map fun _ => .bool false)
  else if c = '-' then wrong ((Json.readNumber true rest).map fun (n, _) => .number n)
  else if c.isDigit then wrong ((Json.readNumber false (c :: rest)).map fun (n, _) => .number n)
  else if c = '"' then wrong ((Json.readText rest).map fun (s, _) => .text s)
  else if c = '[' then .wrongType .list wanted
  else if c = '\x7b' then .wrongType .object wanted
  else .json .expectedValue

def readValue (depth : Nat) : StoredReader Value := fun cs =>
  match Json.readNested depth cs with
  | .error fault => .error (.json fault)
  | .ok (x, rest) =>
    match Value.ofJson? x with
    | some v => .ok (v, rest)
    | none => .error .notValue

/-! ## Kinds -/

def kindOfWord (word : String) : Except Fault Token.Kind :=
  match Token.Kind.ofWord? word with
  | some k => .ok k
  | none => .error (.unknownKind word)

/-- The word of a kind as the name of the one field of an object. -/
def readTag : StoredReader Token.Kind := fun cs =>
  let other c := if c = '\x7d' then Json.Fault.expectedValue else .keyMustBeText
  match Json.readName .endOfObject other cs with
  | .error fault => .error (.json fault)
  | .ok (word, rest) => (kindOfWord word).map fun k => (k, rest)

def readNull : StoredReader Unit :=
  Reader.byFirst (.json .endOfValue) fun c rest =>
    if c = 'n' then
      match Json.expectWord "ull".toList rest with
      | .error fault => .error (.json fault)
      | .ok after => .ok ((), after)
    else .error (mismatch .null c rest)

/-- The closing brace of an object with one field. -/
def closeTag : StoredReader Unit :=
  Reader.byFirst (.json .endOfObject) fun c rest =>
    if c = '\x7d' then .ok ((), Rest.all rest) else .error (.json .expectedValue)

/-- A kind as the one field of an object, whose opening brace has been read; its value is null. -/
def readTaggedKind : StoredReader Token.Kind :=
  readTag.andThen fun k => (Json.readMember .json readNull).andThen fun () cs =>
    (closeTag cs).map fun ((), rest) => (k, rest)

/-- A kind: its word, or an object with the word as its only name. -/
def readKind (depth : Nat) : StoredReader Token.Kind :=
  Reader.byFirst (.json .endOfValue) fun c rest =>
    if c = '"' then
      match Json.readText rest with
      | .error fault => .error (.json fault)
      | .ok (word, after) => (kindOfWord word).map fun k => (k, after.succ)
    else if c = '\x7b' then
      match depth with
      | 0 => .error (.json .tooDeep)
      | _ + 1 => (readTaggedKind rest).map fun (k, after) => (k, after.succ)
    else .error (.json .expectedValue)

/-! ## Records -/

/-- A record: an object, or a list of the values of its fields. The readers for both begin after the
opening bracket. -/
def readRecord {α : Type} (wanted : Wanted) (depth : Nat) (ofList ofObject : Nat → StoredReader α) :
    StoredReader α :=
  Reader.byFirst (.json .endOfValue) fun c rest =>
    if c = '[' || c = '\x7b' then
      match depth with
      | 0 => .error (.json .tooDeep)
      | depth + 1 =>
        let result := if c = '[' then ofList depth rest else ofObject depth rest
        result.map fun (x, after) => (x, after.succ)
    else .error (mismatch wanted c rest)

/-- The next field of a record that is written as a list. -/
def readListed {α : Type} (isFirst : Bool) (missing : Fault) (value : StoredReader α) :
    StoredReader α := fun cs =>
  match Json.nextEntry isFirst cs with
  | .error fault => .error (.json fault)
  | .ok none => .error missing
  | .ok (some start) => (value start.1).map fun (x, after) => (x, start.beyond after)

/-- The end of a record that is written as a list. -/
def closeListed {α : Type} (x : α) : StoredReader α := fun cs =>
  match Json.closeList cs with
  | .error fault => .error (.json fault)
  | .ok ((), rest) => .ok (x, rest)

/-- A field that changes nothing in what has been read. -/
def skipMember {α : Type} (sofar : α) : StoredReader α := fun cs =>
  match Json.readColon cs with
  | .error fault => .error (.json fault)
  | .ok ((), start) =>
    match Json.skipValue start.1 with
    | .error fault => .error (.json fault)
    | .ok after => .ok (sofar, start.within after)

/-- A field that may occur once. -/
def readOnce {α β : Type} (name : String) (earlier : Option β) (value : StoredReader β)
    (set : β → α) : StoredReader α := fun cs =>
  if earlier.isSome then .error (.repeatedField name)
  else (Json.readMember .json value cs).map fun (x, rest) => (set x, rest)

/-- The field with a name, which has to be there. -/
def require {β : Type} (name : String) (field : Option β) : Except Fault β :=
  match field with
  | some x => .ok x
  | none => .error (.missingField name)

/-! ## Tokens -/

/-- The fields of a token that have been read. -/
structure TokenFields where
  kind? : Option Token.Kind
  payload? : Option Value

def TokenFields.finish (fields : TokenFields) : Except Fault (Token.Kind × Value) := do
  let k ← require "type" fields.kind?
  let v ← require "value" fields.payload?
  return (k, v)

def readListedToken (depth : Nat) : StoredReader (Token.Kind × Value) :=
  (readListed true (.tooShort 0 2 .token) (readKind depth)).andThen fun k =>
    (readListed false (.tooShort 1 2 .token) (readValue depth)).andThen fun v => closeListed (k, v)

def readTokenField (depth : Nat) (fields : TokenFields) (name : String) :
    StoredReader TokenFields :=
  if name = "type" then
    readOnce name fields.kind? (readKind depth) fun k => { fields with kind? := some k }
  else if name = "value" then
    readOnce name fields.payload? (readValue depth) fun v => { fields with payload? := some v }
  else skipMember fields

def readNamedToken (depth : Nat) : StoredReader (Token.Kind × Value) :=
  Json.readObject .json (readTokenField depth) ⟨none, none⟩ TokenFields.finish

def readToken (depth : Nat) : StoredReader Token := fun cs =>
  match readRecord .token depth readListedToken readNamedToken cs with
  | .error fault => .error fault
  | .ok ((k, v), rest) => (Token.ofPayload k v).map fun t => (t, rest)

/-! ## Expressions -/

def readTokens (depth : Nat) : StoredReader (List Token) :=
  Reader.byFirst (.json .endOfValue) fun c rest =>
    if c = '[' then
      match depth with
      | 0 => .error (.json .tooDeep)
      | depth + 1 =>
        (Json.readList .json (readToken depth) rest).map fun (ts, after) => (ts, after.succ)
    else .error (mismatch .list c rest)

def readListedTokens (depth : Nat) : StoredReader (List Token) :=
  (readListed true (.tooShort 0 1 .expression) (readTokens depth)).andThen closeListed

def readNamedTokens (depth : Nat) : StoredReader (List Token) :=
  let field (tokens? : Option (List Token)) (name : String) : StoredReader (Option (List Token)) :=
    if name = "tokens" then readOnce name tokens? (readTokens depth) some else skipMember tokens?
  Json.readObject .json field none (require "tokens")

/-- An expression is made of its tokens. Names that are stored with them are not read. -/
def readExpression (depth : Nat) : StoredReader Expression := fun cs =>
  (readRecord .expression depth readListedTokens readNamedTokens cs).map fun (tokens, rest) =>
    (Expression.ofTokens tokens, rest)

/-! ## Whole texts -/

/-- What a text is the stored form of; nothing but blanks may follow. -/
def load {α : Type} (reader : Nat → StoredReader α) (text : String) : Except Fault α :=
  match reader Json.maxDepth text.toList with
  | .error fault => .error fault
  | .ok (x, ⟨rest, _⟩) =>
    if (skipSpace rest).isEmpty then .ok x else .error (.json .trailingCharacters)

end Stored

/-- The expression that is stored in a text. -/
def Expression.load? (text : String) : Except Stored.Fault Expression :=
  Stored.load Stored.readExpression text

end Formula

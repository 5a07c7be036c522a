import Formula.Json.Basic

/-!
# Reading JSON text

A reader takes a value off the front of a text and returns what is left, with a proof that this is
shorter. That is all that is needed for loops over the entries of a list or an object to end.
Nesting is limited, and a reader of values is defined by recursion on the levels that it may still
open. `skip` passes over a value that nobody asks for; it checks less and has no limit.
-/

namespace Formula.Json

/-- What is left of a text: less than `n` characters. -/
abbrev Rest (n : Nat) := { cs : List Char // cs.length < n }

namespace Rest

/-- All of a text, as what is left of a text with one character more. -/
def all (cs : List Char) : Rest (cs.length + 1) := ⟨cs, Nat.lt_succ_self _⟩

/-- What comes after the first characters. -/
def drop (cs : List Char) (n : Nat) : Rest (cs.length + 1) :=
  ⟨cs.drop n, Nat.lt_succ_of_le (List.drop_suffix n cs).length_le⟩

/-- What is left of a text is also left of a text with one character more. -/
def succ {n : Nat} (rest : Rest n) : Rest (n + 1) := ⟨rest.1, Nat.lt_succ_of_lt rest.2⟩

/-- What is left of a text that is itself left of another. -/
def trans {n : Nat} (start : Rest n) (after : Rest start.1.length) : Rest n :=
  ⟨after.1, Nat.lt_trans after.2 start.2⟩

/-- What is left after something that may be empty. -/
def within {n : Nat} (start : Rest n) (after : Rest (start.1.length + 1)) : Rest n :=
  ⟨after.1, Nat.lt_of_le_of_lt (Nat.le_of_lt_succ after.2) start.2⟩

/-- What is left after something that is not empty. -/
def beyond {n : Nat} (start : Rest (n + 1)) (after : Rest start.1.length) : Rest n :=
  ⟨after.1, Nat.lt_of_lt_of_le after.2 (Nat.le_of_lt_succ start.2)⟩

/-- What is left after the first characters of a text and something that may be empty. -/
def past {m n : Nat} (h : m < n) (after : Rest (m + 1)) : Rest (n + 1) :=
  ⟨after.1, Nat.lt_trans after.2 (Nat.succ_lt_succ h)⟩

end Rest

/-- Takes a value off the front of a text. -/
abbrev Reader (ε α : Type) := (cs : List Char) → Except ε (α × Rest cs.length)

/-- The number of levels of lists and objects that a text may open. -/
def maxDepth : Nat := 127

def isSpace (c : Char) : Bool := c = ' ' || c = '\n' || c = '\t' || c = '\r'

def skipSpace (cs : List Char) : List Char := cs.dropWhile isSpace

theorem length_skipSpace_le (cs : List Char) : (skipSpace cs).length ≤ cs.length :=
  (List.dropWhile_suffix (l := cs) isSpace).length_le

theorem length_lt_of_skipSpace {cs rest : List Char} {c : Char} (h : skipSpace cs = c :: rest) :
    rest.length < cs.length := by
  have := length_skipSpace_le cs
  rw [h, List.length_cons] at this
  omega

namespace Reader

variable {ε α β : Type}

/-- Reads one thing after another. -/
def andThen (first : Reader ε α) (second : α → Reader ε β) : Reader ε β := fun cs =>
  match first cs with
  | .error e => .error e
  | .ok (x, start) =>
    match second x start.1 with
    | .error e => .error e
    | .ok (y, after) => .ok (y, start.trans after)

/-- Reads on by the first character after blanks; `atEnd` is the error where there is none. -/
def byFirst (atEnd : ε)
    (next : Char → (rest : List Char) → Except ε (α × Rest (rest.length + 1))) : Reader ε α :=
  fun cs =>
    match h : skipSpace cs with
    | [] => .error atEnd
    | c :: rest =>
      match next c rest with
      | .error e => .error e
      | .ok (x, after) => .ok (x, Rest.within ⟨rest, length_lt_of_skipSpace h⟩ after)

end Reader

/-! ## Words, texts and numbers -/

/-- The rest of a word whose first letter has been read. -/
def expectWord : List Char → (cs : List Char) → Except Fault (Rest (cs.length + 1))
  | [], cs => .ok (Rest.all cs)
  | _ :: _, [] => .error .endOfValue
  | e :: word, c :: cs => if c = e then (expectWord word cs).map Rest.succ else .error .expectedWord

theorem decode_length {cs content rest : List Char} (h : decode cs = .ok (content, rest)) :
    rest.length < cs.length := by
  fun_induction decode cs generalizing content with
  | case1 => simp at h
  | case2 cs =>
    simp only [Except.ok.injEq, Prod.mk.injEq] at h
    obtain ⟨_, rfl⟩ := h
    simp
  | case3 => simp at h
  | case4 => simp at h
  | case5 cs _ d count _ text' rest' _ ih =>
    simp only [Except.ok.injEq, Prod.mk.injEq] at h
    obtain ⟨_, rfl⟩ := h
    have := ih (by assumption)
    simp only [List.length_drop, List.length_cons] at this ⊢
    omega
  | case6 => simp at h
  | case7 => simp at h
  | case8 c cs _ _ _ text' rest' _ ih =>
    simp only [Except.ok.injEq, Prod.mk.injEq] at h
    obtain ⟨_, rfl⟩ := h
    have := ih (by assumption)
    simp only [List.length_cons]
    omega

/-- The text whose opening quote has been read. -/
def readText : Reader Fault String := fun cs =>
  match h : decode cs with
  | .error stop => .error stop.fault
  | .ok (content, rest) => .ok (String.ofList content, ⟨rest, decode_length h⟩)

/-- A numeral whose sign has been read. -/
def readNumber (negative : Bool) : Reader Fault Number := fun cs =>
  match h : Numeral.scan .endOfValue cs with
  | .error fault => .error fault
  | .ok (numeral, rest) =>
    match numeral.value? negative with
    | none => .error .numberOutOfRange
    | some n => .ok (n, ⟨rest, Numeral.scan_length h⟩)

/-! ## Lists and objects -/

/-- Where the next entry of a list begins; none if the closing bracket comes next. -/
def nextEntry (isFirst : Bool) (cs : List Char) :
    Except Fault (Option (Rest (cs.length + 1))) :=
  match h : skipSpace cs with
  | [] => .error .endOfList
  | c :: rest =>
    if c = ']' then .ok none
    else if isFirst then .ok (some (Rest.all cs))
    else if c = ',' then
      match skipSpace rest with
      | [] => .error .endOfValue
      | c :: _ =>
        if c = ']' then .error .trailingComma
        else .ok (some (Rest.succ ⟨rest, length_lt_of_skipSpace h⟩))
    else .error .expectedListEnd

/-- The closing bracket of a list of which no more entries are wanted. -/
def closeList : Reader Fault Unit :=
  Reader.byFirst .endOfList fun c rest =>
    if c = ']' then .ok ((), Rest.all rest)
    else if c = ',' then
      match skipSpace rest with
      | ']' :: _ => .error .trailingComma
      | _ => .error .trailingCharacters
    else .error .trailingCharacters

/-- A name in quotes. `atEnd` is the fault where the text ends, and `other` where another character
comes first. -/
def readName (atEnd : Fault) (other : Char → Fault) : Reader Fault String :=
  Reader.byFirst atEnd fun c rest =>
    if c = '"' then (readText rest).map fun (name, after) => (name, after.succ)
    else .error (other c)

/-- The name of the next field of an object; none if the closing brace comes next. -/
def nextName (isFirst : Bool) (cs : List Char) : Except Fault (Option (String × Rest cs.length)) :=
  match h : skipSpace cs with
  | [] => .error .endOfObject
  | c :: rest =>
    if c = '\x7d' then .ok none
    else if isFirst then (readName .endOfObject (fun _ => .keyMustBeText) cs).map some
    else if c = ',' then
      let other c := if c = '\x7d' then Fault.trailingComma else .keyMustBeText
      (readName .endOfValue other rest).map fun (name, after) =>
        some (name, Rest.trans ⟨rest, length_lt_of_skipSpace h⟩ after)
    else .error .expectedObjectEnd

/-- The closing brace of an object. -/
def closeObject : Reader Fault Unit :=
  Reader.byFirst .endOfObject fun c rest =>
    if c = '\x7d' then .ok ((), Rest.all rest)
    else if c = ',' then .error .trailingComma
    else .error .trailingCharacters

/-- The colon after the name of a field. -/
def readColon : Reader Fault Unit :=
  Reader.byFirst .endOfObject fun c rest =>
    if c = ':' then .ok ((), Rest.all rest) else .error .expectedColon

section Loops

variable {ε α : Type} (lift : Fault → ε)

/-- All entries of a list whose opening bracket has been read, up to the closing one. -/
def readEntries (entry : Reader ε α) (isFirst : Bool) (cs : List Char) :
    Except ε (List α × Rest (cs.length + 1)) :=
  match nextEntry isFirst cs with
  | .error fault => .error (lift fault)
  | .ok none => .ok ([], Rest.all cs)
  | .ok (some start) =>
    match entry start.1 with
    | .error e => .error e
    | .ok (x, after) =>
      match readEntries entry false (start.beyond after).1 with
      | .error e => .error e
      | .ok (xs, rest) => .ok (x :: xs, ((start.beyond after).within rest).succ)
termination_by cs.length
decreasing_by exact (start.beyond after).2

/-- A list after its opening bracket. -/
def readList (entry : Reader ε α) : Reader ε (List α) := fun cs =>
  match readEntries lift entry true cs with
  | .error e => .error e
  | .ok (xs, after) =>
    match closeList after.1 with
    | .error fault => .error (lift fault)
    | .ok ((), rest) => .ok (xs, after.beyond rest)

/-- All fields of an object whose opening brace has been read, up to the closing one. What has been
read so far decides with the name of a field how the text after the name is read. -/
def readFields (field : α → String → Reader ε α) (sofar : α) (isFirst : Bool) (cs : List Char) :
    Except ε (α × Rest (cs.length + 1)) :=
  match nextName isFirst cs with
  | .error fault => .error (lift fault)
  | .ok none => .ok (sofar, Rest.all cs)
  | .ok (some (name, start)) =>
    match field sofar name start.1 with
    | .error e => .error e
    | .ok (x, after) =>
      match readFields field x false (start.trans after).1 with
      | .error e => .error e
      | .ok (y, rest) => .ok (y, ((start.trans after).within rest).succ)
termination_by cs.length
decreasing_by exact (start.trans after).2

/-- An object after its opening brace; `finish` makes the result of what its fields came to. -/
def readObject {β : Type} (field : α → String → Reader ε α) (start : α)
    (finish : α → Except ε β) : Reader ε β := fun cs =>
  match readFields lift field start true cs with
  | .error e => .error e
  | .ok (x, after) =>
    match finish x with
    | .error e => .error e
    | .ok y =>
      match closeObject after.1 with
      | .error fault => .error (lift fault)
      | .ok ((), rest) => .ok (y, after.beyond rest)

/-- A value of a field after its name. -/
def readMember (value : Reader ε α) : Reader ε α := fun cs =>
  match readColon cs with
  | .error fault => .error (lift fault)
  | .ok ((), start) =>
    match value start.1 with
    | .error e => .error e
    | .ok (x, after) => .ok (x, start.trans after)

end Loops

/-! ## Values -/

/-- A value; `nested` reads the values inside a list or an object, if one may be opened. -/
def readValue (nested : Option (Reader Fault Json)) : Reader Fault Json :=
  Reader.byFirst .endOfValue fun c rest =>
    if c = 'n' then (expectWord "ull".toList rest).map fun after => (null, after)
    else if c = 't' then (expectWord "rue".toList rest).map fun after => (bool true, after)
    else if c = 'f' then (expectWord "alse".toList rest).map fun after => (bool false, after)
    else if c = '-' then (readNumber true rest).map fun (n, after) => (number n, after.succ)
    else if c.isDigit then
      (readNumber false (c :: rest)).map fun (n, after) => (number n, after)
    else if c = '"' then (readText rest).map fun (s, after) => (text s, after.succ)
    else if c = '[' then
      match nested with
      | none => .error .tooDeep
      | some value => (readList id value rest).map fun (xs, after) => (array xs, after.succ)
    else if c = '\x7b' then
      match nested with
      | none => .error .tooDeep
      | some value =>
        let field (fields : List (String × Json)) (name : String) :
            Reader Fault (List (String × Json)) := fun cs =>
          (readMember id value cs).map fun (x, after) => (fields ++ [(name, x)], after)
        (readObject id field [] .ok rest).map fun (fields, after) => (object fields, after.succ)
    else .error .expectedValue

/-- A value that may open the given number of levels. -/
def readNested : (depth : Nat) → Reader Fault Json
  | 0 => readValue none
  | depth + 1 => readValue (some (readNested depth))

/-! ## Values that are skipped -/

/-- The end of a text whose opening quote has been read. Escapes are checked one by one, but
surrogates need no partner. -/
def skipText : (cs : List Char) → Except Fault (Rest cs.length)
  | [] => .error .endOfText
  | c :: cs =>
    if c = '"' then .ok (Rest.all cs)
    else if c = '\\' then
      match cs with
      | [] => .error .endOfText
      | d :: cs =>
        if d = 'u' then
          match hexUnit cs with
          | .error stop => .error stop.fault
          | .ok _ => (skipText (cs.drop 4)).map fun rest => ((Rest.drop cs 4).trans rest).succ
        else if (shortEscape? d).isSome then (skipText cs).map fun rest => rest.succ.succ
        else .error .invalidEscape
    else if c.toNat < 0x20 then .error .controlCharacter
    else (skipText cs).map Rest.succ
termination_by cs => cs.length
decreasing_by all_goals simp only [List.length_drop, List.length_cons]; omega

inductive Bracket where
  | list
  | object
  deriving DecidableEq, Repr

namespace Bracket

def closing : Bracket → Char
  | list => ']'
  | object => '\x7d'

def unfinished : Bracket → Fault
  | list => .endOfList
  | object => .endOfObject

def expectedEnd : Bracket → Fault
  | list => .expectedListEnd
  | object => .expectedObjectEnd

end Bracket

/-- The name of a field and its colon. -/
def skipName : Reader Fault Unit :=
  Reader.byFirst .endOfObject fun c rest =>
    if c = '"' then
      match skipText rest with
      | .error fault => .error fault
      | .ok start => (readColon start.1).map fun ((), after) => ((), (start.trans after).succ)
    else .error .keyMustBeText

/-- What comes before the value of an entry: in an object the name of the field. -/
def skipLabel (bracket : Bracket) (cs : List Char) : Except Fault (Rest (cs.length + 1)) :=
  match bracket with
  | .list => .ok (Rest.all cs)
  | .object => (skipName cs).map fun ((), rest) => rest.succ

/-- A numeral whose sign has been read. -/
def skipNumber (cs : List Char) : Except Fault (Rest cs.length) :=
  match h : Numeral.scan .invalidNumber cs with
  | .error fault => .error fault
  | .ok (_, rest) => .ok ⟨rest, Numeral.scan_length h⟩

/-- A value of one token. -/
def skipScalar (c : Char) (rest : List Char) : Except Fault (Rest (rest.length + 1)) :=
  if c = 'n' then expectWord "ull".toList rest
  else if c = 't' then expectWord "rue".toList rest
  else if c = 'f' then expectWord "alse".toList rest
  else if c = '"' then (skipText rest).map Rest.succ
  else if c = '-' then (skipNumber rest).map Rest.succ
  else if c.isDigit then skipNumber (c :: rest)
  else .error .expectedValue

/-- What is to be skipped next: a value, the rest of a bracket that has just been opened, or
whatever may follow a value. -/
inductive Skipping where
  | value
  | opened
  | afterValue
  deriving DecidableEq, Repr

/-- Skips up to the end of the outermost of the open brackets. The innermost one comes first. -/
def skipWithin (skipping : Skipping) (brackets : List Bracket) (cs : List Char) :
    Except Fault (Rest (cs.length + 1)) :=
  match skipping, brackets with
  | .value, brackets =>
    match h : skipSpace cs with
    | [] => .error .endOfValue
    | c :: rest =>
      have hrest := length_lt_of_skipSpace h
      if c = '[' then
        (skipWithin .opened (.list :: brackets) rest).map (Rest.past hrest)
      else if c = '\x7b' then
        (skipWithin .opened (.object :: brackets) rest).map (Rest.past hrest)
      else
        match skipScalar c rest with
        | .error fault => .error fault
        | .ok ⟨after, hafter⟩ =>
          (skipWithin .afterValue brackets after).map fun tail =>
            Rest.past hrest (Rest.within ⟨after, hafter⟩ tail)
  | .opened, [] => .ok (Rest.all cs)
  | .opened, bracket :: outer =>
    match h : skipSpace cs with
    | [] => .error bracket.unfinished
    | c :: rest =>
      have hrest := length_lt_of_skipSpace h
      if c = bracket.closing then (skipWithin .afterValue outer rest).map (Rest.past hrest)
      else
        match skipLabel bracket cs with
        | .error fault => .error fault
        | .ok ⟨after, hafter⟩ =>
          (skipWithin .value (bracket :: outer) after).map (Rest.within ⟨after, hafter⟩)
  | .afterValue, [] => .ok (Rest.all cs)
  | .afterValue, bracket :: outer =>
    match h : skipSpace cs with
    | [] => .error bracket.unfinished
    | c :: rest =>
      have hrest := length_lt_of_skipSpace h
      if c = ',' then
        match skipLabel bracket rest with
        | .error fault => .error fault
        | .ok ⟨after, hafter⟩ =>
          (skipWithin .value (bracket :: outer) after).map fun tail =>
            Rest.past hrest (Rest.within ⟨after, hafter⟩ tail)
      else if c = bracket.closing then
        (skipWithin .afterValue outer rest).map (Rest.past hrest)
      else .error bracket.expectedEnd
termination_by (cs.length, if skipping = .opened then 1 else 0)
decreasing_by all_goals simp_wf; omega

/-- Skips a value. -/
def skipValue (cs : List Char) : Except Fault (Rest (cs.length + 1)) := skipWithin .value [] cs

end Formula.Json

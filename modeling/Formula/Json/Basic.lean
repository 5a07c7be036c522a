import Formula.Json.Number
import Formula.Json.Quoted

/-!
# JSON values

JSON values and their two written forms: `compact` without any blanks, and `indented` with one entry
a line.
-/

namespace Formula

inductive Json where
  | null
  | bool (b : Bool)
  | number (n : Json.Number)
  | text (s : String)
  | array (xs : List Json)
  | object (fields : List (String × Json))
  deriving Repr, Inhabited

namespace Json

/-- What a value that is no array and no object is written as. -/
def writeBool (b : Bool) : List Char := if b then "true".toList else "false".toList

/-- Puts commas between written entries. -/
def commaSeparated : List (List Char) → List Char
  | [] => []
  | [entry] => entry
  | entry :: entries => entry ++ ',' :: commaSeparated entries

mutual

def compact : Json → List Char
  | null => "null".toList
  | bool b => writeBool b
  | number n => n.write
  | text s => quoteChars s.toList
  | array xs => '[' :: commaSeparated (compactEntries xs) ++ [']']
  | object fields => '\x7b' :: commaSeparated (compactFields fields) ++ ['\x7d']

def compactEntries : List Json → List (List Char)
  | [] => []
  | x :: xs => compact x :: compactEntries xs

def compactFields : List (String × Json) → List (List Char)
  | [] => []
  | (name, x) :: fields => (quoteChars name.toList ++ ':' :: compact x) :: compactFields fields

end

/-- A new line that is indented by two blanks a level. -/
def newLine (level : Nat) : List Char := '\n' :: List.replicate (2 * level) ' '

/-- Puts each of the written entries on a line of its own, inside brackets. -/
def block (opening closing : Char) (level : Nat) (entries : List (List Char)) : List Char :=
  if entries.isEmpty then [opening, closing]
  else opening :: commaSeparated (entries.map (newLine (level + 1) ++ ·)) ++ newLine level
    ++ [closing]

mutual

/-- The form with one entry a line, inside `level` enclosing brackets. -/
def indented (level : Nat) : Json → List Char
  | null => "null".toList
  | bool b => writeBool b
  | number n => n.write
  | text s => quoteChars s.toList
  | array xs => block '[' ']' level (indentedEntries (level + 1) xs)
  | object fields => block '\x7b' '\x7d' level (indentedFields (level + 1) fields)

def indentedEntries (level : Nat) : List Json → List (List Char)
  | [] => []
  | x :: xs => indented level x :: indentedEntries level xs

def indentedFields (level : Nat) : List (String × Json) → List (List Char)
  | [] => []
  | (name, x) :: fields =>
    (quoteChars name.toList ++ ':' :: ' ' :: indented level x) :: indentedFields level fields

end

end Json

end Formula

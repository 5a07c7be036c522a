/-!
# Positions in a text

Offsets count the bytes of a text in UTF-8.
-/

namespace Formula.Text

/-- The length of a text in bytes. -/
def byteLength : List Char → Nat
  | [] => 0
  | c :: cs => c.utf8Size + byteLength cs

@[simp] theorem byteLength_nil : byteLength [] = 0 := rfl

@[simp] theorem byteLength_cons (c : Char) (cs : List Char) :
    byteLength (c :: cs) = c.utf8Size + byteLength cs := rfl

@[simp] theorem byteLength_append (cs ds : List Char) :
    byteLength (cs ++ ds) = byteLength cs + byteLength ds := by
  induction cs with
  | nil => simp
  | cons c cs ih => simp [ih, Nat.add_assoc]

/-- A line, counted from one, and the number of bytes before the position on that line. -/
structure Position where
  line : Nat
  column : Nat
  deriving DecidableEq, Repr

/-- Where the first `count` bytes of a text lead from a position. The cut may fall inside a
character, which then counts with the bytes before the cut. -/
def Position.advance : Position → List Char → (count : Nat) → Position
  | p, [], _ => p
  | p, c :: cs, count =>
    if count = 0 then p
    else if c = '\n' then advance { line := p.line + 1, column := 0 } cs (count - 1)
    else advance { p with column := p.column + min c.utf8Size count } cs (count - c.utf8Size)

/-- The position after the first `count` bytes. -/
def positionAt (cs : List Char) (count : Nat) : Position :=
  Position.advance { line := 1, column := 0 } cs count

end Formula.Text

import Formula.Proofs.Reading
import Formula.Reduction

/-! # Formulas with all their parentheses

When every operation has its own parentheses, a formula has one meaning: that of its tree, from the
leaves upwards. Rewriting never builds the tree. It works on all parts of the formula in turns, and
what it leaves at any time is the text of a tree of which some parts have been evaluated.

Such texts are those that `Reads` reads: from left to right, with a stack of what is open, evaluating
on the way. -/

namespace Formula

/-- A formula in which every operation has its own parentheses. -/
inductive Nested where
  | number (x : Float)
  | text (s : String)
  | bool (b : Bool)
  | name (x : String)
  | operation (l : Nested) (o : Operator) (r : Nested)
  | call (f : String) (args : List Nested)

namespace Nested

mutual

def tokens : Nested → List Token
  | number x => [.number x]
  | text s => [.text s]
  | bool b => [.bool b]
  | name x => [.name x]
  | operation l o r => .openParen :: (l.tokens ++ .operator o :: (r.tokens ++ [.closeParen]))
  | call f args => .name f :: .openParen :: (firstTokens args ++ [.closeParen])

/-- Arguments, the first of them in front. -/
def firstTokens : List Nested → List Token
  | [] => []
  | t :: ts => t.tokens ++ laterTokens ts

/-- Arguments that come after another one. -/
def laterTokens : List Nested → List Token
  | [] => []
  | t :: ts => .comma :: (t.tokens ++ laterTokens ts)

end

mutual

/-- The value from the leaves upwards, if each part has one: variables are bound to scalars,
operands are numbers, and calls return scalars. -/
def value? {σ : Type} (host : Host σ) (state : σ) : Nested → Option Value
  | number x => some (.number x)
  | text s => some (.text s)
  | bool b => some (.bool b)
  | name x => (host.bindings.get? x).filter Value.isScalar
  | operation l o r =>
    match l.value? host state, r.value? host state with
    | some (.number x), some (.number y) => some (.number (o.apply x y))
    | _, _ => none
  | call f args =>
    match values? host state args with
    | some vs => (host.functions.call f vs state).1.toOption.filter Value.isScalar
    | none => none

def values? {σ : Type} (host : Host σ) (state : σ) : List Nested → Option (List Value)
  | [] => some []
  | t :: ts =>
    match t.value? host state, values? host state ts with
    | some v, some vs => some (v :: vs)
    | _, _ => none

end

def isLiteral : Nested → Bool
  | number _ | text _ | bool _ => true
  | _ => false

mutual

/-- Every call has two arguments at most, or begins with a literal. -/
def Regular : Nested → Prop
  | operation l _ r => l.Regular ∧ r.Regular
  | call _ args => (args.length ≤ 2 ∨ (args.head?.any isLiteral) = true) ∧ RegularAll args
  | _ => True

def RegularAll : List Nested → Prop
  | [] => True
  | t :: ts => t.Regular ∧ RegularAll ts

end

/-! ## Reading a formula that has been evaluated in part -/

/-- What has been read of an operation or of a call that is still open. -/
inductive Frame where
  /-- A parenthesis that opens no call. -/
  | opened
  /-- The same with a left operand and an operator. -/
  | operated (x : Float) (o : Operator)
  /-- A call without arguments so far. A `long` one may take more than two, so the first has to be
  a literal. -/
  | first (long : Bool) (f : String)
  | second (long : Bool) (f : String) (v : Value)
  /-- A call whose arguments so far need no partner any more. -/
  | later (f : String) (vs : List Value)

inductive Reading where
  /-- An operand or an argument has to come. -/
  | expecting (frames : List Frame)
  /-- A name has been read, of a variable or of a function. -/
  | named (x : String) (frames : List Frame)
  /-- An operand or an argument has been read, and whether it was a literal. -/
  | complete (v : Value) (literal : Bool) (frames : List Frame)
  /-- Arguments that had been collected have been read. -/
  | collected (f : String) (vs : List Value) (frames : List Frame)

/-- The call that a closing parenthesis completes, and what is open around it. -/
def Reading.call? : Reading → Option (String × List Value × List Frame)
  | .expecting (.first _ f :: frames) => some (f, [], frames)
  | .complete v _ (.first _ f :: frames) => some (f, [v], frames)
  | .complete w _ (.second _ f v :: frames) => some (f, [v, w], frames)
  | .complete w _ (.later f vs :: frames) => some (f, vs ++ [w], frames)
  | .collected f vs frames => some (f, vs, frames)
  | _ => none

section

variable {σ : Type} (host : Host σ) (state : σ)

/-- Reads one token. -/
inductive ReadStep : Reading → Token → Reading → Prop
  | literal {t : Token} {v : Value} {frames : List Frame} (h : t.scalar? = some v) :
    ReadStep (.expecting frames) t (.complete v true frames)
  | name {x : String} {frames : List Frame} :
    ReadStep (.expecting frames) (.name x) (.named x frames)
  | openOperation {frames : List Frame} :
    ReadStep (.expecting frames) .openParen (.expecting (.opened :: frames))
  | openCall {f : String} {frames : List Frame} (long : Bool) :
    ReadStep (.named f frames) .openParen (.expecting (.first long f :: frames))
  | lookup {x : String} {v : Value} {frames : List Frame} {t : Token} {next : Reading}
      (hv : host.bindings.get? x = some v) (hscalar : v.isScalar = true) (ht : t ≠ .openParen)
      (h : ReadStep (.complete v false frames) t next) :
    ReadStep (.named x frames) t next
  | operator {x : Float} {literal : Bool} {frames : List Frame} {o : Operator} :
    ReadStep (.complete (.number x) literal (.opened :: frames)) (.operator o)
      (.expecting (.operated x o :: frames))
  | closeNumber {x : Float} {literal : Bool} {frames : List Frame} :
    ReadStep (.complete (.number x) literal (.opened :: frames)) .closeParen
      (.complete (.number x) false frames)
  | closeOperation {x y : Float} {o : Operator} {literal : Bool} {frames : List Frame} :
    ReadStep (.complete (.number y) literal (.operated x o :: frames)) .closeParen
      (.complete (.number (o.apply x y)) false frames)
  | firstArgs {long : Bool} {f : String} {frames : List Frame} {vs : List Value} :
    ReadStep (.expecting (.first long f :: frames)) (.args vs) (.collected f vs frames)
  | laterArgs {f : String} {vs ws : List Value} {frames : List Frame} :
    ReadStep (.expecting (.later f vs :: frames)) (.args ws) (.collected f (vs ++ ws) frames)
  | commaFirst {v : Value} {literal long : Bool} {f : String} {frames : List Frame}
      (h : long = true → literal = true) :
    ReadStep (.complete v literal (.first long f :: frames)) .comma
      (.expecting (.second long f v :: frames))
  | commaSecond {v w : Value} {literal : Bool} {f : String} {frames : List Frame} :
    ReadStep (.complete w literal (.second true f v :: frames)) .comma
      (.expecting (.later f [v, w] :: frames))
  | commaLater {w : Value} {vs : List Value} {literal : Bool} {f : String} {frames : List Frame} :
    ReadStep (.complete w literal (.later f vs :: frames)) .comma
      (.expecting (.later f (vs ++ [w]) :: frames))
  | commaCollected {f : String} {vs : List Value} {frames : List Frame} :
    ReadStep (.collected f vs frames) .comma (.expecting (.later f vs :: frames))
  | closeCall {a : Reading} {f : String} {vs : List Value} {v : Value} {frames : List Frame}
      (hcall : a.call? = some (f, vs, frames)) (hv : (host.functions.call f vs state).1 = .ok v)
      (hscalar : v.isScalar = true) :
    ReadStep a .closeParen (.complete v false frames)

/-- Reading leads to the value of a whole formula. -/
def Accepts (a : Reading) (ts : List Token) (v : Value) : Prop :=
  Formula.Accepts (ReadStep host state) (fun b => ∃ literal, b = .complete v literal []) a ts

end

variable {σ : Type} {host : Host σ} {state : σ} {a b c : Reading} {ts us : List Token} {v : Value}

theorem Accepts.split (h : Accepts host state a (ts ++ us) v) :
    ∃ b, Reads (ReadStep host state) a ts b ∧ Accepts host state b us v :=
  Formula.Accepts.split h

theorem Accepts.uncons {t : Token} (h : Accepts host state a (t :: ts) v) :
    ∃ b, ReadStep host state a t b ∧ Accepts host state b ts v :=
  Formula.Accepts.uncons h

theorem ReadStep.accepts {t : Token} (h : ReadStep host state a t b) (h' : Accepts host state b ts v) :
    Accepts host state a (t :: ts) v :=
  Formula.Accepts.cons h h'

/-- Reading goes on until one value is complete and nothing is open. -/
theorem Accepts.exists_step (h : Accepts host state a ts v)
    (ha : ∀ literal, a ≠ .complete v literal []) :
    ∃ t rest b, ts = t :: rest ∧ ReadStep host state a t b ∧ Accepts host state b rest v := by
  cases ts with
  | nil =>
    obtain ⟨literal, hend⟩ := Formula.Accepts.done_of_nil h
    exact absurd hend (ha literal)
  | cons t rest =>
    obtain ⟨b, hstep, hrest⟩ := h.uncons
    exact ⟨t, rest, b, rfl, hstep, hrest⟩

/-- Where one operand is complete, it does not matter that it was not a literal: a literal is read
in the same way and allows more. -/
theorem ReadStep.of_complete {t : Token} {frames : List Frame}
    (h : ReadStep host state (.complete v false frames) t b) :
    ReadStep host state (.complete v true frames) t b := by
  cases h with
  | operator => exact .operator
  | closeNumber => exact .closeNumber
  | closeOperation => exact .closeOperation
  | commaFirst _ => exact .commaFirst fun _ => rfl
  | commaSecond => exact .commaSecond
  | commaLater => exact .commaLater
  | closeCall hcall hv hscalar =>
    refine .closeCall ?_ hv hscalar
    cases frames with
    | nil => cases hcall
    | cons frame frames => cases frame <;> exact hcall

theorem Accepts.of_complete {frames : List Frame} {w : Value}
    (h : Accepts host state (.complete w false frames) ts v) :
    Accepts host state (.complete w true frames) ts v := by
  cases ts with
  | nil =>
    obtain ⟨literal, hend⟩ := Formula.Accepts.done_of_nil h
    cases hend
    exact ⟨_, .nil, true, rfl⟩
  | cons t ts =>
    obtain ⟨b, hstep, hts⟩ := h.uncons
    exact hstep.of_complete.accepts hts

/-! ## What a token tells about the reading -/

theorem ReadStep.of_name {x : String} (h : ReadStep host state a (.name x) b) :
    ∃ frames, a = .expecting frames ∧ b = .named x frames := by
  cases h with
  | literal h => cases h
  | name => exact ⟨_, rfl, rfl⟩
  | lookup _ _ _ h => cases h

theorem ReadStep.of_scalar {t : Token} {w : Value} (ht : t.scalar? = some w)
    (h : ReadStep host state a t b) : ∃ frames, a = .expecting frames ∧ b = .complete w true frames := by
  cases h with
  | literal h =>
    rw [ht] at h
    cases h
    exact ⟨_, rfl, rfl⟩
  | lookup _ _ _ h => cases h <;> cases ht
  | name | openOperation | openCall | operator | closeNumber | closeOperation | firstArgs
    | laterArgs | commaFirst | commaSecond | commaLater | commaCollected | closeCall => cases ht

theorem ReadStep.of_args {vs : List Value} (h : ReadStep host state a (.args vs) b) :
    (∃ long f frames, a = .expecting (.first long f :: frames) ∧ b = .collected f vs frames) ∨
      ∃ f us frames, a = .expecting (.later f us :: frames) ∧ b = .collected f (us ++ vs) frames := by
  cases h with
  | literal h => cases h
  | lookup _ _ _ h => cases h
  | firstArgs => exact .inl ⟨_, _, _, rfl, rfl⟩
  | laterArgs => exact .inr ⟨_, _, _, rfl, rfl⟩

/-- Reading goes on in the arguments of a call. -/
theorem Accepts.openCall {f : String} (h : Accepts host state a (.name f :: .openParen :: ts) v) :
    ∃ long frames, a = .expecting frames ∧
      Accepts host state (.expecting (.first long f :: frames)) ts v := by
  obtain ⟨_, hname, hafter⟩ := h.uncons
  obtain ⟨frames, rfl, rfl⟩ := hname.of_name
  obtain ⟨_, hopen, hargs⟩ := hafter.uncons
  cases hopen with
  | openCall long => exact ⟨long, frames, rfl, hargs⟩
  | lookup _ _ ht _ => exact absurd rfl ht

theorem Accepts.of_openCall {f : String} {frames : List Frame} (long : Bool)
    (h : Accepts host state (.expecting (.first long f :: frames)) ts v) :
    Accepts host state (.expecting frames) (.name f :: .openParen :: ts) v :=
  ReadStep.name.accepts ((ReadStep.openCall long).accepts h)

/-- A closing parenthesis completes the call that has been read, whatever tokens it was read from. -/
theorem Accepts.closeCall {call : String × List Value × List Frame} (ha : a.call? = some call)
    (hb : b.call? = some call) (h : Accepts host state a (.closeParen :: ts) v) :
    Accepts host state b (.closeParen :: ts) v := by
  obtain ⟨_, hclose, hts⟩ := h.uncons
  cases hclose with
  | literal h => cases h
  | lookup _ _ _ _ => cases ha
  | closeNumber => cases ha
  | closeOperation => cases ha
  | closeCall hcall hv hscalar =>
    rw [ha] at hcall
    cases hcall
    exact (ReadStep.closeCall hb hv hscalar).accepts hts

end Nested

end Formula

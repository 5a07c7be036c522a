import Formula.Json.Reader
import Formula.Proofs.Lexing.Pieces

/-! # What readers take

What a reader takes off a text is its result and the text that is left; neither the fault where it
fails nor the proof that less is left matters for what has been written (`taken`). Each reader and
each way to put readers together has an equation for a text that begins with the right character and
has no blanks, so what a reader takes can be computed from the front of a text. -/

namespace Formula.Json

variable {ε α β ι : Type} {m n : Nat}

/-- The result of a reader and what it leaves; none if it fails. -/
def taken : Except ε (α × Rest n) → Option (α × List Char)
  | .error _ => none
  | .ok (x, rest) => some (x, rest.1)

/-- What is left after something without a result. -/
def left : Except ε (Rest n) → Option (List Char)
  | .error _ => none
  | .ok rest => some rest.1

@[simp] theorem taken_ok (x : α) (rest : Rest n) :
    taken (.ok (x, rest) : Except ε (α × Rest n)) = some (x, rest.1) := rfl

theorem taken_eq_none {result : Except ε (α × Rest n)} (h : taken result = none) :
    ∃ e, result = .error e := by
  cases result with
  | error e => exact ⟨e, rfl⟩
  | ok pair => cases h

theorem exists_of_taken {result : Except ε (α × Rest n)} {x : α} {rest : List Char}
    (h : taken result = some (x, rest)) : ∃ hlt, result = .ok (x, ⟨rest, hlt⟩) := by
  cases result with
  | error e => cases h
  | ok pair =>
    cases h
    exact ⟨pair.2.2, rfl⟩

/-- A result may be changed as long as the same text is left. -/
theorem taken_map {result : Except ε (α × Rest m)} {g : α × Rest m → β × Rest n} (f : α → β)
    (hg : ∀ x after, (g (x, after)).1 = f x ∧ (g (x, after)).2.1 = after.1) :
    taken (result.map g) = (taken result).map fun (x, rest) => (f x, rest) := by
  cases result with
  | error e => rfl
  | ok pair =>
    obtain ⟨hx, hrest⟩ := hg pair.1 pair.2
    exact congrArg some (Prod.ext hx hrest)

theorem taken_map_self {result : Except ε (α × Rest m)} {g : α × Rest m → α × Rest n}
    (hg : ∀ x after, (g (x, after)).1 = x ∧ (g (x, after)).2.1 = after.1) :
    taken (result.map g) = taken result := by
  rw [taken_map id hg]
  cases taken result <;> rfl

theorem taken_map_ne {result : Except ε β} {g : β → α × Rest n} {x : α} {rest : List Char}
    (hg : ∀ y, (g y).1 ≠ x) : taken (result.map g) ≠ some (x, rest) := by
  intro h
  cases result with
  | error e => cases h
  | ok y => exact hg y (congrArg Prod.fst (Option.some.inj h))

theorem left_map {result : Except ε (Rest m)} {g : Rest m → Rest n}
    (hg : ∀ after, (g after).1 = after.1) : left (result.map g) = left result := by
  cases result with
  | error e => rfl
  | ok after => exact congrArg some (hg after)

theorem taken_map_left {result : Except ε (Rest n)} (x : α) :
    taken (result.map fun after => (x, after)) = (left result).map fun rest => (x, rest) := by
  cases result <;> rfl

/-- Whether a character would go on a numeral that it follows. -/
def Numeral.continues (c : Char) : Bool := c.isDigit || c = '.' || c = 'e' || c = 'E'

/-- What a reader takes a written form for, whatever follows that does not go on a numeral; none if it
fails. -/
def Reader.Takes (reader : Reader ε α) (written : List Char) (outcome : Option α) : Prop :=
  ∀ rest, Avoids Numeral.continues rest →
    taken (reader (written ++ rest)) = outcome.map (·, rest)

/-! ## First characters -/

theorem skipSpace_cons {c : Char} (h : isSpace c = false) (cs : List Char) :
    skipSpace (c :: cs) = c :: cs := by
  rw [skipSpace, List.dropWhile_cons_of_neg (by simp [h])]

theorem taken_byFirst {atEnd : ε}
    {next : Char → (rest : List Char) → Except ε (α × Rest (rest.length + 1))} {c : Char}
    {cs rest : List Char} (h : skipSpace cs = c :: rest) :
    taken (Reader.byFirst atEnd next cs) = taken (next c rest) := by
  unfold Reader.byFirst
  split
  · rename_i hnil
    rw [h] at hnil
    cases hnil
  · rename_i d rest' hcons
    obtain ⟨rfl, rfl⟩ : d = c ∧ rest' = rest := by simpa [h, eq_comm] using hcons
    cases next d rest' <;> rfl

/-! ## Words and texts -/

theorem left_expectWord (word rest : List Char) :
    left (expectWord word (word ++ rest)) = some rest := by
  induction word with
  | nil => rfl
  | cons c word ih =>
    rw [List.cons_append, expectWord, if_pos rfl, left_map (g := Rest.succ) fun _ => rfl, ih]

theorem taken_readText (s : String) (rest : List Char) :
    taken (readText (s.toList.flatMap encodeChar ++ '"' :: rest)) = some (s, rest) := by
  have hdecode := decode_flatMap_encodeChar s.toList rest
  unfold readText
  split
  · rename_i herror
    rw [hdecode] at herror
    cases herror
  · rename_i content rest' hok
    rw [hdecode] at hok
    cases hok
    rw [taken_ok, String.ofList_toList]

/-- A quoted text in front of another text. -/
theorem quoteChars_append (cs rest : List Char) :
    quoteChars cs ++ rest = '"' :: (cs.flatMap encodeChar ++ '"' :: rest) := by
  simp [quoteChars]

theorem skipSpace_quoteChars (cs rest : List Char) :
    skipSpace (quoteChars cs ++ rest) = '"' :: (cs.flatMap encodeChar ++ '"' :: rest) := by
  rw [quoteChars_append, skipSpace_cons rfl]

theorem taken_readName (atEnd : Fault) (other : Char → Fault) (name : String) (rest : List Char) :
    taken (readName atEnd other (quoteChars name.toList ++ rest)) = some (name, rest) := by
  rw [readName, taken_byFirst (skipSpace_quoteChars _ rest), if_pos rfl,
    taken_map_self fun _ _ => ⟨rfl, rfl⟩, taken_readText]

theorem taken_readColon (rest : List Char) : taken (readColon (':' :: rest)) = some ((), rest) := by
  rw [readColon, taken_byFirst (skipSpace_cons rfl _)]
  rfl

/-! ## Lists -/

section Loops

variable {lift : Fault → ε}

/-- A text that can be an entry of a list: there is no blank in front of it, and it is not the end. -/
def StartsEntry (cs : List Char) : Prop :=
  ∃ c rest, cs = c :: rest ∧ isSpace c = false ∧ c ≠ ']'

theorem StartsEntry.append {cs : List Char} (h : StartsEntry cs) (rest : List Char) :
    StartsEntry (cs ++ rest) := by
  obtain ⟨c, tail, rfl, hspace, hend⟩ := h
  exact ⟨c, tail ++ rest, rfl, hspace, hend⟩

theorem nextEntry_of_skipSpace (isFirst : Bool) {cs rest : List Char} {c : Char}
    (h : skipSpace cs = c :: rest) :
    nextEntry isFirst cs =
      if c = ']' then .ok none
      else if isFirst then .ok (some (Rest.all cs))
      else if c = ',' then
        match skipSpace rest with
        | [] => .error .endOfValue
        | c :: _ =>
          if c = ']' then .error .trailingComma
          else .ok (some (Rest.succ ⟨rest, length_lt_of_skipSpace h⟩))
      else .error .expectedListEnd := by
  unfold nextEntry
  split
  · rename_i hnil
    rw [h] at hnil
    cases hnil
  · rename_i hcons
    rw [h] at hcons
    cases hcons
    rfl

theorem nextEntry_end (isFirst : Bool) (rest : List Char) :
    nextEntry isFirst (']' :: rest) = .ok none := by
  rw [nextEntry_of_skipSpace isFirst (skipSpace_cons rfl rest), if_pos rfl]

theorem nextEntry_first {cs : List Char} (h : StartsEntry cs) :
    ∃ hlt, nextEntry true cs = .ok (some ⟨cs, hlt⟩) := by
  obtain ⟨c, rest, rfl, hspace, hend⟩ := h
  rw [nextEntry_of_skipSpace true (skipSpace_cons hspace rest), if_neg hend, if_pos rfl]
  exact ⟨(Rest.all (c :: rest)).2, rfl⟩

theorem nextEntry_comma {cs : List Char} (h : StartsEntry cs) :
    ∃ hlt, nextEntry false (',' :: cs) = .ok (some ⟨cs, hlt⟩) := by
  obtain ⟨c, rest, rfl, hspace, hend⟩ := h
  rw [nextEntry_of_skipSpace false (skipSpace_cons rfl (c :: rest)), skipSpace_cons hspace]
  simp [hend, Rest.succ]

theorem taken_readEntries_of_nextEntry (entry : Reader ε α) {isFirst : Bool} {cs : List Char}
    {start : Rest (cs.length + 1)} (h : nextEntry isFirst cs = .ok (some start)) :
    taken (readEntries lift entry isFirst cs)
      = (taken (entry start.1)).bind fun (x, after) =>
          (taken (readEntries lift entry false after)).map fun (xs, rest) => (x :: xs, rest) := by
  rw [readEntries, h]
  simp only
  cases entry start.1 with
  | error e => rfl
  | ok pair =>
    obtain ⟨x, after⟩ := pair
    simp only [taken_ok, Option.bind_some]
    change _ = (taken (readEntries lift entry false (start.beyond after).1)).map _
    cases readEntries lift entry false (start.beyond after).1 <;> rfl

/-- A list up to its closing bracket, with the entries that have been written between commas. -/
theorem taken_readEntries_end (entry : Reader ε α) (isFirst : Bool) (rest : List Char) :
    taken (readEntries lift entry isFirst (']' :: rest)) = some ([], ']' :: rest) := by
  rw [readEntries, nextEntry_end]
  rfl

theorem avoids_later (written : ι → List Char) (items : List ι) (rest : List Char) :
    Avoids Numeral.continues (items.flatMap (fun i => ',' :: written i) ++ ']' :: rest) := by
  cases items <;> exact avoids_cons rfl _

theorem taken_readEntries_later {entry : Reader ε α} {written : ι → List Char}
    {outcome : ι → Option α} {items : List ι} (hstart : ∀ i ∈ items, StartsEntry (written i))
    (h : ∀ i ∈ items, entry.Takes (written i) (outcome i)) (rest : List Char) :
    taken (readEntries lift entry false (items.flatMap (fun i => ',' :: written i) ++ ']' :: rest))
      = (items.mapM outcome).map (·, ']' :: rest) := by
  induction items with
  | nil => exact taken_readEntries_end entry false rest
  | cons i items ih =>
    obtain ⟨hstarti, hstart⟩ := List.forall_mem_cons.mp hstart
    obtain ⟨hi, h⟩ := List.forall_mem_cons.mp h
    rw [List.flatMap_cons, List.cons_append, List.cons_append, List.append_assoc]
    obtain ⟨hlt, hnext⟩ := nextEntry_comma (hstarti.append _)
    rw [taken_readEntries_of_nextEntry entry hnext, hi _ (avoids_later written items rest),
      List.mapM_cons]
    cases outcome i with
    | none => rfl
    | some x =>
      simp only [Option.map_some, Option.bind_some, ih hstart h]
      cases items.mapM outcome <;> rfl

theorem taken_closeList (rest : List Char) : taken (closeList (']' :: rest)) = some ((), rest) := by
  rw [closeList, taken_byFirst (skipSpace_cons rfl _)]
  rfl

theorem taken_readList (entry : Reader ε α) (cs : List Char) :
    taken (readList lift entry cs)
      = (taken (readEntries lift entry true cs)).bind fun (xs, after) =>
          (taken (closeList after)).map fun ((), rest) => (xs, rest) := by
  unfold readList
  cases readEntries lift entry true cs with
  | error e => rfl
  | ok pair =>
    obtain ⟨xs, after⟩ := pair
    simp only [taken_ok, Option.bind_some]
    cases closeList after.1 <;> rfl

theorem commaSeparated_cons (entry : List Char) (entries : List (List Char)) :
    commaSeparated (entry :: entries) = entry ++ entries.flatMap (',' :: ·) := by
  induction entries generalizing entry with
  | nil => simp [commaSeparated]
  | cons next entries ih => simp [commaSeparated, ih]

theorem taken_readEntries {entry : Reader ε α} {written : ι → List Char} {outcome : ι → Option α}
    {items : List ι} (hstart : ∀ i ∈ items, StartsEntry (written i))
    (h : ∀ i ∈ items, entry.Takes (written i) (outcome i)) (rest : List Char) :
    taken (readEntries lift entry true (commaSeparated (items.map written) ++ ']' :: rest))
      = (items.mapM outcome).map (·, ']' :: rest) := by
  cases items with
  | nil => exact taken_readEntries_end entry true rest
  | cons i items =>
    obtain ⟨hstarti, hstart⟩ := List.forall_mem_cons.mp hstart
    obtain ⟨hi, h⟩ := List.forall_mem_cons.mp h
    rw [List.map_cons, commaSeparated_cons, List.flatMap_map, List.append_assoc]
    obtain ⟨hlt, hnext⟩ := nextEntry_first (hstarti.append _)
    rw [taken_readEntries_of_nextEntry entry hnext, hi _ (avoids_later written items rest),
      List.mapM_cons]
    cases outcome i with
    | none => rfl
    | some x =>
      simp only [Option.map_some, Option.bind_some, taken_readEntries_later hstart h]
      cases items.mapM outcome <;> rfl

/-- **A list is read entry by entry.** -/
theorem Reader.Takes.readList (lift : Fault → ε) {entry : Reader ε α} {written : ι → List Char}
    {outcome : ι → Option α} {items : List ι} (hstart : ∀ i ∈ items, StartsEntry (written i))
    (h : ∀ i ∈ items, entry.Takes (written i) (outcome i)) :
    (readList lift entry).Takes (commaSeparated (items.map written) ++ [']'])
      (items.mapM outcome) := by
  intro rest _
  rw [List.append_assoc, List.singleton_append, taken_readList, taken_readEntries hstart h]
  cases items.mapM outcome with
  | none => rfl
  | some xs => simp [taken_closeList]

/-! ## Objects -/

theorem nextName_of_skipSpace (isFirst : Bool) {cs rest : List Char} {c : Char}
    (h : skipSpace cs = c :: rest) :
    nextName isFirst cs =
      if c = '\x7d' then .ok none
      else if isFirst then (readName .endOfObject (fun _ => .keyMustBeText) cs).map some
      else if c = ',' then
        let other c := if c = '\x7d' then Fault.trailingComma else .keyMustBeText
        (readName .endOfValue other rest).map fun (name, after) =>
          some (name, Rest.trans ⟨rest, length_lt_of_skipSpace h⟩ after)
      else .error .expectedObjectEnd := by
  unfold nextName
  split
  · rename_i hnil
    rw [h] at hnil
    cases hnil
  · rename_i hcons
    rw [h] at hcons
    cases hcons
    rfl

theorem nextName_end (isFirst : Bool) (rest : List Char) :
    nextName isFirst ('\x7d' :: rest) = .ok none := by
  rw [nextName_of_skipSpace isFirst (skipSpace_cons rfl rest), if_pos rfl]

theorem nextName_first (name : String) (cs : List Char) :
    ∃ hlt, nextName true (quoteChars name.toList ++ cs) = .ok (some (name, ⟨cs, hlt⟩)) := by
  obtain ⟨hlt, hname⟩ :=
    exists_of_taken (taken_readName .endOfObject (fun _ => .keyMustBeText) name cs)
  rw [nextName_of_skipSpace true (skipSpace_quoteChars _ cs), if_neg (by decide), if_pos rfl]
  exact ⟨hlt, congrArg (Except.map some) hname⟩

theorem nextName_comma (name : String) (cs : List Char) :
    ∃ hlt, nextName false (',' :: (quoteChars name.toList ++ cs)) = .ok (some (name, ⟨cs, hlt⟩)) := by
  rw [nextName_of_skipSpace false (skipSpace_cons rfl _), if_neg (by decide), if_neg (by decide),
    if_pos rfl]
  obtain ⟨hlt, hname⟩ := exists_of_taken (taken_readName .endOfValue
    (fun c => if c = '\x7d' then Fault.trailingComma else .keyMustBeText) name cs)
  simp only [hname]
  exact ⟨Nat.lt_succ_of_lt hlt, rfl⟩

theorem taken_readFields_of_nextName (field : α → String → Reader ε α) (sofar : α) {isFirst : Bool}
    {cs : List Char} {name : String} {start : Rest cs.length}
    (h : nextName isFirst cs = .ok (some (name, start))) :
    taken (readFields lift field sofar isFirst cs)
      = (taken (field sofar name start.1)).bind fun (x, after) =>
          taken (readFields lift field x false after) := by
  rw [readFields, h]
  simp only
  cases field sofar name start.1 with
  | error e => rfl
  | ok pair =>
    obtain ⟨x, after⟩ := pair
    simp only [taken_ok, Option.bind_some]
    change _ = taken (readFields lift field x false (start.trans after).1)
    cases readFields lift field x false (start.trans after).1 <;> rfl

theorem taken_readFields_end (field : α → String → Reader ε α) (sofar : α) (isFirst : Bool)
    (rest : List Char) :
    taken (readFields lift field sofar isFirst ('\x7d' :: rest)) = some (sofar, '\x7d' :: rest) := by
  rw [readFields, nextName_end]
  rfl

theorem taken_closeObject (rest : List Char) :
    taken (closeObject ('\x7d' :: rest)) = some ((), rest) := by
  rw [closeObject, taken_byFirst (skipSpace_cons rfl _)]
  rfl

theorem taken_readObject (field : α → String → Reader ε α) (start : α) (finish : α → Except ε β)
    (cs : List Char) :
    taken (readObject lift field start finish cs)
      = (taken (readFields lift field start true cs)).bind fun (x, after) =>
          (finish x).toOption.bind fun y =>
            (taken (closeObject after)).map fun ((), rest) => (y, rest) := by
  unfold readObject
  cases readFields lift field start true cs with
  | error e => rfl
  | ok pair =>
    obtain ⟨x, after⟩ := pair
    simp only [taken_ok, Option.bind_some]
    cases finish x with
    | error e => rfl
    | ok y =>
      simp only [Except.toOption, Option.bind_some]
      cases closeObject after.1 <;> rfl

/-- The first field of an object is read and then the others. -/
theorem taken_readFields_first {field : α → String → Reader ε α} {sofar : α} {name : String}
    {written : List Char} {outcome : Option α}
    (h : (field sofar name).Takes (':' :: written) outcome) {rest : List Char}
    (hrest : Avoids Numeral.continues rest) :
    taken (readFields lift field sofar true (quoteChars name.toList ++ (':' :: written ++ rest)))
      = outcome.bind fun x => taken (readFields lift field x false rest) := by
  obtain ⟨hlt, hname⟩ := nextName_first name (':' :: written ++ rest)
  rw [taken_readFields_of_nextName field sofar hname, h rest hrest]
  cases outcome <;> rfl

theorem taken_readFields_comma {field : α → String → Reader ε α} {sofar : α} {name : String}
    {written : List Char} {outcome : Option α}
    (h : (field sofar name).Takes (':' :: written) outcome) {rest : List Char}
    (hrest : Avoids Numeral.continues rest) :
    taken (readFields lift field sofar false
        (',' :: (quoteChars name.toList ++ (':' :: written ++ rest))))
      = outcome.bind fun x => taken (readFields lift field x false rest) := by
  obtain ⟨hlt, hname⟩ := nextName_comma name (':' :: written ++ rest)
  rw [taken_readFields_of_nextName field sofar hname, h rest hrest]
  cases outcome <;> rfl

theorem taken_readMember (value : Reader ε α) (cs : List Char) :
    taken (readMember lift value (':' :: cs)) = taken (value cs) := by
  obtain ⟨hlt, hcolon⟩ := exists_of_taken (taken_readColon cs)
  rw [readMember, hcolon]
  simp only
  cases value cs <;> rfl

/-- **An object of two fields is read as what its fields come to**, one after the other. -/
theorem Reader.Takes.readObject_pair (lift : Fault → ε) {field : α → String → Reader ε α} {start : α}
    {finish : α → Except ε β} {name name' : String} {written written' : List Char}
    {outcome : Option α} {next : α → Option α}
    (hfirst : (field start name).Takes (':' :: written) outcome)
    (hsecond : ∀ x, outcome = some x → (field x name').Takes (':' :: written') (next x)) :
    (readObject lift field start finish).Takes
      (commaSeparated [quoteChars name.toList ++ ':' :: written,
        quoteChars name'.toList ++ ':' :: written'] ++ ['\x7d'])
      ((outcome.bind next).bind fun x => (finish x).toOption) := by
  intro rest _
  have htext : commaSeparated [quoteChars name.toList ++ ':' :: written,
        quoteChars name'.toList ++ ':' :: written'] ++ ['\x7d'] ++ rest
      = quoteChars name.toList ++ (':' :: written ++ ',' :: (quoteChars name'.toList
          ++ (':' :: written' ++ '\x7d' :: rest))) := by
    simp [commaSeparated]
  have hcomma : ∀ cs, Avoids Numeral.continues (',' :: cs) := avoids_cons rfl
  have hbrace : Avoids Numeral.continues ('\x7d' :: rest) := avoids_cons rfl rest
  rw [htext, taken_readObject, taken_readFields_first hfirst (hcomma _)]
  cases outcome with
  | none => rfl
  | some x =>
    rw [Option.bind_some, Option.bind_some, taken_readFields_comma (hsecond x rfl) hbrace]
    cases next x with
    | none => rfl
    | some y =>
      rw [Option.bind_some, Option.bind_some, taken_readFields_end]
      simp only [Option.bind_some, taken_closeObject]
      cases finish y <;> rfl

end Loops

/-! ## Values -/

section

variable (nested : Option (Reader Fault Json)) (rest : List Char)

theorem taken_readValue_null :
    taken (readValue nested ("null".toList ++ rest)) = some (.null, rest) := by
  have hfirst : skipSpace ("null".toList ++ rest) = 'n' :: ("ull".toList ++ rest) :=
    skipSpace_cons rfl _
  rw [readValue, taken_byFirst hfirst, if_pos rfl, taken_map_left, left_expectWord]
  rfl

theorem taken_readValue_bool (b : Bool) :
    taken (readValue nested (writeBool b ++ rest)) = some (.bool b, rest) := by
  cases b with
  | true =>
    have hfirst : skipSpace (writeBool true ++ rest) = 't' :: ("rue".toList ++ rest) :=
      skipSpace_cons rfl _
    rw [readValue, taken_byFirst hfirst, if_neg (by decide), if_pos rfl, taken_map_left,
      left_expectWord]
    rfl
  | false =>
    have hfirst : skipSpace (writeBool false ++ rest) = 'f' :: ("alse".toList ++ rest) :=
      skipSpace_cons rfl _
    rw [readValue, taken_byFirst hfirst, if_neg (by decide), if_neg (by decide), if_pos rfl,
      taken_map_left, left_expectWord]
    rfl

theorem taken_readValue_text (s : String) :
    taken (readValue nested (quoteChars s.toList ++ rest)) = some (.text s, rest) := by
  rw [readValue, taken_byFirst (skipSpace_quoteChars _ rest)]
  exact (taken_map Json.text fun _ _ => ⟨rfl, rfl⟩).trans (by rw [taken_readText]; rfl)

theorem taken_readValue_list (value : Reader Fault Json) :
    taken (readValue (some value) ('[' :: rest))
      = (taken (readList id value rest)).map fun (xs, after) => (.array xs, after) := by
  rw [readValue, taken_byFirst (skipSpace_cons rfl rest)]
  exact taken_map Json.array fun _ _ => ⟨rfl, rfl⟩

theorem taken_readValue_tooDeep : taken (readValue none ('[' :: rest)) = none := by
  rw [readValue, taken_byFirst (skipSpace_cons rfl rest)]
  rfl

end

end Formula.Json

import Formula.Proofs.Json.Numerals
import Formula.Proofs.Lists
import Formula.Stored.Reader
import Formula.Stored.Writer

/-! # Stored values read back

The written form of a value is read as what has been written, wherever it stands in a text and as
long as its lists are not too deep (`Value.takes_compact`). This needs only that each number in it
reads back where it stands alone (`Stored.ReadsBack`), which is not so for all numbers: a numeral
with a large exponent is rounded twice. -/

namespace Formula

/-! ## Numbers and levels -/

mutual

/-- The numbers in a value, those inside its lists among them. -/
def Value.numbers : Value → List Float
  | .number x => [x]
  | .list vs => Value.numbersAll vs
  | .text _ | .bool _ | .empty => []

def Value.numbersAll : List Value → List Float
  | [] => []
  | v :: vs => v.numbers ++ Value.numbersAll vs

end

mutual

/-- The number of levels that a value opens. -/
def Value.depth : Value → Nat
  | .list vs => Value.depthAll vs + 1
  | .number _ | .text _ | .bool _ | .empty => 0

def Value.depthAll : List Value → Nat
  | [] => 0
  | v :: vs => max v.depth (Value.depthAll vs)

end

namespace Value

/-- What holds of a list if it holds of its entries, and of all other values, holds of all values. -/
@[elab_as_elim]
theorem induction {motive : Value → Prop} (number : ∀ x, motive (.number x))
    (text : ∀ s, motive (.text s)) (bool : ∀ b, motive (.bool b)) (empty : motive .empty)
    (list : ∀ vs, (∀ v ∈ vs, motive v) → motive (.list vs)) (v : Value) : motive v :=
  match v with
  | .number x => number x
  | .text s => text s
  | .bool b => bool b
  | .empty => empty
  | .list vs => list vs fun v _ => induction number text bool empty list v

theorem numbersAll_eq_flatMap (vs : List Value) : numbersAll vs = vs.flatMap numbers := by
  induction vs with
  | nil => rfl
  | cons v vs ih => simp [numbersAll, ih]

theorem depthAll_le_iff (vs : List Value) (depth : Nat) :
    depthAll vs ≤ depth ↔ ∀ v ∈ vs, v.depth ≤ depth := by
  induction vs with
  | nil => simp [depthAll]
  | cons v vs ih => simp [depthAll, ih]

theorem toJsonAll_eq_map (vs : List Value) : toJsonAll vs = vs.map toJson := by
  induction vs with
  | nil => rfl
  | cons v vs ih => simp [toJsonAll, ih]

theorem ofJsonAll?_eq_mapM (xs : List Json) : ofJsonAll? xs = xs.mapM ofJson? := by
  induction xs with
  | nil => rfl
  | cons x xs ih =>
    rw [ofJsonAll?, ih, List.mapM_cons]
    cases ofJson? x <;> cases xs.mapM ofJson? <;> rfl

end Value

theorem Json.compactEntries_eq_map (xs : List Json) : compactEntries xs = xs.map compact := by
  induction xs with
  | nil => rfl
  | cons x xs ih => simp [compactEntries, ih]

namespace Stored

/-- The written form of a number is read as this number. -/
def ReadsBack (x : Float) : Prop :=
  load readValue (String.ofList (Value.number x).toJson.compact) = .ok (.number x)

instance : DecidablePred ReadsBack := fun x =>
  inferInstanceAs (Decidable (load readValue (String.ofList (Value.number x).toJson.compact)
    = .ok (.number x)))

/-! ## Reading whole texts -/

section

variable {α : Type} {reader : Nat → StoredReader α} {text : String} {x : α}

theorem exists_of_load_eq_ok (h : load reader text = .ok x) :
    ∃ rest, Json.taken (reader Json.maxDepth text.toList) = some (x, rest) ∧
      Json.skipSpace rest = [] := by
  unfold load at h
  split at h
  · cases h
  · rename_i y rest hlt hy
    split at h
    · rename_i hspace
      cases h
      exact ⟨rest, by rw [hy, Json.taken_ok], List.isEmpty_iff.mp hspace⟩
    · cases h

theorem load_eq_ok (h : Json.taken (reader Json.maxDepth text.toList) = some (x, [])) :
    load reader text = .ok x := by
  obtain ⟨hlt, hx⟩ := Json.exists_of_taken h
  unfold load
  rw [hx]
  rfl

theorem load_eq_error (h : Json.taken (reader Json.maxDepth text.toList) = none) :
    ∃ fault, load reader text = .error fault := by
  obtain ⟨fault, hfault⟩ := Json.taken_eq_none h
  unfold load
  rw [hfault]
  exact ⟨fault, rfl⟩

end

theorem taken_readValue (depth : Nat) (cs : List Char) :
    Json.taken (readValue depth cs)
      = (Json.taken (Json.readNested depth cs)).bind fun (x, rest) =>
          (Value.ofJson? x).map fun v => (v, rest) := by
  unfold readValue
  cases Json.readNested depth cs with
  | error fault => rfl
  | ok pair =>
    obtain ⟨x, rest⟩ := pair
    simp only [Json.taken_ok, Option.bind_some]
    cases Value.ofJson? x <;> rfl

end Stored

/-- How many levels may be opened only matters for lists and objects. -/
theorem Json.exists_readNested_eq (depth : Nat) :
    ∃ nested, readNested depth = readValue nested := by
  cases depth with
  | zero => exact ⟨none, rfl⟩
  | succ depth => exact ⟨some (readNested depth), rfl⟩

theorem Json.takes_readNested {written : List Char} {outcome : Option Json}
    (h : ∀ nested, (readValue nested).Takes written outcome) (depth : Nat) :
    (readNested depth).Takes written outcome := by
  obtain ⟨nested, hnested⟩ := exists_readNested_eq depth
  rw [hnested]
  exact h nested

theorem Value.exists_of_ofJson?_eq_number {x : Json} {y : Float}
    (h : ofJson? x = some (.number y)) : ∃ n, x = .number n ∧ n.toFloat = y := by
  cases x with
  | number n =>
    rw [ofJson?] at h
    cases h
    exact ⟨n, rfl, rfl⟩
  | array xs =>
    rw [ofJson?] at h
    obtain ⟨vs, -, hvs⟩ := Option.map_eq_some_iff.mp h
    cases hvs
  | null | bool | text | object => cases h

/-- A number whose written form is read alone is read anywhere. -/
theorem Stored.ReadsBack.takes {x : Float} (h : ReadsBack x) (hfinite : x.isFinite = true)
    (nested : Option (Json.Reader Json.Fault Json)) :
    (Json.readValue nested).Takes (Json.writeReal x) (some (.number (.real x))) := by
  have htext : (Value.number x).toJson.compact = Json.writeReal x := by
    rw [Value.toJson, if_pos hfinite]
    rfl
  obtain ⟨rest, hvalue, hrest⟩ := exists_of_load_eq_ok h
  rw [String.toList_ofList, htext, taken_readValue] at hvalue
  obtain ⟨⟨j, rest'⟩, hnested, hof⟩ := Option.bind_eq_some_iff.mp hvalue
  obtain ⟨v, hv, hpair⟩ := Option.map_eq_some_iff.mp hof
  cases hpair
  obtain ⟨n, rfl, hn⟩ := Value.exists_of_ofJson?_eq_number hv
  obtain ⟨nested', hnested'⟩ := Json.exists_readNested_eq Json.maxDepth
  rw [hnested'] at hnested
  exact Json.takes_writeReal hnested hrest hn

namespace Value

open Json (StartsEntry)

theorem startsEntry_compact (v : Value) : StartsEntry v.toJson.compact := by
  cases v with
  | number x =>
    rw [toJson]
    split
    · exact Json.startsEntry_writeReal x
    · exact ⟨'n', "ull".toList, rfl, rfl, by decide⟩
  | text s => exact ⟨'"', _, rfl, rfl, by decide⟩
  | bool b =>
    cases b with
    | true => exact ⟨'t', "rue".toList, rfl, rfl, by decide⟩
    | false => exact ⟨'f', "alse".toList, rfl, rfl, by decide⟩
  | list vs => exact ⟨'[', _, rfl, rfl, by decide⟩
  | empty => exact ⟨'n', "ull".toList, rfl, rfl, by decide⟩

/-- A list opens one level more than its entries. -/
theorem takes_compact_list {vs : List Value} {depth : Nat}
    (h : ∀ v ∈ vs, (Json.readNested depth).Takes v.toJson.compact
      (if v.depth ≤ depth then some v.toJson else none)) :
    (Json.readNested (depth + 1)).Takes (list vs).toJson.compact
      (if (list vs).depth ≤ depth + 1 then some (list vs).toJson else none) := by
  intro rest hrest
  have hlist := Json.Reader.Takes.readList id (fun v _ => v.startsEntry_compact) h rest hrest
  have htext : (list vs).toJson.compact ++ rest
      = '[' :: (Json.commaSeparated (vs.map fun v => v.toJson.compact) ++ [']'] ++ rest) := by
    simp [toJson, Json.compact, Json.compactEntries_eq_map, toJsonAll_eq_map, Function.comp_def]
  have hdepth : (list vs).depth ≤ depth + 1 ↔ ∀ v ∈ vs, v.depth ≤ depth := by
    rw [Value.depth, Nat.add_le_add_iff_right, depthAll_le_iff]
  rw [htext, Json.readNested, Json.taken_readValue_list, hlist, mapM_ite, toJson, toJsonAll_eq_map]
  by_cases hfit : ∀ v ∈ vs, v.depth ≤ depth
  · rw [if_pos hfit, if_pos (hdepth.mpr hfit)]
    rfl
  · rw [if_neg hfit, if_neg (hdepth.not.mpr hfit)]
    rfl

/-- **A value is read as what has been written**, if its lists are not too deep. -/
theorem takes_compact (v : Value) (depth : Nat)
    (h : ∀ x ∈ v.numbers, x.isFinite = true → Stored.ReadsBack x) :
    (Json.readNested depth).Takes v.toJson.compact
      (if v.depth ≤ depth then some v.toJson else none) := by
  induction v using induction generalizing depth with
  | number x =>
    rw [Value.depth, if_pos (Nat.zero_le depth), toJson]
    split
    · rename_i hfinite
      exact Json.takes_readNested ((h x (List.mem_singleton_self x) hfinite).takes hfinite) depth
    · exact Json.takes_readNested (fun nested rest _ => Json.taken_readValue_null nested rest) depth
  | text s =>
    rw [Value.depth, if_pos (Nat.zero_le depth)]
    exact Json.takes_readNested (fun nested rest _ => Json.taken_readValue_text nested rest s) depth
  | bool b =>
    rw [Value.depth, if_pos (Nat.zero_le depth)]
    exact Json.takes_readNested (fun nested rest _ => Json.taken_readValue_bool nested rest b) depth
  | empty =>
    rw [Value.depth, if_pos (Nat.zero_le depth)]
    exact Json.takes_readNested (fun nested rest _ => Json.taken_readValue_null nested rest) depth
  | list vs ih =>
    cases depth with
    | zero => exact fun rest _ => Json.taken_readValue_tooDeep _
    | succ depth =>
      refine takes_compact_list ?_
      intro v hv
      refine ih v hv depth ?_
      intro x hx
      refine h x ?_
      rw [numbers, numbersAll_eq_flatMap]
      exact List.mem_flatMap.mpr ⟨v, hv, hx⟩

end Value

end Formula

import Formula.Value

/-!
# Bindings

The variables of an evaluation: distinct names, each with its value. `get?_insert` and `get?_erase`
say what the operations do to the bindings of all names.
-/

namespace Formula

structure Bindings where
  entries : List (String × Value)
  distinct : (entries.map Prod.fst).Nodup

namespace Bindings

def empty : Bindings := ⟨[], by simp⟩

instance : EmptyCollection Bindings := ⟨empty⟩

instance : Inhabited Bindings := ⟨empty⟩

def get? (b : Bindings) (name : String) : Option Value := b.entries.lookup name

/-- Removes the binding of a name, if it has one. -/
def erase (b : Bindings) (name : String) : Bindings where
  entries := b.entries.filter fun entry => entry.1 != name
  distinct := (List.Sublist.map Prod.fst List.filter_sublist).nodup b.distinct

/-- Binds a name, in place of any earlier binding. -/
def insert (b : Bindings) (name : String) (v : Value) : Bindings where
  entries := (name, v) :: (b.erase name).entries
  distinct := by
    simp only [List.map_cons, List.nodup_cons, (b.erase name).distinct, and_true]
    simp [erase]

/-- The bindings of a list of pairs, of which a later one prevails. -/
def ofList (pairs : List (String × Value)) : Bindings :=
  pairs.foldl (fun b pair => b.insert pair.1 pair.2) empty

@[simp] theorem get?_empty (name : String) : empty.get? name = none := rfl

theorem lookup_filter_ne (entries : List (String × Value)) (erased name : String) :
    (entries.filter fun entry => entry.1 != erased).lookup name =
      if name = erased then none else entries.lookup name := by
  induction entries with
  | nil => simp
  | cons entry rest ih => grind

theorem get?_erase (b : Bindings) (erased name : String) :
    (b.erase erased).get? name = if name = erased then none else b.get? name :=
  lookup_filter_ne b.entries erased name

theorem get?_insert (b : Bindings) (bound name : String) (v : Value) :
    (b.insert bound v).get? name = if name = bound then some v else b.get? name := by
  have h := lookup_filter_ne b.entries bound name
  simp only [get?, insert, erase, List.lookup_cons, h]
  grind

end Bindings

end Formula

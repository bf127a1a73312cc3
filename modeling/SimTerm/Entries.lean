/-!
# Entries in name order

A table of named things kept as a list of pairs in ascending order of the names, each name once.
Names are ordered by code points, which is also the order of their UTF-8 bytes. `get?` reads the
table; `insert` and `erase` are described through it, and keep the order.
-/

namespace SimTerm

/-- Named values, meant to stand in ascending order of the names. -/
abbrev Entries (α : Type) := List (String × α)

namespace Entries

variable {α : Type}

/-- What a name stands for. -/
def get? (name : String) : Entries α → Option α
  | [] => none
  | (k, v) :: es => if name = k then some v else get? name es

/-- The names, in order. -/
def names (es : Entries α) : List String :=
  es.map (·.1)

/-- The table in which `name` stands for `value`, in its place by order or in the place of what the
name stood for before. -/
def insert (name : String) (value : α) : Entries α → Entries α
  | [] => [(name, value)]
  | (k, v) :: es =>
    if name = k then (name, value) :: es
    else if name < k then (name, value) :: (k, v) :: es
    else (k, v) :: insert name value es

/-- The table without `name`. -/
def erase (name : String) : Entries α → Entries α
  | [] => []
  | (k, v) :: es => if name = k then erase name es else (k, v) :: erase name es

/-- The table of a list of pairs; of two pairs with one name the later one stands. -/
def ofList (pairs : List (String × α)) : Entries α :=
  pairs.foldl (fun es p => insert p.1 p.2 es) []

/-- Each name comes before all names after it. -/
def Sorted (es : Entries α) : Prop :=
  es.Pairwise fun a b => a.1 < b.1

/-- A name that was put in has its value. -/
theorem get?_insert_self (name : String) (value : α) (es : Entries α) :
    (insert name value es).get? name = some value := by
  fun_induction insert name value es <;> simp_all [get?]

/-- Putting a name in makes no difference to the others. -/
theorem get?_insert_of_ne {name other : String} (h : other ≠ name) (value : α) (es : Entries α) :
    (insert name value es).get? other = es.get? other := by
  fun_induction insert name value es <;> simp_all [get?]

/-- A name that was taken out has no value. -/
theorem get?_erase_self (name : String) (es : Entries α) : (erase name es).get? name = none := by
  fun_induction erase name es <;> simp_all [get?]

/-- Taking a name out makes no difference to the others. -/
theorem get?_erase_of_ne {name other : String} (h : other ≠ name) (es : Entries α) :
    (erase name es).get? other = es.get? other := by
  fun_induction erase name es <;> simp_all [get?]

end Entries

end SimTerm

set_option autoImplicit false

/-! # Tables of names

A table binds each name at most once and keeps the order in which the names were first bound. -/

namespace ScriptLang

/-- What names are bound to, in the order of their first binding. -/
abbrev Bindings (α : Type) := List (String × α)

namespace Bindings

variable {α : Type}

/-- The table in which `name` is bound to `value` and every other name to what it was. -/
def insert (name : String) (value : α) : Bindings α → Bindings α
  | [] => [(name, value)]
  | (other, old) :: rest =>
    if other = name then (name, value) :: rest else (other, old) :: insert name value rest

/-- What a name is bound to. -/
def find? (name : String) : Bindings α → Option α
  | [] => none
  | (other, value) :: rest => if other = name then some value else find? name rest

/-- The entries, sorted by name. -/
def sorted (table : Bindings α) : Bindings α :=
  table.mergeSort fun (a, _) (b, _) => decide (a ≤ b)

end Bindings

end ScriptLang

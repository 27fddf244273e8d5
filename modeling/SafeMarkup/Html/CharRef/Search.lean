import SafeMarkup.Html.CharRef.Names

/-!
# Searching the names by halves

The names of the table are in ascending order. So a name is compared with the one in the middle, and
the search goes on in one half of the table.
-/

namespace SafeMarkup.Html.CharRef

/-- Looks for the position of an entry, from position `low` on and before position `high`. `order`
tells an entry that comes before the one looked for from one that comes after it. -/
def searchFrom {α : Type} (order : α → Ordering) (table : List α) (low high : Nat) : Option Nat :=
  if _ : low < high then do
    let middle := low + (high - low) / 2
    let entry ← table[middle]?
    match order entry with
    | .lt => searchFrom order table (middle + 1) high
    | .gt => searchFrom order table low middle
    | .eq => return middle
  else none
termination_by high - low

/-- The character of the reference with this name, if there is one. -/
def searchName? (name : Text) : Option Char := do
  let position ← searchFrom (fun entry => compare entry.1.toList name) named 0 named.length
  let entry ← named[position]?
  return entry.2

example : searchName? "amp".toList = some '&' := by decide +kernel

end SafeMarkup.Html.CharRef

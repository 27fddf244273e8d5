import Mathlib.Data.List.Chain
import SafeMarkup.Html.CharRef.Search

/-!
# Searching a table by halves

In a table in ascending order every entry before the one that is looked for compares as less, and
every entry after it as greater. So the half that is left out never holds it (`searchFrom_eq`), and
the search by halves finds a name if and only if looking at one entry after the other does
(`searchName?_eq`).
-/

namespace SafeMarkup.Html.CharRef

section Search

variable {α : Type} {order : α → Ordering} {table : List α} {low high position : Nat} {entry : α}

/-- Of any two entries the first one comes before what is looked for, or the second one after it. -/
def Ascending (order : α → Ordering) (table : List α) : Prop :=
  table.Pairwise fun a b => order a = .lt ∨ order b = .gt

/-- Of two entries in order, the first is too small or the second too large. -/
theorem Ascending.lt_or_gt (h : Ascending order table) {i j : Nat} {a b : α} (hij : i < j)
    (hi : table[i]? = some a) (hj : table[j]? = some b) : order a = .lt ∨ order b = .gt := by
  obtain ⟨hilen, rfl⟩ := List.getElem?_eq_some_iff.mp hi
  obtain ⟨hjlen, rfl⟩ := List.getElem?_eq_some_iff.mp hj
  exact List.pairwise_iff_getElem.mp h i j hilen hjlen hij

/-- What is found is what is looked for, in whatever order the table is. -/
theorem exists_of_searchFrom (h : searchFrom order table low high = some position) :
    ∃ entry, table[position]? = some entry ∧ order entry = .eq := by
  fun_induction searchFrom order table low high with
  | case1 low high hlt middle ihright ihleft =>
    cases hentry : table[middle]? with
    | none => simp [hentry] at h
    | some entry =>
      simp only [hentry, Option.bind_eq_bind, Option.bind_some] at h
      split at h
      · exact ihright h
      · exact ihleft h
      · next heq => exact ⟨entry, Option.some.inj h ▸ hentry, heq⟩
  | case2 => cases h

/-- **In an ascending table what is there is found.** -/
theorem searchFrom_eq (hsorted : Ascending order table) (hentry : table[position]? = some entry)
    (heq : order entry = .eq) (hlow : low ≤ position) (hhigh : position < high)
    (hend : high ≤ table.length) : searchFrom order table low high = some position := by
  fun_induction searchFrom order table low high with
  | case1 low high hlt middle ihright ihleft =>
    have hmiddle : middle < high := by omega
    obtain ⟨other, hother⟩ : ∃ other, table[middle]? = some other :=
      ⟨_, List.getElem?_eq_getElem (Nat.lt_of_lt_of_le hmiddle hend)⟩
    simp only [hother, Option.bind_eq_bind, Option.bind_some]
    -- the entry that is looked for does not compare as less or greater itself
    rcases Nat.lt_trichotomy position middle with hbefore | hhere | hafter
    · have hgt : order other = .gt := by
        simpa [heq] using hsorted.lt_or_gt hbefore hentry hother
      simp only [hgt]
      exact ihleft hlow hbefore (by omega)
    · obtain rfl : entry = other := by
        rw [hhere] at hentry
        exact Option.some.inj (hentry.symm.trans hother)
      simp only [heq, hhere]
      rfl
    · have hlt : order other = .lt := by
        simpa [heq] using hsorted.lt_or_gt hafter hother hentry
      simp only [hlt]
      exact ihright hafter hhigh hend
  | case2 low high hge => omega

end Search

/-! ### The table of names -/

/-- The name of the one entry comes before that of the other one. -/
def Precedes (a b : String × Char) : Prop := compare a.1.toList b.1.toList = .lt

instance : DecidableRel Precedes := fun a b =>
  inferInstanceAs (Decidable (compare a.1.toList b.1.toList = .lt))

instance : Trans Precedes Precedes Precedes := ⟨Std.TransCmp.lt_trans⟩

/-- Each name comes before the next one. -/
theorem isChain_named : named.IsChain Precedes := by decide +kernel

theorem ascending_named (name : Text) :
    Ascending (fun entry => compare entry.1.toList name) named := by
  refine (List.isChain_iff_pairwise.mp isChain_named).imp fun {a b} hab => ?_
  cases hname : compare a.1.toList name with
  | lt => exact .inl hname
  | eq =>
    obtain rfl := Std.LawfulEqCmp.compare_eq_iff_eq.mp hname
    exact .inr (Std.OrientedCmp.gt_iff_lt.mpr hab)
  | gt =>
    have hbefore : compare name a.1.toList = .lt := Std.OrientedCmp.gt_iff_lt.mp hname
    exact .inr (Std.OrientedCmp.gt_iff_lt.mpr (Std.TransCmp.lt_trans hbefore hab))

/-- **A name is found by halves as it is found one by one.** -/
theorem searchName?_eq (name : Text) : searchName? name = lookup? name := by
  rw [searchName?, lookup?]
  cases hfind : named.find? (fun entry => entry.1.toList == name) with
  | some entry =>
    have hname := List.find?_some hfind
    obtain ⟨position, hlen, hentry⟩ := List.getElem_of_mem (List.mem_of_find?_eq_some hfind)
    have hentry' : named[position]? = some entry :=
      List.getElem?_eq_some_iff.mpr ⟨hlen, hentry⟩
    have hposition := searchFrom_eq (ascending_named name) hentry'
      (Std.LawfulEqCmp.compare_eq_iff_eq.mpr (eq_of_beq hname)) (Nat.zero_le _) hlen
      (Nat.le_refl _)
    rw [hposition]
    simp [hentry']
  | none =>
    -- what the search would find is in the table
    cases hsearch : searchFrom (fun entry => compare entry.1.toList name) named 0 named.length with
    | none => rfl
    | some position =>
      obtain ⟨entry, hentry, heq⟩ := exists_of_searchFrom hsearch
      have hname : entry.1.toList = name := Std.LawfulEqCmp.compare_eq_iff_eq.mp heq
      have hmem : entry ∈ named := List.mem_of_getElem? hentry
      exact absurd (beq_iff_eq.mpr hname) (List.find?_eq_none.mp hfind entry hmem)

end SafeMarkup.Html.CharRef

import Mathlib.Data.Char
import Mathlib.Data.List.Lex
import Mathlib.Data.List.Sort
import SafeMarkup.Value.Literal

/-!
# The order of fields does not matter

An object may list its fields in any order: they are sorted by name before they are written. If no
two names are the same, there is only one sorted order (`sortFields_eq_of_perm`). So values that
differ in nothing but the order of such fields have the same literal, however deep in them the
fields stand.
-/

namespace SafeMarkup

/-- The order of texts is the lexicographic one. -/
theorem Text.le_iff (a b : Text) : Text.le a b = true ↔ a ≤ b := by
  induction a generalizing b with
  | nil =>
    cases b with
    | nil => exact iff_of_true rfl le_rfl
    | cons d b => exact iff_of_true rfl (le_of_lt .nil)
  | cons c a ih =>
    cases b with
    | nil => exact iff_of_false (by simp [Text.le]) (not_le_of_gt .nil)
    | cons d b =>
      simp only [Text.le, Bool.or_eq_true, Bool.and_eq_true, decide_eq_true_eq, beq_iff_eq, ih]
      -- the first characters decide, unless they are the same
      rcases lt_trichotomy c d with hcd | rfl | hdc
      · exact iff_of_true (.inl hcd) (le_of_lt (.rel hcd))
      · refine ⟨fun h => ?_, fun h => .inr ⟨rfl, ?_⟩⟩
        · exact List.cons_le_cons c (h.resolve_left (lt_irrefl c)).2
        · exact not_lt.mp fun hlt => absurd h (not_le_of_gt (.cons hlt))
      · exact iff_of_false (not_or.mpr ⟨not_lt_of_gt hdc, fun h => absurd h.1 hdc.ne'⟩)
          (not_le_of_gt (.rel hdc))

/-- **Fields with different names have one sorted order only.** -/
theorem sortFields_eq_of_perm {a b : List (Text × Text)} (hperm : a.Perm b)
    (hnames : (a.map Prod.fst).Nodup) : sortFields a = sortFields b := by
  have hsorted (fields : List (Text × Text)) :
      (sortFields fields).Pairwise fun x y => Text.le x.1 y.1 = true := by
    refine List.pairwise_mergeSort (fun x y z hxy hyz => ?_) (fun x y => ?_) fields
    · rw [Text.le_iff] at hxy hyz ⊢
      exact le_trans hxy hyz
    · rw [Bool.or_eq_true, Text.le_iff, Text.le_iff]
      exact le_total x.1 y.1
  have hsame : (sortFields a).Perm (sortFields b) :=
    (List.mergeSort_perm a _).trans (hperm.trans (List.mergeSort_perm b _).symm)
  refine hsame.eq_of_pairwise (fun x y hx hy hxy hyx => ?_) (hsorted a) (hsorted b)
  -- fields whose names come before one another have one name, so they are one field
  rw [Text.le_iff] at hxy hyx
  have hxa : x ∈ a := List.mem_mergeSort.mp hx
  have hya : y ∈ a := hperm.mem_iff.mpr (List.mem_mergeSort.mp hy)
  exact List.inj_on_of_nodup_map hnames hxa hya (le_antisymm hxy hyx)

/-! ### The parts of a value -/

/-- The names under which an object exposes something. -/
def exposedNames (fields : List (Text × Value)) (typeName : Option Text) : List Text :=
  fields.map Prod.fst ++ (typeName.map fun _ => "class".toList).toList

/-- The fields of a literal have the names that it exposes. -/
theorem map_fst_exposed (depth : Nat) (fields : List (Text × Value)) (typeName : Option Text) :
    (fieldLiteralsAt depth fields ++ classField depth typeName).map Prod.fst
      = exposedNames fields typeName := by
  rw [fieldLiteralsAt_eq_map, List.map_append, List.map_map, exposedNames]
  cases typeName <;> rfl

/-! ### Reordering -/

/-- The values differ in nothing but the order of fields: some objects, wherever they stand in the
value, list their fields in another order. An object whose fields may stand in any order exposes no
two of them under the same name. -/
inductive Value.Reordered : Value → Value → Prop where
  | fields (display : Text) (fields fields' : List (Text × Value)) (typeName : Option Text)
      (hnames : (exposedNames fields typeName).Nodup) (hperm : fields.Perm fields') :
      Reordered (.object display fields typeName) (.object display fields' typeName)
  | inItem (before after : List Value) (v v' : Value) (h : Reordered v v') :
      Reordered (.list (before ++ v :: after)) (.list (before ++ v' :: after))
  | inField (display : Text) (before after : List (Text × Value)) (name : Text)
      (typeName : Option Text) (v v' : Value) (h : Reordered v v') :
      Reordered (.object display (before ++ (name, v) :: after) typeName)
        (.object display (before ++ (name, v') :: after) typeName)
  | refl (v : Value) : Reordered v v
  | trans (u v w : Value) (h : Reordered u v) (h' : Reordered v w) : Reordered u w

/-- At every depth the literal does not depend on the order. -/
theorem Value.Reordered.literalAt_eq {v v' : Value} (h : v.Reordered v') (depth : Nat) :
    v.literalAt depth = v'.literalAt depth := by
  induction h generalizing depth with
  | fields display fields fields' typeName hnames hperm =>
    -- sorting brings both orders to one, since no two names are the same
    have hsame : sortFields (fieldLiteralsAt (depth + 1) fields ++ classField (depth + 1) typeName)
        = sortFields (fieldLiteralsAt (depth + 1) fields' ++ classField (depth + 1) typeName) := by
      refine sortFields_eq_of_perm (.append_right _ ?_) (by rwa [map_fst_exposed])
      rw [fieldLiteralsAt_eq_map, fieldLiteralsAt_eq_map]
      exact hperm.map _
    rw [Value.literalAt.eq_def, Value.literalAt.eq_def]
    simp only [hsame]
  | inItem before after v v' _ ih =>
    rw [Value.literalAt.eq_def, Value.literalAt.eq_def]
    simp only [itemLiteralsAt_eq_map, List.map_append, List.map_cons, ih]
  | inField display before after name typeName v v' _ ih =>
    rw [Value.literalAt.eq_def, Value.literalAt.eq_def]
    simp only [fieldLiteralsAt_eq_map, List.map_append, List.map_cons, ih]
  | refl => rfl
  | trans u v w _ _ ih ih' => rw [ih, ih']

/-- **The literal of a value does not depend on the order of fields**, at any depth. -/
theorem Value.Reordered.literal_eq {v v' : Value} (h : v.Reordered v') : v.literal = v'.literal :=
  h.literalAt_eq 0

/-- Two fields in another order, in an object and in another one in a list in it. -/
theorem Value.literal_of_reordered_twice :
    let point (fields : List (Text × Value)) : Value := .object [] fields (some "Point".toList)
    let x := ("x".toList, Value.int 1)
    let y := ("y".toList, Value.int 2)
    let first := ("first".toList, Value.list [point [y, x]])
    let first' := ("first".toList, Value.list [point [x, y]])
    let last := ("last".toList, Value.null)
    Value.Reordered (.object [] [last, first] none) (.object [] [first', last] none)
      ∧ (Value.object [] [last, first] none).literal
        = (Value.object [] [first', last] none).literal := by
  intro point x y first first' last
  have hpoint : (point [y, x]).Reordered (point [x, y]) :=
    .fields _ _ _ _ (by decide) (.swap x y [])
  have hfirst : Value.Reordered (.object [] [last, first] none) (.object [] [last, first'] none) :=
    .inField [] [last] [] _ none _ _ (.inItem [] [] _ _ hpoint)
  have hlast : Value.Reordered (.object [] [last, first'] none) (.object [] [first', last] none) :=
    .fields _ _ _ _ (by decide) (.swap first' last [])
  have hreordered := Value.Reordered.trans _ _ _ hfirst hlast
  exact ⟨hreordered, hreordered.literal_eq⟩

end SafeMarkup

import SafeMarkup.Proofs.LiteralReading

/-!
# What the literal of a value says

The literal of a value says its normal form, and nothing else: a character is a string, a number
its text, an object its fields in the order of their names, and what is nested too deep is null.
The literal is the normal form as it is written (`literalAt_eq_write`), so it is read back as the
normal form, and two values have the same literal exactly if their normal forms are the same.
-/

namespace SafeMarkup

/-- What holds of a list or object if it holds of its parts holds of every value. -/
@[elab_as_elim]
theorem Value.inductionOn {P : Value → Prop} (v : Value) (null : P .null)
    (bool : ∀ b, P (.bool b)) (int : ∀ n, P (.int n)) (nat : ∀ n, P (.nat n))
    (float : ∀ x, P (.float x)) (char : ∀ c, P (.char c)) (str : ∀ t, P (.str t))
    (list : ∀ items, (∀ item ∈ items, P item) → P (.list items))
    (object : ∀ display fields typeName, (∀ field ∈ fields, P field.2) →
      P (.object display fields typeName)) : P v :=
  @Value.rec P (fun items => ∀ item ∈ items, P item)
    (fun fields => ∀ field ∈ fields, P field.2) (fun field => P field.2)
    null bool int nat float char str list object
    (by simp) (fun _ _ hitem hitems => List.forall_mem_cons.mpr ⟨hitem, hitems⟩)
    (by simp) (fun _ _ hfield hfields => List.forall_mem_cons.mpr ⟨hfield, hfields⟩)
    (fun _ _ hvalue => hvalue) v

/-! ### Numbers -/

namespace Js

variable {t whole fraction : Text}

/-- Digits are a decimal numeral without a point. -/
theorem isDecimal_digits (hne : t ≠ []) (ht : ∀ c ∈ t, c.isDigit = true) : isDecimal t = true := by
  have htake : t.takeWhile Char.isDigit = t := List.takeWhile_eq_self_iff.mpr ht
  have hdrop : t.dropWhile Char.isDigit = [] := List.dropWhile_eq_nil_iff.mpr ht
  obtain ⟨c, u, rfl⟩ := List.exists_cons_of_ne_nil hne
  rw [isDecimal, htake, hdrop]

theorem isDecimal_point (hne : whole ≠ []) (hwhole : ∀ c ∈ whole, c.isDigit = true)
    (hne' : fraction ≠ []) (hfraction : ∀ c ∈ fraction, c.isDigit = true) :
    isDecimal (whole ++ '.' :: fraction) = true := by
  have htake : (whole ++ '.' :: fraction).takeWhile Char.isDigit = whole := by
    rw [List.takeWhile_append_of_pos hwhole, List.takeWhile_cons_of_neg (by decide),
      List.append_nil]
  have hdrop : (whole ++ '.' :: fraction).dropWhile Char.isDigit = '.' :: fraction := by
    rw [List.dropWhile_append_of_pos hwhole, List.dropWhile_cons_of_neg (by decide)]
  obtain ⟨c, u, rfl⟩ := List.exists_cons_of_ne_nil hne
  rw [isDecimal, htake, hdrop]
  simpa [hne'] using hfraction

/-- However the digits of a number lie around its point, they are written as a decimal numeral. -/
theorem isDecimal_positional {d : Decimal} (hne : d.digits ≠ [])
    (hd : ∀ c ∈ d.digits, c.isDigit = true) : isDecimal (d.positional false) = true := by
  have zeros {n : Nat} {c : Char} (hc : c ∈ List.replicate n '0') : c.isDigit = true := by
    rw [List.eq_of_mem_replicate hc]
    rfl
  -- the point stands behind all digits, among them, or before all of them
  unfold Decimal.positional
  split
  · rw [if_neg (by simp), List.append_nil]
    refine isDecimal_digits (by simp [hne]) fun c hc => ?_
    exact (List.mem_append.mp hc).elim (hd c) zeros
  split
  · rw [List.append_assoc, List.singleton_append]
    refine isDecimal_point ?_ (fun c hc => hd c (List.mem_of_mem_take hc)) ?_
      fun c hc => hd c (List.mem_of_mem_drop hc)
    · simp only [ne_eq, List.take_eq_nil_iff, hne, or_false]
      omega
    · rw [ne_eq, List.drop_eq_nil_iff]
      omega
  · refine isDecimal_point (by simp : ['0'] ≠ []) (List.all_eq_true.mp rfl) (by simp [hne])
      fun c hc => ?_
    exact (List.mem_append.mp hc).elim zeros (hd c)

theorem isMagnitude_of_isDecimal (h : isDecimal t = true) : isMagnitude t = true := by
  rw [isMagnitude, h, Bool.or_true]

/-- The sign of a number is not a part of its magnitude. -/
theorem not_isMagnitude_sign (t : Text) : isMagnitude ('-' :: t) = false := by
  simp [isMagnitude, isDecimal]

/-- Only the sign starts with a minus. -/
theorem head?_of_isMagnitude (h : isMagnitude t = true) : t.head? ≠ some '-' := by
  cases t with
  | nil => simp
  | cons c t =>
    rintro hc
    rw [Option.some.inj hc, not_isMagnitude_sign] at h
    cases h

/-- A number may have no sign. -/
theorem isNumber_of_isMagnitude (h : isMagnitude t = true) : isNumber t = true := by
  unfold isNumber
  split
  · rw [not_isMagnitude_sign] at h
    cases h
  · rw [h, Bool.or_true]

/-- A magnitude with a sign or without one is a number, and the sign is seen. -/
theorem isNumber_signed (h : isMagnitude t = true) (negative : Bool) :
    isNumber ((if negative then ['-'] else []) ++ t) = true
      ∧ (((if negative then ['-'] else []) ++ t).head? == some '-') = negative := by
  cases negative with
  | true => exact ⟨h, rfl⟩
  | false => exact ⟨isNumber_of_isMagnitude h, beq_eq_false_iff_ne.mpr (head?_of_isMagnitude h)⟩

theorem isMagnitude_ofNat (n : Nat) : isMagnitude (Text.ofNat n) = true :=
  isMagnitude_of_isDecimal (isDecimal_digits Nat.toDigits_ne_nil fun _ hc => isDigit_ofNat hc)

/-- An integer is written as its sign and a natural number. -/
theorem ofInt_eq (n : Int) :
    Text.ofInt n = (if decide (n < 0) then ['-'] else []) ++ Text.ofNat n.natAbs := by
  cases n with
  | ofNat n => simp [Text.ofInt]
  | negSucc n => simp [Text.ofInt, Int.negSucc_lt_zero]

theorem exists_isMagnitude_write {x : Binary64} (h : x.isNaN = false) :
    ∃ t, isMagnitude t = true
      ∧ Layout.page.write x = (if x.isNegative then ['-'] else []) ++ t := by
  obtain ⟨hne, hdigits⟩ := x.shortest_digits
  cases hinfinite : x.isInfinite with
  | true => exact ⟨Layout.page.infinity, by decide, by simp [Layout.write, h, hinfinite]⟩
  | false =>
    exact ⟨_, isMagnitude_of_isDecimal (isDecimal_positional hne hdigits),
      by simp [Layout.write, h, hinfinite, Layout.page]⟩

theorem write_of_isNaN {x : Binary64} (h : x.isNaN = true) :
    Layout.page.write x = "NaN".toList := by
  simp [Layout.write, h, Layout.page]

namespace Numeral

/-- The numeral of an integer. -/
def ofInt (n : Int) : Numeral where
  text := Text.ofInt n
  valid := by
    rw [ofInt_eq]
    exact (isNumber_signed (isMagnitude_ofNat _) _).1

/-- The numeral of a natural number. -/
def ofNat (n : Nat) : Numeral where
  text := Text.ofNat n
  valid := isNumber_of_isMagnitude (isMagnitude_ofNat n)

/-- The numeral of a float. -/
def ofBinary64 (x : Binary64) : Numeral where
  text := Layout.page.write x
  valid := by
    -- a number, or the word for none
    cases hnan : x.isNaN with
    | true =>
      rw [write_of_isNaN hnan]
      decide
    | false =>
      obtain ⟨t, ht, hwrite⟩ := exists_isMagnitude_write hnan
      rw [hwrite]
      exact (isNumber_signed ht _).1

theorem isNegative_ofInt (n : Int) : (ofInt n).isNegative = decide (n < 0) := by
  show ((Text.ofInt n).head? == some '-') = decide (n < 0)
  rw [ofInt_eq]
  exact (isNumber_signed (isMagnitude_ofNat _) _).2

theorem isNegative_ofNat (n : Nat) : (ofNat n).isNegative = false :=
  beq_eq_false_iff_ne.mpr (head?_of_isMagnitude (isMagnitude_ofNat n))

/-- A float that is no number is written without a sign, whatever its bits say. -/
theorem isNegative_ofBinary64 (x : Binary64) :
    (ofBinary64 x).isNegative = (x.isNegative && !x.isNaN) := by
  show ((Layout.page.write x).head? == some '-') = (x.isNegative && !x.isNaN)
  cases hnan : x.isNaN with
  | true =>
    rw [write_of_isNaN hnan, Bool.not_true, Bool.and_false]
    decide
  | false =>
    obtain ⟨t, ht, hwrite⟩ := exists_isMagnitude_write hnan
    rw [hwrite, (isNumber_signed ht _).2, Bool.not_false, Bool.and_true]

end Numeral

/-- Sorts fields by the code points of their names. Fields with the same name stay in order. -/
def sortByName (fields : List (Text × Literal)) : List (Text × Literal) :=
  fields.mergeSort fun a b => Text.le a.1 b.1

end Js

/-! ### Normal forms -/

/-- The part that exposes the name of an object's type, unless it is nested too deep. -/
def classPart (depth : Nat) : Option Text → List (Text × Js.Literal)
  | none => []
  | some name => [("class".toList, if literalDepth < depth then .null else .string name)]

mutual

/-- The normal form of a value at this depth of nesting. -/
def Value.normalAt (depth : Nat) (value : Value) : Js.Literal :=
  if literalDepth < depth then .null
  else
    match value with
    | .null => .null
    | .bool b => .bool b
    | .int n => .number (.ofInt n)
    | .nat n => .number (.ofNat n)
    | .float x => .number (.ofBinary64 x)
    | .char c => .string [c]
    | .str t => .string t
    | .list items => .list (normalItemsAt (depth + 1) items)
    | .object _ fields typeName =>
      .object (Js.sortByName
        (normalFieldsAt (depth + 1) fields ++ classPart (depth + 1) typeName))

/-- The normal forms of the items of a list. -/
def normalItemsAt (depth : Nat) : List Value → List Js.Literal
  | [] => []
  | item :: items => item.normalAt depth :: normalItemsAt depth items

/-- The fields of an object, with the normal forms of their values. -/
def normalFieldsAt (depth : Nat) : List (Text × Value) → List (Text × Js.Literal)
  | [] => []
  | (name, value) :: fields => (name, value.normalAt depth) :: normalFieldsAt depth fields

end

/-- The normal form of a value. -/
def Value.normal (value : Value) : Js.Literal := value.normalAt 0

/-- Whatever is written for a value, below the greatest depth it is `null`. -/
theorem write_cutOff (depth : Nat) {t : Text} {l : Js.Literal} (h : t = l.write) :
    cutOff depth t = (if literalDepth < depth then .null else l : Js.Literal).write := by
  unfold cutOff
  split
  · rfl
  · exact h

/-- If each item is written as its normal form, so is the list of them. -/
theorem itemLiteralsAt_eq_write {depth : Nat} {items : List Value}
    (h : ∀ item ∈ items, item.literalAt depth = (item.normalAt depth).write) :
    itemLiteralsAt depth items = Js.writeItems (normalItemsAt depth items) := by
  induction items with
  | nil => rfl
  | cons item items ih =>
    obtain ⟨hitem, hitems⟩ := List.forall_mem_cons.mp h
    rw [itemLiteralsAt, normalItemsAt, Js.writeItems, hitem, ih hitems]

/-- If the value of each field is written as its normal form, so are the fields. -/
theorem fieldLiteralsAt_eq_write {depth : Nat} {fields : List (Text × Value)}
    (h : ∀ field ∈ fields, field.2.literalAt depth = (field.2.normalAt depth).write) :
    fieldLiteralsAt depth fields = Js.writeFields (normalFieldsAt depth fields) := by
  induction fields with
  | nil => rfl
  | cons field fields ih =>
    obtain ⟨hfield, hfields⟩ := List.forall_mem_cons.mp h
    rw [fieldLiteralsAt, normalFieldsAt, Js.writeFields, hfield, ih hfields]

/-- The name of the type is written like a field. -/
theorem classField_eq_write (depth : Nat) (typeName : Option Text) :
    classField depth typeName = Js.writeFields (classPart depth typeName) := by
  cases typeName with
  | none => rfl
  | some name =>
    have hname := write_cutOff depth (t := Js.stringLiteral name) (l := .string name) rfl
    rw [classField, classPart, Js.writeFields, Js.writeFields, hname]

/-- Sorting the fields before they are written is sorting them afterwards. -/
theorem sortFields_writeFields (fields : List (Text × Js.Literal)) :
    sortFields (Js.writeFields fields) = Js.writeFields (Js.sortByName fields) := by
  rw [Js.writeFields_eq, Js.writeFields_eq, sortFields, Js.sortByName, List.map_mergeSort]
  exact fun _ _ _ _ => rfl

/-- **The literal of a value is its normal form, as it is written.** By induction on the value. -/
theorem literalAt_eq_write (depth : Nat) (v : Value) :
    v.literalAt depth = (v.normalAt depth).write := by
  induction v using Value.inductionOn generalizing depth with
  | null | bool | char | str =>
    rw [Value.literalAt.eq_def, Value.normalAt.eq_def]
    exact write_cutOff depth rfl
  -- numbers differ in where their sign comes from
  | int n =>
    rw [Value.literalAt.eq_def, Value.normalAt.eq_def]
    exact write_cutOff depth (by rw [Js.Literal.write, Js.Numeral.isNegative_ofInt]; rfl)
  | nat n =>
    rw [Value.literalAt.eq_def, Value.normalAt.eq_def]
    exact write_cutOff depth (by rw [Js.Literal.write, Js.Numeral.isNegative_ofNat]; rfl)
  | float x =>
    rw [Value.literalAt.eq_def, Value.normalAt.eq_def]
    exact write_cutOff depth (by rw [Js.Literal.write, Js.Numeral.isNegative_ofBinary64]; rfl)
  -- the induction hypothesis is about the items at any depth, here at the next one
  | list items ih =>
    rw [Value.literalAt.eq_def, Value.normalAt.eq_def]
    refine write_cutOff depth ?_
    have hitems := itemLiteralsAt_eq_write fun item hitem => ih item hitem (depth + 1)
    simp only [hitems, Js.Literal.write]
  | object display fields typeName ih =>
    rw [Value.literalAt.eq_def, Value.normalAt.eq_def]
    refine write_cutOff depth ?_
    -- the field for the type comes last, and is sorted with the others
    have hfields : fieldLiteralsAt (depth + 1) fields ++ classField (depth + 1) typeName
        = Js.writeFields
          (normalFieldsAt (depth + 1) fields ++ classPart (depth + 1) typeName) := by
      rw [fieldLiteralsAt_eq_write fun field hfield => ih field hfield (depth + 1),
        classField_eq_write, Js.writeFields_eq, Js.writeFields_eq, Js.writeFields_eq,
        List.map_append]
    simp only [hfields, sortFields_writeFields, Js.Literal.write]

theorem literal_eq_write (v : Value) : v.literal = v.normal.write := literalAt_eq_write 0 v

/-- **The literal of a value is read back as its normal form**, and what is outside of strings is
harmless. Values with different normal forms have different literals. -/
theorem literals_are_read_back (v : Value) :
    Js.Literal.parse v.literal = some v.normal
      ∧ (∀ w : Value, v.literal = w.literal ↔ v.normal = w.normal)
      ∧ (Js.outsideStrings v.literal).all Js.isHarmless = true := by
  refine ⟨?_, fun w => ?_, ?_⟩
  · rw [literal_eq_write, Js.parse_write]
  · rw [literal_eq_write, literal_eq_write]
    exact Js.write_injective.eq_iff
  · rw [literal_eq_write]
    exact List.all_eq_true.mpr fun c hc => Js.isHarmless_of_mem_outsideStrings v.normal hc

end SafeMarkup

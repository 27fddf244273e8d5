import Mathlib.Data.List.TakeWhile
import SafeMarkup.Value.Literal
import SafeMarkup.Proofs.JsEscape

/-!
# Literals in JS code

The literal of a value is an expression: JS code goes on after it as before it, it has no character
with a meaning in markup, and it does not turn a `/` before it into the start of a comment. Code
made up of such pieces is code of that kind again, so this goes by induction on the value
(`isExpression_literalAt`).
-/

namespace SafeMarkup

/-! ### Numerals -/

theorem isDigit_ofNat {n : Nat} {c : Char} (h : c ∈ Text.ofNat n) : c.isDigit = true :=
  Nat.isDigit_of_mem_toDigits (by decide) (by decide) h

namespace Decimal

theorem isDigit_ofNat {n : Nat} {exponent : Int} {c : Char} (h : c ∈ (ofNat n exponent).digits) :
    c.isDigit = true := by
  simp only [ofNat, List.mem_reverse] at h
  exact SafeMarkup.isDigit_ofNat (List.mem_reverse.mp ((List.dropWhile_sublist _).subset h))

/-- A positive number has a digit that is not zero. -/
theorem digits_ofNat_ne_nil {n : Nat} (hn : n ≠ 0) (exponent : Int) :
    (ofNat n exponent).digits ≠ [] := by
  intro hnil
  simp only [ofNat, List.reverse_eq_nil_iff] at hnil
  rw [List.dropWhile_eq_nil_iff] at hnil
  have hzeros : Text.ofNat n = List.replicate (Text.ofNat n).length '0' :=
    List.eq_replicate_of_mem fun c hc => by simpa using hnil c (List.mem_reverse.mpr hc)
  have hvalue : Nat.ofDigitChars 10 (Text.ofNat n) 0 = n :=
    Nat.ofDigitChars_toDigits (by decide) (by decide)
  rw [hzeros, Nat.ofDigitChars_replicate_zero] at hvalue
  exact hn (by omega)

end Decimal

namespace RoundingInterval

/-- Nothing positive is rounded to zero. -/
theorem nearest?_ne_zero {r : RoundingInterval} (h : 0 < r.below) {exponent : Int} {n : Nat}
    (hn : r.nearest? exponent = some n) : n ≠ 0 := by
  have hpos : 0 < r.below * (Nat.pow 2 r.scale.toNat * Nat.pow 10 (-exponent).toNat) :=
    Nat.mul_pos h (Nat.mul_pos (Nat.pow_pos (by decide)) (Nat.pow_pos (by decide)))
  unfold nearest? at hn
  extract_lets unit scaled contains m at hn
  -- zero does not lie in the interval, since the whole of it is positive
  have hzero : contains 0 = false := by
    have hnot : ¬ scaled r.below ≤ 0 := Nat.not_le.mpr hpos
    simp only [contains, Nat.zero_mul]
    split
    · rw [decide_eq_false hnot, Bool.false_and]
    · rw [decide_eq_false (Nat.not_lt_zero _), Bool.false_and]
  -- both neighbours have been tried, and the one above is never zero
  by_cases hm : contains m = true
  · rw [if_pos hm] at hn
    split at hn
    · rw [← Option.some.inj hn]
      exact Nat.succ_ne_zero m
    · rw [← Option.some.inj hn]
      intro h0
      rw [h0, hzero] at hm
      cases hm
  · rw [if_neg hm] at hn
    split at hn
    · rw [← Option.some.inj hn]
      exact Nat.succ_ne_zero m
    · cases hn

/-- The shortest decimal of an interval has digits, and nothing else. -/
theorem shortest_digits {r : RoundingInterval} (h : r.value ≠ 0 → 0 < r.below) :
    r.shortest.digits ≠ [] ∧ ∀ c ∈ r.shortest.digits, c.isDigit = true := by
  have hzero : Decimal.zero.digits ≠ [] ∧ ∀ c ∈ Decimal.zero.digits, c.isDigit = true :=
    ⟨by decide, List.all_eq_true.mp rfl⟩
  unfold shortest
  split
  · exact hzero
  · next hvalue =>
    dsimp only
    cases hfound : List.findSome? _ (List.range 17) with
    | none => exact hzero
    | some d =>
      obtain ⟨n, -, hd⟩ := List.exists_of_findSome?_eq_some hfound
      obtain ⟨m, hm, rfl⟩ := Option.map_eq_some_iff.mp hd
      exact ⟨Decimal.digits_ofNat_ne_nil (nearest?_ne_zero (h hvalue) hm) _,
        fun c hc => Decimal.isDigit_ofNat hc⟩

end RoundingInterval

theorem Binary64.shortest_digits (x : Binary64) :
    x.shortest.digits ≠ [] ∧ ∀ c ∈ x.shortest.digits, c.isDigit = true := by
  refine RoundingInterval.shortest_digits fun hvalue => ?_
  simp only [RoundingInterval.ofBinary64] at hvalue ⊢
  split <;> omega

/-! ### Code -/

namespace Js

/-- Text after which JS code goes on as before it. -/
structure IsCode (t : Text) : Prop where
  keeps : ∀ ctx : Context, ctx.state = .js .code → ctx.flags = {} →
    (ctx.feedAll t).state = .js .code ∧ (ctx.feedAll t).flags = {}
  inline : ∀ c ∈ t, isInline c = true

/-- Code that does not make a comment of a `/` before it. -/
structure IsExpression (t : Text) : Prop extends IsCode t where
  first : ∃ c rest, t = c :: rest ∧ c ≠ '/' ∧ c ≠ '*'

/-- Is `c` neither a quote nor a `/` nor without a place in literals? -/
def isToken (c : Char) : Bool := c != '"' && c != '\'' && c != '\x60' && c != '/' && isInline c

theorem isCode_nil : IsCode [] := ⟨fun _ hs hf => ⟨hs, hf⟩, by simp⟩

/-- Two pieces of code, one after the other, are code. -/
theorem IsCode.append {a b : Text} (ha : IsCode a) (hb : IsCode b) : IsCode (a ++ b) where
  keeps ctx hs hf := by
    obtain ⟨hs', hf'⟩ := ha.keeps ctx hs hf
    rw [Context.feedAll_append]
    exact hb.keeps _ hs' hf'
  inline c hc := by
    rcases List.mem_append.mp hc with hc | hc
    · exact ha.inline c hc
    · exact hb.inline c hc

/-- A character that starts no string, no template and no comment is code. -/
theorem isCode_token {c : Char} (hc : isToken c = true) : IsCode [c] where
  keeps ctx hs hf := by
    simp only [isToken, Bool.and_eq_true, bne_iff_ne] at hc
    obtain ⟨⟨⟨⟨hdouble, hsingle⟩, htemplate⟩, hslash⟩, -⟩ := hc
    -- of all characters of code only these four lead elsewhere
    have hfeed : ctx.feed c
        = (if Js.isSpace c then ctx else ctx.feedJsToken c).afterJsChar c := by
      simp only [Context.feed, hs, Context.feedJs, Context.feedJsCode, hdouble, hsingle, htemplate,
        hslash, ↓reduceIte]
    rw [Context.feedAll_cons, Context.feedAll_nil, hfeed]
    split
    · exact ⟨hs, hf⟩
    · refine ⟨?_, Context.flags_feedJsToken.trans hf⟩
      simp only [Context.afterJsChar, Context.feedJsToken]
      repeat' split
      all_goals exact hs
  inline d hd := by
    rw [List.mem_singleton.mp hd]
    exact (Bool.and_eq_true_iff.mp hc).2

theorem isCode_of_isToken {t : Text} (ht : ∀ c ∈ t, isToken c = true) : IsCode t := by
  induction t with
  | nil => exact isCode_nil
  | cons c t ih =>
    have ht' := List.forall_mem_cons.mp ht
    exact (isCode_token ht'.1).append (ih ht'.2)

/-- A string literal is read as an operand. -/
theorem feedAll_stringLiteral {ctx : Context} (hs : ctx.state = .js .code) (hf : ctx.flags = {})
    (t : Text) :
    ctx.feedAll (stringLiteral t)
      = { ctx with slash := .division, word := .empty, lastChar := '\'', urlWord := .none } := by
  -- the quote opens a string, in which the escaped text changes nothing
  have hopen : ctx.feed '\''
      = Context.afterJsChar { ctx with state := .js .singleQuoted } '\'' := by
    simp [Context.feed, hs, Context.feedJs, Context.feedJsCode]
  generalize hctx :
    Context.afterJsChar { ctx with state := .js .singleQuoted } '\'' = ctx' at hopen
  have hs' : ctx'.state = .js .singleQuoted := by rw [← hctx]; rfl
  have hf' : ctx'.flags = {} := by rw [← hctx]; exact hf
  have hstring : ctx'.feedAll (escapeString t) = ctx' :=
    Context.feedAll_escapeString hs' rfl (by rw [hf']) t
  simp only [stringLiteral, List.cons_append, List.nil_append, Context.feedAll_cons,
    Context.feedAll_append, hopen, hstring, Context.feedAll_nil]
  have hword : isWordChar '\'' = false := by decide
  simp [← hctx, Context.feed, Context.feedJs, Context.feedString, Context.afterJsChar, hf, hs,
    hword]

/-- **A string literal is over at its end.** -/
theorem isCode_stringLiteral (t : Text) : IsCode (stringLiteral t) where
  keeps ctx hs hf := by
    rw [feedAll_stringLiteral hs hf]
    exact ⟨hs, hf⟩
  inline c hc := by
    simp only [stringLiteral, List.mem_append, List.mem_singleton] at hc
    rcases hc with (rfl | hc) | rfl
    · rfl
    · exact isInline_of_mem_escapeString hc
    · rfl

theorem isExpression_stringLiteral (t : Text) : IsExpression (stringLiteral t) :=
  ⟨isCode_stringLiteral t, '\'', escapeString t ++ ['\''], rfl, by decide, by decide⟩

theorem IsCode.isExpression {c : Char} {t : Text} (h : IsCode (c :: t)) (hc : c ≠ '/')
    (hc' : c ≠ '*') : IsExpression (c :: t) := ⟨h, c, t, rfl, hc, hc'⟩

/-- Texts of tokens that are not empty are expressions. -/
theorem isExpression_of_isToken {t : Text} (ht : ∀ c ∈ t, isToken c = true) (hne : t ≠ [])
    (hstar : '*' ∉ t) : IsExpression t := by
  rcases t with _ | ⟨c, t⟩
  · exact absurd rfl hne
  · refine (isCode_of_isToken ht).isExpression ?_ fun e => hstar (e ▸ List.mem_cons_self)
    intro e
    have := ht c List.mem_cons_self
    simp [e, isToken] at this

/-- Expressions with commas between them are code. -/
theorem isCode_commaSeparated {items : List Text} (h : ∀ t ∈ items, IsCode t) :
    IsCode (Text.commaSeparated items) := by
  induction items with
  | nil => exact isCode_nil
  | cons t items ih =>
    have ht := List.forall_mem_cons.mp h
    rcases items with _ | ⟨t', items⟩
    · simpa [Text.commaSeparated, List.intercalate] using ht.1
    · have hsep : Text.commaSeparated (t :: t' :: items)
          = t ++ ([','] ++ Text.commaSeparated (t' :: items)) := by
        simp [Text.commaSeparated, List.intercalate]
      rw [hsep]
      exact ht.1.append ((isCode_token rfl).append (ih ht.2))

/-! ### Values -/

/-- May `c` occur in the text of a number? -/
def isNumeral (c : Char) : Bool := c.isAlphanum || c == '-' || c == '.'

/-- Characters of numerals are harmless in code, also after a slash. -/
theorem isToken_of_isNumeral {c : Char} (h : isNumeral c = true) : isToken c = true ∧ c ≠ '*' := by
  have hne {d : Char} (hd : isNumeral d = false) : c ≠ d := ne_of_class h hd
  simp only [isToken, isInline, isLineEnd, Bool.and_eq_true, Bool.not_eq_true',
    Bool.or_eq_false_iff, bne_iff_ne, beq_eq_false_iff_ne]
  exact ⟨⟨⟨⟨⟨hne (by decide), hne (by decide)⟩, hne (by decide)⟩, hne (by decide)⟩,
    ⟨hne (by decide), hne (by decide)⟩,
    ⟨⟨hne (by decide), hne (by decide)⟩, hne (by decide)⟩, hne (by decide)⟩, hne (by decide)⟩

theorem isNumeral_of_isDigit {c : Char} (h : c.isDigit = true) : isNumeral c = true := by
  simp [isNumeral, Char.isAlphanum, h]

/-- A numeral is an expression. -/
theorem isExpression_of_isNumeral {t : Text} (ht : t.all isNumeral = true) (hne : t ≠ []) :
    IsExpression t := by
  have hall : ∀ c ∈ t, isNumeral c = true := List.all_eq_true.mp ht
  exact isExpression_of_isToken (fun c hc => (isToken_of_isNumeral (hall c hc)).1) hne
    fun hstar => (isToken_of_isNumeral (hall '*' hstar)).2 rfl

/-- A negative number is written after a space, which does not matter to it. -/
theorem isExpression_signedLiteral (negative : Bool) {t : Text} (h : IsExpression t) :
    IsExpression (signedLiteral negative t) := by
  unfold signedLiteral
  split
  · exact ((isCode_token (c := ' ') rfl).append h.toIsCode).isExpression (by decide) (by decide)
  · exact h

theorem isExpression_ofBool (b : Bool) : IsExpression (Text.ofBool b) := by
  cases b <;> exact isExpression_of_isNumeral (by decide) (by decide)

theorem isExpression_ofNat (n : Nat) : IsExpression (Text.ofNat n) :=
  isExpression_of_isNumeral
    (List.all_eq_true.mpr fun _ hc => isNumeral_of_isDigit (isDigit_ofNat hc)) Nat.toDigits_ne_nil

theorem isExpression_ofInt (n : Int) : IsExpression (Text.ofInt n) := by
  cases n with
  | ofNat n => exact isExpression_ofNat n
  | negSucc n =>
    refine isExpression_of_isNumeral (List.all_eq_true.mpr fun c hc => ?_) (by simp [Text.ofInt])
    rcases List.mem_cons.mp hc with rfl | hc
    · rfl
    · exact isNumeral_of_isDigit (isDigit_ofNat hc)

/-- The digits of a number with a decimal point among them. -/
theorem isNumeral_positional {d : Decimal} (hd : ∀ c ∈ d.digits, c.isDigit = true) :
    ∀ c ∈ d.positional false, isNumeral c = true := by
  have digit {c : Char} (hc : c ∈ d.digits) : isNumeral c = true := isNumeral_of_isDigit (hd c hc)
  have zeros {n : Nat} {c : Char} (hc : c ∈ List.replicate n '0') : isNumeral c = true := by
    rw [List.eq_of_mem_replicate hc]
    rfl
  have point {c : Char} (hc : c ∈ ['.']) : isNumeral c = true := by
    rw [List.mem_singleton.mp hc]
    rfl
  intro c hc
  -- the point stands behind all digits, among them, or before all of them
  unfold Decimal.positional at hc
  split at hc
  · simp only [List.mem_append, Bool.false_eq_true, ↓reduceIte, List.not_mem_nil, or_false] at hc
    rcases hc with hc | hc
    · exact digit hc
    · exact zeros hc
  split at hc
  · simp only [List.mem_append] at hc
    rcases hc with (hc | hc) | hc
    · exact digit (List.mem_of_mem_take hc)
    · exact point hc
    · exact digit (List.mem_of_mem_drop hc)
  · simp only [List.cons_append, List.nil_append, List.mem_cons, List.mem_append] at hc
    rcases hc with rfl | rfl | hc | hc
    · rfl
    · rfl
    · exact zeros hc
    · exact digit hc

/-- A number is never written as nothing. -/
theorem positional_ne_nil {d : Decimal} (hd : d.digits ≠ []) : d.positional false ≠ [] := by
  unfold Decimal.positional
  split
  · simp [hd]
  split <;> simp

/-- A float is an expression, however large it is, and also if it is no number. -/
theorem isExpression_write (x : Binary64) : IsExpression (Layout.page.write x) := by
  obtain ⟨hne, hdigits⟩ := x.shortest_digits
  have hsign : ∀ c ∈ (if x.isNegative then ['-'] else []), isNumeral c = true := by
    split <;> simp [isNumeral]
  -- a sign is a part of the numeral
  have signed {t : Text} (ht : t.all isNumeral = true) (hne : t ≠ []) :
      IsExpression ((if x.isNegative then ['-'] else []) ++ t) := by
    refine isExpression_of_isNumeral (List.all_eq_true.mpr fun c hc => ?_) (by simp [hne])
    rcases List.mem_append.mp hc with hc | hc
    · exact hsign c hc
    · exact List.all_eq_true.mp ht c hc
  simp only [Layout.write]
  split
  · exact isExpression_of_isNumeral (t := "NaN".toList) (by decide) (by decide)
  split
  · exact signed (t := "Infinity".toList) (by decide) (by decide)
  · exact signed (List.all_eq_true.mpr (isNumeral_positional hdigits)) (positional_ne_nil hne)

theorem isExpression_cutOff (depth : Nat) {t : Text} (h : IsExpression t) :
    IsExpression (cutOff depth t) := by
  unfold cutOff
  split
  · exact isExpression_of_isNumeral (t := "null".toList) (by decide) (by decide)
  · exact h

theorem isCode_fieldLiteral {field : Text × Text} (h : IsExpression field.2) :
    IsCode (fieldLiteral field) :=
  ((isCode_stringLiteral field.1).append (isCode_token rfl)).append h.toIsCode

/-- The fields of an object, and the name of its type. -/
theorem isCode_objectFields {depth : Nat} {fields : List (Text × Value)} {typeName : Option Text}
    (h : ∀ field ∈ fieldLiteralsAt depth fields, IsExpression field.2) :
    IsCode (Text.commaSeparated
      ((sortFields (fieldLiteralsAt depth fields ++ classField depth typeName)).map
        fieldLiteral)) := by
  refine isCode_commaSeparated fun t ht => ?_
  obtain ⟨field, hfield, rfl⟩ := List.mem_map.mp ht
  refine isCode_fieldLiteral ?_
  rw [sortFields, List.mem_mergeSort, List.mem_append] at hfield
  rcases hfield with hfield | hfield
  · exact h field hfield
  · cases typeName with
    | none => cases hfield
    | some name =>
      rw [List.mem_singleton.mp hfield]
      exact isExpression_cutOff _ (isExpression_stringLiteral name)

/-- Code between brackets. -/
theorem isExpression_brackets {a b : Char} (ha : isToken a = true) (hb : isToken b = true)
    (hstar : a ≠ '*') {t : Text} (h : IsCode t) : IsExpression ([a] ++ t ++ [b]) := by
  refine (((isCode_token ha).append h).append (isCode_token hb)).isExpression ?_ hstar
  intro e
  simp [e, isToken] at ha

mutual

/-- **The literal of a value is an expression.** By induction on the value. -/
theorem isExpression_literalAt (depth : Nat) (value : Value) :
    IsExpression (value.literalAt depth) := by
  rw [Value.literalAt.eq_def]
  refine isExpression_cutOff depth ?_
  cases value with
  | null => exact isExpression_of_isNumeral (t := "null".toList) (by decide) (by decide)
  | bool b => exact isExpression_ofBool b
  | int n => exact isExpression_signedLiteral _ (isExpression_ofInt n)
  | nat n => exact isExpression_ofNat n
  | float x => exact isExpression_signedLiteral _ (isExpression_write x)
  | char c => exact isExpression_stringLiteral [c]
  | str t => exact isExpression_stringLiteral t
  | list items =>
    exact isExpression_brackets rfl rfl (by decide)
      (isCode_commaSeparated fun t ht => (isExpression_itemLiteralsAt _ items t ht).toIsCode)
  | object _ fields typeName =>
    exact isExpression_brackets rfl rfl (by decide)
      (isCode_objectFields (isExpression_fieldLiteralsAt _ fields))

/-- The items of a list are expressions. -/
theorem isExpression_itemLiteralsAt (depth : Nat) (items : List Value) :
    ∀ t ∈ itemLiteralsAt depth items, IsExpression t := by
  intro t ht
  cases items with
  | nil => cases ht
  | cons item items =>
    rcases List.mem_cons.mp ht with rfl | ht
    · exact isExpression_literalAt depth item
    · exact isExpression_itemLiteralsAt depth items t ht

/-- The values of fields are expressions. -/
theorem isExpression_fieldLiteralsAt (depth : Nat) (fields : List (Text × Value)) :
    ∀ field ∈ fieldLiteralsAt depth fields, IsExpression field.2 := by
  intro field hfield
  cases fields with
  | nil => cases hfield
  | cons first fields =>
    obtain ⟨name, value⟩ := first
    rcases List.mem_cons.mp hfield with rfl | hfield
    · exact isExpression_literalAt depth value
    · exact isExpression_fieldLiteralsAt depth fields field hfield

end

theorem isExpression_literal (value : Value) : IsExpression value.literal :=
  isExpression_literalAt 0 value

end Js

end SafeMarkup

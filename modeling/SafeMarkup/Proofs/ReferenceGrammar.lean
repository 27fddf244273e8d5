import Mathlib.Data.Nat.Digits.Defs
import SafeMarkup.Proofs.ByteReferences

/-!
# The grammar of references

A reference is an `&` with a number or with a name after it. The number or the name is the longest
run of its kind of characters, and a `;` may close it. A number refers to the character with exactly
that code point, and U+FFFD takes the place of numbers that are no code point of a character. A name
stands in the table, and unless it is closed it has to be one of the old names. Matching finds
exactly these references (`matchBytes_finds_references`), although it computes in 32 bits and
searches the table by halves.
-/

namespace SafeMarkup.Html.CharRef

/-- `run` is the longest run of the class `p` at the start of `t`, and `after` is what follows. -/
structure LongestRun (p : Char → Bool) (t run after : Text) : Prop where
  text : t = run ++ after
  mem : ∀ c ∈ run, p c = true
  stop : ∀ c ∈ after.head?, p c = false

/-- The number with these digits, of whatever size. -/
def numeral (radix : Nat) (digits : Text) : Nat :=
  Nat.ofDigits radix (digits.reverse.map hexDigitValue)

/-- The number stands for the character. -/
def StandsFor (code : Nat) (char : Char) : Prop :=
  if code = 0 ∨ (0xd800 ≤ code ∧ code ≤ 0xdfff) ∨ 0x10ffff < code then char = '\ufffd'
  else char.toNat = code

/-- The text after an `&` starts with the rest of a reference, which is `length` characters long
with the `&`. -/
inductive Reference : (rest : Text) → (length : Nat) → (char : Char) → Prop where
  | decimal (rest digits after : Text) (char : Char)
      (hrun : LongestRun Char.isDigit rest digits after) (hne : digits ≠ [])
      (hchar : StandsFor (numeral 10 digits) char) :
      Reference ('#' :: rest) (2 + digits.length + semicolon after) char
  | hex (x : Char) (hx : x = 'x' ∨ x = 'X') (rest digits after : Text) (char : Char)
      (hrun : LongestRun isHexDigit rest digits after) (hne : digits ≠ [])
      (hchar : StandsFor (numeral 16 digits) char) :
      Reference ('#' :: x :: rest) (3 + digits.length + semicolon after) char
  | named (rest name after : Text) (char : Char)
      (hrun : LongestRun Char.isAlphanum rest name after) (hname : lookup? name = some char)
      (hclosed : semicolon after = 1 ∨ isLegacy char = true) :
      Reference rest (1 + name.length + semicolon after) char

/-! ### Longest runs -/

section Run

variable {p : Char → Bool} {t run after : Text}

theorem longestRun (p : Char → Bool) (t : Text) :
    LongestRun p t (t.takeWhile p) (t.dropWhile p) where
  text := List.takeWhile_append_dropWhile.symm
  mem := List.all_eq_true.mp List.all_takeWhile
  stop := by
    intro c hc
    have hne : t.dropWhile p ≠ [] := fun h => by simp [h] at hc
    rw [List.head?_eq_some_head hne, Option.mem_some_iff] at hc
    rw [← hc]
    exact List.head_dropWhile_not p hne

/-- There is one longest run only. -/
theorem LongestRun.eq (h : LongestRun p t run after) :
    run = t.takeWhile p ∧ after = t.dropWhile p := by
  obtain ⟨rfl, hrun, hstop⟩ := h
  cases after with
  | nil => simp [List.takeWhile_eq_self_iff.mpr hrun, List.dropWhile_eq_nil_iff.mpr hrun]
  | cons c after =>
    have hc : p c = false := hstop c rfl
    rw [takeWhile_append_stop hc, dropWhile_append_stop hc, List.takeWhile_eq_self_iff.mpr hrun,
      List.dropWhile_eq_nil_iff.mpr hrun, List.nil_append]
    exact ⟨rfl, rfl⟩

/-- A run that is not empty starts the text. -/
theorem LongestRun.exists_cons (h : LongestRun p t run after) (hne : run ≠ []) :
    ∃ c rest, t = c :: rest ∧ p c = true := by
  obtain ⟨c, digits, rfl⟩ := List.exists_cons_of_ne_nil hne
  exact ⟨c, digits ++ after, h.text, h.mem c List.mem_cons_self⟩

end Run

/-! ### Numbers -/

/-- Digits that are read from the left to the right make up the numeral. -/
theorem value_eq_numeral (radix : Nat) (digits : Text) :
    value radix digits = numeral radix digits := by
  rw [numeral, Nat.ofDigits_eq_foldr, List.foldr_map, List.foldr_reverse, value]
  congr 1
  funext n d
  show n * radix + hexDigitValue d = hexDigitValue d + radix * n
  rw [Nat.mul_comm, Nat.add_comm]

/-- **What a number refers to.** -/
theorem ofCodePoint_eq_iff {code : Nat} {char : Char} :
    ofCodePoint code = char ↔ StandsFor code char := by
  unfold ofCodePoint StandsFor
  -- the two ways of saying that there is such a character
  have hvalid : (code ≠ 0 ∧ code.isValidChar)
      ↔ ¬ (code = 0 ∨ (0xd800 ≤ code ∧ code ≤ 0xdfff) ∨ 0x10ffff < code) := by
    simp only [Nat.isValidChar]
    omega
  by_cases h : code = 0 ∨ (0xd800 ≤ code ∧ code ≤ 0xdfff) ∨ 0x10ffff < code
  · rw [if_neg (fun hv => hvalid.mp hv h), if_pos h]
    exact eq_comm
  · have hcode := hvalid.mpr h
    rw [if_pos hcode, if_neg h]
    constructor
    · rintro rfl
      rw [Char.ofNat, dif_pos hcode.2]
      rfl
    · intro hchar
      rw [← hchar, Char.ofNat_toNat]

/-! ### What is found -/

section Found

variable {rest run after : Text} {length : Nat} {char : Char}

/-- A number is found if it has a digit. -/
theorem scanNumber_complete_iff {radix opening : Nat} {isDigit : Char → Bool}
    (h : LongestRun isDigit rest run after) :
    scanNumber true radix opening isDigit rest = .complete length char
      ↔ run ≠ [] ∧ length = opening + run.length + semicolon after
        ∧ StandsFor (numeral radix run) char := by
  obtain ⟨rfl, rfl⟩ := h.eq
  rw [← ofCodePoint_eq_iff, ← value_eq_numeral, scanNumber]
  cases rest.takeWhile isDigit with
  | nil => simp
  | cons d digits => simp [eq_comm]

/-- A name is found if it is in the table, and closed or one of the old names. -/
theorem scanName_complete_iff (h : LongestRun Char.isAlphanum rest run after) :
    scanName true rest = .complete length char
      ↔ lookup? run = some char ∧ (semicolon after = 1 ∨ isLegacy char = true)
        ∧ length = 1 + run.length + semicolon after := by
  obtain ⟨rfl, rfl⟩ := h.eq
  rw [scanName]
  generalize rest.takeWhile Char.isAlphanum = name
  generalize rest.dropWhile Char.isAlphanum = after
  have hclosed : semicolon after = 0 ∨ semicolon after = 1 := by
    unfold semicolon
    split
    · exact .inr rfl
    · exact .inl rfl
  cases lookup? name with
  | none => simp
  | some c =>
    -- without a semicolon only the old names are references
    have hrefused : ((semicolon after = 0 : Bool) && !isLegacy c) = true
        ↔ ¬ (semicolon after = 1 ∨ isLegacy c = true) := by
      rcases hclosed with h | h <;> simp [h]
    simp only [Bool.not_true, Bool.and_false, Bool.false_and, Bool.false_eq_true, ↓reduceIte,
      Option.some.injEq, hrefused]
    split
    · next hnot =>
      constructor
      · intro h
        cases h
      · rintro ⟨rfl, hyes, -⟩
        exact absurd hyes hnot
    · next hyes =>
      rw [Scan.complete.injEq]
      constructor
      · rintro ⟨rfl, rfl⟩
        exact ⟨rfl, not_not.mp hyes, rfl⟩
      · rintro ⟨rfl, -, rfl⟩
        exact ⟨rfl, rfl⟩

/-- **The references that are found are those of the grammar.** -/
theorem scan_complete_iff :
    scan true rest = .complete length char ↔ Reference rest length char := by
  constructor
  · intro h
    cases kind rest with
    | nil =>
      rw [scan_nil] at h
      cases h
    | hash => cases h
    | hex x hx rest =>
      have hrun := longestRun isHexDigit rest
      rw [scan_hex hx, scanNumber_complete_iff hrun] at h
      obtain ⟨hne, rfl, hchar⟩ := h
      exact .hex x hx rest _ _ char hrun hne hchar
    | decimal c hx hX rest =>
      have hrun := longestRun Char.isDigit (c :: rest)
      rw [scan_decimal hx hX, scanNumber_complete_iff hrun] at h
      obtain ⟨hne, rfl, hchar⟩ := h
      exact .decimal (c :: rest) _ _ char hrun hne hchar
    | named c hc rest =>
      have hrun := longestRun Char.isAlphanum (c :: rest)
      rw [scan_named hc, scanName_complete_iff hrun] at h
      obtain ⟨hname, hclosed, rfl⟩ := h
      exact .named (c :: rest) _ _ char hrun hname hclosed
  · intro h
    cases h with
    | decimal rest digits after char hrun hne hchar =>
      -- a digit is none of the letters that announce a hexadecimal number
      obtain ⟨c, more, rfl, hc⟩ := hrun.exists_cons hne
      have hx : c ≠ 'x' := ne_of_class hc (by decide)
      have hX : c ≠ 'X' := ne_of_class hc (by decide)
      rw [scan_decimal hx hX, scanNumber_complete_iff hrun]
      exact ⟨hne, rfl, hchar⟩
    | hex x hx rest digits after char hrun hne hchar =>
      rw [scan_hex hx, scanNumber_complete_iff hrun]
      exact ⟨hne, rfl, hchar⟩
    | named _ name after char hrun hname hclosed =>
      have hne : name ≠ [] := by
        rintro rfl
        rw [lookup?_eq_none (Or.inl rfl)] at hname
        cases hname
      obtain ⟨c, more, rfl, hc⟩ := hrun.exists_cons hne
      rw [scan_named (ne_of_class hc (by decide)), scanName_complete_iff hrun]
      exact ⟨hname, hclosed, rfl⟩

theorem scan_absent_iff :
    scan true rest = .absent ↔ ∀ length char, ¬ Reference rest length char := by
  constructor
  · intro h length char href
    rw [scan_complete_iff.mpr href] at h
    cases h
  · intro h
    -- with nothing to follow the scan is never incomplete
    cases hscan : scan true rest with
    | complete length char => exact absurd (scan_complete_iff.mp hscan) (h length char)
    | incomplete => exact absurd hscan (scan_last rest)
    | absent => rfl

end Found

/-- **Matching finds exactly the references of the grammar.** At the end of a byte string that
starts with an `&` there is a result in any case: the reference that starts the byte string, with
its length and with the character that it refers to, or that there is none. -/
theorem matchBytes_finds_references (body : List UInt8) :
    (∀ length char, matchBytes (0x26 :: body) true = some (.complete length char)
      ↔ Reference (Text.ofBytes body) length char)
      ∧ (matchBytes (0x26 :: body) true = some .absent
        ↔ ∀ length char, ¬ Reference (Text.ofBytes body) length char) := by
  rw [matchBytes_cons]
  refine ⟨fun length char => ?_, ?_⟩
  · rw [Option.some.injEq]
    exact scan_complete_iff
  · rw [Option.some.injEq]
    exact scan_absent_iff

/-- Numbers of more than 32 bits are no code point either. -/
example : matchBytes "&#99999999999;x".toUTF8.toList true = some (.complete 14 '\ufffd') := by
  decide +kernel

end SafeMarkup.Html.CharRef

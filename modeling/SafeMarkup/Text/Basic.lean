/-!
# Texts and ASCII character classes

All rules of this library read and write texts one character at a time, so a `Text` is the list
of its characters. Sizes count the bytes of the UTF-8 form. Names of elements, attributes and
schemes are compared without regard to the case of ASCII letters, and of those letters only.
-/

namespace SafeMarkup

/-- A text is the list of its characters, in order. -/
abbrev Text := List Char

/-- Is `c` one of the 128 ASCII characters? -/
def isAscii (c : Char) : Bool := c.val < 0x80

/-- Is `c` a decimal digit or a letter `a` to `f` in either case? -/
def isHexDigit (c : Char) : Bool :=
  c.isDigit || ('a' ≤ c && c ≤ 'f') || ('A' ≤ c && c ≤ 'F')

/-- Is `c` a control character, U+0000 to U+001F or U+007F to U+009F? -/
def isControl (c : Char) : Bool :=
  c.val < 0x20 || (0x7f ≤ c.val && c.val ≤ 0x9f)

/-- The whitespace of HTML: space, tab, line feed, form feed and carriage return. -/
def isHtmlSpace (c : Char) : Bool :=
  c == ' ' || c == '\t' || c == '\n' || c == '\x0c' || c == '\r'

/-- The value of a hexadecimal digit, and zero for any other character. -/
def hexDigitValue (c : Char) : Nat :=
  if c.isDigit then c.toNat - '0'.toNat
  else if 'a' ≤ c ∧ c ≤ 'f' then c.toNat - 'a'.toNat + 10
  else if 'A' ≤ c ∧ c ≤ 'F' then c.toNat - 'A'.toNat + 10
  else 0

/-! ### Letters and digits -/

section Letters

variable {c d : Char}

theorem isAscii_iff : isAscii c = true ↔ c.toNat < 128 := by
  rw [isAscii, decide_eq_true_iff, UInt32.lt_iff_toNat_lt]
  rfl

theorem isAscii_of_isAlphanum (h : c.isAlphanum = true) : isAscii c = true := by
  have hcode : c.toNat = c.val.toNat := rfl
  have hupper : 'Z'.val.toNat = 90 := rfl
  have hlower : 'z'.val.toNat = 122 := rfl
  have hdigit : '9'.val.toNat = 57 := rfl
  rw [isAscii_iff]
  unfold Char.isAlphanum Char.isAlpha Char.isUpper Char.isLower Char.isDigit at h
  simp only [Bool.or_eq_true, Bool.and_eq_true, decide_eq_true_eq, ge_iff_le,
    UInt32.le_iff_toNat_le] at h
  omega

/-- The code points that are no letters. -/
theorem isAlpha_eq_false_iff : c.isAlpha = false ↔
    ¬ (65 ≤ c.toNat ∧ c.toNat ≤ 90) ∧ ¬ (97 ≤ c.toNat ∧ c.toNat ≤ 122) := by
  have halpha : c.isAlpha = (decide ('A'.val ≤ c.val ∧ c.val ≤ 'Z'.val)
      || (decide ('a'.val ≤ c.val) && decide (c.val ≤ 'z'.val))) := rfl
  rw [halpha, Bool.or_eq_false_iff, ← Bool.decide_and, decide_eq_false_iff_not,
    decide_eq_false_iff_not]
  rfl

/-- A character that is no letter in lower case is the same in lower case. -/
theorem eq_of_toLower_eq (h : c.toLower = d) (hd : d.isAlpha = false) : c = d := by
  subst h
  unfold Char.toLower at hd ⊢
  split
  · next hupper =>
    rw [dif_pos hupper, isAlpha_eq_false_iff] at hd
    simp only [UInt32.le_iff_toNat_le, ge_iff_le] at hupper
    simp at hd hupper
    omega
  · rfl

/-- Only letters have letters in lower case. -/
theorem isAlpha_of_toLower (h : c.toLower.isAlpha = true) : c.isAlpha = true := by
  rw [← Bool.not_eq_false]
  intro hnot
  have hself : c.toLower = c := by
    rw [isAlpha_eq_false_iff] at hnot
    unfold Char.toLower
    exact dif_neg hnot.1
  rw [hself, hnot] at h
  cases h

/-- A digit is no letter, in either case. -/
theorem isAlpha_of_isDigit (h : c.isDigit = true) :
    c.isAlpha = false ∧ c.toLower = c := by
  simp only [Char.isDigit, Bool.and_eq_true, decide_eq_true_eq, UInt32.le_iff_toNat_le] at h
  simp at h
  constructor
  · rw [isAlpha_eq_false_iff]
    omega
  · unfold Char.toLower
    rw [dif_neg]
    simp only [UInt32.le_iff_toNat_le]
    simp
    omega

end Letters

namespace Text

def utf8Bytes (t : Text) : List UInt8 := t.flatMap String.utf8EncodeChar

/-- The number of bytes of the UTF-8 form. -/
def utf8Size (t : Text) : Nat := (utf8Bytes t).length

/-- The text with its ASCII letters in lower case. -/
def lower (t : Text) : Text := t.map Char.toLower

@[simp] theorem length_lower (t : Text) : (lower t).length = t.length := List.length_map _

@[simp] theorem lower_append (a b : Text) : lower (a ++ b) = lower a ++ lower b := List.map_append

/-- Are the two texts equal up to the case of ASCII letters? -/
def sameName (a b : Text) : Bool := lower a == lower b

/-- Does `t` start with `start`, up to the case of ASCII letters? -/
def startsWithName (t start : Text) : Bool := sameName (t.take start.length) start

/-- Does `part` occur in `t`, up to the case of ASCII letters? -/
def containsName : Text → Text → Bool
  | [], part => part.isEmpty
  | c :: t, part => startsWithName (c :: t) part || containsName t part

/-- The order of texts by the code points of their characters: does `a` come before `b`, or are
the two equal? -/
def le : Text → Text → Bool
  | [], _ => true
  | _ :: _, [] => false
  | c :: a, d :: b => c < d || (c == d && le a b)

def ofNat (n : Nat) : Text := Nat.toDigits 10 n

/-- The decimal numeral of `n`, with a minus sign if `n` is negative. -/
def ofInt : Int → Text
  | .ofNat n => ofNat n
  | .negSucc n => '-' :: ofNat (n + 1)

/-- The hexadecimal numeral of `n`, with lower-case letters. -/
def ofNatHex (n : Nat) : Text := Nat.toDigits 16 n

/-- The last four digits of the hexadecimal numeral of `n`. -/
def ofNatHex4 (n : Nat) : Text :=
  [n / 4096 % 16, n / 256 % 16, n / 16 % 16, n % 16].map Nat.digitChar

end Text

/-- Characters that a class tells apart are different. -/
theorem ne_of_class {p : Char → Bool} {c d : Char} (hc : p c = true) (hd : p d = false) :
    c ≠ d := by
  intro e
  rw [e, hd] at hc
  cases hc

/-- A class without whitespace characters. -/
theorem isHtmlSpace_of_class {p : Char → Bool} {c : Char} (hc : p c = true)
    (hp : p ' ' = false ∧ p '\t' = false ∧ p '\n' = false ∧ p '\x0c' = false ∧ p '\r' = false) :
    isHtmlSpace c = false := by
  obtain ⟨hspace, htab, hnewline, hfeed, hreturn⟩ := hp
  simp [isHtmlSpace, ne_of_class hc hspace, ne_of_class hc htab, ne_of_class hc hnewline,
    ne_of_class hc hfeed, ne_of_class hc hreturn]

theorem Text.utf8Size_append (a b : Text) :
    Text.utf8Size (a ++ b) = Text.utf8Size a + Text.utf8Size b := by
  rw [utf8Size, utf8Size, utf8Size, utf8Bytes, List.flatMap_append, List.length_append]
  rfl

end SafeMarkup

import SafeMarkup.Text.Alphanumeric

/-!
# Places in CSS, and the word before the cursor

A `(` in CSS opens a `url()` form if the word right before it is `url`, in any letter case. So the
only thing to remember of a word is how much of `url` it has spelled so far.
-/

namespace SafeMarkup.Css

inductive Mode where
  /-- Between tokens, or inside a word. -/
  | code
  /-- After a `/`, which may start a comment. -/
  | slash
  | doubleQuoted
  | singleQuoted
  /-- Right after `url(`, or after whitespace there. -/
  | urlOpen
  | url
  | doubleQuotedUrl
  | singleQuotedUrl
  | blockComment
  | lineComment
  deriving DecidableEq, Repr

/-- May `c` be part of a word? -/
def isWordChar (c : Char) : Bool := c == '-' || c == '_' || isAlphanumeric c

/-- The characters that end a line of CSS. -/
def isLineEnd (c : Char) : Bool := c == '\n' || c == '\r' || c == '\x0c'

theorem isWordChar_of_isLineEnd {c : Char} (hc : isLineEnd c = true) : isWordChar c = false := by
  simp only [isLineEnd, Bool.or_eq_true, beq_iff_eq] at hc
  rcases hc with (rfl | rfl) | rfl
  all_goals decide

theorem isWordChar_of_isHtmlSpace {c : Char} (hc : isHtmlSpace c = true) :
    isWordChar c = false := by
  simp only [isHtmlSpace, Bool.or_eq_true, beq_iff_eq] at hc
  rcases hc with (((rfl | rfl) | rfl) | rfl) | rfl
  all_goals decide

theorem isWordChar_of_toLower {c : Char} (hc : c.toLower.isAlpha = true) :
    isWordChar c = true := by
  have halphanum : c.isAlphanum = true := by
    rw [Char.isAlphanum, isAlpha_of_toLower hc, Bool.true_or]
  simp [isWordChar, isAlphanumeric_of_isAlphanum halphanum]

/-- How the word that CSS ends with compares to `url`. -/
inductive UrlWord where
  | none
  | u
  | ur
  | url
  | other
  deriving DecidableEq, Repr

/-- The word after one more character. A character that is not part of a word ends it. -/
def UrlWord.next (word : UrlWord) (c : Char) : UrlWord :=
  match word, c.toLower with
  | .none, 'u' => .u
  | .u, 'r' => .ur
  | .ur, 'l' => .url
  | _, _ => if isWordChar c then .other else .none

theorem UrlWord.next_of_not_isWordChar {word : UrlWord} {c : Char} (hc : isWordChar c = false) :
    word.next c = .none := by
  have hne {d : Char} (hd : d.isAlpha = true) : c.toLower ≠ d := by
    rintro rfl
    rw [isWordChar_of_toLower hd] at hc
    cases hc
  unfold next
  split
  · next h => exact absurd h (hne (by decide))
  · next h => exact absurd h (hne (by decide))
  · next h => exact absurd h (hne (by decide))
  · rw [if_neg (by simp [hc])]

end SafeMarkup.Css

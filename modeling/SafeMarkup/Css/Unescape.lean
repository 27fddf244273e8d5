import SafeMarkup.Html.CharRef

/-!
# Reading escapes of CSS

A backslash and one to six hexadecimal digits are the character with this code point. One whitespace
character after the digits belongs to the escape, so that a digit can follow it. Any other character
after a backslash stands for itself.
-/

namespace SafeMarkup.Css

open Html.CharRef (ofCodePoint value)

/-- The digits of an escape that follow the first one. -/
def moreDigits (t : Text) : Text := (t.take 5).takeWhile isHexDigit

/-- The text without the whitespace character that closes an escape, if there is one. -/
def dropSpace : Text → Text
  | [] => []
  | c :: rest => if isHtmlSpace c then rest else c :: rest

/-- Reads what follows a backslash, and what is left after it. -/
def readEscape (c : Char) (rest : Text) : Char × Text :=
  if isHexDigit c then
    (ofCodePoint (value 16 (c :: moreDigits rest)), dropSpace (rest.drop (moreDigits rest).length))
  else (c, rest)

theorem length_dropSpace (t : Text) : (dropSpace t).length ≤ t.length := by
  unfold dropSpace
  split
  · exact Nat.le_refl _
  · split <;> simp

theorem length_readEscape (c : Char) (rest : Text) :
    (readEscape c rest).2.length ≤ rest.length := by
  unfold readEscape
  split
  · refine Nat.le_trans (length_dropSpace _) ?_
    rw [List.length_drop]
    exact Nat.sub_le _ _
  · exact Nat.le_refl _

/-- The text that is meant by a text with escapes. A backslash at the end is read as U+FFFD. -/
def unescape : Text → Text
  | [] => []
  | ['\\'] => ['\ufffd']
  | '\\' :: c :: rest => (readEscape c rest).1 :: unescape (readEscape c rest).2
  | c :: rest => c :: unescape rest
termination_by t => t.length
decreasing_by
  · have hle := length_readEscape c rest
    simp only [List.length_cons]
    omega
  · simp

theorem unescape_cons {c : Char} (hc : c ≠ '\\') (t : Text) :
    unescape (c :: t) = c :: unescape t := by
  rw [unescape]
  · intro e _
    exact hc e
  · intro _ _ e _
    exact hc e

theorem unescape_backslash (c : Char) (t : Text) :
    unescape ('\\' :: c :: t) = (readEscape c t).1 :: unescape (readEscape c t).2 := by
  rw [unescape]

example : unescape "\\1f600\\41  b\\0000412\\d800 \\;".toList = "😀A bA2\ufffd;".toList := by
  decide +kernel

end SafeMarkup.Css

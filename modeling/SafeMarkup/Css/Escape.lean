import SafeMarkup.Text.Basic

/-!
# Escaping for CSS

Everything but ASCII letters, digits, `-` and `_` is written as a hexadecimal escape. Such an
escape reads as many digits as it finds and swallows one whitespace character after them, so a
space is added wherever the next character would be taken for a part of it, and at the end of the
text, where the next character is not known.
-/

namespace SafeMarkup.Css

/-- The characters that stand for themselves everywhere in CSS. -/
def isSafe (c : Char) : Bool := c.isAlphanum || c == '-' || c == '_'

/-- Would a hexadecimal escape go on into the text that follows it? -/
def needsSpace : Text → Bool
  | [] => true
  | c :: _ => isHexDigit c || isHtmlSpace c

def escape : Text → Text
  | [] => []
  | c :: rest =>
    if isSafe c then c :: escape rest
    else
      ['\\'] ++ Text.ofNatHex c.toNat ++ (if needsSpace rest then [' '] else []) ++ escape rest

example : escape "a b\"".toList = "a\\20 b\\22 ".toList := by decide

end SafeMarkup.Css

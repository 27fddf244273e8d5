import SafeMarkup.Url.Scheme

/-!
# Encoding and filtering URLs

Characters that may not occur are replaced, byte by byte of their UTF-8 form, by `%` and two
hexadecimal digits. Normalizing keeps what has a meaning in URLs, `%` included, so a URL that is
encoded already stays as it is; encoding a component keeps unreserved characters only. Quotes,
parentheses and backslashes are never kept, so that the result is safe in every kind of attribute
value and in the `url()` form of CSS.
-/

namespace SafeMarkup.Url

/-- Written instead of a URL whose scheme is not allowed. -/
def placeholder : Text := "#ZautoescZ".toList

/-- A byte as `%` and two hexadecimal digits. -/
def percent (b : UInt8) : Text :=
  ['%', Nat.digitChar (b.toNat / 16), Nat.digitChar (b.toNat % 16)]

/-- A character as the percent forms of its bytes. -/
def percentChar (c : Char) : Text := (String.utf8EncodeChar c).flatMap percent

/-- The characters that mean themselves everywhere in a URL. -/
def isUnreserved (c : Char) : Bool :=
  c.isAlphanum || c == '-' || c == '.' || c == '_' || c == '~'

/-- The characters with a meaning in URLs that normalizing keeps, other than `:`, `/`, `?` and
`#`. -/
def isReserved (c : Char) : Bool :=
  c == '%' || c == '[' || c == ']' || c == '@' || c == '!' || c == '$' || c == '&' || c == '*' ||
    c == '+' || c == ',' || c == ';' || c == '='

/-- The characters that end the part of a URL in which a `:` would complete a scheme. -/
def endsSchemePart (c : Char) : Bool := c == '/' || c == '?' || c == '#'

/-- Keeps the characters of a class and encodes all others. -/
def encodeUnless (keep : Char → Bool) (t : Text) : Text :=
  t.flatMap fun c => if keep c then [c] else percentChar c

/-- The characters that normalizing keeps. -/
def isNormal (c : Char) : Bool :=
  isUnreserved c || isReserved c || endsSchemePart c || c == ':'

/-- Encodes everything that may not occur in a URL. -/
def normalize (url : Text) : Text := encodeUnless isNormal url

/-- Normalizes the continuation of a URL that may still be in its scheme: a `:` that would complete
the scheme is encoded too. -/
def normalizeInScheme (url : Text) : Text :=
  encodeUnless (fun c => isNormal c && c != ':') (url.takeWhile (!endsSchemePart ·)) ++
    normalize (url.dropWhile (!endsSchemePart ·))

/-- Normalizes a URL, or replaces it if its scheme is not allowed. -/
def filter (allowed : List Scheme) (url : Text) : Text :=
  if isAllowed allowed url then normalize url else placeholder

/-- Encodes a part of a query or fragment. -/
def encodeComponent (t : Text) : Text := encodeUnless isUnreserved t

theorem encodeUnless_append (keep : Char → Bool) (a b : Text) :
    encodeUnless keep (a ++ b) = encodeUnless keep a ++ encodeUnless keep b := by
  simp [encodeUnless]

example : normalize "a b".toList = "a%20b".toList := by decide

end SafeMarkup.Url

import SafeMarkup.Text.Basic

/-!
# Parts of a URL

How an untrusted piece of a URL has to be treated depends on how much of the URL precedes it.
-/

namespace SafeMarkup.Url

/-- How much of a URL has been read. -/
inductive Part where
  /-- Nothing but whitespace. -/
  | start
  /-- Only characters that may form a scheme. -/
  | scheme
  /-- Past the scheme, but before any `?` or `#`. -/
  | preQuery
  /-- Past the first `?` or `#`. -/
  | queryOrFragment
  deriving DecidableEq, Repr

/-- May `c` occur in the name of a scheme? -/
def isSchemeChar (c : Char) : Bool := c.isAlphanum || c == '+' || c == '-' || c == '.'

/-- The part after one more character. -/
def Part.next (part : Part) (c : Char) : Part :=
  match part with
  | .queryOrFragment => .queryOrFragment
  | .preQuery => if c == '?' || c == '#' then .queryOrFragment else .preQuery
  | .scheme =>
    if c == '?' || c == '#' then .queryOrFragment
    else if isSchemeChar c then .scheme
    else .preQuery
  | .start =>
    if c == '?' || c == '#' then .queryOrFragment
    else if isHtmlSpace c then .start
    else if isSchemeChar c then .scheme
    else .preQuery

end SafeMarkup.Url

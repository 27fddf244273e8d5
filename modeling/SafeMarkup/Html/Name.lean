import SafeMarkup.Html.Element
import SafeMarkup.Html.Attribute

/-!
# Filtering names of tags and attributes

An untrusted name continues whatever trusted text has written of the name so far. It is written
only if it consists of harmless characters and the name as a whole has no special meaning;
otherwise a placeholder is written.
-/

namespace SafeMarkup.Html

/-- Written instead of a name that is not allowed. -/
def namePlaceholder : Text := "ZautoescZ".toList

/-- The start of a name that a text ends with: everything after the last character that cannot be
part of it. -/
def trailingName (t : Text) : Text :=
  (t.reverse.takeWhile fun c => !(endsTagName c || c == '<')).reverse

/-- Filters a tag name that continues `start`. -/
def filterTagName (start name : Text) : Text :=
  if !name.isEmpty && name.all Char.isAlphanum && (Element.ofTagName? (start ++ name)).isNone then
    name
  else namePlaceholder

/-- May `c` occur in an untrusted attribute name? -/
def isAttrNameChar (c : Char) : Bool := c.isAlphanum || c == '_' || c == ':' || c == '-'

/-- Filters an attribute name that continues `start`. -/
def filterAttrName (start name : Text) : Text :=
  if !name.isEmpty && name.all isAttrNameChar && AttrKind.ofName (start ++ name) == .plain then
    name
  else namePlaceholder

/-- What the filter writes for a tag name is the name or the placeholder. -/
theorem filterTagName_eq (start name : Text) :
    filterTagName start name = name ∨ filterTagName start name = namePlaceholder := by
  unfold filterTagName
  split <;> simp

end SafeMarkup.Html

import SafeMarkup.Text.Basic

/-!
# Kinds of attributes

What a browser does with the value of an attribute is read off the attribute's name. Names that
are not known but look like those of addresses or event handlers count as such.
-/

namespace SafeMarkup.Html

/-- What the value of an attribute is. -/
inductive AttrKind where
  /-- Text without a meaning of its own. -/
  | plain
  | url
  | js
  | css
  deriving DecidableEq, Repr

namespace AttrKind

/-- Attributes that hold addresses. -/
def urlNames : List Text :=
  ["action".toList, "archive".toList, "background".toList, "cite".toList, "classid".toList,
    "codebase".toList, "data".toList, "formaction".toList, "href".toList, "icon".toList,
    "longdesc".toList, "manifest".toList, "poster".toList, "profile".toList, "src".toList,
    "srcset".toList, "usemap".toList, "xmlns".toList]

/-- Attributes whose names look like those of addresses although they hold markup or text. -/
def plainNames : List Text := ["srcdoc".toList, "srclang".toList]

/-- Parts that make an unknown name that of an address. -/
def urlParts : List Text := ["src".toList, "uri".toList, "url".toList]

/-- The kind of an attribute by its name without a namespace. -/
def ofLocalName (name : Text) : AttrKind :=
  if Text.sameName name "style".toList then .css
  else if plainNames.any (Text.sameName name) then .plain
  else if urlNames.any (Text.sameName name) then .url
  else if Text.startsWithName name "on".toList then .js
  else if urlParts.any (Text.containsName name) then .url
  else .plain

/-- The kind of an attribute by its full name. A custom `data-` attribute counts like the one
without `data-`, and a name in a namespace like the name alone, except that a declaration of a
namespace holds an address. -/
def ofName (name : Text) : AttrKind :=
  if Text.startsWithName name "data-".toList then ofLocalName (name.drop 5)
  else
    match name.dropWhile (· != ':') with
    | [] => ofLocalName name
    | _ :: localName =>
      if Text.sameName (name.takeWhile (· != ':')) "xmlns".toList then .url
      else ofLocalName localName

end AttrKind

end SafeMarkup.Html

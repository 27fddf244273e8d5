import SafeMarkup.Text.Basic

/-!
# Elements whose content is not markup

Most elements contain markup like the rest of the document. The content of a *special* element is
read by rules of its own, and it ends only at the end tag of that same element. An element without
special content is `none` wherever an `Option Element` occurs.
-/

namespace SafeMarkup.Html

/-- An element whose content is not markup. -/
inductive Element where
  | script
  | style
  | textarea
  | title
  | xmp
  | iframe
  | noembed
  | noframes
  | noscript
  | plaintext
  deriving DecidableEq, Repr

namespace Element

def all : List Element :=
  [.script, .style, .textarea, .title, .xmp, .iframe, .noembed, .noframes, .noscript, .plaintext]

/-- The name in the element's tags, in lower case. -/
def tagName : Element → Text
  | .script => "script".toList
  | .style => "style".toList
  | .textarea => "textarea".toList
  | .title => "title".toList
  | .xmp => "xmp".toList
  | .iframe => "iframe".toList
  | .noembed => "noembed".toList
  | .noframes => "noframes".toList
  | .noscript => "noscript".toList
  | .plaintext => "plaintext".toList

/-- The special element that a start tag of this name opens, if any. -/
def ofTagName? (name : Text) : Option Element :=
  all.find? fun element => Text.sameName name element.tagName

/-- Can the content end? That of `plaintext` runs to the end of the document. -/
def hasEndTag : Element → Bool
  | .plaintext => false
  | _ => true

/-- Can `rest`, the text after `</`, still turn out to be this element's end tag? It can as long as
it agrees with the element's name over the length of the shorter of the two. -/
def couldEnd (element : Element) (rest : Text) : Bool :=
  (rest.zip element.tagName).all fun (c, d) => c.toLower == d

end Element

def endsTagName (c : Char) : Bool := isHtmlSpace c || c == '/' || c == '>'

def endsAttrName (c : Char) : Bool := endsTagName c || c == '='

end SafeMarkup.Html

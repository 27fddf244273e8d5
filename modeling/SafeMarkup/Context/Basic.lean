import SafeMarkup.Html.Element
import SafeMarkup.Html.Attribute
import SafeMarkup.Url.Part
import SafeMarkup.Js.Token
import SafeMarkup.Css.Token

/-!
# The context of the cursor

A document is a nest of languages: markup, and in it URLs, JS and CSS, as content of elements and
as values of attributes. A `Context` says where in that nest the end of the text read so far lies,
and remembers of this text what the reading of the next character depends on.
-/

namespace SafeMarkup

/-- How the value of an attribute ends. -/
inductive Delim where
  | doubleQuote
  | singleQuote
  /-- The value is not quoted. -/
  | spaceOrTagEnd
  /-- The value was not quoted and started with an untrusted value. A quote has been opened for it,
  which is closed where the unquoted value ends. -/
  | autoQuote
  deriving DecidableEq, Repr

/-- Is the value written without quotes in the trusted text? -/
def Delim.isUnquoted : Delim → Bool
  | .spaceOrTagEnd | .autoQuote => true
  | .doubleQuote | .singleQuote => false

/-- A place in the grammar of documents. -/
inductive State where
  | text
  | tagName
  /-- In a tag, between attributes. -/
  | tag
  | attrName
  /-- After the name of an attribute, before a possible `=`. -/
  | afterName
  /-- After the `=`, before the value. -/
  | beforeValue
  /-- In a value that is neither a URL nor code. -/
  | plainValue
  | url
  /-- In JS, as content or as value. -/
  | js (mode : Js.Mode)
  /-- In CSS, as content or as value. -/
  | css (mode : Css.Mode)
  /-- In the content of an element that is neither markup nor code. -/
  | rcdata
  | comment
  /-- In markup that is ignored up to the next `>`. -/
  | bogusComment
  deriving DecidableEq, Repr

namespace State

def isJs : State → Bool
  | .js _ => true
  | _ => false

def isCss : State → Bool
  | .css _ => true
  | _ => false

/-- Does a backslash escape the next character here? -/
def allowsEscapes : State → Bool
  | .js .doubleQuoted | .js .singleQuoted | .js .template | .js .regexp => true
  | .css .doubleQuoted | .css .singleQuoted => true
  | .css .doubleQuotedUrl | .css .singleQuotedUrl => true
  | _ => false

end State

/-- What is remembered of the previous characters of a literal or comment. -/
structure Flags where
  /-- The previous character is an unescaped backslash. -/
  escaping : Bool := false
  /-- The cursor is in a character class of a regular expression. -/
  inClass : Bool := false
  /-- The previous character of a block comment is `*`. -/
  afterStar : Bool := false
  deriving DecidableEq, Repr

/-- Where the end of the text read so far lies. The default is the start of a document. Contexts are
compared by the word before the cursor, not by the buffer that it is kept in: what longer words have
left behind its end is not part of a context (see `Context.Buffered`). -/
structure Context where
  state : State := .text
  /-- The special element whose content or start tag the cursor is in. -/
  element : Option Html.Element := none
  /-- The kind of the attribute whose name or value the cursor is in. -/
  attr : Option Html.AttrKind := none
  /-- How the attribute value that the cursor is in ends. -/
  delim : Option Delim := none
  /-- How much of the URL at the cursor has been read. -/
  urlPart : Url.Part := .start
  /-- What a `/` at this point of JS code is. -/
  slash : Js.Slash := .regexp
  flags : Flags := {}
  /-- The word that JS code ends with, without what its buffer holds beyond it. -/
  word : Js.Word := .empty
  /-- The last character of JS code, if it is ASCII; some letter if it is not. -/
  lastChar : Char := '\x00'
  /-- The word that CSS ends with. -/
  urlWord : Css.UrlWord := .none
  deriving DecidableEq, Repr

namespace Context

/-- Does a backslash right before the cursor escape the next character? -/
def hasPartialEscape (ctx : Context) : Bool := ctx.flags.escaping && ctx.state.allowsEscapes

/-- Is the cursor in the value of an attribute? -/
def inAttrValue (ctx : Context) : Bool := ctx.delim.isSome

/-- Is the cursor in a value that trusted text has not put in quotes? -/
def isUnquoted (ctx : Context) : Bool :=
  match ctx.delim with
  | some delim => delim.isUnquoted
  | none => false

/-- The start of the content of an element. -/
def elementContent (element : Option Html.Element) : Context where
  state :=
    match element with
    | none => .text
    | some .script => .js .code
    | some .style => .css .code
    | some _ => .rcdata
  element := element

/-- The start of a value of the attribute at the cursor. -/
def attrValue (ctx : Context) (delim : Delim) : Context where
  state :=
    match ctx.attr with
    | some .url => .url
    | some .js => .js .code
    | some .css => .css .code
    | some .plain | none => .plainValue
  element := ctx.element
  attr := ctx.attr
  delim := some delim

/-- Between the attributes of the tag that the cursor is in. -/
def inTag (ctx : Context) : Context where
  state := .tag
  element := ctx.element

/-- The start of the content that the tag at the cursor opens. -/
def closeTag (ctx : Context) : Context := elementContent ctx.element

end Context

end SafeMarkup

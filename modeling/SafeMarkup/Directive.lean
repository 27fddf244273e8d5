import SafeMarkup.Context.Basic
import SafeMarkup.Html.Escape
import SafeMarkup.Html.Name
import SafeMarkup.Url.Escape
import SafeMarkup.Js.Escape
import SafeMarkup.Css.Escape

/-!
# How a value is escaped where

Each place in the grammar has one escaper for untrusted text. In the value of an attribute the
result is escaped once more for HTML, because a browser decodes the value before it is interpreted.
Nothing is ever refused: what cannot be made safe is replaced.
-/

namespace SafeMarkup

/-- The escaping that a place in the grammar asks for. -/
inductive Escaper where
  | html
  | tagName
  | attrName
  /-- In a URL of which this much precedes the value. -/
  | url (part : Url.Part)
  /-- In JS code, where a value is written as a literal. Literals are safe as they are. -/
  | jsValue
  | jsString
  | jsRegexp
  | css
  deriving DecidableEq, Repr

/-- What escaping depends on besides the place. -/
structure EscapeOptions where
  /-- Are references in the text kept? -/
  soft : Bool := false
  schemes : List Url.Scheme := Url.Scheme.default
  /-- What trusted text has written of the name that the value continues. -/
  nameStart : Text := []

namespace Escaper

/-- The escaper at the start of an attribute's value. -/
def ofAttr : Option Html.AttrKind → Escaper
  | some .url => .url .start
  | some .js => .jsValue
  | some .css => .css
  | some .plain | none => .html

/-- The escaper for JS at a place in it. Where a regular expression could start the value becomes
one, so that the `/` before it starts no comment. -/
def ofJs (slash : Js.Slash) : Js.Mode → Escaper
  | .code => .jsValue
  | .slash =>
    match slash with
    | .regexp => .jsRegexp
    | .division => .jsValue
  | .doubleQuoted | .singleQuoted | .template | .blockComment | .lineComment => .jsString
  | .regexp => .jsRegexp

/-- The escaper for CSS at a place in it. -/
def ofCss (part : Url.Part) : Css.Mode → Escaper
  | .urlOpen | .url | .doubleQuotedUrl | .singleQuotedUrl => .url part
  | .code | .slash | .doubleQuoted | .singleQuoted | .blockComment | .lineComment => .css

def ofContext (ctx : Context) : Escaper :=
  match ctx.state with
  | .text | .rcdata | .plainValue | .comment | .bogusComment => .html
  | .tagName => .tagName
  | .tag | .attrName | .afterName => .attrName
  | .beforeValue => ofAttr ctx.attr
  | .url => .url ctx.urlPart
  | .js mode => ofJs ctx.slash mode
  | .css mode => ofCss ctx.urlPart mode

def escape (escaper : Escaper) (options : EscapeOptions) (t : Text) : Text :=
  match escaper with
  | .html => Html.escape .quoted options.soft t
  | .tagName => Html.filterTagName options.nameStart t
  | .attrName => Html.filterAttrName options.nameStart t
  | .url .start => Url.filter options.schemes t
  | .url .scheme => Url.normalizeInScheme t
  | .url .preQuery => Url.normalize t
  | .url .queryOrFragment => Url.encodeComponent t
  | .jsValue => t
  | .jsString => Js.escapeString t
  | .jsRegexp => Js.escapeRegexp t
  | .css => Css.escape t

/-- Are the escaper's results safe in the value of an attribute without a second pass? Plain text is
escaped for HTML already, and names consist of characters that are safe everywhere. -/
def isSinglePass : Escaper → Bool
  | .html | .tagName | .attrName => true
  | _ => false

end Escaper

/-- What is done with a piece of output. -/
inductive Directive where
  /-- It is trusted and written as it is. -/
  | verbatim
  /-- It is escaped, in the value of an attribute for that value too. `afterBackslash` says whether
  a backslash right before it would escape its first character. -/
  | escape (escaper : Escaper) (attr : Option Html.Quoting) (afterBackslash : Bool)
  deriving DecidableEq, Repr

namespace Directive

/-- How the value at the cursor is delimited, if the cursor is in or before one. -/
def quoting (ctx : Context) : Option Html.Quoting :=
  match ctx.delim with
  | some .doubleQuote | some .singleQuote => some .quoted
  | some .spaceOrTagEnd | some .autoQuote => some .unquoted
  | none => if ctx.state = .beforeValue then some .unquoted else none

/-- The directive for an untrusted value at the cursor. -/
def ofContext (ctx : Context) : Directive :=
  .escape (Escaper.ofContext ctx) (quoting ctx) ctx.hasPartialEscape

/-- The escaper, if there is one. -/
def escaper? : Directive → Option Escaper
  | .verbatim => none
  | .escape escaper _ _ => some escaper

/-- Escapes a text once for its place, and a second time if it is in the value of an attribute. The
second pass is never soft: a reference that it kept would be decoded after the first pass. -/
def escapeInAttr (escaper : Escaper) (attr : Option Html.Quoting) (options : EscapeOptions)
    (t : Text) : Text :=
  match escaper, attr with
  | .html, some .unquoted => Html.escape .unquoted options.soft t
  | _, none => escaper.escape options t
  | _, some quoting =>
    if escaper.isSinglePass then escaper.escape options t
    else Html.escape quoting false (escaper.escape options t)

/-- Carries out a directive. A backslash before the value gets a second one, so that it stands for
itself. -/
def apply (directive : Directive) (options : EscapeOptions) (t : Text) : Text :=
  match directive with
  | .verbatim => t
  | .escape escaper attr afterBackslash =>
    (if afterBackslash then ['\\'] else []) ++ escapeInAttr escaper attr options t

end Directive

end SafeMarkup

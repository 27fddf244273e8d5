import SafeMarkup.Context.Basic
import SafeMarkup.Text.Quoted

/-!
# Descriptions of contexts

The names of places in the grammar, and the form in which a context is shown to a programmer.
-/

namespace SafeMarkup

namespace Js

def Mode.label : Mode → String
  | .code => "Js"
  | .slash => "JsSlash"
  | .doubleQuoted => "JsDqStr"
  | .singleQuoted => "JsSqStr"
  | .template => "JsBqStr"
  | .regexp => "JsRegexp"
  | .blockComment => "JsBlockCmt"
  | .lineComment => "JsLineCmt"

def Slash.label : Slash → String
  | .regexp => "Regexp"
  | .division => "DivOp"

def Word.describe : Word → Text
  | .short letters => Text.quoted letters
  | .long => "<long>".toList

end Js

namespace Css

def Mode.label : Mode → String
  | .code => "Css"
  | .slash => "CssSlash"
  | .doubleQuoted => "CssDqStr"
  | .singleQuoted => "CssSqStr"
  | .urlOpen => "CssUrlOpen"
  | .url => "CssUrl"
  | .doubleQuotedUrl => "CssDqUrl"
  | .singleQuotedUrl => "CssSqUrl"
  | .blockComment => "CssBlockCmt"
  | .lineComment => "CssLineCmt"

/-- The number of letters of `url` that a word has spelled; 4 for a word that is no part of it. -/
def UrlWord.rank : UrlWord → Nat
  | .none => 0
  | .u => 1
  | .ur => 2
  | .url => 3
  | .other => 4

end Css

def State.label : State → String
  | .text => "Text"
  | .tagName => "TagName"
  | .tag => "Tag"
  | .attrName => "AttrName"
  | .afterName => "AfterName"
  | .beforeValue => "BeforeValue"
  | .plainValue => "Attr"
  | .url => "Url"
  | .js mode => mode.label
  | .css mode => mode.label
  | .rcdata => "Rcdata"
  | .comment => "Comment"
  | .bogusComment => "BogusComment"

def Html.Element.label : Html.Element → String
  | .script => "Script"
  | .style => "Style"
  | .textarea => "Textarea"
  | .title => "Title"
  | .xmp => "Xmp"
  | .iframe => "Iframe"
  | .noembed => "Noembed"
  | .noframes => "Noframes"
  | .noscript => "Noscript"
  | .plaintext => "Plaintext"

def Html.AttrKind.label : Html.AttrKind → String
  | .plain => "Plain"
  | .url => "Url"
  | .js => "Js"
  | .css => "Css"

def Delim.label : Delim → String
  | .doubleQuote => "DoubleQuote"
  | .singleQuote => "SingleQuote"
  | .spaceOrTagEnd => "SpaceOrTagEnd"
  | .autoQuote => "AutoQuote"

def Url.Part.label : Url.Part → String
  | .start => "None"
  | .scheme => "Scheme"
  | .preQuery => "PreQuery"
  | .queryOrFragment => "QueryOrFrag"

/-- The name of something that need not be there. -/
def optionLabel {α : Type} (label : α → String) : Option α → String
  | none => "None"
  | some a => label a

/-- The flags that are set, by name. -/
def Flags.labels (flags : Flags) : List String :=
  (if flags.escaping then ["PARTIAL_ESCAPE"] else []) ++
    (if flags.inClass then ["REGEXP_CLASS"] else []) ++
    (if flags.afterStar then ["COMMENT_STAR"] else [])

def Flags.describe (flags : Flags) : Text :=
  let names :=
    match flags.labels with
    | [] => "0x0".toList
    | labels => " | ".toList.intercalate (labels.map String.toList)
  "ContextFlags(".toList ++ names ++ [')']

/-- A record with named fields, on one line. -/
def describeRecord (name : String) (fields : List (String × Text)) : Text :=
  let field (entry : String × Text) : Text := entry.1.toList ++ ": ".toList ++ entry.2
  name.toList ++ " \x7b ".toList ++ ", ".toList.intercalate (fields.map field) ++ " \x7d".toList

def Context.describe (ctx : Context) : Text :=
  describeRecord "Context" [
    ("state", ctx.state.label.toList),
    ("element", (optionLabel Html.Element.label ctx.element).toList),
    ("attr", (optionLabel Html.AttrKind.label ctx.attr).toList),
    ("delim", (optionLabel Delim.label ctx.delim).toList),
    ("url_part", ctx.urlPart.label.toList),
    ("js_ctx", ctx.slash.label.toList),
    ("flags", ctx.flags.describe),
    ("js_word", ctx.word.describe),
    ("js_last", Text.ofNat ctx.lastChar.toNat),
    ("css_url_prefix", Text.ofNat ctx.urlWord.rank)]

end SafeMarkup

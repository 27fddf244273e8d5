import SafeMarkup.Context.Literal

/-!
# Reading CSS

CSS is read one character at a time. What matters of it is where its strings, comments and `url()`
forms begin and end, and how much of a URL has been read.
-/

namespace SafeMarkup.Context

/-- Reads a character of CSS outside of strings, comments and `url()`. -/
def feedCssCode (ctx : Context) (c : Char) : Context :=
  if c = '"' then { ctx with state := .css .doubleQuoted, urlWord := .none }
  else if c = '\'' then { ctx with state := .css .singleQuoted, urlWord := .none }
  else if c = '/' then { ctx with state := .css .slash, urlWord := .none }
  else if c = '(' then
    if ctx.urlWord = .url then
      { ctx with state := .css .urlOpen, urlPart := .start, urlWord := .none }
    else { ctx with urlWord := .none }
  else { ctx with urlWord := ctx.urlWord.next c }

/-- Reads the character after a `/`. -/
def feedCssSlash (ctx : Context) (c : Char) : Context :=
  if c = '*' then { ctx with state := .css .blockComment }
  else if c = '/' then { ctx with state := .css .lineComment }
  else feedCssCode { ctx with state := .css .code } c

/-- Reads a character after `url(`, where the URL may still turn out to be quoted. -/
def feedCssUrlOpen (ctx : Context) (c : Char) : Context :=
  if c = '"' then { ctx with state := .css .doubleQuotedUrl }
  else if c = '\'' then { ctx with state := .css .singleQuotedUrl }
  else if c = ')' then { ctx with state := .css .code }
  else if isHtmlSpace c then ctx
  else { ctx with state := .css .url, urlPart := ctx.urlPart.next c }

/-- Reads a character of a URL without quotes. -/
def feedCssUrl (ctx : Context) (c : Char) : Context :=
  if c = ')' ∨ isHtmlSpace c then { ctx with state := .css .code }
  else { ctx with urlPart := ctx.urlPart.next c }

/-- Reads a character of a URL in quotes. -/
def feedCssQuotedUrl (ctx : Context) (quote c : Char) : Context :=
  let next := ctx.feedString quote (.css .code) Css.isLineEnd c
  if next.state = ctx.state then { next with urlPart := next.urlPart.next c } else next

def feedCss (ctx : Context) (mode : Css.Mode) (c : Char) : Context :=
  match mode with
  | .code => ctx.feedCssCode c
  | .slash => ctx.feedCssSlash c
  | .doubleQuoted => ctx.feedString '"' (.css .code) Css.isLineEnd c
  | .singleQuoted => ctx.feedString '\'' (.css .code) Css.isLineEnd c
  | .urlOpen => ctx.feedCssUrlOpen c
  | .url => ctx.feedCssUrl c
  | .doubleQuotedUrl => ctx.feedCssQuotedUrl '"' c
  | .singleQuotedUrl => ctx.feedCssQuotedUrl '\'' c
  | .blockComment => ctx.feedBlockComment (.css .code) c
  | .lineComment => if Css.isLineEnd c then { ctx with state := .css .code } else ctx

end SafeMarkup.Context

import SafeMarkup.Context.Literal

/-!
# Reading JS

JS is read one character at a time. What matters of it is where its literals and comments begin
and end. For that, code outside of them is read just closely enough to tell what a `/` is.
-/

namespace SafeMarkup.Context

/-- The character as it is remembered: letters beyond ASCII need not be told apart. -/
def remembered (c : Char) : Char := if isAscii c then c else 'a'

/-- Reads a character of code that is neither a quote, a `/` nor whitespace. A single `+` or `-` is
an operator, which an operand follows; doubled it comes after an operand, and so on in turns. A `.`
after a digit belongs to a number. -/
def feedJsToken (ctx : Context) (c : Char) : Context :=
  if c = '+' ∨ c = '-' then
    if ctx.lastChar = c ∧ ctx.slash = .regexp then { ctx with slash := .division }
    else { ctx with slash := .regexp }
  else if c = '.' ∧ ctx.lastChar.isDigit then { ctx with slash := .division }
  else if Js.isOperator c then { ctx with slash := .regexp }
  else if Js.isWordChar c then
    let word := ctx.word.push c
    { ctx with word, slash := if word.precedesRegexp then .regexp else .division }
  else { ctx with slash := .division }

/-- Forgets the word before the cursor unless `c` continues it, and remembers `c`. -/
def afterJsChar (ctx : Context) (c : Char) : Context :=
  { ctx with
    word := if Js.isWordChar c then ctx.word else .empty
    lastChar := remembered c }

def feedJsCode (ctx : Context) (c : Char) : Context :=
  let next :=
    if c = '"' then { ctx with state := .js .doubleQuoted }
    else if c = '\'' then { ctx with state := .js .singleQuoted }
    else if c = '\x60' then { ctx with state := .js .template }
    else if c = '/' then { ctx with state := .js .slash }
    else if Js.isSpace c then ctx
    else ctx.feedJsToken c
  next.afterJsChar c

/-- Reads a character of a regular expression. It ends at an unescaped `/` outside of character
classes, and is given up at the end of the line. -/
def feedJsRegexp (ctx : Context) (c : Char) : Context :=
  if ctx.flags.escaping then { ctx with flags.escaping := false }
  else if c = '\\' then { ctx with flags.escaping := true }
  else if c = '[' then { ctx with flags.inClass := true }
  else if c = ']' then { ctx with flags.inClass := false }
  else if c = '/' ∧ !ctx.flags.inClass then
    { ctx with state := .js .code, slash := .division, lastChar := '/' }
  else if Js.isLineEnd c then { ctx with state := .js .code, slash := .regexp, flags := {} }
  else ctx

/-- Reads the character after a `/`. An operand follows a division. -/
def feedJsSlash (ctx : Context) (c : Char) : Context :=
  if c = '/' then { ctx with state := .js .lineComment }
  else if c = '*' then { ctx with state := .js .blockComment }
  else
    match ctx.slash with
    | .regexp => feedJsRegexp { ctx with state := .js .regexp } c
    | .division =>
      feedJsCode { ctx with state := .js .code, slash := .regexp, lastChar := '/' } c

def feedJs (ctx : Context) (mode : Js.Mode) (c : Char) : Context :=
  match mode with
  | .code => ctx.feedJsCode c
  | .slash => ctx.feedJsSlash c
  | .doubleQuoted => ctx.feedString '"' (.js .code) (fun _ => false) c
  | .singleQuoted => ctx.feedString '\'' (.js .code) (fun _ => false) c
  | .template => ctx.feedString '\x60' (.js .code) (fun _ => false) c
  | .regexp => ctx.feedJsRegexp c
  | .blockComment => ctx.feedBlockComment (.js .code) c
  | .lineComment => if Js.isLineEnd c then { ctx with state := .js .code } else ctx

end SafeMarkup.Context

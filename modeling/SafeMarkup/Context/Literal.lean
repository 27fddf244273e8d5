import SafeMarkup.Context.Basic

/-!
# Literals and comments

JS and CSS share the way their strings and block comments are read. A backslash in a string escapes
the next character; a block comment ends at the first `/` that comes right after a `*`.
-/

namespace SafeMarkup.Context

/-- Reads a character of a string that `quote` ends. After the string the code goes on as `code`.
A string is an operand, so a `/` after it is a division. An unescaped character with `endsLine`
ends the string as well. -/
def feedString (ctx : Context) (quote : Char) (code : State) (endsLine : Char → Bool)
    (c : Char) : Context :=
  if ctx.flags.escaping then { ctx with flags.escaping := false }
  else if c = '\\' then { ctx with flags.escaping := true }
  else if c = quote then
    { ctx with state := code, slash := .division, lastChar := quote, urlWord := .none }
  else if endsLine c then { ctx with state := code, urlWord := .none }
  else ctx

/-- Reads a character of a block comment, after which the code goes on as `code`. -/
def feedBlockComment (ctx : Context) (code : State) (c : Char) : Context :=
  if c = '/' ∧ ctx.flags.afterStar then { ctx with state := code, flags.afterStar := false }
  else { ctx with flags.afterStar := c == '*' }

end SafeMarkup.Context

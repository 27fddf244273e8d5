import SafeMarkup.Context.Js
import SafeMarkup.Context.Css

/-!
# Reading URLs, JS and CSS

The languages inside attribute values and special elements are read one character at a time. Where
they end is decided by the markup around them, before a character gets here.
-/

namespace SafeMarkup.Context

/-- Reads one character. Where single characters do not matter nothing changes. -/
def feed (ctx : Context) (c : Char) : Context :=
  match ctx.state with
  | .url => { ctx with urlPart := ctx.urlPart.next c }
  | .js mode => ctx.feedJs mode c
  | .css mode => ctx.feedCss mode c
  | _ => ctx

def feedAll (ctx : Context) (t : Text) : Context := t.foldl feed ctx

@[simp] theorem feedAll_nil (ctx : Context) : ctx.feedAll [] = ctx := rfl

@[simp] theorem feedAll_cons (ctx : Context) (c : Char) (t : Text) :
    ctx.feedAll (c :: t) = (ctx.feed c).feedAll t := rfl

theorem feedAll_append (ctx : Context) (a b : Text) :
    ctx.feedAll (a ++ b) = (ctx.feedAll a).feedAll b := by
  simp [feedAll]

theorem feedAll_append_singleton (ctx : Context) (t : Text) (c : Char) :
    ctx.feedAll (t ++ [c]) = (ctx.feedAll t).feed c := by
  rw [feedAll_append, feedAll_cons, feedAll_nil]

example : ((elementContent (some .script)).feedAll "return /a".toList).state = .js .regexp := by
  decide

example : ((elementContent (some .script)).feedAll "x = a /b".toList).state = .js .code := by
  decide

example : ((elementContent (some .style)).feedAll "a b: URL(http".toList).urlPart = .scheme := by
  decide

end SafeMarkup.Context

import SafeMarkup.Html.CharRef

/-!
# Escaping for HTML

Characters that have a meaning in markup are replaced by references to them. The soft form keeps
an `&` that starts a reference already, so text that has been escaped before stays as it is.
-/

namespace SafeMarkup.Html

/-- How the value of an attribute is delimited. Plain text needs no more than a quoted value. -/
inductive Quoting where
  | quoted
  | unquoted
  deriving DecidableEq, Repr

/-- What replaces a character other than `&`, if it is replaced at all. In an unquoted value that
goes for every character that could end it as well. -/
def replacement? (quoting : Quoting) (c : Char) : Option Text :=
  match c with
  | '<' => some "&lt;".toList
  | '>' => some "&gt;".toList
  | '"' => some "&#34;".toList
  | '\'' => some "&#39;".toList
  | '\x00' => some ['\ufffd']
  | c =>
    match quoting with
    | .quoted => none
    | .unquoted =>
      match c with
      | '\t' => some "&#9;".toList
      | '\n' => some "&#10;".toList
      | '\x0c' => some "&#12;".toList
      | '\r' => some "&#13;".toList
      | ' ' => some "&#32;".toList
      | '=' => some "&#61;".toList
      | '\x60' => some "&#96;".toList
      | _ => none

/-- What is written for a character other than `&`. -/
def escapeChar (quoting : Quoting) (c : Char) : Text :=
  (replacement? quoting c).getD [c]

/-- Escapes a text. If `soft`, an `&` that starts a reference is kept; the rest of the reference
needs no escaping. -/
def escape (quoting : Quoting) (soft : Bool) : Text → Text
  | [] => []
  | c :: rest =>
    if c = '&' then
      if soft && CharRef.startsRef rest then '&' :: escape quoting soft rest
      else "&amp;".toList ++ escape quoting soft rest
    else escapeChar quoting c ++ escape quoting soft rest

@[simp] theorem escape_nil (quoting : Quoting) (soft : Bool) : escape quoting soft [] = [] := rfl

/-- Outside soft mode every character is escaped on its own. -/
theorem escape_append (quoting : Quoting) (a b : Text) :
    escape quoting false (a ++ b) = escape quoting false a ++ escape quoting false b := by
  induction a with
  | nil => rfl
  | cons c a ih => by_cases h : c = '&' <;> simp [escape, h, ih]

example : escape .quoted true "&amp; & <".toList = "&amp; &amp; &lt;".toList := by decide

end SafeMarkup.Html

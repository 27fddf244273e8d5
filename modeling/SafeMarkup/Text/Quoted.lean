import SafeMarkup.Text.Printable

/-!
# Quoted form of texts

Descriptions of values and writers show texts between quotes. Inside, the quote itself, the
backslash and a few controls have short escapes, and every other character that cannot be shown
is written as its hexadecimal code point in braces.
-/

namespace SafeMarkup

/-- One character inside the quoted form whose quotes are `quote`. -/
def quotedChar (quote c : Char) : Text :=
  match c with
  | '\x00' => ['\\', '0']
  | '\t' => ['\\', 't']
  | '\n' => ['\\', 'n']
  | '\r' => ['\\', 'r']
  | '\\' => ['\\', '\\']
  | c =>
    if c = quote then ['\\', c]
    else if isPrintable c then [c]
    else ['\\', 'u', '\x7b'] ++ Text.ofNatHex c.toNat ++ ['\x7d']

def Text.quoted (t : Text) : Text := ['"'] ++ t.flatMap (quotedChar '"') ++ ['"']

def Text.quotedSingle (c : Char) : Text := ['\''] ++ quotedChar '\'' c ++ ['\'']

example : Text.quoted "a\"\n".toList = "\"a\\\"\\n\"".toList := by decide

end SafeMarkup

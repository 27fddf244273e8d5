import SafeMarkup.Text.Basic

/-!
# URL schemes

The scheme of a URL decides what following it does. Untrusted URLs may only use the schemes of an
allow-list.
-/

namespace SafeMarkup.Url

/-- A scheme that an allow-list may name. -/
inductive Scheme where
  | http
  | https
  | mailto
  | tel
  | ftp
  | data
  deriving DecidableEq, Repr

namespace Scheme

def all : List Scheme := [.http, .https, .mailto, .tel, .ftp, .data]

def name : Scheme → Text
  | .http => "http".toList
  | .https => "https".toList
  | .mailto => "mailto".toList
  | .tel => "tel".toList
  | .ftp => "ftp".toList
  | .data => "data".toList

/-- The scheme with this name, in any letter case. -/
def ofName? (name : Text) : Option Scheme :=
  all.find? fun scheme => Text.sameName scheme.name name

/-- The schemes that are allowed unless others are asked for. -/
def default : List Scheme := [.http, .https, .mailto]

end Scheme

/-- The characters that end the scheme of a URL, or show that it has none. -/
def endsScheme (c : Char) : Bool := c == ':' || c == '/' || c == '?' || c == '#'

/-- The scheme of a URL is everything before a `:` that no `/`, `?` or `#` precedes. -/
def scheme? (url : Text) : Option Text :=
  match url.dropWhile (!endsScheme ·) with
  | ':' :: _ => some (url.takeWhile (!endsScheme ·))
  | _ => none

/-- Is the URL without a scheme, or is its scheme in the allow-list? -/
def isAllowed (allowed : List Scheme) (url : Text) : Bool :=
  match scheme? url with
  | none => true
  | some name =>
    match Scheme.ofName? name with
    | none => false
    | some scheme => allowed.contains scheme

end SafeMarkup.Url

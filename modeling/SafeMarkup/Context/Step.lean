import SafeMarkup.Context.Feed
import SafeMarkup.Html.CharRef

/-!
# Deciding what comes next

Markup cannot be read one character at a time: what `<scr` is depends on what follows it. A step
looks at the text that has not been decided yet and either decides on some of it, or finds that it
needs to see more. At the end of a document, or before an untrusted value, there is no more to see;
then the text is `last`, and a step always decides.

What a step decides on is written. That is the text itself, except in values that have been put in
quotes: there the closing quote is added, and a quote inside becomes a reference.
-/

namespace SafeMarkup

/-- The outcome of a look at undecided text. -/
inductive Step where
  /-- The first `used` characters are decided, `written` goes out for them, and `next` is the
  context after them. -/
  | consumed (next : Context) (written : Text) (used : Nat)
  /-- More of the text is needed. What has become clear so far is kept in `next`. -/
  | blocked (next : Context)
  deriving DecidableEq, Repr

/-- Decides on the first `used` characters of `text`, and writes them as they are. -/
def Step.copy (next : Context) (text : Text) (used : Nat) : Step :=
  .consumed next (text.take used) used

namespace Context

/-- Decides on one character, which is read by the language at the cursor. -/
def stepChar (ctx : Context) (c : Char) : Step := .consumed (ctx.feed c) [c] 1

/-! ### Tags -/

/-- Reads the name of a tag. `opening` is the `<` or `</` before it, and `element` says which
special element a tag of that name opens. Without the end of the name nothing can be said of the
tag. -/
def stepTagName (ctx : Context) (last : Bool) (opening : Text)
    (element : Text → Option Html.Element) (rest : Text) : Step :=
  let name := rest.takeWhile (!Html.endsTagName ·)
  let used := opening.length + name.length
  match rest.dropWhile (!Html.endsTagName ·) with
  | _ :: _ => .consumed { state := .tag, element := element name } (opening ++ name) used
  | [] =>
    if last then .consumed { ctx with state := .tagName } (opening ++ name) used
    else .blocked ctx

/-- Reads what follows a `<!`: the opening of a comment, or markup that is ignored. The shortest
comments, `<!-->` and `<!--->`, are over at once. -/
def stepDeclaration (ctx : Context) (last : Bool) (rest : Text) : Step :=
  let text := '<' :: '!' :: rest
  match rest with
  | '-' :: '-' :: '>' :: _ => .copy ctx text 5
  | '-' :: '-' :: '-' :: '>' :: _ => .copy ctx text 6
  | ['-', '-'] | ['-', '-', '-'] =>
    if last then .copy { ctx with state := .comment } text 4 else .blocked ctx
  | '-' :: '-' :: _ => .copy { ctx with state := .comment } text 4
  | [] | ['-'] =>
    if last then .copy { ctx with state := .bogusComment } text 2 else .blocked ctx
  | _ => .copy { ctx with state := .bogusComment } text 2

/-- Reads what follows a `</` in text. -/
def stepEndTag (ctx : Context) (last : Bool) (rest : Text) : Step :=
  match rest with
  | [] => if last then .copy { ctx with state := .tagName } ['<', '/'] 2 else .blocked ctx
  | c :: _ =>
    if c.isAlpha then ctx.stepTagName last ['<', '/'] (fun _ => none) rest
    else if c = '>' then .copy ctx ('<' :: '/' :: rest) 3
    else .copy { ctx with state := .bogusComment } ('<' :: '/' :: rest) 2

/-- Reads what follows a `<` in text. A `<` that nothing follows could still become a tag if an
untrusted value came next, so it counts as the start of one. -/
def stepMarkup (ctx : Context) (last : Bool) (rest : Text) : Step :=
  match rest with
  | [] => if last then .copy { ctx with state := .tagName } ['<'] 1 else .blocked ctx
  | c :: more =>
    if c = '!' then ctx.stepDeclaration last more
    else if c = '?' then .copy { ctx with state := .bogusComment } ('<' :: rest) 2
    else if c = '/' then ctx.stepEndTag last more
    else if c.isAlpha then ctx.stepTagName last ['<'] Html.Element.ofTagName? rest
    else .copy ctx ('<' :: rest) 1

def stepText (ctx : Context) (last : Bool) (c : Char) (rest : Text) : Step :=
  if c = '<' then ctx.stepMarkup last rest else .consumed ctx [c] 1

/-- A step between the attributes of a tag. The first character of an attribute's name can be
anything, even `=`. -/
def stepTag (ctx : Context) (last : Bool) (c : Char) (rest : Text) : Step :=
  if c = '>' then .consumed ctx.closeTag [c] 1
  else if Html.endsTagName c then .consumed ctx [c] 1
  else
    let name := c :: rest.takeWhile (!Html.endsAttrName ·)
    let attr := some (Html.AttrKind.ofName name)
    match rest.dropWhile (!Html.endsAttrName ·) with
    | _ :: _ => .consumed { ctx with attr, state := .afterName } name name.length
    | [] =>
      if last then .consumed { ctx with attr, state := .attrName } name name.length
      else .blocked ctx

/-- A step in the name of a tag of which the start has been decided on already. The name as a whole
cannot be looked up any more, so the tag counts as a regular one. -/
def stepPartialTagName (ctx : Context) (last : Bool) (c : Char) (rest : Text) : Step :=
  if Html.endsTagName c then stepTag { state := .tag } last c rest else .consumed ctx [c] 1

def stepAfterName (ctx : Context) (last : Bool) (c : Char) (rest : Text) : Step :=
  if c = '=' then .consumed { ctx with state := .beforeValue } [c] 1
  else if c = '>' then .consumed ctx.closeTag [c] 1
  else if isHtmlSpace c then .consumed ctx [c] 1
  else ctx.inTag.stepTag last c rest

/-- A step in the name of an attribute of which the start has been decided on already. -/
def stepPartialAttrName (ctx : Context) (last : Bool) (c : Char) (rest : Text) : Step :=
  if Html.endsAttrName c then stepAfterName { ctx with state := .afterName } last c rest
  else .consumed ctx [c] 1

/-! ### Values of attributes -/

/-- Reads a character of a value that does not end it. Browsers replace the references in a value
before they interpret it, so the language at the cursor gets to read the character referred to. -/
def stepValueChar (ctx : Context) (last : Bool) (c : Char) (rest : Text) : Step :=
  if c = '&' then
    match Html.CharRef.scan last rest with
    | .complete length char => .copy (ctx.feed char) (c :: rest) length
    | .incomplete => .blocked ctx
    | .absent => ctx.stepChar c
  else ctx.stepChar c

def stepValue (ctx : Context) (delim : Delim) (last : Bool) (c : Char) (rest : Text) : Step :=
  match delim with
  | .doubleQuote =>
    if c = '"' then .consumed ctx.inTag [c] 1 else ctx.stepValueChar last c rest
  | .singleQuote =>
    if c = '\'' then .consumed ctx.inTag [c] 1 else ctx.stepValueChar last c rest
  | .spaceOrTagEnd =>
    if c = '>' then .consumed ctx.closeTag [c] 1
    else if isHtmlSpace c then .consumed ctx.inTag [c] 1
    else ctx.stepValueChar last c rest
  | .autoQuote =>
    if c = '>' then .consumed ctx.closeTag ['"', c] 1
    else if isHtmlSpace c then .consumed ctx.inTag ['"', c] 1
    else if c = '"' then .consumed (ctx.feed c) "&#34;".toList 1
    else ctx.stepValueChar last c rest

def stepBeforeValue (ctx : Context) (last : Bool) (c : Char) (rest : Text) : Step :=
  if c = '"' then .consumed (ctx.attrValue .doubleQuote) [c] 1
  else if c = '\'' then .consumed (ctx.attrValue .singleQuote) [c] 1
  else if c = '>' then .consumed ctx.closeTag [c] 1
  else if isHtmlSpace c then .consumed ctx [c] 1
  else (ctx.attrValue .spaceOrTagEnd).stepValue .spaceOrTagEnd last c rest

/-! ### Comments -/

/-- A step in a comment, which `-->` or `--!>` ends. -/
def stepComment (ctx : Context) (last : Bool) (c : Char) (rest : Text) : Step :=
  let text := c :: rest
  match text with
  | '-' :: '-' :: '>' :: _ => .copy { ctx with state := .text } text 3
  | '-' :: '-' :: '!' :: '>' :: _ => .copy { ctx with state := .text } text 4
  | ['-'] | ['-', '-'] | ['-', '-', '!'] => if last then .copy ctx text 1 else .blocked ctx
  | _ => .copy ctx text 1

/-- A step in ignored markup, which `>` ends. -/
def stepBogusComment (ctx : Context) (c : Char) : Step :=
  .consumed (if c = '>' then { ctx with state := .text } else ctx) [c] 1

/-! ### Content of special elements -/

/-- Reads what follows a `<` in the content of an element. The content ends at the element's end
tag and nowhere else. -/
def stepContentMarkup (ctx : Context) (element : Html.Element) (last : Bool) (rest : Text) :
    Step :=
  let undecided := if last then ctx.stepChar '<' else .blocked ctx
  match rest with
  | [] => undecided
  | c :: more =>
    if c = '/' ∧ element.couldEnd more then
      match more.drop element.tagName.length with
      | [] => undecided
      | d :: _ =>
        if Html.endsTagName d then
          .copy { state := .tag } ('<' :: rest) (2 + element.tagName.length)
        else ctx.stepChar '<'
    else ctx.stepChar '<'

def stepContent (ctx : Context) (last : Bool) (c : Char) (rest : Text) : Step :=
  match ctx.element with
  | none => ctx.stepChar c
  | some element =>
    if c = '<' ∧ element.hasEndTag then ctx.stepContentMarkup element last rest
    else ctx.stepChar c

/-! ### All places together -/

/-- Looks at the undecided text `c :: rest`. If `last`, that text is all there is. -/
def step (ctx : Context) (last : Bool) (c : Char) (rest : Text) : Step :=
  match ctx.delim with
  | some delim => ctx.stepValue delim last c rest
  | none =>
    match ctx.state with
    | .text => ctx.stepText last c rest
    | .tagName => ctx.stepPartialTagName last c rest
    | .tag => ctx.stepTag last c rest
    | .attrName => ctx.stepPartialAttrName last c rest
    | .afterName => ctx.stepAfterName last c rest
    | .beforeValue => ctx.stepBeforeValue last c rest
    | .comment => ctx.stepComment last c rest
    | .bogusComment => ctx.stepBogusComment c
    | .plainValue | .url | .js _ | .css _ | .rcdata => ctx.stepContent last c rest

end Context

end SafeMarkup

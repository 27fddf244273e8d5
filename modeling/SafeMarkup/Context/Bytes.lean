import SafeMarkup.Context.Advance
import SafeMarkup.Html.CharRef.Match

/-!
# Deciding on bytes

The steps of `step`, taken on the UTF-8 form of a text. Positions count bytes, scans look at bytes,
and text without a meaning of its own is decided on in one piece. A step that looks at a position
that does not exist, or cuts a text inside a character, has no result. `advance` has none either if
one of its steps has none, or if its steps never come to an end.
-/

namespace SafeMarkup.Context.Bytes

/-- Decides on the first `used` bytes, and writes `before` and then the bytes as they are. -/
def emitAfter (before : Text) (next : Context) (input : Text) (used : Nat) : Option Step := do
  let (written, _) ← input.cutAt? used
  return .consumed next (before ++ written) used

/-- Decides on the first `used` bytes, and writes them as they are. -/
def emit (next : Context) (input : Text) (used : Nat) : Option Step := emitAfter [] next input used

/-- Decides on the first character, which is read by the language at the cursor. -/
def emitChar (ctx : Context) : Text → Option Step
  | c :: _ => some (.consumed (ctx.feed c) [c] c.utf8Size)
  | [] => some (.consumed ctx [] 0)

/-- Decides in one piece on all that comes before the first byte of the class `ends`. If
there is such a byte at the start, the step is `here`. -/
def emitRun (ctx : Context) (ends : Char → Bool) (input : Text) (here : Option Step) :
    Option Step :=
  match input.byteView.findIdx? ends with
  | some 0 => here
  | some used => emit ctx input used
  | none => emit ctx input input.utf8Size

/-! ### Tags -/

/-- Reads the name of a tag, which starts at position `start`. -/
def tagName (ctx : Context) (last : Bool) (input : Text) (start : Nat) (isEndTag : Bool) :
    Option Step := do
  let tail ← input.byteView.sliceFrom? start
  match tail.findIdx? Html.endsTagName with
  | some length =>
    let element ←
      if isEndTag then some none
      else (input.byteView.slice? start (start + length)).map Html.Element.ofTagName?
    emit { state := .tag, element } input (start + length)
  | none =>
    if last then emit { ctx with state := .tagName } input input.utf8Size
    else some (.blocked ctx)

/-- The text starts with a `<!`. -/
def declaration (ctx : Context) (last : Bool) (input : Text) : Option Step :=
  let bytes := input.byteView
  if "<!--".toList.isPrefixOf bytes then
    let rest := bytes.drop 4
    if ['>'].isPrefixOf rest then emit ctx input 5
    else if ['-', '>'].isPrefixOf rest then emit ctx input 6
    else if last = false ∧ (rest = [] ∨ rest = ['-']) then some (.blocked ctx)
    else emit { ctx with state := .comment } input 4
  else if last = false ∧ bytes.isPrefixOf "<!--".toList then some (.blocked ctx)
  else emit { ctx with state := .bogusComment } input (min input.utf8Size 2)

/-- The text starts with a `</`. -/
def endTag (ctx : Context) (last : Bool) (input : Text) : Option Step :=
  match input.byteView[2]? with
  | none =>
    if last then emit { ctx with state := .tagName } input 2 else some (.blocked ctx)
  | some b =>
    if b.isAlpha then tagName ctx last input 2 true
    else if b = '>' then emit ctx input 3
    else emit { ctx with state := .bogusComment } input 2

/-- The text starts with a `<`. -/
def markup (ctx : Context) (last : Bool) (input : Text) : Option Step :=
  match input.byteView[1]? with
  | none =>
    if last then emit { ctx with state := .tagName } input 1 else some (.blocked ctx)
  | some b =>
    if b = '!' then declaration ctx last input
    else if b = '?' then emit { ctx with state := .bogusComment } input 2
    else if b = '/' then endTag ctx last input
    else if b.isAlpha then tagName ctx last input 1 false
    else emit ctx input 1

def text (ctx : Context) (last : Bool) (input : Text) : Option Step :=
  emitRun ctx (· == '<') input (markup ctx last input)

/-- The kind of an attribute by the bytes of its name. -/
def attrKind? (name : Text) : Option Html.AttrKind :=
  if Text.startsWithName name "data-".toList then
    (name.sliceFrom? 5).map Html.AttrKind.ofLocalName
  else
    match name.findIdx? (· == ':') with
    | some colon => do
      let start ← name.slice? 0 colon
      if Text.sameName start "xmlns".toList then return .url
      else (name.sliceFrom? (colon + 1)).map Html.AttrKind.ofLocalName
    | none => some (Html.AttrKind.ofLocalName name)

def tag (ctx : Context) (last : Bool) (input : Text) : Option Step := do
  let bytes := input.byteView
  let first ← bytes[0]?
  if first = '>' then emit ctx.closeTag input 1
  else if isHtmlSpace first || first == '/' then emit ctx input 1
  else
    let tail ← bytes.sliceFrom? 1
    match tail.findIdx? Html.endsAttrName with
    | some length =>
      let name ← bytes.slice? 0 (length + 1)
      let kind ← attrKind? name
      emit { ctx with attr := some kind, state := .afterName } input (length + 1)
    | none =>
      if last then
        let kind ← attrKind? bytes
        emit { ctx with attr := some kind, state := .attrName } input input.utf8Size
      else some (.blocked ctx)

def partialTagName (ctx : Context) (last : Bool) (input : Text) : Option Step :=
  emitRun ctx Html.endsTagName input (tag { state := .tag } last input)

def afterName (ctx : Context) (last : Bool) (input : Text) : Option Step := do
  let first ← input.byteView[0]?
  if first = '=' then emit { ctx with state := .beforeValue } input 1
  else if first = '>' then emit ctx.closeTag input 1
  else if isHtmlSpace first then emit ctx input 1
  else tag ctx.inTag last input

def partialAttrName (ctx : Context) (last : Bool) (input : Text) : Option Step :=
  emitRun ctx Html.endsAttrName input (afterName { ctx with state := .afterName } last input)

/-! ### Values of attributes -/

/-- The text starts with an `&`. -/
def charRef (ctx : Context) (last : Bool) (input : Text) : Option Step := do
  match ← Html.CharRef.matchBytes input.utf8Bytes last with
  | .complete length char => emit (ctx.feed char) input length
  | .incomplete => some (.blocked ctx)
  | .absent => emitChar ctx input

def value (ctx : Context) (delim : Delim) (last : Bool) (input : Text) : Option Step := do
  let first ← input.byteView[0]?
  let inside := if first = '&' then charRef ctx last input else emitChar ctx input
  match delim with
  | .doubleQuote => if first = '"' then emit ctx.inTag input 1 else inside
  | .singleQuote => if first = '\'' then emit ctx.inTag input 1 else inside
  | .spaceOrTagEnd =>
    if first = '>' then emit ctx.closeTag input 1
    else if isHtmlSpace first then emit ctx.inTag input 1
    else inside
  | .autoQuote =>
    if first = '>' then emitAfter ['"'] ctx.closeTag input 1
    else if isHtmlSpace first then emitAfter ['"'] ctx.inTag input 1
    else if first = '"' then some (.consumed (ctx.feed '"') "&#34;".toList 1)
    else inside

def beforeValue (ctx : Context) (last : Bool) (input : Text) : Option Step := do
  let first ← input.byteView[0]?
  if first = '"' then emit (ctx.attrValue .doubleQuote) input 1
  else if first = '\'' then emit (ctx.attrValue .singleQuote) input 1
  else if first = '>' then emit ctx.closeTag input 1
  else if isHtmlSpace first then emit ctx input 1
  else value (ctx.attrValue .spaceOrTagEnd) .spaceOrTagEnd last input

/-! ### Comments -/

/-- The text starts with a `-`. -/
def commentEnd (ctx : Context) (last : Bool) (input : Text) : Option Step :=
  let bytes := input.byteView
  if "-->".toList.isPrefixOf bytes then emit { ctx with state := .text } input 3
  else if "--!>".toList.isPrefixOf bytes then emit { ctx with state := .text } input 4
  else if last = false ∧ (bytes.isPrefixOf "-->".toList ∨ bytes.isPrefixOf "--!>".toList) then
    some (.blocked ctx)
  else emit ctx input 1

def comment (ctx : Context) (last : Bool) (input : Text) : Option Step :=
  emitRun ctx (· == '-') input (commentEnd ctx last input)

def bogusComment (ctx : Context) (input : Text) : Option Step :=
  match input.byteView.findIdx? (· == '>') with
  | some position => emit { ctx with state := .text } input (position + 1)
  | none => emit ctx input input.utf8Size

/-! ### Content of special elements -/

/-- Can the bytes after `</` still turn out to be the end tag? -/
def couldEnd? (element : Html.Element) (bytes : Text) : Option Bool := do
  let length := min bytes.length element.tagName.length
  let start ← bytes.slice? 0 length
  let name ← element.tagName.slice? 0 length
  return Text.sameName start name

/-- The text starts with a `<` in content that can end. -/
def contentMarkup (ctx : Context) (element : Html.Element) (last : Bool) (input : Text) :
    Option Step := do
  let bytes := input.byteView
  let couldEnd ←
    match bytes[1]? with
    | some '/' => do couldEnd? element (← bytes.sliceFrom? 2)
    | some _ => some false
    | none => some true
  if couldEnd then
    match bytes[2 + element.tagName.length]? with
    | some b =>
      if Html.endsTagName b then emit { state := .tag } input (2 + element.tagName.length)
      else emitChar ctx input
    | none => if last then emitChar ctx input else some (.blocked ctx)
  else emitChar ctx input

/-- The text does not start the end of the content. Where nothing but the end matters, it is looked
for from the second byte on. -/
def contentText (ctx : Context) (hasEndTag : Bool) (input : Text) : Option Step :=
  if ctx.state = .rcdata then do
    let tail ← input.byteView.sliceFrom? 1
    match tail.findIdx? (· == '<') with
    | some position =>
      emit ctx input (if hasEndTag then position + 1 else input.utf8Size)
    | none => emit ctx input input.utf8Size
  else emitChar ctx input

def content (ctx : Context) (last : Bool) (input : Text) : Option Step :=
  match ctx.element with
  | none => contentText ctx false input
  | some element =>
    if element.hasEndTag then do
      let first ← input.byteView[0]?
      if first = '<' then contentMarkup ctx element last input
      else contentText ctx true input
    else contentText ctx false input

/-! ### All places together -/

/-- Looks at undecided text. If `last`, that text is all there is. -/
def step (ctx : Context) (last : Bool) (input : Text) : Option Step :=
  match ctx.delim with
  | some delim => value ctx delim last input
  | none =>
    match ctx.state with
    | .text => text ctx last input
    | .tagName => partialTagName ctx last input
    | .tag => tag ctx last input
    | .attrName => partialAttrName ctx last input
    | .afterName => afterName ctx last input
    | .beforeValue => beforeValue ctx last input
    | .comment => comment ctx last input
    | .bogusComment => bogusComment ctx input
    | .plainValue | .url | .js _ | .css _ | .rcdata => content ctx last input

/-- How far a text has been followed, with the number of bytes at its end that are undecided. -/
structure Position where
  context : Context
  written : Text
  undecided : Nat
  deriving DecidableEq, Repr

/-- Follows a text whose first `position` bytes have been decided on already. There is no result
when a step has none, and none when a step decides on nothing, as it would be taken for ever. -/
def advanceFrom (last : Bool) (input : Text) (ctx : Context) (position : Nat) :
    Option Position :=
  if _ : position < input.utf8Size then do
    let (_, rest) ← input.cutAt? position
    match ← step ctx last rest with
    | .consumed next written used =>
      if _ : 0 < used then do
        let p ← advanceFrom last input next (position + used)
        return { p with written := written ++ p.written }
      else none
    | .blocked next => return ⟨next, [], input.utf8Size - position⟩
  else return ⟨ctx, [], 0⟩
termination_by input.utf8Size - position

/-- Follows a text. If `last`, nothing will come after it. -/
def advance (ctx : Context) (last : Bool) (input : Text) : Option Position :=
  advanceFrom last input ctx 0

end SafeMarkup.Context.Bytes

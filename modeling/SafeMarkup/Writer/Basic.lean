import SafeMarkup.Context.Advance
import SafeMarkup.Directive
import SafeMarkup.Value.Serializer
import SafeMarkup.Charset.Transcode
import SafeMarkup.HeldText

/-!
# The escaping writer

A document is written piece by piece: trusted text, typically the markup of a template, as it is,
and untrusted values escaped for the place where they land. To know that place the writer follows
everything it writes through the grammar. Trusted text may be cut anywhere; what cannot be decided
yet is held back.

Text that has been decided is sent to the sink at the end of each call. A call that fails does not
undo what it did before the failure.
-/

namespace SafeMarkup

/-- Why a call to a writer failed. -/
inductive WriterError where
  | closed
  /-- The sink failed, for the given reason. -/
  | sink (reason : Text)
  /-- There was no memory for held back text. -/
  | heldTextLimit (e : LimitExceeded)
  deriving DecidableEq, Repr

def WriterError.message : WriterError → Text
  | .closed => "The writer has been closed.".toList
  | .sink reason => "Output sink error: ".toList ++ reason
  | .heldTextLimit e => e.message

/-- What can be chosen about a writer. -/
structure Settings where
  charset : Charset := .utf8
  /-- Are references in untrusted text kept? -/
  soft : Bool := false
  schemes : List Url.Scheme := Url.Scheme.default
  /-- The memory reserved for held back text from the start, in bytes. -/
  preallocated : Nat := 1024
  /-- The most memory for held back text, in bytes. -/
  memoryLimit : Nat := UInt64.size - 1

structure Writer where
  /-- The context after all text that has been decided. -/
  decided : Context := {}
  held : HeldText
  /-- Decided text that has not been sent to the sink. -/
  unsent : Text := []
  output : Output
  serializer : Serializer := .default
  soft : Bool
  schemes : List Url.Scheme
  closed : Bool := false

namespace Writer

/-- The result of a call: the writer after it, and the error if it failed. -/
structure Outcome where
  writer : Writer
  error : Option WriterError := none

/-- A writer at the start of a document. -/
def new (settings : Settings) (sink : Sink) (serializer : Serializer := .default) : Writer where
  held := .new settings.preallocated settings.memoryLimit
  output := { charset := settings.charset, sink }
  serializer := serializer
  soft := settings.soft
  schemes := settings.schemes

/-- The context that an untrusted value written now would be escaped for. -/
def context (w : Writer) : Context := w.decided.peek w.held.text

/-! ### Trusted text -/

/-- Notes that text has been decided. -/
def record (w : Writer) (next : Context) (written : Text) : Writer :=
  { w with decided := next, unsent := w.unsent ++ written }

/-- Sends all decided text to the sink. It is gone even if that fails. -/
def sendDecided (w : Writer) : Outcome :=
  let (output, failed) := w.output.write w.unsent
  { writer := { w with output, unsent := [] }, error := failed.map .sink }

/-- Follows text through the grammar, together with the text that is held back, and sends what has
been decided. Without memory for what has to be held back nothing is sent. -/
def advance (w : Writer) (text : Text) : Outcome :=
  if w.held.isEmpty then
    let p := w.decided.advance false text
    let w := w.record p.context p.written
    let (held, refused) := if p.held.isEmpty then (w.held, none) else w.held.append p.held
    match refused with
    | some e => { writer := { w with held }, error := some (.heldTextLimit e) }
    | none => sendDecided { w with held }
  else
    let (held, refused) := w.held.append text
    match refused with
    | some e => { writer := { w with held }, error := some (.heldTextLimit e) }
    | none =>
      let p := w.decided.advance false held.text
      sendDecided { w.record p.context p.written with held := held.keep p.held }

def writeTrusted (w : Writer) (text : Text) : Outcome :=
  if w.closed then { writer := w, error := some .closed } else w.advance text

/-! ### Untrusted values -/

/-- Decides all held back text as if nothing followed it. -/
def resolveHeld (w : Writer) : Writer :=
  let p := w.decided.advance true w.held.text
  { w.record p.context p.written with held := w.held.clear }

/-- Completes a reference that held back text may have started, so that a value cannot do so. -/
def terminateCharRef (w : Writer) : Writer :=
  if w.decided.inAttrValue && !w.held.isEmpty then
    let (next, written) := w.decided.terminateCharRef w.held.text
    { w.record next written with held := w.held.clear }
  else w

/-- Opens quotes for a value that would start an unquoted value of an attribute. -/
def beginValue (w : Writer) : Writer :=
  if w.context.state = .beforeValue then
    let w := w.resolveHeld
    let (next, written) := w.decided.beginValue
    w.record next written
  else w

/-- The text of a value before it is escaped. In JS code it is a literal; so are arrays and objects
in literals of JS. -/
def valueText (serializer : Serializer) (escaper : Escaper) (value : Value) : Text :=
  match escaper with
  | .jsValue => serializer.literal value
  | .jsString | .jsRegexp =>
    if value.isStructured then serializer.literal value else serializer.display value
  | _ => serializer.display value

/-- What trusted text has written of the name that a value continues. -/
def nameStart (w : Writer) : Text :=
  match w.context.state with
  | .tagName | .attrName => Html.trailingName w.held.text
  | _ => []

/-- The text that stands for a value in the output. -/
def escapeValue (w : Writer) (value : Value) : Text :=
  let options := { soft := w.soft, schemes := w.schemes, nameStart := w.nameStart }
  let text := valueText w.serializer (Escaper.ofContext w.context) value
  (Directive.ofContext w.context).apply options text

/-- Writes an untrusted value. Once escaped it is followed through the grammar like trusted text. -/
def writeValue (w : Writer) (value : Value) : Outcome :=
  if w.closed then { writer := w, error := some .closed }
  else
    let w := w.terminateCharRef.beginValue
    w.advance (w.escapeValue value)

/-! ### The other calls -/

def print (w : Writer) (value : Value) : Outcome := w.writeValue value

/-- Writes what has been formatted, as an untrusted value. -/
def writeFormatted (w : Writer) (text : Text) : Outcome := w.writeValue (.str text)

def newLine (w : Writer) : Outcome := w.writeTrusted ['\n']

/-- Writes an untrusted value, and ends the line if that succeeds. -/
def writeValueLine (w : Writer) (value : Value) : Outcome :=
  let written := w.writeValue value
  match written.error with
  | some _ => written
  | none => written.writer.newLine

def writeChar (w : Writer) (c : Char) : Outcome := w.writeTrusted [c]

/-- Makes a call to the sink that sends no text. -/
def callSink (w : Writer) (call : SinkCall) : Outcome :=
  let (output, failed) := w.output.send call
  { writer := { w with output }, error := failed.map .sink }

/-- Flushes the sink. Held back text stays held back, so the document is not changed. -/
def flush (w : Writer) : Outcome :=
  if w.closed then { writer := w, error := some .closed } else w.callSink .flush

/-- Goes on with another call if there has been no error. -/
def Outcome.andThen (outcome : Outcome) (call : Writer → Outcome) : Outcome :=
  match outcome.error with
  | some _ => outcome
  | none => call outcome.writer

/-- Completes the document and closes the sink. Closing again does nothing. -/
def close (w : Writer) : Outcome :=
  if w.closed then { writer := w }
  else
    let w := { w with closed := true }.resolveHeld
    let (next, written) := w.decided.finish
    (((w.record next written).sendDecided.andThen (callSink · .flush)).andThen
      (callSink · .close))

/-- What happens to a writer that is given up: it is closed, and errors do not matter. -/
def abandon (w : Writer) : Writer := w.close.writer

def setSoft (w : Writer) (soft : Bool) : Writer := { w with soft }

/-! ### Operations -/

/-- All that a writer can be asked to do. -/
inductive Operation where
  | writeTrusted (text : Text)
  | writeValue (value : Value)
  | print (value : Value)
  | writeValueLine (value : Value)
  | newLine
  | writeChar (c : Char)
  | writeFormatted (text : Text)
  | setSoft (soft : Bool)
  | flush
  | close

def operate (w : Writer) : Operation → Outcome
  | .writeTrusted text => w.writeTrusted text
  | .writeValue value => w.writeValue value
  | .print value => w.print value
  | .writeValueLine value => w.writeValueLine value
  | .newLine => w.newLine
  | .writeChar c => w.writeChar c
  | .writeFormatted text => w.writeFormatted text
  | .setSoft soft => { writer := w.setSoft soft }
  | .flush => w.flush
  | .close => w.close

/-- Does one operation after the other, whether they fail or not. -/
def operateAll (w : Writer) (operations : List Operation) : Writer :=
  operations.foldl (fun w operation => (w.operate operation).writer) w

end Writer

end SafeMarkup

import SafeMarkup.Text.Basic

/-!
# Sinks

A sink receives the output. It is described from outside: which calls it has got, and what it
answers to the next one. What stands behind a sink may know fewer kinds of calls than the sink
does.
-/

namespace SafeMarkup

inductive SinkCall where
  | write (bytes : List UInt8)
  | flush
  | close
  deriving DecidableEq, Repr

/-- A sink, with the calls that it has got so far. -/
structure Sink where
  /-- If a call fails, the reason, given all calls before it, the latest first. -/
  failure? : List SinkCall → SinkCall → Option Text
  /-- The calls so far, the latest first. -/
  calls : List SinkCall := []

namespace Sink

/-- Makes a call. A call that fails has been made nevertheless. -/
def send (sink : Sink) (call : SinkCall) : Sink × Option Text :=
  ({ sink with calls := call :: sink.calls }, sink.failure? sink.calls call)

/-- Writes bytes, unless there are none. -/
def sendBytes (sink : Sink) (bytes : List UInt8) : Sink × Option Text :=
  if bytes.isEmpty then (sink, none) else sink.send (.write bytes)

/-- The calls so far and whether they failed, in order. -/
def exchanges (sink : Sink) : List (SinkCall × Option Text) := go sink.calls []
where
  go : List SinkCall → List (SinkCall × Option Text) → List (SinkCall × Option Text)
    | [], done => done
    | call :: earlier, done => go earlier ((call, sink.failure? earlier call) :: done)

end Sink

/-- What may stand behind a sink. -/
inductive Destination where
  /-- Something that takes every call as it is. -/
  | direct
  /-- A stream of bytes. It cannot be closed; closing the sink flushes it. -/
  | stream
  /-- A function of the bytes. It can be neither flushed nor closed, and it never fails. -/
  | callback
  deriving DecidableEq, Repr

namespace Destination

/-- The call that arrives when the sink gets a call, if any. -/
def arriving? : Destination → SinkCall → Option SinkCall
  | .direct, call => some call
  | .stream, .close => some .flush
  | .stream, call => some call
  | .callback, .write bytes => some (.write bytes)
  | .callback, _ => none

/-- A sink in front of a destination. `failure?` says which of the arriving calls fail, given those
that arrived before, the latest first. -/
def sink (destination : Destination) (failure? : List SinkCall → SinkCall → Option Text) :
    Sink where
  failure? earlier call :=
    match destination with
    | .direct => failure? earlier call
    | .stream =>
      (arriving? .stream call).bind (failure? (earlier.filterMap (arriving? .stream)))
    | .callback => none

/-- The calls that have arrived so far and whether they failed, in order. -/
def arrivals (destination : Destination) (sink : Sink) : List (SinkCall × Option Text) :=
  sink.exchanges.filterMap fun (call, failed) =>
    (destination.arriving? call).map (·, failed)

end Destination

end SafeMarkup

import Mathlib
import Abuild.Bytes
import Abuild.Library.Framing

/-!
The side of abuild that talks to the Java builder, `JavaBuilder.cc`, without its threads:
what the handlers of the connection do with the data they are given, and the messages
that `JavaBuilder.java` sends. A string of bytes is a list. A function returns nothing
where the source throws a protocol error, or where a number is out of the range of its type.
-/

set_option autoImplicit false
set_option relaxedAutoImplicit false

namespace Abuild

open Std (TreeSet)

/-- What comes before `2 ^ 31`, as the numbers and the lengths of arrays do. -/
def intLimit : ℕ := 2147483648

theorem zero_lt_intLimit : 0 < intLimit := by
  decide

theorem one_lt_intLimit : 1 < intLimit := by
  decide

/-- The value of decimal digits, where it is an `int`. -/
def atoi (digits : Bytes) : Option ℕ :=
  let value := digits.foldl (fun n d ↦ 10 * n + (d.toNat - 48)) 0
  if value < intLimit then some value else none

/-- `Util::intToString`. -/
def intToString (n : ℕ) : Bytes := (Nat.toDigits 10 n).map Char.toUInt8

def isDigit (b : UInt8) : Bool := 48 ≤ b.toNat && b.toNat ≤ 57

inductive RunMode
  | idle
  | running
  | startingUp
  | startupFailed
  | shuttingDown
  | stopped
deriving DecidableEq, Repr

/-- What is done with a message: a response to a request, which passes it on to the queue of
the request, output that goes to the handler of the request, and output of no request. -/
inductive Dispatch
  | respond (requestNumber : ℕ) (status : Bool)
  | handleOutput (requestNumber : ℕ) (isError : Bool) (message : Bytes)
  | handleRogueOutput (isError : Bool) (message : Bytes)
deriving DecidableEq, Repr

/-- The builder, without its pointers to threads and to the connection. A request that waits
for its response has job data. All dispatches are kept in order. -/
structure JavaBuilder where
  captureOutput : Bool
  accumulatedResponse : Bytes
  lastRequest : ℕ
  runMode : RunMode
  jobData : TreeSet ℕ
  dispatched : List Dispatch

namespace JavaBuilder

def new (captureOutput : Bool) : JavaBuilder where
  captureOutput
  accumulatedResponse := []
  lastRequest := 0
  runMode := .idle
  jobData := ∅
  dispatched := []

def dispatch (b : JavaBuilder) (d : Dispatch) : JavaBuilder :=
  { b with dispatched := b.dispatched ++ [d] }

/-! ### Messages -/

def newline : UInt8 := 10

def carriageReturn : UInt8 := 13

/-- The text of a result in a response. -/
def resultText (result : Bool) : Bytes := ascii (if result then " true" else " false")

/-- The text between the numbers in the header of a data message. -/
def dataText (isError : Bool) : Bytes := ascii (if isError then " data:err " else " data:out ")

/-- The digits at the front, where there are any, and what follows them. -/
def matchDigits (line : Bytes) : Option (Bytes × Bytes) :=
  if (line.takeWhile isDigit).isEmpty then none
  else some (line.takeWhile isDigit, line.dropWhile isDigit)

/-- Whether all of a text is there, with an optional carriage return after it. -/
def matchEnd (text rest : Bytes) : Bool := rest = text || rest = text ++ [carriageReturn]

/-- The match of `(\d+) (true|false)\r?`. -/
def matchResponse (line : Bytes) : Option (Bytes × Bool) := do
  let (number, rest) ← matchDigits line
  if matchEnd (resultText true) rest then some (number, true)
  else if matchEnd (resultText false) rest then some (number, false)
  else none

/-- The part of a header after the number, for one of the two kinds of output. -/
def matchLength (isError : Bool) (rest : Bytes) : Option Bytes :=
  if (dataText isError).isPrefixOf rest then do
    let (length, rest) ← matchDigits (rest.drop (dataText isError).length)
    if matchEnd [] rest then some length else none
  else none

/-- The match of `(\d+) data:(out|err) (\d+)\r?`. -/
def matchData (line : Bytes) : Option (Bytes × Bool × Bytes) := do
  let (number, rest) ← matchDigits line
  match matchLength false rest with
  | some length => some (number, false, length)
  | none =>
    let length ← matchLength true rest
    some (number, true, length)

/-- The data of a message and what follows its end of line, when all of it is there. -/
def takeMessage (messageLength : ℕ) (buffer : Bytes) : Option (Bytes × Bytes) :=
  if buffer.length > messageLength then
    let data := buffer.take messageLength
    let rest := buffer.drop messageLength
    if rest.head? = some newline then some (data, rest.drop 1)
    else if rest.take 2 = [carriageReturn, newline] then some (data, rest.drop 2)
    else none
  else none

/-! ### The handlers -/

/-- The response to a request; one to a request without job data is a protocol error. -/
def handleResult (b : JavaBuilder) (requestNumber : ℕ) (result : Bool) : Option JavaBuilder :=
  if b.jobData.contains requestNumber then
    some ({ b with jobData := b.jobData.erase requestNumber }.dispatch
      (.respond requestNumber result))
  else none

def handleData (b : JavaBuilder) (requestNumber : ℕ) (isError : Bool) (message : Bytes) :
    Option JavaBuilder :=
  if requestNumber = 0 then some (b.dispatch (.handleRogueOutput isError message))
  else if b.jobData.contains requestNumber then
    some (b.dispatch (.handleOutput requestNumber isError message))
  else none

/-- The match of a data message, which is looked for with output capture only. -/
def matchCaptured (b : JavaBuilder) (response : Bytes) : Option (Bytes × Bool × Bytes) :=
  if b.captureOutput then matchData response else none

/-- The loop over the lines that have been read. Every turn takes a line off the
accumulated response or ends the loop. -/
def handleLines : ℕ → JavaBuilder → Option JavaBuilder
  | 0, b => some b
  | fuel + 1, b =>
    if newline ∈ b.accumulatedResponse then
      let response := b.accumulatedResponse.takeWhile (· != newline)
      let rest := b.accumulatedResponse.drop (response.length + 1)
      match matchResponse response with
      | some (number, result) => do
        let requestNumber ← atoi number
        let b ← { b with accumulatedResponse := rest }.handleResult requestNumber result
        handleLines fuel b
      | none => do
        let (number, isError, length) ← b.matchCaptured response
        let requestNumber ← atoi number
        let messageLength ← atoi length
        match takeMessage messageLength rest with
        | none => some { b with accumulatedResponse := response ++ newline :: rest }
        | some (message, rest) => do
          let b ← { b with accumulatedResponse := rest }.handleData requestNumber isError message
          handleLines fuel b
    else some b

def handleResponse (b : JavaBuilder) : Option JavaBuilder :=
  handleLines b.accumulatedResponse.length b

/-- `handleRead` of some data. -/
def handleRead (b : JavaBuilder) (data : Bytes) : Option JavaBuilder :=
  if b.runMode = .running then
    handleResponse { b with accumulatedResponse := b.accumulatedResponse ++ data }
  else some b

/-- `handleRead` of an error or of the end of the stream. -/
def handleReadError (b : JavaBuilder) (eof : Bool) : JavaBuilder :=
  if !eof || b.runMode = .running then { b with runMode := .stopped } else b

/-- What `start` does to a builder that is to start the Java side. -/
def startUp (b : JavaBuilder) : JavaBuilder := { b with runMode := .startingUp }

def handleAccept (b : JavaBuilder) : JavaBuilder := { b with runMode := .running }

/-- The last section of `runIO`. -/
def endOfRun (b : JavaBuilder) : JavaBuilder :=
  if b.runMode = .startingUp then { b with runMode := .startupFailed }
  else
    { b with
      dispatched := b.dispatched ++ b.jobData.toList.map (Dispatch.respond · false)
      jobData := ∅
      runMode := .stopped }

/-- The registration of a request in `makeRequest`. -/
def registerRequest (b : JavaBuilder) : Option JavaBuilder :=
  if b.lastRequest + 1 < intLimit then
    some { b with
      lastRequest := b.lastRequest + 1
      jobData := b.jobData.insert (b.lastRequest + 1) }
  else none

end JavaBuilder

/-! ### The Java side -/

/-- What the responder of the Java side is asked to send. Numbers and the lengths of data are
those of an `int` and of an array. -/
inductive Message
  | response (number : Fin intLimit) (result : Bool)
  | output (number : Fin intLimit) (isError : Bool) (data : Bytes) (h : data.length < intLimit)

/-- The end of a line, which depends on the system. -/
inductive LineEnd
  | lf
  | crlf
deriving DecidableEq, Repr

namespace LineEnd

def bytes : LineEnd → Bytes
  | .lf => [10]
  | .crlf => [13, 10]

end LineEnd

namespace Message

/-- What `sendResponse` or `sendOutput` passes on and `println` ends, with the ends of the
lines that it has. -/
def send (headerEnd lineEnd : LineEnd) : Message → Bytes
  | .response number result =>
    intToString number ++ JavaBuilder.resultText result ++ lineEnd.bytes
  | .output number isError data _ =>
    intToString number ++ JavaBuilder.dataText isError ++ intToString data.length ++
      headerEnd.bytes ++ data ++ lineEnd.bytes

/-- What a message asks for. -/
def dispatch : Message → Dispatch
  | .response number result => .respond number result
  | .output number isError data _ =>
    if number.val = 0 then .handleRogueOutput isError data
    else .handleOutput number isError data

end Message

end Abuild

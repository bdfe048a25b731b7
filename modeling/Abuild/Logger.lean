import Abuild.Bytes

/-!
The jobs of the logger, from `Logger.cc`. A job puts what a program writes together to lines, which
are messages; it keeps them until it is flushed, or hands them on to the logger at once. A function
of a job returns the messages that it writes to the logger.
-/

set_option autoImplicit false
set_option relaxedAutoImplicit false

namespace Abuild.Logger

inductive MessageType
  | shutdown
  | info
  | error
deriving DecidableEq, Repr

abbrev Message := MessageType × Bytes

def newline : UInt8 := '\n'.toUInt8

/-- `[no newline]\n` -/
def noNewline : Bytes := ascii "[no newline]\n"

structure JobData where
  job : ℕ
  bufferOutput : Bool
  jobPrefix : Bytes
  jobHeader : Bytes
  outputLine : Bytes
  errorLine : Bytes
  buffer : List Message
deriving DecidableEq, Repr

def messageType (isError : Bool) : MessageType := if isError then .error else .info

namespace JobData

def new (job : ℕ) (bufferOutput : Bool) (jobPrefix : Bytes) : JobData where
  job
  bufferOutput
  jobPrefix
  jobHeader := []
  outputLine := []
  errorLine := []
  buffer := []

def setJobHeader (j : JobData) (jobHeader : Bytes) : JobData := { j with jobHeader }

def line (j : JobData) (isError : Bool) : Bytes := if isError then j.errorLine else j.outputLine

def setLine (j : JobData) (isError : Bool) (line : Bytes) : JobData :=
  if isError then { j with errorLine := line } else { j with outputLine := line }

/-- A message is kept or written. -/
def deliver (j : JobData) (isError : Bool) (line : Bytes) : JobData × List Message :=
  if j.bufferOutput then ({ j with buffer := j.buffer ++ [(messageType isError, line)] }, [])
  else (j, [(messageType isError, line)])

def handleMessage (j : JobData) (isError : Bool) (line : Bytes) : JobData × List Message :=
  let (j, header) :=
    if j.jobHeader.isEmpty then (j, [])
    else (j.setJobHeader []).deliver false (j.jobHeader ++ [newline])
  let (j, message) := j.deliver isError line
  (j, header ++ message)

def completeLine (j : JobData) (isError : Bool) : JobData × List Message :=
  let (j, messages) := j.handleMessage isError (j.line isError)
  (j.setLine isError [], messages)

/-- One byte of the data of `handleOutput`. -/
def addByte (j : JobData) (isError : Bool) (c : UInt8) : JobData × List Message :=
  let j := j.setLine isError (j.line isError ++ [c])
  if c = newline then j.completeLine isError else (j, [])

def handleOutput (j : JobData) (isError : Bool) (data : Bytes) : JobData × List Message :=
  if data = [] then
    let line := j.line isError
    let line := if line ≠ [] ∧ line.getLast? ≠ some newline then line ++ noNewline else line
    if line ≠ [] then (j.setLine isError line).completeLine isError else (j, [])
  else
    data.foldl
      (fun (j, written) c ↦
        let (j, more) := j.addByte isError c
        (j, written ++ more))
      (j, [])

def flush (j : JobData) : JobData × List Message :=
  let (j, output) := j.handleOutput false []
  let (j, error) := j.handleOutput true []
  ({ j with buffer := [] }, output ++ error ++ j.buffer)

end JobData

end Abuild.Logger

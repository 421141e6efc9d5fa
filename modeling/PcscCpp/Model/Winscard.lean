import PcscCpp.Effects.Trace
import PcscCpp.Model.Errors

/-! The PC/SC calls the library makes, the service that answers them, and the
`SCard` macro that turns a result code into an exception (`SCardCall.hpp`). -/

namespace PcscCpp

open Effects

def scardSSuccess : Long := 0
def scardENoSmartcard : Long := 0x8010000c
def scardENotReady : Long := 0x80100010
def scardEInvalidValue : Long := 0x80100011
def scardENotTransacted : Long := 0x80100016
def scardEReaderUnavailable : Long := 0x80100017
def scardENoService : Long := 0x8010001d
def scardEServiceStopped : Long := 0x8010001e
def scardENoReadersAvailable : Long := 0x8010002e
def scardECommDataLost : Long := 0x8010002f
def scardWResetCard : Long := 0x80100068
def scardWRemovedCard : Long := 0x80100069

def scardScopeUser : Dword := 0
def scardShareShared : Dword := 2
def scardLeaveCard : Dword := 0

def scardProtocolUndefined : Dword := 0
def scardProtocolT0 : Dword := 1
def scardProtocolT1 : Dword := 2

def scardCtlCode (code : Dword) : Dword := 0x42000000 + code

def cmIoctlGetFeatureRequest : Dword := scardCtlCode 3400

/-- A context handle: the value the code sees and, in `serial`, the place in the trace of
the call that established it, by which the service tells handles apart. -/
structure ScardContext where
  value : UInt64
  serial : Nat
  deriving DecidableEq, Repr

/-- A card handle, which the service ties to the context it was connected under. -/
structure ScardHandle where
  value : UInt64
  context : ScardContext
  serial : Nat
  deriving DecidableEq, Repr

structure ScardIoRequest where
  dwProtocol : Dword
  cbPciLength : Dword
  deriving DecidableEq, Repr

/-- `szReader` is an index into the reader name buffer, as the pointer is. -/
structure ScardReaderState where
  szReader : Nat
  dwCurrentState : Dword
  dwEventState : Dword
  cbAtr : Nat
  rgbAtr : ByteVector
  deriving DecidableEq, Repr

/-- The calls with their input parameters, and for each output buffer its size. -/
inductive Call
  | establishContext (dwScope : Dword)
  | releaseContext (ctx : ScardContext)
  | listReaders (ctx : ScardContext) (buffer : Option Nat)
  | getStatusChange (ctx : ScardContext) (dwTimeout : Dword) (readerStates : List ScardReaderState)
  | connect (ctx : ScardContext) (readerName : StringT) (dwShareMode requestedProtocol : Dword)
  | disconnect (cardHandle : ScardHandle) (dwDisposition : Dword)
  | beginTransaction (cardHandle : ScardHandle)
  | endTransaction (cardHandle : ScardHandle) (dwDisposition : Dword)
  | transmit (cardHandle : ScardHandle) (protocol : ScardIoRequest) (commandBytes : ByteVector)
      (responseLength : Nat)
  | control (cardHandle : ScardHandle) (ioctl : Dword) (cmd : ByteVector) (responseLength : Nat)
  deriving DecidableEq, Repr

namespace Call

def functionName : Call → String
  | .establishContext .. => "SCardEstablishContext"
  | .releaseContext .. => "SCardReleaseContext"
  | .listReaders .. => "SCardListReaders"
  | .getStatusChange .. => "SCardGetStatusChange"
  | .connect .. => "SCardConnect"
  | .disconnect .. => "SCardDisconnect"
  | .beginTransaction .. => "SCardBeginTransaction"
  | .endTransaction .. => "SCardEndTransaction"
  | .transmit .. => "SCardTransmit"
  | .control .. => "SCardControl"

def cardHandle? : Call → Option ScardHandle
  | .disconnect h _ => some h
  | .beginTransaction h => some h
  | .endTransaction h _ => some h
  | .transmit h _ _ _ => some h
  | .control h _ _ _ => some h
  | _ => none

end Call

/-- A result code and the output parameters; a call fills in those it has. -/
structure Reply where
  result : Long
  handle : UInt64
  protocolOut : Dword
  bytes : ByteVector
  length : Nat
  readerStates : List ScardReaderState
  deriving DecidableEq, Repr

namespace Reply

def failed (result : Long) : Reply := ⟨result, 0, 0, [], 0, []⟩

def done : Reply := failed scardSSuccess

def ofBytes (bytes : ByteVector) : Reply := { done with bytes := bytes, length := bytes.length }

/-- A buffer after the call has written to it; the service stays within its size. -/
def fill (r : Reply) (buffer : ByteVector) : ByteVector :=
  r.bytes.take buffer.length ++ buffer.drop r.bytes.length

@[simp] theorem length_fill (r : Reply) (buffer : ByteVector) :
    (r.fill buffer).length = buffer.length := by
  simp only [fill, List.length_append, List.length_take, List.length_drop]
  omega

end Reply

/-- The service, the reader drivers and the cards: an answer to every call and the next state. -/
abbrev Service (σ : Type) := σ → Call → Reply × σ

structure Exchange where
  call : Call
  reply : Reply
  deriving DecidableEq, Repr

structure World (σ : Type) where
  service : σ
  trace : List Exchange

abbrev Program (σ α : Type) := Action Exception (World σ) α

variable {σ α : Type}

def issue (pcsc : Service σ) (call : Call) : Program σ Reply := fun w =>
  let r := pcsc w.service call
  (.returned r.1, ⟨r.2, w.trace ++ [⟨call, r.1⟩]⟩)

def buildErrorMessage (callerFunctionName scardFunctionName : String) (result : Long)
    (file : String) (line : Nat) : String :=
  scardFunctionName ++ " returned " ++ int2hexstr result ++ " in " ++ removeAbsolutePathPrefix file
    ++ ":" ++ toString line ++ ":" ++ callerFunctionName

def scardErrorType (result : Long) : ExceptionType :=
  if result = scardENoService ∨ result = scardEServiceStopped then
    .scardServiceNotRunningError
  else if result = scardENoReadersAvailable ∨ result = scardEReaderUnavailable then
    .scardNoReadersError
  else if result = scardENoSmartcard then
    .scardNoCardError
  else if result = scardENotReady ∨ result = scardEInvalidValue ∨ result = scardECommDataLost
      ∨ result = scardWResetCard then
    .scardCardCommunicationFailedError
  else if result = scardWRemovedCard then
    .scardCardRemovedError
  else if result = scardENotTransacted then
    .scardTransactionFailedError
  else
    .scardError

def scardCall (pcsc : Service σ) (callerFunctionName file : String) (line : Nat) (call : Call) :
    Program σ Reply := do
  let reply ← issue pcsc call
  if reply.result = scardSSuccess then pure reply
  else throw ⟨scardErrorType reply.result,
    buildErrorMessage callerFunctionName call.functionName reply.result file line⟩

def World.after (w : World σ) (pcsc : Service σ) (call : Call) : World σ :=
  ⟨(pcsc w.service call).2, w.trace ++ [⟨call, (pcsc w.service call).1⟩]⟩

@[simp] theorem World.after_trace (w : World σ) (pcsc : Service σ) (call : Call) :
    (w.after pcsc call).trace = w.trace ++ [⟨call, (pcsc w.service call).1⟩] := rfl

theorem issue_apply (pcsc : Service σ) (call : Call) (w : World σ) :
    issue pcsc call w = (.returned (pcsc w.service call).1, w.after pcsc call) := rfl

section ScardCall

variable {pcsc : Service σ} {callerFunctionName file : String} {line : Nat} {call : Call}
  {w : World σ}

theorem scardCall_success (h : (pcsc w.service call).1.result = scardSSuccess) :
    scardCall pcsc callerFunctionName file line call w =
      (.returned (pcsc w.service call).1, w.after pcsc call) := by
  rw [scardCall, Action.bind_returned (issue_apply pcsc call w), if_pos h, Action.pure_apply]

theorem scardCall_failure (h : (pcsc w.service call).1.result ≠ scardSSuccess) :
    scardCall pcsc callerFunctionName file line call w =
      (.threw ⟨scardErrorType (pcsc w.service call).1.result,
        buildErrorMessage callerFunctionName call.functionName (pcsc w.service call).1.result
          file line⟩, w.after pcsc call) := by
  rw [scardCall, Action.bind_returned (issue_apply pcsc call w), if_neg h, Action.throw_apply]

theorem scardErrorType_isA (result : Long) : (scardErrorType result).isA .scardError = true := by
  unfold scardErrorType
  split_ifs <;> rfl

end ScardCall

abbrev Calls (S : Call → Prop) : World σ → World σ → Prop :=
  Extends World.trace (fun e => S e.call)

variable {S : Call → Prop}

theorem calls_issue {pcsc : Service σ} {call : Call} (h : S call) :
    Action.Within (Calls S) (issue pcsc call) := by
  intro w
  exact ⟨[⟨call, (pcsc w.service call).1⟩], rfl, by simpa using h⟩

theorem calls_scardCall {pcsc : Service σ} {callerFunctionName file : String} {line : Nat}
    {call : Call} (h : S call) :
    Action.Within (Calls S) (scardCall pcsc callerFunctionName file line call) := by
  refine (calls_issue h).bind fun reply => ?_
  split_ifs
  · exact Action.within_pure reply
  · exact Action.within_throw _

end PcscCpp

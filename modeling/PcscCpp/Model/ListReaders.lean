import PcscCpp.Model.Context
import PcscCpp.Model.SmartCard

/-! Readers and how they are listed (`Reader`, `listReaders.cpp`). -/

namespace PcscCpp

open Effects

variable {σ W : Type}

inductive Reader.Status
  | unaware
  | ignore
  | changed
  | unknown
  | unavailable
  | empty
  | present
  | atrmatch
  | exclusive
  | inuse
  | mute
  | unpowered
  deriving DecidableEq, Repr

def Reader.Status.all : List Reader.Status :=
  [.unaware, .ignore, .changed, .unknown, .unavailable, .empty, .present, .atrmatch, .exclusive,
    .inuse, .mute, .unpowered]

def Reader.Status.enumName : Reader.Status → String
  | .unaware => "UNAWARE"
  | .ignore => "IGNORE"
  | .changed => "CHANGED"
  | .unknown => "UNKNOWN"
  | .unavailable => "UNAVAILABLE"
  | .empty => "EMPTY"
  | .present => "PRESENT"
  | .atrmatch => "ATRMATCH"
  | .exclusive => "EXCLUSIVE"
  | .inuse => "INUSE"
  | .mute => "MUTE"
  | .unpowered => "UNPOWERED"

abbrev FlagSet := Reader.Status → Bool

structure Reader where
  name : StringT
  cardAtr : ByteVector
  status : FlagSet
  ctx : ContextPtr

def scardStateUnaware : Dword := 0x0000
def scardStateIgnore : Dword := 0x0001
def scardStateChanged : Dword := 0x0002
def scardStateUnknown : Dword := 0x0004
def scardStateUnavailable : Dword := 0x0008
def scardStateEmpty : Dword := 0x0010
def scardStatePresent : Dword := 0x0020
def scardStateAtrmatch : Dword := 0x0040
def scardStateExclusive : Dword := 0x0080
def scardStateInuse : Dword := 0x0100
def scardStateMute : Dword := 0x0200
def scardStateUnpowered : Dword := 0x0400

def maxAtrSize : Nat := 33

/-- The returned length and what was written to the buffer, if there is one. -/
def updateReaderNamesBuffer (pcsc : Service σ) (ctx : ScardContext) (buffer : Option StringT) :
    Program σ (Nat × StringT) := do
  let reply ← scardCall pcsc "updateReaderNamesBuffer" "src/listReaders.cpp" 41
    (.listReaders ctx (buffer.map List.length))
  pure (reply.length, (buffer.map reply.fill).getD [])

/-- `strlen(name)` for a pointer into `c_str()`, which ends with one more NUL. -/
def strlen (readerNames : StringT) (name : Nat) : Nat :=
  (((readerNames ++ [0]).drop name).takeWhile (· ≠ 0)).length

def readerNamePass (readerNames : StringT) : Nat × List Nat → Action Exception W (Nat × List Nat)
  | (name, readerNamePointerList) =>
    pure (name + (strlen readerNames name + 1), readerNamePointerList ++ [name])

/-- The pointers are indices into `c_str()`.  Each pass moves on by at least one
character, so the fuel is enough for every pass up to the end. -/
def getReaderNamePointerList (readerNames : StringT) : Action Exception W (List Nat) := do
  if readerNames = [] then pure []
  else
    let (_, readerNamePointerList) ← Action.loop
      (fun s => do
        let c ← Action.index (readerNames ++ [0]) s.1
        pure (c != 0))
      (readerNamePass readerNames) (readerNames.length + 1) (0, [])
    pure readerNamePointerList

def fillReaderStates (readerStates filled : List ScardReaderState) : List ScardReaderState :=
  readerStates.mapIdx fun i readerState => match filled[i]? with
    | some f => { readerState with
        dwEventState := f.dwEventState
        cbAtr := f.cbAtr
        rgbAtr := f.rgbAtr }
    | none => readerState

def getReaderStates (pcsc : Service σ) (ctx : ScardContext) (readerNames : StringT) :
    Program σ (List ScardReaderState) := do
  let readerNamePointerList ← getReaderNamePointerList readerNames
  let readerStates := readerNamePointerList.map fun readerNamePointer =>
    ⟨readerNamePointer, scardStateUnaware, scardStateUnaware, 0, List.replicate maxAtrSize 0⟩
  if readerStates = [] then pure []
  else
    let reply ← scardCall pcsc "getReaderStates" "src/listReaders.cpp" 81
      (.getStatusChange ctx 0 readerStates)
    pure (fillReaderStates readerStates reply.readerStates)

def readerStatusMap : List (Dword × Reader.Status) :=
  [(scardStateIgnore, .ignore), (scardStateChanged, .changed), (scardStateUnknown, .unknown),
    (scardStateUnavailable, .unavailable), (scardStateEmpty, .empty), (scardStatePresent, .present),
    (scardStateAtrmatch, .atrmatch), (scardStateExclusive, .exclusive), (scardStateInuse, .inuse),
    (scardStateMute, .mute), (scardStateUnpowered, .unpowered)]

def flagSetFromReaderState (readerState : Dword) : FlagSet :=
  if readerState = 0 then Function.update (fun _ => false) .unaware true
  else readerStatusMap.foldl (fun result (key, value) =>
    if readerState &&& key ≠ 0 then Function.update result value true else result) fun _ => false

/-- A range beyond the end of `rgbAtr` is undefined. -/
def makeReader (ctx : ContextPtr) (readerNames : StringT) (readerState : ScardReaderState) :
    Action Exception (Process σ) Reader := do
  if readerState.cbAtr ≤ readerState.rgbAtr.length then
    let ctx ← ctx.copy
    pure ⟨((readerNames ++ [0]).drop readerState.szReader).takeWhile (· ≠ 0),
      readerState.rgbAtr.take readerState.cbAtr, flagSetFromReaderState readerState.dwEventState,
      ctx⟩
  else Action.undefined

/-- `string_t::max_size()` on a 64-bit host with libstdc++. -/
def maxStringSize : Nat := 0x3fffffffffffffff

def stringOfZeros (count : Nat) : Except Exception StringT :=
  if count > maxStringSize then .error ⟨.lengthError, "basic_string::_M_create"⟩
  else .ok (List.replicate count 0)

def populateReaderNames (pcsc : Service σ) (ctx : ScardContext) : Program σ StringT := do
  let (bufferLength, _) ← updateReaderNamesBuffer pcsc ctx none
  let readerNames ← Action.ofExcept (stringOfZeros bufferLength)
  -- the returned length is not used
  let (_, readerNames) ← updateReaderNamesBuffer pcsc ctx (some readerNames)
  pure readerNames

/-- `ctx` is destroyed at the end, however the function is left. -/
def listReaders (pcsc : Service σ) : Action Exception (Process σ) (List Reader) := do
  let ctx ← ContextPtr.makeShared pcsc
  let readers ← tryCatch (do
      let handle ← ctx.handle
      let readerNames ← Process.onWorld (populateReaderNames pcsc handle)
      let readerStates ← Process.onWorld (getReaderStates pcsc handle readerNames)
      readerStates.foldlM (fun readers readerState => do
        let reader ← makeReader ctx readerNames readerState
        pure (readers ++ [reader])) [])
    (fun e => do
      if e.type.isA .scardNoReadersError then pure []
      else
        ctx.destroy pcsc
        throw e)
  ctx.destroy pcsc
  pure readers

namespace Reader

def isCardInserted (reader : Reader) : Bool := reader.status .present

def statusString (reader : Reader) : String :=
  let result := Status.all.foldl (fun result statusValue =>
    if reader.status statusValue then result ++ [statusValue.enumName] else result) []
  result.foldl (fun resultStr item =>
    if resultStr = "" then item else resultStr ++ "," ++ item) ""

def copy (reader : Reader) : Action Exception (Process σ) Reader := do
  let ctx ← reader.ctx.copy
  pure { reader with ctx }

def destroy (pcsc : Service σ) (reader : Reader) : Action Exception (Process σ) Unit :=
  reader.ctx.destroy pcsc

def connectToCard (pcsc : Service σ) (fuel : Nat) (reader : Reader) :
    Action Exception (Process σ) SmartCard := do
  let handle ← reader.ctx.handle
  Process.onWorld (SmartCard.new pcsc fuel handle reader.name reader.cardAtr)

end Reader

end PcscCpp

import PcscCpp.Model.Apdu
import PcscCpp.Model.CompWinscard
import PcscCpp.Model.Winscard
import Mathlib.Logic.Function.Basic

/-! The card: connecting, the feature table, transmitting and disconnecting
(`SmartCard.cpp`).  Transactions are in `PcscCpp.Model.Transaction`. -/

namespace PcscCpp

open Effects

variable {σ : Type}

inductive Protocol
  | undefined
  | t0
  | t1
  deriving DecidableEq, Repr

def convertToSmartCardProtocol (protocol : Dword) : Except Exception Protocol :=
  if protocol = scardProtocolUndefined then .ok .undefined
  else if protocol = scardProtocolT0 then .ok .t0
  else if protocol = scardProtocolT1 then .ok .t1
  else .error (throwWithCallerInfo .error ("Unsupported card protocol: " ++ toString protocol.toNat)
    "src/SmartCard.cpp" 56 "convertToSmartCardProtocol")

def connectToCard (pcsc : Service σ) (ctx : ScardContext) (readerName : StringT) :
    Program σ (ScardHandle × Dword) := do
  let requestedProtocol := scardProtocolT0 ||| scardProtocolT1
  let serial ← Action.read (·.trace.length)
  let reply ← scardCall pcsc "connectToCard" "src/SmartCard.cpp" 67
    (.connect ctx readerName scardShareShared requestedProtocol)
  pure (⟨reply.handle, ctx, serial⟩, reply.protocolOut)

abbrev Features := DriverFeatures → Option UInt32

structure CardImpl where
  cardHandle : ScardHandle
  protocol : ScardIoRequest
  features : Features

namespace CardImpl

def readValue (feature : ByteVector) (p len : Nat) : Program σ (Nat × UInt32) :=
  (List.range len).foldlM (fun (p, value) i => do
    let byte ← Action.index feature p
    -- a shift by the width of the type or more is undefined
    if 8 * i < 32 then pure (p + 1, value ||| byte.toUInt32 <<< (8 * i).toUInt32)
    else Action.undefined) (p, 0)

def readRecord (feature : ByteVector) : Nat × Features → Program σ (Nat × Features)
  | (p, features) => do
    let tag ← Action.index feature p
    let len ← Action.index feature (p + 1)
    let (p, value) ← readValue feature (p + 2) len.toNat
    pure (p, Function.update features tag (some (ntohl value)))

def readFeatures (feature : ByteVector) (size : Nat) (fuel : Nat) : Program σ Features := do
  let (_, features) ← Action.loop (fun s => pure (decide (s.1 < size))) (readRecord feature) fuel
    (0, fun _ => none)
  pure features

/-- The constructor.  Driver errors during card feature requests are ignored. -/
def new (pcsc : Service σ) (fuel : Nat) (cardParams : ScardHandle × Dword) :
    Program σ CardImpl := do
  let features ← tryCatch (do
      let feature := List.replicate 256 0
      let reply ← scardCall pcsc "CardImpl" "src/SmartCard.cpp" 88
        (.control cardParams.1 cmIoctlGetFeatureRequest [] feature.length)
      readFeatures (reply.fill feature) reply.length fuel)
    (fun e => if e.type.isA .scardError then pure fun _ => none else throw e)
  pure ⟨cardParams.1, ⟨cardParams.2, 16⟩, features⟩

def destroy (pcsc : Service σ) (card : CardImpl) : Program σ Unit := do
  if card.cardHandle.value ≠ 0 then
    let _ ← issue pcsc (.disconnect card.cardHandle scardLeaveCard)
  else pure ()

def readerHasPinPad (card : CardImpl) (noPinPad : Bool) : Bool :=
  if noPinPad then false
  else (card.features featureVerifyPinStart).isSome || (card.features featureVerifyPinDirect).isSome

def toResponse (card : CardImpl) (responseBytes : ByteVector) (responseLength : Nat) :
    Except Exception ResponseApdu :=
  if responseLength > responseBytes.length then
    .error (throwWithCallerInfo .error "SCardTransmit: received more bytes than buffer size"
      "src/SmartCard.cpp" 195 "toResponse")
  else do
    let response ← ResponseApdu.fromBytes (responseBytes.take responseLength)
    -- expected errors are let through for upper layers or the checks below
    if response.sw1 ∈ [ResponseApdu.ok, ResponseApdu.moreDataAvailable,
        ResponseApdu.verificationFailed, ResponseApdu.verificationCancelled,
        ResponseApdu.wrongLength, ResponseApdu.commandNotAllowed, ResponseApdu.wrongParameters,
        ResponseApdu.wrongLeLength] then
      if response.sw1 = ResponseApdu.wrongLeLength then
        .error (throwWithCallerInfo .error
          "Wrong LE length (SW1=0x6C) in response, please set LE" "src/SmartCard.cpp" 221
          "toResponse")
      else .ok response
    else .error (throwWithCallerInfo .error
      ("Error response: '" ++ bytes2hexstr [response.sw1, response.sw2] ++ "', protocol "
        ++ toString card.protocol.dwProtocol.toNat) "src/SmartCard.cpp" 215 "toResponse")

def getResponsePass (transmitBytes : ByteVector → Program σ ResponseApdu) :
    ResponseApdu × ResponseApdu → Program σ (ResponseApdu × ResponseApdu)
  | (newResponse, response) => do
    let getResponseCommand : ByteVector := [0x00, 0xc0, 0x00, 0x00, newResponse.sw2]
    let newResponse ← transmitBytes getResponseCommand
    pure (newResponse, { response with data := response.data ++ newResponse.data })

def getMoreResponseData (transmitBytes : ByteVector → Program σ ResponseApdu) (fuel : Nat)
    (response : ResponseApdu) : Program σ ResponseApdu := do
  let newResponse : ResponseApdu := ⟨response.sw1, response.sw2, []⟩
  let (_, response) ← Action.loop
    (fun s => pure (s.1.sw1 == ResponseApdu.moreDataAvailable))
    (getResponsePass transmitBytes) fuel (newResponse, response)
  pure { response with sw1 := ResponseApdu.ok, sw2 := 0 }

/-- `transmitBytes` with the call to `getMoreResponseData` left open. -/
def transmitBytesWith (pcsc : Service σ) (card : CardImpl)
    (getMoreResponseData : ResponseApdu → Program σ ResponseApdu) (commandBytes : ByteVector) :
    Program σ ResponseApdu := do
  let responseBytes := List.replicate ResponseApdu.maxSize 0
  let reply ← scardCall pcsc "transmitBytes" "src/SmartCard.cpp" 130
    (.transmit card.cardHandle card.protocol commandBytes responseBytes.length)
  let response ← Action.ofExcept (card.toResponse (reply.fill responseBytes) reply.length)
  if response.sw1 = ResponseApdu.moreDataAvailable then getMoreResponseData response
  else pure response

/-- The fuel bounds the depth of the mutual recursion and the passes of its loop. -/
def transmitBytes (pcsc : Service σ) (card : CardImpl) : Nat → ByteVector → Program σ ResponseApdu
  | 0 => transmitBytesWith pcsc card fun _ => Action.running
  | fuel + 1 => transmitBytesWith pcsc card
      (getMoreResponseData (transmitBytes pcsc card fuel) (fuel + 1))

def pinVerifyStructure (commandBytes : ByteVector) (lang : UInt16) (minlen : UInt8) :
    PinVerifyStructure :=
  let pinFrameOffset : UInt8 := 0
  let pinLengthOffset : UInt8 := 0
  { bTimerOut := pinPadPinEntryTimeout
    bTimerOut2 := pinPadPinEntryTimeout
    bmFormatString :=
      formatASCII ||| alignLeft ||| (pinFrameOffset <<< 4) ||| pinFrameOffsetUnitBits
    bmPINBlockString := (pinLengthNone <<< 5) ||| pinFrameSizeAuto
    bmPINLengthFormat := pinLengthOffsetUnitBits ||| pinLengthOffset
    wPINMaxExtraDigit := (minlen.toUInt16 <<< 8) ||| 12
    bEntryValidationCondition := validOnKeyPressed
    bNumberMessage := ccidDefaultInvitationMessage
    wLangId := lang
    bMsgIndex := noInvitationMessage
    bTeoPrologue := (0, 0, 0)
    ulDataLength := commandBytes.length.toUInt32 }

def featureAt (card : CardImpl) (feature : DriverFeatures) : Except Exception UInt32 :=
  match card.features feature with
  | some code => .ok code
  | none => .error ⟨.outOfRange, "map::at"⟩

def transmitBytesCTL (pcsc : Service σ) (card : CardImpl) (commandBytes : ByteVector)
    (lang : UInt16) (minlen : UInt8) : Program σ ResponseApdu := do
  let cmd := (pinVerifyStructure commandBytes lang minlen).memory ++ commandBytes
  let ioctl ← Action.ofExcept (card.featureAt
    (if (card.features featureVerifyPinStart).isSome then featureVerifyPinStart
    else featureVerifyPinDirect))
  let responseBytes := List.replicate ResponseApdu.maxSize 0
  let reply ← scardCall pcsc "transmitBytesCTL" "src/SmartCard.cpp" 168
    (.control card.cardHandle ioctl.toUInt64 cmd responseBytes.length)
  let responseBytes := reply.fill responseBytes
  if (card.features featureVerifyPinFinish).isSome then
    let finish ← Action.ofExcept (card.featureAt featureVerifyPinFinish)
    let reply ← scardCall pcsc "transmitBytesCTL" "src/SmartCard.cpp" 174
      (.control card.cardHandle finish.toUInt64 [] responseBytes.length)
    Action.ofExcept (card.toResponse (reply.fill responseBytes) reply.length)
  else Action.ofExcept (card.toResponse responseBytes reply.length)

def beginTransaction (pcsc : Service σ) (card : CardImpl) : Program σ Unit := do
  let _ ← scardCall pcsc "beginTransaction" "src/SmartCard.cpp" 181
    (.beginTransaction card.cardHandle)

def endTransaction (pcsc : Service σ) (card : CardImpl) : Program σ Unit := do
  let _ ← scardCall pcsc "endTransaction" "src/SmartCard.cpp" 183
    (.endTransaction card.cardHandle scardLeaveCard)

end CardImpl

structure SmartCard where
  card : Option CardImpl
  atr : ByteVector
  protocol : Protocol
  transactionInProgress : Bool

namespace SmartCard

/-- The constructor.  When it throws, the members constructed so far are destroyed. -/
def new (pcsc : Service σ) (fuel : Nat) (ctx : ScardContext) (readerName : StringT)
    (atr : ByteVector) : Program σ SmartCard := do
  let cardParams ← connectToCard pcsc ctx readerName
  let card ← CardImpl.new pcsc fuel cardParams
  let protocol ← tryCatch
    (Action.ofExcept (convertToSmartCardProtocol card.protocol.dwProtocol))
    (fun e => do
      card.destroy pcsc
      throw e)
  pure ⟨some card, atr, protocol, false⟩

def destroy (pcsc : Service σ) (s : SmartCard) : Program σ Unit :=
  match s.card with
  | some card => card.destroy pcsc
  | none => pure ()

def readerHasPinPad (s : SmartCard) (noPinPad : Bool) : Bool :=
  match s.card with
  | some card => card.readerHasPinPad noPinPad
  | none => false

/-- The checks that `transmit` and `transmitCTL` start with; each has its own lines. -/
def requireTransaction {α : Type} (s : SmartCard) (nullLine line : Nat) (func : String)
    (body : CardImpl → Program σ α) : Program σ α :=
  match s.card with
  | none => throw (requireNonNull "card" "src/SmartCard.cpp" nullLine func)
  | some card =>
    if s.transactionInProgress = false then
      throw (throwWithCallerInfo .logicError "Call SmartCard::transmit() inside a transaction"
        "src/SmartCard.cpp" line func)
    else body card

def transmit (pcsc : Service σ) (fuel : Nat) (s : SmartCard) (command : CommandApdu) :
    Program σ ResponseApdu :=
  s.requireTransaction 285 287 "transmit" fun card => do
    let commandBytes ← Action.ofExcept command.toBytes
    card.transmitBytes pcsc fuel commandBytes

def transmitCTL (pcsc : Service σ) (s : SmartCard) (command : CommandApdu) (lang : UInt16)
    (minlen : UInt8) : Program σ ResponseApdu :=
  s.requireTransaction 295 297 "transmitCTL" fun card => do
    let commandBytes ← Action.ofExcept command.toBytes
    card.transmitBytesCTL pcsc commandBytes lang minlen

end SmartCard

end PcscCpp

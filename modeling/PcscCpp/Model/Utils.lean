import PcscCpp.Effects.Action
import PcscCpp.Model.Apdu

/-! The functions built on `SmartCard::transmit` (`utils.cpp`).  They use nothing else of
the card, so a card is given here by its `transmit`. -/

namespace PcscCpp

open Effects

variable {W : Type}

def hiByte (w : SizeT) : ByteType := ((w >>> 8) &&& 0xff).toUInt8

def loByte (w : SizeT) : ByteType := (w &&& 0xff).toUInt8

def derSequenceTypeTag : ByteType := 0x30
def derTwoByteLength : ByteType := 0x82

def apduResponseOk : ByteVector := [ResponseApdu.ok, 0x00]

def unexpectedResponseError (command : CommandApdu) (expectedResponseBytes : ByteVector)
    (response : ResponseApdu) (file : String) (line : Nat) (callerFunctionName : String) :
    Except Exception Exception := do
  let commandBytes ← command.toBytes
  .ok ⟨.unexpectedResponseError,
    "transmitApduWithExpectedResponse(): Unexpected response to command '"
      ++ bytes2hexstr commandBytes ++ "' - expected '" ++ bytes2hexstr expectedResponseBytes
      ++ "', got '" ++ bytes2hexstr response.toBytes ++ " in " ++ removeAbsolutePathPrefix file
      ++ ":" ++ toString line ++ ":" ++ callerFunctionName⟩

def transmitApduWithExpectedResponse (transmit : CommandApdu → Action Exception W ResponseApdu)
    (command : CommandApdu) (expectedResponseBytes : ByteVector) : Action Exception W Unit := do
  let response ← transmit command
  if response.toBytes ≠ expectedResponseBytes then
    let e ← Action.ofExcept (unexpectedResponseError command expectedResponseBytes response
      "src/utils.cpp" 101 "transmitApduWithExpectedResponse")
    throw e
  else pure ()

def transmitApduBytesWithExpectedResponse (transmit : CommandApdu → Action Exception W ResponseApdu)
    (commandBytes expectedResponseBytes : ByteVector) : Action Exception W Unit := do
  let command ← Action.ofExcept (CommandApdu.fromBytes commandBytes false)
  transmitApduWithExpectedResponse transmit command expectedResponseBytes

def readBinary4Bytes : CommandApdu := ⟨0x00, 0xb0, 0x00, 0x00, 0x04, []⟩

def readDataLengthFromAsn1 (transmit : CommandApdu → Action Exception W ResponseApdu) :
    Action Exception W SizeT := do
  let response ← transmit readBinary4Bytes
  let tag ← Action.index response.data 0
  if tag ≠ derSequenceTypeTag then
    throw (throwWithCallerInfo .error
      ("readDataLengthFromAsn1(): First byte must be SEQUENCE (0x30), but is 0x"
        ++ bytes2hexstr [tag]) "src/utils.cpp" 118 "readDataLengthFromAsn1")
  else
    let lengthIndicator ← Action.index response.data 1
    if lengthIndicator ≠ derTwoByteLength then
      throw (throwWithCallerInfo .error
        ("readDataLengthFromAsn1(): Second byte must be two-byte length indicator "
          ++ "(0x82), but is 0x" ++ bytes2hexstr [lengthIndicator])
        "src/utils.cpp" 127 "readDataLengthFromAsn1")
    else
      let hi ← Action.index response.data 2
      let lo ← Action.index response.data 3
      -- the length field and the 4 bytes of the header
      let length : SizeT := (hi.toUInt64 <<< 8) + lo.toUInt64 + 4
      if length < 128 ∨ 0x0f00 < length then
        throw (throwWithCallerInfo .error
          ("readDataLengthFromAsn1(): Unexpected data length in DER header: "
            ++ toString length.toNat) "src/utils.cpp" 137 "readDataLengthFromAsn1")
      else pure length

structure ReadBinary where
  offset : SizeT
  lengthCounter : SizeT
  blockLengthVar : SizeT
  resultBytes : ByteVector
  readBinary : CommandApdu

namespace ReadBinary

def start (length blockLength : SizeT) : ReadBinary where
  offset := 0
  lengthCounter := length
  blockLengthVar := blockLength
  resultBytes := []
  readBinary := ⟨0x00, 0xb0, 0x00, 0x00, CommandApdu.leUnused, []⟩

def pass (transmit : CommandApdu → Action Exception W ResponseApdu) (s : ReadBinary) :
    Action Exception W ReadBinary := do
  let blockLengthVar :=
    if s.blockLengthVar > s.lengthCounter then s.lengthCounter else s.blockLengthVar
  let readBinary := { s.readBinary with
    p1 := hiByte s.offset
    p2 := loByte s.offset
    le := blockLengthVar.toUInt8.toUInt16 }
  let response ← transmit readBinary
  pure {
    offset := s.offset + blockLengthVar
    lengthCounter := s.lengthCounter - blockLengthVar
    blockLengthVar
    resultBytes := s.resultBytes ++ response.data
    readBinary }

end ReadBinary

def readBinary (transmit : CommandApdu → Action Exception W ResponseApdu) (fuel : Nat)
    (length blockLength : SizeT) : Action Exception W ByteVector := do
  let s ← Action.loop (fun s => pure (s.lengthCounter != 0)) (ReadBinary.pass transmit) fuel
    (ReadBinary.start length blockLength)
  if s.resultBytes.length ≠ length.toNat then
    throw (throwWithCallerInfo .error
      ("readBinary(): Invalid length: " ++ toString s.resultBytes.length)
      "src/utils.cpp" 170 "readBinary")
  else pure s.resultBytes

end PcscCpp

import PcscCpp.Model.Errors

namespace PcscCpp

/-- `DRIVER_FEATURES`: an enumeration over a byte, so every byte is a value of it. -/
abbrev DriverFeatures := ByteType

def featureVerifyPinStart : DriverFeatures := 0x01
def featureVerifyPinFinish : DriverFeatures := 0x02
def featureVerifyPinDirect : DriverFeatures := 0x06

def formatASCII : UInt8 := (1 : UInt8) <<< 1
def alignLeft : UInt8 := (0 : UInt8) <<< 2
def pinFrameOffsetUnitBits : UInt8 := (0 : UInt8) <<< 7

def pinLengthNone : UInt8 := (0 : UInt8) <<< 4
def pinFrameSizeAuto : UInt8 := 0

def pinLengthOffsetUnitBits : UInt8 := (0 : UInt8) <<< 4

def validOnKeyPressed : UInt8 := (1 : UInt8) <<< 1

def noInvitationMessage : UInt8 := 0
def ccidDefaultInvitationMessage : UInt8 := 0xff

def pinPadPinEntryTimeout : UInt8 := 90

structure PinVerifyStructure where
  bTimerOut : UInt8
  bTimerOut2 : UInt8
  bmFormatString : UInt8
  bmPINBlockString : UInt8
  bmPINLengthFormat : UInt8
  wPINMaxExtraDigit : UInt16
  bEntryValidationCondition : UInt8
  bNumberMessage : UInt8
  wLangId : UInt16
  bMsgIndex : UInt8
  bTeoPrologue : UInt8 × UInt8 × UInt8
  ulDataLength : UInt32
  deriving DecidableEq, Repr

def bytes16 (v : UInt16) : ByteVector := [v.toUInt8, (v >>> 8).toUInt8]

def bytes32 (v : UInt32) : ByteVector :=
  [v.toUInt8, (v >>> 8).toUInt8, (v >>> 16).toUInt8, (v >>> 24).toUInt8]

/-- The structure in memory: packed, so field after field with nothing between. -/
def PinVerifyStructure.memory (s : PinVerifyStructure) : ByteVector :=
  [s.bTimerOut, s.bTimerOut2, s.bmFormatString, s.bmPINBlockString, s.bmPINLengthFormat]
    ++ bytes16 s.wPINMaxExtraDigit
    ++ [s.bEntryValidationCondition, s.bNumberMessage]
    ++ bytes16 s.wLangId
    ++ [s.bMsgIndex, s.bTeoPrologue.1, s.bTeoPrologue.2.1, s.bTeoPrologue.2.2]
    ++ bytes32 s.ulDataLength

@[simp] theorem PinVerifyStructure.length_memory (s : PinVerifyStructure) :
    s.memory.length = 19 := rfl

/-- `ntohl` of a little-endian host swaps the bytes. -/
def ntohl (value : UInt32) : UInt32 :=
  let low : UInt32 := 0xff00
  (value <<< 24) ||| ((value &&& low) <<< 8) ||| ((value >>> 8) &&& low) ||| (value >>> 24)

end PcscCpp

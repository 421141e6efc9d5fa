import PcscCpp.Model.Errors

namespace PcscCpp

def toSW (sw1 sw2 : ByteType) : UInt16 := (sw1.toUInt16 <<< 8) ||| sw2.toUInt16

structure ResponseApdu where
  sw1 : ByteType
  sw2 : ByteType
  data : ByteVector
  deriving DecidableEq, Repr

namespace ResponseApdu

def ok : ByteType := 0x90
def moreDataAvailable : ByteType := 0x61
def verificationFailed : ByteType := 0x63
def verificationCancelled : ByteType := 0x64
def wrongLength : ByteType := 0x67
def commandNotAllowed : ByteType := 0x69
def wrongParameters : ByteType := 0x6a
def wrongLeLength : ByteType := 0x6c

def maxDataSize : Nat := 256
def maxSize : Nat := maxDataSize + 2

def fromBytes (data : ByteVector) : Except Exception ResponseApdu :=
  if h : data.length < 2 then
    .error ⟨.invalidArgument, "Need at least 2 bytes for creating ResponseApdu"⟩
  else
    .ok {
      sw1 := data[data.length - 2]
      sw2 := data[data.length - 1]
      data := data.take (data.length - 2) }

def toBytes (r : ResponseApdu) : ByteVector := r.data ++ [r.sw1] ++ [r.sw2]

def toSW (r : ResponseApdu) : UInt16 := PcscCpp.toSW r.sw1 r.sw2

def isOK (r : ResponseApdu) : Bool := r.sw1 == ok && r.sw2 == 0x00

theorem fromBytes_append (d : ByteVector) (a b : ByteType) :
    fromBytes (d ++ [a, b]) = .ok ⟨a, b, d⟩ := by
  simp [fromBytes]

theorem fromBytes_toBytes (r : ResponseApdu) : fromBytes r.toBytes = .ok r := by
  simpa [toBytes] using fromBytes_append r.data r.sw1 r.sw2

theorem fromBytes_short {data : ByteVector} (h : data.length < 2) :
    fromBytes data =
      .error ⟨.invalidArgument, "Need at least 2 bytes for creating ResponseApdu"⟩ := by
  simp [fromBytes, h]

end ResponseApdu

structure CommandApdu where
  cla : ByteType
  ins : ByteType
  p1 : ByteType
  p2 : ByteType
  le : UInt16
  data : ByteVector
  deriving DecidableEq, Repr

namespace CommandApdu

def maxDataSize : Nat := 255

def leUnused : UInt16 := 0xffff

def isLeSet (c : CommandApdu) : Bool := c.le != leUnused

def fromBytes (bytes : ByteVector) (useLe : Bool) : Except Exception CommandApdu :=
  if h : bytes.length < 4 then
    .error ⟨.invalidArgument, "Command APDU must have > 3 bytes"⟩
  else if bytes.length = 4 then
    .ok ⟨bytes[0], bytes[1], bytes[2], bytes[3], leUnused, []⟩
  else if h5 : bytes.length = 5 then
    if useLe then .ok ⟨bytes[0], bytes[1], bytes[2], bytes[3], bytes[4].toUInt16, []⟩
    else .error ⟨.invalidArgument, "Command APDU size 5 is invalid without LE"⟩
  else if bytes.length = 6 ∧ useLe then
    .error ⟨.invalidArgument, "Command APDU size 6 uses LE"⟩
  else
    -- 0 - cla, 1 - ins, 2 - p1, 3 - p2, 4 - data size, which is not read
    let dataStart := bytes.drop 5
    if useLe then
      .ok ⟨bytes[0], bytes[1], bytes[2], bytes[3], bytes[bytes.length - 1].toUInt16,
        dataStart.take (dataStart.length - 1)⟩
    else .ok ⟨bytes[0], bytes[1], bytes[2], bytes[3], leUnused, dataStart⟩

def toBytes (c : CommandApdu) : Except Exception ByteVector :=
  if c.data.length > maxDataSize then
    .error ⟨.invalidArgument, "Command chaining not supported"⟩
  else
    let bytes := [c.cla, c.ins, c.p1, c.p2]
    let bytes := if c.data ≠ [] then bytes ++ [c.data.length.toUInt8] ++ c.data else bytes
    if c.isLeSet then
      if c.le.toNat > ResponseApdu.maxDataSize then
        .error ⟨.invalidArgument, "LE larger than response size"⟩
      else .ok (bytes ++ [c.le.toUInt8])
    else .ok bytes

end CommandApdu

end PcscCpp

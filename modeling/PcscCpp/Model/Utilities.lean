import PcscCpp.Model.System
import PcscCpp.Model.Utils

namespace PcscCpp

open Effects

variable {σ W : Type}

inductive Utility
  | transmitApduWithExpectedResponse (command : CommandApdu) (expectedResponseBytes : ByteVector)
  | transmitApduBytesWithExpectedResponse (commandBytes expectedResponseBytes : ByteVector)
  | readDataLengthFromAsn1
  | readBinary (length blockLength : SizeT)

def Utility.run (transmit : CommandApdu → Action Exception W ResponseApdu) (fuel : Nat) :
    Utility → Action Exception W Unit
  | .transmitApduWithExpectedResponse command expectedResponseBytes =>
    PcscCpp.transmitApduWithExpectedResponse transmit command expectedResponseBytes
  | .transmitApduBytesWithExpectedResponse commandBytes expectedResponseBytes =>
    PcscCpp.transmitApduBytesWithExpectedResponse transmit commandBytes expectedResponseBytes
  | .readDataLengthFromAsn1 => do
    let _ ← PcscCpp.readDataLengthFromAsn1 transmit
  | .readBinary length blockLength => do
    let _ ← PcscCpp.readBinary transmit fuel length blockLength

namespace System

end System

end PcscCpp

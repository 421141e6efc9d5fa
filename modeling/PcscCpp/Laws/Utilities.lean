import PcscCpp.Effects.Scripts
import PcscCpp.Laws.BlockRanges
import PcscCpp.Laws.System
import PcscCpp.Model.Utilities

namespace PcscCpp

open Effects

variable {σ W : Type}

section Transmits

variable (transmit : CommandApdu → Action Exception W ResponseApdu)

namespace ReadBinary

end ReadBinary

def Utility.script (fuel : Nat) : Utility → List CommandApdu
  | .transmitApduWithExpectedResponse command _ => [command]
  | .transmitApduBytesWithExpectedResponse commandBytes _ =>
    (CommandApdu.fromBytes commandBytes false).toOption.toList
  | .readDataLengthFromAsn1 => [readBinary4Bytes]
  | .readBinary length blockLength =>
    if length ≠ 0 ∧ blockLength = 0 then List.replicate fuel (readCommand 0 0)
    else (tiles 0 length.toNat blockLength.toNat).map fun p => readCommand p.1 p.2

end Transmits

namespace System

variable {pcsc : Service σ} {fuel : Nat} {s : System σ}

end System

end PcscCpp

import PcscCpp.Effects.Loop
import PcscCpp.Laws.ReadBinary

namespace PcscCpp

open Effects

variable {W : Type} {transmit : CommandApdu → Action Exception W ResponseApdu}

namespace ReadBinary

def clamped (s : ReadBinary) : SizeT :=
  if s.blockLengthVar > s.lengthCounter then s.lengthCounter else s.blockLengthVar

def command (s : ReadBinary) : CommandApdu :=
  { s.readBinary with
    p1 := hiByte s.offset
    p2 := loByte s.offset
    le := s.clamped.toUInt8.toUInt16 }

def range (s : ReadBinary) : Nat × Nat := (s.offset.toNat, s.clamped.toNat)

variable {s s' : ReadBinary} {w w' : W} {fuel : Nat}

end ReadBinary

open ReadBinary

end PcscCpp

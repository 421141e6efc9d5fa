import Mathlib.Data.List.Basic

/-! The short command APDUs of ISO 7816-4 and a decoder that knows only their bytes. -/

namespace Iso7816

/-- A header, up to 255 data bytes and an optional Le byte.  The four cases of the
standard are the four combinations of empty or non-empty data with or without Le. -/
structure ShortApdu where
  cla : UInt8
  ins : UInt8
  p1 : UInt8
  p2 : UInt8
  data : List UInt8
  le : Option UInt8
  data_length : data.length ≤ 255

def lcField : List UInt8 → List UInt8
  | [] => []
  | data => data.length.toUInt8 :: data

def ShortApdu.bytes (a : ShortApdu) : List UInt8 :=
  [a.cla, a.ins, a.p1, a.p2] ++ lcField a.data ++ a.le.toList

def decode : List UInt8 → Option ShortApdu
  | [cla, ins, p1, p2] => some ⟨cla, ins, p1, p2, [], none, by simp⟩
  | [cla, ins, p1, p2, le] => some ⟨cla, ins, p1, p2, [], some le, by simp⟩
  | cla :: ins :: p1 :: p2 :: lc :: rest =>
    if h : rest.length = lc.toNat then
      some ⟨cla, ins, p1, p2, rest, none, by have := lc.toNat_lt; omega⟩
    else if h : rest.length = lc.toNat + 1 then
      some ⟨cla, ins, p1, p2, rest.dropLast, rest.getLast?, by
        have := lc.toNat_lt
        simp only [List.length_dropLast]
        omega⟩
    else none
  | _ => none

theorem toNat_length_toUInt8 {data : List UInt8} (h : data.length ≤ 255) :
    data.length.toUInt8.toNat = data.length := by
  simp only [Nat.toUInt8, UInt8.toNat_ofNat']
  omega

theorem lcField_of_ne_nil {data : List UInt8} (h : data ≠ []) :
    lcField data = data.length.toUInt8 :: data := by
  cases data with
  | nil => exact absurd rfl h
  | cons d ds => rfl

theorem decode_bytes (a : ShortApdu) : decode a.bytes = some a := by
  obtain ⟨cla, ins, p1, p2, data, le, hdata⟩ := a
  cases data with
  | nil => cases le <;> rfl
  | cons d ds =>
    have hlc : (d :: ds).length.toUInt8.toNat = (d :: ds).length := toNat_length_toUInt8 hdata
    cases le with
    | none =>
      simp only [ShortApdu.bytes, lcField, Option.toList, decode, List.cons_append,
        List.nil_append, List.append_nil, hlc]
      simp
    | some le =>
      have hlast : ((d :: ds) ++ [le]).getLast? = some le := List.getLast?_concat
      have hinit : ((d :: ds) ++ [le]).dropLast = d :: ds := List.dropLast_concat
      simp only [List.cons_append] at hlast hinit
      simp only [ShortApdu.bytes, lcField, Option.toList, decode, List.cons_append,
        List.nil_append, hlc, hlast, hinit]
      simp

theorem bytes_injective : Function.Injective ShortApdu.bytes := by
  intro a b h
  have := congrArg decode h
  simpa [decode_bytes] using this

end Iso7816

import PcscCpp.Iso7816.ShortApdu
import PcscCpp.Model.Apdu

namespace PcscCpp.CommandApdu

open Iso7816

variable {c : CommandApdu} {bytes : ByteVector}

def Encodes (c : CommandApdu) : Prop :=
  c.data.length ≤ maxDataSize ∧ (c.isLeSet → c.le.toNat ≤ ResponseApdu.maxDataSize)

instance : Decidable c.Encodes := inferInstanceAs (Decidable (_ ∧ _))

def leByte (c : CommandApdu) : Option ByteType := if c.isLeSet then some c.le.toUInt8 else none

def shortApdu (c : CommandApdu) (h : c.Encodes) : ShortApdu :=
  ⟨c.cla, c.ins, c.p1, c.p2, c.data, c.leByte, h.1⟩

theorem shortApdu_bytes (h : c.Encodes) :
    (c.shortApdu h).bytes = [c.cla, c.ins, c.p1, c.p2] ++ lcField c.data ++ c.leByte.toList := rfl

theorem toBytes_of_encodes (h : c.Encodes) : c.toBytes = .ok (c.shortApdu h).bytes := by
  have hshort : ¬ c.data.length > maxDataSize := Nat.not_lt.mpr h.1
  rw [shortApdu_bytes]
  have hlc : (if c.data ≠ [] then [c.cla, c.ins, c.p1, c.p2] ++ [c.data.length.toUInt8] ++ c.data
      else [c.cla, c.ins, c.p1, c.p2]) = [c.cla, c.ins, c.p1, c.p2] ++ lcField c.data := by
    by_cases hnil : c.data = []
    · simp [hnil, lcField]
    · simp [hnil, lcField_of_ne_nil hnil]
  by_cases hset : c.isLeSet
  · have hfits : ¬ c.le.toNat > ResponseApdu.maxDataSize := Nat.not_lt.mpr (h.2 hset)
    simp only [toBytes, hshort, hset, hfits, hlc, leByte, ↓reduceIte, Option.toList]
  · simp only [toBytes, hshort, hset, hlc, leByte, ↓reduceIte, Option.toList, List.append_nil,
      Bool.false_eq_true]

theorem toBytes_of_not_encodes (h : ¬ c.Encodes) : ∃ e, c.toBytes = .error e := by
  unfold toBytes
  by_cases hdata : c.data.length > maxDataSize
  · exact ⟨_, by rw [if_pos hdata]⟩
  · have hle : c.isLeSet = true ∧ c.le.toNat > ResponseApdu.maxDataSize := by
      by_contra hcon
      exact h ⟨by omega, fun hset => by by_contra hlt; exact hcon ⟨hset, by omega⟩⟩
    exact ⟨_, by rw [if_neg hdata, if_pos hle.1, if_pos hle.2]⟩

theorem toBytes_eq_ok : c.toBytes = .ok bytes ↔ ∃ h : c.Encodes, (c.shortApdu h).bytes = bytes := by
  by_cases h : c.Encodes
  · rw [toBytes_of_encodes h]
    simp [h]
  · obtain ⟨e, he⟩ := toBytes_of_not_encodes h
    simp [he, h]

section FromBytes

variable (cla ins p1 p2 lc le : ByteType) {data : ByteVector}

theorem fromBytes_header (useLe : Bool) :
    fromBytes [cla, ins, p1, p2] useLe = .ok ⟨cla, ins, p1, p2, leUnused, []⟩ := rfl

theorem fromBytes_le :
    fromBytes [cla, ins, p1, p2, le] true = .ok ⟨cla, ins, p1, p2, le.toUInt16, []⟩ := rfl

theorem fromBytes_data (h : data ≠ []) :
    fromBytes (cla :: ins :: p1 :: p2 :: lc :: data) false =
      .ok ⟨cla, ins, p1, p2, leUnused, data⟩ := by
  have hlen : data.length ≠ 0 := by simpa using h
  simp [fromBytes, hlen]

theorem fromBytes_data_le (h : data ≠ []) :
    fromBytes (cla :: ins :: p1 :: p2 :: lc :: (data ++ [le])) true =
      .ok ⟨cla, ins, p1, p2, le.toUInt16, data⟩ := by
  have hlen : data.length ≠ 0 := by simpa using h
  simp [fromBytes, hlen]

end FromBytes

/-- `c` as the decoder returns it: an Le of 256 and an Le of 0 have the same byte. -/
def leModulo (c : CommandApdu) : CommandApdu := if c.le = 256 then { c with le := 0 } else c

theorem leModulo_eq_mk (h : c.Encodes) :
    c.leModulo =
      ⟨c.cla, c.ins, c.p1, c.p2, (c.leByte.map (·.toUInt16)).getD leUnused, c.data⟩ := by
  obtain ⟨cla, ins, p1, p2, le, data⟩ := c
  have hle : isLeSet ⟨cla, ins, p1, p2, le, data⟩ = true → le.toNat ≤ 256 := h.2
  simp only [isLeSet, leUnused, bne_iff_ne, ne_eq] at hle
  simp only [leModulo, leByte, isLeSet, leUnused, bne_iff_ne, ne_eq]
  by_cases hunused : le = 0xffff
  · subst hunused
    rfl
  · have hbound := hle hunused
    by_cases h256 : le = 256
    · subst h256
      rfl
    · have hbyte : le.toUInt8.toUInt16 = le := by
        have : le.toNat ≠ 256 := fun hn => h256 (UInt16.toNat_inj.mp hn)
        apply UInt16.toNat_inj.mp
        simp only [UInt8.toNat_toUInt16, UInt16.toNat_toUInt8]
        omega
      simp [hunused, h256, hbyte]

theorem fromBytes_shortApdu (h : c.Encodes) :
    fromBytes (c.shortApdu h).bytes c.isLeSet = .ok c.leModulo := by
  rw [leModulo_eq_mk h, shortApdu_bytes]
  by_cases hset : c.isLeSet
  · by_cases hnil : c.data = []
    · simpa [hset, hnil, leByte, lcField] using fromBytes_le c.cla c.ins c.p1 c.p2 c.le.toUInt8
    · simpa [hset, leByte, lcField_of_ne_nil hnil] using
        fromBytes_data_le c.cla c.ins c.p1 c.p2 c.data.length.toUInt8 c.le.toUInt8 hnil
  · by_cases hnil : c.data = []
    · simpa [hset, hnil, leByte, lcField] using fromBytes_header c.cla c.ins c.p1 c.p2 false
    · simpa [hset, leByte, lcField_of_ne_nil hnil] using
        fromBytes_data c.cla c.ins c.p1 c.p2 c.data.length.toUInt8 hnil

theorem leByte_mem (h : c.Encodes) {le : ByteType} (hle : le ∈ c.leByte) :
    le.toNat = c.le.toNat ∨ le = 0 ∧ c.le = 256 := by
  by_cases hset : c.isLeSet
  · have hbound : c.le.toNat ≤ 256 := h.2 hset
    simp only [leByte, hset, ↓reduceIte, Option.mem_def, Option.some.injEq] at hle
    subst hle
    by_cases h256 : c.le = 256
    · exact .inr ⟨by rw [h256]; rfl, h256⟩
    · have : c.le.toNat ≠ 256 := fun hn => h256 (UInt16.toNat_inj.mp hn)
      exact .inl (by simp only [UInt16.toNat_toUInt8]; omega)
  · simp [leByte, hset] at hle

theorem leByte_isSome : c.leByte.isSome = c.isLeSet := by
  by_cases hset : c.isLeSet <;> simp [leByte, hset]

/-- Decoding undoes encoding, for the reference decoder and for `fromBytes`; two
commands with one encoding differ at most in an Le of 0 against an Le of 256. -/
theorem toBytes_decode (c : CommandApdu) :
    ((∃ e, c.toBytes = .error e) ↔ 255 < c.data.length ∨ (c.isLeSet ∧ 256 < c.le.toNat)) ∧
    (∀ bytes, c.toBytes = .ok bytes →
      (∃ a, decode bytes = some a ∧ a.cla = c.cla ∧ a.ins = c.ins ∧ a.p1 = c.p1 ∧ a.p2 = c.p2 ∧
        a.data = c.data ∧ a.le.isSome = c.isLeSet ∧
        ∀ le ∈ a.le, le.toNat = c.le.toNat ∨ le = 0 ∧ c.le = 256) ∧
      fromBytes bytes c.isLeSet = .ok c.leModulo) ∧
    (∀ bytes (c' : CommandApdu), c.toBytes = .ok bytes → c'.toBytes = .ok bytes →
      c.leModulo = c'.leModulo) := by
  refine ⟨?_, ?_, ?_⟩
  · have hnot : (∃ e, c.toBytes = .error e) ↔ ¬ c.Encodes := by
      refine ⟨?_, toBytes_of_not_encodes⟩
      rintro ⟨e, he⟩ h
      simp [toBytes_of_encodes h] at he
    rw [hnot, Encodes, maxDataSize, ResponseApdu.maxDataSize]
    constructor
    · intro h
      by_contra hcon
      exact h ⟨by omega, fun hset => by by_contra hlt; exact hcon (.inr ⟨hset, by omega⟩)⟩
    · rintro (hdata | ⟨hset, hle⟩) h
      · omega
      · have := h.2 hset
        omega
  · intro bytes hbytes
    obtain ⟨h, rfl⟩ := toBytes_eq_ok.mp hbytes
    exact ⟨⟨c.shortApdu h, decode_bytes _, rfl, rfl, rfl, rfl, rfl, leByte_isSome,
      fun _ => leByte_mem h⟩, fromBytes_shortApdu h⟩
  · intro bytes c' hbytes hbytes'
    obtain ⟨h, rfl⟩ := toBytes_eq_ok.mp hbytes
    obtain ⟨h', heq⟩ := toBytes_eq_ok.mp hbytes'
    have hapdu : c'.shortApdu h' = c.shortApdu h := bytes_injective heq
    have hcla : c'.cla = c.cla := congrArg ShortApdu.cla hapdu
    have hins : c'.ins = c.ins := congrArg ShortApdu.ins hapdu
    have hp1 : c'.p1 = c.p1 := congrArg ShortApdu.p1 hapdu
    have hp2 : c'.p2 = c.p2 := congrArg ShortApdu.p2 hapdu
    have hdata : c'.data = c.data := congrArg ShortApdu.data hapdu
    have hle : c'.leByte = c.leByte := congrArg ShortApdu.le hapdu
    rw [leModulo_eq_mk h, leModulo_eq_mk h', hcla, hins, hp1, hp2, hdata, hle]

/-- `bytes` is too short to have an Lc byte that matters, is refused for its size,
or has in byte 4 the number of data bytes that follow. -/
def LcAgrees (bytes : ByteVector) (useLe : Bool) : Prop :=
  bytes.length ≤ 5 ∨ (bytes.length = 6 ∧ useLe = true) ∨
    bytes[4]?.map (·.toNat) = some (bytes.length - if useLe then 6 else 5)

instance (bytes : ByteVector) (useLe : Bool) : Decidable (LcAgrees bytes useLe) :=
  inferInstanceAs (Decidable (_ ∨ _))

theorem toBytes_data (cla ins p1 p2 : ByteType) {le : UInt16} {data : ByteVector}
    (hdata : data ≠ []) (hle : le = leUnused ∨ le.toNat ≤ 255) :
    (mk cla ins p1 p2 le data).toBytes = .ok bytes ↔
      data.length ≤ 255 ∧ bytes = cla :: ins :: p1 :: p2 :: data.length.toUInt8 ::
        (data ++ if le = leUnused then [] else [le.toUInt8]) := by
  have hset : isLeSet ⟨cla, ins, p1, p2, le, data⟩ = true → le.toNat ≤ 256 := by
    simp only [isLeSet, bne_iff_ne, ne_eq]
    intro hne
    rcases hle with rfl | hle
    · exact absurd rfl hne
    · omega
  rw [toBytes_eq_ok]
  constructor
  · rintro ⟨h, rfl⟩
    refine ⟨h.1, ?_⟩
    rw [shortApdu_bytes]
    by_cases hu : le = leUnused <;> simp [leByte, isLeSet, lcField_of_ne_nil hdata, hu]
  · rintro ⟨hlen, rfl⟩
    have h : Encodes ⟨cla, ins, p1, p2, le, data⟩ := ⟨hlen, hset⟩
    refine ⟨h, ?_⟩
    rw [shortApdu_bytes]
    by_cases hu : le = leUnused <;> simp [leByte, isLeSet, lcField_of_ne_nil hdata, hu]

theorem lc_eq_iff (lc : ByteType) (n : Nat) : lc.toNat = n ↔ n ≤ 255 ∧ lc = n.toUInt8 := by
  have := lc.toNat_lt
  constructor
  · rintro rfl
    exact ⟨by omega, by simp⟩
  · rintro ⟨hn, rfl⟩
    simp only [Nat.toUInt8, UInt8.toNat_ofNat']
    omega

theorem toBytes_fromBytes_long (cla ins p1 p2 lc : ByteType) {data : ByteVector}
    (hdata : data ≠ []) :
    (∀ c, fromBytes (cla :: ins :: p1 :: p2 :: lc :: data) false = .ok c →
      c.toBytes = .ok (cla :: ins :: p1 :: p2 :: lc :: data)) ↔ lc.toNat = data.length := by
  rw [fromBytes_data cla ins p1 p2 lc hdata, lc_eq_iff]
  simp only [Except.ok.injEq, forall_eq', toBytes_data cla ins p1 p2 hdata (.inl rfl)]
  simp

theorem toUInt16_toNat_le (le : ByteType) : le.toUInt16.toNat ≤ 255 := by
  have := le.toNat_lt
  simp only [UInt8.toNat_toUInt16]
  omega

theorem toUInt16_ne_leUnused (le : ByteType) : le.toUInt16 ≠ leUnused := by
  intro h
  have := toUInt16_toNat_le le
  rw [h] at this
  exact absurd this (by decide)

theorem toBytes_fromBytes_long_le (cla ins p1 p2 lc le : ByteType) {data : ByteVector}
    (hdata : data ≠ []) :
    (∀ c, fromBytes (cla :: ins :: p1 :: p2 :: lc :: (data ++ [le])) true = .ok c →
      c.toBytes = .ok (cla :: ins :: p1 :: p2 :: lc :: (data ++ [le]))) ↔
      lc.toNat = data.length := by
  rw [fromBytes_data_le cla ins p1 p2 lc le hdata, lc_eq_iff]
  simp only [Except.ok.injEq, forall_eq',
    toBytes_data cla ins p1 p2 hdata (.inr (toUInt16_toNat_le le))]
  simp [toUInt16_ne_leUnused le]

/-- Encoding undoes decoding exactly on the strings whose Lc byte counts the data. -/
theorem fromBytes_toBytes_iff (bytes : ByteVector) (useLe : Bool) :
    (∀ c, fromBytes bytes useLe = .ok c → c.toBytes = .ok bytes) ↔ LcAgrees bytes useLe := by
  match bytes with
  | [] | [_] | [_, _] | [_, _, _] => simp [LcAgrees, fromBytes]
  | [cla, ins, p1, p2] =>
    simp [LcAgrees, fromBytes_header, toBytes, isLeSet, leUnused, maxDataSize]
  | [cla, ins, p1, p2, le] =>
    cases useLe with
    | false => simp [LcAgrees, fromBytes]
    | true =>
      have hle : le.toNat ≤ 256 := by have := le.toNat_lt; omega
      simp [LcAgrees, fromBytes_le, toBytes, isLeSet, toUInt16_ne_leUnused le, hle, maxDataSize,
        ResponseApdu.maxDataSize]
  | cla :: ins :: p1 :: p2 :: lc :: x :: rest =>
    cases useLe with
    | false =>
      rw [toBytes_fromBytes_long cla ins p1 p2 lc (List.cons_ne_nil x rest)]
      simp [LcAgrees]
    | true =>
      obtain ⟨data, le, hlast⟩ :=
        (List.eq_nil_or_concat' (x :: rest)).resolve_left (List.cons_ne_nil x rest)
      rw [hlast]
      by_cases hdata : data = []
      · simp [LcAgrees, fromBytes, hdata]
      · have hlen : data.length ≠ 0 := by simpa using hdata
        rw [toBytes_fromBytes_long_le cla ins p1 p2 lc le hdata]
        simp [LcAgrees, hlen]

theorem fromBytes_repairs_lc :
    ¬ ∀ bytes useLe c, fromBytes bytes useLe = .ok c → c.toBytes = .ok bytes := by
  intro h
  have := h [0x00, 0xa4, 0x04, 0x00, 0x05, 0xaa] false
    ⟨0x00, 0xa4, 0x04, 0x00, leUnused, [0xaa]⟩ rfl
  exact absurd (Except.ok.inj this) (by decide)

end PcscCpp.CommandApdu

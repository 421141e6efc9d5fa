import PcscCpp.Laws.Chaining
import PcscCpp.Model.Utils

namespace PcscCpp

open Effects CardImpl

variable {σ W : Type}

theorem derLength_toNat (hi lo : ByteType) :
    ((hi.toUInt64 <<< 8) + lo.toUInt64 + 4).toNat = 256 * hi.toNat + lo.toNat + 4 := by
  have hhi := hi.toNat_lt
  have hlo := lo.toNat_lt
  simp only [UInt64.toNat_add, UInt64.toNat_shiftLeft, UInt8.toNat_toUInt64, UInt64.reduceToNat,
    Nat.shiftLeft_eq, Nat.reduceMod, Nat.reducePow]
  omega

theorem derLength_range (hi lo : ByteType) :
    ((hi.toUInt64 <<< 8) + lo.toUInt64 + 4 < (128 : SizeT) ∨
      (0x0f00 : SizeT) < (hi.toUInt64 <<< 8) + lo.toUInt64 + 4) ↔
    (256 * hi.toNat + lo.toNat + 4 < 128 ∨ 0x0f00 < 256 * hi.toNat + lo.toNat + 4) := by
  rw [UInt64.lt_iff_toNat_lt, UInt64.lt_iff_toNat_lt, derLength_toNat]
  rfl

theorem exists_of_four_le {data : ByteVector} (h : 4 ≤ data.length) :
    ∃ a b c d rest, data = a :: b :: c :: d :: rest := by
  rcases data with _ | ⟨a, _ | ⟨b, _ | ⟨c, _ | ⟨d, rest⟩⟩⟩⟩
  · exact absurd h (by simp)
  · exact absurd h (by simp)
  · exact absurd h (by simp)
  · exact absurd h (by simp)
  · exact ⟨a, b, c, d, rest, rfl⟩

/-- The length of a DER object that starts with `data`, or an `Error`. -/
inductive ReadsHeader : ByteVector → Outcome Exception SizeT → Prop
  | length {hi lo : ByteType} {rest : ByteVector} {n : SizeT}
      (eq : n.toNat = 256 * hi.toNat + lo.toNat + 4) (low : 128 ≤ n.toNat)
      (high : n.toNat ≤ 0x0f00) :
      ReadsHeader (0x30 :: 0x82 :: hi :: lo :: rest) (.returned n)
  | refused {data : ByteVector} {e : Exception} (isError : e.type.isA .error = true) :
      ReadsHeader data (.threw e)

theorem not_readsHeader_undefined (data : ByteVector) : ¬ ReadsHeader data .undefined := nofun

section ReadDataLength

variable {transmit : CommandApdu → Action Exception W ResponseApdu} {w w' : W} {r : ResponseApdu}
  {hi lo : ByteType} {rest : ByteVector}

theorem readDataLength_of_header (hrun : transmit readBinary4Bytes w = (.returned r, w'))
    (hdata : r.data = 0x30 :: 0x82 :: hi :: lo :: rest)
    (hlow : 128 ≤ 256 * hi.toNat + lo.toNat + 4)
    (hhigh : 256 * hi.toNat + lo.toNat + 4 ≤ 0x0f00) :
    ∃ length : SizeT, length.toNat = 256 * hi.toNat + lo.toNat + 4 ∧
      readDataLengthFromAsn1 transmit w = (.returned length, w') := by
  have hrange := (not_congr (derLength_range hi lo)).mpr (by omega)
  refine ⟨_, derLength_toNat hi lo, ?_⟩
  rw [readDataLengthFromAsn1, Action.bind_returned hrun, hdata]
  simp [derSequenceTypeTag, derTwoByteLength, hrange]

theorem readDataLength_complete {tag lengthIndicator : ByteType}
    (hrun : transmit readBinary4Bytes w = (.returned r, w'))
    (hdata : r.data = tag :: lengthIndicator :: hi :: lo :: rest) :
    ReadsHeader r.data (readDataLengthFromAsn1 transmit w).1 := by
  rw [readDataLengthFromAsn1, Action.bind_returned hrun, hdata]
  simp only [Action.index_cons_zero, Action.index_cons_succ, Action.pure_bind]
  split_ifs with htag hindicator hrange
  · exact .refused rfl
  · exact .refused rfl
  · exact .refused rfl
  · have hlength := (not_congr (derLength_range hi lo)).mp hrange
    have hnat := derLength_toNat hi lo
    rw [not_not] at htag hindicator
    rw [htag, hindicator]
    exact .length hnat (by omega) (by omega)

theorem readDataLength_truncated (hrun : transmit readBinary4Bytes w = (.returned r, w'))
    (hshort : r.data.length < 4) :
    ReadsHeader r.data (readDataLengthFromAsn1 transmit w).1 ↔
      ¬ r.data.take 2 <+: [derSequenceTypeTag, derTwoByteLength] := by
  rw [readDataLengthFromAsn1, Action.bind_returned hrun]
  rcases hdata : r.data with _ | ⟨tag, rest⟩
  · exact iff_of_false (not_readsHeader_undefined _) (fun h => h (List.nil_prefix))
  rw [Action.index_cons_zero, Action.pure_bind]
  by_cases htag : tag = derSequenceTypeTag
  · subst htag
    rw [if_neg (not_not.mpr rfl)]
    rcases rest with _ | ⟨lengthIndicator, rest⟩
    · exact iff_of_false (not_readsHeader_undefined _) (fun h => h ⟨[derTwoByteLength], rfl⟩)
    rw [Action.index_cons_succ, Action.index_cons_zero, Action.pure_bind]
    by_cases hindicator : lengthIndicator = derTwoByteLength
    · subst hindicator
      rw [if_neg (not_not.mpr rfl)]
      rcases rest with _ | ⟨hi, _ | ⟨lo, rest⟩⟩
      · exact iff_of_false (not_readsHeader_undefined _) (fun h => h ⟨[], rfl⟩)
      · exact iff_of_false (not_readsHeader_undefined _) (fun h => h ⟨[], rfl⟩)
      · exact absurd hshort (by simp [hdata])
    · rw [if_pos hindicator]
      refine iff_of_true (.refused rfl) fun h => hindicator ?_
      simpa using h
  · rw [if_pos htag]
    exact iff_of_true (.refused rfl) fun h => htag (List.cons_prefix_cons.mp h).1

theorem readDataLength_reads_iff_header (hrun : transmit readBinary4Bytes w = (.returned r, w')) :
    ReadsHeader r.data (readDataLengthFromAsn1 transmit w).1 ↔
      4 ≤ r.data.length ∨ ¬ r.data.take 2 <+: [derSequenceTypeTag, derTwoByteLength] := by
  rcases Nat.lt_or_ge r.data.length 4 with hshort | hlong
  · rw [readDataLength_truncated hrun hshort]
    simp [Nat.not_le.mpr hshort]
  · refine iff_of_true ?_ (.inl hlong)
    obtain ⟨tag, lengthIndicator, hi, lo, rest, hdata⟩ := exists_of_four_le hlong
    exact readDataLength_complete hrun hdata

end ReadDataLength

section Transmit

variable {s : SmartCard} {card : CardImpl} {command : CommandApdu} {commandBytes : ByteVector}

theorem transmit_ofBytes (hs : s.InTransaction card) (hc : command.toBytes = .ok commandBytes)
    (fuel : Nat) (t : List Exchange) {r : ResponseApdu} (hsw : r.sw1 ∈ finalStatus)
    (hlen : r.data.length ≤ 256) :
    ∃ w', s.transmit (answering fun _ => .ofBytes r.toBytes) fuel command ⟨0, t⟩ =
      (.returned r, w') := by
  have hbytes : r.toBytes = r.data ++ [r.sw1, r.sw2] := by simp [ResponseApdu.toBytes]
  have hmem : r.sw1 ∈ [0x90, 0x61, 0x63, 0x64, 0x67, 0x69, (0x6a : ByteType)] := by
    revert hsw
    simp only [finalStatus, List.mem_cons, List.not_mem_nil, or_false]
    tauto
  have hmore : ¬ (Reply.ofBytes (r.data ++ [r.sw1, r.sw2])).More := by
    rw [Reply.more_ofBytes hlen]
    intro h
    rw [h] at hsw
    exact absurd hsw (by decide)
  rw [hbytes]
  obtain ⟨out, hrun, hok, -⟩ := transmit_chain hs hc t
    (a := fun _ => Reply.ofBytes (r.data ++ [r.sw1, r.sw2])) (k := 0)
    (fun i hi => absurd hi (Nat.not_lt_zero i)) hmore (Nat.zero_le fuel)
  have hreturned := hok ((Reply.accepted_ofBytes hlen).mpr hmem)
  rw [assembled, if_pos rfl, Reply.response_ofBytes hlen] at hreturned
  exact ⟨_, by rw [hrun, hreturned]⟩

/-- The header is read or refused exactly when it is whole or wrong before it ends. -/
theorem readDataLength_reads_iff {pcsc : Service σ} {s : SmartCard} {fuel : Nat} {w w' : World σ}
    {r : ResponseApdu} (h : s.transmit pcsc fuel readBinary4Bytes w = (.returned r, w')) :
    ReadsHeader r.data (readDataLengthFromAsn1 (s.transmit pcsc fuel) w).1 ↔
      4 ≤ r.data.length ∨ ¬ r.data.take 2 <+: [derSequenceTypeTag, derTwoByteLength] :=
  readDataLength_reads_iff_header h

theorem readDataLength_reads_iff_certificate :
    ReadsHeader [0x30, 0x82, 0x01, 0x00]
      (readDataLengthFromAsn1 (smartCardOne.transmit (answering fun _ =>
        .ofBytes (ResponseApdu.toBytes ⟨0x90, 0x00, [0x30, 0x82, 0x01, 0x00]⟩)) 0) ⟨0, []⟩).1 := by
  have hc : readBinary4Bytes.toBytes = .ok [0x00, 0xb0, 0x00, 0x00, 0x04] := by decide
  obtain ⟨w', hrun⟩ := transmit_ofBytes smartCardOne_inTransaction hc 0 []
    (r := ⟨0x90, 0x00, [0x30, 0x82, 0x01, 0x00]⟩) (by decide) (by simp)
  exact (readDataLength_reads_iff hrun).mpr (.inl (by simp))

theorem readDataLength_of_refusal :
    (readDataLengthFromAsn1 (smartCardOne.transmit (answering fun _ =>
      .ofBytes (ResponseApdu.toBytes ⟨0x69, 0x82, []⟩)) 0) ⟨0, []⟩).1 = .undefined := by
  have hc : readBinary4Bytes.toBytes = .ok [0x00, 0xb0, 0x00, 0x00, 0x04] := by decide
  obtain ⟨w', hrun⟩ := transmit_ofBytes smartCardOne_inTransaction hc 0 []
    (r := ⟨0x69, 0x82, []⟩) (by decide) (by decide)
  rw [readDataLengthFromAsn1, Action.bind_returned hrun]
  rfl

end Transmit

end PcscCpp

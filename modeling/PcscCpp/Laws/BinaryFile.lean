import PcscCpp.Laws.ReadBinary
import Mathlib.Data.List.Forall2

namespace PcscCpp

open Effects CardImpl

variable {σ : Type}

def expectedLength (le : ByteType) : Nat := if le = 0 then 256 else le.toNat

theorem expectedLength_le (le : ByteType) : expectedLength le ≤ 256 := by
  have := le.toNat_lt
  unfold expectedLength
  split_ifs <;> omega

theorem expectedLength_toUInt8 {n : Nat} (hn : 0 < n) :
    expectedLength n.toUInt8 ≤ n ∧ (n ≤ 256 → expectedLength n.toUInt8 = n) := by
  have hle : n.toUInt8.toNat = n % 256 := by simp [Nat.toUInt8]
  have hzero : n.toUInt8 = 0 ↔ n % 256 = 0 := by rw [← UInt8.toNat_inj, hle]; rfl
  unfold expectedLength
  split_ifs with h
  · rw [hzero] at h
    omega
  · rw [hzero] at h
    rw [hle]
    omega

def blockBytes (p : Nat × Nat) : ByteVector :=
  [0x00, 0xb0, (p.1 / 256).toUInt8, p.1.toUInt8, p.2.toUInt8]

theorem readCommand_toBytes (p : Nat × Nat) :
    (readCommand p.1 p.2).toBytes = .ok (blockBytes p) := by
  have hset := CommandApdu.toUInt16_ne_leUnused p.2.toUInt8
  have hle := CommandApdu.toUInt16_toNat_le p.2.toUInt8
  have henc : (readCommand p.1 p.2).Encodes := ⟨Nat.zero_le _, fun _ => Nat.le_succ_of_le hle⟩
  rw [CommandApdu.toBytes_of_encodes henc, CommandApdu.shortApdu_bytes]
  simp [readCommand, blockBytes, CommandApdu.leByte, CommandApdu.isLeSet, hset, Iso7816.lcField]

theorem offset_bytes (offset : Nat) :
    256 * (offset / 256).toUInt8.toNat + offset.toUInt8.toNat = offset % 65536 := by
  simp only [Nat.toUInt8, UInt8.toNat_ofNat']
  omega

/-- The card answers READ BINARY in one piece, with a part of what it asks for. -/
def AnswersFrom (f : ByteVector) (card : CardImpl) (pcsc : Service σ) : Prop :=
  ∀ st p1 p2 le, ∃ m ≤ expectedLength le,
    (pcsc st (card.transmitCall [0x00, 0xb0, p1, p2, le])).1 =
      .ofBytes ((f.drop (256 * p1.toNat + p2.toNat)).take m ++ [0x90, 0x00])

/-- On every such card `readBinary` throws or returns the first `length` bytes of the file. -/
def ReadsExactly (length blockLength : SizeT) : Prop :=
  ∀ (σ : Type) (pcsc : Service σ) (f : ByteVector) (s : SmartCard) (card : CardImpl)
    (w : World σ), s.InTransaction card → AnswersFrom f card pcsc →
    (∀ fuel data w',
      readBinary (s.transmit pcsc fuel) fuel length blockLength w = (.returned data, w') →
        data = f.take length.toNat ∧ data.length = length.toNat) ∧
    ∃ enough, ∀ fuel ≥ enough,
      (∃ data, (readBinary (s.transmit pcsc fuel) fuel length blockLength w).1 = .returned data) ∨
      (∃ e, (readBinary (s.transmit pcsc fuel) fuel length blockLength w).1 = .threw e)

section AnswersFrom

variable {pcsc : Service σ} {f : ByteVector} {s : SmartCard} {card : CardImpl}

theorem transmit_of_reply (hs : s.InTransaction card) (fuel : Nat) (p : Nat × Nat) (w : World σ)
    {data : ByteVector} (hshort : data.length ≤ 256)
    (hreply : (pcsc w.service (card.transmitCall (blockBytes p))).1 =
      .ofBytes (data ++ [0x90, 0x00])) :
    s.transmit pcsc fuel (readCommand p.1 p.2) w =
      (.returned ⟨0x90, 0x00, data⟩, w.after pcsc (card.transmitCall (blockBytes p))) := by
  have hrun := @transmitBytes_final _ card pcsc w fuel (blockBytes p)
    (by rw [hreply]; exact (Reply.accepted_ofBytes hshort).mpr (by decide))
    (by rw [hreply]; exact fun h => absurd ((Reply.more_ofBytes hshort).mp h) (by decide))
  rw [hreply, Reply.response_ofBytes hshort] at hrun
  rw [SmartCard.transmit_encoded hs (readCommand_toBytes p), hrun]

theorem readBlock_of_reply (hs : s.InTransaction card) (fuel : Nat) (p : Nat × Nat) (w : World σ)
    {data : ByteVector} (hshort : data.length ≤ 256)
    (hreply : (pcsc w.service (card.transmitCall (blockBytes p))).1 =
      .ofBytes (data ++ [0x90, 0x00])) :
    readBlock (s.transmit pcsc fuel) p w =
      (.returned data, w.after pcsc (card.transmitCall (blockBytes p))) := by
  rw [readBlock, Action.bind_returned (transmit_of_reply hs fuel p w hshort hreply)]
  rfl

theorem readBlock_answersFrom (hs : s.InTransaction card) (hf : AnswersFrom f card pcsc)
    (fuel : Nat) (p : Nat × Nat) (w : World σ) :
    ∃ m w', m ≤ expectedLength p.2.toUInt8 ∧
      readBlock (s.transmit pcsc fuel) p w = (.returned ((f.drop (p.1 % 65536)).take m), w') := by
  obtain ⟨m, hm, hreply⟩ := hf w.service (p.1 / 256).toUInt8 p.1.toUInt8 p.2.toUInt8
  rw [offset_bytes] at hreply
  have hshort : ((f.drop (p.1 % 65536)).take m).length ≤ 256 :=
    (List.length_take_le _ _).trans (hm.trans (expectedLength_le _))
  exact ⟨m, _, hm, readBlock_of_reply hs fuel p w hshort hreply⟩

theorem readBlocks_answersFrom (hs : s.InTransaction card) (hf : AnswersFrom f card pcsc)
    (fuel length blockLength : Nat) (w : World σ) :
    ∃ pieces w', readBlocks (s.transmit pcsc fuel) length blockLength w =
        checkLength length pieces.flatten w' ∧
      List.Forall₂ (fun p x => p ∈ tiles 0 length blockLength ∧
        ∃ m ≤ expectedLength p.2.toUInt8, x = (f.drop (p.1 % 65536)).take m)
        (tiles 0 length blockLength) pieces := by
  obtain ⟨pieces, w', hrun, -, hpieces⟩ := @Action.collect_pieces _ _ _ _
    (readBlock (s.transmit pcsc fuel)) (fun _ => True)
    (fun p x => p ∈ tiles 0 length blockLength ∧
      ∃ m ≤ expectedLength p.2.toUInt8, x = (f.drop (p.1 % 65536)).take m)
    (tiles 0 length blockLength) (fun p hp w _ => by
      obtain ⟨m, w', hm, hrun⟩ := readBlock_answersFrom hs hf fuel p w
      exact ⟨_, w', hrun, trivial, hp, m, hm, rfl⟩) w trivial
  exact ⟨pieces, w', by rw [readBlocks, Action.bind_returned hrun], hpieces⟩

theorem checkLength_cases {W : Type} (length : Nat) (data : ByteVector) (w : W) :
    (data.length = length ∧ checkLength length data w = (.returned data, w)) ∨
      (data.length ≠ length ∧ ∃ e, checkLength length data w = (.threw e, w)) := by
  by_cases h : data.length = length
  · exact .inl ⟨h, by simp [checkLength, h]⟩
  · exact .inr ⟨h, _, by rw [checkLength, if_pos h]; rfl⟩

theorem pieces_complete {length blockLength : Nat} (hb : 0 < blockLength)
    {pieces : List ByteVector} (hlength : pieces.flatten.length = length)
    (h : List.Forall₂ (fun p x => p ∈ tiles 0 length blockLength ∧
      ∃ m ≤ expectedLength p.2.toUInt8, x = (f.drop (p.1 % 65536)).take m)
      (tiles 0 length blockLength) pieces) :
    (∀ p ∈ tiles 0 length blockLength, p.2 ≤ 256) ∧
      pieces.flatten = (tiles 0 length blockLength).flatMap
        fun p => (f.drop (p.1 % 65536)).take p.2 := by
  have hcomplete := @forall₂_length_eq _ _ _ (fun p : Nat × Nat => p.2) (fun p x hx => by
    obtain ⟨hp, m, hm, rfl⟩ := hx
    have := (expectedLength_toUInt8 (mem_tiles hp).1).1
    rw [List.length_take]
    omega) _ _ h (by rw [sum_tiles hb, hlength])
  have hparts := hcomplete.imp (S := fun p x => p.2 ≤ 256 ∧ x = (f.drop (p.1 % 65536)).take p.2)
    fun p x hx => by
      obtain ⟨⟨hp, m, hm, rfl⟩, hlen⟩ := hx
      have hle := (expectedLength_toUInt8 (mem_tiles hp).1).1
      have h256 := expectedLength_le p.2.toUInt8
      have hm' : p.2 ≤ m := by
        rw [← hlen]
        exact List.length_take_le _ _
      refine ⟨by omega, ?_⟩
      rw [show m = p.2 from by omega]
  obtain ⟨hsmall, hslices⟩ := (List.forall₂_and_left _ _).mp hparts
  exact ⟨hsmall, flatten_of_forall₂ hslices⟩

end AnswersFrom

section ReadsExactly

variable {length blockLength : SizeT}

theorem tiles_in_reach {n b : Nat} (hb : 0 < b) (hfits : 256 < b ∨ b * ((n - 1) / b) < 65536)
    (hsmall : ∀ p ∈ tiles 0 n b, p.2 ≤ 256) {p : Nat × Nat} (hp : p ∈ tiles 0 n b) :
    p.1 < 65536 := by
  obtain ⟨hpos, -, hlast, hend⟩ := mem_tiles hp
  rcases hfits with hlarge | hlast'
  · have hn : 0 < n := by omega
    have hfirst := hsmall (0, min b n) (by rw [tiles_cons hb hn]; exact List.mem_cons_self)
    simp only at hfirst
    omega
  · omega

theorem readsExactly_of_fits (hb : 0 < blockLength.toNat)
    (hfits : 256 < blockLength.toNat ∨
      blockLength.toNat * ((length.toNat - 1) / blockLength.toNat) < 65536) :
    ReadsExactly length blockLength := by
  intro σ pcsc f s card w hs hf
  have hready : length = 0 ∨ blockLength ≠ 0 := .inr fun h => by rw [h] at hb; cases hb
  refine ⟨fun fuel data w' hrun => ?_, (tiles 0 length.toNat blockLength.toNat).length,
    fun fuel hfuel => ?_⟩
  · have hfuel : (tiles 0 length.toNat blockLength.toNat).length ≤ fuel :=
      Nat.not_lt.mp fun h => readBinary_unfinished hready h w data w' hrun
    rw [readBinary_eq hready hfuel] at hrun
    obtain ⟨pieces, w₁, hpieces, hparts⟩ :=
      readBlocks_answersFrom hs hf fuel length.toNat blockLength.toNat w
    rw [hpieces] at hrun
    rcases checkLength_cases length.toNat pieces.flatten w₁ with ⟨hlength, hcheck⟩ | ⟨-, e, hcheck⟩
    · rw [hcheck] at hrun
      cases hrun
      refine ⟨?_, hlength⟩
      obtain ⟨hsmall, hslices⟩ := pieces_complete hb hlength hparts
      have hwhole := flatMap_tiles hb f 0 length.toNat
      rw [List.drop_zero] at hwhole
      rw [hslices, ← hwhole]
      refine List.flatMap_congr fun p hp => ?_
      rw [Nat.mod_eq_of_lt (tiles_in_reach hb hfits hsmall hp)]
    · rw [hcheck] at hrun
      cases hrun
  · rw [readBinary_eq hready hfuel]
    obtain ⟨pieces, w₁, hpieces, -⟩ :=
      readBlocks_answersFrom hs hf fuel length.toNat blockLength.toNat w
    rw [hpieces]
    rcases checkLength_cases length.toNat pieces.flatten w₁ with ⟨-, hcheck⟩ | ⟨-, e, hcheck⟩
    · exact .inl ⟨_, by rw [hcheck]⟩
    · exact .inr ⟨e, by rw [hcheck]⟩

def fileService (f : ByteVector) : Service Unit
  | _, .transmit _ _ [0x00, 0xb0, p1, p2, le] _ =>
    (.ofBytes ((f.drop (256 * p1.toNat + p2.toNat)).take (expectedLength le) ++ [0x90, 0x00]), ())
  | _, _ => (.failed scardENoSmartcard, ())

theorem fileService_answersFrom (f : ByteVector) (card : CardImpl) :
    AnswersFrom f card (fileService f) := by
  intro st p1 p2 le
  exact ⟨expectedLength le, Nat.le_refl _, rfl⟩

theorem readBlock_fileService {s : SmartCard} {card : CardImpl} (hs : s.InTransaction card)
    (f : ByteVector) (fuel : Nat) {p : Nat × Nat} (hpos : 0 < p.2) (hsmall : p.2 ≤ 256)
    (w : World Unit) :
    ∃ w', readBlock (s.transmit (fileService f) fuel) p w =
      (.returned ((f.drop (p.1 % 65536)).take p.2), w') := by
  have hreply : (fileService f w.service (card.transmitCall (blockBytes p))).1 =
      .ofBytes ((f.drop (256 * (p.1 / 256).toUInt8.toNat + p.1.toUInt8.toNat)).take
        (expectedLength p.2.toUInt8) ++ [0x90, 0x00]) := rfl
  rw [offset_bytes, (expectedLength_toUInt8 hpos).2 hsmall] at hreply
  exact ⟨_, readBlock_of_reply hs fuel p w ((List.length_take_le _ _).trans hsmall) hreply⟩

theorem collect_fileService {s : SmartCard} {card : CardImpl} (hs : s.InTransaction card)
    (f : ByteVector) (fuel : Nat) {l : List (Nat × Nat)} (hl : ∀ p ∈ l, 0 < p.2 ∧ p.2 ≤ 256)
    (w : World Unit) :
    ∃ w', Action.collect (readBlock (s.transmit (fileService f) fuel)) l w =
      (.returned (l.flatMap fun p => (f.drop (p.1 % 65536)).take p.2), w') := by
  obtain ⟨pieces, w', hrun, -, hpieces⟩ := Action.collect_pieces (I := fun _ => True)
    (P := fun (p : Nat × Nat) x => x = (f.drop (p.1 % 65536)).take p.2) (fun p hp w _ => by
      obtain ⟨w', hw'⟩ := readBlock_fileService hs f fuel (hl p hp).1 (hl p hp).2 w
      exact ⟨_, w', hw', trivial, rfl⟩) trivial
  exact ⟨w', by rw [hrun, flatten_of_forall₂ hpieces]⟩

def wrapFile (length : Nat) : ByteVector :=
  List.replicate 65536 0 ++ List.replicate (length + 256) 1

theorem length_slice_wrapFile {length : Nat} (offset : Nat) {n : Nat} (hn : n ≤ 256) :
    (((wrapFile length).drop (offset % 65536)).take n).length = n := by
  simp only [wrapFile, List.length_take, List.length_drop, List.length_append,
    List.length_replicate]
  omega

theorem length_slices_wrapFile (length : Nat) {l : List (Nat × Nat)} (hl : ∀ p ∈ l, p.2 ≤ 256) :
    (l.flatMap fun p => ((wrapFile length).drop (p.1 % 65536)).take p.2).length =
      (l.map (·.2)).sum := by
  rw [List.length_flatMap]
  congr 1
  exact List.map_congr_left fun p hp => length_slice_wrapFile p.1 (hl p hp)

theorem wrapFile_getElem? (length offset : Nat) :
    (wrapFile length)[offset % 65536]? = some 0 := by
  have hlt : offset % 65536 < 65536 := Nat.mod_lt _ (by decide)
  rw [wrapFile, List.getElem?_append_left (by rwa [List.length_replicate]),
    List.getElem?_replicate_of_lt hlt]

theorem wrapFile_getElem?_high {length offset : Nat} (hlow : 65536 ≤ offset)
    (hhigh : offset < length) : (wrapFile length)[offset]? = some 1 := by
  rw [wrapFile, List.getElem?_append_right (by rwa [List.length_replicate]), List.length_replicate,
    List.getElem?_replicate_of_lt (by omega)]

theorem readBinary_wrapFile (hb : 0 < blockLength.toNat) (hsmall : blockLength.toNat ≤ 256)
    {fuel : Nat} (hfuel : (tiles 0 length.toNat blockLength.toNat).length ≤ fuel) :
    ∃ w', readBinary (smartCardOne.transmit (fileService (wrapFile length.toNat)) fuel) fuel length
        blockLength ⟨(), []⟩ =
      (.returned ((tiles 0 length.toNat blockLength.toNat).flatMap fun p =>
        ((wrapFile length.toNat).drop (p.1 % 65536)).take p.2), w') := by
  have hready : length = 0 ∨ blockLength ≠ 0 := .inr fun h => by rw [h] at hb; cases hb
  have htiles : ∀ p ∈ tiles 0 length.toNat blockLength.toNat, 0 < p.2 ∧ p.2 ≤ 256 := fun p hp =>
    ⟨(mem_tiles hp).1, (mem_tiles hp).2.1.trans hsmall⟩
  obtain ⟨w', hrun⟩ := collect_fileService smartCardOne_inTransaction (wrapFile length.toNat) fuel
    htiles ⟨(), []⟩
  have hlength := length_slices_wrapFile length.toNat fun p hp => (htiles p hp).2
  rw [sum_tiles hb] at hlength
  refine ⟨w', ?_⟩
  rw [readBinary_eq hready hfuel, readBlocks, Action.bind_returned hrun, checkLength,
    if_neg (not_not.mpr hlength)]
  rfl

theorem slices_wrapFile_ne {n b : Nat} (hb : 0 < b) (hsmall : b ≤ 256)
    (hwrap : 65536 ≤ b * ((n - 1) / b)) :
    ((tiles 0 n b).flatMap fun p => ((wrapFile n).drop (p.1 % 65536)).take p.2) ≠
      (wrapFile n).take n := by
  intro hwrong
  obtain ⟨o, ho⟩ : ∃ o, o = b * ((n - 1) / b) := ⟨_, rfl⟩
  have hlow : o ≤ n - 1 := ho ▸ Nat.mul_div_le (n - 1) b
  rw [← ho] at hwrap
  have hon : o < n := by omega
  have hsplit : (wrapFile n).take n =
      (wrapFile n).take o ++ ((wrapFile n).drop o).take (n - o) := by
    rw [← List.take_add, Nat.add_sub_cancel' (Nat.le_of_lt hon)]
  rw [tiles_concat hb (Nat.zero_lt_of_lt hon), ← ho, List.flatMap_append, List.flatMap_singleton,
    hsplit, Nat.zero_add] at hwrong
  have hlast := (List.append_inj hwrong (by
    rw [length_slices_wrapFile n fun p hp => (mem_tiles hp).2.1.trans hsmall, sum_tiles hb,
      List.length_take, wrapFile, List.length_append, List.length_replicate, List.length_replicate]
    omega)).2
  have hhead := congrArg (·[0]?) hlast
  simp only [List.getElem?_take_of_lt (Nat.sub_pos_of_lt hon), List.getElem?_drop, Nat.add_zero,
    wrapFile_getElem?, wrapFile_getElem?_high hwrap hon] at hhead
  exact absurd (Option.some.inj hhead) (by decide)

theorem not_readsExactly (hb : 0 < blockLength.toNat) (hsmall : blockLength.toNat ≤ 256)
    (hwrap : 65536 ≤ blockLength.toNat * ((length.toNat - 1) / blockLength.toNat)) :
    ¬ ReadsExactly length blockLength := by
  intro h
  obtain ⟨hexact, -⟩ := h Unit (fileService (wrapFile length.toNat)) (wrapFile length.toNat)
    smartCardOne cardOne ⟨(), []⟩ smartCardOne_inTransaction (fileService_answersFrom _ _)
  obtain ⟨w', hrun⟩ := readBinary_wrapFile hb hsmall (Nat.le_refl _)
  exact slices_wrapFile_ne hb hsmall hwrap (hexact _ _ _ hrun).1

/-- `readBinary` never returns wrong bytes exactly when the block length is above what an
answer can hold, or the last block starts at an offset of two bytes. -/
theorem readBinary_exact_iff (length blockLength : SizeT) (hb : 1 ≤ blockLength.toNat) :
    ReadsExactly length blockLength ↔
      256 < blockLength.toNat ∨
        blockLength.toNat * ((length.toNat - 1) / blockLength.toNat) < 65536 := by
  refine ⟨fun h => ?_, readsExactly_of_fits hb⟩
  by_contra hcon
  push Not at hcon
  exact not_readsExactly hb hcon.1 hcon.2 h

theorem readBinary_exact_certificate : ReadsExactly 3000 128 :=
  (readBinary_exact_iff 3000 128 (by decide)).mpr (.inr (by decide))

theorem readBinary_wraps : ¬ ReadsExactly 65792 256 :=
  not_readsExactly (by decide) (by decide) (by decide)

end ReadsExactly

end PcscCpp

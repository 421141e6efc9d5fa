import PcscCpp.Laws.BinaryFile

namespace PcscCpp

open Effects CardImpl

variable {W : Type} {transmit : CommandApdu → Action Exception W ResponseApdu}
  {idle : W → Prop} {w w' : W} {blocks : List (Nat × Nat)} {pieces : List ByteVector}

/-- From an idle world every READ BINARY returns with at most as many bytes as Le asks for,
and the world is idle again. -/
def AnswersReads (transmit : CommandApdu → Action Exception W ResponseApdu) (idle : W → Prop) :
    Prop :=
  ∀ w, idle w → ∀ offset length, ∃ r w',
    transmit (readCommand offset length) w = (.returned r, w') ∧ idle w' ∧
      r.data.length ≤ expectedLength length.toUInt8

inductive Answered (transmit : CommandApdu → Action Exception W ResponseApdu) :
    List (Nat × Nat) → W → List ByteVector → W → Prop
  | nil {w : W} : Answered transmit [] w [] w
  | cons {p : Nat × Nat} {blocks : List (Nat × Nat)} {pieces : List ByteVector}
      {r : ResponseApdu} {w w₁ w' : W}
      (answer : transmit (readCommand p.1 p.2) w = (.returned r, w₁))
      (rest : Answered transmit blocks w₁ pieces w') :
      Answered transmit (p :: blocks) w (r.data :: pieces) w'

theorem Answered.collect (h : Answered transmit blocks w pieces w') :
    Action.collect (readBlock transmit) blocks w = (.returned pieces.flatten, w') := by
  induction h with
  | nil => rfl
  | cons answer rest ih =>
    rw [Action.collect_cons, Action.bind_returned (by
      rw [readBlock, Action.bind_returned answer, Action.pure_apply]), Action.bind_returned ih]
    rfl

theorem AnswersReads.answered (h : AnswersReads transmit idle) (hw : idle w)
    (blocks : List (Nat × Nat)) :
    ∃ pieces w', Answered transmit blocks w pieces w' ∧
      List.Forall₂ (fun p x => x.length ≤ expectedLength p.2.toUInt8) blocks pieces := by
  induction blocks generalizing w with
  | nil => exact ⟨[], w, .nil, .nil⟩
  | cons p blocks ih =>
    obtain ⟨r, w₁, hrun, hw₁, hlength⟩ := h w hw p.1 p.2
    obtain ⟨pieces, w', hrest, hpieces⟩ := ih hw₁
    exact ⟨r.data :: pieces, w', .cons hrun hrest, .cons hlength hpieces⟩

theorem complete_iff {n b : Nat} (hb : 0 < b)
    (h : List.Forall₂ (fun p x => x.length ≤ expectedLength p.2.toUInt8) (tiles 0 n b) pieces) :
    pieces.flatten.length = n ↔
      n = 0 ∨ min b n ≤ 256 ∧ List.Forall₂ (fun p x => x.length = p.2) (tiles 0 n b) pieces := by
  have hmem : List.Forall₂ (fun p x => p ∈ tiles 0 n b ∧ x.length ≤ expectedLength p.2.toUInt8)
      (tiles 0 n b) pieces := (List.forall₂_and_left _ _).mpr ⟨fun _ hp => hp, h⟩
  constructor
  · intro hlength
    have hfull := @forall₂_length_eq _ _ _ (fun p : Nat × Nat => p.2)
      (fun p x hx => hx.2.trans (expectedLength_toUInt8 (mem_tiles hx.1).1).1) _ _ hmem
      (by rw [sum_tiles hb, hlength])
    rcases Nat.eq_zero_or_pos n with hn | hn
    · exact .inl hn
    · refine .inr ⟨?_, hfull.imp fun p x hx => hx.2⟩
      rw [tiles_cons hb hn] at hfull
      obtain ⟨x, _, ⟨⟨-, hle⟩, hx⟩, -, -⟩ := List.forall₂_cons_left_iff.mp hfull
      have hsize : x.length = min b n := hx
      rw [← hsize]
      exact hle.trans (expectedLength_le _)
  · rintro (rfl | ⟨-, hfull⟩)
    · rw [tiles_zero, List.forall₂_nil_left_iff] at h
      rw [h]
      rfl
    · rw [sum_of_forall₂_length hfull, sum_tiles hb]

/-- The check finds every incomplete block: what the blocks delivered is returned when each
is complete, and an `Error` is thrown after the last one when some is not. -/
theorem readBinary_complete_iff (h : AnswersReads transmit idle) (hw : idle w)
    {length blockLength : SizeT} (hb : 1 ≤ blockLength.toNat) {fuel : Nat}
    (hfuel : (length.toNat + blockLength.toNat - 1) / blockLength.toNat ≤ fuel) :
    ∃ pieces w', Answered transmit (tiles 0 length.toNat blockLength.toNat) w pieces w' ∧
      (length.toNat = 0 ∨ min blockLength.toNat length.toNat ≤ 256 ∧
          List.Forall₂ (fun p x => x.length = p.2) (tiles 0 length.toNat blockLength.toNat)
            pieces →
        readBinary transmit fuel length blockLength w = (.returned pieces.flatten, w')) ∧
      (¬ (length.toNat = 0 ∨ min blockLength.toNat length.toNat ≤ 256 ∧
          List.Forall₂ (fun p x => x.length = p.2) (tiles 0 length.toNat blockLength.toNat)
            pieces) →
        ∃ e, readBinary transmit fuel length blockLength w = (.threw e, w') ∧
          e.type.isA .error = true) := by
  have hready : length = 0 ∨ blockLength ≠ 0 := .inr fun h0 => by rw [h0] at hb; cases hb
  obtain ⟨pieces, w', hanswered, hpieces⟩ := h.answered hw (tiles 0 length.toNat blockLength.toNat)
  have hrun : readBinary transmit fuel length blockLength w =
      checkLength length.toNat pieces.flatten w' := by
    rw [readBinary_eq hready (by rwa [length_tiles]), readBlocks,
      Action.bind_returned hanswered.collect]
  refine ⟨pieces, w', hanswered, fun hcomplete => ?_, fun hincomplete => ?_⟩
  · rw [hrun, checkLength, if_neg (not_not.mpr ((complete_iff hb hpieces).mpr hcomplete)),
      Action.pure_apply]
  · rw [hrun, checkLength, if_pos fun hlength =>
      hincomplete ((complete_iff hb hpieces).mp hlength)]
    exact ⟨_, rfl, rfl⟩

theorem fileService_answersReads {s : SmartCard} {card : CardImpl} (hs : s.InTransaction card)
    (f : ByteVector) (fuel : Nat) :
    AnswersReads (s.transmit (fileService f) fuel) fun _ => True := by
  intro w _ offset length
  obtain ⟨data, hdata⟩ : ∃ data, data = (f.drop (256 * (offset / 256).toUInt8.toNat +
      offset.toUInt8.toNat)).take (expectedLength length.toUInt8) := ⟨_, rfl⟩
  have hlength : data.length ≤ expectedLength length.toUInt8 := by
    rw [hdata]
    exact List.length_take_le _ _
  have hreply : (fileService f w.service (card.transmitCall (blockBytes (offset, length)))).1 =
      .ofBytes (data ++ [0x90, 0x00]) := by
    rw [hdata]
    rfl
  exact ⟨_, _, transmit_of_reply hs fuel (offset, length) w
    (hlength.trans (expectedLength_le _)) hreply, trivial, hlength⟩

theorem readBinary_complete_iff_large :
    ∃ e, (readBinary (smartCardOne.transmit (fileService [0xaa]) 1) 1 300 300 ⟨(), []⟩).1 =
        .threw e ∧
      e.type.isA .error = true := by
  have hb : 1 ≤ (300 : SizeT).toNat := by decide
  have hfuel : ((300 : SizeT).toNat + (300 : SizeT).toNat - 1) / (300 : SizeT).toNat ≤ 1 := by
    decide
  obtain ⟨pieces, w', -, -, hincomplete⟩ := readBinary_complete_iff
    (fileService_answersReads smartCardOne_inTransaction [0xaa] 1) (w := ⟨(), []⟩) trivial hb hfuel
  obtain ⟨e, hrun, he⟩ := hincomplete (by
    rintro (hzero | ⟨hlarge, -⟩)
    · exact absurd hzero (by decide)
    · exact absurd hlarge (by decide))
  exact ⟨e, by rw [hrun], he⟩

end PcscCpp

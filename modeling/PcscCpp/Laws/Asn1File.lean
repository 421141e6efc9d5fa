import PcscCpp.Laws.BinaryFile
import PcscCpp.Laws.DataLength

namespace PcscCpp

open Effects CardImpl

variable {σ : Type}

/-- From the state `st` the card answers `commandBytes` with `data`: in one piece, or with
a first chunk and the rest through the GET RESPONSE that asks for what was announced. -/
inductive Delivers (pcsc : Service σ) (card : CardImpl) : σ → ByteVector → ByteVector → σ → Prop
  | last {st st' : σ} {commandBytes data : ByteVector}
      (reply : pcsc st (card.transmitCall commandBytes) = (.ofBytes (data ++ [0x90, 0x00]), st'))
      (short : data.length ≤ 256) : Delivers pcsc card st commandBytes data st'
  | more {st st₁ st' : σ} {commandBytes chunk data : ByteVector} {sw2 : ByteType}
      (reply : pcsc st (card.transmitCall commandBytes) = (.ofBytes (chunk ++ [0x61, sw2]), st₁))
      (short : chunk.length ≤ 256) (rest : Delivers pcsc card st₁ (getResponse sw2) data st') :
      Delivers pcsc card st commandBytes (chunk ++ data) st'

/-- The card answers READ BINARY with what it asks for from the file whenever it is idle,
and is idle again afterwards. -/
def ReadsFile (f : ByteVector) (card : CardImpl) (pcsc : Service σ) (idle : σ → Prop) : Prop :=
  ∀ st, idle st → ∀ p1 p2 le, ∃ st', idle st' ∧
    Delivers pcsc card st [0x00, 0xb0, p1, p2, le]
      ((f.drop (256 * p1.toNat + p2.toNat)).take (expectedLength le)) st'

structure Asn1File where
  hi : ByteType
  lo : ByteType
  body : ByteVector
  low : 128 ≤ 256 * hi.toNat + lo.toNat + 4
  high : 256 * hi.toNat + lo.toNat + 4 ≤ 0x0f00
  complete : 256 * hi.toNat + lo.toNat ≤ body.length

namespace Asn1File

def contents (f : Asn1File) : ByteVector := 0x30 :: 0x82 :: f.hi :: f.lo :: f.body

def length (f : Asn1File) : Nat := 256 * f.hi.toNat + f.lo.toNat + 4

theorem length_le_contents (f : Asn1File) : f.length ≤ f.contents.length := by
  have := f.complete
  simp only [length, contents, List.length_cons]
  omega

end Asn1File

section ReadsFile

variable {pcsc : Service σ} {s : SmartCard} {card : CardImpl} {st st' : σ}
  {commandBytes data f : ByteVector} {idle : σ → Prop}

theorem transmitBytes_delivers (h : Delivers pcsc card st commandBytes data st') :
    ∃ enough, ∀ fuel ≥ enough, ∀ t, ∃ t',
      transmitBytes pcsc card fuel commandBytes ⟨st, t⟩ =
        (.returned ⟨0x90, 0x00, data⟩, ⟨st', t'⟩) := by
  induction h with
  | @last st st' commandBytes data reply short =>
    refine ⟨0, fun fuel _ t =>
      ⟨t ++ [⟨card.transmitCall commandBytes, .ofBytes (data ++ [0x90, 0x00])⟩], ?_⟩⟩
    have hrun := @transmitBytes_final _ card pcsc ⟨st, t⟩ fuel commandBytes
      (by rw [reply]; exact (Reply.accepted_ofBytes short).mpr (by decide))
      (by rw [reply]; exact fun h => absurd ((Reply.more_ofBytes short).mp h) (by decide))
    rw [hrun, World.after, reply, Reply.response_ofBytes short]
  | @more st st₁ st' commandBytes chunk data sw2 reply short _ ih =>
    obtain ⟨enough, ih⟩ := ih
    refine ⟨enough + 1, fun fuel hfuel t => ?_⟩
    obtain ⟨fuel, rfl⟩ := Nat.exists_eq_add_of_le' (Nat.one_le_of_lt hfuel)
    have hmore : (pcsc st (card.transmitCall commandBytes)).1.More := by
      rw [reply]
      exact (Reply.more_ofBytes short).mpr rfl
    have hfirst : exchange pcsc card commandBytes ⟨st, t⟩ = (.returned ⟨0x61, sw2, chunk⟩,
        ⟨st₁, t ++ [⟨card.transmitCall commandBytes, .ofBytes (chunk ++ [0x61, sw2])⟩]⟩) := by
      rw [exchange, transmitBytesWith_more hmore, World.after, reply,
        Reply.response_ofBytes short]
      rfl
    obtain ⟨t', hrest⟩ := ih fuel (by omega) _
    refine ⟨t', ?_⟩
    rw [transmitBytes_succ, Action.bind_returned hfirst, if_pos rfl, Action.bind_returned hrest]
    rfl

theorem collect_readsFile (hs : s.InTransaction card) (hf : ReadsFile f card pcsc idle)
    {l : List (Nat × Nat)} (hl : ∀ p ∈ l, 0 < p.2 ∧ p.2 ≤ 256 ∧ p.1 < 65536) (hst : idle st) :
    ∃ enough st', idle st' ∧ ∀ fuel ≥ enough, ∀ t, ∃ t',
      Action.collect (readBlock (s.transmit pcsc fuel)) l ⟨st, t⟩ =
        (.returned (l.flatMap fun p => (f.drop p.1).take p.2), ⟨st', t'⟩) := by
  induction l generalizing st with
  | nil => exact ⟨0, st, hst, fun fuel _ t => ⟨t, rfl⟩⟩
  | cons p l ih =>
    obtain ⟨hpos, hsmall, hoffset⟩ := hl p List.mem_cons_self
    obtain ⟨st₁, hst₁, hdelivers⟩ := hf st hst (p.1 / 256).toUInt8 p.1.toUInt8 p.2.toUInt8
    rw [offset_bytes, Nat.mod_eq_of_lt hoffset, (expectedLength_toUInt8 hpos).2 hsmall]
      at hdelivers
    change Delivers pcsc card st (blockBytes p) _ st₁ at hdelivers
    obtain ⟨enough, hfirst⟩ := transmitBytes_delivers hdelivers
    obtain ⟨enough', st', hst', hrest⟩ := ih (fun q hq => hl q (List.mem_cons_of_mem p hq)) hst₁
    refine ⟨max enough enough', st', hst', fun fuel hfuel t => ?_⟩
    obtain ⟨t₁, ht₁⟩ := hfirst fuel (le_of_max_le_left hfuel) t
    obtain ⟨t', ht'⟩ := hrest fuel (le_of_max_le_right hfuel) t₁
    refine ⟨t', ?_⟩
    have hblock : readBlock (s.transmit pcsc fuel) p ⟨st, t⟩ =
        (.returned ((f.drop p.1).take p.2), ⟨st₁, t₁⟩) := by
      rw [readBlock, SmartCard.transmit_encoded hs (readCommand_toBytes p),
        Action.bind_returned ht₁]
      rfl
    rw [Action.collect_cons, Action.bind_returned hblock, Action.bind_returned ht',
      List.flatMap_cons]
    rfl

end ReadsFile

/-- The header gives the length of the object and `readBinary` then gives the object, for
every block length and every splitting of the answers. -/
theorem readBinary_asn1File {pcsc : Service σ} {s : SmartCard} {card : CardImpl}
    {idle : σ → Prop} (f : Asn1File) (hs : s.InTransaction card)
    (hf : ReadsFile f.contents card pcsc idle) {blockLength : SizeT}
    (hlow : 1 ≤ blockLength.toNat) (hhigh : blockLength.toNat ≤ 256) (w : World σ)
    (hw : idle w.service) :
    ∃ enough, ∀ fuel ≥ enough, ∃ (length : SizeT) (w₁ w₂ : World σ), length.toNat = f.length ∧
      readDataLengthFromAsn1 (s.transmit pcsc fuel) w = (.returned length, w₁) ∧
      readBinary (s.transmit pcsc fuel) fuel length blockLength w₁ =
        (.returned (f.contents.take f.length), w₂) := by
  obtain ⟨st₁, hst₁, hheader⟩ := hf w.service hw 0x00 0x00 0x04
  obtain ⟨enough, hheader⟩ := transmitBytes_delivers hheader
  have hready : ∀ length : SizeT, length = 0 ∨ blockLength ≠ 0 := fun _ => .inr fun h => by
    rw [h] at hlow
    cases hlow
  have hbound : f.length ≤ 0x0f00 := f.high
  obtain ⟨enough', st₂, -, hblocks⟩ := @collect_readsFile _ pcsc s card st₁ _ idle hs hf
    (tiles 0 f.length blockLength.toNat)
    (fun p hp => by
      obtain ⟨h0, hb, -, hend⟩ := mem_tiles hp
      omega) hst₁
  refine ⟨max enough (max enough' (tiles 0 f.length blockLength.toNat).length),
    fun fuel hfuel => ?_⟩
  obtain ⟨t₁, ht₁⟩ := hheader fuel (by omega) w.trace
  have htransmit : s.transmit pcsc fuel readBinary4Bytes w =
      (.returned ⟨0x90, 0x00, 0x30 :: 0x82 :: f.hi :: f.lo :: []⟩, ⟨st₁, t₁⟩) := by
    rw [SmartCard.transmit_encoded hs (show readBinary4Bytes.toBytes = .ok _ from rfl)]
    exact ht₁
  obtain ⟨length, hlength, hlen⟩ := readDataLength_of_header htransmit rfl f.low f.high
  obtain ⟨t₂, ht₂⟩ := hblocks fuel (by omega) t₁
  refine ⟨length, ⟨st₁, t₁⟩, ⟨st₂, t₂⟩, hlength, hlen, ?_⟩
  rw [show 256 * f.hi.toNat + f.lo.toNat + 4 = f.length from rfl] at hlength
  rw [flatMap_tiles hlow, List.drop_zero] at ht₂
  rw [readBinary_eq (hready length) (by rw [hlength]; omega), hlength, readBlocks,
    Action.bind_returned ht₂, checkLength, if_neg]
  · rfl
  · rw [not_not, List.length_take]
    exact Nat.min_eq_left f.length_le_contents

def splittingService (f : ByteVector) : Service ByteVector
  | _, .transmit _ _ [0x00, 0xb0, p1, p2, le] _ =>
    let data := (f.drop (256 * p1.toNat + p2.toNat)).take (expectedLength le)
    (.ofBytes (data.take 1 ++ [0x61, (data.drop 1).length.toUInt8]), data.drop 1)
  | rest, .transmit _ _ [0x00, 0xc0, 0x00, 0x00, le] _ =>
    if le = rest.length.toUInt8 then (.ofBytes (rest ++ [0x90, 0x00]), [])
    else (.ofBytes [0x6c, rest.length.toUInt8], rest)
  | rest, _ => (.failed scardENoSmartcard, rest)

theorem splittingService_readsFile (f : ByteVector) (card : CardImpl) :
    ReadsFile f card (splittingService f) fun _ => True := by
  intro st _ p1 p2 le
  obtain ⟨data, hdata⟩ : ∃ d, d = (f.drop (256 * p1.toNat + p2.toNat)).take (expectedLength le) :=
    ⟨_, rfl⟩
  have hshort : data.length ≤ 256 := by
    rw [hdata]
    exact (List.length_take_le _ _).trans (expectedLength_le le)
  have hfirst : splittingService f st (card.transmitCall [0x00, 0xb0, p1, p2, le]) =
      (.ofBytes (data.take 1 ++ [0x61, (data.drop 1).length.toUInt8]), data.drop 1) := by
    rw [hdata]
    rfl
  have hsecond : splittingService f (data.drop 1)
      (card.transmitCall (getResponse (data.drop 1).length.toUInt8)) =
      (.ofBytes (data.drop 1 ++ [0x90, 0x00]), []) := by
    exact if_pos rfl
  have hdelivers := Delivers.more hfirst ((List.length_take_le _ _).trans (by decide))
    (.last hsecond (by rw [List.length_drop]; omega))
  rw [List.take_append_drop, hdata] at hdelivers
  exact ⟨[], trivial, hdelivers⟩

def asn1Sample : Asn1File :=
  ⟨0x00, 0x7c, List.replicate 124 0xaa, by decide, by decide, by rw [List.length_replicate]; decide⟩

theorem readBinary_asn1File_splitting :
    ∃ enough, ∀ fuel ≥ enough, ∃ (length : SizeT) (w₁ w₂ : World ByteVector),
      length.toNat = asn1Sample.length ∧
      readDataLengthFromAsn1
        (smartCardOne.transmit (splittingService asn1Sample.contents) fuel) ⟨[], []⟩ =
        (.returned length, w₁) ∧
      readBinary (smartCardOne.transmit (splittingService asn1Sample.contents) fuel) fuel length 100
        w₁ = (.returned (asn1Sample.contents.take asn1Sample.length), w₂) :=
  readBinary_asn1File asn1Sample smartCardOne_inTransaction (splittingService_readsFile _ _)
    (by decide) (by decide) ⟨[], []⟩ trivial

end PcscCpp

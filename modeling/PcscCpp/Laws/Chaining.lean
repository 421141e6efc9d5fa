import PcscCpp.Laws.Transmit
import Mathlib.Data.Nat.Find

namespace PcscCpp

open Effects CardImpl

variable {σ : Type}

structure SmartCard.InTransaction (s : SmartCard) (card : CardImpl) : Prop where
  card_eq : s.card = some card
  inProgress : s.transactionInProgress = true

def sentCommands (trace : List Exchange) : List ByteVector :=
  trace.filterMap fun e => match e.call with
    | .transmit _ _ commandBytes _ => some commandBytes
    | _ => none

namespace SmartCard

variable {s : SmartCard} {card : CardImpl} {command : CommandApdu} {commandBytes : ByteVector}

theorem requireTransaction_eq {α : Type} (hs : s.InTransaction card) (nullLine line : Nat)
    (func : String) (body : CardImpl → Program σ α) :
    s.requireTransaction nullLine line func body = body card := by
  rw [requireTransaction, hs.card_eq]
  simp [hs.inProgress]

theorem transmit_eq (hs : s.InTransaction card) (pcsc : Service σ) (fuel : Nat) :
    s.transmit pcsc fuel command =
      Action.ofExcept command.toBytes >>= card.transmitBytes pcsc fuel :=
  requireTransaction_eq hs _ _ _ _

theorem transmit_encoded (hs : s.InTransaction card) (hc : command.toBytes = .ok commandBytes)
    (pcsc : Service σ) (fuel : Nat) :
    s.transmit pcsc fuel command = card.transmitBytes pcsc fuel commandBytes := by
  rw [transmit_eq hs, hc, Action.ofExcept_ok, Action.pure_bind]

theorem transmitCTL_eq (hs : s.InTransaction card) (pcsc : Service σ) (lang : UInt16)
    (minlen : UInt8) :
    s.transmitCTL pcsc command lang minlen =
      Action.ofExcept command.toBytes >>= fun commandBytes =>
        card.transmitBytesCTL pcsc commandBytes lang minlen :=
  requireTransaction_eq hs _ _ _ _

theorem transmitCTL_encoded (hs : s.InTransaction card) (hc : command.toBytes = .ok commandBytes)
    (pcsc : Service σ) (lang : UInt16) (minlen : UInt8) :
    s.transmitCTL pcsc command lang minlen =
      card.transmitBytesCTL pcsc commandBytes lang minlen := by
  rw [transmitCTL_eq hs, hc, Action.ofExcept_ok, Action.pure_bind]

end SmartCard

theorem sentCommands_chain (a : Nat → Reply) (card : CardImpl) (commandBytes : ByteVector)
    (k : Nat) :
    sentCommands (chain a card commandBytes 0 k) =
      commandBytes :: (List.range k).map fun i =>
        [0x00, 0xc0, 0x00, 0x00, (a i).response.sw2] := by
  simp only [sentCommands, chain, transmitCall, getResponse, List.filterMap_cons, Nat.zero_add,
    List.filterMap_map]
  congr 1
  rw [← List.filterMap_eq_map]
  rfl

theorem replies_chain (a : Nat → Reply) (card : CardImpl) (commandBytes : ByteVector) (k : Nat) :
    (chain a card commandBytes 0 k).map (·.reply) = (List.range (k + 1)).map a := by
  simp [chain, List.range_succ_eq_map]

theorem chain_getLast? (a : Nat → Reply) (card : CardImpl) (commandBytes : ByteVector) (k : Nat)
    (t : List Exchange) :
    ∃ e, (t ++ chain a card commandBytes 0 k).getLast? = some e ∧ e.reply = a k := by
  have hne : t ++ chain a card commandBytes 0 k ≠ [] := by simp [chain]
  refine ⟨_, List.getLast?_eq_some_getLast hne, ?_⟩
  rw [List.getLast_append_of_ne_nil _ (by simp [chain])]
  have hmap := congrArg List.getLast? (replies_chain a card commandBytes k)
  rw [List.getLast?_map, List.getLast?_eq_some_getLast (by simp [chain]), List.range_succ] at hmap
  simpa using hmap

theorem more_or_last (a : Nat → Reply) (fuel : Nat) :
    (∀ i ≤ fuel, (a i).More) ∨ ∃ k ≤ fuel, (∀ i < k, (a i).More) ∧ ¬ (a k).More := by
  by_cases hex : ∃ k ≤ fuel, ¬ (a k).More
  · obtain ⟨hfuel, hlast⟩ := Nat.find_spec hex
    refine .inr ⟨Nat.find hex, hfuel, fun i hi => ?_, hlast⟩
    by_contra hno
    exact Nat.find_min hex hi ⟨by omega, hno⟩
  · push Not at hex
    exact .inl hex

def cardOne : CardImpl := ⟨⟨1, ⟨1, 0⟩, 1⟩, ⟨scardProtocolT1, 16⟩, fun _ => none⟩

def smartCardOne : SmartCard := ⟨some cardOne, [], .t1, true⟩

theorem smartCardOne_inTransaction : smartCardOne.InTransaction cardOne := ⟨rfl, rfl⟩

def selectCommand : CommandApdu := ⟨0x00, 0xa4, 0x04, 0x00, CommandApdu.leUnused, [0x01]⟩

def twoChunks : Nat → Reply
  | 0 => .ofBytes ([0xaa] ++ [0x61, 0x01])
  | _ => .ofBytes ([0xbb] ++ [0x90, 0x00])

theorem twoChunks_more : ∀ i < 1, (twoChunks i).More := by
  intro i hi
  obtain rfl : i = 0 := by omega
  exact (Reply.more_ofBytes (by decide)).mpr rfl

theorem twoChunks_last : (twoChunks 1).Accepted ∧ ¬ (twoChunks 1).More :=
  ⟨(Reply.accepted_ofBytes (by decide)).mpr (by decide),
    fun h => absurd ((Reply.more_ofBytes (by decide)).mp h) (by decide)⟩

def moreThenRefused : Nat → Reply
  | 0 => .ofBytes ([] ++ [0x61, 0x10])
  | _ => .ofBytes ([] ++ [0x69, 0x82])

section Transmit

variable {s : SmartCard} {card : CardImpl} {command : CommandApdu} {commandBytes : ByteVector}

theorem transmit_chain (hs : s.InTransaction card) (hc : command.toBytes = .ok commandBytes)
    {a : Nat → Reply} {k fuel : Nat} (t : List Exchange) (hmore : ∀ i < k, (a i).More)
    (hlast : ¬ (a k).More) (hfuel : k ≤ fuel) :
    ∃ out, s.transmit (answering a) fuel command ⟨0, t⟩ =
        (out, ⟨k + 1, t ++ chain a card commandBytes 0 k⟩) ∧
      ((a k).Accepted → out = .returned (assembled a 0 k)) ∧
      (¬ (a k).Accepted → ∃ e, out = .threw e) := by
  have h := @transmitBytes_chain card a commandBytes k 0 fuel t
    (fun i hi => by rw [Nat.zero_add]; exact hmore i hi) (by rwa [Nat.zero_add]) hfuel
  rw [Nat.zero_add] at h
  rwa [SmartCard.transmit_encoded hs hc]

theorem transmit_endless (hs : s.InTransaction card) (hc : command.toBytes = .ok commandBytes)
    {a : Nat → Reply} {fuel : Nat} (t : List Exchange) (hmore : ∀ i ≤ fuel, (a i).More) :
    (s.transmit (answering a) fuel command ⟨0, t⟩).1 = .running := by
  rw [SmartCard.transmit_encoded hs hc,
    transmitBytes_endless fun i hi => by rw [Nat.zero_add]; exact hmore i hi]

/-- The mutual recursion is a flat loop: one command and one GET RESPONSE for each leading
announcement, the data in order, and an exception at the first answer not accepted. -/
theorem transmit_flat (hs : s.InTransaction card) (hc : command.toBytes = .ok commandBytes)
    (a : Nat → Reply) (t : List Exchange) :
    (∀ fuel, s.transmit (answering a) fuel command =
      card.flatTransmit (answering a) fuel commandBytes) ∧
    (∀ k, (∀ i < k, (a i).More) → ¬ (a k).More → ∀ fuel, k ≤ fuel → ∃ out trace,
      s.transmit (answering a) fuel command ⟨0, t⟩ = (out, ⟨k + 1, t ++ trace⟩) ∧
      trace.map (·.reply) = (List.range (k + 1)).map a ∧
      sentCommands trace = commandBytes :: (List.range k).map
        (fun i => [0x00, 0xc0, 0x00, 0x00, (a i).response.sw2]) ∧
      ((a k).Accepted → ∃ r, out = .returned r ∧
        r.data = (List.range (k + 1)).flatMap (fun i => (a i).response.data) ∧
        r.sw1 ≠ 0x61 ∧ r.sw1 ≠ 0x6c) ∧
      (¬ (a k).Accepted → ∃ e, out = .threw e)) ∧
    ((∀ i, (a i).More) → ∀ fuel,
      (s.transmit (answering a) fuel command ⟨0, t⟩).1 = .running) := by
  refine ⟨fun fuel => ?_, fun k hmore hlast fuel hfuel => ?_, fun hmore fuel => ?_⟩
  · rw [SmartCard.transmit_encoded hs hc]
    exact transmitBytes_eq_flat fuel commandBytes
  · obtain ⟨out, hrun, hok, herr⟩ := transmit_chain hs hc t hmore hlast hfuel
    refine ⟨out, chain a card commandBytes 0 k, hrun, replies_chain a card commandBytes k,
      sentCommands_chain a card commandBytes k, fun ha => ?_, herr⟩
    rw [hok ha, SmartCard.transmit_encoded hs hc] at hrun
    refine ⟨assembled a 0 k, hok ha, ?_, transmitBytes_sw1_ne hrun⟩
    rw [data_assembled]
    simp only [Nat.zero_add]
  · exact transmit_endless hs hc t fun i _ => hmore i

theorem transmit_flat_twoChunks :
    ∃ r, (smartCardOne.transmit (answering twoChunks) 1 selectCommand ⟨0, []⟩).1 = .returned r ∧
      r.data = [0xaa, 0xbb] := by
  have hfirst : (twoChunks 0).response = ⟨0x61, 0x01, [0xaa]⟩ := Reply.response_ofBytes (by decide)
  have hsecond : (twoChunks 1).response = ⟨0x90, 0x00, [0xbb]⟩ :=
    Reply.response_ofBytes (by decide)
  have hc : selectCommand.toBytes = .ok [0x00, 0xa4, 0x04, 0x00, 0x01, 0x01] := rfl
  obtain ⟨out, trace, hrun, -, -, hok, -⟩ := (transmit_flat smartCardOne_inTransaction hc twoChunks
    []).2.1 1 twoChunks_more twoChunks_last.2 1 (Nat.le_refl 1)
  obtain ⟨r, rfl, hdata, -, -⟩ := hok twoChunks_last.1
  refine ⟨r, by rw [hrun], ?_⟩
  rw [hdata]
  simp [List.range_succ, hfirst, hsecond]

def StatusOfLast (r : ResponseApdu) (trace : List Exchange) : Prop :=
  ∃ e, trace.getLast? = some e ∧ r.sw1 = e.reply.response.sw1 ∧ r.sw2 = e.reply.response.sw2

theorem statusOfLast_chain (a : Nat → Reply) (commandBytes : ByteVector) (k : Nat)
    (t : List Exchange) :
    StatusOfLast (assembled a 0 k) (t ++ chain a card commandBytes 0 k) ↔
      k = 0 ∨ (a k).response.isOK = true := by
  obtain ⟨e, hlast?, hreply⟩ := chain_getLast? a card commandBytes k t
  rw [StatusOfLast, hlast?]
  by_cases hk : k = 0
  · subst hk
    refine iff_of_true ⟨e, rfl, ?_⟩ (.inl rfl)
    rw [hreply]
    exact ⟨rfl, rfl⟩
  · simp only [assembled, Option.some.injEq, exists_eq_left', hreply, hk, false_or,
      ResponseApdu.isOK, ResponseApdu.ok, Bool.and_eq_true, beq_iff_eq]
    exact and_congr eq_comm eq_comm

/-- The returned status is that of the last answer exactly when no GET RESPONSE was
needed or the last answer says that all went well. -/
theorem transmit_status_iff (hs : s.InTransaction card) (hc : command.toBytes = .ok commandBytes)
    (a : Nat → Reply) (t : List Exchange) :
    (∀ fuel r w', s.transmit (answering a) fuel command ⟨0, t⟩ = (.returned r, w') →
      StatusOfLast r w'.trace) ↔
      ∀ k, (∀ i < k, (a i).More) → (a k).Accepted → ¬ (a k).More →
        k = 0 ∨ (a k).response.isOK = true := by
  constructor
  · intro h k hmore ha hlast
    obtain ⟨out, hout, hok, -⟩ := transmit_chain hs hc t hmore hlast (Nat.le_refl k)
    rw [hok ha] at hout
    exact (statusOfLast_chain a commandBytes k t).mp (h k _ _ hout)
  · intro h fuel r w' hret
    rcases more_or_last a fuel with hmore | ⟨k, hfuel, hmore, hlast⟩
    · have hendless := transmit_endless hs hc t hmore
      rw [hret] at hendless
      cases hendless
    · obtain ⟨out, hout, hok, herr⟩ := transmit_chain hs hc t hmore hlast hfuel
      by_cases ha : (a k).Accepted
      · rw [hout, hok ha] at hret
        cases hret
        exact (statusOfLast_chain a commandBytes k t).mpr (h k hmore ha hlast)
      · obtain ⟨e, rfl⟩ := herr ha
        rw [hout] at hret
        cases hret

theorem transmit_status_iff_twoChunks :
    ∃ r w', smartCardOne.transmit (answering twoChunks) 1 selectCommand ⟨0, []⟩ =
      (.returned r, w') ∧ StatusOfLast r w'.trace := by
  have hc : selectCommand.toBytes = .ok [0x00, 0xa4, 0x04, 0x00, 0x01, 0x01] := rfl
  have hresponse : (twoChunks 1).response = ⟨0x90, 0x00, [0xbb]⟩ :=
    Reply.response_ofBytes (by decide)
  obtain ⟨out, hrun, hok, -⟩ := transmit_chain smartCardOne_inTransaction hc [] twoChunks_more
    twoChunks_last.2 (Nat.le_refl 1)
  rw [hok twoChunks_last.1] at hrun
  refine ⟨_, _, hrun, (transmit_status_iff smartCardOne_inTransaction hc twoChunks []).mpr
    (fun k hmore _ hlast => ?_) 1 _ _ hrun⟩
  have hk : k = 1 := by
    rcases Nat.lt_trichotomy k 1 with hk | hk | hk
    · exact absurd (twoChunks_more k hk) hlast
    · exact hk
    · exact absurd (hmore 1 hk) twoChunks_last.2
  rw [hk, hresponse]
  exact .inr rfl

theorem transmit_swallows_refusal :
    ∃ r w', smartCardOne.transmit (answering moreThenRefused) 1 selectCommand ⟨0, []⟩ =
        (.returned r, w') ∧ r.isOK = true ∧
      ∃ e, w'.trace.getLast? = some e ∧ e.reply.response.sw1 = 0x69 ∧
        e.reply.response.sw2 = 0x82 := by
  have hmore : ∀ i < 1, (moreThenRefused i).More := by
    intro i hi
    obtain rfl : i = 0 := by omega
    exact (Reply.more_ofBytes (by decide)).mpr rfl
  have hresponse : (moreThenRefused 1).response = ⟨0x69, 0x82, []⟩ :=
    Reply.response_ofBytes (by decide)
  have hlast : ¬ (moreThenRefused 1).More := fun h =>
    absurd ((Reply.more_ofBytes (by decide)).mp h) (by decide)
  have hc : selectCommand.toBytes = .ok [0x00, 0xa4, 0x04, 0x00, 0x01, 0x01] := rfl
  obtain ⟨out, hrun, hok, -⟩ := transmit_chain smartCardOne_inTransaction hc [] hmore hlast
    (Nat.le_refl 1)
  rw [hok ((Reply.accepted_ofBytes (by decide)).mpr (by decide))] at hrun
  obtain ⟨e, he, hreply⟩ :=
    chain_getLast? moreThenRefused cardOne [0x00, 0xa4, 0x04, 0x00, 0x01, 0x01] 1 []
  refine ⟨_, _, hrun, rfl, e, he, ?_⟩
  rw [hreply, hresponse]
  exact ⟨rfl, rfl⟩

end Transmit

end PcscCpp

import PcscCpp.Model.SmartCard
import PcscCpp.Laws.Apdu
import Mathlib.Data.List.GetD

/-! The mutual recursion of `transmitBytes` and `getMoreResponseData` as one loop, and
what it sends and returns for every sequence of answers. -/

namespace PcscCpp

open Effects

variable {σ : Type}

namespace Reply

def received (r : Reply) : ByteVector :=
  (r.fill (List.replicate ResponseApdu.maxSize 0)).take r.length

def response (r : Reply) : ResponseApdu where
  sw1 := r.received.getD (r.length - 2) 0
  sw2 := r.received.getD (r.length - 1) 0
  data := r.received.take (r.length - 2)

def Accepted (r : Reply) : Prop :=
  r.result = scardSSuccess ∧ 2 ≤ r.length ∧ r.length ≤ 258 ∧
    r.response.sw1 ∈ [0x90, 0x61, 0x63, 0x64, 0x67, 0x69, (0x6a : ByteType)]

def More (r : Reply) : Prop := r.Accepted ∧ r.response.sw1 = 0x61

instance (r : Reply) : Decidable r.Accepted := inferInstanceAs (Decidable (_ ∧ _))

instance (r : Reply) : Decidable r.More := inferInstanceAs (Decidable (_ ∧ _))

theorem length_received {r : Reply} (h : r.length ≤ 258) : r.received.length = r.length := by
  simp only [received, List.length_take, length_fill, List.length_replicate,
    ResponseApdu.maxSize, ResponseApdu.maxDataSize]
  omega

theorem fromBytes_received {r : Reply} (h2 : 2 ≤ r.length) (h : r.length ≤ 258) :
    ResponseApdu.fromBytes r.received = .ok r.response := by
  have hlen := length_received h
  have hshort : ¬ r.length < 2 := by omega
  simp only [ResponseApdu.fromBytes, hlen, hshort, ↓reduceDIte, response, Except.ok.injEq,
    ResponseApdu.mk.injEq, and_true]
  constructor
  · rw [List.getD_eq_getElem _ _ (by omega)]
  · rw [List.getD_eq_getElem _ _ (by omega)]

theorem received_ofBytes {bytes : ByteVector} (h : bytes.length ≤ 258) :
    (ofBytes bytes).received = bytes := by
  have hbytes : (ofBytes bytes).bytes = bytes := rfl
  have hlength : (ofBytes bytes).length = bytes.length := rfl
  have htake : bytes.take ResponseApdu.maxSize = bytes := List.take_of_length_le h
  rw [received, fill, hbytes, hlength, List.length_replicate, htake, List.take_left]

theorem response_ofBytes {data : ByteVector} {sw1 sw2 : ByteType} (h : data.length ≤ 256) :
    (ofBytes (data ++ [sw1, sw2])).response = ⟨sw1, sw2, data⟩ := by
  have hlen : (data ++ [sw1, sw2]).length ≤ 258 := by simpa using h
  have hfrom := fromBytes_received (r := ofBytes (data ++ [sw1, sw2]))
    (by simp [ofBytes]) (by simpa [ofBytes] using h)
  rw [received_ofBytes hlen, ResponseApdu.fromBytes_append] at hfrom
  exact (Except.ok.inj hfrom).symm

section OfBytes

variable {data : ByteVector} {sw1 sw2 : ByteType}

theorem accepted_ofBytes (h : data.length ≤ 256) :
    (ofBytes (data ++ [sw1, sw2])).Accepted ↔
      sw1 ∈ [0x90, 0x61, 0x63, 0x64, 0x67, 0x69, (0x6a : ByteType)] := by
  have hlen : (ofBytes (data ++ [sw1, sw2])).length = data.length + 2 := by simp [ofBytes]
  rw [Accepted, response_ofBytes h, hlen]
  exact ⟨fun ha => ha.2.2.2, fun hsw => ⟨rfl, by omega, by omega, hsw⟩⟩

theorem more_ofBytes (h : data.length ≤ 256) :
    (ofBytes (data ++ [sw1, sw2])).More ↔ sw1 = 0x61 := by
  rw [More, accepted_ofBytes h, response_ofBytes h]
  constructor
  · exact fun hm => hm.2
  · rintro rfl
    exact ⟨by decide, rfl⟩

end OfBytes

end Reply

namespace CardImpl

variable (card : CardImpl) {r : Reply}

def answer (card : CardImpl) (r : Reply) : Except Exception ResponseApdu :=
  card.toResponse (r.fill (List.replicate ResponseApdu.maxSize 0)) r.length

theorem answer_too_long (h : 258 < r.length) : ∃ e, card.answer r = .error e := by
  have hlong : r.length > ResponseApdu.maxSize := h
  exact ⟨_, by
    rw [answer, toResponse, Reply.length_fill, List.length_replicate]
    exact if_pos hlong⟩

theorem answer_too_short (h : r.length < 2) : ∃ e, card.answer r = .error e := by
  have hfits : ¬ r.length > ResponseApdu.maxSize := by
    simp only [ResponseApdu.maxSize, ResponseApdu.maxDataSize]
    omega
  have hlen : r.received.length < 2 := by rw [Reply.length_received (by omega)]; exact h
  rw [answer, toResponse, Reply.length_fill, List.length_replicate, if_neg hfits]
  change ∃ e, (ResponseApdu.fromBytes r.received >>= _) = .error e
  rw [ResponseApdu.fromBytes_short hlen]
  exact ⟨_, rfl⟩

theorem answer_decoded (h2 : 2 ≤ r.length) (h258 : r.length ≤ 258) :
    if r.response.sw1 ∈ [0x90, 0x61, 0x63, 0x64, 0x67, 0x69, (0x6a : ByteType)] then
      card.answer r = .ok r.response
    else ∃ e, card.answer r = .error e := by
  have hfits : ¬ r.length > ResponseApdu.maxSize := by
    simp only [ResponseApdu.maxSize, ResponseApdu.maxDataSize]
    omega
  have hfrom := Reply.fromBytes_received h2 h258
  rw [Reply.received] at hfrom
  simp only [answer, toResponse, Reply.length_fill, List.length_replicate, hfits, ↓reduceIte, hfrom]
  simp only [bind, Except.bind, ResponseApdu.ok, ResponseApdu.moreDataAvailable,
    ResponseApdu.verificationFailed, ResponseApdu.verificationCancelled, ResponseApdu.wrongLength,
    ResponseApdu.commandNotAllowed, ResponseApdu.wrongParameters, ResponseApdu.wrongLeLength]
  by_cases hle : r.response.sw1 = 0x6c
  · simp [hle]
  · simp only [List.mem_cons, List.not_mem_nil, or_false, hle, ↓reduceIte]
    split_ifs
    · rfl
    · exact ⟨_, rfl⟩

theorem answer_eq (h : r.result = scardSSuccess) :
    (r.Accepted → card.answer r = .ok r.response) ∧
    (¬ r.Accepted → ∃ e, card.answer r = .error e) := by
  by_cases h2 : r.length < 2
  · exact ⟨fun ha => absurd ha.2.1 (by omega), fun _ => answer_too_short card h2⟩
  by_cases h258 : 258 < r.length
  · exact ⟨fun ha => absurd ha.2.2.1 (by omega), fun _ => answer_too_long card h258⟩
  have hdecoded := answer_decoded card (Nat.not_lt.mp h2) (Nat.not_lt.mp h258)
  constructor
  · intro ha
    rwa [if_pos ha.2.2.2] at hdecoded
  · intro ha
    rwa [if_neg fun hsw => ha ⟨h, Nat.not_lt.mp h2, Nat.not_lt.mp h258, hsw⟩] at hdecoded

theorem answer_of_accepted (h : r.Accepted) : card.answer r = .ok r.response :=
  (answer_eq card h.1).1 h

def transmitCall (commandBytes : ByteVector) : Call :=
  .transmit card.cardHandle card.protocol commandBytes ResponseApdu.maxSize

section TransmitBytesWith

variable {card} {pcsc : Service σ} {rest : ResponseApdu → Program σ ResponseApdu}
  {commandBytes : ByteVector} {w : World σ}

theorem transmitBytesWith_eq :
    transmitBytesWith pcsc card rest commandBytes =
      scardCall pcsc "transmitBytes" "src/SmartCard.cpp" 130 (card.transmitCall commandBytes) >>=
        fun reply => Action.ofExcept (card.answer reply) >>= fun response =>
          if response.sw1 = 0x61 then rest response else pure response := by
  rw [transmitBytesWith, transmitCall, List.length_replicate]
  rfl

theorem transmitBytesWith_rejected
    (h : ¬ (pcsc w.service (card.transmitCall commandBytes)).1.Accepted) :
    ∃ e, transmitBytesWith pcsc card rest commandBytes w =
      (.threw e, w.after pcsc (card.transmitCall commandBytes)) := by
  by_cases hr : (pcsc w.service (card.transmitCall commandBytes)).1.result = scardSSuccess
  · obtain ⟨e, he⟩ := (answer_eq card hr).2 h
    refine ⟨e, ?_⟩
    rw [transmitBytesWith_eq, Action.bind_returned (scardCall_success hr), he,
      Action.ofExcept_error, Action.throw_bind, Action.throw_apply]
  · exact ⟨_, by rw [transmitBytesWith_eq, Action.bind_threw (scardCall_failure hr)]⟩

theorem transmitBytesWith_accepted
    (h : (pcsc w.service (card.transmitCall commandBytes)).1.Accepted) :
    transmitBytesWith pcsc card rest commandBytes w =
      (if (pcsc w.service (card.transmitCall commandBytes)).1.response.sw1 = 0x61 then
        rest (pcsc w.service (card.transmitCall commandBytes)).1.response
      else pure (pcsc w.service (card.transmitCall commandBytes)).1.response)
        (w.after pcsc (card.transmitCall commandBytes)) := by
  rw [transmitBytesWith_eq, Action.bind_returned (scardCall_success h.1),
    answer_of_accepted card h, Action.ofExcept_ok, Action.pure_bind]

theorem transmitBytesWith_final
    (h : (pcsc w.service (card.transmitCall commandBytes)).1.Accepted)
    (hfinal : ¬ (pcsc w.service (card.transmitCall commandBytes)).1.More) :
    transmitBytesWith pcsc card rest commandBytes w =
      (.returned (pcsc w.service (card.transmitCall commandBytes)).1.response,
        w.after pcsc (card.transmitCall commandBytes)) := by
  rw [transmitBytesWith_accepted h, if_neg fun hsw => hfinal ⟨h, hsw⟩, Action.pure_apply]

theorem transmitBytesWith_more
    (h : (pcsc w.service (card.transmitCall commandBytes)).1.More) :
    transmitBytesWith pcsc card rest commandBytes w =
      rest (pcsc w.service (card.transmitCall commandBytes)).1.response
        (w.after pcsc (card.transmitCall commandBytes)) := by
  rw [transmitBytesWith_accepted h.1, if_pos h.2]

end TransmitBytesWith

def finalStatus : List ByteType := [0x90, 0x63, 0x64, 0x67, 0x69, 0x6a]

theorem sw1_mem_finalStatus (h : r.Accepted) (hfinal : ¬ r.More) :
    r.response.sw1 ∈ finalStatus := by
  have hmem := h.2.2.2
  have hne : r.response.sw1 ≠ 0x61 := fun hsw => hfinal ⟨h, hsw⟩
  simp only [List.mem_cons, List.not_mem_nil, or_false, hne, false_or] at hmem
  simpa [finalStatus] using hmem

def getResponse (sw2 : ByteType) : ByteVector := [0x00, 0xc0, 0x00, 0x00, sw2]

def exchange (pcsc : Service σ) (card : CardImpl) (commandBytes : ByteVector) :
    Program σ ResponseApdu :=
  transmitBytesWith pcsc card pure commandBytes

def flatPass (pcsc : Service σ) (card : CardImpl) (r : ResponseApdu) : Program σ ResponseApdu := do
  let next ← exchange pcsc card (getResponse r.sw2)
  pure ⟨next.sw1, next.sw2, r.data ++ next.data⟩

/-- The specification of `transmitBytes`: one loop and no recursion. -/
def flatTransmit (pcsc : Service σ) (card : CardImpl) (fuel : Nat) (commandBytes : ByteVector) :
    Program σ ResponseApdu := do
  let first ← exchange pcsc card commandBytes
  if first.sw1 = 0x61 then
    let last ← Action.loop (fun r => pure (r.sw1 == 0x61)) (flatPass pcsc card) fuel first
    pure { last with sw1 := 0x90, sw2 := 0 }
  else pure first

section Flat

variable {card} {pcsc : Service σ} {w w' : World σ}

theorem transmitBytesWith_eq_exchange (rest : ResponseApdu → Program σ ResponseApdu)
    (commandBytes : ByteVector) :
    transmitBytesWith pcsc card rest commandBytes =
      exchange pcsc card commandBytes >>= fun r => if r.sw1 = 0x61 then rest r else pure r := by
  rw [exchange, transmitBytesWith_eq, transmitBytesWith_eq]
  simp only [Action.bind_assoc, ite_self, Action.pure_bind]

theorem getMoreResponseData_eq {transmitBytes : ByteVector → Program σ ResponseApdu}
    (hstatus : ∀ commandBytes w r w',
      transmitBytes commandBytes w = (.returned r, w') → r.sw1 ≠ 0x61)
    (fuel : Nat) {response : ResponseApdu} (hmore : response.sw1 = 0x61) :
    getMoreResponseData transmitBytes (fuel + 1) response =
      transmitBytes (getResponse response.sw2) >>= fun r =>
        pure ⟨0x90, 0, response.data ++ r.data⟩ := by
  funext w
  have hpass : getMoreResponseData transmitBytes (fuel + 1) response w =
      (transmitBytes (getResponse response.sw2) >>= fun r =>
        Action.loop (fun s => pure (s.1.sw1 == ResponseApdu.moreDataAvailable))
          (getResponsePass transmitBytes) fuel
          (r, { response with data := response.data ++ r.data }) >>= fun s =>
        pure { s.2 with sw1 := ResponseApdu.ok, sw2 := 0 }) w := by
    simp only [getMoreResponseData, Action.loop, hmore, ResponseApdu.moreDataAvailable,
      Action.pure_bind, beq_self_eq_true, ↓reduceIte, getResponsePass, Action.bind_assoc]
    rfl
  rw [hpass, Action.bind_apply, Action.bind_apply]
  rcases hrun : transmitBytes (getResponse response.sw2) w with ⟨r | e | _ | _, w₁⟩
  · have hexit : (r.sw1 == ResponseApdu.moreDataAvailable) = false :=
      beq_eq_false_iff_ne.mpr (hstatus _ _ _ _ hrun)
    simp only
    rw [Action.bind_returned (Action.loop_exit fuel (by rw [Action.pure_apply, hexit]))]
    rfl
  · rfl
  · rfl
  · rfl

/-- At every fuel `transmitBytes` is its body around something that, when it returns,
returns a final status. -/
theorem transmitBytes_eq_with (fuel : Nat) :
    ∃ rest : ResponseApdu → Program σ ResponseApdu,
      transmitBytes pcsc card fuel = transmitBytesWith pcsc card rest ∧
      ∀ a w r w', rest a w = (.returned r, w') → r.sw1 ∈ finalStatus := by
  cases fuel with
  | zero => exact ⟨_, rfl, fun a w r w' h => by simp at h⟩
  | succ fuel =>
    refine ⟨_, rfl, fun a w r w' h => ?_⟩
    obtain ⟨s, w₁, -, h⟩ := Action.bind_eq_returned.mp h
    cases h
    exact List.mem_cons_self

variable {fuel : Nat} {commandBytes : ByteVector}

theorem transmitBytes_rejected
    (h : ¬ (pcsc w.service (card.transmitCall commandBytes)).1.Accepted) :
    ∃ e, transmitBytes pcsc card fuel commandBytes w =
      (.threw e, w.after pcsc (card.transmitCall commandBytes)) := by
  obtain ⟨rest, hrest, -⟩ := @transmitBytes_eq_with _ card pcsc fuel
  rw [hrest]
  exact transmitBytesWith_rejected h

theorem transmitBytes_final
    (h : (pcsc w.service (card.transmitCall commandBytes)).1.Accepted)
    (hfinal : ¬ (pcsc w.service (card.transmitCall commandBytes)).1.More) :
    transmitBytes pcsc card fuel commandBytes w =
      (.returned (pcsc w.service (card.transmitCall commandBytes)).1.response,
        w.after pcsc (card.transmitCall commandBytes)) := by
  obtain ⟨rest, hrest, -⟩ := @transmitBytes_eq_with _ card pcsc fuel
  rw [hrest]
  exact transmitBytesWith_final h hfinal

theorem transmitBytes_sw1 {r : ResponseApdu}
    (h : transmitBytes pcsc card fuel commandBytes w = (.returned r, w')) :
    r.sw1 ∈ finalStatus := by
  by_cases ha : (pcsc w.service (card.transmitCall commandBytes)).1.Accepted
  · by_cases hm : (pcsc w.service (card.transmitCall commandBytes)).1.More
    · obtain ⟨rest, hrest, hfinal⟩ := @transmitBytes_eq_with _ card pcsc fuel
      rw [hrest, transmitBytesWith_more hm] at h
      exact hfinal _ _ _ _ h
    · rw [transmitBytes_final ha hm] at h
      cases h
      exact sw1_mem_finalStatus ha hm
  · obtain ⟨e, he⟩ := @transmitBytes_rejected _ card pcsc w fuel _ ha
    rw [he] at h
    cases h

theorem transmitBytes_sw1_ne {r : ResponseApdu}
    (h : transmitBytes pcsc card fuel commandBytes w = (.returned r, w')) :
    r.sw1 ≠ 0x61 ∧ r.sw1 ≠ 0x6c := by
  have hmem := transmitBytes_sw1 h
  constructor <;> (intro hsw; rw [hsw] at hmem; exact absurd hmem (by decide))

theorem transmitBytes_succ (fuel : Nat) (commandBytes : ByteVector) :
    transmitBytes pcsc card (fuel + 1) commandBytes =
      exchange pcsc card commandBytes >>= fun r =>
        if r.sw1 = 0x61 then
          transmitBytes pcsc card fuel (getResponse r.sw2) >>= fun r' =>
            pure ⟨0x90, 0, r.data ++ r'.data⟩
        else pure r := by
  rw [transmitBytes, transmitBytesWith_eq_exchange]
  congr 1
  funext r
  split_ifs with hmore
  · exact getMoreResponseData_eq (fun _ _ _ _ h => (transmitBytes_sw1_ne h).1) fuel hmore
  · rfl

theorem transmitBytes_zero (commandBytes : ByteVector) :
    transmitBytes pcsc card 0 commandBytes =
      exchange pcsc card commandBytes >>= fun r =>
        if r.sw1 = 0x61 then Action.running else pure r := by
  rw [transmitBytes, transmitBytesWith_eq_exchange]

theorem flatLoop_prepend (data : ByteVector) (fuel : Nat) (r : ResponseApdu) :
    Action.loop (fun r => pure (r.sw1 == 0x61)) (flatPass pcsc card) fuel
        { r with data := data ++ r.data } =
      Action.loop (fun r => pure (r.sw1 == 0x61)) (flatPass pcsc card) fuel r >>= fun r' =>
        pure { r' with data := data ++ r'.data } :=
  Action.loop_map (fun r : ResponseApdu => { r with data := data ++ r.data }) (fun _ => rfl)
    (fun r => by simp [flatPass]) fuel r

/-- The mutual recursion is the flat loop. -/
theorem transmitBytes_eq_flat (fuel : Nat) (commandBytes : ByteVector) :
    transmitBytes pcsc card fuel commandBytes = flatTransmit pcsc card fuel commandBytes := by
  induction fuel generalizing commandBytes with
  | zero =>
    rw [transmitBytes_zero, flatTransmit]
    congr 1
    funext r
    split_ifs with hmore
    · simp only [Action.loop, hmore, beq_self_eq_true, Action.pure_bind, ↓reduceIte]
      rfl
    · rfl
  | succ fuel ih =>
    rw [transmitBytes_succ, flatTransmit]
    congr 1
    funext r
    split_ifs with hmore
    · rw [ih, flatTransmit]
      simp only [Action.loop, hmore, beq_self_eq_true, Action.pure_bind, ↓reduceIte, flatPass,
        Action.bind_assoc]
      congr 1
      funext next
      have hprepend := @flatLoop_prepend _ card pcsc r.data fuel next
      rw [hprepend]
      split_ifs with hnext
      · simp only [Action.bind_assoc, Action.pure_bind]
      · have hexit : Action.loop (fun r => pure (r.sw1 == 0x61)) (flatPass pcsc card) fuel next =
            pure next :=
          Action.loop_of_false fuel (congrArg pure (beq_eq_false_iff_ne.mpr hnext))
        rw [hexit]
        rfl
    · rfl

end Flat

def answering (a : Nat → Reply) : Service Nat := fun n _ => (a n, n + 1)

def chain (a : Nat → Reply) (card : CardImpl) (commandBytes : ByteVector) (n k : Nat) :
    List Exchange :=
  ⟨card.transmitCall commandBytes, a n⟩ :: (List.range k).map fun i =>
    ⟨card.transmitCall (getResponse (a (n + i)).response.sw2), a (n + i + 1)⟩

def assembled (a : Nat → Reply) (n k : Nat) : ResponseApdu :=
  if k = 0 then (a n).response
  else ⟨0x90, 0, (List.range (k + 1)).flatMap fun i => (a (n + i)).response.data⟩

section Answering

variable {card} {a : Nat → Reply}

theorem chain_succ (commandBytes : ByteVector) (n k : Nat) :
    chain a card commandBytes n (k + 1) = ⟨card.transmitCall commandBytes, a n⟩ ::
      chain a card (getResponse (a n).response.sw2) (n + 1) k := by
  simp only [chain, List.range_succ_eq_map, List.map_cons, List.map_map, Nat.add_zero]
  congr 2
  apply List.map_congr_left
  intro i _
  simp only [Function.comp_apply, Nat.succ_eq_add_one, Nat.add_assoc, Nat.add_comm 1]

theorem data_assembled (n k : Nat) :
    (assembled a n k).data = (List.range (k + 1)).flatMap fun i => (a (n + i)).response.data := by
  unfold assembled
  split_ifs with hk
  · subst hk
    simp
  · rfl

theorem assembled_succ (n k : Nat) :
    assembled a n (k + 1) = ⟨0x90, 0, (a n).response.data ++ (assembled a (n + 1) k).data⟩ := by
  rw [data_assembled, assembled, if_neg (Nat.succ_ne_zero k), List.range_succ_eq_map]
  simp only [List.flatMap_cons, List.flatMap_map, Nat.add_zero, Nat.succ_eq_add_one, Nat.add_assoc,
    Nat.add_comm 1]

theorem exchange_more {commandBytes : ByteVector} {n : Nat} {t : List Exchange}
    (h : (a n).More) :
    exchange (answering a) card commandBytes ⟨n, t⟩ =
      (.returned (a n).response, ⟨n + 1, t ++ [⟨card.transmitCall commandBytes, a n⟩]⟩) :=
  transmitBytesWith_more h

theorem transmitBytes_chain {commandBytes : ByteVector} {k n fuel : Nat} {t : List Exchange}
    (hmore : ∀ i < k, (a (n + i)).More) (hlast : ¬ (a (n + k)).More) (hfuel : k ≤ fuel) :
    ∃ out, transmitBytes (answering a) card fuel commandBytes ⟨n, t⟩ =
        (out, ⟨n + k + 1, t ++ chain a card commandBytes n k⟩) ∧
      ((a (n + k)).Accepted → out = .returned (assembled a n k)) ∧
      (¬ (a (n + k)).Accepted → ∃ e, out = .threw e) := by
  induction k generalizing n fuel commandBytes t with
  | zero =>
    by_cases ha : (a n).Accepted
    · exact ⟨_, transmitBytes_final ha hlast, fun _ => rfl, fun h => absurd ha h⟩
    · obtain ⟨e, he⟩ := @transmitBytes_rejected _ card (answering a) ⟨n, t⟩ fuel commandBytes ha
      exact ⟨_, he, fun h => absurd h ha, fun _ => ⟨e, rfl⟩⟩
  | succ k ih =>
    obtain ⟨fuel, rfl⟩ := Nat.exists_eq_add_of_le' (Nat.one_le_of_lt hfuel)
    have hn : (a n).More := hmore 0 (Nat.succ_pos k)
    have hshift : ∀ i, n + 1 + i = n + (i + 1) := fun i => by omega
    obtain ⟨out, hrun, hok, herr⟩ := @ih (getResponse (a n).response.sw2) (n + 1) fuel
      (t ++ [⟨card.transmitCall commandBytes, a n⟩])
      (fun i hi => by rw [hshift]; exact hmore (i + 1) (by omega))
      (by rw [hshift]; exact hlast) (by omega)
    rw [hshift] at hrun hok herr
    rw [transmitBytes_succ, Action.bind_returned (exchange_more hn), if_pos hn.2, Action.bind_apply,
      hrun, chain_succ, List.append_assoc, List.singleton_append]
    by_cases ha : (a (n + (k + 1))).Accepted
    · rw [hok ha]
      exact ⟨_, rfl, fun _ => by rw [assembled_succ], fun h => absurd ha h⟩
    · obtain ⟨e, rfl⟩ := herr ha
      exact ⟨_, rfl, fun h => absurd h ha, fun _ => ⟨e, rfl⟩⟩

theorem transmitBytes_endless {commandBytes : ByteVector} {n fuel : Nat} {t : List Exchange}
    (hmore : ∀ i ≤ fuel, (a (n + i)).More) :
    transmitBytes (answering a) card fuel commandBytes ⟨n, t⟩ =
      (.running, ⟨n + fuel + 1, t ++ chain a card commandBytes n fuel⟩) := by
  induction fuel generalizing n commandBytes t with
  | zero =>
    have hn : (a n).More := hmore 0 (Nat.le_refl 0)
    rw [transmitBytes_zero, Action.bind_returned (exchange_more hn), if_pos hn.2]
    rfl
  | succ fuel ih =>
    have hn : (a n).More := hmore 0 (Nat.zero_le _)
    have hshift : ∀ i, n + 1 + i = n + (i + 1) := fun i => by omega
    have hrun := @ih (getResponse (a n).response.sw2) (n + 1)
      (t ++ [⟨card.transmitCall commandBytes, a n⟩])
      (fun i hi => by rw [hshift]; exact hmore (i + 1) (by omega))
    rw [hshift] at hrun
    rw [transmitBytes_succ, Action.bind_returned (exchange_more hn), if_pos hn.2, Action.bind_apply,
      hrun, chain_succ, List.append_assoc, List.singleton_append]

end Answering

end CardImpl

end PcscCpp

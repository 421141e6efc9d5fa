import PcscCpp.Formats.ByteOrder
import PcscCpp.Laws.Chaining

namespace PcscCpp

open Effects ByteOrder Iso7816

variable {σ : Type}

/-- A decoder that follows the packed layout in host byte order: the structure and after
it as many bytes as it announces, with nothing behind them. -/
def decodePinVerify : ByteVector → Option (PinVerifyStructure × ByteVector)
  | t :: t2 :: f :: b :: l :: e :: e' :: v :: n :: g :: g' :: m :: p :: p' :: p'' ::
      d :: d' :: d'' :: d''' :: data =>
    let length := littleEndian [d, d', d'', d'''] 4
    if data.length = length.toNat then
      some (⟨t, t2, f, b, l, (littleEndian [e, e'] 2).toUInt16, v, n,
        (littleEndian [g, g'] 2).toUInt16, m, (p, p', p''), length⟩, data)
    else none
  | _ => none

theorem littleEndian_bytes32 (v : UInt32) : littleEndian (bytes32 v) 4 = v := by
  apply littleEndian_eq
  intro k hk
  have h : k = 0 ∨ k = 1 ∨ k = 2 ∨ k = 3 := by omega
  rcases h with rfl | rfl | rfl | rfl
  · simp [bytes32]
  · rfl
  · rfl
  · rfl

theorem littleEndian_bytes16 (v : UInt16) : (littleEndian (bytes16 v) 2).toUInt16 = v := by
  apply UInt16.eq_of_toBitVec_eq
  apply BitVec.eq_of_getLsbD_eq
  intro i hi
  rw [UInt32.toBitVec_toUInt16, BitVec.getLsbD_setWidth, getLsbD_littleEndian _ (by decide)]
  have h : i / 8 = 0 ∨ i / 8 = 1 := by omega
  have h8 : (UInt16.toBitVec 8 % 16).toNat = 8 := rfl
  rcases h with h | h
  · rw [h]
    simp only [bytes16, List.getD_cons_zero, UInt16.toBitVec_toUInt8, BitVec.getLsbD_setWidth]
    grind
  · rw [h]
    simp only [bytes16, List.getD_cons_zero, List.getD_cons_succ, UInt16.toBitVec_toUInt8,
      UInt16.toBitVec_shiftRight, BitVec.ushiftRight_eq', h8, BitVec.getLsbD_ushiftRight,
      BitVec.getLsbD_setWidth]
    grind

theorem decodePinVerify_memory {v : PinVerifyStructure} {data : ByteVector}
    (h : data.length = v.ulDataLength.toNat) :
    decodePinVerify (v.memory ++ data) = some (v, data) := by
  have hlength := littleEndian_bytes32 v.ulDataLength
  have hdigits := littleEndian_bytes16 v.wPINMaxExtraDigit
  have hlang := littleEndian_bytes16 v.wLangId
  simp only [bytes32, bytes16] at hlength hdigits hlang
  simp [PinVerifyStructure.memory, bytes32, bytes16, decodePinVerify, hlength, hdigits, hlang, h]

theorem pinSizes (minlen : UInt8) :
    (((minlen.toUInt16 <<< 8) ||| 12) >>> 8).toUInt8 = minlen ∧
      ((minlen.toUInt16 <<< 8) ||| 12).toUInt8 = 12 := by
  have hlt := minlen.toNat_lt
  have hnat : ((minlen.toUInt16 <<< 8) ||| 12).toNat = 256 * minlen.toNat + 12 := by
    have hor := Nat.two_pow_add_eq_or_of_lt (i := 8) (b := 12) (by decide) minlen.toNat
    simp only [UInt16.toNat_or, UInt16.toNat_shiftLeft, UInt8.toNat_toUInt16, UInt16.reduceToNat,
      Nat.shiftLeft_eq, Nat.reduceMod, Nat.reducePow] at hor ⊢
    rw [Nat.mod_eq_of_lt (by omega), Nat.mul_comm, ← hor]
  constructor
  · apply UInt8.toNat_inj.mp
    rw [UInt16.toNat_toUInt8, UInt16.toNat_shiftRight, hnat]
    simp only [UInt16.reduceToNat, Nat.shiftRight_eq_div_pow, Nat.reduceMod, Nat.reducePow]
    omega
  · apply UInt8.toNat_inj.mp
    rw [UInt16.toNat_toUInt8, hnat]
    simp only [UInt8.reduceToNat]
    omega

theorem CommandApdu.length_toBytes {c : CommandApdu} {bytes : ByteVector}
    (h : c.toBytes = .ok bytes) : bytes.length ≤ 261 := by
  obtain ⟨hc, rfl⟩ := toBytes_eq_ok.mp h
  have hdata := (c.shortApdu hc).data_length
  have hle : (c.shortApdu hc).le.toList.length ≤ 1 := by cases (c.shortApdu hc).le <;> simp
  have hlc : (lcField (c.shortApdu hc).data).length ≤ (c.shortApdu hc).data.length + 1 := by
    cases (c.shortApdu hc).data <;> simp [lcField]
  simp only [ShortApdu.bytes, List.length_append, List.length_cons, List.length_nil]
  omega

namespace CardImpl

variable {card : CardImpl} {pcsc : Service σ} {w : World σ} {commandBytes : ByteVector}
  {lang : UInt16} {minlen : UInt8}

def verifyCall (card : CardImpl) (code : UInt32) (input : ByteVector) : Call :=
  .control card.cardHandle code.toUInt64 input ResponseApdu.maxSize

def verifyCode (card : CardImpl) : Option UInt32 :=
  (card.features featureVerifyPinStart).or (card.features featureVerifyPinDirect)

theorem transmitBytesCTL_eq {code : UInt32} (hcode : card.verifyCode = some code) :
    transmitBytesCTL pcsc card commandBytes lang minlen =
      scardCall pcsc "transmitBytesCTL" "src/SmartCard.cpp" 168 (card.verifyCall code
          ((pinVerifyStructure commandBytes lang minlen).memory ++ commandBytes)) >>= fun reply =>
        match card.features featureVerifyPinFinish with
        | some finish =>
          scardCall pcsc "transmitBytesCTL" "src/SmartCard.cpp" 174 (card.verifyCall finish []) >>=
            fun last => Action.ofExcept (card.toResponse
              (last.fill (reply.fill (List.replicate ResponseApdu.maxSize 0))) last.length)
        | none => Action.ofExcept (card.answer reply) := by
  have hioctl : card.featureAt (if (card.features featureVerifyPinStart).isSome then
      featureVerifyPinStart else featureVerifyPinDirect) = .ok code := by
    unfold verifyCode at hcode
    cases hstart : card.features featureVerifyPinStart with
    | some start =>
      rw [hstart, Option.some_or] at hcode
      simp [featureAt, hstart, hcode]
    | none =>
      rw [hstart, Option.none_or] at hcode
      simp [featureAt, hcode]
  rw [transmitBytesCTL, hioctl, Action.ofExcept_ok, Action.pure_bind]
  simp only [Reply.length_fill, List.length_replicate]
  cases hfinish : card.features featureVerifyPinFinish with
  | some finish => simp [featureAt, hfinish, verifyCall]
  | none => simp [verifyCall, answer]

/-- What comes of the controls of a verification: at most one for each code, none after one
that fails, and the response that the last one left in the buffer. -/
structure Verifies (pcsc : Service σ) (card : CardImpl) (input : ByteVector) (code : UInt32)
    (finish : Option UInt32) (w : World σ) (run : Outcome Exception ResponseApdu × World σ) :
    Prop where
  start_fails : (pcsc w.service (card.verifyCall code input)).1.result ≠ scardSSuccess →
    ∃ e, run = (.threw e, w.after pcsc (card.verifyCall code input))
  start_only : (pcsc w.service (card.verifyCall code input)).1.result = scardSSuccess →
    finish = none →
      run = Action.ofExcept (card.answer (pcsc w.service (card.verifyCall code input)).1)
        (w.after pcsc (card.verifyCall code input))
  finish_fails : (pcsc w.service (card.verifyCall code input)).1.result = scardSSuccess →
    ∀ last ∈ finish,
      (pcsc (w.after pcsc (card.verifyCall code input)).service (card.verifyCall last [])).1.result
        ≠ scardSSuccess →
      ∃ e, run = (.threw e,
        (w.after pcsc (card.verifyCall code input)).after pcsc (card.verifyCall last []))
  finishes : (pcsc w.service (card.verifyCall code input)).1.result = scardSSuccess →
    ∀ last ∈ finish,
      (pcsc (w.after pcsc (card.verifyCall code input)).service (card.verifyCall last [])).1.result
        = scardSSuccess →
      run = Action.ofExcept (card.toResponse
          ((pcsc (w.after pcsc (card.verifyCall code input)).service
            (card.verifyCall last [])).1.fill
            ((pcsc w.service (card.verifyCall code input)).1.fill
              (List.replicate ResponseApdu.maxSize 0)))
          (pcsc (w.after pcsc (card.verifyCall code input)).service
            (card.verifyCall last [])).1.length)
        ((w.after pcsc (card.verifyCall code input)).after pcsc (card.verifyCall last []))

theorem transmitBytesCTL_verifies {code : UInt32} (hcode : card.verifyCode = some code) :
    Verifies pcsc card ((pinVerifyStructure commandBytes lang minlen).memory ++ commandBytes) code
      (card.features featureVerifyPinFinish) w
      (transmitBytesCTL pcsc card commandBytes lang minlen w) := by
  rw [transmitBytesCTL_eq hcode]
  constructor
  · intro hfails
    exact ⟨_, Action.bind_threw (scardCall_failure hfails)⟩
  · intro hok hnone
    rw [Action.bind_returned (scardCall_success hok), hnone]
  · intro hok last hlast hfails
    rw [Action.bind_returned (scardCall_success hok), hlast]
    exact ⟨_, Action.bind_threw (scardCall_failure hfails)⟩
  · intro hok last hlast hdone
    rw [Action.bind_returned (scardCall_success hok), hlast]
    exact Action.bind_returned (scardCall_success hdone)

theorem toResponse_fill (card : CardImpl) {r : Reply} {buffer : ByteVector}
    (hbuffer : r.length ≤ buffer.length) (hbytes : r.length ≤ r.bytes.length) :
    card.toResponse (r.fill buffer) r.length =
      card.toResponse (r.bytes.take r.length) r.length := by
  have hlen : (r.bytes.take r.length).length = r.length := by
    rw [List.length_take]
    omega
  have htake : (r.fill buffer).take r.length = r.bytes.take r.length := by
    rw [Reply.fill, List.take_append_of_le_length (by rw [List.length_take]; omega),
      List.take_take, Nat.min_eq_left hbuffer]
  have hfirst : ¬ r.length > buffer.length := Nat.not_lt.mpr hbuffer
  rw [toResponse, toResponse, Reply.length_fill, hlen, if_neg hfirst, if_neg (by omega), htake,
    List.take_take, Nat.min_self]

end CardImpl

open CardImpl

/-- The first control carries the structure and the command, and FINISH follows exactly when
the driver offers it. -/
theorem transmitBytesCTL_controls {card : CardImpl} {command : CommandApdu}
    {commandBytes : ByteVector} {code : UInt32} (hc : command.toBytes = .ok commandBytes)
    (hcode : card.verifyCode = some code) (pcsc : Service σ) (lang : UInt16) (minlen : UInt8)
    (w : World σ) :
    (∃ v : PinVerifyStructure, v.memory.length = 19 ∧
      decodePinVerify (v.memory ++ commandBytes) = some (v, commandBytes) ∧
      v.wLangId = lang ∧ (v.wPINMaxExtraDigit >>> 8).toUInt8 = minlen ∧
      v.wPINMaxExtraDigit.toUInt8 = 12 ∧ v.bTeoPrologue = (0, 0, 0) ∧
      Verifies pcsc card (v.memory ++ commandBytes) code (card.features featureVerifyPinFinish) w
        (transmitBytesCTL pcsc card commandBytes lang minlen w)) ∧
    ∀ (r : Reply) (buffer : ByteVector), r.length ≤ buffer.length → r.length ≤ r.bytes.length →
      card.toResponse (r.fill buffer) r.length =
        card.toResponse (r.bytes.take r.length) r.length := by
  have hlength : commandBytes.length =
      (pinVerifyStructure commandBytes lang minlen).ulDataLength.toNat := by
    have := command.length_toBytes hc
    simp only [pinVerifyStructure, Nat.toUInt32, UInt32.toNat_ofNat']
    omega
  refine ⟨⟨pinVerifyStructure commandBytes lang minlen, rfl, decodePinVerify_memory hlength, rfl,
    (pinSizes minlen).1, (pinSizes minlen).2, rfl, transmitBytesCTL_verifies hcode⟩, ?_⟩
  exact fun r buffer => toResponse_fill card

def cardWithPinPad (codes : List (DriverFeatures × UInt32)) : CardImpl :=
  { cardOne with features := fun feature => codes.lookup feature }

def succeeding : Service Unit := fun _ _ => (.ofBytes ([] ++ [0x90, 0x00]), ())

theorem transmitBytesCTL_controls_finish :
    ∃ v : PinVerifyStructure, v.wLangId = 0x0409 ∧
      (transmitBytesCTL succeeding
        (cardWithPinPad [(featureVerifyPinStart, 0x42330001), (featureVerifyPinFinish, 0x42330002)])
        [0x00, 0xa4, 0x04, 0x00, 0x01, 0x01] 0x0409 4 ⟨(), []⟩).2.trace.length = 2 := by
  have hc : selectCommand.toBytes = .ok [0x00, 0xa4, 0x04, 0x00, 0x01, 0x01] := rfl
  have hcode : (cardWithPinPad [(featureVerifyPinStart, 0x42330001),
      (featureVerifyPinFinish, 0x42330002)]).verifyCode = some 0x42330001 := rfl
  obtain ⟨⟨v, -, -, hlang, -, -, -, hrun⟩, -⟩ :=
    transmitBytesCTL_controls hc hcode succeeding 0x0409 4 ⟨(), []⟩
  exact ⟨v, hlang, by rw [hrun.finishes rfl 0x42330002 rfl rfl, Action.ofExcept_world]; rfl⟩

theorem transmitBytesCTL_without_finish :
    (cardWithPinPad [(featureVerifyPinStart, 0x42330001)]).features featureVerifyPinStart =
      some 0x42330001 ∧
    ∃ input r, (transmitBytesCTL succeeding
        (cardWithPinPad [(featureVerifyPinStart, 0x42330001)])
        [0x00, 0xa4, 0x04, 0x00, 0x01, 0x01] 0x0409 4 ⟨(), []⟩).2.trace =
          [⟨(cardWithPinPad [(featureVerifyPinStart, 0x42330001)]).verifyCall 0x42330001 input,
            r⟩] ∧
      r.result = scardSSuccess := by
  have hcode : (cardWithPinPad [(featureVerifyPinStart, 0x42330001)]).verifyCode =
      some 0x42330001 := rfl
  have hrun := @transmitBytesCTL_verifies _ _ succeeding ⟨(), []⟩
    [0x00, 0xa4, 0x04, 0x00, 0x01, 0x01] 0x0409 4 _ hcode
  have hworld := congrArg (fun run => run.2.trace) (hrun.start_only rfl rfl)
  simp only [Action.ofExcept_world] at hworld
  exact ⟨rfl, _, .ofBytes ([] ++ [0x90, 0x00]), hworld, rfl⟩

end PcscCpp

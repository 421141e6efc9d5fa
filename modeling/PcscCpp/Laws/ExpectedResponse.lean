import PcscCpp.Laws.Calls
import PcscCpp.Laws.Chaining
import PcscCpp.Model.Utils

namespace PcscCpp

open Effects Iso7816 CardImpl

variable {σ : Type}

/-- The first command sent, or the exception thrown instead of it. -/
def reencode (bytes : ByteVector) : Except Exception ByteVector :=
  CommandApdu.fromBytes bytes false >>= CommandApdu.toBytes

def SentUnchanged (s : SmartCard) (bytes : ByteVector) (w : World σ)
    (run : Outcome Exception Unit × World σ) : Prop :=
  (∃ e, run = (.threw e, w)) ∨
    ∃ card, s.card = some card ∧
      Calls.StartsWith (card.transmitCall bytes) (fun _ => True) w run.2

section Transmit

variable {s : SmartCard} {card : CardImpl} (pcsc : Service σ) (fuel : Nat)
  (expected : ByteVector) (w : World σ)

theorem transmitApdu_refused (bytes : ByteVector)
    (h : s.card = none ∨ s.transactionInProgress = false) :
    ∃ e, transmitApduBytesWithExpectedResponse (s.transmit pcsc fuel) bytes expected w =
      (.threw e, w) := by
  rw [transmitApduBytesWithExpectedResponse]
  cases CommandApdu.fromBytes bytes false with
  | error e => exact ⟨e, rfl⟩
  | ok command =>
    obtain ⟨e, he⟩ := SmartCard.transmit_refused pcsc w h fuel command
    refine ⟨e, ?_⟩
    rw [Action.ofExcept_ok, Action.pure_bind, transmitApduWithExpectedResponse,
      Action.bind_threw he]

theorem transmitApdu_sends (hs : s.InTransaction card) (bytes : ByteVector) :
    (∀ e, reencode bytes = .error e → ∃ e',
      transmitApduBytesWithExpectedResponse (s.transmit pcsc fuel) bytes expected w =
        (.threw e', w)) ∧
    (∀ sent, reencode bytes = .ok sent →
      Calls.StartsWith (card.transmitCall sent) (fun _ => True) w
        (transmitApduBytesWithExpectedResponse (s.transmit pcsc fuel) bytes expected w).2) := by
  rw [transmitApduBytesWithExpectedResponse, reencode]
  cases CommandApdu.fromBytes bytes false with
  | error e => exact ⟨fun _ _ => ⟨e, rfl⟩, fun _ h => by cases h⟩
  | ok command =>
    rw [Action.ofExcept_ok, Action.pure_bind, transmitApduWithExpectedResponse]
    change (∀ e, command.toBytes = .error e → _) ∧ (∀ sent, command.toBytes = .ok sent → _)
    constructor
    · intro e he
      refine ⟨e, ?_⟩
      rw [SmartCard.transmit_eq hs, he]
      rfl
    · intro sent hsent
      rw [SmartCard.transmit_encoded hs hsent]
      refine Calls.startsWith_bind
        (CardImpl.transmitBytes_startsWith (fun _ => trivial) fuel sent) (fun r => ?_) w
      split_ifs
      · exact (Action.within_ofExcept _).bind fun e => Action.within_throw e
      · exact Action.within_pure _

end Transmit

theorem reencode_bytes (a : ShortApdu) :
    (a.le = none → reencode a.bytes = .ok a.bytes) ∧
    (a.le ≠ none → a.data = [] ∨ a.data.length = 255 → ∃ e, reencode a.bytes = .error e) ∧
    (a.le ≠ none → a.data ≠ [] → a.data.length ≠ 255 →
      ∃ sent, reencode a.bytes = .ok sent ∧ sent ≠ a.bytes) := by
  obtain ⟨cla, ins, p1, p2, data, le, hdata⟩ := a
  by_cases hnil : data = []
  · subst hnil
    cases le with
    | none => exact ⟨fun _ => rfl, fun h => absurd rfl h, fun h => absurd rfl h⟩
    | some le => exact ⟨fun h => by simp at h, fun _ _ => ⟨_, rfl⟩, fun _ h => absurd rfl h⟩
  · have hset : ∀ rest : ByteVector, rest ≠ [] →
        reencode (cla :: ins :: p1 :: p2 :: data.length.toUInt8 :: rest) =
          (CommandApdu.mk cla ins p1 p2 CommandApdu.leUnused rest).toBytes := by
      intro rest hrest
      rw [reencode, CommandApdu.fromBytes_data cla ins p1 p2 _ hrest]
      rfl
    cases le with
    | none =>
      refine ⟨fun _ => ?_, fun h => absurd rfl h, fun h => absurd rfl h⟩
      simp only [ShortApdu.bytes, lcField_of_ne_nil hnil, Option.toList, List.cons_append,
        List.nil_append, List.append_nil]
      rw [hset data hnil, CommandApdu.toBytes_data cla ins p1 p2 hnil (.inl rfl)]
      exact ⟨hdata, by simp⟩
    | some le =>
      have hlast : data ++ [le] ≠ [] := by simp
      have hlen : (data ++ [le]).length = data.length + 1 := by simp
      simp only [ShortApdu.bytes, lcField_of_ne_nil hnil, Option.toList, List.cons_append,
        List.nil_append]
      rw [hset (data ++ [le]) hlast]
      refine ⟨fun h => by simp at h, fun _ h => ?_, fun _ _ h => ?_⟩
      · refine CommandApdu.toBytes_of_not_encodes fun henc => ?_
        have hfits : (data ++ [le]).length ≤ 255 := henc.1
        have hfull := h.resolve_left hnil
        omega
      · refine ⟨_, (CommandApdu.toBytes_data cla ins p1 p2 hlast (.inl rfl)).mpr
          ⟨by omega, rfl⟩, fun heq => ?_⟩
        have hlc : (data ++ [le]).length.toUInt8.toNat = data.length.toUInt8.toNat := by
          simp only [List.cons.injEq] at heq
          exact congrArg UInt8.toNat heq.2.2.2.2.1
        rw [toNat_length_toUInt8 (by omega), toNat_length_toUInt8 hdata] at hlc
        omega

/-- A well-formed APDU reaches the card unchanged or not at all exactly when it does not
have both data and Le, or is too long by the Le, or the card refuses all commands. -/
theorem transmitApdu_unchanged_iff (a : ShortApdu) (s : SmartCard) (pcsc : Service σ)
    (fuel : Nat) (expected : ByteVector) (w : World σ) :
    SentUnchanged s a.bytes w
      (transmitApduBytesWithExpectedResponse (s.transmit pcsc fuel) a.bytes expected w) ↔
    s.card = none ∨ s.transactionInProgress = false ∨ a.le = none ∨ a.data = [] ∨
      a.data.length = 255 := by
  by_cases hrefused : s.card = none ∨ s.transactionInProgress = false
  · obtain ⟨e, he⟩ := transmitApdu_refused pcsc fuel expected w a.bytes hrefused
    rw [he]
    exact iff_of_true (.inl ⟨e, rfl⟩) (hrefused.imp_right .inl)
  · push Not at hrefused
    obtain ⟨card, hcard⟩ := Option.ne_none_iff_exists'.mp hrefused.1
    have hs : s.InTransaction card := ⟨hcard, by simpa using hrefused.2⟩
    obtain ⟨herr, hok⟩ := transmitApdu_sends pcsc fuel expected w hs a.bytes
    obtain ⟨hcase13, hcase2, hcase4⟩ := reencode_bytes a
    by_cases hle : a.le = none
    · exact iff_of_true (.inr ⟨card, hcard, hok _ (hcase13 hle)⟩) (by simp [hle])
    by_cases hdata : a.data = [] ∨ a.data.length = 255
    · obtain ⟨e, he⟩ := hcase2 hle hdata
      exact iff_of_true (.inl (herr e he)) (.inr (.inr (.inr hdata)))
    · push Not at hdata
      obtain ⟨sent, hsent, hne⟩ := hcase4 hle hdata.1 hdata.2
      refine iff_of_false ?_ (by simp [hcard, hs.inProgress, hle, hdata])
      rintro (⟨e, he⟩ | ⟨card', hcard', hstart⟩)
      · have hstart := hok sent hsent
        rw [he] at hstart
        exact hstart.not_self
      · rw [hcard, Option.some.injEq] at hcard'
        subst hcard'
        have hcall := (hok sent hsent).unique hstart
        simp only [CardImpl.transmitCall, Call.transmit.injEq, true_and, and_true] at hcall
        exact hne hcall

theorem transmitApdu_folds_le :
    (ShortApdu.mk 0x00 0xa4 0x04 0x00 [0xaa] (some 0x00) (by decide)).bytes =
      [0x00, 0xa4, 0x04, 0x00, 0x01, 0xaa, 0x00] ∧
    ¬ SentUnchanged smartCardOne [0x00, 0xa4, 0x04, 0x00, 0x01, 0xaa, 0x00] ⟨0, []⟩
      (transmitApduBytesWithExpectedResponse (smartCardOne.transmit (answering twoChunks) 1)
        [0x00, 0xa4, 0x04, 0x00, 0x01, 0xaa, 0x00] apduResponseOk ⟨0, []⟩) := by
  refine ⟨rfl, ?_⟩
  have hsent := (transmitApdu_sends (answering twoChunks) 1 apduResponseOk ⟨0, []⟩
    smartCardOne_inTransaction [0x00, 0xa4, 0x04, 0x00, 0x01, 0xaa, 0x00]).2
    [0x00, 0xa4, 0x04, 0x00, 0x02, 0xaa, 0x00] rfl
  rintro (⟨e, he⟩ | ⟨card', hcard', hstart⟩)
  · rw [he] at hsent
    exact hsent.not_self
  · cases hcard'
    have hcall := hsent.unique hstart
    simp only [CardImpl.transmitCall, Call.transmit.injEq, true_and, and_true] at hcall
    exact absurd hcall (by decide)

end PcscCpp

import PcscCpp.Effects.Runs
import PcscCpp.Laws.Calls
import PcscCpp.Laws.Features

namespace PcscCpp

open Effects

variable {σ : Type}

namespace CardImpl

section Features

variable {feature : ByteVector} {p size fuel : Nat}

theorem featureLoop_cases (hp : p ≤ feature.length) (features : Features) :
    (∃ s, (featureLoop feature size fuel (p, features) : Program σ (Nat × Features)) = pure s) ∨
      (featureLoop feature size fuel (p, features) : Program σ (Nat × Features)) =
        Action.undefined ∨
      (featureLoop feature size fuel (p, features) : Program σ (Nat × Features)) =
        Action.running := by
  induction fuel generalizing p features with
  | zero =>
    rcases Nat.lt_or_ge p size with hlt | hge
    · refine .inr (.inr ?_)
      simp [featureLoop, Action.loop, hlt]
    · exact .inl ⟨_, featureLoop_exit 0 hge features⟩
  | succ fuel ih =>
    rcases Nat.lt_or_ge p size with hlt | hge
    · rw [featureLoop_pass hlt, readRecord_eq hp]
      cases hfirst : Tlv.first (feature.drop p) with
      | none => exact .inr (.inl rfl)
      | some r =>
        have hwhole := (Tlv.first_eq_some.mp hfirst).length_le
        rw [List.length_drop] at hwhole
        by_cases hr : r.value.length ≤ 4
        · simp only [hr, ↓reduceIte, Action.pure_bind]
          exact ih (by omega) _
        · refine .inr (.inl ?_)
          simp only [hr, ↓reduceIte, Action.undefined_bind]
    · exact .inl ⟨_, featureLoop_exit _ hge features⟩

theorem readFeatures_cases (feature : ByteVector) (size fuel : Nat) :
    (∃ features, (readFeatures feature size fuel : Program σ Features) = pure features) ∨
      (readFeatures feature size fuel : Program σ Features) = Action.undefined ∨
      (readFeatures feature size fuel : Program σ Features) = Action.running := by
  rw [readFeatures_eq]
  rcases @featureLoop_cases σ feature 0 size fuel (Nat.zero_le _) fun _ => none with
    ⟨s, hs⟩ | hs | hs
  · exact .inl ⟨s.2, by rw [hs, Action.pure_bind]⟩
  · exact .inr (.inl (by rw [hs, Action.undefined_bind]))
  · exact .inr (.inr (by rw [hs]; rfl))

end Features

section New

variable {pcsc : Service σ} {cardParams : ScardHandle × Dword} {w : World σ} {fuel : Nat}

inductive Ends (pcsc : Service σ) (cardParams : ScardHandle × Dword) (w : World σ) :
    Outcome Exception CardImpl × World σ → Prop
  | made (features : Features) :
    Ends pcsc cardParams w (.returned ⟨cardParams.1, ⟨cardParams.2, 16⟩, features⟩,
      w.after pcsc (featureRequest cardParams.1))
  | undefined : Ends pcsc cardParams w
      (.undefined, w.after pcsc (featureRequest cardParams.1))
  | running : Ends pcsc cardParams w
      (.running, w.after pcsc (featureRequest cardParams.1))

theorem new_ends (pcsc : Service σ) (fuel : Nat) (cardParams : ScardHandle × Dword)
    (w : World σ) : Ends pcsc cardParams w (new pcsc fuel cardParams w) := by
  by_cases hok : (pcsc w.service (featureRequest cardParams.1)).1.result = scardSSuccess
  · rcases readFeatures_cases (σ := σ)
      (featureBuffer (pcsc w.service (featureRequest cardParams.1)).1)
      (pcsc w.service (featureRequest cardParams.1)).1.length fuel with
      ⟨features, hfeatures⟩ | hfeatures | hfeatures
    · rw [new_of_features hok hfeatures]
      exact .made features
    · rw [new_eq, Action.bind_apply, Action.tryCatch_apply,
        Action.bind_returned (scardCall_success hok), hfeatures]
      exact .undefined
    · rw [new_eq, Action.bind_apply, Action.tryCatch_apply,
        Action.bind_returned (scardCall_success hok), hfeatures]
      exact .running
  · rw [new_of_failure hok]
    exact .made _

/-- What is assumed of a feature request: an answer is a list of whole records. -/
def AnswersFeatures (pcsc : Service σ) : Prop :=
  ∀ st cardHandle, (pcsc st (featureRequest cardHandle)).1.result = scardSSuccess →
    Tlv.Covers 4 (featureBuffer (pcsc st (featureRequest cardHandle)).1)
      (pcsc st (featureRequest cardHandle)).1.length

theorem length_le_of_covers {r : Reply} (h : Tlv.Covers 4 (featureBuffer r) r.length) :
    r.length ≤ 256 := by
  obtain ⟨rs, -, hprefix, hlength⟩ := h
  have := hprefix.length_le
  rw [featureBuffer, Reply.length_fill, List.length_replicate] at this
  omega

theorem new_made (h : AnswersFeatures pcsc) (hfuel : 256 ≤ fuel)
    (cardParams : ScardHandle × Dword) (w : World σ) :
    ∃ features, new pcsc fuel cardParams w =
      (.returned ⟨cardParams.1, ⟨cardParams.2, 16⟩, features⟩,
        w.after pcsc (featureRequest cardParams.1)) := by
  by_cases hok : (pcsc w.service (featureRequest cardParams.1)).1.result = scardSSuccess
  · have hcovers := h w.service cardParams.1 hok
    obtain ⟨features, hfeatures⟩ := (readFeatures_ends (σ := σ) _
      (Nat.le_trans (length_le_of_covers hcovers) hfuel)).1 hcovers
    exact ⟨features, new_of_features hok hfeatures⟩
  · exact ⟨_, new_of_failure hok⟩

end New

end CardImpl

namespace SmartCard

open CardImpl

def connectCall (ctx : ScardContext) (readerName : StringT) : Call :=
  .connect ctx readerName scardShareShared (scardProtocolT0 ||| scardProtocolT1)

section New

variable (pcsc : Service σ) (ctx : ScardContext) (readerName : StringT) (w : World σ)

def connectedHandle : ScardHandle :=
  ⟨(pcsc w.service (connectCall ctx readerName)).1.handle, ctx, w.trace.length⟩

def connectedWorld : World σ :=
  (w.after pcsc (connectCall ctx readerName)).after pcsc
    (featureRequest (connectedHandle pcsc ctx readerName w))

inductive Ends : Outcome Exception SmartCard × World σ → Prop
  | refused (e : Exception)
      (failure : (pcsc w.service (connectCall ctx readerName)).1.result ≠ scardSSuccess) :
    Ends (.threw e, w.after pcsc (connectCall ctx readerName))
  | connected (card : CardImpl) (atr : ByteVector) (protocol : Protocol)
      (success : (pcsc w.service (connectCall ctx readerName)).1.result = scardSSuccess)
      (handle : card.cardHandle = connectedHandle pcsc ctx readerName w) :
    Ends (.returned ⟨some card, atr, protocol, false⟩, connectedWorld pcsc ctx readerName w)
  | unsupported (e : Exception)
      (success : (pcsc w.service (connectCall ctx readerName)).1.result = scardSSuccess) :
    Ends (.threw e, if (connectedHandle pcsc ctx readerName w).value = 0 then
        connectedWorld pcsc ctx readerName w
      else (connectedWorld pcsc ctx readerName w).after pcsc
        (.disconnect (connectedHandle pcsc ctx readerName w) scardLeaveCard))
  | undefined : Ends (.undefined, connectedWorld pcsc ctx readerName w)
  | running : Ends (.running, connectedWorld pcsc ctx readerName w)

variable {pcsc ctx readerName w}

theorem new_refused (fuel : Nat) (atr : ByteVector)
    (h : (pcsc w.service (connectCall ctx readerName)).1.result ≠ scardSSuccess) :
    ∃ e, new pcsc fuel ctx readerName atr w =
      (.threw e, w.after pcsc (connectCall ctx readerName)) := by
  rw [new, connectToCard]
  simp only [Action.bind_assoc]
  rw [Action.bind_returned (Action.read_apply _ _)]
  exact ⟨_, Action.bind_threw (scardCall_failure h)⟩

theorem new_connected {fuel : Nat} {atr : ByteVector}
    (h : (pcsc w.service (connectCall ctx readerName)).1.result = scardSSuccess) :
    new pcsc fuel ctx readerName atr w =
      (CardImpl.new pcsc fuel (connectedHandle pcsc ctx readerName w,
          (pcsc w.service (connectCall ctx readerName)).1.protocolOut) >>= fun card =>
        tryCatch (Action.ofExcept (convertToSmartCardProtocol card.protocol.dwProtocol))
          (fun e => card.destroy pcsc >>= fun _ => throw e) >>= fun protocol =>
            pure ⟨some card, atr, protocol, false⟩)
              (w.after pcsc (connectCall ctx readerName)) := by
  rw [new, connectToCard]
  simp only [Action.bind_assoc, Action.pure_bind]
  rw [Action.bind_returned (Action.read_apply _ _)]
  exact Action.bind_returned (scardCall_success h)

theorem new_made_ends {fuel : Nat} (atr : ByteVector) {features : Features}
    (h : (pcsc w.service (connectCall ctx readerName)).1.result = scardSSuccess)
    (hmade : CardImpl.new pcsc fuel (connectedHandle pcsc ctx readerName w,
        (pcsc w.service (connectCall ctx readerName)).1.protocolOut)
        (w.after pcsc (connectCall ctx readerName)) =
      (.returned ⟨connectedHandle pcsc ctx readerName w,
        ⟨(pcsc w.service (connectCall ctx readerName)).1.protocolOut, 16⟩, features⟩,
        connectedWorld pcsc ctx readerName w)) :
    (∃ card protocol, card.cardHandle = connectedHandle pcsc ctx readerName w ∧
      new pcsc fuel ctx readerName atr w =
        (.returned ⟨some card, atr, protocol, false⟩, connectedWorld pcsc ctx readerName w)) ∨
    ∃ e, new pcsc fuel ctx readerName atr w =
      (.threw e, if (connectedHandle pcsc ctx readerName w).value = 0 then
          connectedWorld pcsc ctx readerName w
        else (connectedWorld pcsc ctx readerName w).after pcsc
          (.disconnect (connectedHandle pcsc ctx readerName w) scardLeaveCard)) := by
  rw [new_connected h, Action.bind_returned hmade]
  cases hprotocol : convertToSmartCardProtocol
      (pcsc w.service (connectCall ctx readerName)).1.protocolOut with
  | ok protocol => exact .inl ⟨⟨_, _, features⟩, protocol, rfl, rfl⟩
  | error e =>
    exact .inr ⟨e, Action.bind_threw (Action.bind_returned (CardImpl.destroy_apply _ _))⟩

theorem new_ends (pcsc : Service σ) (fuel : Nat) (ctx : ScardContext) (readerName : StringT)
    (atr : ByteVector) (w : World σ) :
    Ends pcsc ctx readerName w (new pcsc fuel ctx readerName atr w) := by
  by_cases h : (pcsc w.service (connectCall ctx readerName)).1.result = scardSSuccess
  · have hends := CardImpl.new_ends pcsc fuel (connectedHandle pcsc ctx readerName w,
      (pcsc w.service (connectCall ctx readerName)).1.protocolOut)
      (w.after pcsc (connectCall ctx readerName))
    generalize hrun : CardImpl.new pcsc fuel _ _ = r at hends
    cases hends with
    | made features =>
      rcases new_made_ends atr h hrun with ⟨card, protocol, hhandle, hnew⟩ | ⟨e, hnew⟩
      · rw [hnew]
        exact .connected card atr protocol h hhandle
      · rw [hnew]
        exact .unsupported e h
    | undefined =>
      rw [new_connected h, Action.bind_undefined hrun]
      exact .undefined
    | running =>
      rw [new_connected h, Action.bind_apply, hrun]
      exact .running
  · obtain ⟨e, he⟩ := new_refused fuel atr h
    rw [he]
    exact .refused e h

theorem new_completes {fuel : Nat} (hfeatures : AnswersFeatures pcsc) (hfuel : 256 ≤ fuel)
    (atr : ByteVector) : (new pcsc fuel ctx readerName atr w).1.Completes := by
  by_cases h : (pcsc w.service (connectCall ctx readerName)).1.result = scardSSuccess
  · obtain ⟨features, hmade⟩ := CardImpl.new_made hfeatures hfuel
      (connectedHandle pcsc ctx readerName w,
        (pcsc w.service (connectCall ctx readerName)).1.protocolOut)
      (w.after pcsc (connectCall ctx readerName))
    rcases new_made_ends atr h hmade with ⟨card, protocol, -, hnew⟩ | ⟨e, hnew⟩
    · rw [hnew]
      exact .returned _
    · rw [hnew]
      exact .threw e
  · obtain ⟨e, he⟩ := new_refused fuel atr h
    rw [he]
    exact .threw e

end New

end SmartCard

end PcscCpp

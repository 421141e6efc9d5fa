import PcscCpp.Laws.Transmit

namespace PcscCpp

open Effects

variable {σ : Type}

def Calls.StartsWith (call : Call) (S : Call → Prop) (w w' : World σ) : Prop :=
  ∃ reply rest, w'.trace = w.trace ++ ⟨call, reply⟩ :: rest ∧ ∀ e ∈ rest, S e.call

theorem Calls.StartsWith.of_calls {call : Call} {S : Call → Prop} (pcsc : Service σ)
    {w w' : World σ} (h : Calls S (w.after pcsc call) w') : StartsWith call S w w' := by
  obtain ⟨new, hnew, hS⟩ := h
  exact ⟨(pcsc w.service call).1, new, by simp [hnew], hS⟩

namespace Calls.StartsWith

variable {call call' : Call} {S S' : Call → Prop} {w w' : World σ}

theorem calls (h : StartsWith call S w w') (hcall : S call) : Calls S w w' := by
  obtain ⟨reply, rest, htrace, hS⟩ := h
  refine ⟨⟨call, reply⟩ :: rest, htrace, ?_⟩
  simpa using ⟨hcall, hS⟩

theorem unique (h : StartsWith call S w w') (h' : StartsWith call' S' w w') : call = call' := by
  obtain ⟨_, _, htrace, -⟩ := h
  obtain ⟨_, _, htrace', -⟩ := h'
  rw [htrace, List.append_cancel_left_eq, List.cons.injEq, Exchange.mk.injEq] at htrace'
  exact htrace'.1.1

theorem not_self : ¬ StartsWith call S w w := by
  rintro ⟨_, _, htrace, -⟩
  simp at htrace

end Calls.StartsWith

section StartsWith

variable {α β : Type} {call : Call} {S : Call → Prop}

theorem Calls.startsWith_bind {x : Program σ α} {f : α → Program σ β}
    (hx : Action.Within (StartsWith call S) x) (hf : ∀ a, Action.Within (Calls S) (f a)) :
    Action.Within (StartsWith call S) (x >>= f) := by
  intro w
  obtain ⟨reply, rest, htrace, hS⟩ := hx w
  rw [Action.bind_apply]
  revert htrace
  rcases x w with ⟨a | _ | _ | _, w₁⟩ <;> intro htrace
  · obtain ⟨new, hnew, hnewS⟩ := hf a w₁
    refine ⟨reply, rest ++ new, by rw [hnew, htrace]; simp, fun e he => ?_⟩
    exact (List.mem_append.mp he).elim (hS e) (hnewS e)
  all_goals exact ⟨reply, rest, htrace, hS⟩

theorem startsWith_scardCall {pcsc : Service σ} {callerFunctionName file : String} {line : Nat} :
    Action.Within (Calls.StartsWith call S)
      (scardCall pcsc callerFunctionName file line call) := by
  intro w
  refine .of_calls pcsc ?_
  by_cases h : (pcsc w.service call).1.result = scardSSuccess
  · rw [scardCall_success h]
    exact Extends.refl _
  · rw [scardCall_failure h]
    exact Extends.refl _

end StartsWith

namespace CardImpl

variable {card : CardImpl} {pcsc : Service σ} {S : Call → Prop}

theorem transmitBytesWith_startsWith {rest : ResponseApdu → Program σ ResponseApdu}
    (hrest : ∀ r, Action.Within (Calls S) (rest r)) (commandBytes : ByteVector) :
    Action.Within (Calls.StartsWith (card.transmitCall commandBytes) S)
      (transmitBytesWith pcsc card rest commandBytes) := by
  intro w
  by_cases ha : (pcsc w.service (card.transmitCall commandBytes)).1.Accepted
  · rw [transmitBytesWith_accepted ha]
    refine .of_calls pcsc ?_
    split_ifs
    · exact hrest _ _
    · exact Action.within_pure _ _
  · obtain ⟨e, he⟩ := @transmitBytesWith_rejected _ card pcsc rest _ w ha
    rw [he]
    exact .of_calls pcsc (Extends.refl _)

theorem getMoreResponseData_calls {transmitBytes : ByteVector → Program σ ResponseApdu}
    (h : ∀ commandBytes, Action.Within (Calls S) (transmitBytes commandBytes)) (fuel : Nat)
    (response : ResponseApdu) :
    Action.Within (Calls S) (getMoreResponseData transmitBytes fuel response) := by
  refine (Action.within_loop (fun _ => Action.within_pure _) (fun s => ?_) fuel _).bind
    fun s => Action.within_pure _
  exact (h _).bind fun r => Action.within_pure _

theorem transmitBytes_calls (h : ∀ commandBytes, S (card.transmitCall commandBytes))
    (fuel : Nat) (commandBytes : ByteVector) :
    Action.Within (Calls S) (transmitBytes pcsc card fuel commandBytes) := by
  induction fuel generalizing commandBytes with
  | zero =>
    exact (transmitBytesWith_startsWith (fun _ => Action.within_running) commandBytes).mono
      fun _ _ hw => hw.calls (h commandBytes)
  | succ fuel ih =>
    exact (transmitBytesWith_startsWith (getMoreResponseData_calls ih (fuel + 1))
      commandBytes).mono fun _ _ hw => hw.calls (h commandBytes)

theorem transmitBytes_startsWith (h : ∀ commandBytes, S (card.transmitCall commandBytes))
    (fuel : Nat) (commandBytes : ByteVector) :
    Action.Within (Calls.StartsWith (card.transmitCall commandBytes) S)
      (transmitBytes pcsc card fuel commandBytes) := by
  cases fuel with
  | zero => exact transmitBytesWith_startsWith (fun _ => Action.within_running) commandBytes
  | succ fuel =>
    exact transmitBytesWith_startsWith
      (getMoreResponseData_calls (transmitBytes_calls h fuel) (fuel + 1)) commandBytes

theorem transmitBytesCTL_calls
    (h : ∀ ioctl cmd responseLength, S (.control card.cardHandle ioctl cmd responseLength))
    (commandBytes : ByteVector) (lang : UInt16) (minlen : UInt8) :
    Action.Within (Calls S) (transmitBytesCTL pcsc card commandBytes lang minlen) := by
  refine (Action.within_ofExcept _).bind fun ioctl => ?_
  refine (calls_scardCall (h _ _ _)).bind fun reply => ?_
  split_ifs
  · refine (Action.within_ofExcept _).bind fun finish => ?_
    exact (calls_scardCall (h _ _ _)).bind fun reply => Action.within_ofExcept _
  · exact Action.within_ofExcept _

theorem transmitBytesCTL_startsWith
    (h : ∀ ioctl cmd responseLength, S (.control card.cardHandle ioctl cmd responseLength))
    (hpad : (card.features featureVerifyPinStart).isSome = true ∨
      (card.features featureVerifyPinDirect).isSome = true)
    (commandBytes : ByteVector) (lang : UInt16) (minlen : UInt8) :
    ∃ ioctl cmd responseLength,
      Action.Within (Calls.StartsWith (.control card.cardHandle ioctl cmd responseLength) S)
        (transmitBytesCTL pcsc card commandBytes lang minlen) := by
  obtain ⟨ioctl, hioctl⟩ : ∃ ioctl, card.featureAt (if (card.features featureVerifyPinStart).isSome
      then featureVerifyPinStart else featureVerifyPinDirect) = .ok ioctl := by
    by_cases hstart : (card.features featureVerifyPinStart).isSome = true
    · obtain ⟨code, hcode⟩ := Option.isSome_iff_exists.mp hstart
      exact ⟨code, by rw [if_pos hstart, featureAt, hcode]⟩
    · obtain ⟨code, hcode⟩ := Option.isSome_iff_exists.mp (hpad.resolve_left hstart)
      exact ⟨code, by rw [if_neg hstart, featureAt, hcode]⟩
  rw [transmitBytesCTL, hioctl, Action.ofExcept_ok, Action.pure_bind]
  refine ⟨_, _, _, Calls.startsWith_bind startsWith_scardCall fun reply => ?_⟩
  split_ifs
  · refine (Action.within_ofExcept _).bind fun finish => ?_
    exact (calls_scardCall (h _ _ _)).bind fun reply => Action.within_ofExcept _
  · exact Action.within_ofExcept _

theorem transmitBytesCTL_noPinPad {commandBytes : ByteVector} {lang : UInt16} {minlen : UInt8}
    {w : World σ}
    (h : ¬ ((card.features featureVerifyPinStart).isSome = true ∨
      (card.features featureVerifyPinDirect).isSome = true)) :
    transmitBytesCTL pcsc card commandBytes lang minlen w =
      (.threw ⟨.outOfRange, "map::at"⟩, w) := by
  obtain ⟨hstart, hdirect⟩ := not_or.mp h
  rw [Option.not_isSome_iff_eq_none] at hdirect
  rw [transmitBytesCTL, if_neg hstart, featureAt, hdirect]
  rfl

end CardImpl

namespace SmartCard

variable {s : SmartCard} {pcsc : Service σ} {S : Call → Prop}

theorem requireTransaction_calls {α : Type} {nullLine line : Nat} {func : String}
    {body : CardImpl → Program σ α} (h : ∀ card ∈ s.card, Action.Within (Calls S) (body card)) :
    Action.Within (Calls S) (s.requireTransaction nullLine line func body) := by
  rw [requireTransaction]
  cases hcard : s.card with
  | none => exact Action.within_throw _
  | some card =>
    simp only
    split_ifs
    · exact Action.within_throw _
    · exact h card hcard

theorem transmit_calls
    (h : ∀ card ∈ s.card, ∀ commandBytes, S (card.transmitCall commandBytes)) (fuel : Nat)
    (command : CommandApdu) : Action.Within (Calls S) (s.transmit pcsc fuel command) :=
  requireTransaction_calls fun card hcard => (Action.within_ofExcept _).bind fun commandBytes =>
    CardImpl.transmitBytes_calls (h card hcard) fuel commandBytes

theorem transmitCTL_calls (h : ∀ card ∈ s.card, ∀ ioctl cmd responseLength,
      S (.control card.cardHandle ioctl cmd responseLength))
    (command : CommandApdu) (lang : UInt16) (minlen : UInt8) :
    Action.Within (Calls S) (s.transmitCTL pcsc command lang minlen) :=
  requireTransaction_calls fun card hcard => (Action.within_ofExcept _).bind fun commandBytes =>
    CardImpl.transmitBytesCTL_calls (h card hcard) commandBytes lang minlen

theorem requireTransaction_refused {α : Type} (h : s.card = none ∨ s.transactionInProgress = false)
    (nullLine line : Nat) (func : String) (body : CardImpl → Program σ α) (w : World σ) :
    ∃ e, s.requireTransaction nullLine line func body w = (.threw e, w) := by
  rw [requireTransaction]
  cases hcard : s.card with
  | none => exact ⟨_, rfl⟩
  | some card => exact ⟨_, by simp [h.resolve_left (by simp [hcard])]; rfl⟩

theorem transmit_refused (pcsc : Service σ) (w : World σ)
    (h : s.card = none ∨ s.transactionInProgress = false) (fuel : Nat) (command : CommandApdu) :
    ∃ e, s.transmit pcsc fuel command w = (.threw e, w) :=
  requireTransaction_refused h _ _ _ _ w

theorem transmitCTL_refused (pcsc : Service σ) (w : World σ)
    (h : s.card = none ∨ s.transactionInProgress = false) (command : CommandApdu) (lang : UInt16)
    (minlen : UInt8) : ∃ e, s.transmitCTL pcsc command lang minlen w = (.threw e, w) :=
  requireTransaction_refused h _ _ _ _ w

end SmartCard

def Call.Keeps (ctx : ScardContext) (call : Call) : Prop :=
  (∀ cardHandle ∈ call.cardHandle?, cardHandle.context = ctx) ∧
    ∀ released, call ≠ .releaseContext released

def Call.NoRelease (call : Call) : Prop := ∀ released, call ≠ .releaseContext released

def Call.NoCard (call : Call) : Prop := call.cardHandle? = none

theorem Calls.mono {S S' : Call → Prop} {w w' : World σ} (hS : ∀ call, S call → S' call)
    (h : Calls S w w') : Calls S' w w' :=
  Extends.mono (fun _ he => hS _ he) h

theorem Calls.after {S : Call → Prop} {call : Call} (h : S call) (pcsc : Service σ) (w : World σ) :
    Calls S w (w.after pcsc call) := ⟨[_], rfl, by simpa using h⟩

theorem Calls.grown {S : Call → Prop} {w w' : World σ} (h : Calls S w w') :
    w.trace <+: w'.trace := by
  obtain ⟨new, htrace, -⟩ := h
  exact ⟨new, htrace.symm⟩

theorem Call.keeps_of_cardHandle {call : Call} {cardHandle : ScardHandle}
    (h : call.cardHandle? = some cardHandle) : call.Keeps cardHandle.context := by
  refine ⟨fun cardHandle' h' => ?_, fun released hreleased => ?_⟩
  · rw [h] at h'
    cases h'
    rfl
  · rw [hreleased] at h
    cases h

section Connect

variable {pcsc : Service σ} {α : Type}

theorem readFeatures_calls {S : Call → Prop} (feature : ByteVector) (size fuel : Nat) :
    Action.Within (Calls S) (CardImpl.readFeatures feature size fuel : Program σ Features) := by
  refine (Action.within_loop (fun _ => Action.within_pure _) (fun s => ?_) fuel _).bind
    fun _ => Action.within_pure _
  refine (Action.within_index _ _).bind fun tag => (Action.within_index _ _).bind fun len => ?_
  refine Action.Within.bind ?_ fun _ => Action.within_pure _
  refine Action.within_foldlM (fun t i => ?_) _ _
  refine (Action.within_index _ _).bind fun byte => ?_
  split_ifs
  · exact Action.within_pure _
  · exact Action.within_undefined

theorem CardImpl.destroy_apply (card : CardImpl) (w : World σ) :
    card.destroy pcsc w = (.returned (), if card.cardHandle.value = 0 then w
      else w.after pcsc (.disconnect card.cardHandle scardLeaveCard)) := by
  by_cases hvalue : card.cardHandle.value = 0
  · simp [CardImpl.destroy, hvalue]
  · simp only [CardImpl.destroy, ne_eq, hvalue, not_false_eq_true, ↓reduceIte]
    rfl

theorem CardImpl.destroy_calls {S : Call → Prop} (card : CardImpl)
    (h : S (.disconnect card.cardHandle scardLeaveCard)) :
    Action.Within (Calls S) (card.destroy pcsc) := by
  unfold CardImpl.destroy
  split_ifs
  · exact (calls_issue h).bind fun _ => Action.within_pure _
  · exact Action.within_pure _

theorem SmartCard.destroy_calls {S : Call → Prop} (s : SmartCard)
    (h : ∀ cardHandle, S (.disconnect cardHandle scardLeaveCard)) :
    Action.Within (Calls S) (s.destroy pcsc) := by
  unfold SmartCard.destroy
  split
  · exact CardImpl.destroy_calls _ (h _)
  · exact Action.within_pure _

theorem CardImpl.new_bind_calls {ctx : ScardContext} (fuel : Nat)
    (cardParams : ScardHandle × Dword) (hctx : cardParams.1.context = ctx)
    {f : CardImpl → Program σ α}
    (hf : ∀ card : CardImpl, card.cardHandle = cardParams.1 →
      Action.Within (Calls (Call.Keeps ctx)) (f card)) :
    Action.Within (Calls (Call.Keeps ctx)) (CardImpl.new pcsc fuel cardParams >>= f) := by
  rw [CardImpl.new]
  simp only [Action.bind_assoc, Action.pure_bind]
  refine Action.Within.bind (Action.Within.tryCatch ?_ fun e => ?_) fun features => hf _ rfl
  · refine (calls_scardCall (hctx ▸ Call.keeps_of_cardHandle rfl)).bind fun reply => ?_
    exact readFeatures_calls _ _ _
  · split_ifs
    · exact Action.within_pure _
    · exact Action.within_throw _

theorem SmartCard.new_calls (fuel : Nat) (ctx : ScardContext) (readerName : StringT)
    (atr : ByteVector) :
    Action.Within (Calls (Call.Keeps ctx)) (SmartCard.new pcsc fuel ctx readerName atr) := by
  rw [SmartCard.new, connectToCard]
  simp only [Action.bind_assoc, Action.pure_bind]
  refine (Action.within_read _).bind fun serial => ?_
  refine (calls_scardCall ⟨fun _ h => (by cases h), fun _ h => (by cases h)⟩).bind fun reply => ?_
  refine CardImpl.new_bind_calls fuel _ rfl fun card hcard => ?_
  refine Action.Within.bind (Action.Within.tryCatch (Action.within_ofExcept _) fun e => ?_)
    fun protocol => Action.within_pure _
  refine Action.Within.bind ?_ fun _ => Action.within_throw _
  have hctx : card.cardHandle.context = ctx := by rw [hcard]
  have hkeeps : Call.Keeps card.cardHandle.context (.disconnect card.cardHandle scardLeaveCard) :=
    Call.keeps_of_cardHandle rfl
  exact card.destroy_calls (hctx ▸ hkeeps)

end Connect

end PcscCpp

import PcscCpp.Effects.Runs
import PcscCpp.Laws.Calls
import PcscCpp.Laws.Exceptions
import PcscCpp.Model.Transaction
import Mathlib.Data.List.Perm.Basic

namespace PcscCpp

open Effects CardImpl

variable {σ : Type}

def Call.sends : Call → Bool
  | .transmit _ _ _ _ => true
  | .control _ _ _ _ => true
  | _ => false

namespace Exchange

def begins (e : Exchange) : Bool :=
  match e.call with
  | .beginTransaction _ => e.reply.result == scardSSuccess
  | _ => false

def ends (e : Exchange) : Bool :=
  match e.call with
  | .endTransaction _ _ => true
  | _ => false

theorem not_begins_of_sends {e : Exchange} (h : e.call.sends = true) : e.begins = false := by
  rcases e with ⟨_ | _, _⟩ <;> first | rfl | cases h

theorem not_ends_of_sends {e : Exchange} (h : e.call.sends = true) : e.ends = false := by
  rcases e with ⟨_ | _, _⟩ <;> first | rfl | cases h

end Exchange

namespace Session

variable {pcsc : Service σ} {fuel : Nat} {s : Session σ}

theorem onWorld_apply {α : Type} (x : Program σ α) (s : Session σ) :
    onWorld x s = ((x s.world).1, { s with world := (x s.world).2 }) := rfl

inductive Moves (pcsc : Service σ) (s : Session σ) : Operation → Session σ → Prop
  | refused {o : Operation} : Moves pcsc s o s
  | begun {card : CardImpl} (hcard : s.smartCard.card = some card)
      (success : (pcsc s.world.service (.beginTransaction card.cardHandle)).1.result =
        scardSSuccess) :
      Moves pcsc s .beginTransaction
        ⟨{ s.smartCard with transactionInProgress := true },
          s.guards ++ [⟨card, s.world.trace.length⟩], s.ended,
          s.world.after pcsc (.beginTransaction card.cardHandle)⟩
  | notBegun {card : CardImpl} (hcard : s.smartCard.card = some card)
      (failure : (pcsc s.world.service (.beginTransaction card.cardHandle)).1.result ≠
        scardSSuccess) :
      Moves pcsc s .beginTransaction
        { s with world := s.world.after pcsc (.beginTransaction card.cardHandle) }
  | ended {i : Nat} {guard : TransactionGuard} (hguard : s.guards[i]? = some guard) :
      Moves pcsc s (.destroyGuard i)
        ⟨{ s.smartCard with transactionInProgress := false }, s.guards.eraseIdx i,
          s.ended ++ [(guard.begun, s.world.trace.length)],
          s.world.after pcsc (.endTransaction guard.card.cardHandle scardLeaveCard)⟩
  | sent {o : Operation} {w' : World σ} (inProgress : s.smartCard.transactionInProgress = true)
      (sends : Calls (fun call => call.sends = true ∧
        ∃ card, s.smartCard.card = some card ∧ call.cardHandle? = some card.cardHandle)
        s.world w') :
      Moves pcsc s o { s with world := w' }

section Begin

variable {card : CardImpl} (hcard : s.smartCard.card = some card)

include hcard

theorem beginTransaction_eq (pcsc : Service σ) :
    beginTransaction pcsc s = TransactionGuard.new pcsc card s := by
  rw [beginTransaction, Action.bind_returned (Action.read_apply _ _), hcard]

theorem step_begun
    (h : (pcsc s.world.service (.beginTransaction card.cardHandle)).1.result = scardSSuccess) :
    step pcsc fuel .beginTransaction s = (.returned (),
      ⟨{ s.smartCard with transactionInProgress := true },
        s.guards ++ [⟨card, s.world.trace.length⟩], s.ended,
        s.world.after pcsc (.beginTransaction card.cardHandle)⟩) := by
  have hcall : CardImpl.beginTransaction pcsc card s.world =
      (.returned (), s.world.after pcsc (.beginTransaction card.cardHandle)) := by
    rw [CardImpl.beginTransaction, Action.bind_returned (scardCall_success h), Action.pure_apply]
  have hnew : beginTransaction pcsc s = (.returned ⟨card, s.world.trace.length⟩,
      ⟨{ s.smartCard with transactionInProgress := true }, s.guards, s.ended,
        s.world.after pcsc (.beginTransaction card.cardHandle)⟩) := by
    rw [beginTransaction_eq hcard, TransactionGuard.new,
      Action.bind_returned (Action.read_apply _ _), Action.bind_returned (by
        rw [onWorld_apply, hcall])]
    rfl
  rw [step, Action.bind_returned hnew]
  rfl

theorem step_notBegun
    (h : (pcsc s.world.service (.beginTransaction card.cardHandle)).1.result ≠ scardSSuccess) :
    ∃ e, step pcsc fuel .beginTransaction s =
      (.threw e, { s with world := s.world.after pcsc (.beginTransaction card.cardHandle) }) := by
  have hcall : ∃ e, CardImpl.beginTransaction pcsc card s.world =
      (.threw e, s.world.after pcsc (.beginTransaction card.cardHandle)) :=
    ⟨_, by rw [CardImpl.beginTransaction, Action.bind_threw (scardCall_failure h)]⟩
  obtain ⟨e, hcall⟩ := hcall
  have hnew : beginTransaction pcsc s =
      (.threw e, { s with world := s.world.after pcsc (.beginTransaction card.cardHandle) }) := by
    rw [beginTransaction_eq hcard, TransactionGuard.new,
      Action.bind_returned (Action.read_apply _ _), Action.bind_threw (by
        rw [onWorld_apply, hcall])]
  exact ⟨e, by rw [step, Action.bind_threw hnew]⟩

end Begin

theorem step_noCard (hcard : s.smartCard.card = none) :
    ∃ e, step pcsc fuel .beginTransaction s = (.threw e, s) := by
  have hnew : beginTransaction pcsc s =
      (.threw (requireNonNull "card" "src/SmartCard.cpp" 274 "beginTransaction"), s) := by
    rw [beginTransaction, Action.bind_returned (Action.read_apply _ _), hcard]
    rfl
  exact ⟨_, by rw [step, Action.bind_threw hnew]⟩

theorem beginTransaction_threw {e : Exception} {s' : Session σ}
    (h : step pcsc fuel .beginTransaction s = (.threw e, s')) :
    s'.smartCard = s.smartCard ∧ s'.guards = s.guards ∧ s'.ended = s.ended := by
  cases hcard : s.smartCard.card with
  | none =>
    obtain ⟨e', he'⟩ := @step_noCard _ pcsc fuel s hcard
    rw [he'] at h
    cases h
    exact ⟨rfl, rfl, rfl⟩
  | some card =>
    by_cases hok : (pcsc s.world.service (.beginTransaction card.cardHandle)).1.result =
        scardSSuccess
    · rw [step_begun hcard hok] at h
      cases h
    · obtain ⟨e', he'⟩ := @step_notBegun _ pcsc fuel s card hcard hok
      rw [he'] at h
      cases h
      exact ⟨rfl, rfl, rfl⟩

theorem destroy_apply (guard : TransactionGuard) :
    guard.destroy pcsc s = (.returned (),
      { s with
        smartCard := { s.smartCard with transactionInProgress := false }
        world := s.world.after pcsc (.endTransaction guard.card.cardHandle scardLeaveCard) }) := by
  rw [TransactionGuard.destroy, setInProgress, Action.bind_returned (Action.modify_apply _ _),
    Action.tryCatch_apply, onWorld_apply]
  by_cases h : (pcsc s.world.service
      (.endTransaction guard.card.cardHandle scardLeaveCard)).1.result = scardSSuccess
  · rw [CardImpl.endTransaction, Action.bind_returned (scardCall_success h)]
    rfl
  · rw [CardImpl.endTransaction, Action.bind_threw (scardCall_failure h)]
    rfl

theorem step_ended {i : Nat} {guard : TransactionGuard} (hguard : s.guards[i]? = some guard) :
    step pcsc fuel (.destroyGuard i) s = (.returned (),
      ⟨{ s.smartCard with transactionInProgress := false }, s.guards.eraseIdx i,
        s.ended ++ [(guard.begun, s.world.trace.length)],
        s.world.after pcsc (.endTransaction guard.card.cardHandle scardLeaveCard)⟩) := by
  obtain ⟨hi, rfl⟩ := List.getElem?_eq_some_iff.mp hguard
  rw [step, Action.bind_returned (Action.read_apply _ _), Action.index_of_lt hi, Action.pure_bind,
    Action.bind_returned (Action.read_apply _ _), Action.bind_returned (destroy_apply _)]
  rfl

theorem step_noGuard {i : Nat} (hguard : s.guards[i]? = none) :
    step pcsc fuel (.destroyGuard i) s = (.undefined, s) := by
  rw [step, Action.bind_returned (Action.read_apply _ _),
    Action.index_of_le (List.getElem?_eq_none_iff.mp hguard)]
  rfl

section Send

variable {α : Type} (x : SmartCard → Program σ α)

theorem send_apply :
    ((do
      let smartCard ← Action.read (·.smartCard)
      let _ ← onWorld (x smartCard) : Action Exception (Session σ) Unit) s).2 =
      { s with world := (x s.smartCard s.world).2 } := by
  rw [Action.bind_returned (Action.read_apply _ _), Action.bind_apply, onWorld_apply]
  rcases x s.smartCard s.world with ⟨_ | _ | _ | _, w'⟩ <;> rfl

theorem send_threw {e : Exception} (h : x s.smartCard s.world = (.threw e, s.world)) :
    (do
      let smartCard ← Action.read (·.smartCard)
      let _ ← onWorld (x smartCard) : Action Exception (Session σ) Unit) s = (.threw e, s) := by
  rw [Action.bind_returned (Action.read_apply _ _), Action.bind_apply, onWorld_apply, h]

theorem threw_of_send {e : Exception} {s' : Session σ}
    (h : (do
      let smartCard ← Action.read (·.smartCard)
      let _ ← onWorld (x smartCard) : Action Exception (Session σ) Unit) s = (.threw e, s')) :
    ∃ w', x s.smartCard s.world = (.threw e, w') := by
  rw [Action.bind_returned (Action.read_apply _ _), Action.bind_apply, onWorld_apply] at h
  rcases hrun : x s.smartCard s.world with ⟨_ | e' | _ | _, w'⟩ <;> rw [hrun] at h <;> cases h
  exact ⟨w', rfl⟩

theorem send_completes_iff :
    ((do
      let smartCard ← Action.read (·.smartCard)
      let _ ← onWorld (x smartCard) : Action Exception (Session σ) Unit) s).1.Completes ↔
      (x s.smartCard s.world).1.Completes := by
  rw [Action.bind_returned (Action.read_apply _ _), Action.bind_apply, onWorld_apply]
  rcases x s.smartCard s.world with ⟨a | e | _ | _, w'⟩
  · exact iff_of_true (.returned ()) (.returned a)
  · exact iff_of_true (.threw e) (.threw e)
  · exact iff_of_false (fun h => by cases h) fun h => by cases h
  · exact iff_of_false (fun h => by cases h) fun h => by cases h

end Send

theorem Moves.of_send {α : Type} {o : Operation} {x : SmartCard → Program σ α}
    (hrefused : s.smartCard.transactionInProgress = false →
      ∃ e, x s.smartCard s.world = (.threw e, s.world))
    (hcalls : Calls (fun call => call.sends = true ∧
      ∃ card, s.smartCard.card = some card ∧ call.cardHandle? = some card.cardHandle)
      s.world (x s.smartCard s.world).2) :
    Moves pcsc s o { s with world := (x s.smartCard s.world).2 } := by
  cases hopen : s.smartCard.transactionInProgress with
  | false =>
    obtain ⟨e, he⟩ := hrefused hopen
    rw [he]
    exact .refused
  | true => exact .sent hopen hcalls

theorem step_moves (o : Operation) : Moves pcsc s o (step pcsc fuel o s).2 := by
  cases o with
  | beginTransaction =>
    cases hcard : s.smartCard.card with
    | none =>
      obtain ⟨e, he⟩ := @step_noCard _ pcsc fuel s hcard
      rw [he]
      exact .refused
    | some card =>
      by_cases h : (pcsc s.world.service (.beginTransaction card.cardHandle)).1.result =
          scardSSuccess
      · rw [step_begun hcard h]
        exact .begun hcard h
      · obtain ⟨e, he⟩ := @step_notBegun _ pcsc fuel s card hcard h
        rw [he]
        exact .notBegun hcard h
  | destroyGuard i =>
    cases hguard : s.guards[i]? with
    | none =>
      rw [step_noGuard hguard]
      exact .refused
    | some guard =>
      rw [step_ended hguard]
      exact .ended hguard
  | transmit command =>
    rw [step, send_apply]
    exact .of_send (x := fun smartCard => smartCard.transmit pcsc fuel command)
      (fun hopen => SmartCard.transmit_refused pcsc s.world (.inr hopen) fuel command)
      (SmartCard.transmit_calls (fun card hcard _ => ⟨rfl, card, hcard, rfl⟩) fuel command s.world)
  | transmitCTL command lang minlen =>
    rw [step, send_apply]
    exact .of_send (x := fun smartCard => smartCard.transmitCTL pcsc command lang minlen)
      (fun hopen => SmartCard.transmitCTL_refused pcsc s.world (.inr hopen) command lang minlen)
      (SmartCard.transmitCTL_calls (fun card hcard _ _ _ => ⟨rfl, card, hcard, rfl⟩) command lang
        minlen s.world)

/-- The operation makes a call on the card, as far as the state before it decides. -/
def Issues (s : Session σ) (card : CardImpl) : Operation → Prop
  | .beginTransaction => True
  | .destroyGuard i => i < s.guards.length
  | .transmit command => s.smartCard.transactionInProgress = true ∧ command.Encodes
  | .transmitCTL command _ _ =>
    s.smartCard.transactionInProgress = true ∧ command.Encodes ∧
      ((card.features featureVerifyPinStart).isSome = true ∨
        (card.features featureVerifyPinDirect).isSome = true)

section Issues

variable {card : CardImpl} {o : Operation}

theorem step_issues (hcard : s.smartCard.card = some card)
    (hguards : ∀ guard ∈ s.guards, s.smartCard.card = some guard.card) (h : s.Issues card o) :
    ∃ call, call.cardHandle? = some card.cardHandle ∧
      Calls.StartsWith call (fun call => call.cardHandle? = some card.cardHandle) s.world
        (step pcsc fuel o s).2.world := by
  cases o with
  | beginTransaction =>
    refine ⟨.beginTransaction card.cardHandle, rfl, .of_calls pcsc ?_⟩
    by_cases hok : (pcsc s.world.service (.beginTransaction card.cardHandle)).1.result =
        scardSSuccess
    · rw [step_begun hcard hok]
      exact Extends.refl _
    · obtain ⟨e, he⟩ := @step_notBegun _ pcsc fuel s card hcard hok
      rw [he]
      exact Extends.refl _
  | destroyGuard i =>
    have hi : i < s.guards.length := h
    have hguard : s.guards[i]? = some s.guards[i] := List.getElem?_eq_getElem hi
    have heq := hguards _ (List.mem_of_getElem? hguard)
    rw [hcard, Option.some.injEq] at heq
    rw [step_ended hguard, heq]
    exact ⟨.endTransaction _ scardLeaveCard, rfl, .of_calls pcsc (Extends.refl _)⟩
  | transmit command =>
    obtain ⟨hopen, hencodes⟩ := h
    rw [step, send_apply, SmartCard.transmit_encoded ⟨hcard, hopen⟩
      (CommandApdu.toBytes_of_encodes hencodes)]
    exact ⟨_, rfl, transmitBytes_startsWith (fun _ => rfl) fuel _ s.world⟩
  | transmitCTL command lang minlen =>
    obtain ⟨hopen, hencodes, hpad⟩ := h
    obtain ⟨ioctl, cmd, n, hstart⟩ := @transmitBytesCTL_startsWith _ card pcsc
      (fun call => call.cardHandle? = some card.cardHandle) (fun _ _ _ => rfl) hpad
      (command.shortApdu hencodes).bytes lang minlen
    rw [step, send_apply, SmartCard.transmitCTL_encoded ⟨hcard, hopen⟩
      (CommandApdu.toBytes_of_encodes hencodes)]
    exact ⟨_, rfl, hstart s.world⟩

theorem step_not_issues (hcard : s.smartCard.card = some card) (h : ¬ s.Issues card o) :
    (step pcsc fuel o s).2.world = s.world := by
  cases o with
  | beginTransaction => exact absurd trivial h
  | destroyGuard i =>
    have hguard : s.guards[i]? = none := List.getElem?_eq_none_iff.mpr (Nat.not_lt.mp h)
    rw [step_noGuard hguard]
  | transmit command =>
    rw [step, send_apply]
    cases hopen : s.smartCard.transactionInProgress with
    | false =>
      obtain ⟨e, he⟩ := SmartCard.transmit_refused pcsc s.world (.inr hopen) fuel command
      rw [he]
    | true =>
      obtain ⟨e, he⟩ := CommandApdu.toBytes_of_not_encodes fun henc => h ⟨hopen, henc⟩
      rw [SmartCard.transmit_eq ⟨hcard, hopen⟩, he]
      rfl
  | transmitCTL command lang minlen =>
    rw [step, send_apply]
    cases hopen : s.smartCard.transactionInProgress with
    | false =>
      obtain ⟨e, he⟩ := SmartCard.transmitCTL_refused pcsc s.world (.inr hopen) command lang minlen
      rw [he]
    | true =>
      rw [SmartCard.transmitCTL_eq ⟨hcard, hopen⟩]
      by_cases henc : command.Encodes
      · have hpad : ¬ ((card.features featureVerifyPinStart).isSome = true ∨
            (card.features featureVerifyPinDirect).isSome = true) :=
          fun hpad => h ⟨hopen, henc, hpad⟩
        rw [CommandApdu.toBytes_of_encodes henc, Action.ofExcept_ok, Action.pure_bind,
          transmitBytesCTL_noPinPad hpad]
      · obtain ⟨e, he⟩ := CommandApdu.toBytes_of_not_encodes henc
        rw [he]
        rfl

end Issues

/-- The calls made since the trace `t` match the guards: the successful begins are those of
the guards destroyed and alive, the ends those of the guards destroyed, and commands are
sent only in between. -/
structure Balanced (t : List Exchange) (s : Session σ) (new : List Exchange) : Prop where
  trace : s.world.trace = t ++ new
  cards : ∀ guard ∈ s.guards, s.smartCard.card = some guard.card
  inProgress : s.smartCard.transactionInProgress = true → s.guards ≠ []
  sends : EachAfter (fun pre e => e.call.sends = true →
    pre.countP Exchange.ends < pre.countP Exchange.begins) new
  begins : (positions Exchange.begins t.length new).Perm
    (s.ended.map (·.1) ++ s.guards.map (·.begun))
  ends : positions Exchange.ends t.length new = s.ended.map (·.2)

namespace Balanced

variable {t new : List Exchange} {card : CardImpl}

theorem start (card : Option CardImpl) (atr : ByteVector) (protocol : Protocol) (w : World σ) :
    Balanced w.trace (Session.start card atr protocol w) [] where
  trace := by simp [Session.start]
  cards := by simp [Session.start]
  inProgress h := by simp [Session.start] at h
  sends := eachAfter_nil _
  begins := .refl _
  ends := rfl

theorem countP_ends (h : Balanced t s new) : new.countP Exchange.ends = s.ended.length := by
  rw [← length_positions t.length, h.ends, List.length_map]

theorem countP_begins (h : Balanced t s new) :
    new.countP Exchange.begins = s.ended.length + s.guards.length := by
  rw [← length_positions t.length, h.begins.length_eq, List.length_append, List.length_map,
    List.length_map]

theorem sends_concat (h : Balanced t s new) {e : Exchange} (he : e.call.sends = false) :
    EachAfter (fun pre e => e.call.sends = true →
      pre.countP Exchange.ends < pre.countP Exchange.begins) (new ++ [e]) :=
  eachAfter_append.mpr ⟨h.sends, eachAfter_singleton.mpr fun hsends => by simp [he] at hsends⟩

theorem begun (h : Balanced t s new) (hcard : s.smartCard.card = some card)
    (hok : (pcsc s.world.service (.beginTransaction card.cardHandle)).1.result = scardSSuccess) :
    Balanced t ⟨{ s.smartCard with transactionInProgress := true },
        s.guards ++ [⟨card, s.world.trace.length⟩], s.ended,
        s.world.after pcsc (.beginTransaction card.cardHandle)⟩
      (new ++ [⟨.beginTransaction card.cardHandle,
        (pcsc s.world.service (.beginTransaction card.cardHandle)).1⟩]) where
  trace := by simp [h.trace]
  cards guard hguard := by
    rcases List.mem_append.mp hguard with hguard | hguard
    · exact h.cards guard hguard
    · rw [List.mem_singleton.mp hguard]
      exact hcard
  inProgress _ := by simp
  sends := h.sends_concat rfl
  begins := by
    rw [positions_append, List.map_append, ← List.append_assoc, h.trace, List.length_append]
    refine h.begins.append ?_
    simp [positions, Exchange.begins, hok]
  ends := by simp [positions_append, h.ends, positions, Exchange.ends]

theorem notBegun (h : Balanced t s new)
    (hfail : (pcsc s.world.service (.beginTransaction card.cardHandle)).1.result ≠ scardSSuccess) :
    Balanced t { s with world := s.world.after pcsc (.beginTransaction card.cardHandle) }
      (new ++ [⟨.beginTransaction card.cardHandle,
        (pcsc s.world.service (.beginTransaction card.cardHandle)).1⟩]) where
  trace := by simp [h.trace]
  cards := h.cards
  inProgress := h.inProgress
  sends := h.sends_concat rfl
  begins := by
    rw [positions_append]
    simpa [positions, Exchange.begins, hfail] using h.begins
  ends := by simp [positions_append, h.ends, positions, Exchange.ends]

theorem ended (h : Balanced t s new) {i : Nat} {guard : TransactionGuard}
    (hguard : s.guards[i]? = some guard) :
    Balanced t ⟨{ s.smartCard with transactionInProgress := false }, s.guards.eraseIdx i,
        s.ended ++ [(guard.begun, s.world.trace.length)],
        s.world.after pcsc (.endTransaction guard.card.cardHandle scardLeaveCard)⟩
      (new ++ [⟨.endTransaction guard.card.cardHandle scardLeaveCard,
        (pcsc s.world.service (.endTransaction guard.card.cardHandle scardLeaveCard)).1⟩]) where
  trace := by simp [h.trace]
  cards guard' hguard' := h.cards guard' (List.mem_of_mem_eraseIdx hguard')
  inProgress hopen := by simp at hopen
  sends := h.sends_concat rfl
  begins := by
    obtain ⟨hi, rfl⟩ := List.getElem?_eq_some_iff.mp hguard
    have hsplit := (List.getElem_cons_eraseIdx_perm hi).symm.map TransactionGuard.begun
    rw [positions_append]
    simp only [positions, Exchange.begins, Bool.false_eq_true, ↓reduceIte, List.append_nil,
      List.map_append, List.map_singleton, List.append_assoc, List.singleton_append]
    exact h.begins.trans (hsplit.append_left _)
  ends := by
    rw [positions_append, h.ends, List.map_append, h.trace, List.length_append]
    simp [positions, Exchange.ends]

theorem sent (h : Balanced t s new) {w' : World σ} {rest : List Exchange}
    (hopen : s.smartCard.transactionInProgress = true) (htrace : w'.trace = s.world.trace ++ rest)
    (hrest : ∀ e ∈ rest, e.call.sends = true) :
    Balanced t { s with world := w' } (new ++ rest) where
  trace := by simp [htrace, h.trace]
  cards := h.cards
  inProgress := h.inProgress
  sends := by
    refine h.sends.append_of fun pre e post hpre _ => ?_
    have hpre' : ∀ x ∈ pre, x.call.sends = true := fun x hx =>
      hrest x (by rw [hpre]; exact List.mem_append_left _ hx)
    have hbegins : pre.countP Exchange.begins = 0 :=
      List.countP_eq_zero.mpr fun x hx => by simp [Exchange.not_begins_of_sends (hpre' x hx)]
    have hends : pre.countP Exchange.ends = 0 :=
      List.countP_eq_zero.mpr fun x hx => by simp [Exchange.not_ends_of_sends (hpre' x hx)]
    have hlive := List.length_pos_iff.mpr (h.inProgress hopen)
    rw [List.countP_append, List.countP_append, h.countP_begins, h.countP_ends, hbegins, hends]
    omega
  begins := by
    rw [positions_append, positions_eq_nil _ fun e he =>
      Exchange.not_begins_of_sends (hrest e he), List.append_nil]
    exact h.begins
  ends := by
    rw [positions_append, positions_eq_nil _ fun e he =>
      Exchange.not_ends_of_sends (hrest e he), List.append_nil]
    exact h.ends

end Balanced

theorem step_balanced {t : List Exchange} (o : Operation) (s : Session σ)
    (h : ∃ new, Balanced t s new) : ∃ new, Balanced t (step pcsc fuel o s).2 new := by
  obtain ⟨new, h⟩ := h
  have hmoves := @step_moves _ pcsc fuel s o
  generalize (step pcsc fuel o s).2 = s' at hmoves
  cases hmoves with
  | refused => exact ⟨new, h⟩
  | begun hcard success => exact ⟨_, h.begun hcard success⟩
  | notBegun hcard failure => exact ⟨_, h.notBegun failure⟩
  | ended hguard => exact ⟨_, h.ended hguard⟩
  | sent hopen sends =>
    obtain ⟨rest, htrace, hrest⟩ := sends
    exact ⟨_, h.sent hopen htrace fun e he => (hrest e he).1⟩

theorem states_balanced (card : Option CardImpl) (atr : ByteVector) (protocol : Protocol)
    (pcsc : Service σ) (fuel : Nat) (w : World σ) (os : List Operation) :
    ∀ s ∈ states (step pcsc fuel) os (start card atr protocol w), ∃ new, Balanced w.trace s new :=
  states_invariant step_balanced ⟨[], Balanced.start card atr protocol w⟩

/-- Begins, ends and commands match in every run on one card. -/
theorem transactions_matched (card : Option CardImpl) (atr : ByteVector) (protocol : Protocol)
    (pcsc : Service σ) (fuel : Nat) (w : World σ) (os : List Operation) :
    ∀ s ∈ states (step pcsc fuel) os (start card atr protocol w),
      (∃ new, s.world.trace = w.trace ++ new ∧
        EachAfter (fun pre e => e.call.sends = true →
          pre.countP Exchange.ends < pre.countP Exchange.begins) new ∧
        new.countP Exchange.begins = new.countP Exchange.ends + s.guards.length ∧
        (positions Exchange.begins w.trace.length new).Perm
          (s.ended.map (·.1) ++ s.guards.map (·.begun)) ∧
        positions Exchange.ends w.trace.length new = s.ended.map (·.2)) ∧
      (∀ i guard, s.guards[i]? = some guard → ∃ reply s',
        step pcsc fuel (.destroyGuard i) s = (.returned (), s') ∧
        s.smartCard.card = some guard.card ∧
        s'.world.trace = s.world.trace ++
          [⟨.endTransaction guard.card.cardHandle scardLeaveCard, reply⟩] ∧
        s'.guards = s.guards.eraseIdx i ∧
        s'.ended = s.ended ++ [(guard.begun, s.world.trace.length)]) ∧
      (∀ e s', step pcsc fuel .beginTransaction s = (.threw e, s') →
        s'.smartCard = s.smartCard ∧ s'.guards = s.guards ∧ s'.ended = s.ended) ∧
      (s.smartCard.transactionInProgress = false →
        (∀ command, ∃ e, step pcsc fuel (.transmit command) s = (.threw e, s)) ∧
        ∀ command lang minlen, ∃ e,
          step pcsc fuel (.transmitCTL command lang minlen) s = (.threw e, s)) := by
  intro s hs
  obtain ⟨new, h⟩ := states_balanced card atr protocol pcsc fuel w os s hs
  refine ⟨⟨new, h.trace, h.sends, by rw [h.countP_begins, h.countP_ends], h.begins, h.ends⟩,
    fun i guard hguard => ?_, fun e s' hrun => beginTransaction_threw hrun,
    fun hclosed => ⟨fun command => ?_, fun command lang minlen => ?_⟩⟩
  · exact ⟨_, _, step_ended hguard, h.cards guard (List.mem_of_getElem? hguard), rfl, rfl, rfl⟩
  · obtain ⟨e, he⟩ := SmartCard.transmit_refused pcsc s.world (.inr hclosed) fuel command
    exact ⟨e, by rw [step, send_threw _ he]⟩
  · obtain ⟨e, he⟩ := SmartCard.transmitCTL_refused pcsc s.world (.inr hclosed) command lang minlen
    exact ⟨e, by rw [step, send_threw _ he]⟩

theorem transactions_matched_nested :
    ∃ s ∈ states (step (answering fun _ => .done) 0)
        [.beginTransaction, .beginTransaction, .destroyGuard 1]
        (start (some cardOne) [] .t1 ⟨0, []⟩),
      s.ended = [(1, 2)] ∧
        s.world.trace.countP Exchange.begins = s.world.trace.countP Exchange.ends + 1 := by
  refine ⟨_, List.mem_cons_of_mem _ (List.mem_cons_of_mem _ (List.mem_cons_of_mem _
    List.mem_cons_self)), rfl, ?_⟩
  obtain ⟨⟨new, htrace, -, hcount, -⟩, -⟩ := transactions_matched (some cardOne) [] .t1
    (answering fun _ => .done) 0 ⟨0, []⟩ [.beginTransaction, .beginTransaction, .destroyGuard 1] _
    (List.mem_cons_of_mem _ (List.mem_cons_of_mem _ (List.mem_cons_of_mem _ List.mem_cons_self)))
  rw [htrace]
  exact hcount

def outsideTransaction (line : Nat) (func : String) : Exception :=
  throwWithCallerInfo .logicError "Call SmartCard::transmit() inside a transaction"
    "src/SmartCard.cpp" line func

def Admits (pcsc : Service σ) (fuel : Nat) (s : Session σ) : Prop :=
  (∀ command e s', step pcsc fuel (.transmit command) s = (.threw e, s') →
    e ≠ outsideTransaction 287 "transmit") ∧
  ∀ command lang minlen e s', step pcsc fuel (.transmitCTL command lang minlen) s = (.threw e, s') →
    e ≠ outsideTransaction 297 "transmitCTL"

theorem admits_of_inTransaction {card : CardImpl} (hs : s.smartCard.InTransaction card) :
    Admits pcsc fuel s := by
  constructor
  · intro command e s' hrun
    obtain ⟨w', hw'⟩ := threw_of_send (fun smartCard => smartCard.transmit pcsc fuel command) hrun
    rintro rfl
    exact SmartCard.transmit_throws hs fuel command _ _ _ hw' rfl
  · intro command lang minlen e s' hrun
    obtain ⟨w', hw'⟩ :=
      threw_of_send (fun smartCard => smartCard.transmitCTL pcsc command lang minlen) hrun
    rintro rfl
    exact SmartCard.transmitCTL_throws hs command lang minlen _ _ _ hw' rfl

theorem inProgress_of_sole {os : List Operation} {s₀ : Session σ}
    (hsole : ∀ p ∈ steps (step pcsc fuel) os s₀, ∀ i guard, p.1 = .destroyGuard i →
      p.2.guards[i]? = some guard → p.2.guards = [guard])
    (hs₀ : s₀.guards ≠ [] → s₀.smartCard.transactionInProgress = true) :
    ∀ s ∈ states (step pcsc fuel) os s₀, s.guards ≠ [] →
      s.smartCard.transactionInProgress = true := by
  refine states_invariant_of_steps (I := fun s => s.guards ≠ [] →
    s.smartCard.transactionInProgress = true) (fun o s hs hC => ?_) hsole hs₀
  have hmoves := @step_moves _ pcsc fuel s o
  generalize (step pcsc fuel o s).2 = s' at hmoves
  cases hmoves with
  | refused => exact hs
  | begun => exact fun _ => rfl
  | notBegun => exact hs
  | @ended i guard hguard =>
    have hsole := hC i guard rfl hguard
    obtain rfl : i = 0 := by
      have hlt := (List.getElem?_eq_some_iff.mp hguard).1
      rw [hsole] at hlt
      simpa using hlt
    intro hne
    rw [hsole] at hne
    exact absurd rfl hne
  | sent inProgress _ => exact fun _ => inProgress

/-- While a guard is alive the flag is set and commands are admitted, in every state of a
run, exactly when no guard of the run is destroyed before all the others are. -/
theorem inProgress_iff (card : Option CardImpl) (atr : ByteVector) (protocol : Protocol)
    (pcsc : Service σ) (fuel : Nat) (w : World σ) (os : List Operation) :
    (∀ s ∈ states (step pcsc fuel) os (start card atr protocol w),
      s.guards ≠ [] → s.smartCard.transactionInProgress = true ∧ Admits pcsc fuel s) ↔
    ∀ p ∈ steps (step pcsc fuel) os (start card atr protocol w), ∀ i guard,
      p.1 = .destroyGuard i → p.2.guards[i]? = some guard → p.2.guards = [guard] := by
  constructor
  · rintro h ⟨o, s⟩ hp i guard rfl hguard
    have hafter := h _ (after_mem_states hp)
    rw [step_ended hguard] at hafter
    have hempty : s.guards.eraseIdx i = [] := by
      by_contra hne
      cases (hafter hne).1
    obtain ⟨hi, rfl⟩ := List.getElem?_eq_some_iff.mp hguard
    have hperm := List.getElem_cons_eraseIdx_perm hi
    rw [hempty] at hperm
    exact List.perm_singleton.mp hperm.symm
  · intro h s hs hne
    obtain ⟨new, hbalanced⟩ := states_balanced card atr protocol pcsc fuel w os s hs
    obtain ⟨guard, hguard⟩ := List.exists_mem_of_ne_nil _ hne
    have hopen := inProgress_of_sole h (by simp [start]) s hs hne
    exact ⟨hopen, admits_of_inTransaction ⟨hbalanced.cards guard hguard, hopen⟩⟩

theorem nested_guard_clears_flag :
    ∃ s ∈ states (step (answering fun _ => .done) 0)
        [.beginTransaction, .beginTransaction, .destroyGuard 1]
        (start (some cardOne) [] .t1 ⟨0, []⟩),
      s.guards ≠ [] ∧ s.smartCard.transactionInProgress = false ∧
      (step (answering fun _ => .done) 0 (.transmit selectCommand) s).1 =
        .threw (outsideTransaction 287 "transmit") := by
  refine ⟨_, List.mem_cons_of_mem _ (List.mem_cons_of_mem _ (List.mem_cons_of_mem _
    List.mem_cons_self)), ?_, rfl, rfl⟩
  exact List.cons_ne_nil _ _

end Session

end PcscCpp

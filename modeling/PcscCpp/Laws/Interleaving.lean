import PcscCpp.Laws.Discipline
import PcscCpp.Laws.Handles

namespace PcscCpp

open Effects

variable {σ : Type}

/-- What a call means for the transactions of its card handle: one is opened by a successful
`SCardBeginTransaction` and closed by `SCardEndTransaction`, whatever that returns, and commands
are sent inside of one. -/
def Exchange.bracket (e : Exchange) : Bracket ScardHandle :=
  match e.call with
  | .beginTransaction cardHandle =>
    if e.reply.result = scardSSuccess then .opens cardHandle else .neutral
  | .endTransaction cardHandle _ => .closes cardHandle
  | .transmit cardHandle _ _ _ => .inside cardHandle
  | .control cardHandle ioctl cmd responseLength =>
    if .control cardHandle ioctl cmd responseLength = CardImpl.featureRequest cardHandle then
      .neutral
    else .inside cardHandle
  | _ => .neutral

def DisconnectedOutside (trace : List Exchange) : Prop :=
  EachAfter (fun pre e => ∀ cardHandle ∈ cardLedger.closes e,
    depthAfter Exchange.bracket pre cardHandle = 0) trace

def Call.Neutral (call : Call) : Prop := ∀ reply, Exchange.bracket ⟨call, reply⟩ = .neutral

theorem Call.neutral_of_noCard {call : Call} (h : call.NoCard) : call.Neutral := by
  cases call <;> first | exact fun _ => rfl | cases h

theorem CardImpl.featureRequest_neutral (cardHandle : ScardHandle) :
    (featureRequest cardHandle).Neutral := fun _ => if_pos rfl

namespace Exchange

theorem bracket_of_sends {e : Exchange} {cardHandle : ScardHandle} (h : e.call.sends = true)
    (hcard : e.call.cardHandle? = some cardHandle) :
    e.bracket = .neutral ∨ e.bracket = .inside cardHandle := by
  obtain ⟨call, reply⟩ := e
  cases call with
  | transmit => exact .inr (congrArg Bracket.inside (Option.some.inj hcard))
  | control =>
    obtain rfl := Option.some.inj hcard
    simp only [bracket]
    split_ifs
    · exact .inl rfl
    · exact .inr rfl
  | _ => cases h

theorem bracket_notBegun {cardHandle : ScardHandle} {reply : Reply}
    (h : reply.result ≠ scardSSuccess) : bracket ⟨.beginTransaction cardHandle, reply⟩ = .neutral :=
  if_neg h

end Exchange

theorem SmartCard.new_neutral {pcsc : Service σ} (fuel : Nat) (ctx : ScardContext)
    (readerName : StringT) (atr : ByteVector) :
    Action.Within (Calls Call.Neutral) (SmartCard.new pcsc fuel ctx readerName atr) := by
  intro w
  have hfirst : Calls Call.Neutral w (w.after pcsc (connectCall ctx readerName)) :=
    Calls.after (fun _ => rfl) pcsc w
  have hconnected : Calls Call.Neutral w (connectedWorld pcsc ctx readerName w) :=
    hfirst.trans (Calls.after (CardImpl.featureRequest_neutral _) pcsc _)
  have hends := SmartCard.new_ends pcsc fuel ctx readerName atr w
  generalize SmartCard.new pcsc fuel ctx readerName atr w = r at hends
  cases hends with
  | refused => exact hfirst
  | connected | undefined | running => exact hconnected
  | unsupported =>
    dsimp only
    split_ifs
    · exact hconnected
    · exact hconnected.trans (Calls.after (fun _ => rfl) pcsc _)

theorem Calls.depthAfter_eq {w w' : World σ} (h : Calls Call.Neutral w w') :
    depthAfter Exchange.bracket w'.trace = depthAfter Exchange.bracket w.trace := by
  obtain ⟨new, htrace, hnew⟩ := h
  rw [htrace]
  refine depthAfter_still fun e he => ?_
  rw [hnew e he e.reply]
  trivial

namespace DisconnectedOutside

variable {w w' : World σ}

theorem undisconnected (h : DisconnectedOutside w.trace) (hw : Calls Call.NoConnect w w') :
    DisconnectedOutside w'.trace := by
  obtain ⟨new, htrace, hnew⟩ := hw
  rw [htrace]
  refine EachAfter.append_of h fun pre e post hpre cardHandle hcloses => ?_
  rw [(cardLedger_quiet (hnew e (by simp [hpre]))).closes] at hcloses
  cases hcloses

theorem after_disconnect_iff {pcsc : Service σ} {cardHandle : ScardHandle}
    (h : DisconnectedOutside w.trace) :
    DisconnectedOutside (w.after pcsc (.disconnect cardHandle scardLeaveCard)).trace ↔
      depthAfter Exchange.bracket w.trace cardHandle = 0 := by
  rw [World.after_trace, DisconnectedOutside, eachAfter_concat]
  refine (and_iff_right h).trans ?_
  exact ⟨fun hclosed => hclosed cardHandle rfl, fun hclosed other hother =>
    Option.some.inj hother ▸ hclosed⟩

end DisconnectedOutside

namespace System

/-- The transactions of each card are nested, as many are open as it has guards, none is open on
a handle that is still to come, and the flag of a card is set only while it has a guard. -/
structure Interleaved (s : System σ) : Prop where
  nested : Nested Exchange.bracket s.process.world.trace
  open_eq : ∀ held ∈ s.cards,
    depthAfter Exchange.bracket s.process.world.trace held.smartCard.handle = held.guards.length
  fresh : ∀ cardHandle : ScardHandle, s.process.world.trace.length ≤ cardHandle.serial →
    depthAfter Exchange.bracket s.process.world.trace cardHandle = 0
  inProgress : ∀ held ∈ s.cards, held.smartCard.transactionInProgress = true → held.guards ≠ []

namespace Interleaved

variable {pcsc : Service σ} {fuel : Nat} {s t : System σ} {i : Nat} {held held' : HeldCard}
  {card : CardImpl} {l : List Exchange}

theorem start (service : σ) : (start service).Interleaved where
  nested := nested_nil
  open_eq := nofun
  fresh _ _ := rfl
  inProgress := nofun

theorem still (h : s.Interleaved)
    (htrace : t.process.world.trace = s.process.world.trace ++ l)
    (hnew : ∀ e ∈ l, e.bracket.Still ∧
      e.bracket.Allowed (depthAfter Exchange.bracket s.process.world.trace))
    (hcards : ∀ held ∈ t.cards, held ∈ s.cards ∨
      s.process.world.trace.length ≤ held.smartCard.handle.serial ∧ held.guards = [] ∧
        held.smartCard.transactionInProgress = false) : t.Interleaved := by
  have hdepth : depthAfter Exchange.bracket t.process.world.trace =
      depthAfter Exchange.bracket s.process.world.trace := by
    rw [htrace]
    exact depthAfter_still fun e he => (hnew e he).1
  constructor
  · rw [htrace]
    exact h.nested.still hnew
  · intro held hheld
    rw [hdepth]
    rcases hcards held hheld with hold | ⟨hserial, hguards, -⟩
    · exact h.open_eq held hold
    · rw [h.fresh _ hserial, hguards, List.length_nil]
  · intro cardHandle hserial
    rw [hdepth]
    refine h.fresh cardHandle (Nat.le_trans ?_ hserial)
    rw [htrace, List.length_append]
    exact Nat.le_add_right _ _
  · intro held hheld hflag
    rcases hcards held hheld with hold | ⟨-, -, hnone⟩
    · exact h.inProgress held hold hflag
    · rw [hnone] at hflag
      cases hflag

theorem neutral (h : s.Interleaved) (hcalls : Calls Call.Neutral s t)
    (hcards : ∀ held ∈ t.cards, held ∈ s.cards ∨
      s.process.world.trace.length ≤ held.smartCard.handle.serial ∧ held.guards = [] ∧
        held.smartCard.transactionInProgress = false) : t.Interleaved := by
  obtain ⟨new, htrace, hnew⟩ := hcalls
  refine h.still htrace (fun e he => ?_) hcards
  rw [hnew e he e.reply]
  exact ⟨trivial, trivial⟩

theorem noCard (h : s.Interleaved) (hcalls : Calls Call.NoCard s t) (hcards : t.cards = s.cards) :
    t.Interleaved :=
  h.neutral (Extends.mono (fun _ hcall => Call.neutral_of_noCard hcall) hcalls)
    fun _ hheld => .inl (hcards ▸ hheld)

theorem moved (h : s.Interleaved) (hd : s.Distinct) (hheld : s.cards[i]? = some held) {e : Exchange}
    (htrace : t.process.world.trace = s.process.world.trace ++ [e])
    (hcards : t.cards = s.cards.set i held')
    (hhandle : held'.smartCard.handle = held.smartCard.handle)
    (hallowed : e.bracket.Allowed (depthAfter Exchange.bracket s.process.world.trace))
    (hnext : e.bracket.next (depthAfter Exchange.bracket s.process.world.trace) =
      Function.update (depthAfter Exchange.bracket s.process.world.trace)
        held.smartCard.handle held'.guards.length)
    (hflag : held'.smartCard.transactionInProgress = true → held'.guards ≠ []) :
    t.Interleaved := by
  have hdepth : depthAfter Exchange.bracket t.process.world.trace =
      Function.update (depthAfter Exchange.bracket s.process.world.trace)
        held.smartCard.handle held'.guards.length := by
    rw [htrace, depthAfter_concat, hnext]
  constructor
  · rw [htrace]
    exact nested_concat.mpr ⟨h.nested, hallowed⟩
  · intro other hother
    rw [hcards] at hother
    obtain ⟨j, hj⟩ := List.mem_iff_getElem?.mp hother
    rw [hdepth]
    by_cases hij : i = j
    · subst hij
      rw [List.getElem?_set_self (List.getElem?_eq_some_iff.mp hheld).1] at hj
      obtain rfl := Option.some.inj hj
      rw [hhandle, Function.update_self]
    · rw [List.getElem?_set_ne hij] at hj
      rw [Function.update_of_ne fun hsame => hij (hd.place_eq hheld hj hsame.symm)]
      exact h.open_eq other (List.mem_of_getElem? hj)
  · intro cardHandle hserial
    have hlength : s.process.world.trace.length < cardHandle.serial := by
      rw [htrace, List.length_append] at hserial
      exact hserial
    have hbefore := hd.before _ (List.mem_map_of_mem (List.mem_of_getElem? hheld))
    rw [hdepth, Function.update_of_ne, h.fresh cardHandle (Nat.le_of_lt hlength)]
    rintro rfl
    exact Nat.lt_asymm hlength hbefore
  · intro other hother
    rw [hcards] at hother
    rcases List.mem_or_eq_of_mem_set hother with hold | rfl
    · exact h.inProgress other hold
    · exact hflag

theorem begun (h : s.Interleaved) (hd : s.Distinct) (hheld : s.cards[i]? = some held)
    (hcard : held.smartCard.card = some card)
    (hsuccess : (pcsc s.process.world.service (.beginTransaction card.cardHandle)).1.result =
      scardSSuccess) (guard : TransactionGuard) :
    (s.withSession i ⟨{ held.smartCard with transactionInProgress := true },
      held.guards ++ [guard], held.ended,
      s.process.world.after pcsc (.beginTransaction card.cardHandle)⟩).Interleaved := by
  have hbracket : Exchange.bracket ⟨.beginTransaction card.cardHandle,
      (pcsc s.process.world.service (.beginTransaction card.cardHandle)).1⟩ =
        .opens card.cardHandle := if_pos hsuccess
  have hopen := h.open_eq held (List.mem_of_getElem? hheld)
  rw [SmartCard.handle_eq hcard] at hopen
  refine h.moved hd hheld rfl rfl rfl ?_ ?_ fun _ => by simp
  · rw [hbracket]
    trivial
  · rw [hbracket, Bracket.next, SmartCard.handle_eq hcard, hopen, List.length_append,
      List.length_singleton]

theorem ended (h : s.Interleaved) (hd : s.Distinct) (hheld : s.cards[i]? = some held)
    (hcard : held.smartCard.card = some card) {j : Nat} (hguard : j < held.guards.length)
    (ended : List (Nat × Nat)) :
    (s.withSession i ⟨{ held.smartCard with transactionInProgress := false },
      held.guards.eraseIdx j, ended,
      s.process.world.after pcsc
        (.endTransaction card.cardHandle scardLeaveCard)⟩).Interleaved := by
  have hopen := h.open_eq held (List.mem_of_getElem? hheld)
  rw [SmartCard.handle_eq hcard] at hopen
  refine h.moved hd hheld rfl rfl rfl ?_ ?_ nofun
  · change 0 < depthAfter Exchange.bracket s.process.world.trace card.cardHandle
    omega
  · rw [Exchange.bracket, Bracket.next, SmartCard.handle_eq hcard, hopen,
      List.length_eraseIdx_of_lt hguard]

theorem sent (h : s.Interleaved) (hheld : s.cards[i]? = some held)
    (hinProgress : held.smartCard.transactionInProgress = true) {w' : World σ}
    (hsends : PcscCpp.Calls (fun call => call.sends = true ∧
      ∃ card, held.smartCard.card = some card ∧ call.cardHandle? = some card.cardHandle)
      s.process.world w') :
    (s.withSession i ⟨held.smartCard, held.guards, held.ended, w'⟩).Interleaved := by
  obtain ⟨new, htrace, hnew⟩ := hsends
  have hmem := List.mem_of_getElem? hheld
  have hopen := h.open_eq held hmem
  have hpos := List.length_pos_iff.mpr (h.inProgress held hmem hinProgress)
  refine h.still htrace (fun e he => ?_) fun other hother => ?_
  · obtain ⟨hsends, card, hcard, hhandle⟩ := hnew e he
    rw [SmartCard.handle_eq hcard] at hopen
    rcases Exchange.bracket_of_sends hsends hhandle with hb | hb <;> rw [hb]
    · exact ⟨trivial, trivial⟩
    · refine ⟨trivial, ?_⟩
      change 0 < depthAfter Exchange.bracket s.process.world.trace card.cardHandle
      omega
  · rcases List.mem_or_eq_of_mem_set hother with hold | rfl
    · exact .inl hold
    · exact .inl hmem

theorem onCard (h : s.Interleaved) (hd : s.Distinct) (hs : s.Sound) (i : Nat)
    (o : Session.Operation) : (step pcsc fuel (.onCard i o) s).2.Interleaved := by
  cases hheld : s.cards[i]? with
  | none =>
    rw [step, Action.lookup_none hheld]
    exact h
  | some held =>
    have hmem := List.mem_of_getElem? hheld
    have hsound := hs.cards held hmem
    obtain ⟨card, hcard, -⟩ := hsound.card
    have hsame : ∀ other ∈ s.cards.set i ⟨held.smartCard, held.guards, held.ended⟩,
        other ∈ s.cards := fun other hother =>
      (List.mem_or_eq_of_mem_set hother).elim id fun heq => heq ▸ hmem
    have hmoves := @Session.step_moves _ pcsc fuel (s.session held) o
    rw [step_onCard hheld]
    generalize (Session.step pcsc fuel o (s.session held)).2 = t at hmoves
    cases hmoves with
    | refused =>
      exact h.neutral (Extends.refl _) fun other hother => .inl (hsame other hother)
    | begun hcard' success => exact h.begun hd hheld hcard' success _
    | notBegun hcard' failure =>
      refine h.still (l := [_]) rfl (fun e he => ?_) fun other hother => .inl (hsame other hother)
      rw [List.mem_singleton.mp he, Exchange.bracket_notBegun failure]
      exact ⟨trivial, trivial⟩
    | ended hguard =>
      have heq := hsound.guards _ (List.mem_of_getElem? hguard)
      rw [hcard, Option.some.injEq] at heq
      rw [← heq]
      exact h.ended hd hheld hcard (List.getElem?_eq_some_iff.mp hguard).1 _
    | sent inProgress sends => exact h.sent hheld inProgress sends

theorem connectToCard (h : s.Interleaved) (hs : s.Sound) (i : Nat) :
    (step pcsc fuel (.connectToCard i) s).2.Interleaved := by
  cases hreader : s.readers[i]? with
  | none =>
    rw [step, Action.lookup_none hreader]
    exact h
  | some reader =>
    have hctx := hs.owned.counted.bound reader.ctx
      (List.mem_map_of_mem (List.mem_of_getElem? hreader))
    have hc := List.getElem?_eq_getElem hctx
    have hcalls := @SmartCard.new_neutral _ pcsc fuel
      s.process.contexts.values[reader.ctx].contextHandle reader.name reader.cardAtr
      s.process.world
    have hends := SmartCard.new_ends pcsc fuel s.process.contexts.values[reader.ctx].contextHandle
      reader.name reader.cardAtr s.process.world
    rw [step_connectToCard hreader hc, Action.bind_apply, onProcess, Action.zoom_apply,
      Process.onWorld, Action.zoom_apply]
    generalize SmartCard.new pcsc fuel _ reader.name reader.cardAtr s.process.world = r
      at hcalls hends
    cases hends with
    | refused | unsupported | undefined | running =>
      exact h.neutral hcalls fun _ hheld => .inl hheld
    | connected card atr protocol success handle =>
      refine h.neutral hcalls fun held hheld => ?_
      rcases List.mem_append.mp hheld with hold | hnew
      · exact .inl hold
      · rw [List.mem_singleton.mp hnew, SmartCard.handle, Option.elim_some, handle]
        exact .inr ⟨Nat.le_refl _, rfl, rfl⟩

theorem destroyCard (h : s.Interleaved) (hs : s.Sound) (i : Nat) :
    (step pcsc fuel (.destroyCard i) s).2.Interleaved := by
  cases hheld : s.cards[i]? with
  | none =>
    rw [step, Action.lookup_none hheld]
    exact h
  | some held =>
    have hcalls := @destroyCard_calls _ pcsc fuel Call.Neutral (fun _ _ => rfl) i s
    obtain ⟨card, hcard, -⟩ := (hs.cards held (List.mem_of_getElem? hheld)).card
    rw [step_destroyCard hheld hcard] at hcalls ⊢
    exact h.neutral hcalls fun _ hother => .inl (List.mem_of_mem_eraseIdx hother)

theorem step (h : s.Interleaved) (hd : s.Distinct) (hs : s.Sound) (o : Operation) :
    (step pcsc fuel o s).2.Interleaved := by
  cases o with
  | listReaders =>
    have hcards : Action.Within SameCards (System.step pcsc fuel .listReaders) :=
      (onProcess_sameCards (PcscCpp.listReaders pcsc)).bind fun _ => fun _ => rfl
    exact h.noCard (listReaders_calls (fun _ => rfl) (fun _ => rfl) (fun _ _ => rfl)
      (fun _ _ => rfl) s) (hcards s)
  | copyReader i => exact h.noCard (copyReader_calls i s) (copyReader_sameCards i s)
  | destroyReader i =>
    exact h.noCard (destroyReader_calls (fun _ => rfl) i s) (destroyReader_sameCards i s)
  | connectToCard i => exact h.connectToCard hs i
  | onCard i o => exact h.onCard hd hs i o
  | destroyCard i => exact h.destroyCard hs i

end Interleaved

def Unguarded : Operation × System σ → Prop
  | (.destroyCard i, s) => ∀ held card, s.cards[i]? = some held → held.smartCard.card = some card →
    card.cardHandle.value ≠ 0 → held.guards = []
  | _ => True

section Disconnecting

variable {pcsc : Service σ} {fuel : Nat} {s : System σ}

theorem connectToCard_disconnectedOutside (i : Nat) (hs : s.Sound) (hi : s.Interleaved)
    (h : DisconnectedOutside s.process.world.trace) :
    DisconnectedOutside (step pcsc fuel (.connectToCard i) s).2.process.world.trace := by
  cases hreader : s.readers[i]? with
  | none =>
    rw [step, Action.lookup_none hreader]
    exact h
  | some reader =>
    have hctx := hs.owned.counted.bound reader.ctx
      (List.mem_map_of_mem (List.mem_of_getElem? hreader))
    have hc := List.getElem?_eq_getElem hctx
    have hends := SmartCard.new_ends pcsc fuel s.process.contexts.values[reader.ctx].contextHandle
      reader.name reader.cardAtr s.process.world
    rw [step_connectToCard_world hreader hc]
    generalize s.process.contexts.values[reader.ctx].contextHandle = ctx at hends ⊢
    have hconnect : DisconnectedOutside
        (s.process.world.after pcsc (SmartCard.connectCall ctx reader.name)).trace :=
      eachAfter_concat.mpr ⟨h, fun _ hcloses => by cases hcloses⟩
    have hrequest : DisconnectedOutside
        (SmartCard.connectedWorld pcsc ctx reader.name s.process.world).trace :=
      eachAfter_concat.mpr ⟨hconnect, fun _ hcloses => by cases hcloses⟩
    generalize SmartCard.new pcsc fuel ctx reader.name reader.cardAtr s.process.world = r at hends
    cases hends with
    | refused => exact hconnect
    | connected | undefined | running => exact hrequest
    | unsupported =>
      dsimp only
      split_ifs
      · exact hrequest
      · have hcalls : PcscCpp.Calls Call.Neutral s.process.world
            (SmartCard.connectedWorld pcsc ctx reader.name s.process.world) :=
          (Calls.after (fun _ => rfl) pcsc _).trans
            (Calls.after (CardImpl.featureRequest_neutral _) pcsc _)
        rw [hrequest.after_disconnect_iff, hcalls.depthAfter_eq]
        exact hi.fresh _ (Nat.le_refl _)

theorem destroyCard_disconnectedOutside_iff (i : Nat) (hs : s.Sound) (hi : s.Interleaved)
    (h : DisconnectedOutside s.process.world.trace) :
    DisconnectedOutside (step pcsc fuel (.destroyCard i) s).2.process.world.trace ↔
      Unguarded (.destroyCard i, s) := by
  cases hheld : s.cards[i]? with
  | none =>
    rw [step, Action.lookup_none hheld]
    exact iff_of_true h fun held card hget => by rw [hheld] at hget; cases hget
  | some held =>
    have hmem := List.mem_of_getElem? hheld
    obtain ⟨card, hcard, -⟩ := (hs.cards held hmem).card
    have hopen := hi.open_eq held hmem
    rw [SmartCard.handle_eq hcard] at hopen
    have hunguarded : Unguarded (.destroyCard i, s) ↔
        (card.cardHandle.value ≠ 0 → held.guards = []) := by
      refine ⟨fun hnone => hnone held card hheld hcard, fun hnone held' card' hheld' hcard' => ?_⟩
      obtain rfl := Option.some.inj (hheld.symm.trans hheld')
      obtain rfl := Option.some.inj (hcard.symm.trans hcard')
      exact hnone
    rw [hunguarded, step_destroyCard hheld hcard]
    dsimp only
    split_ifs with hvalue
    · exact iff_of_true h fun hne => absurd hvalue hne
    · rw [h.after_disconnect_iff, hopen, List.length_eq_zero_iff]
      exact ⟨fun hnone _ => hnone, fun hnone => hnone hvalue⟩

theorem step_disconnectedOutside_iff (o : Operation) (hs : s.Sound) (hi : s.Interleaved)
    (h : DisconnectedOutside s.process.world.trace) :
    DisconnectedOutside (step pcsc fuel o s).2.process.world.trace ↔ Unguarded (o, s) := by
  cases o with
  | listReaders =>
    exact iff_of_true (h.undisconnected (listReaders_calls (fun _ => rfl) (fun _ => rfl)
      (fun _ _ => rfl) (fun _ _ => rfl) s)) trivial
  | copyReader i => exact iff_of_true (h.undisconnected (copyReader_calls i s)) trivial
  | destroyReader i =>
    exact iff_of_true (h.undisconnected (destroyReader_calls (fun _ => rfl) i s)) trivial
  | connectToCard i =>
    exact iff_of_true (connectToCard_disconnectedOutside i hs hi h) trivial
  | onCard i o =>
    refine iff_of_true ?_ trivial
    cases hheld : s.cards[i]? with
    | none =>
      rw [step, Action.lookup_none hheld]
      exact h
    | some held =>
      have hplain := (@Session.step_moves _ pcsc fuel (s.session held) o).plain
      rw [step_onCard hheld]
      exact h.undisconnected (Calls.mono (fun _ hcall => hcall.noConnect) hplain)
  | destroyCard i => exact destroyCard_disconnectedOutside_iff i hs hi h

end Disconnecting

/-- In every run, with any number of cards, transactions are ended only after they were begun on
the same handle and commands are sent to a handle only in between, and for every card that is
held what was begun and not ended are its guards; cards are disconnected outside of
transactions exactly when no card is destroyed while it has guards. -/
theorem transactions_interleaved (pcsc : Service σ) (fuel : Nat) (service : σ)
    (os : List Operation) :
    (∀ s ∈ states (System.step pcsc fuel) os (System.start service),
      Nested Exchange.bracket s.process.world.trace ∧
      ∀ held ∈ s.cards, ∀ card, held.smartCard.card = some card →
        openings Exchange.bracket card.cardHandle s.process.world.trace =
          closings Exchange.bracket card.cardHandle s.process.world.trace +
            held.guards.length) ∧
    ((∀ s ∈ states (System.step pcsc fuel) os (System.start service),
        DisconnectedOutside s.process.world.trace) ↔
      ∀ p ∈ steps (System.step pcsc fuel) os (System.start service), Unguarded p) := by
  constructor
  · intro s hs
    obtain ⟨-, hinterleaved⟩ := states_of_accounted
      (P := fun s => s.Distinct ∧ s.Interleaved)
      (fun o _ s hs h => ⟨h.1.step hs.sound o, h.2.step h.1 hs.sound o⟩)
      ⟨start_distinct service, Interleaved.start service⟩ s hs
    refine ⟨hinterleaved.nested, fun held hheld card hcard => ?_⟩
    rw [hinterleaved.nested.openings_eq, ← SmartCard.handle_eq hcard,
      hinterleaved.open_eq held hheld]
  · refine forall_states_iff (I := fun s => s.Accounted ∧ s.Distinct ∧ s.Interleaved)
      (fun o s hs => (step_accounted o s hs.1).and_world
        ⟨hs.2.1.step hs.1.sound o, hs.2.2.step hs.2.1 hs.1.sound o⟩)
      (fun o s hs h => step_disconnectedOutside_iff o hs.1.sound hs.2.2 h)
      ⟨start_accounted service, start_distinct service, Interleaved.start service⟩
      (eachAfter_nil _)

theorem transactions_interleaved_twoCards :
    (∃ s ∈ states (System.step oneReader 1) [.listReaders, .connectToCard 0, .connectToCard 0,
        .onCard 0 .beginTransaction, .onCard 1 .beginTransaction, .onCard 0 (.destroyGuard 0),
        .destroyCard 1] (System.start ()),
      openings Exchange.bracket ⟨1, ⟨1, 0⟩, 4⟩ s.process.world.trace =
        closings Exchange.bracket ⟨1, ⟨1, 0⟩, 4⟩ s.process.world.trace ∧
      openings Exchange.bracket ⟨1, ⟨1, 0⟩, 6⟩ s.process.world.trace =
        closings Exchange.bracket ⟨1, ⟨1, 0⟩, 6⟩ s.process.world.trace + 1) ∧
    ∃ s ∈ states (System.step oneReader 1) [.listReaders, .connectToCard 0, .connectToCard 0,
        .onCard 0 .beginTransaction, .onCard 1 .beginTransaction, .onCard 0 (.destroyGuard 0),
        .destroyCard 1] (System.start ()),
      ¬ DisconnectedOutside s.process.world.trace := by
  obtain ⟨hcounts, hdisconnected⟩ := transactions_interleaved oneReader 1 ()
    [.listReaders, .connectToCard 0, .connectToCard 0, .onCard 0 .beginTransaction,
      .onCard 1 .beginTransaction, .onCard 0 (.destroyGuard 0), .destroyCard 1]
  have hlast : ((steps (System.step oneReader 1) [.listReaders, .connectToCard 0,
      .connectToCard 0, .onCard 0 .beginTransaction, .onCard 1 .beginTransaction,
      .onCard 0 (.destroyGuard 0), .destroyCard 1] (System.start ()))[6]?.map fun p =>
        (match p.1 with | .destroyCard i => some i | _ => none, p.2.cards.map fun held =>
          (held.smartCard.card.map (·.cardHandle), held.guards.length))) =
      some (some 1, [(some ⟨1, ⟨1, 0⟩, 4⟩, 0), (some ⟨1, ⟨1, 0⟩, 6⟩, 1)]) := by
    decide +kernel
  obtain ⟨⟨o, s⟩, hp, heq⟩ := Option.map_eq_some_iff.mp hlast
  obtain ⟨ho, hcards⟩ := Prod.mk.inj heq
  obtain ⟨first, rest, hfirst, hheld, hrest⟩ := List.map_eq_cons_iff.mp hcards
  obtain ⟨second, rest, rfl, hheld', -⟩ := List.map_eq_cons_iff.mp hrest
  obtain ⟨hsome, hnone⟩ := Prod.mk.inj hheld
  obtain ⟨hsome', hone⟩ := Prod.mk.inj hheld'
  obtain ⟨card, hcard, hhandle⟩ := Option.map_eq_some_iff.mp hsome
  obtain ⟨card', hcard', hhandle'⟩ := Option.map_eq_some_iff.mp hsome'
  have hmem := List.mem_of_getElem? hp
  constructor
  · obtain ⟨-, hcount⟩ := hcounts s (mem_states_of_mem_steps hmem)
    have hclosed := hcount first (hfirst ▸ List.mem_cons_self) card hcard
    have hopen := hcount second (hfirst ▸ List.mem_cons_of_mem _ List.mem_cons_self) card' hcard'
    rw [hhandle, hnone] at hclosed
    rw [hhandle', hone] at hopen
    exact ⟨s, mem_states_of_mem_steps hmem, hclosed, hopen⟩
  · by_contra! houtside
    cases o with
    | destroyCard i =>
      obtain rfl := Option.some.inj ho
      have hnil := hdisconnected.mp houtside _ hmem second card' (by rw [hfirst]; rfl) hcard'
        (by rw [hhandle']; decide)
      rw [hnil] at hone
      cases hone
    | _ => cases ho

end System

end PcscCpp

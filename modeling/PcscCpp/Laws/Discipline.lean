import PcscCpp.Effects.Discipline
import PcscCpp.Laws.Lifetimes
import PcscCpp.Laws.NoReaders

namespace PcscCpp

open Effects MultiString

variable {σ : Type}

namespace Call

def context? : Call → Option ScardContext
  | .releaseContext ctx => some ctx
  | .listReaders ctx _ => some ctx
  | .getStatusChange ctx _ _ => some ctx
  | .connect ctx _ _ _ => some ctx
  | _ => none

def NoContext (call : Call) : Prop := call.context? = none

/-- The card handle a call is made on, unless it is zero. -/
def openHandle? (call : Call) : Option ScardHandle := call.cardHandle?.filter (·.value ≠ 0)

structure ListsOn (ctx : ScardContext) (call : Call) : Prop where
  lists : call.lists = true
  context : call.context? = some ctx

theorem openHandle?_eq_some {call : Call} {cardHandle : ScardHandle} :
    call.openHandle? = some cardHandle ↔
      call.cardHandle? = some cardHandle ∧ cardHandle.value ≠ 0 := by
  simp [openHandle?, Option.filter_eq_some_iff]

theorem openHandle?_of_noCard {call : Call} (h : call.NoCard) : call.openHandle? = none := by
  rw [openHandle?, h, Option.filter_none]

end Call

abbrev UsesOpenContexts (trace : List Exchange) : Prop :=
  contextLedger.Disciplined (·.call.context?) trace

abbrev UsesOpenCards (trace : List Exchange) : Prop :=
  cardLedger.Disciplined (·.call.openHandle?) trace

section Listing

variable {pcsc : Service σ} {p : Process σ}

theorem listing_within {S : Call → Prop} {ctx : ScardContext}
    (hnames : ∀ buffer, S (.listReaders ctx buffer))
    (hstates : ∀ readerStates, S (.getStatusChange ctx 0 readerStates)) :
    Action.Within (Calls S) (listing pcsc ctx) :=
  (populateReaderNames_calls ctx hnames).bind fun readerNames =>
    (getReaderStates_calls ctx hstates readerNames).bind fun _ => Action.within_pure _

end Listing

def Process.Established (p : Process σ) : Prop :=
  ∀ c ∈ p.contexts.values, contextLedger.Opened c.contextHandle p.world.trace

abbrev Process.Establishes (p p' : Process σ) : Prop := p.Established → p'.Established

instance : Std.Refl (Process.Establishes : Process σ → Process σ → Prop) := ⟨fun _ h => h⟩

instance : IsTrans (Process σ) Process.Establishes := ⟨fun _ _ _ h h' hp => h' (h hp)⟩

section Established

variable {pcsc : Service σ} {p : Process σ}

theorem Process.Established.calls {w' : World σ} (h : p.Established) {S : Call → Prop}
    (hw : PcscCpp.Calls S p.world w') : ({ p with world := w' } : Process σ).Established := by
  obtain ⟨new, htrace, -⟩ := hw
  intro c hc
  rw [htrace]
  exact (h c hc).append new

theorem onWorld_establishes {α : Type} {S : Call → Prop} {x : Program σ α}
    (hx : Action.Within (Calls S) x) :
    Action.Within Process.Establishes (Process.onWorld x) :=
  Action.within_zoom hx fun _ _ hw hp => hp.calls hw

theorem makeShared_establishes :
    Action.Within Process.Establishes (ContextPtr.makeShared pcsc) := by
  intro p h
  rcases Context.new_cases pcsc p.world with ⟨e, -, he⟩ | ⟨hsuccess, hvalue, hnew⟩
  · rw [ContextPtr.makeShared, Action.bind_threw (onWorld_apply he)]
    exact h.calls (Calls.after (S := fun _ => True) trivial pcsc p.world)
  · rw [ContextPtr.makeShared, Action.bind_returned (onWorld_apply hnew)]
    intro c hc
    rcases List.mem_append.mp hc with hc | hc
    · exact (h c hc).append _
    · rw [List.mem_singleton.mp hc]
      exact Ledger.opened_concat.mpr (.inr (if_pos ⟨hsuccess, hvalue⟩))

theorem copy_establishes (i : ContextPtr) : Action.Within Process.Establishes
    (ContextPtr.copy i : Action Exception (Process σ) ContextPtr) :=
  Action.Within.bind (fun _ h => h) fun _ => Action.within_pure _

theorem destroy_establishes (i : ContextPtr) :
    Action.Within Process.Establishes (ContextPtr.destroy pcsc i) :=
  destroy_within i (fun _ h => h) fun context =>
    onWorld_establishes (S := fun _ => True) (context.destroy_calls trivial)

theorem listReaders_establishes : Action.Within Process.Establishes (listReaders pcsc) :=
  listReaders_within makeShared_establishes
    (fun ctx => onWorld_establishes (S := fun _ => True)
      (populateReaderNames_calls ctx fun _ => trivial))
    (fun ctx readerNames => onWorld_establishes (S := fun _ => True)
      (getReaderStates_calls ctx (fun _ => trivial) readerNames))
    copy_establishes destroy_establishes

end Established

namespace System

variable {pcsc : Service σ} {fuel : Nat} {s : System σ}

abbrev Establishes (s s' : System σ) : Prop := Process.Establishes s.process s'.process

instance : Std.Refl (Establishes : System σ → System σ → Prop) := ⟨fun _ h => h⟩

instance : IsTrans (System σ) Establishes := ⟨fun _ _ _ h h' hp => h' (h hp)⟩

theorem onProcess_establishes {α : Type} {x : Action Exception (Process σ) α}
    (hx : Action.Within Process.Establishes x) : Action.Within Establishes (onProcess x) :=
  Action.within_zoom hx fun _ _ h => h

theorem step_establishes (o : Operation) : Action.Within Establishes (step pcsc fuel o) := by
  cases o with
  | listReaders =>
    exact (onProcess_establishes listReaders_establishes).bind fun readers => fun _ h => h
  | copyReader i =>
    refine (Action.within_read _).bind fun readers =>
      (Action.within_index _ _).bind fun reader => ?_
    refine (onProcess_establishes ?_).bind fun copied => fun _ h => h
    exact (copy_establishes reader.ctx).bind fun _ => Action.within_pure _
  | destroyReader i =>
    refine (Action.within_read _).bind fun readers =>
      (Action.within_index _ _).bind fun reader => ?_
    exact Action.Within.bind (fun _ h => h) fun _ =>
      onProcess_establishes (destroy_establishes reader.ctx)
  | connectToCard i =>
    refine (Action.within_read _).bind fun readers =>
      (Action.within_index _ _).bind fun reader => ?_
    refine (onProcess_establishes ?_).bind fun smartCard => fun _ h => h
    exact reader.connectToCard_within fun ctx =>
      onWorld_establishes (SmartCard.new_calls fuel ctx reader.name reader.cardAtr)
  | onCard i o =>
    intro s h
    have hmade : (step pcsc fuel (.onCard i o) s).2.process.contexts = s.process.contexts := by
      cases hheld : s.cards[i]? with
      | none => rw [step, Action.lookup_none hheld]
      | some held =>
        rw [step_onCard hheld]
        rfl
    intro c hc
    rw [hmade] at hc
    obtain ⟨new, htrace, -⟩ := @onCard_noRelease _ pcsc fuel i o s
    dsimp only at htrace
    rw [htrace]
    exact (h c hc).append new
  | destroyCard i =>
    refine (Action.within_read _).bind fun cards => (Action.within_index _ _).bind fun held => ?_
    exact Action.Within.bind (fun _ h => h) fun _ => onProcess_establishes
      (onWorld_establishes (S := fun _ => True) (held.smartCard.destroy_calls fun _ => trivial))

end System

section Uses

variable {pcsc : Service σ} {p : Process σ}

theorem UsesOpenContexts.unused {w w' : World σ} (h : UsesOpenContexts w.trace)
    (hw : Calls Call.NoContext w w') : UsesOpenContexts w'.trace := by
  obtain ⟨new, htrace, hnew⟩ := hw
  rw [htrace]
  exact Ledger.Disciplined.unused h hnew

theorem establishedContext_live {owners : List ContextPtr} (hp : Owned [] owners p)
    (hsuccess : (pcsc p.world.service (.establishContext scardScopeUser)).1.result =
      scardSSuccess) (hvalue : (establishedContext pcsc p.world).value ≠ 0) :
    contextLedger.Live (establishedContext pcsc p.world)
      (p.world.after pcsc (.establishContext scardScopeUser)).trace := by
  refine Ledger.Live.of_opens (if_pos ⟨hsuccess, hvalue⟩) ?_
  rw [← releases_eq]
  by_contra hne
  exact hp.fresh _ (hp.made _ hne)

theorem Call.ListsOn.uses {ctx : ScardContext} {e : Exchange} (h : e.call.ListsOn ctx) :
    (∀ ctx' ∈ e.call.context?, ctx' = ctx) ∧ contextLedger.closes e ≠ some ctx := by
  obtain ⟨call, reply⟩ := e
  constructor
  · intro ctx' hctx'
    rw [h.context] at hctx'
    exact (Option.some.inj hctx').symm
  · intro hcloses
    cases call <;> first | cases hcloses; done | exact absurd h.lists Bool.false_ne_true

theorem listReaders_usesOpenContexts {owners : List ContextPtr} (hp : Owned [] owners p)
    (h : UsesOpenContexts p.world.trace) :
    UsesOpenContexts (listReaders pcsc p).2.world.trace := by
  have hestablish : UsesOpenContexts
      (p.world.after pcsc (.establishContext scardScopeUser)).trace :=
    h.concat nofun
  have hlisting : ∀ w, (listing pcsc (establishedContext pcsc p.world)
        (p.world.after pcsc (.establishContext scardScopeUser))).2 = w →
      (pcsc p.world.service (.establishContext scardScopeUser)).1.result = scardSSuccess →
      (establishedContext pcsc p.world).value ≠ 0 →
      UsesOpenContexts w.trace ∧
        contextLedger.Live (establishedContext pcsc p.world) w.trace := by
    rintro w rfl hsuccess hvalue
    have hlive := establishedContext_live hp hsuccess hvalue
    obtain ⟨new, htrace, hnew⟩ := @listing_within _ pcsc
      (Call.ListsOn (establishedContext pcsc p.world)) _ (fun _ => ⟨rfl, rfl⟩)
      (fun _ => ⟨rfl, rfl⟩) (p.world.after pcsc (.establishContext scardScopeUser))
    rw [htrace]
    exact ⟨hestablish.live hlive fun e he => (hnew e he).uses,
      hlive.append fun e he => (hnew e he).uses.2⟩
  have hrelease : ∀ w : World σ, UsesOpenContexts w.trace →
      contextLedger.Live (establishedContext pcsc p.world) w.trace →
      UsesOpenContexts
        (w.after pcsc (.releaseContext (establishedContext pcsc p.world))).trace := by
    intro w hw hlive
    refine hw.concat fun ctx hctx => ?_
    rw [← Option.some.inj hctx]
    exact hlive
  have hfinishes := listReaders_finishes pcsc p
  generalize listReaders pcsc p = r at hfinishes
  cases hfinishes with
  | refused => exact hestablish
  | failed e w contexts success value listed =>
    obtain ⟨hw, hlive⟩ := hlisting w (by rw [listed]) success value
    exact hrelease w hw hlive
  | listed readerNames readerStates w contexts success value listed =>
    obtain ⟨hw, hlive⟩ := hlisting w (by rw [listed]) success value
    dsimp only
    split_ifs
    · exact hrelease w hw hlive
    · exact hw
  | undefined o w contexts success value listed =>
    exact (hlisting w (by rw [listed]) success value).1

end Uses

theorem Session.Moves.onCard {pcsc : Service σ} {s s' : Session σ} {o : Operation}
    {card : CardImpl} (h : Moves pcsc s o s') (hcard : s.smartCard.card = some card)
    (hguards : ∀ guard ∈ s.guards, s.smartCard.card = some guard.card) :
    Calls (fun call => call.cardHandle? = some card.cardHandle ∧ call.NoConnect)
      s.world s'.world := by
  cases h with
  | refused => exact Extends.refl _
  | begun hcard' _ =>
    obtain rfl := Option.some.inj (hcard.symm.trans hcard')
    exact Calls.after ⟨rfl, rfl⟩ _ _
  | notBegun hcard' _ =>
    obtain rfl := Option.some.inj (hcard.symm.trans hcard')
    exact Calls.after ⟨rfl, rfl⟩ _ _
  | ended hguard =>
    have heq := hguards _ (List.mem_of_getElem? hguard)
    rw [hcard, Option.some.injEq] at heq
    rw [heq]
    exact Calls.after ⟨rfl, rfl⟩ _ _
  | sent _ sends =>
    refine Calls.mono (fun call hcall => ?_) sends
    obtain ⟨hsends, card', hcard', hhandle⟩ := hcall
    obtain rfl := Option.some.inj (hcard.symm.trans hcard')
    exact ⟨hhandle, (Call.plain_of_sends hsends).noConnect⟩

theorem Call.noContext_of_cardHandle {call : Call} {cardHandle : ScardHandle}
    (h : call.cardHandle? = some cardHandle) : call.NoContext := by
  cases call <;> first | rfl | cases h

section Connecting

variable {pcsc : Service σ} {ctx : ScardContext} {readerName : StringT} {w : World σ}
  {r : Outcome Exception SmartCard × World σ}

theorem SmartCard.Ends.usesOpenContexts (h : SmartCard.Ends pcsc ctx readerName w r)
    (hlive : contextLedger.Live ctx w.trace) (hw : UsesOpenContexts w.trace) :
    UsesOpenContexts r.2.trace := by
  have hconnect : UsesOpenContexts (w.after pcsc (SmartCard.connectCall ctx readerName)).trace :=
    hw.concat fun ctx' hctx' => Option.some.inj hctx' ▸ hlive
  have hrequest : UsesOpenContexts (SmartCard.connectedWorld pcsc ctx readerName w).trace :=
    hconnect.concat nofun
  cases h with
  | refused => exact hconnect
  | connected | undefined | running => exact hrequest
  | unsupported =>
    dsimp only
    split_ifs
    · exact hrequest
    · exact hrequest.concat nofun

theorem SmartCard.new_usesOpenCards {held : List ScardHandle} (fuel : Nat) (atr : ByteVector)
    (hheld : cardLedger.Holds held w.trace) (hw : UsesOpenCards w.trace) :
    UsesOpenCards (SmartCard.new pcsc fuel ctx readerName atr w).2.trace := by
  have hconnect : UsesOpenCards (w.after pcsc (SmartCard.connectCall ctx readerName)).trace :=
    hw.concat nofun
  by_cases hsuccess : (pcsc w.service (SmartCard.connectCall ctx readerName)).1.result =
      scardSSuccess
  · have hopen : (SmartCard.connectedHandle pcsc ctx readerName w).value ≠ 0 →
        cardLedger.Live (SmartCard.connectedHandle pcsc ctx readerName w)
          (w.after pcsc (SmartCard.connectCall ctx readerName)).trace := by
      intro hvalue
      have hopens : cardLedger.opens w.trace.length ⟨SmartCard.connectCall ctx readerName,
          (pcsc w.service (SmartCard.connectCall ctx readerName)).1⟩ =
            some (SmartCard.connectedHandle pcsc ctx readerName w) := if_pos ⟨hsuccess, hvalue⟩
      exact Ledger.Live.of_opens hopens (hheld.fresh hopens).2
    have hrequest : UsesOpenCards (SmartCard.connectedWorld pcsc ctx readerName w).trace := by
      refine hconnect.concat fun cardHandle huses => ?_
      obtain ⟨hhandle, hvalue⟩ := Call.openHandle?_eq_some.mp huses
      obtain rfl := Option.some.inj hhandle
      exact hopen hvalue
    have hends := SmartCard.new_ends pcsc fuel ctx readerName atr w
    generalize SmartCard.new pcsc fuel ctx readerName atr w = r at hends
    cases hends with
    | refused => exact hconnect
    | connected | undefined | running => exact hrequest
    | unsupported =>
      dsimp only
      split_ifs with hvalue
      · exact hrequest
      · refine hrequest.concat fun cardHandle huses => ?_
        obtain ⟨hhandle, -⟩ := Call.openHandle?_eq_some.mp huses
        obtain rfl := Option.some.inj hhandle
        refine (hopen hvalue).append (l := [_]) fun e he => ?_
        rw [List.mem_singleton.mp he]
        exact fun h => by cases h
  · obtain ⟨e, he⟩ := SmartCard.new_refused fuel atr hsuccess
    rw [he]
    exact hconnect

end Connecting

namespace System

variable {pcsc : Service σ} {fuel : Nat} {s : System σ}

theorem Accounted.context_live (h : s.Accounted) (he : s.process.Established) {c : Context}
    (hc : c ∈ s.process.contexts.values) (halive : s.Alive c.contextHandle) :
    contextLedger.Live c.contextHandle s.process.world.trace where
  opened := he c hc
  unclosed := h.settled.alive _ (he c hc) halive

theorem step_connectToCard_world {i : Nat} {reader : Reader} {c : Context}
    (hreader : s.readers[i]? = some reader)
    (hc : s.process.contexts.values[reader.ctx]? = some c) :
    (step pcsc fuel (.connectToCard i) s).2.process.world =
      (SmartCard.new pcsc fuel c.contextHandle reader.name reader.cardAtr s.process.world).2 := by
  rw [step_connectToCard hreader hc, Action.bind_apply, onProcess, Action.zoom_apply,
    Process.onWorld, Action.zoom_apply]
  rcases SmartCard.new pcsc fuel c.contextHandle reader.name reader.cardAtr s.process.world with
    ⟨_ | _ | _ | _, w'⟩ <;> rfl

theorem step_usesOpenContexts (o : Operation) (hs : s.Accounted) (he : s.process.Established)
    (h : UsesOpenContexts s.process.world.trace) :
    UsesOpenContexts (step pcsc fuel o s).2.process.world.trace := by
  have hlive : ∀ (i : Nat) (reader : Reader), s.readers[i]? = some reader →
      ∃ c, s.process.contexts.values[reader.ctx]? = some c ∧
        contextLedger.Live c.contextHandle s.process.world.trace := by
    intro i reader hreader
    have hmem := List.mem_of_getElem? hreader
    have hctx := hs.sound.owned.counted.bound reader.ctx (List.mem_map_of_mem hmem)
    have hc := List.getElem?_eq_getElem hctx
    exact ⟨_, hc, hs.context_live he (List.mem_of_getElem? hc) ⟨reader, hmem, _, hc, rfl⟩⟩
  cases o with
  | listReaders =>
    have hprocess : (step pcsc fuel .listReaders s).2.process =
        (listReaders pcsc s.process).2 := by
      rw [step, Action.bind_apply, onProcess, Action.zoom_apply]
      rcases listReaders pcsc s.process with ⟨_ | _ | _ | _, p'⟩ <;> rfl
    rw [hprocess]
    exact listReaders_usesOpenContexts hs.sound.owned h
  | copyReader i => exact h.unused (copyReader_calls i s)
  | destroyReader i =>
    cases hreader : s.readers[i]? with
    | none =>
      rw [step, Action.lookup_none hreader]
      exact h
    | some reader =>
      obtain ⟨c, hc, hopen⟩ := hlive i reader hreader
      rw [step, Action.lookup_some hreader, Action.bind_returned (Action.modify_apply _ _),
        onProcess, Action.zoom_apply, Reader.destroy, destroy_apply hc]
      dsimp only
      split_ifs
      · exact h.concat fun ctx hctx => Option.some.inj hctx ▸ hopen
      · exact h
  | connectToCard i =>
    cases hreader : s.readers[i]? with
    | none =>
      rw [step, Action.lookup_none hreader]
      exact h
    | some reader =>
      obtain ⟨c, hc, hopen⟩ := hlive i reader hreader
      have hends := SmartCard.new_ends pcsc fuel c.contextHandle reader.name reader.cardAtr
        s.process.world
      rw [step_connectToCard_world hreader hc]
      exact hends.usesOpenContexts hopen h
  | onCard i o =>
    cases hheld : s.cards[i]? with
    | none =>
      rw [step, Action.lookup_none hheld]
      exact h
    | some held =>
      have hsound := hs.sound.cards held (List.mem_of_getElem? hheld)
      obtain ⟨card, hcard, -⟩ := hsound.card
      have hmoves := (@Session.step_moves _ pcsc fuel (s.session held) o).onCard hcard
        hsound.guards
      rw [step_onCard hheld]
      exact h.unused (Calls.mono (fun _ hcall => Call.noContext_of_cardHandle hcall.1) hmoves)
  | destroyCard i =>
    exact h.unused (destroyCard_calls (fun _ => rfl) i s)

theorem CardsHeld.live {held : HeldCard} {card : CardImpl} (h : s.CardsHeld)
    (hheld : held ∈ s.cards) (hcard : held.smartCard.card = some card)
    (hvalue : card.cardHandle.value ≠ 0) :
    cardLedger.Live card.cardHandle s.process.world.trace :=
  (Ledger.Holds.live_iff h).mpr (mem_heldHandles.mpr ⟨⟨held, hheld, card, hcard, rfl⟩, hvalue⟩)

theorem UsesOpenCards.noCard {w w' : World σ} (h : UsesOpenCards w.trace)
    (hw : PcscCpp.Calls Call.NoCard w w') : UsesOpenCards w'.trace := by
  obtain ⟨new, htrace, hnew⟩ := hw
  rw [htrace]
  exact Ledger.Disciplined.unused h fun e he => Call.openHandle?_of_noCard (hnew e he)

theorem onCard_usesOpenCards (i : Nat) (o : Session.Operation) (hs : s.Accounted)
    (h : UsesOpenCards s.process.world.trace) :
    UsesOpenCards (step pcsc fuel (.onCard i o) s).2.process.world.trace := by
  cases hheld : s.cards[i]? with
  | none =>
    rw [step, Action.lookup_none hheld]
    exact h
  | some held =>
    have hmem := List.mem_of_getElem? hheld
    have hsound := hs.sound.cards held hmem
    obtain ⟨card, hcard, -⟩ := hsound.card
    obtain ⟨new, htrace, hnew⟩ := (@Session.step_moves _ pcsc fuel (s.session held) o).onCard
      hcard hsound.guards
    rw [step_onCard hheld, withSession, htrace]
    by_cases hvalue : card.cardHandle.value = 0
    · refine Ledger.Disciplined.unused h fun e he => ?_
      rw [Call.openHandle?, (hnew e he).1, Option.filter_some, if_neg (by simpa using hvalue)]
    · refine Ledger.Disciplined.live h (hs.cardsHeld.live hmem hcard hvalue) fun e he => ⟨?_, ?_⟩
      · intro cardHandle huses
        have hhandle := (Call.openHandle?_eq_some.mp huses).1
        rw [(hnew e he).1] at hhandle
        exact (Option.some.inj hhandle).symm
      · rw [(cardLedger_quiet (hnew e he).2).closes]
        exact fun h => by cases h

theorem step_usesOpenCards (o : Operation) (hs : s.Accounted)
    (h : UsesOpenCards s.process.world.trace) :
    UsesOpenCards (step pcsc fuel o s).2.process.world.trace := by
  cases o with
  | listReaders =>
    exact UsesOpenCards.noCard h (listReaders_calls (fun _ => rfl) (fun _ => rfl) (fun _ _ => rfl)
      (fun _ _ => rfl) s)
  | copyReader i => exact UsesOpenCards.noCard h (copyReader_calls i s)
  | destroyReader i => exact UsesOpenCards.noCard h (destroyReader_calls (fun _ => rfl) i s)
  | connectToCard i =>
    cases hreader : s.readers[i]? with
    | none =>
      rw [step, Action.lookup_none hreader]
      exact h
    | some reader =>
      have hctx := hs.sound.owned.counted.bound reader.ctx
        (List.mem_map_of_mem (List.mem_of_getElem? hreader))
      rw [step_connectToCard_world hreader (List.getElem?_eq_getElem hctx)]
      exact SmartCard.new_usesOpenCards fuel reader.cardAtr hs.cardsHeld h
  | onCard i o => exact onCard_usesOpenCards i o hs h
  | destroyCard i =>
    cases hheld : s.cards[i]? with
    | none =>
      rw [step, Action.lookup_none hheld]
      exact h
    | some held =>
      have hmem := List.mem_of_getElem? hheld
      obtain ⟨card, hcard, -⟩ := (hs.sound.cards held hmem).card
      rw [step_destroyCard hheld hcard]
      dsimp only
      split_ifs with hvalue
      · exact h
      · refine Ledger.Disciplined.concat h fun cardHandle huses => ?_
        rw [← Option.some.inj (Call.openHandle?_eq_some.mp huses).1]
        exact hs.cardsHeld.live hmem hcard hvalue

theorem states_of_accounted {P : System σ → Prop} {service : σ} {os : List Operation}
    (hstep : ∀ o ∈ os, ∀ s, s.Accounted → P s → P (step pcsc fuel o s).2)
    (hstart : P (start service)) : ∀ s ∈ states (step pcsc fuel) os (start service), P s := by
  have htriple : ∀ o, Action.Triple (fun s => (s.Accounted ∧ P s) ∧ o ∈ os) (step pcsc fuel o)
      (fun _ s => s.Accounted ∧ P s) fun s => s.Accounted ∧ P s := fun o s hs =>
    (step_accounted o s hs.1.1).and_world (hstep o hs.2 s hs.1.1 hs.1.2)
  have hsteps := steps_invariant (C := fun p => p.1 ∈ os) htriple (fun _ hp => mem_of_mem_steps hp)
    ⟨start_accounted service, hstart⟩
  exact states_of_steps hstart fun p hp =>
    hstep p.1 (mem_of_mem_steps hp) p.2 (hsteps p hp).1 (hsteps p hp).2

theorem between_of_accounted {P : System σ → Prop} {service : σ}
    (hstep : ∀ o s, s.Accounted → P s → P (step pcsc fuel o s).2) (hstart : P (start service))
    (os : List Operation) :
    ∀ s ∈ between (step pcsc fuel) os (start service), s.Accounted ∧ P s :=
  between_invariant (fun o s hs => (step_accounted o s hs.1).and_world (hstep o s hs.1 hs.2))
    ⟨start_accounted service, hstart⟩

structure UsesOpen (s : System σ) : Prop where
  established : s.process.Established
  contexts : UsesOpenContexts s.process.world.trace
  cards : UsesOpenCards s.process.world.trace

theorem start_usesOpen (service : σ) : (start service).UsesOpen where
  established := by simp [Process.Established, start, Heap.empty]
  contexts := Ledger.Disciplined.nil
  cards := Ledger.Disciplined.nil

theorem step_usesOpen (o : Operation) (hs : s.Accounted) (h : s.UsesOpen) :
    (step pcsc fuel o s).2.UsesOpen where
  established := step_establishes o s h.established
  contexts := step_usesOpenContexts o hs h.established h.contexts
  cards := step_usesOpenCards o hs h.cards

/-- In every run each call on a context is made after a successful `SCardEstablishContext`
returned it and before it is released, and each call on a card handle after the `SCardConnect`
that returned it and before it is disconnected. -/
theorem resources_used_while_open (pcsc : Service σ) (fuel : Nat) (service : σ)
    (os : List Operation) :
    ∀ s ∈ states (step pcsc fuel) os (start service),
      UsesOpenContexts s.process.world.trace ∧ UsesOpenCards s.process.world.trace := by
  intro s hs
  have hopen := states_of_accounted (fun o _ s hs h => step_usesOpen o hs h)
    (start_usesOpen service) s hs
  exact ⟨hopen.contexts, hopen.cards⟩

theorem resources_used_while_open_oneReader :
    ∃ s ∈ states (step oneReader 1)
        [.listReaders, .connectToCard 0, .destroyReader 0, .onCard 0 .beginTransaction] (start ()),
      contextLedger.Live ⟨1, 0⟩ (s.process.world.trace.take 6) ∧
      cardLedger.Live ⟨1, ⟨1, 0⟩, 4⟩ (s.process.world.trace.take 7) := by
  refine ⟨_, List.mem_cons_of_mem _ (List.mem_cons_of_mem _ (List.mem_cons_of_mem _
    (List.mem_cons_of_mem _ List.mem_cons_self))), ?_⟩
  obtain ⟨hcontexts, hcards⟩ := resources_used_while_open oneReader 1 ()
    [.listReaders, .connectToCard 0, .destroyReader 0, .onCard 0 .beginTransaction] _
    (List.mem_cons_of_mem _ (List.mem_cons_of_mem _ (List.mem_cons_of_mem _
      (List.mem_cons_of_mem _ List.mem_cons_self))))
  exact ⟨hcontexts _ ⟨.releaseContext ⟨1, 0⟩, .done⟩ [_] rfl ⟨1, 0⟩ rfl,
    hcards _ ⟨.beginTransaction ⟨1, ⟨1, 0⟩, 4⟩, .done⟩ [] rfl ⟨1, ⟨1, 0⟩, 4⟩ rfl⟩

end System

end PcscCpp

import PcscCpp.Laws.Resources

/-! What is open between the operations of a program that holds readers and cards. -/

namespace PcscCpp

open Effects MultiString

variable {σ : Type}

def ReleasesLast (t t' : List Exchange) : Prop :=
  ∃ pre last, t' = t ++ (pre ++ last) ∧ (∀ e ∈ pre, e.call.NoRelease) ∧ last.length ≤ 1

section ReleasesLast

variable {pcsc : Service σ} {w w' : World σ}

theorem Calls.releasesLast (h : Calls Call.NoRelease w w') : ReleasesLast w.trace w'.trace := by
  obtain ⟨new, htrace, hnew⟩ := h
  exact ⟨new, [], by rw [htrace, List.append_nil], hnew, Nat.zero_le 1⟩

theorem Calls.releasesLast_after (h : Calls Call.NoRelease w w') (call : Call) :
    ReleasesLast w.trace (w'.after pcsc call).trace := by
  obtain ⟨new, htrace, hnew⟩ := h
  exact ⟨new, [⟨call, (pcsc w'.service call).1⟩],
    by rw [World.after_trace, htrace, List.append_assoc], hnew, Nat.le_refl 1⟩

theorem listing_calls (ctx : ScardContext) :
    Action.Within (Calls Call.NoRelease) (listing pcsc ctx) :=
  (populateReaderNames_calls ctx fun _ => nofun).bind fun readerNames =>
    (getReaderStates_calls ctx (fun _ => nofun) readerNames).bind fun _ => Action.within_pure _

theorem listReaders_releasesLast (p : Process σ) :
    ReleasesLast p.world.trace (listReaders pcsc p).2.world.trace := by
  have hestablish : Calls Call.NoRelease p.world
      (p.world.after pcsc (.establishContext scardScopeUser)) := Calls.after nofun pcsc p.world
  have hcalls : ∀ {o w}, listing pcsc (establishedContext pcsc p.world)
      (p.world.after pcsc (.establishContext scardScopeUser)) = (o, w) →
      Calls Call.NoRelease p.world w := by
    intro o w hrun
    have hlisting := @listing_calls _ pcsc (establishedContext pcsc p.world)
      (p.world.after pcsc (.establishContext scardScopeUser))
    rw [hrun] at hlisting
    exact hestablish.trans hlisting
  have hfinishes := listReaders_finishes pcsc p
  generalize listReaders pcsc p = r at hfinishes
  cases hfinishes with
  | refused => exact hestablish.releasesLast
  | failed e w contexts success value listed => exact (hcalls listed).releasesLast_after _
  | listed readerNames readerStates w contexts success value listed =>
    dsimp only
    split_ifs
    · exact (hcalls listed).releasesLast_after _
    · exact (hcalls listed).releasesLast
  | undefined o w contexts success value listed => exact (hcalls listed).releasesLast

theorem destroy_releasesLast (i : ContextPtr) (p : Process σ) :
    ReleasesLast p.world.trace (ContextPtr.destroy pcsc i p).2.world.trace := by
  have hnone : ReleasesLast p.world.trace p.world.trace := Calls.releasesLast (Extends.refl p.world)
  cases hget : p.contexts.values[i]? with
  | none =>
    rw [ContextPtr.destroy, Action.bind_returned (Action.modify_apply _ _),
      Action.bind_returned (Action.read_apply _ _)]
    split_ifs
    · rw [Heap.values_release, Action.index_of_le (List.getElem?_eq_none_iff.mp hget),
        Action.undefined_bind]
      exact hnone
    · exact hnone
  | some context =>
    rw [destroy_apply hget]
    dsimp only
    split_ifs
    · exact Calls.releasesLast_after (Extends.refl p.world) _
    · exact hnone

end ReleasesLast

/-- What is assumed of the service so that no operation runs into undefined behaviour: the
features are whole records, the last reader name is terminated, and no ATR is longer than
the room for it. -/
structure WellBehaved (pcsc : Service σ) : Prop where
  features : CardImpl.AnswersFeatures pcsc
  names : ∀ st ctx n, (pcsc st (.listReaders ctx (some n))).1.result = scardSSuccess →
    ¬ Overruns 0 ((pcsc st (.listReaders ctx (some n))).1.fill (List.replicate n 0))
  atrs : ∀ st ctx readerStates, (pcsc st (.getStatusChange ctx 0 readerStates)).1.result =
    scardSSuccess → ∀ f ∈ (pcsc st (.getStatusChange ctx 0 readerStates)).1.readerStates,
      f.cbAtr ≤ f.rgbAtr.length

section Completes

variable {pcsc : Service σ} {p : Process σ}

theorem listReaders_completes (h : WellBehaved pcsc) (p : Process σ) :
    (listReaders pcsc p).1.Completes := by
  rcases Context.new_cases pcsc p.world with ⟨e, -, he⟩ | ⟨-, hvalue, hnew⟩
  · rw [listReaders_refused he]
    exact .threw e
  · have hends := listing_ends pcsc (establishedContext pcsc p.world)
      (p.world.after pcsc (.establishContext scardScopeUser))
    have hthrew : ∀ e w, listing pcsc (establishedContext pcsc p.world)
        (p.world.after pcsc (.establishContext scardScopeUser)) = (.threw e, w) →
        (listReaders pcsc p).1.Completes := by
      intro e w hrun
      obtain ⟨contexts, hlisted⟩ := listReaders_threw hnew hvalue hrun
      rw [hlisted]
      split_ifs
      · exact .returned []
      · exact .threw e
    generalize hrun : listing pcsc (establishedContext pcsc p.world)
      (p.world.after pcsc (.establishContext scardScopeUser)) = r at hends
    cases hends with
    | noLength | tooLong | noNames | noStates => exact hthrew _ _ hrun
    | overrun _ names overruns => exact absurd overruns (h.names _ _ _ names)
    | none =>
      obtain ⟨contexts, hlisted⟩ := listReaders_returned hnew hvalue hrun (by simp)
      rw [hlisted]
      exact .returned _
    | states _ _ _ _ states =>
      obtain ⟨contexts, hlisted⟩ := listReaders_returned hnew hvalue hrun
        (fillReaderStates_atr (askedStates_atr _) (h.atrs _ _ _ states))
      rw [hlisted]
      exact .returned _

theorem destroy_completes {i : ContextPtr} (hi : i < p.contexts.values.length) :
    (ContextPtr.destroy pcsc i p).1.Completes := by
  rw [destroy_apply (List.getElem?_eq_getElem hi)]
  exact .returned ()

end Completes

namespace System

variable {pcsc : Service σ} {fuel : Nat}

def Possible (s : System σ) : Operation → Prop
  | .listReaders => True
  | .copyReader i => i < s.readers.length
  | .destroyReader i => i < s.readers.length
  | .connectToCard i => i < s.readers.length
  | .onCard _ _ => False
  | .destroyCard i => i < s.cards.length

theorem step_completes (hpcsc : WellBehaved pcsc) (hfuel : 256 ≤ fuel) {s : System σ}
    (hs : s.Sound) {o : Operation} (ho : s.Possible o) : (step pcsc fuel o s).1.Completes := by
  have hctx : ∀ (i : Nat) (reader : Reader), s.readers[i]? = some reader →
      reader.ctx < s.process.contexts.values.length := fun i reader hreader =>
    hs.owned.counted.bound reader.ctx (List.mem_map_of_mem (List.mem_of_getElem? hreader))
  cases o with
  | listReaders =>
    exact completes_bind (listReaders_completes hpcsc s.process) fun _ _ _ => .returned ()
  | copyReader i =>
    rw [step, Action.lookup_some (List.getElem?_eq_getElem ho)]
    exact .returned ()
  | destroyReader i =>
    have hreader := List.getElem?_eq_getElem ho
    rw [step, Action.lookup_some hreader, Action.bind_returned (Action.modify_apply _ _)]
    exact destroy_completes (hctx i _ hreader)
  | connectToCard i =>
    have hreader := List.getElem?_eq_getElem ho
    rw [step_connectToCard hreader (List.getElem?_eq_getElem (hctx i _ hreader))]
    exact completes_bind (SmartCard.new_completes hpcsc.features hfuel _) fun _ _ _ => .returned ()
  | onCard i o => exact ho.elim
  | destroyCard i =>
    have hheld := List.getElem?_eq_getElem ho
    obtain ⟨card, hcard, -⟩ := (hs.cards _ (List.mem_of_getElem? hheld)).card
    rw [step_destroyCard hheld hcard]
    exact .returned ()

theorem connectToCard_noRelease (i : Nat) :
    Action.Within (Calls Call.NoRelease) (step pcsc fuel (.connectToCard i)) := by
  refine (Action.within_read _).bind fun readers => (Action.within_index _ _).bind fun reader => ?_
  refine Action.Within.bind (Action.within_zoom (R := Process.Calls Call.NoRelease) ?_
    fun _ _ h => h) fun _ _ => Extends.refl _
  exact reader.connectToCard_within fun ctx => Process.calls_onWorld
    ((SmartCard.new_calls fuel ctx reader.name reader.cardAtr).mono
      fun _ _ h => Calls.mono (fun _ hcall => hcall.2) h)

theorem onCard_noRelease (i : Nat) (o : Session.Operation) (s : System σ) :
    Calls Call.NoRelease s (step pcsc fuel (.onCard i o) s).2 := by
  cases hheld : s.cards[i]? with
  | none =>
    rw [step, Action.lookup_none hheld]
    exact Extends.refl s
  | some held =>
    have hmoves := (@Session.step_moves _ pcsc fuel (s.session held) o).plain
    rw [step_onCard hheld]
    exact Calls.mono (fun _ hcall => hcall.noRelease) hmoves

theorem step_releasesLast (o : Operation) (s : System σ) :
    ReleasesLast s.process.world.trace (step pcsc fuel o s).2.process.world.trace := by
  cases o with
  | listReaders =>
    have hprocess : (step pcsc fuel .listReaders s).2.process =
        (listReaders pcsc s.process).2 := by
      rw [step, Action.bind_apply, onProcess, Action.zoom_apply]
      rcases listReaders pcsc s.process with ⟨_ | _ | _ | _, p'⟩ <;> rfl
    rw [hprocess]
    exact listReaders_releasesLast s.process
  | copyReader i => exact Calls.releasesLast (copyReader_calls i s)
  | destroyReader i =>
    cases hreader : s.readers[i]? with
    | none =>
      rw [step, Action.lookup_none hreader]
      exact Calls.releasesLast (Extends.refl s.process.world)
    | some reader =>
      rw [step, Action.lookup_some hreader]
      exact destroy_releasesLast reader.ctx s.process
  | connectToCard i => exact Calls.releasesLast (connectToCard_noRelease i s)
  | onCard i o => exact Calls.releasesLast (onCard_noRelease i o s)
  | destroyCard i =>
    exact Calls.releasesLast (destroyCard_calls (fun _ _ hcall => by cases hcall) i s)

structure Accounted (s : System σ) : Prop where
  sound : s.Sound
  known : s.process.Known
  cardsHeld : s.CardsHeld

theorem start_accounted (service : σ) : (start service).Accounted where
  sound := start_sound service
  known ctx h := absurd h (Ledger.not_opened_nil ctx)
  cardsHeld := Ledger.Holds.nil

theorem step_accounted (o : Operation) :
    Action.Triple Accounted (step pcsc fuel o) (fun _ => Accounted) Accounted := by
  intro s h
  have hknown : Action.Post (fun _ s' => s'.process.Known) (fun s' => s'.process.Known)
      (step pcsc fuel o s) := Action.post_of_world (step_keeps o s h.known)
  have hpost := ((step_sound o s h.sound).and hknown).and (step_cardsHeld o h.sound h.cardsHeld)
  exact hpost.mono (fun _ _ h => ⟨h.1.1, h.1.2, h.2⟩) fun _ h => ⟨h.1.1, h.1.2, h.2⟩

def Holds (s : System σ) (cardHandle : ScardHandle) : Prop :=
  ∃ held ∈ s.cards, ∃ card, held.smartCard.card = some card ∧ card.cardHandle = cardHandle

structure Settled (s : System σ) : Prop where
  alive : ∀ ctx, contextLedger.Opened ctx s.process.world.trace → s.Alive ctx →
    contextLedger.closings ctx s.process.world.trace = 0
  released : ∀ ctx, contextLedger.Opened ctx s.process.world.trace → ¬ s.Alive ctx →
    contextLedger.closings ctx s.process.world.trace = 1
  held : ∀ cardHandle, cardLedger.Opened cardHandle s.process.world.trace → s.Holds cardHandle →
    cardLedger.closings cardHandle s.process.world.trace = 0
  disconnected : ∀ cardHandle, cardLedger.Opened cardHandle s.process.world.trace →
    ¬ s.Holds cardHandle → cardLedger.closings cardHandle s.process.world.trace = 1

theorem mem_heldHandles {s : System σ} {cardHandle : ScardHandle} :
    cardHandle ∈ heldHandles s.cards ↔ s.Holds cardHandle ∧ cardHandle.value ≠ 0 := by
  have hone : ∀ smartCard : SmartCard, cardHandle ∈ smartCard.handles ↔
      (∃ card, smartCard.card = some card ∧ card.cardHandle = cardHandle) ∧
        cardHandle.value ≠ 0 := by
    intro smartCard
    cases hcard : smartCard.card with
    | none => simp [SmartCard.handles, hcard]
    | some card =>
      simp only [SmartCard.handles, hcard, Option.elim_some, ScardHandle.nonzero]
      split_ifs with hvalue
      · simp only [List.not_mem_nil, false_iff]
        rintro ⟨⟨card', hcard', rfl⟩, hne⟩
        obtain rfl := Option.some.inj hcard'
        exact hne hvalue
      · simp only [List.mem_singleton, Option.some.injEq, exists_eq_left']
        exact ⟨fun h => ⟨h.symm, h ▸ hvalue⟩, fun h => h.1.symm⟩
  simp only [heldHandles, List.mem_flatMap, hone, Holds]
  tauto

theorem value_ne_zero {cardHandle : ScardHandle} {trace : List Exchange}
    (h : cardLedger.Opened cardHandle trace) : cardHandle.value ≠ 0 := by
  obtain ⟨⟨call, reply⟩, -, hopens⟩ := h
  cases call with
  | connect =>
    simp only [cardLedger, Option.ite_none_right_eq_some] at hopens
    rw [← Option.some.inj hopens.2]
    exact hopens.1.2
  | _ => cases hopens

theorem Accounted.settled {s : System σ} (h : s.Accounted) : s.Settled where
  alive ctx hctx halive := by
    rw [← releases_eq]
    exact (h.sound.alive_iff (h.known ctx hctx)).mp halive
  released ctx hctx hgone := by
    obtain ⟨i, hi⟩ := List.mem_iff_getElem?.mp (h.known ctx hctx)
    have hreleased := h.sound.owned.released i _ hi
    rw [h.sound.alive_iff (h.known ctx hctx)] at hgone
    rw [← releases_eq, hreleased]
    refine if_pos (by_contra fun hcount => hgone ?_)
    rw [hreleased, if_neg hcount]
  held cardHandle hopened hholds := by
    rw [h.cardsHeld.closed cardHandle hopened,
      if_pos (mem_heldHandles.mpr ⟨hholds, value_ne_zero hopened⟩)]
  disconnected cardHandle hopened hgone := by
    rw [h.cardsHeld.closed cardHandle hopened,
      if_neg fun hheld => hgone (mem_heldHandles.mp hheld).1]

/-- Between the operations of a run every context and every card handle that has no owner any
more was given back exactly once, with the last call of an operation, and no other. -/
theorem resources_released (pcsc : Service σ) (fuel : Nat) (service : σ) (os : List Operation) :
    ∀ s ∈ between (step pcsc fuel) os (start service),
      s.Settled ∧
      (s.readers = [] → s.cards = [] →
        (∀ ctx, contextLedger.Opened ctx s.process.world.trace →
          contextLedger.closings ctx s.process.world.trace = 1) ∧
        ∀ cardHandle, cardLedger.Opened cardHandle s.process.world.trace →
          cardLedger.closings cardHandle s.process.world.trace = 1) ∧
      (∀ o, ReleasesLast s.process.world.trace (step pcsc fuel o s).2.process.world.trace) ∧
      (WellBehaved pcsc → 256 ≤ fuel → ∀ o, s.Possible o → (step pcsc fuel o s).1.Completes) := by
  intro s hs
  have haccounted := between_invariant step_accounted (start_accounted service) s hs
  have hsettled := haccounted.settled
  refine ⟨hsettled, fun hreaders hcards => ⟨fun ctx hctx => ?_, fun cardHandle hopened => ?_⟩,
    fun o => step_releasesLast o s, fun hpcsc hfuel o ho =>
      step_completes hpcsc hfuel haccounted.sound ho⟩
  · refine hsettled.released ctx hctx ?_
    rintro ⟨reader, hreader, -⟩
    simp [hreaders] at hreader
  · refine hsettled.disconnected cardHandle hopened ?_
    rintro ⟨held, hheld, -⟩
    simp [hcards] at hheld

def secondUnsupported : Service Nat
  | n, .establishContext _ => ({ Reply.done with handle := 1 }, n)
  | n, .listReaders _ cchReaders =>
    if cchReaders.any (· < 3) then (.failed scardEInvalidValue, n)
    else (.ofBytes [0x52, 0x00, 0x00], n)
  | n, .connect _ _ _ _ => ({ Reply.done with
      handle := 1, protocolOut := if n = 0 then scardProtocolT1 else 4 }, n + 1)
  | n, _ => (.done, n)

theorem secondUnsupported_wellBehaved : WellBehaved secondUnsupported where
  features _ _ _ := Tlv.covers_zero 4 _
  names st ctx n hok := by
    by_cases hshort : n < 3
    · simp [secondUnsupported, hshort, Reply.failed, scardEInvalidValue, scardSSuccess] at hok
    · have hlists : Lists (0 : ByteType) (encode 0 [[0x52]] ++ List.replicate (n - 3) 0) [[0x52]] :=
        lists_encode (by decide) _
      have hfill : (secondUnsupported st (.listReaders ctx (some n))).1.fill (List.replicate n 0) =
          encode 0 [[0x52]] ++ List.replicate (n - 3) 0 := by
        have htake : ([0x52, 0x00, 0x00] : StringT).take n = [0x52, 0x00, 0x00] :=
          List.take_of_length_le (Nat.le_of_not_lt hshort)
        simp [secondUnsupported, hshort, Reply.ofBytes, Reply.fill, htake, encode]
      exact hfill ▸ hlists.not_overruns
  atrs _ _ _ _ := by simp [secondUnsupported, Reply.done, Reply.failed]

theorem resources_released_twoCards :
    ∃ s ∈ between (step secondUnsupported 256) [.listReaders, .connectToCard 0, .connectToCard 0,
        .destroyReader 0, .destroyCard 0] (start 0),
      contextLedger.closings ⟨1, 0⟩ s.process.world.trace = 1 ∧
      cardLedger.closings ⟨1, ⟨1, 0⟩, 4⟩ s.process.world.trace = 1 ∧
      cardLedger.closings ⟨1, ⟨1, 0⟩, 6⟩ s.process.world.trace = 1 ∧
      (step secondUnsupported 256 .listReaders s).1.Completes := by
  have hlast : ((between (step secondUnsupported 256) [.listReaders, .connectToCard 0,
      .connectToCard 0, .destroyReader 0, .destroyCard 0] (start 0))[5]?.map fun s =>
        (s.readers.length, s.cards.length, [0, 4, 6].map fun n => s.process.world.trace[n]?)) =
      some (0, 0, [
        some ⟨.establishContext scardScopeUser, { Reply.done with handle := 1 }⟩,
        some ⟨SmartCard.connectCall ⟨1, 0⟩ [0x52], { Reply.done with
          handle := 1, protocolOut := scardProtocolT1 }⟩,
        some ⟨SmartCard.connectCall ⟨1, 0⟩ [0x52], { Reply.done with
          handle := 1, protocolOut := 4 }⟩]) := by
    decide +kernel
  obtain ⟨s, hs, heq⟩ := Option.map_eq_some_iff.mp hlast
  simp only [Prod.mk.injEq, List.map_cons, List.map_nil, List.cons.injEq, and_true] at heq
  obtain ⟨hreaders, hcards, hestablish, hconnect, hsecond⟩ := heq
  obtain ⟨-, hreleased, -, hcompletes⟩ := resources_released secondUnsupported 256 0 _ s
    (List.mem_of_getElem? hs)
  obtain ⟨hcontexts, hhandles⟩ := hreleased (List.length_eq_zero_iff.mp hreaders)
    (List.length_eq_zero_iff.mp hcards)
  exact ⟨s, List.mem_of_getElem? hs, hcontexts ⟨1, 0⟩ ⟨_, hestablish, rfl⟩,
    hhandles ⟨1, ⟨1, 0⟩, 4⟩ ⟨_, hconnect, rfl⟩, hhandles ⟨1, ⟨1, 0⟩, 6⟩ ⟨_, hsecond, rfl⟩,
    hcompletes secondUnsupported_wellBehaved (Nat.le_refl 256) .listReaders trivial⟩

end System

end PcscCpp

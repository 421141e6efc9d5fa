import PcscCpp.Laws.Interleaving

namespace PcscCpp

open Effects

variable {σ : Type}

theorem Session.step_threw {pcsc : Service σ} {fuel : Nat} {s s' : Session σ} {o : Operation}
    {e : Exception} (h : step pcsc fuel o s = (.threw e, s')) :
    s'.smartCard = s.smartCard ∧ s'.guards = s.guards ∧ s'.ended = s.ended := by
  have hsend : ∀ {α : Type} (x : SmartCard → Program σ α),
      (do
        let smartCard ← Action.read (·.smartCard)
        let _ ← onWorld (x smartCard) : Action Exception (Session σ) Unit) s = (.threw e, s') →
      s'.smartCard = s.smartCard ∧ s'.guards = s.guards ∧ s'.ended = s.ended := by
    intro α x hrun
    have hworld := send_apply (s := s) x
    rw [hrun] at hworld
    obtain rfl : s' = _ := hworld
    exact ⟨rfl, rfl, rfl⟩
  cases o with
  | beginTransaction => exact beginTransaction_threw h
  | destroyGuard i =>
    cases hguard : s.guards[i]? with
    | none =>
      rw [step_noGuard hguard] at h
      cases h
    | some guard =>
      rw [step_ended hguard] at h
      cases h
  | transmit command => exact hsend (fun smartCard => smartCard.transmit pcsc fuel command) h
  | transmitCTL command lang minlen =>
    exact hsend (fun smartCard => smartCard.transmitCTL pcsc command lang minlen) h

theorem Session.step_threw_depth {pcsc : Service σ} {fuel : Nat} {s s' : Session σ}
    {o : Operation} {e : Exception} (h : step pcsc fuel o s = (.threw e, s')) :
    depthAfter Exchange.bracket s'.world.trace = depthAfter Exchange.bracket s.world.trace := by
  obtain ⟨-, hguards, -⟩ := step_threw h
  have hmoves := @step_moves _ pcsc fuel s o
  rw [h] at hmoves
  cases hmoves with
  | refused => rfl
  | begun => simp at hguards
  | notBegun _ failure =>
    rw [World.after_trace]
    refine depthAfter_still fun e he => ?_
    rw [List.mem_singleton.mp he, Exchange.bracket_notBegun failure]
    trivial
  | ended hguard =>
    have hlength := congrArg List.length hguards
    rw [List.length_eraseIdx_of_lt (List.getElem?_eq_some_iff.mp hguard).1] at hlength
    have := (List.getElem?_eq_some_iff.mp hguard).1
    omega
  | sent _ sends =>
    obtain ⟨new, htrace, hnew⟩ := sends
    rw [htrace]
    refine depthAfter_still fun e he => ?_
    obtain ⟨hsends, card, -, hhandle⟩ := hnew e he
    rcases Exchange.bracket_of_sends hsends hhandle with hb | hb <;> rw [hb] <;> trivial

namespace System

variable {pcsc : Service σ} {fuel : Nat} {s s' : System σ} {e : Exception}

structure Kept (s s' : System σ) : Prop where
  readers : s'.readers = s.readers
  cards : s'.cards = s.cards
  contexts : s.process.contexts.values <+: s'.process.contexts.values

theorem onProcess_threw {α : Type} {x : Action Exception (Process σ) α}
    (h : onProcess x s = (.threw e, s')) :
    ∃ p', x s.process = (.threw e, p') ∧ s' = { s with process := p' } := by
  rw [onProcess, Action.zoom_apply] at h
  obtain ⟨hthrew, rfl⟩ := Prod.mk.inj h
  exact ⟨_, Prod.ext hthrew rfl, rfl⟩

theorem listReaders_threw_kept (hs : s.Sound)
    (h : step pcsc fuel .listReaders s = (.threw e, s')) : Kept s s' := by
  rcases Action.bind_eq_threw.mp h with hlist | ⟨readers, s₁, -, hmodify⟩
  · obtain ⟨p', hthrew, rfl⟩ := onProcess_threw hlist
    have hbase : Owned s.process.contexts.values (s.readers.map (·.ctx)) s.process :=
      { hs.owned with grown := List.prefix_refl _ }
    exact ⟨rfl, rfl, (listReaders_owned.threw hbase hthrew).grown⟩
  · cases hmodify

theorem copyReader_not_threw {i : Nat} : step pcsc fuel (.copyReader i) s ≠ (.threw e, s') := by
  intro h
  cases hreader : s.readers[i]? with
  | none =>
    rw [step, Action.lookup_none hreader] at h
    cases h
  | some reader =>
    rw [step, Action.lookup_some hreader] at h
    cases h

theorem destroyReader_not_threw {i : Nat} (hs : s.Sound) :
    step pcsc fuel (.destroyReader i) s ≠ (.threw e, s') := by
  intro h
  cases hreader : s.readers[i]? with
  | none =>
    rw [step, Action.lookup_none hreader] at h
    cases h
  | some reader =>
    have hctx := hs.owned.counted.bound reader.ctx
      (List.mem_map_of_mem (List.mem_of_getElem? hreader))
    rw [step, Action.lookup_some hreader, Action.bind_returned (Action.modify_apply _ _)] at h
    obtain ⟨p', hthrew, -⟩ := onProcess_threw h
    rw [Reader.destroy, destroy_apply (List.getElem?_eq_getElem hctx)] at hthrew
    cases hthrew

theorem connectToCard_threw_kept {i : Nat} (hs : s.Sound)
    (h : step pcsc fuel (.connectToCard i) s = (.threw e, s')) : Kept s s' := by
  cases hreader : s.readers[i]? with
  | none =>
    rw [step, Action.lookup_none hreader] at h
    cases h
  | some reader =>
    have hctx := hs.owned.counted.bound reader.ctx
      (List.mem_map_of_mem (List.mem_of_getElem? hreader))
    rw [step_connectToCard hreader (List.getElem?_eq_getElem hctx)] at h
    rcases Action.bind_eq_threw.mp h with hconnect | ⟨smartCard, s₁, -, hmodify⟩
    · obtain ⟨p', hthrew, rfl⟩ := onProcess_threw hconnect
      obtain ⟨-, rfl⟩ := Prod.mk.inj hthrew
      exact ⟨rfl, rfl, List.prefix_refl _⟩
    · cases hmodify

theorem onCard_threw_kept {i : Nat} {o : Session.Operation}
    (h : step pcsc fuel (.onCard i o) s = (.threw e, s')) : Kept s s' := by
  cases hheld : s.cards[i]? with
  | none =>
    rw [step, Action.lookup_none hheld] at h
    cases h
  | some held =>
    rw [step_onCard hheld] at h
    obtain ⟨hthrew, rfl⟩ := Prod.mk.inj h
    have hsession := Session.step_threw (Prod.ext hthrew rfl)
    refine ⟨rfl, ?_, List.prefix_refl _⟩
    obtain ⟨hi, rfl⟩ := List.getElem?_eq_some_iff.mp hheld
    obtain ⟨hcard, hguards, hended⟩ := hsession
    rw [withSession, hcard, hguards, hended]
    exact List.set_getElem_self hi

theorem destroyCard_not_threw {i : Nat} (hs : s.Sound) :
    step pcsc fuel (.destroyCard i) s ≠ (.threw e, s') := by
  intro h
  cases hheld : s.cards[i]? with
  | none =>
    rw [step, Action.lookup_none hheld] at h
    cases h
  | some held =>
    obtain ⟨card, hcard, -⟩ := (hs.cards held (List.mem_of_getElem? hheld)).card
    rw [step_destroyCard hheld hcard] at h
    cases h

theorem step_threw_kept {o : Operation} (hs : s.Sound) (h : step pcsc fuel o s = (.threw e, s')) :
    Kept s s' := by
  cases o with
  | listReaders => exact listReaders_threw_kept hs h
  | copyReader i => exact absurd h copyReader_not_threw
  | destroyReader i => exact absurd h (destroyReader_not_threw hs)
  | connectToCard i => exact connectToCard_threw_kept hs h
  | onCard i o => exact onCard_threw_kept h
  | destroyCard i => exact absurd h (destroyCard_not_threw hs)

theorem Kept.alive_iff (h : Kept s s') (hs : s.Sound) (ctx : ScardContext) :
    s'.Alive ctx ↔ s.Alive ctx := by
  have hsame : ∀ reader ∈ s.readers,
      s'.process.contexts.values[reader.ctx]? = s.process.contexts.values[reader.ctx]? := by
    intro reader hreader
    have hctx := hs.owned.counted.bound reader.ctx (List.mem_map_of_mem hreader)
    obtain ⟨rest, hrest⟩ := h.contexts
    rw [← hrest, List.getElem?_append_left hctx]
  rw [Alive, Alive, h.readers]
  constructor
  · rintro ⟨reader, hreader, c, hc, hctx⟩
    exact ⟨reader, hreader, c, hsame reader hreader ▸ hc, hctx⟩
  · rintro ⟨reader, hreader, c, hc, hctx⟩
    exact ⟨reader, hreader, c, (hsame reader hreader).symm ▸ hc, hctx⟩

theorem Accounted.live_iff_alive (h : s.Accounted) (ho : s.UsesOpen) (ctx : ScardContext) :
    contextLedger.Live ctx s.process.world.trace ↔ s.Alive ctx := by
  constructor
  · intro hlive
    rw [h.sound.alive_iff (h.known ctx hlive.opened), releases_eq]
    exact hlive.unclosed
  · intro halive
    obtain ⟨reader, hreader, c, hc, rfl⟩ := id halive
    exact h.context_live ho.established (List.mem_of_getElem? hc) halive

theorem step_threw_depth {o : Operation} (hs : s.Sound)
    (h : step pcsc fuel o s = (.threw e, s')) :
    depthAfter Exchange.bracket s'.process.world.trace =
      depthAfter Exchange.bracket s.process.world.trace := by
  cases o with
  | listReaders =>
    have hcalls := @listReaders_calls _ pcsc fuel Call.Neutral (fun _ _ => rfl) (fun _ _ => rfl)
      (fun _ _ _ => rfl) (fun _ _ _ => rfl) s
    rw [h] at hcalls
    exact Calls.depthAfter_eq hcalls
  | copyReader i => exact absurd h copyReader_not_threw
  | destroyReader i => exact absurd h (destroyReader_not_threw hs)
  | connectToCard i =>
    cases hreader : s.readers[i]? with
    | none =>
      rw [step, Action.lookup_none hreader] at h
      cases h
    | some reader =>
      have hctx := hs.owned.counted.bound reader.ctx
        (List.mem_map_of_mem (List.mem_of_getElem? hreader))
      have hworld := @step_connectToCard_world _ pcsc fuel _ _ _ _ hreader
        (List.getElem?_eq_getElem hctx)
      rw [h] at hworld
      dsimp only at hworld
      rw [hworld]
      exact Calls.depthAfter_eq (SmartCard.new_neutral fuel _ reader.name reader.cardAtr _)
  | onCard i o =>
    cases hheld : s.cards[i]? with
    | none =>
      rw [step, Action.lookup_none hheld] at h
      cases h
    | some held =>
      rw [step_onCard hheld] at h
      obtain ⟨hthrew, rfl⟩ := Prod.mk.inj h
      exact Session.step_threw_depth (Prod.ext hthrew rfl)
  | destroyCard i => exact absurd h (destroyCard_not_threw hs)

/-- An operation of a run that throws changes nothing: the program holds the readers and the
cards that it held, with the guards they had, and the same contexts, card handles and
transactions are open. -/
theorem step_threw_unchanged (pcsc : Service σ) (fuel : Nat) (service : σ) (os : List Operation) :
    ∀ s ∈ between (step pcsc fuel) os (start service), ∀ o e s',
      step pcsc fuel o s = (.threw e, s') →
        s'.readers = s.readers ∧ s'.cards = s.cards ∧
        (∀ ctx, contextLedger.Live ctx s'.process.world.trace ↔
          contextLedger.Live ctx s.process.world.trace) ∧
        (∀ cardHandle, cardLedger.Live cardHandle s'.process.world.trace ↔
          cardLedger.Live cardHandle s.process.world.trace) ∧
        depthAfter Exchange.bracket s'.process.world.trace =
          depthAfter Exchange.bracket s.process.world.trace := by
  intro s hs o e s' hrun
  obtain ⟨haccounted, hopen⟩ := between_of_accounted (P := UsesOpen)
    (fun o s hs h => step_usesOpen o hs h) (start_usesOpen service) os s hs
  have haccounted' : s'.Accounted := (step_accounted o).threw haccounted hrun
  have hopen' : s'.UsesOpen := by
    have := @step_usesOpen _ pcsc fuel s o haccounted hopen
    rwa [hrun] at this
  have hkept := step_threw_kept haccounted.sound hrun
  refine ⟨hkept.readers, hkept.cards, fun ctx => ?_, fun cardHandle => ?_,
    step_threw_depth haccounted.sound hrun⟩
  · rw [haccounted'.live_iff_alive hopen', hkept.alive_iff haccounted.sound,
      haccounted.live_iff_alive hopen]
  · rw [Ledger.Holds.live_iff haccounted'.cardsHeld, Ledger.Holds.live_iff haccounted.cardsHeld,
      hkept.cards]

theorem step_threw_unchanged_unsupported :
    ∃ s ∈ between (step secondUnsupported 256) [.listReaders, .connectToCard 0] (start 0),
      ∃ e s', step secondUnsupported 256 (.connectToCard 0) s = (.threw e, s') ∧
        s'.cards.length = 1 ∧
        (cardLedger.Live ⟨1, ⟨1, 0⟩, 6⟩ s'.process.world.trace ↔
          cardLedger.Live ⟨1, ⟨1, 0⟩, 6⟩ s.process.world.trace) := by
  have hlast : ((between (step secondUnsupported 256) [.listReaders, .connectToCard 0]
      (start 0))[2]?.map fun s => (s.cards.length,
        (step secondUnsupported 256 (.connectToCard 0) s).1)) =
      some (1, .threw ⟨.error, "Unsupported card protocol: 4 in src/SmartCard.cpp:56:"
        ++ "convertToSmartCardProtocol"⟩) := by
    decide +kernel
  obtain ⟨s, hs, heq⟩ := Option.map_eq_some_iff.mp hlast
  obtain ⟨hlength, hthrew⟩ := Prod.mk.inj heq
  have hrun : step secondUnsupported 256 (.connectToCard 0) s =
      (.threw _, (step secondUnsupported 256 (.connectToCard 0) s).2) := Prod.ext hthrew rfl
  obtain ⟨-, hcards, -, hlive, -⟩ := step_threw_unchanged secondUnsupported 256 0 _ s
    (List.mem_of_getElem? hs) _ _ _ hrun
  exact ⟨s, List.mem_of_getElem? hs, _, _, hrun, by rw [hcards, hlength], hlive _⟩

end System

end PcscCpp

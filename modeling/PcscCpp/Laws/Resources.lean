import PcscCpp.Effects.Ledger
import PcscCpp.Laws.Connecting
import PcscCpp.Laws.ListReaders
import PcscCpp.Laws.System

namespace PcscCpp

open Effects

variable {σ : Type}

/-- Contexts are opened by a successful `SCardEstablishContext`, unless they are null. -/
def contextLedger : Ledger Exchange ScardContext where
  opens n e := match e.call with
    | .establishContext _ =>
      if e.reply.result = scardSSuccess ∧ e.reply.handle ≠ 0 then some ⟨e.reply.handle, n⟩ else none
    | _ => none
  closes e := match e.call with
    | .releaseContext ctx => some ctx
    | _ => none
  place ctx := ctx.serial
  place_of_opens := by
    rintro n ⟨_ | _, reply⟩ ctx h <;> simp only [Option.ite_none_right_eq_some, reduceCtorEq] at h
    rw [← Option.some.inj h.2]
  opens_of_closes := by
    rintro n ⟨_ | _, reply⟩ ctx h <;> first | rfl | cases h

/-- Card handles are opened by a successful `SCardConnect`, unless they are zero. -/
def cardLedger : Ledger Exchange ScardHandle where
  opens n e := match e.call with
    | .connect ctx _ _ _ =>
      if e.reply.result = scardSSuccess ∧ e.reply.handle ≠ 0 then some ⟨e.reply.handle, ctx, n⟩
      else none
    | _ => none
  closes e := match e.call with
    | .disconnect cardHandle _ => some cardHandle
    | _ => none
  place cardHandle := cardHandle.serial
  place_of_opens := by
    rintro n ⟨_ | _, reply⟩ cardHandle h <;>
      simp only [Option.ite_none_right_eq_some, reduceCtorEq] at h
    rw [← Option.some.inj h.2]
  opens_of_closes := by
    rintro n ⟨_ | _, reply⟩ cardHandle h <;> first | rfl | cases h

namespace Call

def NoEstablish (call : Call) : Prop := ∀ dwScope, call ≠ .establishContext dwScope

def connects : Call → Bool
  | .connect .. => true
  | .disconnect .. => true
  | _ => false

def NoConnect (call : Call) : Prop := call.connects = false

structure Plain (call : Call) : Prop where
  noEstablish : call.NoEstablish
  noConnect : call.NoConnect
  noRelease : call.NoRelease

theorem plain_of_sends {call : Call} (h : call.sends = true) : call.Plain := by
  cases call with
  | transmit => exact ⟨nofun, rfl, nofun⟩
  | control => exact ⟨nofun, rfl, nofun⟩
  | _ => cases h

end Call

theorem contextLedger_opens {e : Exchange} (h : e.call.NoEstablish) (n : Nat) :
    contextLedger.opens n e = none := by
  obtain ⟨call, reply⟩ := e
  cases call with
  | establishContext dwScope => exact absurd rfl (h dwScope)
  | _ => rfl

theorem cardLedger_quiet {e : Exchange} (h : e.call.NoConnect) : cardLedger.Quiet e := by
  obtain ⟨_ | _, reply⟩ := e <;> first | exact ⟨fun _ => rfl, rfl⟩ | cases h

theorem releases_eq (ctx : ScardContext) (trace : List Exchange) :
    releases ctx trace = contextLedger.closings ctx trace := by
  refine List.countP_congr fun e _ => ?_
  obtain ⟨_ | _, reply⟩ := e <;> simp [contextLedger]

def Process.Known (p : Process σ) : Prop :=
  ∀ ctx, contextLedger.Opened ctx p.world.trace → ⟨ctx⟩ ∈ p.contexts.values

abbrev Process.Keeps (p p' : Process σ) : Prop := p.Known → p'.Known

instance : Std.Refl (Process.Keeps : Process σ → Process σ → Prop) := ⟨fun _ h => h⟩

instance : IsTrans (Process σ) Process.Keeps := ⟨fun _ _ _ h h' hp => h' (h hp)⟩

section Known

variable {pcsc : Service σ} {p : Process σ} {α : Type}

theorem Process.Known.calls (h : p.Known) {w' : World σ} {contexts : Heap Context}
    (hw : PcscCpp.Calls Call.NoEstablish p.world w')
    (hvalues : contexts.values = p.contexts.values) : (⟨w', contexts⟩ : Process σ).Known := by
  obtain ⟨new, htrace, hnew⟩ := hw
  intro ctx hctx
  simp only [htrace] at hctx
  rw [Ledger.opened_append fun e he => contextLedger_opens (hnew e he)] at hctx
  exact hvalues ▸ h ctx hctx

theorem onWorld_keeps {x : Program σ α}
    (hx : Action.Within (Calls Call.NoEstablish) x) :
    Action.Within Process.Keeps (Process.onWorld x) :=
  Action.within_zoom hx fun _ _ hw hp => hp.calls hw rfl

theorem makeShared_keeps : Action.Within Process.Keeps (ContextPtr.makeShared pcsc) := by
  intro p h
  rcases Context.new_cases pcsc p.world with ⟨e, hrefused, he⟩ | ⟨-, -, hnew⟩
  · rw [ContextPtr.makeShared, Action.bind_threw (onWorld_apply he)]
    intro ctx hctx
    simp only [World.after_trace] at hctx
    rcases Ledger.opened_concat.mp hctx with hctx | hctx
    · exact h ctx hctx
    · simp only [contextLedger, Option.ite_none_right_eq_some] at hctx
      exact absurd (hrefused hctx.1.1) hctx.1.2
  · rw [ContextPtr.makeShared, Action.bind_returned (onWorld_apply hnew)]
    intro ctx hctx
    change contextLedger.Opened ctx (p.world.trace ++ [_]) at hctx
    rcases Ledger.opened_concat.mp hctx with hctx | hctx
    · exact List.mem_append_left _ (h ctx hctx)
    · simp only [contextLedger, Option.ite_none_right_eq_some] at hctx
      rw [← Option.some.inj hctx.2]
      exact List.mem_append_right _ List.mem_cons_self

theorem copy_keeps (i : ContextPtr) : Action.Within Process.Keeps
    (ContextPtr.copy i : Action Exception (Process σ) ContextPtr) :=
  Action.Within.bind (fun _ h => h) fun _ => Action.within_pure _

theorem destroy_keeps (i : ContextPtr) :
    Action.Within Process.Keeps (ContextPtr.destroy pcsc i) :=
  destroy_within i (fun _ h => h) fun context => onWorld_keeps (context.destroy_calls nofun)

theorem listReaders_keeps : Action.Within Process.Keeps (listReaders pcsc) :=
  listReaders_within makeShared_keeps
    (fun ctx => onWorld_keeps (populateReaderNames_calls ctx fun _ => nofun))
    (fun ctx readerNames => onWorld_keeps (getReaderStates_calls ctx (fun _ => nofun)
      readerNames))
    copy_keeps destroy_keeps

end Known

namespace Session

variable {pcsc : Service σ} {s s' : Session σ} {o : Operation}

theorem Moves.plain (h : Moves pcsc s o s') : PcscCpp.Calls Call.Plain s.world s'.world := by
  cases h with
  | refused => exact Extends.refl _
  | begun | notBegun | ended => exact Calls.after ⟨nofun, rfl, nofun⟩ _ _
  | sent _ sends => exact Calls.mono (fun _ h => Call.plain_of_sends h.1) sends

theorem Moves.card (h : Moves pcsc s o s') : s'.smartCard.card = s.smartCard.card := by
  cases h <;> rfl

end Session

theorem SmartCard.new_establishes {pcsc : Service σ} (fuel : Nat) (ctx : ScardContext)
    (readerName : StringT) (atr : ByteVector) :
    Action.Within (Calls Call.NoEstablish)
      (SmartCard.new pcsc fuel ctx readerName atr) := by
  intro w
  have hfirst : Calls Call.NoEstablish w
      (w.after pcsc (connectCall ctx readerName)) := Calls.after nofun pcsc w
  have hconnected : Calls Call.NoEstablish w
      (connectedWorld pcsc ctx readerName w) := hfirst.trans (Calls.after nofun pcsc _)
  have hends := SmartCard.new_ends pcsc fuel ctx readerName atr w
  generalize SmartCard.new pcsc fuel ctx readerName atr w = r at hends
  cases hends with
  | refused => exact hfirst
  | connected | undefined | running => exact hconnected
  | unsupported =>
    dsimp only
    split_ifs
    · exact hconnected
    · exact hconnected.trans (Calls.after nofun pcsc _)

def ScardHandle.nonzero (cardHandle : ScardHandle) : List ScardHandle :=
  if cardHandle.value = 0 then [] else [cardHandle]

def SmartCard.handles (s : SmartCard) : List ScardHandle :=
  s.card.elim [] fun card => card.cardHandle.nonzero

section Handles

variable {pcsc : Service σ} {ctx : ScardContext} {readerName : StringT} {w : World σ}
  {cardHandle : ScardHandle} {held : List ScardHandle}

theorem holds_refused (h : cardLedger.Holds held w.trace)
    (hfailed : (pcsc w.service (SmartCard.connectCall ctx readerName)).1.result ≠ scardSSuccess) :
    cardLedger.Holds held (w.after pcsc (SmartCard.connectCall ctx readerName)).trace := by
  refine h.quiet fun e he => ?_
  rw [List.mem_singleton.mp he]
  exact ⟨fun n => if_neg fun hopen => hfailed hopen.1, rfl⟩

theorem holds_connected (h : cardLedger.Holds held w.trace)
    (hsuccess : (pcsc w.service (SmartCard.connectCall ctx readerName)).1.result = scardSSuccess) :
    cardLedger.Holds ((SmartCard.connectedHandle pcsc ctx readerName w).nonzero ++ held)
      (SmartCard.connectedWorld pcsc ctx readerName w).trace := by
  have hconnect : cardLedger.Holds
      ((SmartCard.connectedHandle pcsc ctx readerName w).nonzero ++ held)
      (w.after pcsc (SmartCard.connectCall ctx readerName)).trace := by
    rw [ScardHandle.nonzero]
    split_ifs with hvalue
    · refine h.quiet fun e he => ?_
      rw [List.mem_singleton.mp he]
      exact ⟨fun n => if_neg fun hopen => hopen.2 hvalue, rfl⟩
    · exact h.opening (if_pos ⟨hsuccess, hvalue⟩)
  refine hconnect.quiet fun e he => ?_
  rw [List.mem_singleton.mp he]
  exact cardLedger_quiet rfl

theorem holds_disconnected (h : cardLedger.Holds (cardHandle.nonzero ++ held) w.trace) :
    cardLedger.Holds held (if cardHandle.value = 0 then w
      else w.after pcsc (.disconnect cardHandle scardLeaveCard)).trace := by
  rw [ScardHandle.nonzero] at h
  split_ifs at h ⊢ with hvalue
  · exact h
  · exact h.closing rfl

end Handles

namespace System

variable {pcsc : Service σ} {fuel : Nat} {s : System σ}

abbrev Keeps (s s' : System σ) : Prop := Process.Keeps s.process s'.process

instance : Std.Refl (Keeps : System σ → System σ → Prop) := ⟨fun _ h => h⟩

instance : IsTrans (System σ) Keeps := ⟨fun _ _ _ h h' hp => h' (h hp)⟩

theorem onProcess_keeps {α : Type} {x : Action Exception (Process σ) α}
    (hx : Action.Within Process.Keeps x) : Action.Within Keeps (onProcess x) :=
  Action.within_zoom hx fun _ _ h => h

theorem onCard_keeps (i : Nat) (o : Session.Operation) (s : System σ) :
    Keeps s (step pcsc fuel (.onCard i o) s).2 := by
  cases hheld : s.cards[i]? with
  | none =>
    rw [step, Action.lookup_none hheld]
    exact id
  | some held =>
    have hmoves := (@Session.step_moves _ pcsc fuel (s.session held) o).plain
    rw [step_onCard hheld]
    exact fun h => h.calls (Calls.mono (fun _ hcall => hcall.noEstablish) hmoves) rfl

theorem step_keeps (o : Operation) : Action.Within Keeps (step pcsc fuel o) := by
  cases o with
  | listReaders => exact (onProcess_keeps listReaders_keeps).bind fun readers => fun _ h => h
  | copyReader i =>
    refine (Action.within_read _).bind fun readers => ?_
    refine (Action.within_index _ _).bind fun reader => ?_
    refine (onProcess_keeps ?_).bind fun copied => fun _ h => h
    exact (copy_keeps reader.ctx).bind fun _ => Action.within_pure _
  | destroyReader i =>
    refine (Action.within_read _).bind fun readers => ?_
    refine (Action.within_index _ _).bind fun reader => ?_
    exact Action.Within.bind (fun _ h => h) fun _ => onProcess_keeps (destroy_keeps reader.ctx)
  | connectToCard i =>
    refine (Action.within_read _).bind fun readers => ?_
    refine (Action.within_index _ _).bind fun reader => ?_
    refine (onProcess_keeps ?_).bind fun smartCard => fun _ h => h
    exact reader.connectToCard_within fun ctx =>
      onWorld_keeps (SmartCard.new_establishes fuel ctx reader.name reader.cardAtr)
  | onCard i o => exact onCard_keeps i o
  | destroyCard i =>
    refine (Action.within_read _).bind fun cards => (Action.within_index _ _).bind fun held => ?_
    exact Action.Within.bind (fun _ h => h) fun _ =>
      onProcess_keeps (onWorld_keeps (held.smartCard.destroy_calls fun _ => nofun))

def heldHandles (cards : List HeldCard) : List ScardHandle :=
  cards.flatMap fun held => held.smartCard.handles

abbrev CardsHeld (s : System σ) : Prop :=
  cardLedger.Holds (heldHandles s.cards) s.process.world.trace

theorem CardsHeld.calls {s' : System σ} (h : s.CardsHeld) (hcalls : Calls Call.NoConnect s s')
    (hcards : heldHandles s'.cards = heldHandles s.cards) : s'.CardsHeld := by
  obtain ⟨new, htrace, hnew⟩ := hcalls
  dsimp only at htrace
  rw [CardsHeld, htrace, hcards]
  exact Ledger.Holds.quiet h fun e he => cardLedger_quiet (hnew e he)

theorem connectToCard_cardsHeld {i : Nat} (hs : s.Sound) (h : s.CardsHeld) :
    Action.Post (fun _ => CardsHeld) CardsHeld (step pcsc fuel (.connectToCard i) s) := by
  cases hreader : s.readers[i]? with
  | none =>
    rw [step, Action.lookup_none hreader]
    trivial
  | some reader =>
    have hctx := hs.owned.counted.bound reader.ctx
      (List.mem_map_of_mem (List.mem_of_getElem? hreader))
    rw [step_connectToCard hreader (List.getElem?_eq_getElem hctx)]
    have hends := SmartCard.new_ends pcsc fuel s.process.contexts.values[reader.ctx].contextHandle
      reader.name reader.cardAtr s.process.world
    rw [Action.bind_apply, onProcess, Action.zoom_apply, Process.onWorld, Action.zoom_apply]
    generalize SmartCard.new pcsc fuel _ reader.name reader.cardAtr s.process.world = r at hends
    cases hends with
    | refused e failure => exact holds_refused h failure
    | connected card atr protocol success handle =>
      refine Ledger.Holds.perm (holds_connected h success) ?_
      have hcards : heldHandles (s.cards ++ [⟨⟨some card, atr, protocol, false⟩, [], []⟩]) =
          heldHandles s.cards ++ card.cardHandle.nonzero := by
        simp [heldHandles, SmartCard.handles]
      rw [← handle]
      change (_ ++ heldHandles s.cards).Perm (heldHandles (s.cards ++ [_]))
      rw [hcards]
      exact List.perm_append_comm
    | unsupported e success => exact holds_disconnected (holds_connected h success)
    | undefined => trivial
    | running => trivial

theorem heldHandles_perm {cards : List HeldCard} {i : Nat} {held : HeldCard}
    (h : cards[i]? = some held) :
    (heldHandles cards).Perm (held.smartCard.handles ++ heldHandles (cards.eraseIdx i)) := by
  obtain ⟨hi, rfl⟩ := List.getElem?_eq_some_iff.mp h
  exact (List.getElem_cons_eraseIdx_perm hi).symm.flatMap_right _

theorem destroyCard_cardsHeld {i : Nat} (hs : s.Sound) (h : s.CardsHeld) :
    Action.Post (fun _ => CardsHeld) CardsHeld (step pcsc fuel (.destroyCard i) s) := by
  cases hheld : s.cards[i]? with
  | none =>
    rw [step, Action.lookup_none hheld]
    trivial
  | some held =>
    obtain ⟨card, hcard, -⟩ := (hs.cards held (List.mem_of_getElem? hheld)).card
    rw [step_destroyCard hheld hcard]
    have hhandles : held.smartCard.handles = card.cardHandle.nonzero := by
      rw [SmartCard.handles, hcard]
      rfl
    have hperm := heldHandles_perm hheld
    rw [hhandles] at hperm
    exact holds_disconnected (Ledger.Holds.perm h hperm)

theorem heldHandles_set {cards : List HeldCard} {i : Nat} {held held' : HeldCard}
    (h : cards[i]? = some held) (hhandles : held'.smartCard.handles = held.smartCard.handles) :
    heldHandles (cards.set i held') = heldHandles cards := by
  obtain ⟨hi, rfl⟩ := List.getElem?_eq_some_iff.mp h
  have hsame : (cards.map (·.smartCard.handles)).set i held'.smartCard.handles =
      cards.map (·.smartCard.handles) := by
    rw [hhandles]
    conv_rhs => rw [← @List.set_getElem_self _ (cards.map (·.smartCard.handles)) i
      (by simpa using hi)]
    rw [List.getElem_map]
  rw [heldHandles, heldHandles, List.flatMap_def, List.flatMap_def, List.map_set, hsame]

theorem onCard_cardsHeld {i : Nat} (o : Session.Operation) (h : s.CardsHeld) :
    (step pcsc fuel (.onCard i o) s).2.CardsHeld := by
  cases hheld : s.cards[i]? with
  | none =>
    rw [step, Action.lookup_none hheld]
    exact h
  | some held =>
    have hmoves := @Session.step_moves _ pcsc fuel (s.session held) o
    rw [step_onCard hheld]
    refine h.calls (Calls.mono (fun _ hcall => hcall.noConnect) hmoves.plain)
      (heldHandles_set hheld ?_)
    rw [SmartCard.handles, hmoves.card]
    rfl

abbrev SameCards (s s' : System σ) : Prop := s'.cards = s.cards

instance : Std.Refl (SameCards : System σ → System σ → Prop) := ⟨fun _ => rfl⟩

instance : IsTrans (System σ) SameCards := ⟨fun _ _ _ h h' => h'.trans h⟩

theorem onProcess_sameCards {α : Type} (x : Action Exception (Process σ) α) :
    Action.Within SameCards (onProcess x) := fun _ => rfl

theorem copyReader_sameCards (i : Nat) :
    Action.Within SameCards (step pcsc fuel (.copyReader i)) :=
  (Action.within_read _).bind fun _ => (Action.within_index _ _).bind fun reader =>
    (onProcess_sameCards reader.copy).bind fun _ => fun _ => rfl

theorem destroyReader_sameCards (i : Nat) :
    Action.Within SameCards (step pcsc fuel (.destroyReader i)) :=
  (Action.within_read _).bind fun _ => (Action.within_index _ _).bind fun reader =>
    Action.Within.bind (fun _ => rfl) fun _ => onProcess_sameCards (reader.destroy pcsc)

theorem step_cardsHeld (o : Operation) (hs : s.Sound) (h : s.CardsHeld) :
    Action.Post (fun _ => CardsHeld) CardsHeld (step pcsc fuel o s) := by
  cases o with
  | listReaders =>
    have hcards : Action.Within SameCards (step pcsc fuel .listReaders) :=
      (onProcess_sameCards (listReaders pcsc)).bind fun _ => fun _ => rfl
    exact Action.post_of_world (h.calls (listReaders_calls (fun _ => rfl) (fun _ => rfl)
      (fun _ _ => rfl) (fun _ _ => rfl) s) (congrArg heldHandles (hcards s)))
  | copyReader i =>
    exact Action.post_of_world
      (h.calls (copyReader_calls i s) (congrArg heldHandles (copyReader_sameCards i s)))
  | destroyReader i =>
    exact Action.post_of_world (h.calls (destroyReader_calls (fun _ => rfl) i s)
      (congrArg heldHandles (destroyReader_sameCards i s)))
  | connectToCard i => exact connectToCard_cardsHeld hs h
  | onCard i o => exact Action.post_of_world (onCard_cardsHeld o h)
  | destroyCard i => exact destroyCard_cardsHeld hs h

end System

end PcscCpp

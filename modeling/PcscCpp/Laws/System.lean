import PcscCpp.Effects.Runs
import PcscCpp.Laws.Ownership
import PcscCpp.Laws.Transaction
import PcscCpp.Model.System

namespace PcscCpp

open Effects

variable {σ : Type}

def UsesLiveContexts (trace : List Exchange) : Prop :=
  EachAfter (fun pre e => ∀ cardHandle ∈ e.call.cardHandle?, releases cardHandle.context pre = 0)
    trace

namespace UsesLiveContexts

variable {w w' : World σ}

theorem noCard (h : UsesLiveContexts w.trace) (hw : Calls Call.NoCard w w') :
    UsesLiveContexts w'.trace := by
  obtain ⟨new, htrace, hnew⟩ := hw
  rw [htrace]
  refine EachAfter.append_of h fun pre e post hpre cardHandle hcard => ?_
  have hnone : e.call.cardHandle? = none := hnew e (by simp [hpre])
  simp [hnone] at hcard

theorem keeps {ctx : ScardContext} (h : UsesLiveContexts w.trace)
    (hctx : releases ctx w.trace = 0) (hw : Calls (Call.Keeps ctx) w w') :
    UsesLiveContexts w'.trace := by
  obtain ⟨new, htrace, hnew⟩ := hw
  rw [htrace]
  refine EachAfter.append_of h fun pre e post hpre cardHandle hcard => ?_
  rw [(hnew e (by simp [hpre])).1 cardHandle hcard, releases_append, hctx,
    releases_of_noRelease fun x hx => (hnew x (by simp [hpre, hx])).2]

end UsesLiveContexts

/-- A held card was connected under a context, and its guards are guards of it. -/
structure HeldCard.Sound (values : List Context) (held : HeldCard) : Prop where
  card : ∃ card, held.smartCard.card = some card ∧
    ∃ c ∈ values, c.contextHandle = card.cardHandle.context
  guards : ∀ guard ∈ held.guards, held.smartCard.card = some guard.card

theorem HeldCard.Sound.mono {values values' : List Context} {held : HeldCard}
    (h : held.Sound values) (hv : values <+: values') : held.Sound values' where
  card := by
    obtain ⟨card, hcard, c, hc, hctx⟩ := h.card
    exact ⟨card, hcard, c, hv.subset hc, hctx⟩
  guards := h.guards

namespace Session

variable {pcsc : Service σ} {fuel : Nat} {s s' : Session σ} {o : Operation}

theorem Moves.sound {values : List Context} (h : Moves pcsc s o s')
    (hs : (HeldCard.mk s.smartCard s.guards s.ended).Sound values) :
    (HeldCard.mk s'.smartCard s'.guards s'.ended).Sound values := by
  cases h with
  | refused => exact hs
  | begun hcard _ =>
    refine ⟨hs.card, fun guard hguard => ?_⟩
    rcases List.mem_append.mp hguard with hguard | hguard
    · exact hs.guards guard hguard
    · rw [List.mem_singleton.mp hguard]
      exact hcard
  | notBegun => exact hs
  | ended => exact ⟨hs.card, fun guard hguard => hs.guards guard (List.mem_of_mem_eraseIdx hguard)⟩
  | sent => exact hs

theorem Moves.keeps {card : CardImpl} (h : Moves pcsc s o s')
    (hcard : s.smartCard.card = some card)
    (hguards : ∀ guard ∈ s.guards, s.smartCard.card = some guard.card) :
    Calls (Call.Keeps card.cardHandle.context) s.world s'.world := by
  have hissue : ∀ call : Call, call.cardHandle? = some card.cardHandle →
      Calls (Call.Keeps card.cardHandle.context) s.world (s.world.after pcsc call) :=
    fun call hcall => Calls.after (Call.keeps_of_cardHandle hcall) pcsc s.world
  cases h with
  | refused => exact Extends.refl _
  | begun hcard' _ =>
    obtain rfl := Option.some.inj (hcard.symm.trans hcard')
    exact hissue _ rfl
  | notBegun hcard' _ =>
    obtain rfl := Option.some.inj (hcard.symm.trans hcard')
    exact hissue _ rfl
  | ended hguard =>
    have heq := hguards _ (List.mem_of_getElem? hguard)
    rw [hcard, Option.some.injEq] at heq
    exact hissue _ (by rw [heq]; rfl)
  | sent _ sends =>
    refine Calls.mono (fun call hcall => ?_) sends
    obtain ⟨-, card', hcard', hhandle⟩ := hcall
    obtain rfl := Option.some.inj (hcard.symm.trans hcard')
    exact Call.keeps_of_cardHandle hhandle

end Session

namespace System

variable {pcsc : Service σ} {fuel : Nat} {s : System σ}

structure SoundWith (extra : List ContextPtr) (s : System σ) : Prop where
  owned : Owned [] (extra ++ s.readers.map (·.ctx)) s.process
  cards : ∀ held ∈ s.cards, held.Sound s.process.contexts.values

abbrev Sound : System σ → Prop := SoundWith []

theorem start_sound (service : σ) : (start service).Sound where
  owned := {
    counted := Heap.Counted.empty
    grown := List.prefix_refl _
    established := by simp [start, Heap.empty]
    distinct := List.nodup_nil
    released := by simp [start, Heap.empty]
    made := by simp [start, releases] }
  cards := by simp [start]

def Alive (s : System σ) (ctx : ScardContext) : Prop :=
  ∃ reader ∈ s.readers, ∃ c, s.process.contexts.values[reader.ctx]? = some c ∧
    c.contextHandle = ctx

theorem Sound.alive_iff (h : s.Sound) {c : Context} (hc : c ∈ s.process.contexts.values) :
    s.Alive c.contextHandle ↔ releases c.contextHandle s.process.world.trace = 0 := by
  constructor
  · rintro ⟨reader, hreader, c', hc', hctx⟩
    have hpos := h.owned.counted.useCount_ne_zero (List.mem_map_of_mem hreader)
    rw [← hctx, h.owned.released _ c' hc', if_neg hpos]
  · intro hzero
    obtain ⟨i, hi⟩ := List.mem_iff_getElem?.mp hc
    have hpos : s.process.contexts.useCount i ≠ 0 := by
      intro hcount
      rw [h.owned.released i c hi, if_pos hcount] at hzero
      cases hzero
    rw [h.owned.counted.count] at hpos
    obtain ⟨reader, hreader, rfl⟩ :=
      List.mem_map.mp (List.count_pos_iff.mp (Nat.pos_of_ne_zero hpos))
    exact ⟨reader, hreader, c, hi, rfl⟩

theorem Sound.card_alive_iff (h : s.Sound) {i : Nat} {held : HeldCard} {card : CardImpl}
    (hheld : s.cards[i]? = some held) (hcard : held.smartCard.card = some card) :
    s.Alive card.cardHandle.context ↔
      releases card.cardHandle.context s.process.world.trace = 0 := by
  obtain ⟨card', hcard', c, hc, hctx⟩ := (h.cards held (List.mem_of_getElem? hheld)).card
  obtain rfl := Option.some.inj (hcard.symm.trans hcard')
  rw [← hctx]
  exact h.alive_iff hc

section Sound

variable {α : Type} {extra : List ContextPtr} {extra' : α → List ContextPtr}

theorem onProcess_sound {x : Action Exception (Process σ) α} {K : List ContextPtr → Prop}
    (hx : ∀ base owners, K owners → Action.Triple (Owned base (extra ++ owners)) x
      (fun a => Owned base (extra' a ++ owners)) (Owned base owners)) :
    Action.Triple (fun s : System σ => s.SoundWith extra ∧ K (s.readers.map (·.ctx)))
      (onProcess x) (fun a => SoundWith (extra' a)) Sound := by
  rintro s ⟨hs, hK⟩
  have hbase : Owned s.process.contexts.values (extra ++ s.readers.map (·.ctx)) s.process :=
    { hs.owned with grown := List.prefix_refl _ }
  have hafter := hx _ _ hK s.process hbase
  rw [onProcess, Action.zoom_apply]
  revert hafter
  rcases x s.process with ⟨a | e | _ | _, p'⟩ <;> intro hafter
  · exact ⟨{ hafter with grown := List.nil_prefix }, fun held hheld =>
      (hs.cards held hheld).mono hafter.grown⟩
  · exact ⟨{ hafter with grown := List.nil_prefix }, fun held hheld =>
      (hs.cards held hheld).mono hafter.grown⟩
  · trivial
  · trivial

theorem listReaders_sound :
    Action.Triple Sound (step pcsc fuel .listReaders) (fun _ => Sound) Sound := by
  have hlist : Action.Triple (fun s : System σ => s.SoundWith [] ∧ True)
      (onProcess (listReaders pcsc)) (fun readers => SoundWith (readers.map (·.ctx))) Sound :=
    onProcess_sound (K := fun _ => True) fun base owners _ => listReaders_owned
  refine (hlist.pre fun s hs => ⟨hs, trivial⟩).bind fun readers => ?_
  refine (Action.triple_modify _).pre fun s hs => ⟨hs.owned.perm ?_, hs.cards⟩
  simp only [List.map_append, List.nil_append]
  exact List.perm_append_comm

theorem copyReader_sound (i : Nat) :
    Action.Triple Sound (step pcsc fuel (.copyReader i)) (fun _ => Sound) Sound := by
  intro s hs
  cases hreader : s.readers[i]? with
  | none =>
    rw [step, Action.lookup_none hreader]
    trivial
  | some reader =>
    have hcopy : Action.Triple (fun s : System σ => s.SoundWith [] ∧
        reader.ctx ∈ s.readers.map (·.ctx)) (onProcess reader.copy)
        (fun copied => SoundWith [copied.ctx]) Sound := by
      refine onProcess_sound (K := fun owners => reader.ctx ∈ owners) fun base owners hK => ?_
      refine (copy_owned hK).bind fun ctx => ?_
      exact (Action.triple_pure _).pre fun p hp => hp.1 ▸ hp.2
    rw [step, Action.lookup_some hreader]
    refine Action.Triple.bind (R := fun _ => Sound) hcopy (fun copied => ?_) s
      ⟨hs, List.mem_map_of_mem (List.mem_of_getElem? hreader)⟩
    refine (Action.triple_modify _).pre fun s hs => ⟨hs.owned.perm ?_, hs.cards⟩
    simp only [List.map_append, List.map_singleton, List.nil_append]
    exact List.perm_append_comm

theorem destroyReader_sound (i : Nat) :
    Action.Triple Sound (step pcsc fuel (.destroyReader i)) (fun _ => Sound) Sound := by
  intro s hs
  cases hreader : s.readers[i]? with
  | none =>
    rw [step, Action.lookup_none hreader]
    trivial
  | some reader =>
    have hdestroy : Action.Triple (fun s : System σ => s.SoundWith [reader.ctx] ∧ True)
        (onProcess (reader.destroy pcsc)) (fun _ => Sound) Sound :=
      onProcess_sound (K := fun _ => True) fun base owners _ => destroy_owned
    rw [step, Action.lookup_some hreader, Action.bind_returned (Action.modify_apply _ _)]
    refine hdestroy _ ⟨⟨hs.owned.perm ?_, hs.cards⟩, trivial⟩
    obtain ⟨hi, rfl⟩ := List.getElem?_eq_some_iff.mp hreader
    exact (List.getElem_cons_eraseIdx_perm hi).symm.map _

theorem step_connectToCard {i : Nat} {reader : Reader} {c : Context}
    (hreader : s.readers[i]? = some reader)
    (hc : s.process.contexts.values[reader.ctx]? = some c) :
    step pcsc fuel (.connectToCard i) s =
      (onProcess (Process.onWorld (SmartCard.new pcsc fuel c.contextHandle reader.name
        reader.cardAtr)) >>= fun smartCard => Action.modify fun s =>
          { s with cards := s.cards ++ [⟨smartCard, [], []⟩] }) s := by
  rw [step, Action.lookup_some hreader, Action.bind_apply, Action.bind_apply, onProcess,
    Action.zoom_apply, Reader.connectToCard_apply hc]
  rfl

theorem connectToCard_sound (i : Nat) :
    Action.Triple Sound (step pcsc fuel (.connectToCard i)) (fun _ => Sound) Sound := by
  intro s hs
  cases hreader : s.readers[i]? with
  | none =>
    rw [step, Action.lookup_none hreader]
    trivial
  | some reader =>
    have hbase : Owned s.process.contexts.values (s.readers.map (·.ctx)) s.process :=
      { hs.owned with grown := List.prefix_refl _ }
    have hconnect := @connectToCard_owned _ pcsc s.process.contexts.values _ fuel reader s.process
      hbase
    rw [step, Action.lookup_some hreader, Action.bind_apply, onProcess, Action.zoom_apply]
    revert hconnect
    rcases reader.connectToCard pcsc fuel s.process with ⟨smartCard | e | _ | _, p'⟩ <;>
      intro hconnect
    · obtain ⟨howned, c, hc, card, hcard, hctx⟩ := hconnect
      refine ⟨{ howned with grown := List.nil_prefix }, fun held hheld => ?_⟩
      rcases List.mem_append.mp hheld with hheld | hheld
      · exact (hs.cards held hheld).mono howned.grown
      · rw [List.mem_singleton.mp hheld]
        exact ⟨⟨card, hcard, c, hc, hctx.symm⟩, by simp⟩
    · exact ⟨{ hconnect with grown := List.nil_prefix }, fun held hheld =>
        (hs.cards held hheld).mono hconnect.grown⟩
    · trivial
    · trivial

theorem step_onCard {i : Nat} {held : HeldCard} (h : s.cards[i]? = some held)
    (o : Session.Operation) :
    step pcsc fuel (.onCard i o) s = ((Session.step pcsc fuel o (s.session held)).1,
      s.withSession i (Session.step pcsc fuel o (s.session held)).2) := by
  rw [step, Action.lookup_some h, onSession, Action.zoom_apply]

theorem withSession_sound {card : CardImpl} (hs : s.Sound) (i : Nat) {t : Session σ}
    (hcalls : Calls (Call.Keeps card.cardHandle.context) s.process.world t.world)
    (ht : (HeldCard.mk t.smartCard t.guards t.ended).Sound s.process.contexts.values) :
    (s.withSession i t).Sound := by
  refine ⟨hs.owned.calls (Calls.mono (fun _ h => h.2) hcalls), fun held hheld => ?_⟩
  rcases List.mem_or_eq_of_mem_set hheld with hheld | rfl
  · exact hs.cards held hheld
  · exact ht

theorem onCard_sound (i : Nat) (o : Session.Operation) :
    Action.Triple Sound (step pcsc fuel (.onCard i o)) (fun _ => Sound) Sound := by
  intro s hs
  cases hheld : s.cards[i]? with
  | none =>
    rw [step, Action.lookup_none hheld]
    trivial
  | some held =>
    have hsound := hs.cards held (List.mem_of_getElem? hheld)
    obtain ⟨card, hcard, -⟩ := hsound.card
    have hmoves := @Session.step_moves _ pcsc fuel (s.session held) o
    rw [step_onCard hheld]
    exact Action.post_of_world
      (withSession_sound hs i (hmoves.keeps hcard hsound.guards) (hmoves.sound hsound))

theorem step_destroyCard {i : Nat} {held : HeldCard} {card : CardImpl}
    (h : s.cards[i]? = some held) (hcard : held.smartCard.card = some card) :
    step pcsc fuel (.destroyCard i) s = (.returned (), { s with
      process := { s.process with
        world := if card.cardHandle.value = 0 then s.process.world
          else s.process.world.after pcsc (.disconnect card.cardHandle scardLeaveCard) }
      cards := s.cards.eraseIdx i }) := by
  rw [step, Action.lookup_some h, Action.bind_returned (Action.modify_apply _ _), onProcess,
    Action.zoom_apply, Process.onWorld, Action.zoom_apply, SmartCard.destroy, hcard]
  simp only [CardImpl.destroy_apply]

theorem destroyCard_sound (i : Nat) :
    Action.Triple Sound (step pcsc fuel (.destroyCard i)) (fun _ => Sound) Sound := by
  intro s hs
  cases hheld : s.cards[i]? with
  | none =>
    rw [step, Action.lookup_none hheld]
    trivial
  | some held =>
    have hdestroy : Action.Triple (fun s : System σ => s.SoundWith [] ∧ True)
        (onProcess (Process.onWorld (held.smartCard.destroy pcsc))) (fun _ => Sound) Sound := by
      refine onProcess_sound (K := fun _ => True) fun base owners _ => ?_
      exact onWorld_owned (held.smartCard.destroy_calls fun _ => nofun)
    rw [step, Action.lookup_some hheld, Action.bind_returned (Action.modify_apply _ _)]
    exact hdestroy _ ⟨⟨hs.owned, fun held' hheld' =>
      hs.cards held' (List.mem_of_mem_eraseIdx hheld')⟩, trivial⟩

theorem step_sound (o : Operation) :
    Action.Triple Sound (step pcsc fuel o) (fun _ => Sound) Sound := by
  cases o with
  | listReaders => exact listReaders_sound
  | copyReader i => exact copyReader_sound i
  | destroyReader i => exact destroyReader_sound i
  | connectToCard i => exact connectToCard_sound i
  | onCard i o => exact onCard_sound i o
  | destroyCard i => exact destroyCard_sound i

end Sound

/-- The operation makes no call on a card, or a reader of the context is alive. -/
def Sheltered : Operation × System σ → Prop
  | (.onCard i o, s) => ∀ held card, s.cards[i]? = some held → held.smartCard.card = some card →
    (s.session held).Issues card o → s.Alive card.cardHandle.context
  | (.destroyCard i, s) => ∀ held card, s.cards[i]? = some held →
    held.smartCard.card = some card → card.cardHandle.value ≠ 0 →
      s.Alive card.cardHandle.context
  | _ => True

abbrev Calls (S : Call → Prop) : System σ → System σ → Prop :=
  Extends (fun s => s.process.world.trace) fun e => S e.call

section Uses

theorem listReaders_calls {S : Call → Prop} (hestablish : ∀ dwScope, S (.establishContext dwScope))
    (hrelease : ∀ ctx, S (.releaseContext ctx)) (hlist : ∀ ctx buffer, S (.listReaders ctx buffer))
    (hstates : ∀ ctx readerStates, S (.getStatusChange ctx 0 readerStates)) :
    Action.Within (Calls S) (step pcsc fuel .listReaders) :=
  Action.Within.bind (Action.within_zoom
    (PcscCpp.listReaders_calls hestablish hrelease hlist hstates) fun _ _ h => h) fun _ _ =>
      Extends.refl _

theorem copyReader_calls {S : Call → Prop} (i : Nat) :
    Action.Within (Calls S) (step pcsc fuel (.copyReader i)) := by
  refine (Action.within_read _).bind fun readers => (Action.within_index _ _).bind fun reader => ?_
  have hcopy : Action.Within (Process.Calls S)
      (reader.copy : Action Exception (Process σ) Reader) :=
    (copy_calls reader.ctx).bind fun _ => Action.within_pure _
  exact Action.Within.bind (Action.within_zoom hcopy fun _ _ h => h) fun _ _ => Extends.refl _

theorem destroyReader_calls {S : Call → Prop} (hrelease : ∀ ctx, S (.releaseContext ctx))
    (i : Nat) : Action.Within (Calls S) (step pcsc fuel (.destroyReader i)) := by
  refine (Action.within_read _).bind fun readers => (Action.within_index _ _).bind fun reader => ?_
  refine Action.Within.bind (fun _ => Extends.refl _) fun _ => ?_
  exact Action.within_zoom (destroy_calls reader.ctx hrelease) fun _ _ h => h

theorem destroyCard_calls {S : Call → Prop}
    (hdisconnect : ∀ cardHandle, S (.disconnect cardHandle scardLeaveCard)) (i : Nat) :
    Action.Within (Calls S) (step pcsc fuel (.destroyCard i)) := by
  refine (Action.within_read _).bind fun cards => (Action.within_index _ _).bind fun held => ?_
  exact Action.Within.bind (fun _ => Extends.refl _) fun _ => Action.within_zoom
    (Process.calls_onWorld (held.smartCard.destroy_calls hdisconnect)) fun _ _ h => h

theorem connectToCard_keeps (hs : s.Sound) {i : Nat} {reader : Reader}
    (hreader : s.readers[i]? = some reader) :
    ∃ ctx, releases ctx s.process.world.trace = 0 ∧
      Calls (Call.Keeps ctx) s (step pcsc fuel (.connectToCard i) s).2 := by
  have hctx := hs.owned.counted.bound reader.ctx
    (List.mem_map_of_mem (List.mem_of_getElem? hreader))
  have hc : s.process.contexts.values[reader.ctx]? = some s.process.contexts.values[reader.ctx] :=
    List.getElem?_eq_getElem hctx
  obtain ⟨c, hcdef⟩ : ∃ c, c = s.process.contexts.values[reader.ctx] := ⟨_, rfl⟩
  rw [← hcdef] at hc
  have hlive : s.Alive c.contextHandle :=
    ⟨reader, List.mem_of_getElem? hreader, c, hc, rfl⟩
  refine ⟨c.contextHandle, (hs.alive_iff (List.mem_of_getElem? hc)).mp hlive, ?_⟩
  have hcard : Action.Within (Calls (Call.Keeps c.contextHandle) : System σ → System σ → Prop)
      (onProcess (Process.onWorld
        (SmartCard.new pcsc fuel c.contextHandle reader.name reader.cardAtr))) :=
    Action.within_zoom (Process.calls_onWorld
      (SmartCard.new_calls fuel c.contextHandle reader.name reader.cardAtr)) fun _ _ h => h
  rw [step_connectToCard hreader hc]
  exact hcard.bind (fun _ _ => Extends.refl _) s

theorem onCard_usesLiveContexts {i : Nat} {o : Session.Operation} (hs : s.Sound)
    (hshelter : Sheltered (.onCard i o, s)) (h : UsesLiveContexts s.process.world.trace) :
    UsesLiveContexts (step pcsc fuel (.onCard i o) s).2.process.world.trace := by
  cases hheld : s.cards[i]? with
  | none =>
    rw [step, Action.lookup_none hheld]
    exact h
  | some held =>
    have hsound := hs.cards held (List.mem_of_getElem? hheld)
    obtain ⟨card, hcard, -⟩ := hsound.card
    rw [step_onCard hheld]
    by_cases hissues : (s.session held).Issues card o
    · have hlive := hshelter held card hheld hcard hissues
      rw [hs.card_alive_iff hheld hcard] at hlive
      have hmoves := @Session.step_moves _ pcsc fuel (s.session held) o
      exact h.keeps hlive (hmoves.keeps hcard hsound.guards)
    · have hsame := @Session.step_not_issues _ pcsc fuel (s.session held) card o hcard hissues
      rw [withSession, hsame]
      exact h

theorem destroyCard_usesLiveContexts {i : Nat} (hs : s.Sound)
    (hshelter : Sheltered (.destroyCard i, s)) (h : UsesLiveContexts s.process.world.trace) :
    UsesLiveContexts (step pcsc fuel (.destroyCard i) s).2.process.world.trace := by
  cases hheld : s.cards[i]? with
  | none =>
    rw [step, Action.lookup_none hheld]
    exact h
  | some held =>
    obtain ⟨card, hcard, -⟩ := (hs.cards held (List.mem_of_getElem? hheld)).card
    rw [step_destroyCard hheld hcard]
    by_cases hvalue : card.cardHandle.value = 0
    · rw [if_pos hvalue]
      exact h
    · have hlive := hshelter held card hheld hcard hvalue
      rw [hs.card_alive_iff hheld hcard] at hlive
      rw [if_neg hvalue]
      have hkeeps : Call.Keeps card.cardHandle.context
          (.disconnect card.cardHandle scardLeaveCard) := Call.keeps_of_cardHandle rfl
      exact h.keeps hlive (Calls.after hkeeps pcsc s.process.world)

theorem step_usesLiveContexts (o : Operation) (hs : s.Sound) (hshelter : Sheltered (o, s))
    (h : UsesLiveContexts s.process.world.trace) :
    UsesLiveContexts (step pcsc fuel o s).2.process.world.trace := by
  cases o with
  | listReaders =>
    exact h.noCard (listReaders_calls (fun _ => rfl) (fun _ => rfl) (fun _ _ => rfl)
      (fun _ _ => rfl) s)
  | copyReader i => exact h.noCard (copyReader_calls i s)
  | destroyReader i => exact h.noCard (destroyReader_calls (fun _ => rfl) i s)
  | connectToCard i =>
    cases hreader : s.readers[i]? with
    | none =>
      rw [step, Action.lookup_none hreader]
      exact h
    | some reader =>
      obtain ⟨ctx, hctx, hcalls⟩ := @connectToCard_keeps _ pcsc fuel s hs i reader hreader
      exact h.keeps hctx hcalls
  | onCard i o => exact onCard_usesLiveContexts hs hshelter h
  | destroyCard i => exact destroyCard_usesLiveContexts hs hshelter h

theorem sheltered_of_usesLiveContexts (o : Operation) (hs : s.Sound)
    (h : UsesLiveContexts (step pcsc fuel o s).2.process.world.trace) : Sheltered (o, s) := by
  have hfirst : ∀ (e : Exchange) (rest : List Exchange) (cardHandle : ScardHandle),
      e.call.cardHandle? = some cardHandle →
      (step pcsc fuel o s).2.process.world.trace = s.process.world.trace ++ e :: rest →
      releases cardHandle.context s.process.world.trace = 0 := fun e rest cardHandle he htrace =>
    h _ e rest htrace cardHandle he
  cases o with
  | onCard i o =>
    intro held card hheld hcard hissues
    have hsound := hs.cards held (List.mem_of_getElem? hheld)
    obtain ⟨call, hcall, reply, rest, htrace, -⟩ :=
      @Session.step_issues _ pcsc fuel (s.session held) card o hcard hsound.guards hissues
    rw [step_onCard hheld] at hfirst
    rw [hs.card_alive_iff hheld hcard]
    exact hfirst ⟨call, reply⟩ rest card.cardHandle hcall htrace
  | destroyCard i =>
    intro held card hheld hcard hvalue
    rw [step_destroyCard hheld hcard, if_neg hvalue] at hfirst
    rw [hs.card_alive_iff hheld hcard]
    exact hfirst ⟨.disconnect card.cardHandle scardLeaveCard, _⟩ [] card.cardHandle rfl rfl
  | _ => trivial

end Uses

/-- In every run the cards use live contexts exactly when a reader of the context is alive
whenever a call is made on a card. -/
theorem usesLiveContexts_iff (pcsc : Service σ) (fuel : Nat) (service : σ) (os : List Operation) :
    (∀ s ∈ states (step pcsc fuel) os (start service), UsesLiveContexts s.process.world.trace) ↔
      ∀ p ∈ steps (step pcsc fuel) os (start service), Sheltered p :=
  forall_states_iff step_sound (fun o _ hs h => ⟨sheltered_of_usesLiveContexts o hs,
    fun hshelter => step_usesLiveContexts o hs hshelter h⟩) (start_sound service) (eachAfter_nil _)

def oneReader : Service Unit
  | _, .establishContext _ => ({ Reply.done with handle := 1 }, ())
  | _, .listReaders _ _ => (.ofBytes [0x52, 0x00, 0x00], ())
  | _, .connect _ _ _ _ => ({ Reply.done with handle := 1, protocolOut := scardProtocolT1 }, ())
  | _, _ => (.done, ())

/-- The card outlives the readers, as in a helper that returns the card of a reader it
has listed, and begins a transaction under the released context. -/
theorem card_outlives_context :
    ∃ s ∈ states (step oneReader 1)
        [.listReaders, .connectToCard 0, .destroyReader 0, .onCard 0 .beginTransaction] (start ()),
      ¬ UsesLiveContexts s.process.world.trace := by
  refine ⟨_, List.mem_cons_of_mem _ (List.mem_cons_of_mem _ (List.mem_cons_of_mem _
    (List.mem_cons_of_mem _ List.mem_cons_self))), fun h => ?_⟩
  have hreleased := h _ ⟨.beginTransaction ⟨1, ⟨1, 0⟩, 4⟩, .done⟩ [] rfl ⟨1, ⟨1, 0⟩, 4⟩ rfl
  exact absurd hreleased (by decide)

end System

end PcscCpp

import PcscCpp.Effects.Simulation
import PcscCpp.Laws.Handles
import PcscCpp.Laws.Provenance

namespace PcscCpp

open Effects Effects.Action

variable {σ ρ : Type}

/-- What one card handle shows of the outside: what the service keeps for it, and the calls
on it. -/
def World.seenBy (view : ScardHandle → σ → ρ) (cardHandle : ScardHandle) (w : World σ) : World ρ :=
  ⟨view cardHandle w.service, w.trace.filter fun e => e.call.cardHandle? = some cardHandle⟩

/-- The service answers the calls on a handle from what it keeps for that handle, and they leave
what it keeps for the other handles as it is. -/
structure ServedApart (pcsc : Service σ) (card : Service ρ) (view : ScardHandle → σ → ρ) :
    Prop where
  reply : ∀ st call cardHandle, call.cardHandle? = some cardHandle →
    (pcsc st call).1 = (card (view cardHandle st) call).1
  next : ∀ st call cardHandle, call.cardHandle? = some cardHandle →
    view cardHandle (pcsc st call).2 = (card (view cardHandle st) call).2
  others : ∀ st call cardHandle other, call.cardHandle? = some cardHandle → other ≠ cardHandle →
    view other (pcsc st call).2 = view other st

namespace ServedApart

variable {pcsc : Service σ} {card : Service ρ} {view : ScardHandle → σ → ρ} {call : Call}
  {cardHandle other : ScardHandle}

theorem seenBy_after (h : ServedApart pcsc card view) (hcall : call.cardHandle? = some cardHandle)
    (w : World σ) :
    (w.after pcsc call).seenBy view cardHandle = (w.seenBy view cardHandle).after card call := by
  simp only [World.seenBy, World.after, h.next _ _ _ hcall, h.reply _ _ _ hcall,
    List.filter_append, List.filter_singleton, hcall, decide_true, cond_true]

theorem seenBy_after_other (h : ServedApart pcsc card view)
    (hcall : call.cardHandle? = some cardHandle) (hother : other ≠ cardHandle) (w : World σ) :
    (w.after pcsc call).seenBy view other = w.seenBy view other := by
  have hne : call.cardHandle? ≠ some other := by
    rw [hcall]
    exact fun h => hother (Option.some.inj h).symm
  simp only [World.seenBy, World.after, h.others _ _ _ _ hcall hother, List.filter_append,
    List.filter_singleton, hne, decide_false, cond_false, List.append_nil]

def Sees (view : ScardHandle → σ → ρ) (cardHandle : ScardHandle) (shown : ScardHandle → World ρ)
    (w : World σ) (v : World ρ) : Prop :=
  w.seenBy view cardHandle = v ∧ ∀ other, other ≠ cardHandle → w.seenBy view other = shown other

theorem simulates_issue (h : ServedApart pcsc card view)
    (hcall : call.cardHandle? = some cardHandle) (shown : ScardHandle → World ρ) :
    Simulates (Sees view cardHandle shown) Eq (issue pcsc call) (issue card call) := by
  rintro w _ ⟨rfl, hothers⟩
  rw [issue_apply, issue_apply]
  refine ⟨.returned (h.reply _ _ _ hcall), h.seenBy_after hcall w, fun other hother => ?_⟩
  rw [h.seenBy_after_other hcall hother]
  exact hothers other hother

end ServedApart

section Card

variable {pcsc : Service σ} {service : Service ρ} {R : World σ → World ρ → Prop}

theorem simulates_scardCall {callerFunctionName file : String} {line : Nat} {call : Call}
    (h : Simulates R Eq (issue pcsc call) (issue service call)) :
    Simulates R Eq (scardCall pcsc callerFunctionName file line call)
      (scardCall service callerFunctionName file line call) := by
  refine h.bind ?_
  rintro reply _ rfl
  split_ifs
  · exact simulates_pure rfl
  · exact simulates_throw _

namespace CardImpl

variable {card : CardImpl}
  (h : ∀ call : Call, call.cardHandle? = some card.cardHandle →
    Simulates R Eq (issue pcsc call) (issue service call))

include h

theorem transmitBytes_simulates (fuel : Nat) (commandBytes : ByteVector) :
    Simulates R Eq (transmitBytes pcsc card fuel commandBytes)
      (transmitBytes service card fuel commandBytes) := by
  have hwith : ∀ {rest : ResponseApdu → Program σ ResponseApdu}
      {rest' : ResponseApdu → Program ρ ResponseApdu},
      (∀ r, Simulates R Eq (rest r) (rest' r)) → ∀ commandBytes,
        Simulates R Eq (transmitBytesWith pcsc card rest commandBytes)
          (transmitBytesWith service card rest' commandBytes) := by
    intro rest rest' hrest commandBytes
    refine (simulates_scardCall (h _ rfl)).bind ?_
    rintro reply _ rfl
    refine (simulates_ofExcept _).bind ?_
    rintro response _ rfl
    split_ifs
    · exact hrest response
    · exact simulates_pure rfl
  induction fuel generalizing commandBytes with
  | zero => exact hwith (fun _ => simulates_running) commandBytes
  | succ fuel ih =>
    refine hwith (fun response => ?_) commandBytes
    refine (simulates_loop (fun _ => simulates_pure rfl) (fun s => ?_) _ _).bind ?_
    · refine (ih _).bind ?_
      rintro response _ rfl
      exact simulates_pure rfl
    · rintro s _ rfl
      exact simulates_pure rfl

theorem transmitBytesCTL_simulates (commandBytes : ByteVector) (lang : UInt16) (minlen : UInt8) :
    Simulates R Eq (transmitBytesCTL pcsc card commandBytes lang minlen)
      (transmitBytesCTL service card commandBytes lang minlen) := by
  refine (simulates_ofExcept _).bind ?_
  rintro ioctl _ rfl
  refine (simulates_scardCall (h _ rfl)).bind ?_
  rintro reply _ rfl
  dsimp only
  split_ifs
  · refine (simulates_ofExcept _).bind ?_
    rintro finish _ rfl
    refine (simulates_scardCall (h _ rfl)).bind ?_
    rintro reply' _ rfl
    exact simulates_ofExcept _
  · exact simulates_ofExcept _

theorem beginTransaction_simulates :
    Simulates R Eq (beginTransaction pcsc card) (beginTransaction service card) :=
  (simulates_scardCall (h _ rfl)).bind fun _ _ _ => simulates_pure rfl

theorem endTransaction_simulates :
    Simulates R Eq (endTransaction pcsc card) (endTransaction service card) :=
  (simulates_scardCall (h _ rfl)).bind fun _ _ _ => simulates_pure rfl

end CardImpl

theorem SmartCard.requireTransaction_simulates {s : SmartCard} {α : Type} {nullLine line : Nat}
    {func : String} {body : CardImpl → Program σ α} {body' : CardImpl → Program ρ α}
    (h : ∀ card ∈ s.card, Simulates R Eq (body card) (body' card)) :
    Simulates R Eq (s.requireTransaction nullLine line func body)
      (s.requireTransaction nullLine line func body') := by
  unfold requireTransaction
  cases hcard : s.card with
  | none => exact simulates_throw _
  | some card =>
    dsimp only
    split_ifs
    · exact simulates_throw _
    · exact h card hcard

structure Session.Shows (R : World σ → World ρ → Prop) (cardHandle : ScardHandle)
    (s : Session σ) (t : Session ρ) : Prop where
  smartCard : s.smartCard = t.smartCard
  guards : s.guards.map (·.card) = t.guards.map (·.card)
  card : ∀ card ∈ s.smartCard.card, card.cardHandle = cardHandle
  guard : ∀ guard ∈ s.guards, guard.card.cardHandle = cardHandle
  world : R s.world t.world

namespace Session

variable {cardHandle : ScardHandle}

theorem Shows.onWorld {α : Type} {x : Program σ α} {y : Program ρ α} (h : Simulates R Eq x y) :
    Simulates (Shows R cardHandle) Eq (Session.onWorld x) (Session.onWorld y) :=
  h.zoom (fun _ _ hshows => hshows.world) fun _ _ _ _ hshows hR => { hshows with world := hR }

theorem setInProgress_simulates (inProgress : Bool) :
    Simulates (Shows R cardHandle) Eq (setInProgress inProgress) (setInProgress inProgress) :=
  simulates_modify fun _ _ h => { h with smartCard := by rw [h.smartCard] }

theorem smartCard_simulates : Simulates (Shows R cardHandle)
    (fun smartCard smartCard' => smartCard = smartCard' ∧
      ∀ card ∈ smartCard.card, card.cardHandle = cardHandle)
    (Action.read (·.smartCard) : Action Exception (Session σ) SmartCard)
    (Action.read (·.smartCard) : Action Exception (Session ρ) SmartCard) :=
  simulates_read fun _ _ h => ⟨h.smartCard, h.card⟩

variable (h : ∀ call : Call, call.cardHandle? = some cardHandle →
    Simulates R Eq (issue pcsc call) (issue service call))

include h

theorem guard_simulates {card : CardImpl} (hcard : card.cardHandle = cardHandle) :
    Simulates (Shows R cardHandle) (fun guard guard' => guard.card = guard'.card ∧
      guard.card.cardHandle = cardHandle) (TransactionGuard.new pcsc card)
      (TransactionGuard.new service card) := by
  subst hcard
  refine (simulates_read (Q := fun _ _ => True) fun _ _ _ => trivial).bind fun _ _ _ => ?_
  refine (Shows.onWorld (CardImpl.beginTransaction_simulates h)).bind fun _ _ _ => ?_
  exact (setInProgress_simulates true).bind fun _ _ _ => simulates_pure ⟨rfl, rfl⟩

theorem beginTransaction_simulates : Simulates (Shows R cardHandle)
    (fun guard guard' => guard.card = guard'.card ∧ guard.card.cardHandle = cardHandle)
    (beginTransaction pcsc) (beginTransaction service) := by
  refine (simulates_read (Q := fun card card' => card = card' ∧
    ∀ c ∈ card, c.cardHandle = cardHandle) fun s t hshows => ?_).bind ?_
  · exact ⟨congrArg SmartCard.card hshows.smartCard, hshows.card⟩
  · rintro card _ ⟨rfl, hcard⟩
    cases card with
    | none => exact simulates_throw _
    | some card => exact guard_simulates h (hcard card rfl)

theorem destroyGuard_simulates {guard guard' : TransactionGuard}
    (hsame : guard.card = guard'.card) (hcard : guard.card.cardHandle = cardHandle) :
    Simulates (Shows R cardHandle) Eq (guard.destroy pcsc) (guard'.destroy service) := by
  subst hcard
  refine (setInProgress_simulates false).bind fun _ _ _ => ?_
  rw [← hsame]
  exact (Shows.onWorld (CardImpl.endTransaction_simulates h)).tryCatch fun _ => simulates_pure rfl

theorem step_simulates (fuel : Nat) (o : Operation) :
    Simulates (Shows R cardHandle) Eq (step pcsc fuel o) (step service fuel o) := by
  cases o with
  | beginTransaction =>
    refine (beginTransaction_simulates h).bind ?_
    rintro guard guard' ⟨hsame, hcard⟩
    refine simulates_modify fun s t hshows => { hshows with guards := ?_, guard := ?_ }
    · simp [hshows.guards, hsame]
    · intro g hg
      rcases List.mem_append.mp hg with hg | hg
      · exact hshows.guard g hg
      · rwa [List.mem_singleton.mp hg]
  | destroyGuard i =>
    refine (simulates_read (Q := fun guards guards' : List TransactionGuard =>
      guards.map (·.card) = guards'.map (·.card) ∧
        ∀ guard ∈ guards, guard.card.cardHandle = cardHandle)
      fun s t hshows => ⟨hshows.guards, hshows.guard⟩).bind ?_
    rintro guards guards' ⟨hguards, hguard⟩
    refine (simulates_index hguards i).bind ?_
    rintro guard guard' ⟨hmem, hsame⟩
    refine (simulates_read (Q := fun _ _ => True) fun _ _ _ => trivial).bind fun _ _ _ => ?_
    refine (destroyGuard_simulates h hsame (hguard guard hmem)).bind fun _ _ _ => ?_
    refine simulates_modify fun s t hshows => { hshows with guards := ?_, guard := ?_ }
    · simp [← List.eraseIdx_map, hshows.guards]
    · exact fun g hg => hshows.guard g (List.mem_of_mem_eraseIdx hg)
  | transmit command =>
    refine smartCard_simulates.bind ?_
    rintro smartCard _ ⟨rfl, hcard⟩
    refine (Shows.onWorld (SmartCard.requireTransaction_simulates fun card hmem => ?_)).bind
      fun _ _ _ => simulates_pure rfl
    refine (simulates_ofExcept _).bind ?_
    rintro commandBytes _ rfl
    exact CardImpl.transmitBytes_simulates (hcard card hmem ▸ h) fuel commandBytes
  | transmitCTL command lang minlen =>
    refine smartCard_simulates.bind ?_
    rintro smartCard _ ⟨rfl, hcard⟩
    refine (Shows.onWorld (SmartCard.requireTransaction_simulates fun card hmem => ?_)).bind
      fun _ _ _ => simulates_pure rfl
    refine (simulates_ofExcept _).bind ?_
    rintro commandBytes _ rfl
    exact CardImpl.transmitBytesCTL_simulates (hcard card hmem ▸ h) commandBytes lang minlen

end Session

end Card

namespace System

variable {pcsc : Service σ} {fuel : Nat} {s s' : System σ}

variable {card : Service ρ} {view : ScardHandle → σ → ρ} {n : Nat} {handles : Fin n → ScardHandle}

def onCards (pcsc : Service σ) (fuel n : Nat) (p : Fin n × Session.Operation) :
    Action Exception (System σ) Unit := step pcsc fuel (.onCard p.1 p.2)

def alone (view : ScardHandle → σ → ρ) (s : System σ) (held : HeldCard) : Session ρ :=
  ⟨held.smartCard, held.guards, held.ended, s.process.world.seenBy view held.smartCard.handle⟩

def ShowsAt (view : ScardHandle → σ → ρ) (s : System σ) (i : Nat) (t : Session ρ) : Prop :=
  ∃ held, s.cards[i]? = some held ∧ held.smartCard = t.smartCard ∧
    held.guards.length = t.guards.length ∧
    s.process.world.seenBy view held.smartCard.handle = t.world

def ShowsAll (view : ScardHandle → σ → ρ) (handles : Fin n → ScardHandle) (s : System σ)
    (t : Fin n → Session ρ) : Prop :=
  ∀ i, ∃ held, s.cards[i.val]? = some held ∧ held.smartCard.handle = handles i ∧
    (s.session held).Shows (fun w v => w.seenBy view (handles i) = v) (handles i) (t i)

theorem ShowsAll.showsAt {t : Fin n → Session ρ} (h : ShowsAll view handles s t) (i : Fin n) :
    s.ShowsAt view i (t i) := by
  obtain ⟨held, hheld, hhandle, hshows⟩ := h i
  have hlength := congrArg List.length hshows.guards
  rw [List.length_map, List.length_map] at hlength
  exact ⟨held, hheld, hshows.smartCard, hlength, hhandle ▸ hshows.world⟩

theorem onCards_parted (hapart : ServedApart pcsc card view)
    (hhandles : Function.Injective handles) :
    Parted (onCards pcsc fuel n) (Session.step card fuel) (ShowsAll view handles) := by
  intro i o s t h
  obtain ⟨held, hheld, hhandle, hshows⟩ := h i
  have hmoves := @Session.step_moves _ pcsc fuel (s.session held) o
  obtain ⟨houtcome, hshows'⟩ := Session.step_simulates
    (fun call hcall => hapart.simulates_issue hcall fun cardHandle =>
      s.process.world.seenBy view cardHandle) fuel o (s.session held) (t i)
    { hshows with world := ⟨hshows.world, fun _ _ => rfl⟩ }
  obtain ⟨hworld, hothers⟩ := hshows'.world
  rw [onCards, step_onCard hheld]
  refine ⟨houtcome.eq, fun j => ?_⟩
  by_cases hij : j = i
  · subst hij
    refine ⟨_, List.getElem?_set_self (List.getElem?_eq_some_iff.mp hheld).1, ?_, ?_⟩
    · rw [SmartCard.handle, hmoves.card]
      exact hhandle
    · rw [Function.update_self]
      exact { hshows' with world := hworld }
  · obtain ⟨held', hheld', hhandle', hshown⟩ := h j
    have hplace : i.val ≠ j.val := fun heq => hij (Fin.ext heq.symm)
    refine ⟨held', ?_, hhandle', ?_⟩
    · rw [withSession, List.getElem?_set_ne hplace]
      exact hheld'
    · rw [Function.update_of_ne hij]
      exact { hshown with
        world := (hothers _ fun heq => hij (hhandles heq)).trans hshown.world }

theorem Distinct.injective (h : s.Distinct) :
    Function.Injective fun i : Fin s.cards.length => s.cards[i].smartCard.handle := fun i j hij =>
  Fin.ext (h.place_eq (List.getElem?_eq_getElem i.isLt) (List.getElem?_eq_getElem j.isLt) hij)

theorem Sound.showsAll (hs : s.Sound) :
    ShowsAll view (fun i : Fin s.cards.length => s.cards[i].smartCard.handle) s
      fun i => s.alone view s.cards[i] := by
  intro i
  have hsound := hs.cards _ (List.getElem_mem i.isLt)
  refine ⟨s.cards[i], List.getElem?_eq_getElem i.isLt, rfl, rfl, rfl, fun card hcard => ?_,
    fun guard hguard => ?_, rfl⟩
  · exact (SmartCard.handle_eq hcard).symm
  · exact (SmartCard.handle_eq (hsound.guards guard hguard)).symm

/-- Whatever the program has done before, with a service that keeps the cards apart the
operations on the cards can be carried out in an order, with the outcomes of a log, exactly when
each card alone can carry out its own operations with its own outcomes; and then each card
ends in the state in which it would be alone, having been sent the calls that it would be sent
alone. -/
theorem cards_isolated (pcsc : Service σ) (card : Service ρ) (view : ScardHandle → σ → ρ)
    (hapart : ServedApart pcsc card view) (fuel : Nat) (service : σ) (os : List Operation) :
    ∀ s ∈ between (step pcsc fuel) os (start service),
      ∀ l : List ((Fin s.cards.length × Session.Operation) × Outcome Exception Unit),
        ((∃ s', Ran (onCards pcsc fuel s.cards.length) s l s') ↔
          ∀ i, ∃ t, Ran (Session.step card fuel) (s.alone view s.cards[i]) (part i l) t) ∧
        ∀ s', Ran (onCards pcsc fuel s.cards.length) s l s' →
          ∀ i, ∃ t, Ran (Session.step card fuel) (s.alone view s.cards[i]) (part i l) t ∧
            s'.ShowsAt view i t := by
  intro s hs l
  obtain ⟨haccounted, hdistinct⟩ := between_of_accounted (P := Distinct)
    (fun o s hs h => h.step hs.sound o) (start_distinct service) os s hs
  have hparted := @onCards_parted _ _ _ fuel _ _ _ _ hapart hdistinct.injective
  have hshows := @Sound.showsAll _ _ _ view haccounted.sound
  refine ⟨⟨fun ⟨s', hran⟩ i => ?_, fun halone => ?_⟩, fun s' hran i => ?_⟩
  · obtain ⟨t', -, hparts⟩ := hparted.ran hran hshows
    exact ⟨t' i, hparts i⟩
  · choose t' hparts using halone
    obtain ⟨s', hran, -⟩ := hparted.of_ran hparts hshows
    exact ⟨s', hran⟩
  · obtain ⟨t', hshows', hparts⟩ := hparted.ran hran hshows
    exact ⟨t' i, hparts i, hshows'.showsAt i⟩

def bank (card : Service ρ) : Service (ScardHandle → ρ) := fun st call =>
  match call.cardHandle? with
  | some cardHandle => ((card (st cardHandle) call).1,
      Function.update st cardHandle (card (st cardHandle) call).2)
  | none => ((oneReader () call).1, st)

theorem bank_servedApart (card : Service ρ) :
    ServedApart (bank card) card fun cardHandle st => st cardHandle where
  reply st call cardHandle hcall := by simp only [bank, hcall]
  next st call cardHandle hcall := by simp only [bank, hcall, Function.update_self]
  others st call cardHandle other hcall hother := by
    simp only [bank, hcall, Function.update_of_ne hother]

def oneAnswer : Service Nat
  | 0, .transmit _ _ _ _ => (.ofBytes [0x90, 0x00], 1)
  | n, .transmit _ _ _ _ => (.failed scardWRemovedCard, n)
  | n, call => ((oneReader () call).1, n)

theorem cards_isolated_twoCards :
    ∃ s ∈ between (step (bank oneAnswer) 1) [.listReaders, .connectToCard 0, .connectToCard 0]
        (start fun _ => 0), ∃ i j : Fin s.cards.length, i ≠ j ∧ ∃ s',
      Ran (onCards (bank oneAnswer) 1 s.cards.length) s
        [((i, .beginTransaction), .returned ()), ((j, .beginTransaction), .returned ()),
          ((i, .transmit selectCommand), .returned ()),
          ((j, .transmit selectCommand), .returned ())] s' ∧
      ∃ t, Ran (Session.step oneAnswer 1) (s.alone (fun cardHandle st => st cardHandle) s.cards[j])
        [(.beginTransaction, .returned ()), (.transmit selectCommand, .returned ())] t := by
  have hlast : ((between (step (bank oneAnswer) 1) [.listReaders, .connectToCard 0,
      .connectToCard 0] (start fun _ => 0))[3]?.map fun s => (s.cards.length,
        outcomes (step (bank oneAnswer) 1) [.onCard 0 .beginTransaction,
          .onCard 1 .beginTransaction, .onCard 0 (.transmit selectCommand),
          .onCard 1 (.transmit selectCommand)] s)) =
      some (2, List.replicate 4 (.returned ())) := by
    decide +kernel
  obtain ⟨s, hs, heq⟩ := Option.map_eq_some_iff.mp hlast
  obtain ⟨hlength, houtcomes⟩ := Prod.mk.inj heq
  have hmem := List.mem_of_getElem? hs
  have hall : outcomes (onCards (bank oneAnswer) 1 s.cards.length)
      [(⟨0, by omega⟩, .beginTransaction), (⟨1, by omega⟩, .beginTransaction),
        (⟨0, by omega⟩, .transmit selectCommand), (⟨1, by omega⟩, .transmit selectCommand)] s =
      List.replicate 4 (.returned ()) := houtcomes
  obtain ⟨s', hran⟩ := exists_ran fun r hr => by
    rw [hall] at hr
    rw [List.eq_of_mem_replicate hr]
    exact .returned ()
  rw [hall] at hran
  obtain ⟨t, halone, -⟩ := (cards_isolated (bank oneAnswer) oneAnswer _ (bank_servedApart oneAnswer)
    1 (fun _ => 0) _ s hmem _).2 s' hran ⟨1, by omega⟩
  exact ⟨s, hmem, _, ⟨1, by omega⟩, by simp, s', hran, t, halone⟩

end System

end PcscCpp

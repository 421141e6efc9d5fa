import PcscCpp.Laws.Resources

namespace PcscCpp

open Effects

variable {σ : Type}

/-- The handle of the card; the null object has the null handle. -/
def SmartCard.handle (s : SmartCard) : ScardHandle :=
  s.card.elim ⟨0, ⟨0, 0⟩, 0⟩ (·.cardHandle)

theorem SmartCard.handle_eq {s : SmartCard} {card : CardImpl} (h : s.card = some card) :
    s.handle = card.cardHandle := by
  rw [handle, h, Option.elim_some]

namespace System

variable {pcsc : Service σ} {fuel : Nat} {s s' : System σ}

def cardHandles (cards : List HeldCard) : List ScardHandle := cards.map (·.smartCard.handle)

/-- Every card has its own handle, from a place of its own in the trace. -/
structure Distinct (s : System σ) : Prop where
  nodup : (cardHandles s.cards).Nodup
  before : ∀ cardHandle ∈ cardHandles s.cards,
    cardHandle.serial < s.process.world.trace.length

theorem start_distinct (service : σ) : (start service).Distinct where
  nodup := List.nodup_nil
  before := by simp [start, cardHandles]

namespace Distinct

theorem grown (h : s.Distinct) (hgrown : s.process.world.trace <+: s'.process.world.trace)
    (hcards : (cardHandles s'.cards).Sublist (cardHandles s.cards)) : s'.Distinct where
  nodup := h.nodup.sublist hcards
  before cardHandle hmem :=
    Nat.lt_of_lt_of_le (h.before cardHandle (hcards.subset hmem)) hgrown.length_le

theorem calls {S : Call → Prop} (h : s.Distinct) (hcalls : Calls S s s')
    (hcards : s'.cards = s.cards) : s'.Distinct := by
  obtain ⟨new, htrace, -⟩ := hcalls
  exact h.grown ⟨new, htrace.symm⟩ (hcards ▸ List.Sublist.refl _)

theorem onCard (h : s.Distinct) (i : Nat) (o : Session.Operation) :
    (step pcsc fuel (.onCard i o) s).2.Distinct := by
  cases hheld : s.cards[i]? with
  | none =>
    rw [step, Action.lookup_none hheld]
    exact h
  | some held =>
    have hmoves := @Session.step_moves _ pcsc fuel (s.session held) o
    have hhandle : (Session.step pcsc fuel o (s.session held)).2.smartCard.handle =
        held.smartCard.handle := by
      rw [SmartCard.handle, hmoves.card]
      rfl
    have hsame : cardHandles (s.withSession i
        (Session.step pcsc fuel o (s.session held)).2).cards = cardHandles s.cards := by
      obtain ⟨hi, rfl⟩ := List.getElem?_eq_some_iff.mp hheld
      have hi' : i < (cardHandles s.cards).length := by simpa [cardHandles] using hi
      have hget : (cardHandles s.cards)[i] = s.cards[i].smartCard.handle := List.getElem_map _
      change cardHandles (s.cards.set i _) = _
      rw [cardHandles, List.map_set, hhandle, ← hget]
      exact List.set_getElem_self hi'
    rw [step_onCard hheld]
    exact h.grown hmoves.plain.grown (hsame ▸ List.Sublist.refl _)

theorem connectToCard (h : s.Distinct) (hs : s.Sound) (i : Nat) :
    (step pcsc fuel (.connectToCard i) s).2.Distinct := by
  cases hreader : s.readers[i]? with
  | none =>
    rw [step, Action.lookup_none hreader]
    exact h
  | some reader =>
    have hctx := hs.owned.counted.bound reader.ctx
      (List.mem_map_of_mem (List.mem_of_getElem? hreader))
    have hc := List.getElem?_eq_getElem hctx
    have hends := SmartCard.new_ends pcsc fuel s.process.contexts.values[reader.ctx].contextHandle
      reader.name reader.cardAtr s.process.world
    have hgrown := (@SmartCard.new_calls _ pcsc fuel
      s.process.contexts.values[reader.ctx].contextHandle reader.name reader.cardAtr
      s.process.world).grown
    rw [step_connectToCard hreader hc, Action.bind_apply, onProcess, Action.zoom_apply,
      Process.onWorld, Action.zoom_apply]
    generalize SmartCard.new pcsc fuel _ reader.name reader.cardAtr s.process.world = r
      at hends hgrown
    cases hends with
    | refused | unsupported | undefined | running => exact h.grown hgrown (List.Sublist.refl _)
    | connected card atr protocol success handle =>
      have hserial : card.cardHandle.serial = s.process.world.trace.length := by
        rw [handle]
        rfl
      have hcards : cardHandles (s.cards ++ [⟨⟨some card, atr, protocol, false⟩, [], []⟩]) =
          cardHandles s.cards ++ [card.cardHandle] := by
        simp [cardHandles, SmartCard.handle]
      have hold : Distinct { s with process := { s.process with
          world := SmartCard.connectedWorld pcsc _ reader.name s.process.world } } :=
        h.grown hgrown (List.Sublist.refl _)
      refine ⟨?_, fun cardHandle hmem => ?_⟩
      · change (cardHandles (s.cards ++ [_])).Nodup
        rw [hcards, List.nodup_append]
        refine ⟨h.nodup, List.nodup_singleton _, fun cardHandle hmem new hnew heq => ?_⟩
        have hlt := h.before cardHandle hmem
        rw [heq, List.mem_singleton.mp hnew, hserial] at hlt
        exact Nat.lt_irrefl _ hlt
      · change cardHandle ∈ cardHandles (s.cards ++ [_]) at hmem
        rw [hcards] at hmem
        rcases List.mem_append.mp hmem with hmem | hmem
        · exact hold.before cardHandle hmem
        · rw [List.mem_singleton.mp hmem, hserial]
          simp [SmartCard.connectedWorld]

theorem destroyCard (h : s.Distinct) (hs : s.Sound) (i : Nat) :
    (step pcsc fuel (.destroyCard i) s).2.Distinct := by
  cases hheld : s.cards[i]? with
  | none =>
    rw [step, Action.lookup_none hheld]
    exact h
  | some held =>
    obtain ⟨card, hcard, -⟩ := (hs.cards held (List.mem_of_getElem? hheld)).card
    rw [step_destroyCard hheld hcard]
    refine h.grown ?_ ((List.eraseIdx_sublist _ _).map _)
    dsimp only
    split_ifs
    · exact List.prefix_refl _
    · exact List.prefix_append _ _

theorem step (h : s.Distinct) (hs : s.Sound) (o : Operation) :
    (step pcsc fuel o s).2.Distinct := by
  cases o with
  | listReaders =>
    have hcards : Action.Within SameCards (System.step pcsc fuel .listReaders) :=
      (onProcess_sameCards (PcscCpp.listReaders pcsc)).bind fun _ => fun _ => rfl
    exact h.calls (listReaders_calls (S := fun _ => True) (fun _ => trivial) (fun _ => trivial)
      (fun _ _ => trivial) (fun _ _ => trivial) s) (hcards s)
  | copyReader i =>
    exact h.calls (copyReader_calls (S := fun _ => True) i s) (copyReader_sameCards i s)
  | destroyReader i =>
    exact h.calls (destroyReader_calls (S := fun _ => True) (fun _ => trivial) i s)
      (destroyReader_sameCards i s)
  | connectToCard i => exact h.connectToCard hs i
  | onCard i o => exact h.onCard i o
  | destroyCard i => exact h.destroyCard hs i

end Distinct

theorem Distinct.place_eq {i j : Nat} {held held' : HeldCard} (h : s.Distinct)
    (hi : s.cards[i]? = some held) (hj : s.cards[j]? = some held')
    (hsame : held.smartCard.handle = held'.smartCard.handle) : i = j := by
  have hget : (cardHandles s.cards)[i]? = some held.smartCard.handle := by
    rw [cardHandles, List.getElem?_map, hi, Option.map_some]
  have hget' : (cardHandles s.cards)[j]? = some held.smartCard.handle := by
    rw [cardHandles, List.getElem?_map, hj, Option.map_some, hsame]
  exact (List.getElem?_inj (List.getElem?_eq_some_iff.mp hget).1 h.nodup).mp
    (hget.trans hget'.symm)

end System

end PcscCpp

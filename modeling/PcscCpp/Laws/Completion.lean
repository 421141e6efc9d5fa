import PcscCpp.Laws.Lifetimes
import PcscCpp.Laws.PinPad

namespace PcscCpp

open Effects

variable {σ : Type}

/-- With every answer to a command that announces more data, less is left. -/
def Exhausts (pcsc : Service σ) (rank : σ → Nat) : Prop :=
  ∀ st cardHandle protocol commandBytes,
    (pcsc st (.transmit cardHandle protocol commandBytes ResponseApdu.maxSize)).1.More →
      rank (pcsc st (.transmit cardHandle protocol commandBytes ResponseApdu.maxSize)).2 < rank st

theorem scardCall_completes {pcsc : Service σ} {callerFunctionName file : String} {line : Nat}
    {call : Call} {w : World σ} :
    (scardCall pcsc callerFunctionName file line call w).1.Completes := by
  by_cases hok : (pcsc w.service call).1.result = scardSSuccess
  · rw [scardCall_success hok]
    exact .returned _
  · rw [scardCall_failure hok]
    exact .threw _

theorem ofExcept_completes {α W : Type} (r : Except Exception α) (w : W) :
    ((Action.ofExcept r : Action Exception W α) w).1.Completes := by
  cases r with
  | ok a => exact .returned a
  | error e => exact .threw e

namespace CardImpl

variable {card : CardImpl} {pcsc : Service σ} {rank : σ → Nat} {w : World σ}

theorem transmitBytes_single_completes {commandBytes : ByteVector} (fuel : Nat)
    (h : ¬ (pcsc w.service (card.transmitCall commandBytes)).1.More) :
    (transmitBytes pcsc card fuel commandBytes w).1.Completes := by
  by_cases haccepted : (pcsc w.service (card.transmitCall commandBytes)).1.Accepted
  · rw [transmitBytes_final haccepted h]
    exact .returned _
  · obtain ⟨e, he⟩ := @transmitBytes_rejected _ card pcsc w fuel _ haccepted
    rw [he]
    exact .threw e

theorem transmitBytes_completes (hrank : Exhausts pcsc rank) {fuel : Nat}
    (commandBytes : ByteVector) (hfuel : rank w.service ≤ fuel) :
    (transmitBytes pcsc card fuel commandBytes w).1.Completes := by
  induction fuel generalizing commandBytes w with
  | zero =>
    refine transmitBytes_single_completes 0 fun hmore => ?_
    have := hrank w.service card.cardHandle card.protocol commandBytes hmore
    omega
  | succ fuel ih =>
    by_cases hmore : (pcsc w.service (card.transmitCall commandBytes)).1.More
    · have hless := hrank w.service card.cardHandle card.protocol commandBytes hmore
      have hexchange : exchange pcsc card commandBytes w =
          (.returned (pcsc w.service (card.transmitCall commandBytes)).1.response,
            w.after pcsc (card.transmitCall commandBytes)) := by
        rw [exchange, transmitBytesWith_more hmore, Action.pure_apply]
      rw [transmitBytes_succ, Action.bind_returned hexchange, if_pos hmore.2]
      refine completes_bind (ih _ ?_) fun _ _ _ => .returned _
      exact Nat.le_of_lt_succ (Nat.lt_of_lt_of_le hless hfuel)
    · exact transmitBytes_single_completes (fuel + 1) hmore

theorem transmitBytesCTL_completes (commandBytes : ByteVector) (lang : UInt16) (minlen : UInt8)
    (w : World σ) : (transmitBytesCTL pcsc card commandBytes lang minlen w).1.Completes := by
  refine completes_bind (ofExcept_completes _ _) fun ioctl _ _ => ?_
  refine completes_bind scardCall_completes fun reply _ _ => ?_
  split_ifs
  · refine completes_bind (ofExcept_completes _ _) fun finish _ _ => ?_
    exact completes_bind scardCall_completes fun reply _ _ => ofExcept_completes _ _
  · exact ofExcept_completes _ _

end CardImpl

theorem SmartCard.requireTransaction_completes {s : SmartCard} {α : Type} {nullLine line : Nat}
    {func : String} {body : CardImpl → Program σ α} {w : World σ}
    (h : ∀ card, (body card w).1.Completes) :
    (s.requireTransaction nullLine line func body w).1.Completes := by
  rw [requireTransaction]
  cases s.card with
  | none => exact .threw _
  | some card =>
    dsimp only
    split_ifs
    · exact .threw _
    · exact h card

namespace Session

variable {pcsc : Service σ} {rank : σ → Nat} {fuel : Nat} {s : Session σ}

def Feasible (s : Session σ) : Operation → Prop
  | .destroyGuard i => i < s.guards.length
  | _ => True

theorem step_completes_iff (hrank : Exhausts pcsc rank) (hfuel : rank s.world.service ≤ fuel)
    (o : Operation) : (step pcsc fuel o s).1.Completes ↔ s.Feasible o := by
  cases o with
  | beginTransaction =>
    refine iff_of_true ?_ trivial
    cases hcard : s.smartCard.card with
    | none =>
      obtain ⟨e, he⟩ := @step_noCard _ pcsc fuel s hcard
      rw [he]
      exact .threw e
    | some card =>
      by_cases hok : (pcsc s.world.service (.beginTransaction card.cardHandle)).1.result =
          scardSSuccess
      · rw [step_begun hcard hok]
        exact .returned ()
      · obtain ⟨e, he⟩ := @step_notBegun _ pcsc fuel s card hcard hok
        rw [he]
        exact .threw e
  | destroyGuard i =>
    rcases Nat.lt_or_ge i s.guards.length with hi | hi
    · rw [step_ended (List.getElem?_eq_getElem hi)]
      exact iff_of_true (.returned ()) hi
    · rw [step_noGuard (List.getElem?_eq_none hi)]
      exact iff_of_false (fun h => by cases h) (Nat.not_lt.mpr hi)
  | transmit command =>
    refine iff_of_true ((send_completes_iff fun smartCard =>
      smartCard.transmit pcsc fuel command).mpr ?_) trivial
    refine SmartCard.requireTransaction_completes fun card => ?_
    cases command.toBytes with
    | error e => exact .threw e
    | ok commandBytes => exact CardImpl.transmitBytes_completes hrank commandBytes hfuel
  | transmitCTL command lang minlen =>
    refine iff_of_true ((send_completes_iff fun smartCard =>
      smartCard.transmitCTL pcsc command lang minlen).mpr ?_) trivial
    refine SmartCard.requireTransaction_completes fun card => ?_
    cases command.toBytes with
    | error e => exact .threw e
    | ok commandBytes => exact CardImpl.transmitBytesCTL_completes commandBytes lang minlen s.world

end Session

namespace System

variable {pcsc : Service σ} {rank : σ → Nat} {fuel : Nat} {s : System σ}

def Feasible (s : System σ) : Operation → Prop
  | .onCard i o => ∃ held, s.cards[i]? = some held ∧ (s.session held).Feasible o
  | o => s.Possible o

theorem step_undefined {o : Operation} (h : ¬ s.Feasible o) (ho : ∀ i o', o ≠ .onCard i o') :
    step pcsc fuel o s = (.undefined, s) := by
  cases o with
  | listReaders => exact absurd trivial h
  | copyReader i | destroyReader i | connectToCard i | destroyCard i =>
    rw [step, Action.lookup_none (List.getElem?_eq_none (Nat.not_lt.mp h))]
  | onCard i o => exact absurd rfl (ho i o)

theorem step_completes_iff (hpcsc : WellBehaved pcsc) (hrank : Exhausts pcsc rank)
    (hfuel : 256 ≤ fuel) (hleft : rank s.process.world.service ≤ fuel) (hs : s.Sound)
    (o : Operation) : (step pcsc fuel o s).1.Completes ↔ s.Feasible o := by
  have hother : (∀ i o', o ≠ .onCard i o') → (s.Feasible o → s.Possible o) →
      ((step pcsc fuel o s).1.Completes ↔ s.Feasible o) := by
    intro ho hpossible
    refine ⟨fun hcompletes => by_contra fun h => ?_, fun h =>
      step_completes hpcsc hfuel hs (hpossible h)⟩
    rw [step_undefined h ho] at hcompletes
    cases hcompletes
  cases o with
  | onCard i o =>
    cases hheld : s.cards[i]? with
    | none =>
      rw [step, Action.lookup_none hheld]
      refine iff_of_false (fun h => by cases h) ?_
      rintro ⟨held, hheld', -⟩
      rw [hheld] at hheld'
      cases hheld'
    | some held =>
      rw [step_onCard hheld, Session.step_completes_iff hrank hleft]
      simp [Feasible, hheld]
  | listReaders | copyReader i | destroyReader i | connectToCard i | destroyCard i =>
    exact hother (fun _ _ h => by cases h) id

/-- With a service whose answers are well formed and announce more data only finitely often, an
operation of a run ends with a value or an exception exactly when the objects it is on are there. -/
theorem operations_complete_iff (pcsc : Service σ) (rank : σ → Nat) (fuel : Nat)
    (hpcsc : WellBehaved pcsc) (hrank : Exhausts pcsc rank) (hfuel : 256 ≤ fuel) (service : σ)
    (os : List Operation) :
    ∀ s ∈ between (step pcsc fuel) os (start service), rank s.process.world.service ≤ fuel →
      ∀ o, (step pcsc fuel o s).1.Completes ↔ s.Feasible o := by
  intro s hs hleft o
  have haccounted := between_invariant step_accounted (start_accounted service) s hs
  exact step_completes_iff hpcsc hrank hfuel hleft haccounted.sound o

def inParts : Service Nat
  | 0, .transmit _ _ _ _ => (.ofBytes [0x90, 0x00], 0)
  | n + 1, .transmit _ _ _ _ => (.ofBytes [0x61, 0x00], n)
  | n, call => ((secondUnsupported 0 call).1, n)

theorem inParts_wellBehaved : WellBehaved inParts where
  features st := by cases st <;> exact secondUnsupported_wellBehaved.features 0
  names st := by cases st <;> exact secondUnsupported_wellBehaved.names 0
  atrs st := by cases st <;> exact secondUnsupported_wellBehaved.atrs 0

theorem inParts_exhausts : Exhausts inParts id := by
  intro n cardHandle protocol commandBytes hmore
  have hlast : ¬ (Reply.ofBytes ([] ++ [0x90, 0x00])).More := by
    rw [Reply.more_ofBytes (by decide)]
    decide
  cases n with
  | zero => exact absurd hmore hlast
  | succ n => exact Nat.lt_succ_self n

theorem operations_complete_iff_inParts :
    ∃ s ∈ between (step inParts 256) [.listReaders, .connectToCard 0,
        .onCard 0 .beginTransaction] (start 3),
      (step inParts 256 (.onCard 0 (.transmit selectCommand)) s).1.Completes ∧
      ¬ (step inParts 256 (.onCard 0 (.destroyGuard 1)) s).1.Completes := by
  have hlast : ((between (step inParts 256) [.listReaders, .connectToCard 0,
      .onCard 0 .beginTransaction] (start 3))[3]?.map fun s =>
        (s.cards.map fun held => held.guards.length, s.process.world.service)) = some ([1], 3) := by
    decide +kernel
  obtain ⟨s, hs, heq⟩ := Option.map_eq_some_iff.mp hlast
  obtain ⟨hcards, hservice⟩ := Prod.mk.inj heq
  have hiff := operations_complete_iff inParts id 256 inParts_wellBehaved inParts_exhausts
    (Nat.le_refl 256) 3 _ s (List.mem_of_getElem? hs) (by rw [hservice]; decide)
  obtain ⟨held, hheld, hguards⟩ := List.map_eq_singleton_iff.mp hcards
  refine ⟨s, List.mem_of_getElem? hs, (hiff _).mpr ⟨held, by rw [hheld]; rfl, trivial⟩,
    fun hcompletes => ?_⟩
  obtain ⟨held', hheld', hguard⟩ := (hiff _).mp hcompletes
  rw [hheld] at hheld'
  obtain rfl : held = held' := Option.some.inj hheld'
  have hlt : 1 < held.guards.length := hguard
  omega

end System

end PcscCpp

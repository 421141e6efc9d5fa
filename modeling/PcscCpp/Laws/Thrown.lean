import PcscCpp.Laws.PinPad
import PcscCpp.Laws.Reporting

namespace PcscCpp

open Effects

variable {σ : Type}

section Card

variable {pcsc : Service σ} {P : Exception → Prop}

theorem issue_throws {call : Call} : Action.Throws P (issue pcsc call) := by
  intro w e w' h
  cases h

namespace CardImpl

variable {card : CardImpl} {w w' : World σ} {commandBytes : ByteVector} {e : Exception}

theorem readFeatures_throws (feature : ByteVector) (size fuel : Nat) :
    Action.Throws P (readFeatures feature size fuel : Program σ Features) := by
  refine (Action.throws_loop (fun _ => Action.throws_pure _) (fun s => ?_) fuel _).bind
    fun _ => Action.throws_pure _
  refine (Action.throws_index _ _).bind fun tag => (Action.throws_index _ _).bind fun len => ?_
  refine Action.Throws.bind ?_ fun _ => Action.throws_pure _
  refine Action.throws_foldlM (fun t i => ?_) _ _
  refine (Action.throws_index _ _).bind fun byte => ?_
  split_ifs
  · exact Action.throws_pure _
  · exact Action.throws_undefined

theorem destroy_throws : Action.Throws P (card.destroy pcsc) := by
  unfold destroy
  split_ifs
  · exact issue_throws.bind fun _ => Action.throws_pure _
  · exact Action.throws_pure _

end CardImpl

abbrev OfClass (t : ExceptionType) (e : Exception) : Prop := e.type.isA t = true

theorem SmartCard.new_throws (fuel : Nat) (ctx : ScardContext) (readerName : StringT)
    (atr : ByteVector) :
    Action.Throws (OfClass .error) (SmartCard.new pcsc fuel ctx readerName atr) := by
  have herror : ∀ e : Exception, OfClass .scardError e → OfClass .error e :=
    fun _ => ExceptionType.isA_error_of_scardError
  have hconnect : Action.Throws (OfClass .error) (connectToCard pcsc ctx readerName) :=
    (Action.throws_read _).bind fun serial =>
      (scardCall_throws.mono herror).bind fun _ => Action.throws_pure _
  refine hconnect.bind fun cardParams => Action.Throws.bind ?_ fun card => ?_
  · refine Action.Throws.bind (Action.Throws.tryCatch (Q := OfClass .scardError) ?_ fun e he => ?_)
      fun _ => Action.throws_pure _
    · exact scardCall_throws.bind fun reply => CardImpl.readFeatures_throws _ _ fuel
    · rw [if_pos he]
      exact Action.throws_pure _
  · refine Action.Throws.bind (Action.Throws.tryCatch (Q := OfClass .error)
      (Action.throws_ofExcept fun e he => ?_) fun e he => ?_) fun _ => Action.throws_pure _
    · unfold convertToSmartCardProtocol at he
      split_ifs at he
      cases he
      rfl
    · exact CardImpl.destroy_throws.bind fun _ => Action.throws_throw he

theorem SmartCard.destroy_throws (s : SmartCard) : Action.Throws P (s.destroy pcsc) := by
  unfold SmartCard.destroy
  split
  · exact CardImpl.destroy_throws
  · exact Action.throws_pure _

end Card

section Process

variable {pcsc : Service σ} {P : Exception → Prop}

theorem onWorld_throws {α : Type} {x : Program σ α} (h : Action.Throws P x) :
    Action.Throws P (Process.onWorld x) :=
  Action.throws_zoom h

theorem destroy_throws (ctx : ContextPtr) : Action.Throws P (ContextPtr.destroy pcsc ctx) := by
  refine (Action.throws_modify _).bind fun _ => (Action.throws_read _).bind fun contexts => ?_
  split_ifs
  · refine (Action.throws_index _ _).bind fun context => onWorld_throws ?_
    unfold Context.destroy
    split_ifs
    · exact issue_throws.bind fun _ => Action.throws_pure _
    · exact Action.throws_pure _
  · exact Action.throws_pure _

theorem Context.new_throws : Action.Throws (OfClass .scardError) (Context.new pcsc) := by
  refine (Action.throws_read _).bind fun serial => scardCall_throws.bind fun reply => ?_
  split_ifs
  · exact Action.throws_throw rfl
  · exact Action.throws_pure _

end Process

/-- A length was reported to a listing that no string has. -/
def TooLong (t : List Exchange) : Prop :=
  ∃ x ∈ t, (∃ ctx, x.call = .listReaders ctx none) ∧ x.reply.result = scardSSuccess ∧
    maxStringSize < x.reply.length

structure ListedAfter {α : Type} (t : List Exchange) (o : Outcome Exception α) : Prop where
  threw : ∀ e, o = .threw e →
    OfClass .scardError e ∧ ¬ TooLong t ∨ e.type = .lengthError ∧ TooLong t
  returned : ∀ a, o = .returned a → ¬ TooLong t

namespace Listing

variable {pcsc : Service σ} {ctx : ScardContext} {w : World σ}

theorem tooLong_append {t t' : List Exchange} : TooLong (t ++ t') ↔ TooLong t ∨ TooLong t' := by
  simp only [TooLong, List.mem_append, or_and_right, exists_or]

theorem not_tooLong_of_calls {t : List Exchange}
    (h : ∀ x ∈ t, ∀ ctx, x.call ≠ .listReaders ctx none) : ¬ TooLong t := by
  rintro ⟨x, hx, ⟨ctx, hcall⟩, -⟩
  exact h x hx ctx hcall

theorem tooLong_lengthExchange : TooLong [lengthExchange pcsc ctx w] ↔
    (lengthReply pcsc ctx w).result = scardSSuccess ∧
      maxStringSize < (lengthReply pcsc ctx w).length := by
  simp [TooLong, lengthExchange]

theorem Measured.not_tooLong (h : Measured pcsc ctx w) {t : List Exchange}
    (ht : ∀ x ∈ t, ∀ ctx, x.call ≠ .listReaders ctx none) :
    ¬ TooLong (lengthExchange pcsc ctx w :: t) := by
  rw [← List.singleton_append, tooLong_append, tooLong_lengthExchange]
  rintro (⟨-, hlong⟩ | hrest)
  · exact absurd h.room (Nat.not_le.mpr hlong)
  · exact not_tooLong_of_calls ht hrest

theorem listing_after (pcsc : Service σ) (ctx : ScardContext) (w : World σ) :
    ∃ t, (listing pcsc ctx w).2.trace = w.trace ++ t ∧ ListedAfter t (listing pcsc ctx w).1 := by
  have hnames : ∀ x ∈ [namesExchange pcsc ctx w], ∀ ctx, x.call ≠ .listReaders ctx none := by
    simp [namesExchange, namesCall]
  have hstates : ∀ names, ∀ x ∈ [namesExchange pcsc ctx w, statesExchange pcsc ctx w names],
      ∀ ctx, x.call ≠ .listReaders ctx none := by
    simp [namesExchange, namesCall, statesExchange, statesCall]
  have hscard : ∀ {t : List Exchange} {result : Long} {what : String}, ¬ TooLong t →
      ListedAfter t (.threw ⟨scardErrorType result, what⟩ :
        Outcome Exception (StringT × List ScardReaderState)) := fun hfits =>
    ⟨fun e he => by cases he; exact .inl ⟨scardErrorType_isA _, hfits⟩, nofun⟩
  have hends := listing_ends pcsc ctx w
  generalize listing pcsc ctx w = r at hends
  cases hends with
  | noLength what length =>
    refine ⟨_, atNames_trace, hscard ?_⟩
    rw [tooLong_lengthExchange]
    exact fun hlong => length hlong.1
  | tooLong what length long =>
    refine ⟨_, atNames_trace, fun e he => ?_, nofun⟩
    cases he
    exact .inr ⟨rfl, tooLong_lengthExchange.mpr ⟨length, long⟩⟩
  | noNames what measured names => exact ⟨_, atStates_trace, hscard (measured.not_tooLong hnames)⟩
  | overrun measured => exact ⟨_, atStates_trace, nofun, nofun⟩
  | none measured => exact ⟨_, atStates_trace, nofun, fun _ _ => measured.not_tooLong hnames⟩
  | noStates what measured =>
    exact ⟨_, afterStates_trace, hscard (measured.not_tooLong (hstates _))⟩
  | states measured =>
    exact ⟨_, afterStates_trace, nofun, fun _ _ => measured.not_tooLong (hstates _)⟩

end Listing

section ListReaders

open Listing

variable {pcsc : Service σ}

theorem ListedAfter.of_iff {α : Type} {t t' : List Exchange} {o : Outcome Exception α}
    (h : ListedAfter t o) (hsame : TooLong t' ↔ TooLong t) : ListedAfter t' o := by
  constructor
  · rw [hsame]
    exact h.threw
  · rw [hsame]
    exact h.returned

theorem ListedAfter.established {t : List Exchange} {o : Outcome Exception (List Reader)}
    (h : ListedAfter t o) (dwScope : Dword) (reply : Reply) :
    ListedAfter ([⟨.establishContext dwScope, reply⟩] ++ t) o :=
  h.of_iff (tooLong_append.trans (or_iff_right (not_tooLong_of_calls (by simp))))

theorem ListedAfter.released {t : List Exchange} {o : Outcome Exception (List Reader)}
    (h : ListedAfter t o) (ctx : ScardContext) (reply : Reply) :
    ListedAfter (t ++ [⟨.releaseContext ctx, reply⟩]) o :=
  h.of_iff (tooLong_append.trans (or_iff_left (not_tooLong_of_calls (by simp))))

theorem ListedAfter.caught {t : List Exchange} {e : Exception}
    (h : ListedAfter t (.threw e : Outcome Exception (StringT × List ScardReaderState))) :
    ListedAfter t (if e.type.isA .scardNoReadersError then .returned [] else .threw e :
      Outcome Exception (List Reader)) := by
  split_ifs with hnone
  · refine ⟨nofun, fun _ _ => ?_⟩
    rcases h.threw e rfl with ⟨-, hfits⟩ | ⟨htype, -⟩
    · exact hfits
    · rw [htype] at hnone
      cases hnone
  · refine ⟨fun e' he' => ?_, nofun⟩
    cases he'
    exact h.threw e rfl

theorem listReaders_after (pcsc : Service σ) (p : Process σ) :
    ∃ t, (listReaders pcsc p).2.world.trace = p.world.trace ++ t ∧
      ListedAfter t (listReaders pcsc p).1 := by
  obtain ⟨t, htrace, hafter⟩ := listing_after pcsc (establishedContext pcsc p.world)
    (p.world.after pcsc (.establishContext scardScopeUser))
  rw [World.after_trace, List.append_assoc] at htrace
  have hreleased : ∀ {w : World σ} {l : List Exchange} (ctx : ScardContext),
      w.trace = p.world.trace ++ l → (w.after pcsc (.releaseContext ctx)).trace =
        p.world.trace ++ (l ++ [⟨.releaseContext ctx,
          (pcsc w.service (.releaseContext ctx)).1⟩]) := by
    intro w l ctx hw
    rw [World.after_trace, hw, List.append_assoc]
  have hfinishes := listReaders_finishes pcsc p
  generalize listReaders pcsc p = r at hfinishes
  cases hfinishes with
  | refused e refused =>
    refine ⟨_, World.after_trace _ _ _, fun e' he' => ?_, nofun⟩
    cases he'
    exact .inl ⟨Context.new_throws _ _ _ refused, not_tooLong_of_calls (by simp)⟩
  | failed e w contexts success value listed =>
    rw [listed] at htrace hafter
    exact ⟨_, hreleased _ htrace, (hafter.caught.established _ _).released _ _⟩
  | listed readerNames readerStates w contexts success value listed =>
    rw [listed] at htrace hafter
    have hreturned : ListedAfter t (.returned (readerStates.map
        (listedReader p.contexts.values.length readerNames))) :=
      ⟨nofun, fun _ _ => hafter.returned _ rfl⟩
    dsimp only
    split_ifs
    · exact ⟨_, hreleased _ htrace, (hreturned.established _ _).released _ _⟩
    · exact ⟨_, htrace, hreturned.established _ _⟩
  | undefined o w contexts success value listed unthrown =>
    rw [listed] at htrace
    exact ⟨_, htrace, nofun, nofun⟩

end ListReaders

section Misuse

variable {pcsc : Service σ} {fuel : Nat} {s : SmartCard} {card : CardImpl} {w : World σ}

end Misuse

theorem TransactionGuard.new_throws {pcsc : Service σ} (card : CardImpl) :
    Action.Throws (OfClass .scardError) (TransactionGuard.new pcsc card) :=
  (Action.throws_read _).bind fun _ => (Action.throws_zoom (scardCall_throws.bind fun _ =>
    Action.throws_pure _)).bind fun _ => (Action.throws_modify _).bind fun _ => Action.throws_pure _

namespace System

def made (s s' : System σ) : List Exchange :=
  s'.process.world.trace.drop s.process.world.trace.length

variable {pcsc : Service σ} {fuel : Nat} {s s' : System σ} {e : Exception}

theorem listReaders_made (pcsc : Service σ) (fuel : Nat) (s : System σ) :
    ListedAfter (made s (step pcsc fuel .listReaders s).2)
      (step pcsc fuel .listReaders s).1 := by
  obtain ⟨t, htrace, hafter⟩ := listReaders_after pcsc s.process
  rw [step, Action.bind_apply, onProcess, Action.zoom_apply]
  revert htrace hafter
  rcases PcscCpp.listReaders pcsc s.process with ⟨readers | e | _ | _, p⟩ <;>
    intro htrace hafter <;> dsimp only at htrace
  · have hmade : made s { s with process := p, readers := s.readers ++ readers } = t := by
      simp [made, htrace]
    exact ⟨fun _ he => (by cases he), fun _ _ => hmade ▸ hafter.returned readers rfl⟩
  · have hmade : made s { s with process := p } = t := by
      simp [made, htrace]
    refine ⟨fun e' he' => ?_, fun _ hreturned => (by cases hreturned)⟩
    cases he'
    exact hmade ▸ hafter.threw e rfl
  all_goals exact ⟨fun _ he => (by cases he), fun _ hreturned => (by cases hreturned)⟩

section Classes

variable (pcsc fuel)

end Classes

end System

end PcscCpp

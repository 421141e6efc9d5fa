import PcscCpp.Effects.Throws
import PcscCpp.Laws.Chaining

namespace PcscCpp

open Effects

variable {σ : Type}

theorem scardCall_throws {pcsc : Service σ} {callerFunctionName file : String} {line : Nat}
    {call : Call} :
    Action.Throws (fun e => e.type.isA .scardError = true)
      (scardCall pcsc callerFunctionName file line call) := by
  intro w e w' h
  by_cases hok : (pcsc w.service call).1.result = scardSSuccess
  · rw [scardCall_success hok] at h
    cases h
  · rw [scardCall_failure hok] at h
    cases h
    exact scardErrorType_isA _

theorem CommandApdu.toBytes_throws {c : CommandApdu} {e : Exception} (h : c.toBytes = .error e) :
    e.type = .invalidArgument := by
  unfold toBytes at h
  split_ifs at h <;> cases h <;> rfl

theorem ExceptionType.isA_error_of_scardError {t : ExceptionType} (h : t.isA .scardError = true) :
    t.isA .error = true := by
  revert h
  cases t <;> decide

def NoMisuse (e : Exception) : Prop := e.type ≠ .logicError

theorem noMisuse_of_scardError {e : Exception} (h : e.type.isA .scardError = true) :
    NoMisuse e := by
  intro htype
  rw [htype] at h
  exact absurd h (by decide)

theorem noMisuse_of_eq {e : Exception} {t : ExceptionType} (h : e.type = t) (ht : t ≠ .logicError) :
    NoMisuse e := fun htype => ht (h.symm.trans htype)

namespace CardImpl

variable {card : CardImpl} {pcsc : Service σ}

theorem toResponse_throws {responseBytes : ByteVector} {responseLength : Nat} {e : Exception}
    (h : card.toResponse responseBytes responseLength = .error e) : NoMisuse e := by
  unfold toResponse at h
  split_ifs at h
  · cases h
    exact noMisuse_of_eq (t := .error) rfl (by decide)
  · cases hfrom : ResponseApdu.fromBytes (responseBytes.take responseLength) with
    | error e' =>
      rw [hfrom] at h
      cases h
      unfold ResponseApdu.fromBytes at hfrom
      split_ifs at hfrom
      cases hfrom
      exact noMisuse_of_eq (t := .invalidArgument) rfl (by decide)
    | ok response =>
      rw [hfrom] at h
      simp only [bind, Except.bind] at h
      split_ifs at h <;> cases h <;> exact noMisuse_of_eq (t := .error) rfl (by decide)

theorem answer_throws {r : Reply} {e : Exception} (h : card.answer r = .error e) :
    e.type.isA .error = true ↔ 2 ≤ r.length := by
  unfold answer toResponse at h
  rw [Reply.length_fill, List.length_replicate] at h
  split_ifs at h with hlong
  · cases h
    have hlen : 258 < r.length := hlong
    exact iff_of_true rfl (by omega)
  · have hlen : r.received.length = r.length := Reply.length_received (Nat.not_lt.mp hlong)
    change (ResponseApdu.fromBytes r.received >>= _) = .error e at h
    by_cases h2 : r.length < 2
    · rw [ResponseApdu.fromBytes_short (by omega)] at h
      cases h
      exact iff_of_false (by decide) (by omega)
    · rw [Reply.fromBytes_received (by omega) (Nat.not_lt.mp hlong)] at h
      simp only [bind, Except.bind] at h
      split_ifs at h <;> cases h <;> exact iff_of_true rfl (Nat.not_lt.mp h2)

theorem exchange_threw {commandBytes : ByteVector} {e : Exception} {w w' : World σ}
    (h : exchange pcsc card commandBytes w = (.threw e, w')) :
    ∃ x, w'.trace.getLast? = some x ∧
      (e.type.isA .error = true ↔ (x.reply.result = scardSSuccess → 2 ≤ x.reply.length)) := by
  rw [exchange, transmitBytesWith_eq] at h
  by_cases hr : (pcsc w.service (card.transmitCall commandBytes)).1.result = scardSSuccess
  · rw [Action.bind_returned (scardCall_success hr)] at h
    cases hanswer : card.answer (pcsc w.service (card.transmitCall commandBytes)).1 with
    | ok r =>
      rw [hanswer, Action.ofExcept_ok, Action.pure_bind, ite_self] at h
      cases h
    | error e' =>
      rw [hanswer, Action.ofExcept_error, Action.throw_bind] at h
      cases h
      refine ⟨_, List.getLast?_concat, (answer_throws hanswer).trans ?_⟩
      exact ⟨fun h2 _ => h2, fun h2 => h2 hr⟩
  · rw [Action.bind_threw (scardCall_failure hr)] at h
    cases h
    refine ⟨_, List.getLast?_concat, iff_of_true ?_ fun hok => absurd hok hr⟩
    exact ExceptionType.isA_error_of_scardError (scardErrorType_isA _)

theorem transmitBytes_threw {fuel : Nat} {commandBytes : ByteVector} {e : Exception}
    {w w' : World σ} (h : transmitBytes pcsc card fuel commandBytes w = (.threw e, w')) :
    ∃ x, w'.trace.getLast? = some x ∧
      (e.type.isA .error = true ↔ (x.reply.result = scardSSuccess → 2 ≤ x.reply.length)) := by
  induction fuel generalizing commandBytes w with
  | zero =>
    rw [transmitBytes_zero] at h
    rcases Action.bind_eq_threw.mp h with hfirst | ⟨r, w₁, -, h⟩
    · exact exchange_threw hfirst
    · split_ifs at h <;> cases h
  | succ fuel ih =>
    rw [transmitBytes_succ] at h
    rcases Action.bind_eq_threw.mp h with hfirst | ⟨r, w₁, -, h⟩
    · exact exchange_threw hfirst
    · split_ifs at h
      · rcases Action.bind_eq_threw.mp h with hrest | ⟨r', w₂, -, h⟩
        · exact ih hrest
        · cases h
      · cases h

theorem transmitBytesWith_throws {rest : ResponseApdu → Program σ ResponseApdu}
    (hrest : ∀ r, Action.Throws NoMisuse (rest r)) (commandBytes : ByteVector) :
    Action.Throws NoMisuse (transmitBytesWith pcsc card rest commandBytes) := by
  refine (scardCall_throws.mono fun _ => noMisuse_of_scardError).bind fun reply => ?_
  refine (Action.throws_ofExcept fun _ => toResponse_throws).bind fun response => ?_
  split_ifs
  · exact hrest response
  · exact Action.throws_pure response

theorem transmitBytes_throws (fuel : Nat) (commandBytes : ByteVector) :
    Action.Throws NoMisuse (transmitBytes pcsc card fuel commandBytes) := by
  induction fuel generalizing commandBytes with
  | zero => exact transmitBytesWith_throws (fun _ => Action.throws_running) commandBytes
  | succ fuel ih =>
    refine transmitBytesWith_throws (fun response => ?_) commandBytes
    refine (Action.throws_loop (fun _ => Action.throws_pure _) (fun s => ?_) _ _).bind fun _ =>
      Action.throws_pure _
    exact (ih _).bind fun _ => Action.throws_pure _

theorem featureAt_throws {feature : DriverFeatures} {e : Exception}
    (h : card.featureAt feature = .error e) : NoMisuse e := by
  unfold featureAt at h
  split at h
  · cases h
  · cases h
    exact noMisuse_of_eq (t := .outOfRange) rfl (by decide)

theorem transmitBytesCTL_throws (commandBytes : ByteVector) (lang : UInt16) (minlen : UInt8) :
    Action.Throws NoMisuse (transmitBytesCTL pcsc card commandBytes lang minlen) := by
  refine (Action.throws_ofExcept fun _ => featureAt_throws).bind fun ioctl => ?_
  refine (scardCall_throws.mono fun _ => noMisuse_of_scardError).bind fun reply => ?_
  split_ifs
  · refine (Action.throws_ofExcept fun _ => featureAt_throws).bind fun finish => ?_
    refine (scardCall_throws.mono fun _ => noMisuse_of_scardError).bind fun reply => ?_
    exact Action.throws_ofExcept fun _ => toResponse_throws
  · exact Action.throws_ofExcept fun _ => toResponse_throws

end CardImpl

namespace SmartCard

variable {s : SmartCard} {card : CardImpl} {pcsc : Service σ}

theorem transmit_throws (hs : s.InTransaction card) (fuel : Nat) (command : CommandApdu) :
    Action.Throws NoMisuse (s.transmit pcsc fuel command) := by
  rw [transmit_eq hs]
  refine Action.Throws.bind (Action.throws_ofExcept fun e he => ?_) fun commandBytes =>
    CardImpl.transmitBytes_throws fuel commandBytes
  exact noMisuse_of_eq (CommandApdu.toBytes_throws he) (by decide)

theorem transmitCTL_throws (hs : s.InTransaction card) (command : CommandApdu) (lang : UInt16)
    (minlen : UInt8) : Action.Throws NoMisuse (s.transmitCTL pcsc command lang minlen) := by
  rw [transmitCTL_eq hs]
  refine Action.Throws.bind (Action.throws_ofExcept fun e he => ?_) fun commandBytes =>
    CardImpl.transmitBytesCTL_throws commandBytes lang minlen
  exact noMisuse_of_eq (CommandApdu.toBytes_throws he) (by decide)

end SmartCard

section Surfaces

open CardImpl

variable {s : SmartCard} {card : CardImpl} {command : CommandApdu} {commandBytes : ByteVector}

/-- An end of `transmit` on the answers `a`: it returned, it threw an `Error`, or it is still
asking because every answer within the fuel announced more data. -/
def SurfacesAsError (a : Nat → Reply) (fuel : Nat) : Outcome Exception ResponseApdu → Prop
  | .returned _ => True
  | .threw e => e.type.isA .error = true
  | .undefined => False
  | .running => ∀ i ≤ fuel, (a i).More

theorem transmit_chain_surfaces (hs : s.InTransaction card)
    (hc : command.toBytes = .ok commandBytes) {a : Nat → Reply} {k fuel : Nat}
    (t : List Exchange) (hmore : ∀ i < k, (a i).More) (hlast : ¬ (a k).More) (hfuel : k ≤ fuel) :
    SurfacesAsError a fuel (s.transmit (answering a) fuel command ⟨0, t⟩).1 ↔
      ((a k).result = scardSSuccess → 2 ≤ (a k).length) := by
  obtain ⟨out, hrun, hok, herr⟩ := transmit_chain hs hc t hmore hlast hfuel
  by_cases ha : (a k).Accepted
  · rw [hrun, hok ha]
    exact iff_of_true trivial fun _ => ha.2.1
  · obtain ⟨e, rfl⟩ := herr ha
    obtain ⟨x, hx, hreply⟩ := chain_getLast? a card commandBytes k t
    rw [hrun]
    rw [SmartCard.transmit_encoded hs hc] at hrun
    obtain ⟨y, hy, hclass⟩ := transmitBytes_threw hrun
    obtain rfl : x = y := Option.some.inj (hx.symm.trans hy)
    rwa [hreply] at hclass

/-- Faults surface as `Error` exactly when no successful call delivers less than two bytes. -/
theorem transmit_surfaces_iff (hs : s.InTransaction card) (hc : command.toBytes = .ok commandBytes)
    (a : Nat → Reply) (t : List Exchange) :
    (∀ fuel, SurfacesAsError a fuel (s.transmit (answering a) fuel command ⟨0, t⟩).1) ↔
      ∀ k, (∀ i < k, (a i).More) → (a k).result = scardSSuccess → 2 ≤ (a k).length := by
  constructor
  · intro h k hmore
    by_cases hlast : (a k).More
    · exact fun _ => hlast.1.2.1
    · exact (transmit_chain_surfaces hs hc t hmore hlast (Nat.le_refl k)).mp (h k)
  · intro h fuel
    rcases more_or_last a fuel with hmore | ⟨k, hfuel, hmore, hlast⟩
    · rw [transmit_endless hs hc t hmore]
      exact hmore
    · exact (transmit_chain_surfaces hs hc t hmore hlast hfuel).mpr (h k hmore)

theorem transmit_surfaces_iff_removed :
    SurfacesAsError (fun _ => .failed scardWRemovedCard) 1
      (smartCardOne.transmit (answering fun _ => .failed scardWRemovedCard) 1 selectCommand
        ⟨0, []⟩).1 := by
  have hc : selectCommand.toBytes = .ok [0x00, 0xa4, 0x04, 0x00, 0x01, 0x01] := rfl
  have hfails : (Reply.failed scardWRemovedCard).result ≠ scardSSuccess := by decide
  exact (transmit_surfaces_iff smartCardOne_inTransaction hc _ []).mpr
    (fun _ _ hok => absurd hok hfails) 1

set_option maxRecDepth 2000 in
theorem transmit_leaks_invalid_argument :
    ∃ e, (smartCardOne.transmit (answering fun _ => .ofBytes []) 1 selectCommand ⟨0, []⟩).1 =
        .threw e ∧
      e.type = .invalidArgument ∧ e.type.isA .error = false :=
  ⟨_, rfl, rfl, rfl⟩

end Surfaces

end PcscCpp

import PcscCpp.Effects.Blame
import PcscCpp.Laws.Atomicity
import PcscCpp.Laws.Exceptions

namespace PcscCpp

open Effects Blame

variable {σ : Type}

/-- Calls of which the library does not look at the result, or only to go on without features. -/
def Call.resultIgnored : Call → Bool
  | .releaseContext _ => true
  | .disconnect _ _ => true
  | .endTransaction _ _ => true
  | .control _ ioctl cmd responseLength =>
    ioctl == cmIoctlGetFeatureRequest && cmd == [] && responseLength == 256
  | _ => false

/-- The classes of the result codes that have one of their own. -/
def resultClasses : List (Long × ExceptionType) :=
  [(0x8010000c, .scardNoCardError), (0x80100010, .scardCardCommunicationFailedError),
    (0x80100011, .scardCardCommunicationFailedError), (0x80100016, .scardTransactionFailedError),
    (0x80100017, .scardNoReadersError), (0x8010001d, .scardServiceNotRunningError),
    (0x8010001e, .scardServiceNotRunningError), (0x8010002e, .scardNoReadersError),
    (0x8010002f, .scardCardCommunicationFailedError),
    (0x80100068, .scardCardCommunicationFailedError), (0x80100069, .scardCardRemovedError)]

def classOfResult (result : Long) : ExceptionType := (resultClasses.lookup result).getD .scardError

theorem scardErrorType_eq (result : Long) : scardErrorType result = classOfResult result := by
  unfold scardErrorType
  split_ifs with hservice hreaders hcard hcommunication hremoved htransaction
  · rcases hservice with rfl | rfl <;> rfl
  · rcases hreaders with rfl | rfl <;> rfl
  · rw [hcard]
    rfl
  · rcases hcommunication with rfl | rfl | rfl | rfl <;> rfl
  · rw [hremoved]
    rfl
  · rw [htransaction]
    rfl
  · simp only [not_or] at hservice hreaders hcommunication
    obtain ⟨hready, hvalue, hdata, hreset⟩ := hcommunication
    have hnone : resultClasses.lookup result = none := by
      refine List.lookup_eq_none_iff.mpr fun p hp => bne_iff_ne.mpr ?_
      simp only [resultClasses, List.mem_cons, List.not_mem_nil, or_false] at hp
      rcases hp with rfl | rfl | rfl | rfl | rfl | rfl | rfl | rfl | rfl | rfl | rfl
      exacts [hcard, hready, hvalue, htransaction, hreaders.2, hservice.1, hservice.2, hreaders.1,
        hdata, hreset, hremoved]
    rw [classOfResult, hnone]
    rfl

namespace Exchange

def unsuccessful (e : Exchange) : Bool :=
  e.reply.result != scardSSuccess || match e.call with
    | .establishContext _ => e.reply.handle == 0
    | _ => false

/-- A failure that is no error of the operation: its result is ignored, or a listing is answered
with `SCARD_E_NO_READERS_AVAILABLE` or `SCARD_E_READER_UNAVAILABLE`. -/
def tolerated (e : Exchange) : Bool :=
  e.call.resultIgnored ||
    e.call.lists && (e.reply.result == 0x8010002e || e.reply.result == 0x80100017)

/-- An exception of the class for the result code that names the function and the code, or the
one for a context without a handle. -/
def Reports (e : Exchange) (x : Exception) : Prop :=
  (e.reply.result ≠ scardSSuccess ∧ ∃ callerFunctionName file line,
    x = ⟨classOfResult e.reply.result,
      buildErrorMessage callerFunctionName e.call.functionName e.reply.result file line⟩) ∨
  (e.reply.result = scardSSuccess ∧ x = throwWithCallerInfo .scardError
    ("Context:SCardEstablishContext: service unavailable " ++ "(null context handle)")
    "src/Context.hpp" 42 "Context")

theorem unsuccessful_eq {call : Call} (h : ∀ dwScope, call ≠ .establishContext dwScope)
    (reply : Reply) :
    (⟨call, reply⟩ : Exchange).unsuccessful = (reply.result != scardSSuccess) := by
  cases call with
  | establishContext dwScope => exact absurd rfl (h dwScope)
  | _ => exact Bool.or_false _

theorem Reports.isA {e : Exchange} {x : Exception} (h : e.Reports x) :
    x.type.isA .scardError = true := by
  rcases h with ⟨-, _, _, _, rfl⟩ | ⟨-, rfl⟩
  · dsimp only
    rw [← scardErrorType_eq]
    exact scardErrorType_isA _
  · rfl

end Exchange

def Call.givesBack : Call → Bool
  | .releaseContext _ => true
  | .disconnect _ _ => true
  | _ => false

def failures (tolerated : Exchange → Bool) : Blame Exchange Exception where
  failed e := e.unsuccessful && !tolerated e
  cleanup e := e.call.givesBack
  reports := Exchange.Reports
  own x := !x.type.isA .scardError
  own_of_reports e x h := by rw [h.isA, Bool.not_true]

variable {tolerated : Exchange → Bool} {pcsc : Service σ}

section Calls

variable {callerFunctionName file : String} {line : Nat} {call : Call}

theorem honest_scardCall (hcall : ∀ dwScope, call ≠ .establishContext dwScope)
    (htolerated : ∀ reply, tolerated ⟨call, reply⟩ = false) :
    (failures tolerated).Honest World.trace
      (scardCall pcsc callerFunctionName file line call) := by
  intro w
  by_cases hok : (pcsc w.service call).1.result = scardSSuccess
  · rw [scardCall_success hok]
    refine ⟨_, rfl, .fine (fun e he => ?_) nofun⟩
    rw [List.mem_singleton.mp he]
    simp [failures, Exchange.unsuccessful_eq hcall, hok]
  · rw [scardCall_failure hok]
    refine ⟨_, rfl, .single ?_ (.inl ⟨hok, _, _, _, by rw [scardErrorType_eq]⟩)⟩
    simp [failures, Exchange.unsuccessful_eq hcall, hok, htolerated]

theorem honest_issue (htolerated : ∀ reply, tolerated ⟨call, reply⟩ = true) :
    (failures tolerated).Honest World.trace (issue pcsc call) := by
  intro w
  refine ⟨_, rfl, .fine (fun e he => ?_) nofun⟩
  rw [List.mem_singleton.mp he]
  simp [failures, htolerated]

end Calls

section Own

variable {e : Exception}

theorem own_of_type {t : ExceptionType} (h : e.type = t) (ht : t.isA .scardError = false) :
    (failures tolerated).own e = true := by
  simp [failures, h, ht]

theorem toBytes_own {command : CommandApdu} (h : command.toBytes = .error e) :
    (failures tolerated).own e = true :=
  own_of_type (CommandApdu.toBytes_throws h) rfl

theorem featureAt_own {card : CardImpl} {feature : DriverFeatures}
    (h : card.featureAt feature = .error e) : (failures tolerated).own e = true := by
  unfold CardImpl.featureAt at h
  split at h <;> cases h
  rfl

theorem convert_own {protocol : Dword} (h : convertToSmartCardProtocol protocol = .error e) :
    (failures tolerated).own e = true := by
  unfold convertToSmartCardProtocol at h
  split_ifs at h
  cases h
  rfl

theorem toResponse_type {card : CardImpl} {responseBytes : ByteVector} {responseLength : Nat}
    (h : card.toResponse responseBytes responseLength = .error e) :
    e.type = .error ∨ e.type = .invalidArgument := by
  unfold CardImpl.toResponse at h
  split_ifs at h
  · cases h
    exact .inl rfl
  · cases hfrom : ResponseApdu.fromBytes (responseBytes.take responseLength) with
    | error e' =>
      rw [hfrom] at h
      cases h
      unfold ResponseApdu.fromBytes at hfrom
      split_ifs at hfrom
      cases hfrom
      exact .inr rfl
    | ok response =>
      rw [hfrom] at h
      simp only [bind, Except.bind] at h
      split_ifs at h <;> cases h <;> exact .inl rfl

def Raised (e : Exception) : Prop :=
  e.type.isA .scardError = true ∨ e.type = .error ∨ e.type = .invalidArgument

theorem toResponse_own {card : CardImpl} {responseBytes : ByteVector} {responseLength : Nat}
    (h : card.toResponse responseBytes responseLength = .error e) :
    (failures tolerated).own e = true :=
  (toResponse_type h).elim (own_of_type · rfl) (own_of_type · rfl)

end Own

namespace CardImpl

variable {card : CardImpl}

theorem transmitBytes_raised (fuel : Nat) (commandBytes : ByteVector) :
    Action.Throws Raised (transmitBytes pcsc card fuel commandBytes) := by
  have hwith : ∀ {rest : ResponseApdu → Program σ ResponseApdu},
      (∀ r, Action.Throws Raised (rest r)) → ∀ commandBytes,
        Action.Throws Raised (transmitBytesWith pcsc card rest commandBytes) := by
    intro rest hrest commandBytes
    refine (scardCall_throws.mono fun _ => .inl).bind fun reply => ?_
    refine (Action.throws_ofExcept fun _ he => .inr (toResponse_type he)).bind fun response => ?_
    split_ifs
    · exact hrest response
    · exact Action.throws_pure response
  induction fuel generalizing commandBytes with
  | zero => exact hwith (fun _ => Action.throws_running) commandBytes
  | succ fuel ih =>
    refine hwith (fun response => ?_) commandBytes
    refine (Action.throws_loop (fun _ => Action.throws_pure _) (fun s => ?_) _ _).bind fun _ =>
      Action.throws_pure _
    exact (ih _).bind fun _ => Action.throws_pure _

theorem transmitBytes_honest
    (h : ∀ commandBytes reply, tolerated ⟨card.transmitCall commandBytes, reply⟩ = false)
    (fuel : Nat) (commandBytes : ByteVector) :
    (failures tolerated).Honest World.trace (transmitBytes pcsc card fuel commandBytes) := by
  have hwith : ∀ {rest : ResponseApdu → Program σ ResponseApdu},
      (∀ r, (failures tolerated).Honest World.trace (rest r)) → ∀ commandBytes,
        (failures tolerated).Honest World.trace
          (transmitBytesWith pcsc card rest commandBytes) := by
    intro rest hrest commandBytes
    rw [transmitBytesWith_eq]
    refine (honest_scardCall (fun _ h => by cases h) (h commandBytes)).bind fun reply => ?_
    refine (honest_ofExcept fun _ => toResponse_own).bind fun response => ?_
    split_ifs
    · exact hrest response
    · exact honest_pure response
  induction fuel generalizing commandBytes with
  | zero => exact hwith (fun _ => honest_running) commandBytes
  | succ fuel ih =>
    refine hwith (fun response => ?_) commandBytes
    refine (honest_loop (fun _ => honest_pure _) (fun s => ?_) _ _).bind fun _ => honest_pure _
    exact (ih _).bind fun _ => honest_pure _

theorem transmitBytesCTL_honest
    (h : ∀ ioctl cmd reply,
      tolerated ⟨.control card.cardHandle ioctl cmd ResponseApdu.maxSize, reply⟩ = false)
    (commandBytes : ByteVector) (lang : UInt16) (minlen : UInt8) :
    (failures tolerated).Honest World.trace
      (transmitBytesCTL pcsc card commandBytes lang minlen) := by
  rw [transmitBytesCTL]
  simp only [List.length_replicate, Reply.length_fill]
  refine (honest_ofExcept fun _ => featureAt_own).bind fun ioctl => ?_
  refine (honest_scardCall (fun _ h => by cases h) (h _ _)).bind fun reply => ?_
  split_ifs
  · refine (honest_ofExcept fun _ => featureAt_own).bind fun finish => ?_
    refine (honest_scardCall (fun _ h => by cases h) (h _ _)).bind fun reply => ?_
    exact honest_ofExcept fun _ => toResponse_own
  · exact honest_ofExcept fun _ => toResponse_own

theorem new_honest {cardParams : ScardHandle × Dword} (fuel : Nat)
    (h : ∀ reply, tolerated ⟨featureRequest cardParams.1, reply⟩ = true) :
    (failures tolerated).Honest World.trace (new pcsc fuel cardParams) := by
  intro w
  have hcalls : ∀ e ∈ [(⟨featureRequest cardParams.1,
      (pcsc w.service (featureRequest cardParams.1)).1⟩ : Exchange)],
      (failures tolerated).failed e = false := by
    intro e he
    rw [List.mem_singleton.mp he]
    simp [failures, h]
  have hends := new_ends pcsc fuel cardParams w
  generalize new pcsc fuel cardParams w = r at hends
  cases hends with
  | made | undefined | running => exact ⟨_, rfl, .fine hcalls nofun⟩

theorem destroy_honest {card : CardImpl}
    (h : ∀ reply, tolerated ⟨.disconnect card.cardHandle scardLeaveCard, reply⟩ = true) :
    (failures tolerated).Honest World.trace (card.destroy pcsc) := by
  unfold destroy
  split_ifs
  · exact (honest_issue h).bind fun _ => honest_pure _
  · exact honest_pure _

end CardImpl

theorem honest_rethrow {α : Type} {x : Program σ α} (card : CardImpl)
    (hx : (failures tolerated).Honest World.trace x)
    (h : ∀ reply, tolerated ⟨.disconnect card.cardHandle scardLeaveCard, reply⟩ = true) :
    (failures tolerated).Honest World.trace
      (tryCatch x fun e => card.destroy pcsc >>= fun _ => throw e) := by
  refine hx.tryCatch (fun _ h => h) fun l e haccounts w => ?_
  rw [Action.bind_returned (CardImpl.destroy_apply card w)]
  split_ifs
  · exact ⟨[], (List.append_nil _).symm, by rwa [List.append_nil]⟩
  · refine ⟨[_], rfl, haccounts.append fun y hy => ?_⟩
    rw [List.mem_singleton.mp hy]
    exact ⟨by simp [failures, h], rfl⟩

namespace SmartCard

variable {s : SmartCard}

theorem new_honest (fuel : Nat) (ctx : ScardContext) (readerName : StringT) (atr : ByteVector)
    (hconnect : ∀ reply, tolerated ⟨connectCall ctx readerName, reply⟩ = false)
    (hrequest : ∀ cardHandle reply,
      tolerated ⟨CardImpl.featureRequest cardHandle, reply⟩ = true)
    (hdisconnect : ∀ cardHandle reply,
      tolerated ⟨.disconnect cardHandle scardLeaveCard, reply⟩ = true) :
    (failures tolerated).Honest World.trace (new pcsc fuel ctx readerName atr) := by
  rw [new, connectToCard]
  simp only [Action.bind_assoc]
  refine (honest_read _).bind fun serial => ?_
  refine (honest_scardCall (fun _ h => by cases h) hconnect).bind fun reply => ?_
  rw [Action.pure_bind]
  refine (CardImpl.new_honest fuel (hrequest _)).bind fun card => ?_
  refine Honest.bind ?_ fun protocol => honest_pure _
  exact honest_rethrow card (honest_ofExcept fun _ => convert_own) (hdisconnect _)

theorem destroy_honest
    (h : ∀ cardHandle reply, tolerated ⟨.disconnect cardHandle scardLeaveCard, reply⟩ = true) :
    (failures tolerated).Honest World.trace (s.destroy pcsc) := by
  unfold destroy
  split
  · exact CardImpl.destroy_honest (h _)
  · exact honest_pure _

theorem requireTransaction_honest {α : Type} {nullLine line : Nat} {func : String}
    {body : CardImpl → Program σ α}
    (h : ∀ card, (failures tolerated).Honest World.trace (body card)) :
    (failures tolerated).Honest World.trace (s.requireTransaction nullLine line func body) := by
  rw [requireTransaction]
  split
  · exact honest_throw rfl
  · split_ifs
    · exact honest_throw rfl
    · exact h _

end SmartCard

theorem Context.new_honest
    (h : ∀ reply, tolerated ⟨.establishContext scardScopeUser, reply⟩ = false) :
    (failures tolerated).Honest World.trace (Context.new pcsc) := by
  intro w
  rw [Context.new, Action.bind_returned (Action.read_apply _ _)]
  by_cases hok : (pcsc w.service (.establishContext scardScopeUser)).1.result = scardSSuccess
  · rw [Action.bind_returned (scardCall_success hok)]
    split_ifs with hnull
    · refine ⟨_, rfl, .single ?_ (.inr ⟨hok, rfl⟩)⟩
      simp [failures, Exchange.unsuccessful, hnull, h]
    · refine ⟨_, rfl, .fine (fun e he => ?_) fun _ h => by cases h⟩
      rw [List.mem_singleton.mp he]
      simp [failures, Exchange.unsuccessful, hok, hnull]
  · rw [Action.bind_threw (scardCall_failure hok)]
    refine ⟨_, rfl, .single ?_ (.inl ⟨hok, _, _, _, by rw [scardErrorType_eq]⟩)⟩
    simp [failures, Exchange.unsuccessful, hok, h]

theorem Context.destroy_honest (context : Context)
    (h : ∀ reply, tolerated ⟨.releaseContext context.contextHandle, reply⟩ = true) :
    (failures tolerated).Honest World.trace (context.destroy pcsc) := by
  unfold Context.destroy
  split_ifs
  · exact (honest_issue h).bind fun _ => honest_pure _
  · exact honest_pure _

abbrev Process.log (p : Process σ) : List Exchange := p.world.trace

theorem onWorld_honest {α : Type} {x : Program σ α}
    (h : (failures tolerated).Honest World.trace x) :
    (failures tolerated).Honest Process.log (Process.onWorld x) :=
  honest_zoom h (fun _ => rfl) fun _ _ => rfl

theorem destroy_honest (i : ContextPtr)
    (h : ∀ ctx reply, tolerated ⟨.releaseContext ctx, reply⟩ = true) :
    (failures tolerated).Honest Process.log (ContextPtr.destroy pcsc i) := by
  refine Honest.bind (honest_modify fun _ => rfl) fun _ => (honest_read _).bind fun contexts => ?_
  split_ifs
  · exact (honest_index _ _).bind fun context =>
      onWorld_honest (context.destroy_honest (h _))
  · exact honest_pure _

theorem copy_honest (i : ContextPtr) : (failures tolerated).Honest Process.log
    (ContextPtr.copy i : Action Exception (Process σ) ContextPtr) :=
  Honest.bind (honest_modify fun _ => rfl) fun _ => honest_pure _

section Listing

theorem listing_honest (ctx : ScardContext) :
    (failures fun _ => false).Honest World.trace (listing pcsc ctx) := by
  have hnames : ∀ buffer, (failures fun _ => false).Honest World.trace
      (updateReaderNamesBuffer pcsc ctx buffer) := fun buffer =>
    (honest_scardCall (fun _ h => by cases h) fun _ => rfl).bind fun _ => honest_pure _
  have hpointers : ∀ readerNames, (failures fun _ => false).Honest World.trace
      (getReaderNamePointerList readerNames : Program σ (List Nat)) := by
    intro readerNames
    unfold getReaderNamePointerList
    split_ifs
    · exact honest_pure _
    · exact (honest_loop (fun s => (honest_index _ _).bind fun _ => honest_pure _)
        (fun s => honest_pure _) _ _).bind fun _ => honest_pure _
  refine ((hnames none).bind fun _ => (honest_ofExcept fun e he => ?_).bind fun _ =>
    (hnames _).bind fun _ => honest_pure _).bind fun readerNames => ?_
  · exact own_of_type (stringOfZeros_throws he) rfl
  refine Honest.bind ((hpointers readerNames).bind fun pointers => ?_) fun _ => honest_pure _
  dsimp only
  split_ifs
  · exact honest_pure _
  · exact (honest_scardCall (fun _ h => by cases h) fun _ => rfl).bind fun _ => honest_pure _

theorem tolerated_of_lists {e : Exchange} (h : e.call.lists = true) :
    e.tolerated = (scardErrorType e.reply.result).isA .scardNoReadersError := by
  have hcodes : e.tolerated =
      (e.reply.result == 0x8010002e || e.reply.result == 0x80100017) := by
    obtain ⟨call, reply⟩ := e
    cases call <;> first | exact (Bool.false_or _).trans (Bool.true_and _) | cases h
  rw [hcodes, Bool.eq_iff_iff, scardErrorType_noReaders, Bool.or_eq_true, beq_iff_eq, beq_iff_eq]
  rfl

theorem unsuccessful_of_lists {e : Exchange} (h : e.call.lists = true) :
    e.unsuccessful = (e.reply.result != scardSSuccess) := by
  obtain ⟨call, reply⟩ := e
  exact Exchange.unsuccessful_eq (fun dwScope hcall => by rw [hcall] at h; cases h) reply

theorem unfailed_tolerated {x : Exchange} (h : (failures fun _ => false).failed x = false) :
    (failures tolerated).failed x = false := by
  simp only [failures, Bool.not_false, Bool.and_true] at h ⊢
  rw [h, Bool.false_and]

theorem accounts_caught {l : List Exchange} {e : Exception} (hlists : ∀ x ∈ l, x.call.lists = true)
    (h : (failures fun _ => false).Accounts l
      (.threw e : Outcome Exception (StringT × List ScardReaderState))) :
    (failures Exchange.tolerated).Accounts l
      (if e.type.isA .scardNoReadersError then .returned [] else .threw e :
        Outcome Exception (List Reader)) := by
  cases h with
  | fine unfailed own =>
    split_ifs
    · exact .fine (fun x hx => unfailed_tolerated (unfailed x hx)) nofun
    · exact .fine (fun x hx => unfailed_tolerated (unfailed x hx))
        fun x hx => own x (by cases hx; rfl)
  | @reported before after x _ split failed unfailed cleanup reports =>
    have hx : x ∈ l := split ▸ List.mem_append_right _ List.mem_cons_self
    have hothers : ∀ y ∈ before ++ after, (failures Exchange.tolerated).failed y = false :=
      fun y hy => unfailed_tolerated (unfailed y hy)
    have hfailed : x.reply.result ≠ scardSSuccess := by
      simpa [failures, unsuccessful_of_lists (hlists x hx)] using failed
    have htype : e.type = scardErrorType x.reply.result := by
      rcases reports with ⟨-, _, _, _, rfl⟩ | ⟨hok, -⟩
      · exact (scardErrorType_eq _).symm
      · exact absurd hok hfailed
    split_ifs with hnone
    · refine .fine (fun y hy => ?_) nofun
      rw [split] at hy
      rcases List.mem_append.mp hy with hy | hy
      · exact hothers y (List.mem_append_left _ hy)
      · rcases List.mem_cons.mp hy with rfl | hy
        · simp [failures, tolerated_of_lists (hlists _ hx), ← htype, hnone]
        · exact hothers y (List.mem_append_right _ hy)
    · refine .reported split ?_ hothers cleanup reports
      simp [failures, unsuccessful_of_lists (hlists x hx), hfailed,
        tolerated_of_lists (hlists x hx), ← htype, hnone]

theorem accounts_released {α : Type} {w w' : World σ} {l : List Exchange}
    {r : Outcome Exception α} (ctx : ScardContext) (htrace : w'.trace = w.trace ++ l)
    (h : (failures Exchange.tolerated).Accounts l r) :
    ∃ l', (w'.after pcsc (.releaseContext ctx)).trace = w.trace ++ l' ∧
      (failures Exchange.tolerated).Accounts l' r := by
  refine ⟨l ++ [_], by rw [World.after_trace, htrace, List.append_assoc], h.append fun x hx => ?_⟩
  rw [List.mem_singleton.mp hx]
  simp [failures, Exchange.tolerated, Call.resultIgnored, Call.givesBack]

theorem listReaders_honest :
    (failures Exchange.tolerated).Honest Process.log (listReaders pcsc) := by
  intro p
  obtain ⟨l, hlisting, haccounts⟩ := @listing_honest _ pcsc
    (establishedContext pcsc p.world) (p.world.after pcsc (.establishContext scardScopeUser))
  have hlists : ∀ x ∈ l, x.call.lists = true := by
    obtain ⟨new, htrace, hcalls⟩ := @listing_within _ pcsc
      (Call.ListsOn (establishedContext pcsc p.world)) _ (fun _ => ⟨rfl, rfl⟩)
      (fun _ => ⟨rfl, rfl⟩) (p.world.after pcsc (.establishContext scardScopeUser))
    obtain rfl := List.append_cancel_left (hlisting.symm.trans htrace)
    exact fun x hx => (hcalls x hx).lists
  rw [World.after_trace, List.append_assoc, List.singleton_append] at hlisting
  have hestablished : (pcsc p.world.service (.establishContext scardScopeUser)).1.result =
        scardSSuccess → (establishedContext pcsc p.world).value ≠ 0 →
      ∀ x ∈ [(⟨.establishContext scardScopeUser,
          (pcsc p.world.service (.establishContext scardScopeUser)).1⟩ : Exchange)],
        (failures Exchange.tolerated).failed x = false := by
    intro success value x hx
    have hvalue : (pcsc p.world.service (.establishContext scardScopeUser)).1.handle ≠ 0 := value
    rw [List.mem_singleton.mp hx]
    simp [failures, Exchange.unsuccessful, success, hvalue]
  have hunfailed : ∀ {r : Outcome Exception (StringT × List ScardReaderState)} {w : World σ},
      listing pcsc (establishedContext pcsc p.world)
        (p.world.after pcsc (.establishContext scardScopeUser)) = (r, w) →
      (∀ e, r ≠ .threw e) → ∀ x ∈ l, (failures Exchange.tolerated).failed x = false := by
    rintro r w hrun hr x hx
    rw [hrun] at haccounts
    exact unfailed_tolerated (haccounts.unfailed hr x hx)
  have hfinishes := listReaders_finishes pcsc p
  generalize listReaders pcsc p = finish at hfinishes
  cases hfinishes with
  | refused e refused =>
    obtain ⟨l, hnew, hrefused⟩ :=
      @Context.new_honest _ Exchange.tolerated pcsc (fun _ => rfl) p.world
    rw [refused] at hnew hrefused
    exact ⟨l, hnew, hrefused.threw⟩
  | failed e w contexts success value listed =>
    rw [listed] at hlisting haccounts
    exact accounts_released _ hlisting
      ((accounts_caught hlists haccounts).prepend (hestablished success value))
  | listed readerNames readerStates w contexts success value listed =>
    have hall := List.forall_mem_append.mpr ⟨hestablished success value, hunfailed listed nofun⟩
    rw [listed] at hlisting
    dsimp only
    split_ifs
    · exact accounts_released _ hlisting (.fine hall nofun)
    · exact ⟨_, hlisting, .fine hall nofun⟩
  | undefined o w contexts success value listed unthrown =>
    have hall := List.forall_mem_append.mpr
      ⟨hestablished success value, hunfailed listed unthrown⟩
    rw [listed] at hlisting
    exact ⟨_, hlisting, .fine hall nofun⟩

end Listing

namespace Session

abbrev log (s : Session σ) : List Exchange := s.world.trace

theorem onWorld_honest {α : Type} {x : Program σ α}
    (h : (failures tolerated).Honest World.trace x) :
    (failures tolerated).Honest log (onWorld x) :=
  honest_zoom h (fun _ => rfl) fun _ _ => rfl

theorem setInProgress_honest (inProgress : Bool) :
    (failures tolerated).Honest log
      (setInProgress inProgress : Action Exception (Session σ) Unit) :=
  honest_modify fun _ => rfl

theorem beginTransaction_honest :
    (failures Exchange.tolerated).Honest log (beginTransaction pcsc) := by
  refine (honest_read _).bind fun card => ?_
  split
  · exact honest_throw rfl
  · refine (honest_read _).bind fun begun => ?_
    refine (onWorld_honest ?_).bind fun _ => (setInProgress_honest true).bind fun _ => honest_pure _
    exact (honest_scardCall (fun _ h => by cases h) fun _ => rfl).bind fun _ => honest_pure _

theorem destroyGuard_honest (guard : TransactionGuard) :
    (failures Exchange.tolerated).Honest log (guard.destroy pcsc) := by
  intro s
  rw [destroy_apply]
  refine ⟨_, rfl, .fine (fun e he => ?_) nofun⟩
  rw [List.mem_singleton.mp he]
  simp [failures, Exchange.tolerated, Call.resultIgnored]

theorem step_honest (fuel : Nat) (o : Operation) :
    (failures Exchange.tolerated).Honest log (step pcsc fuel o) := by
  cases o with
  | beginTransaction =>
    exact beginTransaction_honest.bind fun _ => honest_modify fun _ => rfl
  | destroyGuard i =>
    refine (honest_read _).bind fun guards => (honest_index _ _).bind fun guard => ?_
    refine (honest_read _).bind fun place => ?_
    exact (destroyGuard_honest guard).bind fun _ => honest_modify fun _ => rfl
  | transmit command =>
    refine (honest_read _).bind fun smartCard => (onWorld_honest ?_).bind fun _ => honest_pure _
    refine SmartCard.requireTransaction_honest fun card => ?_
    refine (honest_ofExcept fun _ => toBytes_own).bind fun commandBytes => ?_
    exact CardImpl.transmitBytes_honest (fun _ _ => rfl) fuel commandBytes
  | transmitCTL command lang minlen =>
    refine (honest_read _).bind fun smartCard => (onWorld_honest ?_).bind fun _ => honest_pure _
    refine SmartCard.requireTransaction_honest fun card => ?_
    refine (honest_ofExcept fun _ => toBytes_own).bind fun commandBytes => ?_
    refine CardImpl.transmitBytesCTL_honest (fun ioctl cmd reply => ?_) commandBytes lang minlen
    simp [Exchange.tolerated, Call.resultIgnored, Call.lists, ResponseApdu.maxSize,
      ResponseApdu.maxDataSize]

end Session

namespace System

abbrev log (s : System σ) : List Exchange := s.process.world.trace

theorem onProcess_honest {α : Type} {x : Action Exception (Process σ) α}
    (h : (failures Exchange.tolerated).Honest Process.log x) :
    (failures Exchange.tolerated).Honest log (onProcess x) :=
  honest_zoom h (fun _ => rfl) fun _ _ => rfl

theorem step_honest (fuel : Nat) (o : Operation) :
    (failures Exchange.tolerated).Honest log (step pcsc fuel o) := by
  cases o with
  | listReaders =>
    exact (onProcess_honest listReaders_honest).bind fun _ => honest_modify fun _ => rfl
  | copyReader i =>
    refine (honest_read _).bind fun readers => (honest_index _ _).bind fun reader => ?_
    refine (onProcess_honest ?_).bind fun copied => honest_modify fun _ => rfl
    exact (copy_honest reader.ctx).bind fun _ => honest_pure _
  | destroyReader i =>
    refine (honest_read _).bind fun readers => (honest_index _ _).bind fun reader => ?_
    refine Honest.bind (honest_modify fun _ => rfl) fun _ => onProcess_honest ?_
    exact destroy_honest reader.ctx fun _ _ => rfl
  | connectToCard i =>
    refine (honest_read _).bind fun readers => (honest_index _ _).bind fun reader => ?_
    refine (onProcess_honest ?_).bind fun smartCard => honest_modify fun _ => rfl
    refine ((honest_read _).bind fun contexts => (honest_index _ _).bind fun c =>
      honest_pure _).bind fun ctx => onWorld_honest ?_
    exact SmartCard.new_honest fuel ctx reader.name reader.cardAtr (fun _ => rfl)
      (fun _ _ => rfl) fun _ _ => rfl
  | onCard i o =>
    refine (honest_read _).bind fun cards => (honest_index _ _).bind fun held => ?_
    exact honest_zoom (Session.step_honest fuel o) (fun _ => rfl) fun _ _ => rfl
  | destroyCard i =>
    refine (honest_read _).bind fun cards => (honest_index _ _).bind fun held => ?_
    refine Honest.bind (honest_modify fun _ => rfl) fun _ => onProcess_honest ?_
    exact onWorld_honest (SmartCard.destroy_honest fun _ _ => rfl)

/-- Whatever state an operation starts from, it makes at most one call that fails and is not
tolerated, throws an exception of the class for its code when there is one after giving back
what it holds, and throws no `ScardError` otherwise.  So in every run as many calls fail as
operations throw a `ScardError`. -/
theorem failures_reported (pcsc : Service σ) (fuel : Nat) (service : σ) (os : List Operation) :
    (∀ (o : Operation) (s : System σ), ∃ l, (step pcsc fuel o s).2.log = s.log ++ l ∧
      (failures Exchange.tolerated).Accounts l (step pcsc fuel o s).1) ∧
    ∀ s ∈ (states (step pcsc fuel) os (start service)).getLast?,
      s.log.countP (failures Exchange.tolerated).failed =
        (steps (step pcsc fuel) os (start service)).countP fun p =>
          (failures Exchange.tolerated).blames (step pcsc fuel p.1 p.2).1 := by
  refine ⟨fun o => step_honest fuel o, fun s hs => ?_⟩
  rw [countP_failed (fun o => step_honest fuel o) os (start service) s hs]
  exact Nat.zero_add _

def failing : Service Unit
  | _, .connect _ _ _ _ => (.failed scardWRemovedCard, ())
  | _, .releaseContext _ => (.failed scardENoService, ())
  | st, call => oneReader st call

theorem failures_reported_failing :
    ∃ s ∈ (states (step failing 1) [.listReaders, .connectToCard 0, .destroyReader 0]
        (start ())).getLast?,
      s.log.countP (failures Exchange.tolerated).failed = 1 := by
  have hlast : (states (step failing 1) [.listReaders, .connectToCard 0, .destroyReader 0]
      (start ())).getLast?.isSome = true := by
    decide +kernel
  have hthrew : ((steps (step failing 1) [.listReaders, .connectToCard 0, .destroyReader 0]
      (start ())).countP fun p =>
        (failures Exchange.tolerated).blames (step failing 1 p.1 p.2).1) = 1 := by
    decide +kernel
  obtain ⟨s, hs⟩ := Option.isSome_iff_exists.mp hlast
  exact ⟨s, hs, ((failures_reported failing 1 () _).2 s hs).trans hthrew⟩

end System

end PcscCpp

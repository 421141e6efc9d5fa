import PcscCpp.Formats.Text
import PcscCpp.Laws.ExpectedResponse
import PcscCpp.Laws.Reporting

namespace PcscCpp

open Effects Blame

variable {σ W : Type}

theorem bytes2hexstr_toList (bytes : ByteVector) :
    (bytes2hexstr bytes).toList = bytes.flatMap Text.byteDigits := by
  rw [bytes2hexstr, String.toList_ofList]

def resultDigits (result : Long) : List Char := (Nat.toDigits 16 result.toNat).leftpad 16 '0'

theorem int2hexstr_toList (result : Long) :
    (int2hexstr result).toList = '0' :: 'x' :: resultDigits result := by
  have hdigits : (String.ofList (List.leftpad 16 '0' (Nat.toDigits 16 result.toNat))).toList =
      resultDigits result := String.toList_ofList
  rw [int2hexstr, String.toList_append, hdigits]
  rfl

theorem number_resultDigits (result : Long) :
    Text.number (resultDigits result) = some result.toNat := by
  rw [resultDigits, Text.number_leftpad, Text.number_toDigits]

theorem resultDigits_ne (result : Long) : ∀ c ∈ resultDigits result, c ≠ ' ' := by
  intro c hc
  rcases List.mem_append.mp hc with hc | hc
  · rw [List.eq_of_mem_replicate hc]
    decide
  · exact Text.toDigits_ne (by decide) c hc

def readErrorMessage (what : String) : Option (String × Long) := do
  let (function, rest) ← Text.field [] ' ' what.toList
  let (digits, _) ← Text.field " returned 0x".toList ' ' rest
  let result ← Text.number digits
  some (String.ofList function, result.toUInt64)

theorem functionName_ne (call : Call) : ∀ c ∈ call.functionName.toList, c ≠ ' ' := by
  have hnames : ∀ name ∈ ["SCardEstablishContext", "SCardReleaseContext", "SCardListReaders",
      "SCardGetStatusChange", "SCardConnect", "SCardDisconnect", "SCardBeginTransaction",
      "SCardEndTransaction", "SCardTransmit", "SCardControl"],
      name.toList.contains ' ' = false := by
    decide +kernel
  intro c hc hblank
  have hcall := hnames call.functionName (by cases call <;> simp [Call.functionName])
  rw [hblank] at hc
  simp [hc] at hcall

theorem readErrorMessage_build (callerFunctionName : String) (call : Call) (result : Long)
    (file : String) (line : Nat) :
    readErrorMessage (buildErrorMessage callerFunctionName call.functionName result file line) =
      some (call.functionName, result) := by
  have htext : (buildErrorMessage callerFunctionName call.functionName result file line).toList =
      [] ++ (call.functionName.toList ++ (" returned 0x".toList ++ (resultDigits result ++
        (" in ".toList ++ ((removeAbsolutePathPrefix file).toList ++ (":".toList ++
          ((toString line).toList ++ (":".toList ++ callerFunctionName.toList)))))))) := by
    simp only [buildErrorMessage, String.toList_append, int2hexstr_toList, List.append_assoc]
    rfl
  rw [readErrorMessage, htext, Text.field_append (functionName_ne call) rfl]
  simp only [Option.bind_eq_bind, Option.bind_some]
  rw [Text.field_append (resultDigits_ne result) rfl]
  simp only [Option.bind_some, number_resultDigits, String.ofList_toList]
  rw [Nat.toUInt64, UInt64.ofNat_toNat]

theorem readErrorMessage_nullHandle :
    readErrorMessage (throwWithCallerInfo .scardError
      ("Context:SCardEstablishContext: service unavailable " ++ "(null context handle)")
      "src/Context.hpp" 42 "Context").what = none := by
  decide +kernel

namespace Exchange

/-- What is to be told of a failed call: its function and its result code, if that is an error. -/
def told (e : Exchange) : Option (String × Long) :=
  if e.reply.result = scardSSuccess then none else some (e.call.functionName, e.reply.result)

theorem Reports.told {e : Exchange} {x : Exception} (h : e.Reports x) :
    readErrorMessage x.what = e.told := by
  rcases h with ⟨hresult, callerFunctionName, file, line, rfl⟩ | ⟨hresult, rfl⟩
  · rw [readErrorMessage_build, Exchange.told, if_neg hresult]
  · rw [readErrorMessage_nullHandle, Exchange.told, if_pos hresult]

end Exchange

namespace System

/-- In every run the texts of the `ScardError`s that the operations throw, read one after the
other, give the function and the result code of each call that failed and was not tolerated, in
the order of the calls. -/
theorem failed_calls_read (pcsc : Service σ) (fuel : Nat) (service : σ) (os : List Operation) :
    ∀ s ∈ (states (step pcsc fuel) os (start service)).getLast?,
      (s.log.filter (failures Exchange.tolerated).failed).map Exchange.told =
        (steps (step pcsc fuel) os (start service)).filterMap fun p =>
          (failures Exchange.tolerated).heard (fun x => readErrorMessage x.what)
            (step pcsc fuel p.1 p.2).1 := by
  intro s hs
  rw [failed_heard (fun _ _ h => Exchange.Reports.told h) (fun o => step_honest fuel o) os
    (start service) s hs]
  exact List.nil_append _

theorem failed_calls_read_failing :
    ∃ s ∈ (states (step failing 1) [.listReaders, .connectToCard 0, .connectToCard 0]
        (start ())).getLast?,
      (s.log.filter (failures Exchange.tolerated).failed).map Exchange.told =
        [some ("SCardConnect", scardWRemovedCard), some ("SCardConnect", scardWRemovedCard)] := by
  have hlast : (states (step failing 1) [.listReaders, .connectToCard 0, .connectToCard 0]
      (start ())).getLast?.isSome = true := by
    decide +kernel
  have hread : ((steps (step failing 1) [.listReaders, .connectToCard 0, .connectToCard 0]
      (start ())).filterMap fun p =>
        (failures Exchange.tolerated).heard (fun x => readErrorMessage x.what)
          (step failing 1 p.1 p.2).1) =
      [some ("SCardConnect", scardWRemovedCard), some ("SCardConnect", scardWRemovedCard)] := by
    decide +kernel
  obtain ⟨s, hs⟩ := Option.isSome_iff_exists.mp hlast
  exact ⟨s, hs, (failed_calls_read failing 1 () _ s hs).trans hread⟩

end System

def readUnexpectedResponse (what : String) : Option (ByteVector × ByteVector × ByteVector) := do
  let (sent, rest) ← Text.field
    "transmitApduWithExpectedResponse(): Unexpected response to command '".toList '\'' what.toList
  let (expected, rest) ← Text.field "' - expected '".toList '\'' rest
  let (got, _) ← Text.field "', got '".toList ' ' rest
  let sent ← Text.bytes sent
  let expected ← Text.bytes expected
  let got ← Text.bytes got
  some (sent, expected, got)

theorem readUnexpectedResponse_what {command : CommandApdu} {commandBytes : ByteVector}
    (hcommand : command.toBytes = .ok commandBytes) (expectedResponseBytes : ByteVector)
    (response : ResponseApdu) (file : String) (line : Nat) (callerFunctionName : String) :
    ∃ e, unexpectedResponseError command expectedResponseBytes response file line
        callerFunctionName = .ok e ∧ e.type = .unexpectedResponseError ∧
      readUnexpectedResponse e.what =
        some (commandBytes, expectedResponseBytes, response.toBytes) := by
  rw [unexpectedResponseError, hcommand]
  refine ⟨_, rfl, rfl, ?_⟩
  simp only [readUnexpectedResponse, String.toList_append, List.append_assoc, bytes2hexstr_toList]
  have hdigits : ∀ (bytes : ByteVector) (stop : Char), Text.digitValue stop = none →
      ∀ c ∈ bytes.flatMap Text.byteDigits, c ≠ stop := fun _ _ h => Text.byteDigits_ne h
  rw [Text.field_append (hdigits _ _ (by decide)) rfl]
  simp only [Option.bind_eq_bind, Option.bind_some]
  rw [Text.field_append (hdigits _ _ (by decide)) rfl]
  simp only [Option.bind_some]
  rw [Text.field_append (hdigits _ _ (by decide)) rfl]
  simp only [Option.bind_some, Text.bytes_byteDigits]

section Unexpected

variable {pcsc : Service σ} {fuel : Nat} {s : SmartCard} {card : CardImpl} {command : CommandApdu}
  {expected commandBytes : ByteVector} {w w' : World σ}

def NotUnexpected (e : Exception) : Prop := e.type ≠ .unexpectedResponseError

theorem notUnexpected_of_eq {e : Exception} {t : ExceptionType} (h : e.type = t)
    (ht : t ≠ .unexpectedResponseError) : NotUnexpected e := fun htype => ht (h.symm.trans htype)

theorem Raised.notUnexpected {e : Exception} (h : Raised e) : NotUnexpected e := by
  intro htype
  rw [Raised, htype] at h
  exact absurd h (by decide)

theorem SmartCard.transmit_notUnexpected :
    Action.Throws NotUnexpected (s.transmit pcsc fuel command) := by
  unfold transmit requireTransaction
  split
  · exact Action.throws_throw (notUnexpected_of_eq (t := .logicError) rfl (by decide))
  · split_ifs
    · exact Action.throws_throw (notUnexpected_of_eq (t := .logicError) rfl (by decide))
    · refine Action.Throws.bind (Action.throws_ofExcept fun e he => ?_) fun commandBytes =>
        (CardImpl.transmitBytes_raised fuel commandBytes).mono fun _ => Raised.notUnexpected
      exact notUnexpected_of_eq (CommandApdu.toBytes_throws he) (by decide)

theorem SmartCard.transmit_returned {response : ResponseApdu}
    (h : s.transmit pcsc fuel command w = (.returned response, w')) :
    ∃ card commandBytes, s.card = some card ∧ command.toBytes = .ok commandBytes ∧
      Calls.StartsWith (card.transmitCall commandBytes) (fun _ => True) w w' := by
  by_cases hrefused : s.card = none ∨ s.transactionInProgress = false
  · obtain ⟨e, he⟩ := transmit_refused pcsc w hrefused fuel command
    rw [he] at h
    cases h
  · push Not at hrefused
    obtain ⟨card, hcard⟩ := Option.ne_none_iff_exists'.mp hrefused.1
    have hs : s.InTransaction card := ⟨hcard, by simpa using hrefused.2⟩
    cases hc : command.toBytes with
    | error e =>
      rw [transmit_eq hs, hc] at h
      cases h
    | ok commandBytes =>
      have hstarts : Calls.StartsWith (card.transmitCall commandBytes) (fun _ => True) w
          (CardImpl.transmitBytes pcsc card fuel commandBytes w).2 :=
        CardImpl.transmitBytes_startsWith (fun _ => trivial) fuel commandBytes w
      rw [transmit_encoded hs hc] at h
      rw [h] at hstarts
      exact ⟨card, commandBytes, hcard, rfl, hstarts⟩

theorem CommandApdu.fromBytes_throws {bytes : ByteVector} {useLe : Bool} {e : Exception}
    (h : CommandApdu.fromBytes bytes useLe = .error e) : e.type = .invalidArgument := by
  unfold CommandApdu.fromBytes at h
  split_ifs at h <;> cases h <;> rfl

structure Unexpected (pcsc : Service σ) (fuel : Nat) (s : SmartCard)
    (parsed : Except Exception CommandApdu) (expected : ByteVector) (w w' : World σ)
    (command : CommandApdu) (response : ResponseApdu) : Prop where
  parsed : parsed = .ok command
  returned : s.transmit pcsc fuel command w = (.returned response, w')
  differs : response.toBytes ≠ expected

/-- An `UnexpectedResponseError` is thrown exactly when the response is not the expected one, and
what can be read from its text is the bytes of the command that was sent to the card, those that
were expected and those of the response. -/
structure UnexpectedReported (pcsc : Service σ) (fuel : Nat) (s : SmartCard)
    (parsed : Except Exception CommandApdu) (expected : ByteVector) (w : World σ)
    (r : Outcome Exception Unit × World σ) : Prop where
  thrown : (∃ e, r.1 = .threw e ∧ e.type = .unexpectedResponseError) ↔
    ∃ command response, Unexpected pcsc fuel s parsed expected w r.2 command response
  text : ∀ e, r.1 = .threw e → e.type = .unexpectedResponseError →
    ∃ command response card sent, Unexpected pcsc fuel s parsed expected w r.2 command response ∧
      s.card = some card ∧ command.toBytes = .ok sent ∧
      Calls.StartsWith (card.transmitCall sent) (fun _ => True) w r.2 ∧
      readUnexpectedResponse e.what = some (sent, expected, response.toBytes)

theorem Unexpected.threw {response : ResponseApdu}
    (h : Unexpected pcsc fuel s (.ok command) expected w w' command response) :
    ∃ e card sent, transmitApduWithExpectedResponse (s.transmit pcsc fuel) command expected w =
        (.threw e, w') ∧ e.type = .unexpectedResponseError ∧
      s.card = some card ∧ command.toBytes = .ok sent ∧
      Calls.StartsWith (card.transmitCall sent) (fun _ => True) w w' ∧
      readUnexpectedResponse e.what = some (sent, expected, response.toBytes) := by
  obtain ⟨card, sent, hcard, hsent, hstarts⟩ := SmartCard.transmit_returned h.returned
  obtain ⟨e, he, htype, hread⟩ := readUnexpectedResponse_what hsent expected response
    "src/utils.cpp" 101 "transmitApduWithExpectedResponse"
  refine ⟨e, card, sent, ?_, htype, hcard, hsent, hstarts, hread⟩
  rw [transmitApduWithExpectedResponse, Action.bind_returned h.returned, if_pos h.differs, he]
  rfl

theorem unexpected_of_threw {e : Exception}
    (hrun : transmitApduWithExpectedResponse (s.transmit pcsc fuel) command expected w =
      (.threw e, w')) (htype : e.type = .unexpectedResponseError) :
    ∃ response, Unexpected pcsc fuel s (.ok command) expected w w' command response := by
  rcases Action.bind_eq_threw.mp hrun with hrefused | ⟨response, w₁, hreturned, hrest⟩
  · exact absurd htype (SmartCard.transmit_notUnexpected w e w' hrefused)
  · split_ifs at hrest with hdiffers
    · obtain ⟨card, commandBytes, -, hc, -⟩ := SmartCard.transmit_returned hreturned
      obtain ⟨e', he', -⟩ := readUnexpectedResponse_what hc expected response
        "src/utils.cpp" 101 "transmitApduWithExpectedResponse"
      rw [he', Action.ofExcept_ok, Action.pure_bind] at hrest
      cases hrest
      exact ⟨response, rfl, hreturned, hdiffers⟩
    · cases hrest

theorem unexpectedReported_of_command :
    UnexpectedReported pcsc fuel s (.ok command) expected w
      (transmitApduWithExpectedResponse (s.transmit pcsc fuel) command expected w) := by
  constructor
  · constructor
    · rintro ⟨e, hthrew, htype⟩
      obtain ⟨response, h⟩ := unexpected_of_threw (Prod.ext hthrew rfl) htype
      exact ⟨command, response, h⟩
    · rintro ⟨other, response, h⟩
      obtain rfl := Except.ok.inj h.parsed
      obtain ⟨e, card, sent, hrun, htype, -⟩ := h.threw
      exact ⟨e, by rw [hrun], htype⟩
  · intro e hthrew htype
    obtain ⟨response, h⟩ := unexpected_of_threw (Prod.ext hthrew rfl) htype
    obtain ⟨e', card, sent, hrun, -, hcard, hsent, hstarts, hread⟩ := h.threw
    rw [hrun] at hthrew
    cases hthrew
    exact ⟨command, response, card, sent, h, hcard, hsent, hstarts, hread⟩

/-- Both overloads report a response that is not the expected one, and nothing else, as one; the
overload on bytes reports the command that it has parsed and encoded again. -/
theorem unexpected_response_read (pcsc : Service σ) (fuel : Nat) (s : SmartCard)
    (expected : ByteVector) (w : World σ) :
    (∀ command, UnexpectedReported pcsc fuel s (.ok command) expected w
      (transmitApduWithExpectedResponse (s.transmit pcsc fuel) command expected w)) ∧
    ∀ commandBytes,
      UnexpectedReported pcsc fuel s (CommandApdu.fromBytes commandBytes false) expected w
        (transmitApduBytesWithExpectedResponse (s.transmit pcsc fuel) commandBytes expected w) := by
  refine ⟨fun command => unexpectedReported_of_command, fun commandBytes => ?_⟩
  rw [transmitApduBytesWithExpectedResponse]
  cases hparsed : CommandApdu.fromBytes commandBytes false with
  | ok command =>
    rw [Action.ofExcept_ok, Action.pure_bind]
    exact unexpectedReported_of_command
  | error e =>
    have htype := CommandApdu.fromBytes_throws hparsed
    rw [Action.ofExcept_error, Action.throw_bind, Action.throw_apply]
    refine ⟨iff_of_false ?_ ?_, fun e' hthrew hunexpected => ?_⟩
    · rintro ⟨e', hthrew, hunexpected⟩
      cases hthrew
      rw [htype] at hunexpected
      cases hunexpected
    · rintro ⟨command, w', h⟩
      cases h.parsed
    · cases hthrew
      rw [htype] at hunexpected
      cases hunexpected

end Unexpected

end PcscCpp

import PcscCpp.Laws.Provenance

namespace PcscCpp

open Effects

variable {σ : Type}

def Call.payload? : Call → Option (ScardHandle × ByteVector)
  | .transmit cardHandle _ commandBytes _ => some (cardHandle, commandBytes)
  | .control cardHandle _ cmd _ => if cmd = [] then none else some (cardHandle, cmd)
  | _ => none

/-- What has to be carried to the card next, if the answer announces more data. -/
def Exchange.awaits (e : Exchange) : Option (ScardHandle × ByteVector) :=
  match e.call with
  | .transmit cardHandle _ _ _ =>
    if e.reply.More then some (cardHandle, CardImpl.getResponse e.reply.response.sw2) else none
  | _ => none

def carries (last : Option Exchange) (e : Exchange) : List (ScardHandle × ByteVector) :=
  if e.call.payload? = last.bind Exchange.awaits then [] else e.call.payload?.toList

/-- What was carried to the cards, without the requests for announced data. -/
def commands (t : List Exchange) : List (ScardHandle × ByteVector) := scan carries none t

def AtRest (t : List Exchange) : Prop := t.getLast?.bind Exchange.awaits = none

def Drained (t : List Exchange) : Prop :=
  EachAfter (fun pre e => ∀ request ∈ pre.getLast?.bind Exchange.awaits,
    e.call.payload? = some request) t

def Call.Silent (call : Call) : Prop := call.payload? = none

section Commands

variable {pcsc : Service σ} {w w' : World σ} {call : Call}

theorem commands_after (pcsc : Service σ) (w : World σ) (call : Call) :
    commands (w.after pcsc call).trace =
      commands w.trace ++ carries w.trace.getLast? ⟨call, (pcsc w.service call).1⟩ := by
  rw [commands, World.after_trace, scan_concat, Option.or_none]
  rfl

theorem atRest_after : AtRest (w.after pcsc call).trace ↔
    Exchange.awaits ⟨call, (pcsc w.service call).1⟩ = none := by
  rw [AtRest, World.after_trace, List.getLast?_concat, Option.bind_some]

theorem drained_after (hdrained : Drained w.trace)
    (hcall : ∀ request ∈ w.trace.getLast?.bind Exchange.awaits, call.payload? = some request)
    (pcsc : Service σ) : Drained (w.after pcsc call).trace :=
  eachAfter_concat.mpr ⟨hdrained, hcall⟩

theorem drained_after_atRest (hdrained : Drained w.trace) (h : AtRest w.trace)
    (pcsc : Service σ) (call : Call) : Drained (w.after pcsc call).trace :=
  drained_after hdrained (by simp [show w.trace.getLast?.bind Exchange.awaits = none from h]) pcsc

theorem commands_after_atRest (h : AtRest w.trace) (pcsc : Service σ) (call : Call) :
    commands (w.after pcsc call).trace = commands w.trace ++ call.payload?.toList := by
  rw [commands_after, carries, h]
  split_ifs with hnone
  · rw [hnone]
    rfl
  · rfl

theorem silent_verifyCall (card : CardImpl) (code : UInt32) :
    Call.Silent (card.verifyCall code []) := by
  simp [Call.Silent, CardImpl.verifyCall, Call.payload?]

theorem Call.Silent.awaits (h : call.Silent) (reply : Reply) :
    Exchange.awaits ⟨call, reply⟩ = none := by
  cases call <;> first | rfl | cases h

theorem commands_silent (hrest : AtRest w.trace) (h : Calls Call.Silent w w') :
    commands w'.trace = commands w.trace ∧ (Drained w.trace → Drained w'.trace) ∧
      AtRest w'.trace := by
  obtain ⟨new, htrace, hnew⟩ := h
  rw [htrace]
  clear htrace
  induction new using List.reverseRecOn with
  | nil => simpa using hrest
  | append_singleton new e ih =>
    obtain ⟨hsame, hdrained, hlast⟩ := ih fun e' he' => hnew e' (List.mem_append_left _ he')
    have hsilent : e.call.payload? = none := hnew e (by simp)
    have hcarries : carries (w.trace ++ new).getLast? e = [] := by
      rw [carries, hsilent]
      exact ite_self _
    rw [← List.append_assoc]
    refine ⟨?_, fun h => eachAfter_concat.mpr ⟨hdrained h, ?_⟩, ?_⟩
    · rw [← hsame, commands, commands, scan_concat, Option.or_none, hcarries, List.append_nil]
    · rw [show (w.trace ++ new).getLast?.bind Exchange.awaits = none from hlast]
      simp
    · rw [AtRest, List.getLast?_concat, Option.bind_some]
      exact Call.Silent.awaits hsilent e.reply

end Commands

namespace CardImpl

variable {pcsc : Service σ} {card : CardImpl} {commandBytes : ByteVector} {w : World σ}

theorem transmitBytes_last (h : ¬ (pcsc w.service (card.transmitCall commandBytes)).1.More)
    (fuel : Nat) :
    (transmitBytes pcsc card fuel commandBytes w).2 =
        w.after pcsc (card.transmitCall commandBytes) ∧
      AtRest (w.after pcsc (card.transmitCall commandBytes)).trace := by
  refine ⟨?_, atRest_after.mpr (if_neg h)⟩
  by_cases haccepted : (pcsc w.service (card.transmitCall commandBytes)).1.Accepted
  · rw [transmitBytes_final haccepted h]
  · obtain ⟨e, he⟩ := @transmitBytes_rejected _ card pcsc w fuel _ haccepted
    rw [he]

theorem transmitBytes_commands (fuel : Nat) :
    commands (transmitBytes pcsc card fuel commandBytes w).2.trace =
        commands (w.after pcsc (card.transmitCall commandBytes)).trace ∧
      (Drained (w.after pcsc (card.transmitCall commandBytes)).trace →
        Drained (transmitBytes pcsc card fuel commandBytes w).2.trace) ∧
      ((transmitBytes pcsc card fuel commandBytes w).1.Completes →
        AtRest (transmitBytes pcsc card fuel commandBytes w).2.trace) := by
  induction fuel generalizing commandBytes w with
  | zero =>
    by_cases hmore : (pcsc w.service (card.transmitCall commandBytes)).1.More
    · rw [transmitBytes_zero, Action.bind_returned (exchange_announced hmore), if_pos hmore.2]
      exact ⟨rfl, id, fun h => by cases h⟩
    · obtain ⟨hworld, hrest⟩ := transmitBytes_last hmore 0
      rw [hworld]
      exact ⟨rfl, id, fun _ => hrest⟩
  | succ fuel ih =>
    by_cases hmore : (pcsc w.service (card.transmitCall commandBytes)).1.More
    · obtain ⟨hcommands, hdrained, hrest⟩ := @ih
        (getResponse (pcsc w.service (card.transmitCall commandBytes)).1.response.sw2)
        (w.after pcsc (card.transmitCall commandBytes))
      -- the request is the one that the answer before it awaits
      have hawaits : (w.after pcsc (card.transmitCall commandBytes)).trace.getLast?.bind
          Exchange.awaits = (card.transmitCall (getResponse
            (pcsc w.service (card.transmitCall commandBytes)).1.response.sw2)).payload? := by
        rw [World.after_trace, List.getLast?_concat]
        exact if_pos hmore
      rw [commands_after, carries, hawaits, if_pos rfl, List.append_nil] at hcommands
      have hfetched : Drained (w.after pcsc (card.transmitCall commandBytes)).trace →
          Drained (transmitBytes pcsc card fuel (getResponse
              (pcsc w.service (card.transmitCall commandBytes)).1.response.sw2)
            (w.after pcsc (card.transmitCall commandBytes))).2.trace := fun h =>
        hdrained (drained_after h (by rw [hawaits]; exact fun _ => id) pcsc)
      rw [transmitBytes_succ, Action.bind_returned (exchange_announced hmore), if_pos hmore.2,
        Action.bind_apply]
      rcases hrun : transmitBytes pcsc card fuel _ _ with ⟨r | e | _ | _, w'⟩ <;>
        rw [hrun] at hcommands hfetched hrest
      · exact ⟨hcommands, hfetched, fun _ => hrest (.returned r)⟩
      · exact ⟨hcommands, hfetched, fun _ => hrest (.threw e)⟩
      · exact ⟨hcommands, hfetched, hrest⟩
      · exact ⟨hcommands, hfetched, hrest⟩
    · obtain ⟨hworld, hrest⟩ := transmitBytes_last hmore (fuel + 1)
      rw [hworld]
      exact ⟨rfl, id, fun _ => hrest⟩

theorem transmitBytesCTL_commands {code : UInt32} (hcode : card.verifyCode = some code)
    (lang : UInt16) (minlen : UInt8) :
    Calls Call.Silent (w.after pcsc (card.verifyCall code
        ((pinVerifyStructure commandBytes lang minlen).memory ++ commandBytes)))
      (transmitBytesCTL pcsc card commandBytes lang minlen w).2 := by
  have hverifies := @transmitBytesCTL_verifies _ card pcsc w commandBytes lang minlen code hcode
  by_cases hok : (pcsc w.service (card.verifyCall code
      ((pinVerifyStructure commandBytes lang minlen).memory ++ commandBytes))).1.result =
        scardSSuccess
  · cases hfinish : card.features featureVerifyPinFinish with
    | none =>
      rw [hverifies.start_only hok hfinish, Action.ofExcept_world]
      exact Extends.refl _
    | some finish =>
      by_cases hdone : (pcsc (w.after pcsc (card.verifyCall code
          ((pinVerifyStructure commandBytes lang minlen).memory ++ commandBytes))).service
            (card.verifyCall finish [])).1.result = scardSSuccess
      · rw [hverifies.finishes hok finish hfinish hdone, Action.ofExcept_world]
        exact Calls.after (silent_verifyCall card finish) _ _
      · obtain ⟨e, he⟩ := hverifies.finish_fails hok finish hfinish hdone
        rw [he]
        exact Calls.after (silent_verifyCall card finish) _ _
  · obtain ⟨e, he⟩ := hverifies.start_fails hok
    rw [he]
    exact Extends.refl _

end CardImpl

structure Carried (payload : Option (ScardHandle × ByteVector)) (w w' : World σ) (ends : Prop) :
    Prop where
  commands_eq : commands w'.trace = commands w.trace ++ payload.toList
  drained : Drained w.trace → Drained w'.trace
  atRest : ends → AtRest w'.trace

theorem Carried.silent {w w' : World σ} {ends : Prop} (hrest : AtRest w.trace)
    (h : Calls Call.Silent w w') : Carried none w w' ends where
  commands_eq := by rw [(commands_silent hrest h).1, Option.toList_none, List.append_nil]
  drained := (commands_silent hrest h).2.1
  atRest := fun _ => (commands_silent hrest h).2.2

namespace CardImpl

variable {pcsc : Service σ} {card : CardImpl} {w : World σ}

theorem transmitBytes_carried (hrest : AtRest w.trace) (fuel : Nat) (commandBytes : ByteVector) :
    Carried (some (card.cardHandle, commandBytes)) w
      (transmitBytes pcsc card fuel commandBytes w).2
      (transmitBytes pcsc card fuel commandBytes w).1.Completes := by
  obtain ⟨hcommands, hdrained, hends⟩ := @transmitBytes_commands _ pcsc card commandBytes w fuel
  exact ⟨hcommands.trans (commands_after_atRest hrest pcsc _),
    fun h => hdrained (drained_after_atRest h hrest pcsc _), hends⟩

theorem transmitBytesCTL_carried (hrest : AtRest w.trace) (commandBytes : ByteVector)
    (lang : UInt16) (minlen : UInt8) :
    Carried (card.verifyCode.map fun _ => (card.cardHandle,
        (pinVerifyStructure commandBytes lang minlen).memory ++ commandBytes)) w
      (transmitBytesCTL pcsc card commandBytes lang minlen w).2
      (transmitBytesCTL pcsc card commandBytes lang minlen w).1.Completes := by
  cases hcode : card.verifyCode with
  | none =>
    obtain ⟨hstart, hdirect⟩ := Option.or_eq_none_iff.mp hcode
    rw [transmitBytesCTL_noPinPad (by simp [hstart, hdirect])]
    exact .silent hrest (Extends.refl _)
  | some code =>
    have hsilent := @transmitBytesCTL_commands _ pcsc card commandBytes w code hcode lang minlen
    have hne : (pinVerifyStructure commandBytes lang minlen).memory ++ commandBytes ≠ [] := by
      simp [PinVerifyStructure.memory]
    have hpayload : (card.verifyCall code
        ((pinVerifyStructure commandBytes lang minlen).memory ++ commandBytes)).payload? =
          some (card.cardHandle,
            (pinVerifyStructure commandBytes lang minlen).memory ++ commandBytes) := by
      rw [verifyCall, Call.payload?, if_neg hne]
    obtain ⟨hsame, hdrained, hlast⟩ := commands_silent (atRest_after.mpr rfl) hsilent
    refine ⟨?_, fun h => hdrained (drained_after_atRest h hrest pcsc _), fun _ => hlast⟩
    rw [hsame, commands_after_atRest hrest, hpayload]
    rfl

end CardImpl

/-- The bytes that an operation on a card has to carry to it, as far as its state decides: a
command is sent while the flag `transactionInProgress` of the card is set. -/
def SmartCard.payloadOf (s : SmartCard) : Session.Operation → Option (ScardHandle × ByteVector)
  | .transmit command => do
    let card ← s.card
    let commandBytes ← command.toBytes.toOption
    if s.transactionInProgress then some (card.cardHandle, commandBytes) else none
  | .transmitCTL command lang minlen => do
    let card ← s.card
    let commandBytes ← command.toBytes.toOption
    let _ ← card.verifyCode
    if s.transactionInProgress then
      some (card.cardHandle,
        (CardImpl.pinVerifyStructure commandBytes lang minlen).memory ++ commandBytes)
    else none
  | _ => none

namespace Session

variable {pcsc : Service σ} {fuel : Nat} {s : Session σ} {card : CardImpl}

theorem Carried.of_send {α : Type} {payload : Option (ScardHandle × ByteVector)}
    {x : SmartCard → Program σ α}
    (h : Carried payload s.world (x s.smartCard s.world).2 (x s.smartCard s.world).1.Completes) :
    Carried payload s.world
      ((do
        let smartCard ← Action.read (·.smartCard)
        let _ ← onWorld (x smartCard) : Action Exception (Session σ) Unit) s).2.world
      ((do
        let smartCard ← Action.read (·.smartCard)
        let _ ← onWorld (x smartCard) : Action Exception (Session σ) Unit) s).1.Completes := by
  rw [send_apply]
  exact ⟨h.commands_eq, h.drained, fun hends => h.atRest ((send_completes_iff x).mp hends)⟩

theorem transmit_carried (hcard : s.smartCard.card = some card) (hrest : AtRest s.world.trace)
    (command : CommandApdu) :
    Carried (s.smartCard.payloadOf (.transmit command)) s.world
      (step pcsc fuel (.transmit command) s).2.world
      (step pcsc fuel (.transmit command) s).1.Completes := by
  refine Carried.of_send (x := fun smartCard => smartCard.transmit pcsc fuel command) ?_
  rw [SmartCard.payloadOf, hcard]
  cases hopen : s.smartCard.transactionInProgress with
  | false =>
    obtain ⟨e, he⟩ := SmartCard.transmit_refused pcsc s.world (.inr hopen) fuel command
    rw [he]
    cases command.toBytes <;> exact .silent hrest (Extends.refl _)
  | true =>
    cases hencoded : command.toBytes with
    | error e =>
      rw [SmartCard.transmit_eq ⟨hcard, hopen⟩, hencoded]
      exact .silent hrest (Extends.refl _)
    | ok commandBytes =>
      rw [SmartCard.transmit_encoded ⟨hcard, hopen⟩ hencoded]
      exact CardImpl.transmitBytes_carried hrest fuel commandBytes

theorem transmitCTL_carried (hcard : s.smartCard.card = some card) (hrest : AtRest s.world.trace)
    (command : CommandApdu) (lang : UInt16) (minlen : UInt8) :
    Carried (s.smartCard.payloadOf (.transmitCTL command lang minlen)) s.world
      (step pcsc fuel (.transmitCTL command lang minlen) s).2.world
      (step pcsc fuel (.transmitCTL command lang minlen) s).1.Completes := by
  refine Carried.of_send (x := fun smartCard => smartCard.transmitCTL pcsc command lang minlen) ?_
  rw [SmartCard.payloadOf, hcard]
  cases hopen : s.smartCard.transactionInProgress with
  | false =>
    obtain ⟨e, he⟩ := SmartCard.transmitCTL_refused pcsc s.world (.inr hopen) command lang minlen
    rw [he]
    cases command.toBytes <;> cases hcode : card.verifyCode <;>
      simpa [hcode] using Carried.silent hrest (Extends.refl _)
  | true =>
    cases hencoded : command.toBytes with
    | error e =>
      rw [SmartCard.transmitCTL_eq ⟨hcard, hopen⟩, hencoded]
      exact .silent hrest (Extends.refl _)
    | ok commandBytes =>
      have hcarried := @CardImpl.transmitBytesCTL_carried _ pcsc card s.world hrest commandBytes
        lang minlen
      rw [SmartCard.transmitCTL_encoded ⟨hcard, hopen⟩ hencoded]
      cases hcode : card.verifyCode <;> rw [hcode] at hcarried <;>
        simpa [hcode, Except.toOption] using hcarried

theorem step_carried (hcard : s.smartCard.card = some card) (hrest : AtRest s.world.trace)
    (o : Operation) :
    Carried (s.smartCard.payloadOf o) s.world (step pcsc fuel o s).2.world
      (step pcsc fuel o s).1.Completes := by
  have hcall : ∀ {call : Call} {ends : Prop}, call.Silent →
      Carried none s.world (s.world.after pcsc call) ends :=
    fun hsilent => .silent hrest (Calls.after hsilent pcsc s.world)
  cases o with
  | beginTransaction =>
    by_cases hok : (pcsc s.world.service (.beginTransaction card.cardHandle)).1.result =
        scardSSuccess
    · rw [step_begun hcard hok]
      exact hcall rfl
    · obtain ⟨e, he⟩ := @step_notBegun _ pcsc fuel s card hcard hok
      rw [he]
      exact hcall rfl
  | destroyGuard i =>
    cases hguard : s.guards[i]? with
    | none =>
      rw [step_noGuard hguard]
      exact .silent hrest (Extends.refl _)
    | some guard =>
      rw [step_ended hguard]
      exact hcall rfl
  | transmit command => exact transmit_carried hcard hrest command
  | transmitCTL command lang minlen => exact transmitCTL_carried hcard hrest command lang minlen

end Session

namespace SmartCard

variable {pcsc : Service σ} {ctx : ScardContext} {readerName : StringT} {atr : ByteVector}

theorem new_silent (fuel : Nat) (w : World σ) :
    Calls Call.Silent w (new pcsc fuel ctx readerName atr w).2 := by
  have hcall : ∀ {call : Call} (w : World σ), call.Silent →
      Calls Call.Silent w (w.after pcsc call) := fun w hsilent => Calls.after hsilent pcsc w
  have hconnect : Calls Call.Silent w (w.after pcsc (connectCall ctx readerName)) := hcall w rfl
  have hrequest : Calls Call.Silent w (connectedWorld pcsc ctx readerName w) :=
    hconnect.trans (hcall _ rfl)
  have hends := new_ends pcsc fuel ctx readerName atr w
  generalize new pcsc fuel ctx readerName atr w = r at hends
  cases hends with
  | refused => exact hconnect
  | connected | undefined | running => exact hrequest
  | unsupported =>
    dsimp only
    split_ifs
    · exact hrequest
    · exact hrequest.trans (hcall _ rfl)

end SmartCard

namespace System

variable {pcsc : Service σ} {fuel : Nat} {s : System σ}

def payloadOf (s : System σ) : Operation → Option (ScardHandle × ByteVector)
  | .onCard i o => s.cards[i]?.bind fun held => held.smartCard.payloadOf o
  | _ => none

theorem step_carried (hs : s.Sound) (hrest : AtRest s.process.world.trace) (o : Operation) :
    Carried (s.payloadOf o) s.process.world (step pcsc fuel o s).2.process.world
      (step pcsc fuel o s).1.Completes := by
  cases o with
  | listReaders =>
    exact .silent hrest (listReaders_calls (fun _ => rfl) (fun _ => rfl) (fun _ _ => rfl)
      (fun _ _ => rfl) s)
  | copyReader i => exact .silent hrest (copyReader_calls i s)
  | destroyReader i => exact .silent hrest (destroyReader_calls (fun _ => rfl) i s)
  | connectToCard i =>
    cases hreader : s.readers[i]? with
    | none =>
      rw [step, Action.lookup_none hreader]
      exact .silent hrest (Extends.refl _)
    | some reader =>
      have hctx := hs.owned.counted.bound reader.ctx
        (List.mem_map_of_mem (List.mem_of_getElem? hreader))
      rw [step_connectToCard_world hreader (List.getElem?_eq_getElem hctx)]
      exact .silent hrest (SmartCard.new_silent fuel s.process.world)
  | onCard i o =>
    cases hheld : s.cards[i]? with
    | none =>
      rw [step, Action.lookup_none hheld, payloadOf, hheld]
      exact .silent hrest (Extends.refl _)
    | some held =>
      obtain ⟨card, hcard, -⟩ := (hs.cards held (List.mem_of_getElem? hheld)).card
      rw [step_onCard hheld, payloadOf, hheld]
      exact @Session.step_carried _ pcsc fuel (s.session held) card hcard hrest o
  | destroyCard i => exact .silent hrest (destroyCard_calls (fun _ => rfl) i s)

/-- What begins an exchange on a card in a run is what the operations of the program had to carry
to it, once each and in their order; data that an answer to a transmit announces is asked for at
once, and nothing else is carried to a card. -/
theorem commands_sent_once (pcsc : Service σ) (fuel : Nat) (service : σ) (os : List Operation) :
    (∀ s ∈ states (step pcsc fuel) os (start service), Drained s.process.world.trace) ∧
    ∀ s ∈ (states (step pcsc fuel) os (start service)).getLast?,
      commands s.process.world.trace =
        (steps (step pcsc fuel) os (start service)).filterMap fun p => p.2.payloadOf p.1 := by
  have hkeeps : ∀ o, Action.Triple (fun s : System σ => (s.Sound ∧ AtRest s.process.world.trace ∧
        Drained s.process.world.trace) ∧ True) (step pcsc fuel o)
      (fun _ s => s.Sound ∧ AtRest s.process.world.trace ∧ Drained s.process.world.trace)
      (fun s => s.Sound ∧ AtRest s.process.world.trace ∧ Drained s.process.world.trace) := by
    rintro o s ⟨⟨hs, hrest, hdrained⟩, -⟩
    have hsound := @step_sound _ pcsc fuel o s hs
    have hcarried := @step_carried _ pcsc fuel s hs hrest o
    revert hsound hcarried
    rcases step pcsc fuel o s with ⟨⟨⟩ | e | _ | _, s'⟩ <;> intro hsound hcarried
    · exact ⟨hsound, hcarried.atRest (.returned ()), hcarried.drained hdrained⟩
    · exact ⟨hsound, hcarried.atRest (.threw e), hcarried.drained hdrained⟩
    · trivial
    · trivial
  have hstart : (start service).Sound ∧ AtRest (start service).process.world.trace ∧
      Drained (start service).process.world.trace :=
    ⟨start_sound service, rfl, eachAfter_nil _⟩
  constructor
  · have hsteps := @steps_invariant _ _ _ _ os _ _ (fun _ => True) hkeeps (fun _ _ => trivial)
      hstart
    exact states_of_steps hstart.2.2 fun p hp =>
      (step_carried (hsteps p hp).1 (hsteps p hp).2.1 p.1).drained (hsteps p hp).2.2
  · exact filterMap_steps (f := fun s => commands s.process.world.trace)
      (g := fun p => p.2.payloadOf p.1) (fun o => (hkeeps o).pre fun _ hs => ⟨hs, trivial⟩)
      (fun o s hs => (step_carried hs.1 hs.2.1 o).commands_eq) hstart

def inTwoParts : Service Unit
  | _, .transmit _ _ commandBytes _ =>
    if commandBytes = CardImpl.getResponse 0x01 then (.ofBytes [0xbb, 0x90, 0x00], ())
    else (.ofBytes [0xaa, 0x61, 0x01], ())
  | st, call => oneReader st call

/-- A command is carried once, though its answer takes a second request; while the flag is not set
none is. -/
theorem commands_sent_once_inTwoParts :
    ∃ s ∈ (states (step inTwoParts 8) [.listReaders, .connectToCard 0,
        .onCard 0 (.transmit selectCommand), .onCard 0 .beginTransaction,
        .onCard 0 (.transmit selectCommand)] (start ())).getLast?,
      commands s.process.world.trace =
          (steps (step inTwoParts 8) [.listReaders, .connectToCard 0,
            .onCard 0 (.transmit selectCommand), .onCard 0 .beginTransaction,
            .onCard 0 (.transmit selectCommand)] (start ())).filterMap
              (fun p => p.2.payloadOf p.1) ∧
        commands s.process.world.trace = [(⟨1, ⟨1, 0⟩, 4⟩, [0x00, 0xa4, 0x04, 0x00, 0x01, 0x01])] ∧
        s.process.world.trace.length = 9 ∧ Drained s.process.world.trace := by
  have hlast : (states (step inTwoParts 8) [.listReaders, .connectToCard 0,
      .onCard 0 (.transmit selectCommand), .onCard 0 .beginTransaction,
      .onCard 0 (.transmit selectCommand)] (start ())).getLast?.map (fun s =>
        (commands s.process.world.trace, s.process.world.trace.length)) =
      some ([(⟨1, ⟨1, 0⟩, 4⟩, [0x00, 0xa4, 0x04, 0x00, 0x01, 0x01])], 9) := by
    decide +kernel
  obtain ⟨s, hs, hsent⟩ := Option.map_eq_some_iff.mp hlast
  obtain ⟨hcommands, hlength⟩ := Prod.mk.inj hsent
  obtain ⟨hdrained, honce⟩ := commands_sent_once inTwoParts 8 () [.listReaders, .connectToCard 0,
    .onCard 0 (.transmit selectCommand), .onCard 0 .beginTransaction,
    .onCard 0 (.transmit selectCommand)]
  exact ⟨s, hs, honce s hs, hcommands, hlength, hdrained s (List.mem_of_getLast? hs)⟩

end System

end PcscCpp

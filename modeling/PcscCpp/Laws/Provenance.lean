import PcscCpp.Laws.Discipline
import PcscCpp.Laws.FeatureTable
import PcscCpp.Laws.PinPad

namespace PcscCpp

open Effects

variable {σ : Type}

def ConnectedBy (t : List Exchange) (cardHandle : ScardHandle) (reply : Reply) : Prop :=
  (∃ readerName, t[cardHandle.serial]? =
    some ⟨SmartCard.connectCall cardHandle.context readerName, reply⟩) ∧
  reply.result = scardSSuccess ∧ reply.handle = cardHandle.value

def supportedProtocols : List Dword :=
  [scardProtocolUndefined, scardProtocolT0, scardProtocolT1]

/-- What a trace shows of a card: the connection that gave its handle and its protocol, and
right after it the answer that gave its features. -/
structure CardImpl.Known (t : List Exchange) (card : CardImpl) : Prop where
  connected : ∃ reply, ConnectedBy t card.cardHandle reply ∧
    card.protocol = ⟨reply.protocolOut, 16⟩ ∧ reply.protocolOut ∈ supportedProtocols
  asked : ∃ reply, t[card.cardHandle.serial + 1]? =
      some ⟨CardImpl.featureRequest card.cardHandle, reply⟩ ∧ FeaturesFrom reply card.features

namespace System

/-- A call that the operations of the program and the calls before it account for. -/
inductive Explained (os : List Operation) (pre : List Exchange) : Call → Prop
  | noCard {call : Call} (h : call.NoCard) : Explained os pre call
  | asked {cardHandle : ScardHandle} {reply : Reply} (connected : ConnectedBy pre cardHandle reply)
      (next : pre.length = cardHandle.serial + 1) :
    Explained os pre (CardImpl.featureRequest cardHandle)
  | disconnected {cardHandle : ScardHandle} {reply : Reply}
      (connected : ConnectedBy pre cardHandle reply) :
    Explained os pre (.disconnect cardHandle scardLeaveCard)
  | begun {card : CardImpl} (known : card.Known pre) {i : Nat}
      (operation : .onCard i .beginTransaction ∈ os) :
    Explained os pre (.beginTransaction card.cardHandle)
  | ended {card : CardImpl} (known : card.Known pre) {i guard : Nat}
      (operation : .onCard i (.destroyGuard guard) ∈ os) :
    Explained os pre (.endTransaction card.cardHandle scardLeaveCard)
  | sent {card : CardImpl} (known : card.Known pre) {i : Nat} {command : CommandApdu}
      {commandBytes : ByteVector} (operation : .onCard i (.transmit command) ∈ os)
      (encoded : command.toBytes = .ok commandBytes) :
    Explained os pre (card.transmitCall commandBytes)
  | fetched {card : CardImpl} (known : card.Known pre) {commandBytes : ByteVector} {reply : Reply}
      (last : pre.getLast? = some ⟨card.transmitCall commandBytes, reply⟩) (more : reply.More) :
    Explained os pre (card.transmitCall (CardImpl.getResponse reply.response.sw2))
  | entered {card : CardImpl} (known : card.Known pre) {i : Nat} {command : CommandApdu}
      {lang : UInt16} {minlen : UInt8} {commandBytes : ByteVector} {code : UInt32}
      (operation : .onCard i (.transmitCTL command lang minlen) ∈ os)
      (encoded : command.toBytes = .ok commandBytes) (named : card.verifyCode = some code) :
    Explained os pre (card.verifyCall code
      ((CardImpl.pinVerifyStructure commandBytes lang minlen).memory ++ commandBytes))
  | finished {card : CardImpl} (known : card.Known pre) {code finish : UInt32}
      {input : ByteVector} {reply : Reply} (named : card.verifyCode = some code)
      (last : pre.getLast? = some ⟨card.verifyCall code input, reply⟩)
      (success : reply.result = scardSSuccess)
      (offered : card.features featureVerifyPinFinish = some finish) :
    Explained os pre (card.verifyCall finish [])

abbrev AllExplained (os : List Operation) (trace : List Exchange) : Prop :=
  EachAfter (fun pre e => Explained os pre e.call) trace

end System

section Known

variable {t t' : List Exchange} {cardHandle : ScardHandle} {card : CardImpl}
  {reply : Reply}

theorem getElem?_grown {i : Nat} {e : Exchange} (h : t <+: t') (he : t[i]? = some e) :
    t'[i]? = some e := by
  obtain ⟨hi, rfl⟩ := List.getElem?_eq_some_iff.mp he
  exact List.prefix_iff_getElem?.mp h i hi

theorem ConnectedBy.mono (h : ConnectedBy t cardHandle reply) (hgrown : t <+: t') :
    ConnectedBy t' cardHandle reply := by
  obtain ⟨⟨readerName, he⟩, hreply⟩ := h
  exact ⟨⟨readerName, getElem?_grown hgrown he⟩, hreply⟩

theorem CardImpl.Known.mono (h : card.Known t) (hgrown : t <+: t') : card.Known t' := by
  obtain ⟨⟨reply, hconnected, hprotocol⟩, reply', hasked, hfeatures⟩ := h
  exact ⟨⟨reply, hconnected.mono hgrown, hprotocol⟩, reply', getElem?_grown hgrown hasked,
    hfeatures⟩

end Known

open PcscCpp.System

theorem allExplained_after {os : List Operation} {call : Call} {w : World σ}
    (h : AllExplained os w.trace) (hcall : Explained os w.trace call) (pcsc : Service σ) :
    AllExplained os (w.after pcsc call).trace :=
  eachAfter_concat.mpr ⟨h, hcall⟩

namespace CardImpl

variable {pcsc : Service σ} {os : List Operation} {card : CardImpl} {w : World σ}

theorem exchange_announced {commandBytes : ByteVector}
    (h : (pcsc w.service (card.transmitCall commandBytes)).1.More) :
    exchange pcsc card commandBytes w =
      (.returned (pcsc w.service (card.transmitCall commandBytes)).1.response,
        w.after pcsc (card.transmitCall commandBytes)) := by
  rw [exchange, transmitBytesWith_more h, Action.pure_apply]

theorem transmitBytes_explained {commandBytes : ByteVector} (fuel : Nat)
    (hcard : card.Known w.trace) (h : AllExplained os w.trace)
    (hcall : Explained os w.trace (card.transmitCall commandBytes)) :
    AllExplained os (transmitBytes pcsc card fuel commandBytes w).2.trace := by
  have hafter : AllExplained os (w.after pcsc (card.transmitCall commandBytes)).trace :=
    allExplained_after h hcall pcsc
  induction fuel generalizing commandBytes w with
  | zero =>
    by_cases hmore : (pcsc w.service (card.transmitCall commandBytes)).1.More
    · rw [transmitBytes, transmitBytesWith_more hmore]
      exact hafter
    · by_cases haccepted : (pcsc w.service (card.transmitCall commandBytes)).1.Accepted
      · rw [transmitBytes_final haccepted hmore]
        exact hafter
      · obtain ⟨e, he⟩ := @transmitBytes_rejected _ card pcsc w 0 _ haccepted
        rw [he]
        exact hafter
  | succ fuel ih =>
    by_cases hmore : (pcsc w.service (card.transmitCall commandBytes)).1.More
    · have hnext : Explained os (w.after pcsc (card.transmitCall commandBytes)).trace
          (card.transmitCall (getResponse
            (pcsc w.service (card.transmitCall commandBytes)).1.response.sw2)) :=
        .fetched (hcard.mono (List.prefix_append _ _)) List.getLast?_concat hmore
      have hrest := ih (hcard.mono (List.prefix_append _ _)) hafter hnext
        (allExplained_after hafter hnext pcsc)
      rw [transmitBytes_succ, Action.bind_returned (exchange_announced hmore), if_pos hmore.2,
        Action.bind_apply]
      revert hrest
      rcases transmitBytes pcsc card fuel _ _ with ⟨r | _ | _ | _, w'⟩ <;> exact id
    · by_cases haccepted : (pcsc w.service (card.transmitCall commandBytes)).1.Accepted
      · rw [transmitBytes_final haccepted hmore]
        exact hafter
      · obtain ⟨e, he⟩ := @transmitBytes_rejected _ card pcsc w (fuel + 1) _ haccepted
        rw [he]
        exact hafter

theorem transmitBytesCTL_explained {command : CommandApdu} {commandBytes : ByteVector} {i : Nat}
    {lang : UInt16} {minlen : UInt8} (hcard : card.Known w.trace) (h : AllExplained os w.trace)
    (hoperation : .onCard i (.transmitCTL command lang minlen) ∈ os)
    (hencoded : command.toBytes = .ok commandBytes) :
    AllExplained os (transmitBytesCTL pcsc card commandBytes lang minlen w).2.trace := by
  cases hcode : card.verifyCode with
  | none =>
    obtain ⟨hstart, hdirect⟩ := Option.or_eq_none_iff.mp hcode
    rw [transmitBytesCTL_noPinPad (by simp [hstart, hdirect])]
    exact h
  | some code =>
    have hverifies := @transmitBytesCTL_verifies _ card pcsc w commandBytes lang minlen code hcode
    have hstarted := allExplained_after h (.entered hcard hoperation hencoded hcode) pcsc
    by_cases hok : (pcsc w.service (card.verifyCall code
        ((pinVerifyStructure commandBytes lang minlen).memory ++ commandBytes))).1.result =
          scardSSuccess
    · cases hfinish : card.features featureVerifyPinFinish with
      | none =>
        rw [hverifies.start_only hok hfinish, Action.ofExcept_world]
        exact hstarted
      | some finish =>
        have hfinished := allExplained_after hstarted (.finished
          (hcard.mono (List.prefix_append _ _)) hcode List.getLast?_concat hok hfinish) pcsc
        by_cases hdone : (pcsc (w.after pcsc (card.verifyCall code
            ((pinVerifyStructure commandBytes lang minlen).memory ++ commandBytes))).service
              (card.verifyCall finish [])).1.result = scardSSuccess
        · rw [hverifies.finishes hok finish hfinish hdone, Action.ofExcept_world]
          exact hfinished
        · obtain ⟨e, he⟩ := hverifies.finish_fails hok finish hfinish hdone
          rw [he]
          exact hfinished
    · obtain ⟨e, he⟩ := hverifies.start_fails hok
      rw [he]
      exact hstarted

end CardImpl

theorem mem_supportedProtocols {dwProtocol : Dword} {protocol : Protocol}
    (h : convertToSmartCardProtocol dwProtocol = .ok protocol) :
    dwProtocol ∈ supportedProtocols := by
  unfold convertToSmartCardProtocol at h
  split_ifs at h with hundefined ht0 ht1 <;> simp_all [supportedProtocols]

namespace SmartCard

variable {pcsc : Service σ} {os : List Operation} {ctx : ScardContext} {readerName : StringT}
  {atr : ByteVector} {fuel : Nat} {w w' : World σ}

theorem length_after_connect : (w.after pcsc (connectCall ctx readerName)).trace.length =
    (connectedHandle pcsc ctx readerName w).serial + 1 := by
  simp [connectedHandle]

theorem connectedBy_new
    (hsuccess : (pcsc w.service (connectCall ctx readerName)).1.result = scardSSuccess) :
    ConnectedBy (w.after pcsc (connectCall ctx readerName)).trace
      (connectedHandle pcsc ctx readerName w) (pcsc w.service (connectCall ctx readerName)).1 :=
  ⟨⟨readerName, List.getElem?_concat_length⟩, hsuccess, rfl⟩

theorem new_known {smartCard : SmartCard}
    (h : new pcsc fuel ctx readerName atr w = (.returned smartCard, w')) :
    ∀ card ∈ smartCard.card, card.Known w'.trace := by
  by_cases hsuccess : (pcsc w.service (connectCall ctx readerName)).1.result = scardSSuccess
  · rw [new_connected hsuccess] at h
    obtain ⟨card, w₁, hcard, h⟩ := Action.bind_eq_returned.mp h
    obtain ⟨protocol, w₂, hcatch, hpure⟩ := Action.bind_eq_returned.mp h
    obtain ⟨rfl, hhandle, hprotocol, hfeatures⟩ := CardImpl.new_featuresFrom hcard
    cases hpure
    cases hconvert : convertToSmartCardProtocol card.protocol.dwProtocol with
    | ok p =>
      rw [hconvert] at hcatch
      cases hcatch
      rintro _ ⟨⟩
      have hconnected := connectedBy_new hsuccess
      dsimp only at hhandle hprotocol
      rw [← hhandle] at hconnected
      refine ⟨⟨_, hconnected.mono (List.prefix_append _ _), hprotocol, ?_⟩, _, ?_, hfeatures⟩
      · have hmem := mem_supportedProtocols hconvert
        rwa [hprotocol] at hmem
      · rw [hhandle, ← length_after_connect]
        exact List.getElem?_concat_length
    | error e =>
      rw [hconvert, Action.tryCatch_apply] at hcatch
      obtain ⟨_, _, -, hthrow⟩ := Action.bind_eq_returned.mp hcatch
      cases hthrow
  · obtain ⟨e, he⟩ := new_refused fuel atr hsuccess
    rw [he] at h
    cases h

theorem new_explained (h : AllExplained os w.trace) :
    AllExplained os (new pcsc fuel ctx readerName atr w).2.trace := by
  have hconnect := allExplained_after h
    (.noCard (rfl : (connectCall ctx readerName).NoCard)) pcsc
  by_cases hsuccess : (pcsc w.service (connectCall ctx readerName)).1.result = scardSSuccess
  · have hconnected := connectedBy_new hsuccess
    have hrequest : AllExplained os (connectedWorld pcsc ctx readerName w).trace :=
      allExplained_after hconnect (.asked hconnected length_after_connect) pcsc
    have hends := new_ends pcsc fuel ctx readerName atr w
    generalize new pcsc fuel ctx readerName atr w = r at hends
    cases hends with
    | refused => exact hconnect
    | connected | undefined | running => exact hrequest
    | unsupported =>
      dsimp only
      split_ifs
      · exact hrequest
      · exact allExplained_after hrequest
          (.disconnected (hconnected.mono (List.prefix_append _ _))) pcsc
  · obtain ⟨e, he⟩ := new_refused fuel atr hsuccess
    rw [he]
    exact hconnect

end SmartCard

namespace System

variable {pcsc : Service σ} {fuel : Nat} {os : List Operation} {s s' : System σ}

structure Traced (os : List Operation) (s : System σ) : Prop where
  explained : AllExplained os s.process.world.trace
  known : ∀ held ∈ s.cards, ∀ card ∈ held.smartCard.card, card.Known s.process.world.trace

theorem start_traced (service : σ) : (start service).Traced os where
  explained := eachAfter_nil _
  known := nofun

namespace Traced

theorem noCard (h : s.Traced os) (hcalls : Calls Call.NoCard s s') (hcards : s'.cards = s.cards) :
    s'.Traced os := by
  obtain ⟨new, htrace, hnew⟩ := hcalls
  dsimp only at htrace
  constructor
  · rw [htrace]
    exact EachAfter.append_of h.explained fun pre e post hpre => .noCard (hnew e (by simp [hpre]))
  · intro held hheld card hcard
    rw [hcards] at hheld
    rw [htrace]
    exact (h.known held hheld card hcard).mono (List.prefix_append _ _)

theorem known_grown (h : s.Traced os) {t : List Exchange} (hgrown : s.process.world.trace <+: t) :
    ∀ held ∈ s.cards, ∀ card ∈ held.smartCard.card, card.Known t :=
  fun held hheld card hcard => (h.known held hheld card hcard).mono hgrown

theorem session_explained (h : s.Traced os) (hs : s.Sound) {i : Nat} {o : Session.Operation}
    {held : HeldCard} (hheld : s.cards[i]? = some held) (ho : .onCard i o ∈ os) :
    AllExplained os (Session.step pcsc fuel o (s.session held)).2.world.trace := by
  obtain ⟨card, hcard, -⟩ := (hs.cards held (List.mem_of_getElem? hheld)).card
  have hknown := h.known held (List.mem_of_getElem? hheld) card hcard
  have hsend : ∀ {α : Type} {nullLine line : Nat} {func : String} {body : CardImpl → Program σ α},
      AllExplained os (body card s.process.world).2.trace →
      AllExplained os ((held.smartCard.requireTransaction nullLine line func body)
        s.process.world).2.trace := by
    intro α nullLine line func body hbody
    rw [SmartCard.requireTransaction, hcard]
    dsimp only
    split_ifs
    · exact h.explained
    · exact hbody
  cases o with
  | beginTransaction =>
    by_cases hok : (pcsc s.process.world.service (.beginTransaction card.cardHandle)).1.result =
        scardSSuccess
    · rw [Session.step_begun hcard hok]
      exact allExplained_after h.explained (.begun hknown ho) pcsc
    · obtain ⟨e, he⟩ := @Session.step_notBegun _ pcsc fuel (s.session held) card hcard hok
      rw [he]
      exact allExplained_after h.explained (.begun hknown ho) pcsc
  | destroyGuard g =>
    cases hguard : held.guards[g]? with
    | none =>
      rw [Session.step_noGuard hguard]
      exact h.explained
    | some guard =>
      have heq := (hs.cards held (List.mem_of_getElem? hheld)).guards guard
        (List.mem_of_getElem? hguard)
      obtain rfl := Option.some.inj (hcard.symm.trans heq)
      rw [Session.step_ended hguard]
      exact allExplained_after h.explained (.ended hknown ho) pcsc
  | transmit command =>
    rw [Session.step, Session.send_apply]
    refine hsend ?_
    cases hencoded : command.toBytes with
    | error e => exact h.explained
    | ok commandBytes =>
      rw [Action.ofExcept_ok, Action.pure_bind]
      exact CardImpl.transmitBytes_explained fuel hknown h.explained (.sent hknown ho hencoded)
  | transmitCTL command lang minlen =>
    rw [Session.step, Session.send_apply]
    refine hsend ?_
    cases hencoded : command.toBytes with
    | error e => exact h.explained
    | ok commandBytes =>
      rw [Action.ofExcept_ok, Action.pure_bind]
      exact CardImpl.transmitBytesCTL_explained hknown h.explained ho hencoded

theorem onCard (h : s.Traced os) (hs : s.Sound) {i : Nat} {o : Session.Operation}
    (ho : .onCard i o ∈ os) : (step pcsc fuel (.onCard i o) s).2.Traced os := by
  cases hheld : s.cards[i]? with
  | none =>
    rw [step, Action.lookup_none hheld]
    exact h
  | some held =>
    have hmoves := @Session.step_moves _ pcsc fuel (s.session held) o
    have hknown := h.known_grown hmoves.plain.grown
    rw [step_onCard hheld]
    refine ⟨h.session_explained hs hheld ho, fun held' hheld' card hcard => ?_⟩
    rcases List.mem_or_eq_of_mem_set hheld' with hheld' | rfl
    · exact hknown held' hheld' card hcard
    · rw [hmoves.card] at hcard
      exact hknown held (List.mem_of_getElem? hheld) card hcard

theorem connectToCard (h : s.Traced os) (hs : s.Sound) (i : Nat) :
    (step pcsc fuel (.connectToCard i) s).2.Traced os := by
  cases hreader : s.readers[i]? with
  | none =>
    rw [step, Action.lookup_none hreader]
    exact h
  | some reader =>
    have hctx := hs.owned.counted.bound reader.ctx
      (List.mem_map_of_mem (List.mem_of_getElem? hreader))
    have hc := List.getElem?_eq_getElem hctx
    have hcalls := @SmartCard.new_calls _ pcsc fuel
      s.process.contexts.values[reader.ctx].contextHandle reader.name reader.cardAtr
      s.process.world
    have hexplained := @SmartCard.new_explained _ pcsc os
      s.process.contexts.values[reader.ctx].contextHandle reader.name reader.cardAtr fuel
      s.process.world h.explained
    rw [step_connectToCard hreader hc, Action.bind_apply, onProcess, Action.zoom_apply,
      Process.onWorld, Action.zoom_apply]
    rcases hrun : SmartCard.new pcsc fuel _ reader.name reader.cardAtr s.process.world with
      ⟨smartCard | e | _ | _, w'⟩ <;> rw [hrun] at hcalls hexplained
    · refine ⟨hexplained, fun held hheld => ?_⟩
      rcases List.mem_append.mp hheld with hheld | hheld
      · exact h.known_grown hcalls.grown held hheld
      · rw [List.mem_singleton.mp hheld]
        exact SmartCard.new_known hrun
    · exact ⟨hexplained, h.known_grown hcalls.grown⟩
    · exact ⟨hexplained, h.known_grown hcalls.grown⟩
    · exact ⟨hexplained, h.known_grown hcalls.grown⟩

theorem destroyCard (h : s.Traced os) (hs : s.Sound) (i : Nat) :
    (step pcsc fuel (.destroyCard i) s).2.Traced os := by
  cases hheld : s.cards[i]? with
  | none =>
    rw [step, Action.lookup_none hheld]
    exact h
  | some held =>
    obtain ⟨card, hcard, -⟩ := (hs.cards held (List.mem_of_getElem? hheld)).card
    obtain ⟨reply, hconnected, -⟩ :=
      (h.known held (List.mem_of_getElem? hheld) card hcard).connected
    rw [step_destroyCard hheld hcard]
    dsimp only
    split_ifs
    · exact ⟨h.explained, fun held' hheld' => h.known held' (List.mem_of_mem_eraseIdx hheld')⟩
    · exact ⟨allExplained_after h.explained (.disconnected hconnected) pcsc,
        fun held' hheld' => h.known_grown (List.prefix_append _ _) held'
          (List.mem_of_mem_eraseIdx hheld')⟩

theorem step (h : s.Traced os) (hs : s.Sound) {o : Operation} (ho : o ∈ os) :
    (step pcsc fuel o s).2.Traced os := by
  cases o with
  | listReaders =>
    have hcards : Action.Within SameCards (System.step pcsc fuel .listReaders) :=
      (onProcess_sameCards (PcscCpp.listReaders pcsc)).bind fun _ => fun _ => rfl
    exact h.noCard (listReaders_calls (fun _ => rfl) (fun _ => rfl) (fun _ _ => rfl)
      (fun _ _ => rfl) s) (hcards s)
  | copyReader i => exact h.noCard (copyReader_calls i s) (copyReader_sameCards i s)
  | destroyReader i =>
    exact h.noCard (destroyReader_calls (fun _ => rfl) i s) (destroyReader_sameCards i s)
  | connectToCard i => exact h.connectToCard hs i
  | onCard i o => exact h.onCard hs ho
  | destroyCard i => exact h.destroyCard hs i

end Traced

/-- In every run each call on a card names the handle that a connection gave in its place, sends
what an operation of the program says in the protocol of that connection or what the answer just
before announced, and asks the driver only for what it named when the card was connected. -/
theorem card_calls_explained (pcsc : Service σ) (fuel : Nat) (service : σ) (os : List Operation) :
    ∀ s ∈ states (step pcsc fuel) os (start service), s.Traced os :=
  states_of_accounted (fun _ ho _ hs h => h.step hs.sound ho) (start_traced service)

def pinPadReader : Service Unit
  | _, .control _ ioctl _ _ =>
    if ioctl = cmIoctlGetFeatureRequest then
      (.ofBytes (ControlRecord.serialize pinPadRecords), ())
    else (.ofBytes [0x90, 0x00], ())
  | st, call => oneReader st call

theorem card_calls_explained_pinPad :
    ∃ s ∈ states (step pinPadReader 256) [.listReaders, .connectToCard 0,
        .onCard 0 .beginTransaction, .onCard 0 (.transmitCTL selectCommand 0x0409 4)] (start ()),
      ∃ pre reply, s.process.world.trace =
          pre ++ [⟨.control ⟨1, ⟨1, 0⟩, 4⟩ 0x42330002 [] 258, reply⟩] ∧
        Explained [.listReaders, .connectToCard 0, .onCard 0 .beginTransaction,
          .onCard 0 (.transmitCTL selectCommand 0x0409 4)] pre
          (.control ⟨1, ⟨1, 0⟩, 4⟩ 0x42330002 [] 258) := by
  have hlast : (states (step pinPadReader 256) [.listReaders, .connectToCard 0,
      .onCard 0 .beginTransaction, .onCard 0 (.transmitCTL selectCommand 0x0409 4)]
      (start ()))[4]?.bind (fun s => s.process.world.trace.getLast?) =
        some ⟨.control ⟨1, ⟨1, 0⟩, 4⟩ 0x42330002 [] 258, .ofBytes [0x90, 0x00]⟩ := by
    decide +kernel
  obtain ⟨s, hs, htrace⟩ := Option.bind_eq_some_iff.mp hlast
  obtain ⟨pre, hpre⟩ := List.getLast?_eq_some_iff.mp htrace
  have hmem := List.mem_of_getElem? hs
  exact ⟨s, hmem, pre, _, hpre,
    (card_calls_explained pinPadReader 256 () _ s hmem).explained pre _ [] hpre⟩

end System

end PcscCpp

import PcscCpp.Formats.Text
import PcscCpp.Laws.Provenance
import PcscCpp.Laws.Readers

namespace PcscCpp

open Effects MultiString

variable {σ : Type}

namespace Reader

def Status.ofEventState (eventState : Dword) : List Status :=
  if eventState = 0 then [.unaware]
  else all.filter fun status => eventState &&& status.scardState ≠ 0

def readStatuses (text : String) : List Status :=
  (text.toList.splitOn ',').filterMap fun name =>
    Status.all.find? fun status => status.enumName.toList = name

theorem foldl_filter {α β : Type} (p : α → Bool) (f : α → β) (l : List α) (result : List β) :
    l.foldl (fun result a => if p a then result ++ [f a] else result) result =
      result ++ (l.filter p).map f := by
  induction l generalizing result with
  | nil => simp
  | cons a l ih =>
    rw [List.foldl_cons, ih]
    cases h : p a <;> simp [h]

theorem toList_foldl (items : List String) (text : String) :
    (items.foldl (fun resultStr item =>
        if resultStr = "" then item else resultStr ++ "," ++ item) text).toList =
      (items.map String.toList).foldl
        (fun text item => if text = [] then item else text ++ ',' :: item) text.toList := by
  induction items generalizing text with
  | nil => rfl
  | cons item items ih =>
    rw [List.foldl_cons, ih, List.map_cons, List.foldl_cons]
    congr 1
    by_cases h : text = ""
    · simp [h]
    · simp [h]

theorem statusString_toList (reader : Reader) : reader.statusString.toList =
    Text.joined ',' ((Status.all.filter reader.status).map fun status =>
      status.enumName.toList) := by
  rw [statusString, foldl_filter, List.nil_append, toList_foldl, List.map_map]
  rfl

theorem enumName_ne (status : Status) :
    status.enumName.toList ≠ [] ∧ ',' ∉ status.enumName.toList := by
  cases status <;> decide +kernel

theorem find_enumName (status : Status) :
    (Status.all.find? fun status' => status'.enumName.toList = status.enumName.toList) =
      some status := by
  cases status <;> decide +kernel

theorem readStatuses_statusString (reader : Reader) :
    readStatuses reader.statusString = Status.all.filter reader.status := by
  rw [readStatuses, statusString_toList]
  by_cases hnone : Status.all.filter reader.status = []
  · rw [hnone]
    decide +kernel
  · rw [Text.splitOn_joined _ (by simpa using hnone), List.filterMap_map]
    · simp only [Function.comp_def, find_enumName, List.filterMap_some]
    · intro item hitem
      obtain ⟨status, -, rfl⟩ := List.mem_map.mp hitem
      exact enumName_ne status

theorem Shows.statuses {reader : Reader} {entry : ScardReaderState} (h : reader.Shows entry) :
    readStatuses reader.statusString = Status.ofEventState entry.dwEventState := by
  rw [readStatuses_statusString, Status.ofEventState]
  split_ifs with hzero
  · have hstatus : ∀ status ∈ Status.all, reader.status status = decide (status = .unaware) := by
      intro status _
      by_cases hunaware : status = .unaware
      · rw [hunaware]
        simpa using h.unaware.mpr hzero
      · have hbit := h.status status hunaware
        rw [hzero] at hbit
        simpa [hunaware] using hbit
    rw [List.filter_congr hstatus]
    decide
  · refine List.filter_congr fun status _ => ?_
    by_cases hunaware : status = .unaware
    · have hunset := h.unaware.not.mpr hzero
      subst hunaware
      simpa [Status.scardState, scardStateUnaware] using hunset
    · rw [Bool.eq_iff_iff, h.status status hunaware, decide_eq_true_iff]

end Reader

namespace Listing

/-- A listing on `ctx` in a trace: the length of the buffer, the names in it, and right after
them an entry for each. -/
structure Answered (t : List Exchange) (ctx : ScardContext) (names : List StringT)
    (measured listed filled : Reply) : Prop where
  called : [⟨.listReaders ctx none, measured⟩, ⟨.listReaders ctx (some measured.length), listed⟩,
    ⟨.getStatusChange ctx 0 (askedStates names), filled⟩] <:+: t
  success : measured.result = scardSSuccess ∧ listed.result = scardSSuccess ∧
    filled.result = scardSSuccess
  lists : Lists 0 (listed.fill (List.replicate measured.length 0)) names

def Gave (t : List Exchange) (ctx : ScardContext) (name : StringT) (entry : ScardReaderState) :
    Prop :=
  ∃ (names : List StringT) (measured listed filled : Reply),
    Answered t ctx names measured listed filled ∧
    ∃ i : Nat, names[i]? = some name ∧
      (fillReaderStates (askedStates names) filled.readerStates)[i]? = some entry

theorem Gave.mono {t t' : List Exchange} {ctx : ScardContext} {name : StringT}
    {entry : ScardReaderState} (h : Gave t ctx name entry) (hgrown : t <+: t') :
    Gave t' ctx name entry := by
  obtain ⟨names, measured, listed, filled, hanswered, hentry⟩ := h
  exact ⟨names, measured, listed, filled,
    { hanswered with called := hanswered.called.trans hgrown.isInfix }, hentry⟩

end Listing

open Listing

section Entries

variable {names : List StringT} {entries : List ScardReaderState} {buffer : StringT}

theorem fillReaderStates_szReader (readerStates filled : List ScardReaderState) :
    (fillReaderStates readerStates filled).map (·.szReader) = readerStates.map (·.szReader) := by
  refine List.ext_getElem (by simp [fillReaderStates]) fun i hi hi' => ?_
  simp only [fillReaderStates, List.getElem_map, List.getElem_mapIdx]
  split <;> rfl

theorem listedReader_name (h : Lists 0 buffer names) {i : Nat} {entry : ScardReaderState}
    (hentry : (fillReaderStates (askedStates names) entries)[i]? = some entry) (ctx : ContextPtr) :
    names[i]? = some (listedReader ctx buffer entry).name := by
  have hnames : (starts 0 names).map (fun i => ((buffer ++ [0]).drop i).takeWhile (· ≠ 0)) =
      names := h.map_starts List.drop_zero
  have hstarts : (fillReaderStates (askedStates names) entries).map (·.szReader) =
      starts 0 names := by
    rw [fillReaderStates_szReader, askedStates, List.map_map]
    exact List.map_id _
  rw [← hnames, ← hstarts, List.map_map, List.getElem?_map, hentry]
  rfl

theorem listedReader_shows (ctx : ContextPtr) (readerNames : StringT) (entry : ScardReaderState) :
    (listedReader ctx readerNames entry).Shows entry where
  atr := rfl
  unaware := flagSetFromReaderState_unaware _
  status _ := flagSetFromReaderState_status _

end Entries

def Reader.GivenBy (t : List Exchange) (ctx : ScardContext) (reader : Reader) : Prop :=
  ∃ entry, Gave t ctx reader.name entry ∧ reader.Shows entry ∧
    (reader.isCardInserted = true ↔ entry.dwEventState &&& scardStatePresent ≠ 0) ∧
    Reader.readStatuses reader.statusString = Reader.Status.ofEventState entry.dwEventState

theorem Reader.GivenBy.mono {t t' : List Exchange} {ctx : ScardContext} {reader : Reader}
    (h : reader.GivenBy t ctx) (hgrown : t <+: t') : reader.GivenBy t' ctx := by
  obtain ⟨entry, hgave, hshows⟩ := h
  exact ⟨entry, hgave.mono hgrown, hshows⟩

structure Process.Grows (p p' : Process σ) : Prop where
  contexts : p.contexts.values <+: p'.contexts.values
  trace : p.world.trace <+: p'.world.trace

namespace Process.Grows

theorem refl (p : Process σ) : p.Grows p := ⟨List.prefix_refl _, List.prefix_refl _⟩

theorem trans {p p' p'' : Process σ} (h : p.Grows p') (h' : p'.Grows p'') : p.Grows p'' :=
  ⟨h.contexts.trans h'.contexts, h.trace.trans h'.trace⟩

instance : Std.Refl (Process.Grows : Process σ → Process σ → Prop) := ⟨refl⟩

instance : IsTrans (Process σ) Process.Grows := ⟨fun _ _ _ => trans⟩

end Process.Grows

section Grows

variable {pcsc : Service σ} {p : Process σ}

theorem onWorld_grows {α : Type} {S : Call → Prop} {x : Program σ α}
    (hx : Action.Within (Calls S) x) : Action.Within Process.Grows (Process.onWorld x) :=
  Action.within_zoom hx fun _ _ hw => ⟨List.prefix_refl _, hw.grown⟩

theorem makeShared_grows : Action.Within Process.Grows (ContextPtr.makeShared pcsc) := by
  refine (onWorld_grows (S := fun _ => True) ?_).bind fun context => ?_
  · refine (Action.within_read _).bind fun serial => ?_
    refine (calls_scardCall trivial).bind fun reply => ?_
    split_ifs
    · exact Action.within_throw _
    · exact Action.within_pure _
  · refine (Action.within_read _).bind fun ctx => ?_
    refine Action.Within.bind (fun p => ?_) fun _ => Action.within_pure _
    exact ⟨List.prefix_append _ _, List.prefix_refl _⟩

theorem copy_grows (i : ContextPtr) : Action.Within Process.Grows
    (ContextPtr.copy i : Action Exception (Process σ) ContextPtr) :=
  Action.Within.bind (fun _ => ⟨List.prefix_refl _, List.prefix_refl _⟩) fun _ =>
    Action.within_pure _

theorem destroy_grows (i : ContextPtr) :
    Action.Within Process.Grows (ContextPtr.destroy pcsc i) :=
  destroy_within i (fun _ => ⟨List.prefix_refl _, List.prefix_refl _⟩) fun context =>
    onWorld_grows (S := fun _ => True) (context.destroy_calls trivial)

theorem readerPass_grows (ctx : ContextPtr) (readerNames : StringT) (readers : List Reader)
    (readerState : ScardReaderState) :
    Action.Within Process.Grows (readerPass ctx readerNames readers readerState :
      Action Exception (Process σ) (List Reader)) := by
  refine Action.Within.bind ?_ fun _ => Action.within_pure _
  unfold makeReader
  split_ifs
  · exact (copy_grows ctx).bind fun _ => Action.within_pure _
  · exact Action.within_undefined

theorem listReaders_context {c : Context} {w : World σ}
    (h : Context.new pcsc p.world = (.returned c, w)) :
    (listReaders pcsc p).2.contexts.values[p.contexts.values.length]? = some c := by
  have hrest : Process.Grows (listingProcess p c w) (listReaders pcsc p).2 := by
    rw [listReaders_made h]
    refine Action.Within.bind (Action.Within.tryCatch ?_ fun e => ?_) (fun readers =>
      (destroy_grows _).bind fun _ => Action.within_pure _) _
    · refine (onWorld_grows (S := fun _ => True)
        (listing_within (fun _ => trivial) fun _ => trivial)).bind fun r => ?_
      exact Action.within_foldlM (fun readers readerState => readerPass_grows _ _ _ _) _ _
    · split_ifs
      · exact Action.within_pure _
      · exact (destroy_grows _).bind fun _ => Action.within_throw e
  obtain ⟨more, hmore⟩ := hrest.contexts
  rw [← hmore, listingProcess, Heap.values_make, List.append_assoc]
  simp

theorem listReaders_given {p' : Process σ} {readers : List Reader}
    (h : listReaders pcsc p = (.returned readers, p')) :
    ∀ reader ∈ readers, ∃ c, p'.contexts.values[reader.ctx]? = some c ∧
      reader.GivenBy p'.world.trace c.contextHandle := by
  intro reader hreader
  have hfinishes := listReaders_finishes pcsc p
  rw [h] at hfinishes
  generalize hr : ((.returned readers, p') : Outcome Exception (List Reader) × Process σ) = r
    at hfinishes
  cases hfinishes with
  | refused => cases hr
  | undefined => cases hr
  | failed e w contexts =>
    split_ifs at hr <;> cases hr
    cases hreader
  | listed readerNames readerStates w contexts success value listed =>
    cases hr
    obtain ⟨entry, hentry, rfl⟩ := List.mem_map.mp hreader
    have hcontext := listReaders_context (Context.new_established success value)
    rw [h] at hcontext
    have hshows := listedReader_shows p.contexts.values.length readerNames entry
    refine ⟨_, hcontext, entry, ?_, hshows, hshows.status .present (by decide), hshows.statuses⟩
    have hends := listing_ends pcsc (establishedContext pcsc p.world)
      (p.world.after pcsc (.establishContext scardScopeUser))
    rw [listed] at hends
    cases hends with
    | none => cases hentry
    | @states names measured namesDelivered lists nonempty states =>
      obtain ⟨i, hi⟩ := List.mem_iff_getElem?.mp hentry
      rw [if_neg (List.ne_nil_of_mem hentry)]
      refine ⟨names, _, _, _, ⟨?_, ⟨measured.success, namesDelivered, states⟩, lists⟩, i,
        listedReader_name lists hi _, hi⟩
      refine ⟨(p.world.after pcsc (.establishContext scardScopeUser)).trace, [], ?_⟩
      simp [atStates, atNames, statesCall, namesCall, namesReply, lengthReply, statesReply,
        World.after]

end Grows

namespace Call

def connectsIn? : Call → Option (ScardContext × StringT)
  | .connect ctx readerName _ _ => some (ctx, readerName)
  | _ => none

theorem connectsIn?_of_cardHandle {call : Call} {cardHandle : ScardHandle}
    (h : call.cardHandle? = some cardHandle) : call.connectsIn? = none := by
  cases call <;> first | rfl | cases h

end Call

abbrev ConnectsGiven (trace : List Exchange) : Prop :=
  EachAfter (fun pre e => ∀ p ∈ e.call.connectsIn?, ∃ entry, Gave pre p.1 p.2 entry) trace

namespace ConnectsGiven

variable {w w' : World σ}

theorem unused (h : ConnectsGiven w.trace) (hw : Calls (·.connectsIn? = none) w w') :
    ConnectsGiven w'.trace := by
  obtain ⟨new, htrace, hnew⟩ := hw
  rw [htrace]
  refine EachAfter.append_of h fun pre e post hpre p hp => ?_
  rw [hnew e (by simp [hpre])] at hp
  cases hp

theorem after (h : ConnectsGiven w.trace) {call : Call}
    (hcall : ∀ p ∈ call.connectsIn?, ∃ entry, Gave w.trace p.1 p.2 entry) (pcsc : Service σ) :
    ConnectsGiven (w.after pcsc call).trace :=
  eachAfter_concat.mpr ⟨h, hcall⟩

end ConnectsGiven

def HeldCard.GivenBy (t : List Exchange) (held : HeldCard) : Prop :=
  ∃ (card : CardImpl) (readerName : StringT) (reply : Reply) (entry : ScardReaderState),
    held.smartCard.card = some card ∧
    t[card.cardHandle.serial]? =
      some ⟨SmartCard.connectCall card.cardHandle.context readerName, reply⟩ ∧
    Gave (t.take card.cardHandle.serial) card.cardHandle.context readerName entry ∧
    held.smartCard.atr = entry.rgbAtr.take entry.cbAtr

theorem HeldCard.GivenBy.mono {t t' : List Exchange} {held : HeldCard} (h : held.GivenBy t)
    (hgrown : t <+: t') : held.GivenBy t' := by
  obtain ⟨card, readerName, reply, entry, hcard, hconnect, hgave, hatr⟩ := h
  refine ⟨card, readerName, reply, entry, hcard, getElem?_grown hgrown hconnect, ?_, hatr⟩
  obtain ⟨hplace, -⟩ := List.getElem?_eq_some_iff.mp hconnect
  obtain ⟨more, rfl⟩ := hgrown
  rwa [List.take_append_of_le_length (Nat.le_of_lt hplace)]

namespace SmartCard

variable {pcsc : Service σ} {fuel : Nat} {ctx : ScardContext} {readerName : StringT}
  {atr : ByteVector} {w w' : World σ}

theorem new_atr {smartCard : SmartCard}
    (h : new pcsc fuel ctx readerName atr w = (.returned smartCard, w')) :
    smartCard.atr = atr := by
  obtain ⟨_, _, -, h⟩ := Action.bind_eq_returned.mp h
  obtain ⟨_, _, -, h⟩ := Action.bind_eq_returned.mp h
  obtain ⟨_, _, -, h⟩ := Action.bind_eq_returned.mp h
  cases h
  rfl

theorem new_connectsGiven (h : ConnectsGiven w.trace) {entry : ScardReaderState}
    (hgave : Gave w.trace ctx readerName entry) (fuel : Nat) (atr : ByteVector) :
    ConnectsGiven (new pcsc fuel ctx readerName atr w).2.trace := by
  have hconnect : ConnectsGiven (w.after pcsc (connectCall ctx readerName)).trace :=
    h.after (fun p hp => by cases hp; exact ⟨entry, hgave⟩) pcsc
  have hrequest : ConnectsGiven (connectedWorld pcsc ctx readerName w).trace :=
    hconnect.after (fun p hp => by cases hp) pcsc
  have hends := new_ends pcsc fuel ctx readerName atr w
  generalize new pcsc fuel ctx readerName atr w = r at hends
  cases hends with
  | refused => exact hconnect
  | connected | undefined | running => exact hrequest
  | unsupported =>
    dsimp only
    split_ifs
    · exact hrequest
    · exact hrequest.after (fun p hp => by cases hp) pcsc

theorem new_given {smartCard : SmartCard} {entry : ScardReaderState}
    (h : new pcsc fuel ctx readerName atr w = (.returned smartCard, w'))
    (hgave : Gave w.trace ctx readerName entry) (hatr : atr = entry.rgbAtr.take entry.cbAtr) :
    (HeldCard.mk smartCard [] []).GivenBy w'.trace := by
  have hcardAtr := new_atr h
  have hends := new_ends pcsc fuel ctx readerName atr w
  rw [h] at hends
  cases hends with
  | connected card atr' protocol success handle =>
    refine ⟨card, readerName, (pcsc w.service (connectCall ctx readerName)).1, entry, rfl, ?_, ?_,
      hcardAtr.trans hatr⟩
    · rw [handle]
      simp [connectedHandle, connectedWorld, World.after]
    · rw [handle]
      simpa [connectedHandle, connectedWorld, World.after] using hgave

end SmartCard

theorem Session.Moves.atr {pcsc : Service σ} {s s' : Session σ} {o : Operation}
    (h : Moves pcsc s o s') : s'.smartCard.atr = s.smartCard.atr := by
  cases h <;> rfl

namespace System

variable {pcsc : Service σ} {fuel : Nat} {s s' : System σ}

structure FromListings (s : System σ) : Prop where
  readers : ∀ reader ∈ s.readers, ∃ c, s.process.contexts.values[reader.ctx]? = some c ∧
    reader.GivenBy s.process.world.trace c.contextHandle
  cards : ∀ held ∈ s.cards, held.GivenBy s.process.world.trace
  connects : ConnectsGiven s.process.world.trace

theorem start_fromListings (service : σ) : (start service).FromListings where
  readers _ h := by cases h
  cards _ h := by cases h
  connects := eachAfter_nil _

abbrev Grows (s s' : System σ) : Prop := s.process.Grows s'.process

instance : Std.Refl (Grows : System σ → System σ → Prop) := ⟨fun s => .refl s.process⟩

instance : IsTrans (System σ) Grows := ⟨fun _ _ _ => Process.Grows.trans⟩

theorem onProcess_grows {α : Type} {x : Action Exception (Process σ) α}
    (hx : Action.Within Process.Grows x) : Action.Within Grows (onProcess x) :=
  Action.within_zoom hx fun _ _ h => h

theorem step_grows (o : Operation) : Action.Within Grows (step pcsc fuel o) := by
  cases o with
  | listReaders =>
    refine (onProcess_grows ?_).bind fun _ => fun _ => .refl _
    exact listReaders_within makeShared_grows
      (fun ctx => onWorld_grows (S := fun _ => True)
        (populateReaderNames_calls ctx fun _ => trivial))
      (fun ctx readerNames => onWorld_grows (S := fun _ => True)
        (getReaderStates_calls ctx (fun _ => trivial) readerNames))
      copy_grows destroy_grows
  | copyReader i =>
    refine (Action.within_read _).bind fun _ => (Action.within_index _ _).bind fun reader => ?_
    refine (onProcess_grows ?_).bind fun _ => fun _ => .refl _
    exact (copy_grows reader.ctx).bind fun _ => Action.within_pure _
  | destroyReader i =>
    refine (Action.within_read _).bind fun _ => (Action.within_index _ _).bind fun reader => ?_
    exact Action.Within.bind (fun _ => .refl _) fun _ => onProcess_grows (destroy_grows reader.ctx)
  | connectToCard i =>
    refine (Action.within_read _).bind fun _ => (Action.within_index _ _).bind fun reader => ?_
    refine (onProcess_grows ?_).bind fun _ => fun _ => .refl _
    exact reader.connectToCard_within fun ctx =>
      onWorld_grows (SmartCard.new_calls fuel ctx reader.name reader.cardAtr)
  | onCard i o =>
    refine (Action.within_read _).bind fun _ => (Action.within_index _ _).bind fun held => ?_
    exact fun s => ⟨List.prefix_refl _,
      (@Session.step_moves _ pcsc fuel (s.session held) o).plain.grown⟩
  | destroyCard i =>
    refine (Action.within_read _).bind fun _ => (Action.within_index _ _).bind fun held => ?_
    exact Action.Within.bind (fun _ => .refl _) fun _ => onProcess_grows
      (onWorld_grows (S := fun _ => True) (held.smartCard.destroy_calls fun _ => trivial))

namespace FromListings

theorem readers_grown (h : s.FromListings) (hgrown : Grows s s') :
    ∀ reader ∈ s.readers, ∃ c, s'.process.contexts.values[reader.ctx]? = some c ∧
      reader.GivenBy s'.process.world.trace c.contextHandle := by
  intro reader hreader
  obtain ⟨c, hc, hgiven⟩ := h.readers reader hreader
  obtain ⟨hplace, rfl⟩ := List.getElem?_eq_some_iff.mp hc
  exact ⟨_, List.prefix_iff_getElem?.mp hgrown.contexts _ hplace, hgiven.mono hgrown.trace⟩

theorem quiet (h : s.FromListings) (hgrown : Grows s s')
    (hcalls : Calls (·.connectsIn? = none) s s') (hreaders : s'.readers ⊆ s.readers)
    (hcards : ∀ held' ∈ s'.cards, ∃ held ∈ s.cards,
      held'.smartCard.card = held.smartCard.card ∧ held'.smartCard.atr = held.smartCard.atr) :
    s'.FromListings where
  readers reader hreader := h.readers_grown hgrown reader (hreaders hreader)
  cards held' hheld' := by
    obtain ⟨held, hheld, hcard, hatr⟩ := hcards held' hheld'
    obtain ⟨card, readerName, reply, entry, hcard', hgiven⟩ :=
      (h.cards held hheld).mono hgrown.trace
    exact ⟨card, readerName, reply, entry, hcard.trans hcard', by rwa [hatr]⟩
  connects := h.connects.unused hcalls

theorem listReaders (h : s.FromListings) : (step pcsc fuel .listReaders s).2.FromListings := by
  have hgrown : Grows s (step pcsc fuel .listReaders s).2 := step_grows .listReaders s
  have hconnects := h.connects.unused (@listReaders_calls _ pcsc fuel (·.connectsIn? = none)
    (fun _ => rfl) (fun _ => rfl) (fun _ _ => rfl) (fun _ _ => rfl) s)
  have hreaders := h.readers_grown hgrown
  have hcards := fun held hheld => (h.cards held hheld).mono hgrown.trace
  rw [step, Action.bind_apply, onProcess, Action.zoom_apply] at *
  rcases hrun : PcscCpp.listReaders pcsc s.process with ⟨readers | e | _ | _, p'⟩ <;>
    rw [hrun] at hreaders hcards hconnects
  · refine ⟨fun reader hreader => ?_, hcards, hconnects⟩
    rcases List.mem_append.mp hreader with hreader | hreader
    · exact hreaders reader hreader
    · exact listReaders_given hrun reader hreader
  · exact ⟨hreaders, hcards, hconnects⟩
  · exact ⟨hreaders, hcards, hconnects⟩
  · exact ⟨hreaders, hcards, hconnects⟩

theorem copyReader (h : s.FromListings) (i : Nat) :
    (step pcsc fuel (.copyReader i) s).2.FromListings := by
  cases hreader : s.readers[i]? with
  | none =>
    rw [step, Action.lookup_none hreader]
    exact h
  | some reader =>
    have hreaders : (step pcsc fuel (.copyReader i) s).2.readers = s.readers ++ [reader] := by
      rw [step, Action.lookup_some hreader]
      rfl
    refine h.quiet (step_grows _ s) (copyReader_calls i s) ?_ fun held hheld => ?_
    · rw [hreaders]
      exact List.append_subset.mpr ⟨List.Subset.refl _,
        List.cons_subset.mpr ⟨List.mem_of_getElem? hreader, List.nil_subset _⟩⟩
    · rw [copyReader_sameCards i s] at hheld
      exact ⟨held, hheld, rfl, rfl⟩

theorem destroyReader (h : s.FromListings) (i : Nat) :
    (step pcsc fuel (.destroyReader i) s).2.FromListings := by
  cases hreader : s.readers[i]? with
  | none =>
    rw [step, Action.lookup_none hreader]
    exact h
  | some reader =>
    have hreaders : (step pcsc fuel (.destroyReader i) s).2.readers = s.readers.eraseIdx i := by
      rw [step, Action.lookup_some hreader, Action.bind_returned (Action.modify_apply _ _)]
      rfl
    refine h.quiet (step_grows _ s) (destroyReader_calls (fun _ => rfl) i s) ?_ fun held hheld => ?_
    · rw [hreaders]
      exact List.eraseIdx_subset
    · rw [destroyReader_sameCards i s] at hheld
      exact ⟨held, hheld, rfl, rfl⟩

theorem connectToCard (h : s.FromListings) (i : Nat) :
    (step pcsc fuel (.connectToCard i) s).2.FromListings := by
  cases hreader : s.readers[i]? with
  | none =>
    rw [step, Action.lookup_none hreader]
    exact h
  | some reader =>
    obtain ⟨c, hc, entry, hgave, hshows, -⟩ := h.readers reader (List.mem_of_getElem? hreader)
    have hgrown : Grows s (step pcsc fuel (.connectToCard i) s).2 := step_grows _ s
    have hreaders := h.readers_grown hgrown
    have hcards := fun held hheld => (h.cards held hheld).mono hgrown.trace
    have hconnects := @SmartCard.new_connectsGiven _ pcsc _ _ _ h.connects _ hgave fuel
      reader.cardAtr
    rw [step_connectToCard hreader hc, Action.bind_apply, onProcess, Action.zoom_apply,
      Process.onWorld, Action.zoom_apply] at *
    rcases hrun : SmartCard.new pcsc fuel c.contextHandle reader.name reader.cardAtr
      s.process.world with ⟨smartCard | e | _ | _, w'⟩ <;>
      rw [hrun] at hreaders hcards hconnects
    · refine ⟨hreaders, fun held hheld => ?_, hconnects⟩
      rcases List.mem_append.mp hheld with hheld | hheld
      · exact hcards held hheld
      · rw [List.mem_singleton.mp hheld]
        exact SmartCard.new_given hrun hgave hshows.atr
    · exact ⟨hreaders, hcards, hconnects⟩
    · exact ⟨hreaders, hcards, hconnects⟩
    · exact ⟨hreaders, hcards, hconnects⟩

theorem onCard (h : s.FromListings) (hs : s.Sound) (i : Nat) (o : Session.Operation) :
    (step pcsc fuel (.onCard i o) s).2.FromListings := by
  have hgrown : Grows s (step pcsc fuel (.onCard i o) s).2 := step_grows _ s
  cases hheld : s.cards[i]? with
  | none =>
    rw [step, Action.lookup_none hheld]
    exact h
  | some held =>
    have hsound := hs.cards held (List.mem_of_getElem? hheld)
    obtain ⟨card, hcard, -⟩ := hsound.card
    have hmoves := @Session.step_moves _ pcsc fuel (s.session held) o
    have hcalls : PcscCpp.Calls (·.connectsIn? = none) s.process.world
        (Session.step pcsc fuel o (s.session held)).2.world :=
      PcscCpp.Calls.mono (fun _ hcall => Call.connectsIn?_of_cardHandle hcall.1)
        (hmoves.onCard hcard hsound.guards)
    rw [step_onCard hheld] at hgrown ⊢
    refine h.quiet hgrown hcalls (List.Subset.refl _) fun held' hheld' => ?_
    rcases List.mem_or_eq_of_mem_set hheld' with hheld' | rfl
    · exact ⟨held', hheld', rfl, rfl⟩
    · exact ⟨held, List.mem_of_getElem? hheld, hmoves.card, hmoves.atr⟩

theorem destroyCard (h : s.FromListings) (i : Nat) :
    (step pcsc fuel (.destroyCard i) s).2.FromListings := by
  cases hheld : s.cards[i]? with
  | none =>
    rw [step, Action.lookup_none hheld]
    exact h
  | some held =>
    have hleft : (step pcsc fuel (.destroyCard i) s).2.readers = s.readers ∧
        (step pcsc fuel (.destroyCard i) s).2.cards = s.cards.eraseIdx i := by
      rw [step, Action.lookup_some hheld, Action.bind_returned (Action.modify_apply _ _)]
      exact ⟨rfl, rfl⟩
    refine h.quiet (step_grows _ s) (destroyCard_calls (fun _ => rfl) i s) ?_
      fun held' hheld' => ?_
    · rw [hleft.1]
      exact List.Subset.refl _
    · rw [hleft.2] at hheld'
      exact ⟨held', List.mem_of_mem_eraseIdx hheld', rfl, rfl⟩

theorem step (h : s.FromListings) (hs : s.Sound) (o : Operation) :
    (step pcsc fuel o s).2.FromListings := by
  cases o with
  | listReaders => exact h.listReaders
  | copyReader i => exact h.copyReader i
  | destroyReader i => exact h.destroyReader i
  | connectToCard i => exact h.connectToCard i
  | onCard i o => exact h.onCard hs i o
  | destroyCard i => exact h.destroyCard i

end FromListings

/-- In every run each reader that is held has the name, the ATR and the statuses that one entry
of a listing on its own context gave, each call that connects to a card names a reader that a
listing on the same context gave before, and each card has the ATR of the reader it is in. -/
theorem held_from_listings (pcsc : Service σ) (fuel : Nat) (service : σ) (os : List Operation) :
    ∀ s ∈ states (step pcsc fuel) os (start service), s.FromListings :=
  states_of_accounted (fun o _ _ hs h => h.step hs.sound o) (start_fromListings service)

theorem held_from_listings_copied :
    ∃ s ∈ states (step readerDisappears 1) [.listReaders, .copyReader 0, .destroyReader 0,
        .connectToCard 1] (start ()),
      (∃ reader ∈ s.readers, reader.statusString = "CHANGED,PRESENT,INUSE" ∧
        reader.GivenBy s.process.world.trace ⟨1, 0⟩) ∧
      ∃ held ∈ s.cards, held.smartCard.atr = [0x3b, 0x80] ∧
        held.GivenBy s.process.world.trace := by
  have hlast : (states (step readerDisappears 1) [.listReaders, .copyReader 0, .destroyReader 0,
      .connectToCard 1] (start ()))[4]?.map (fun s =>
        (s.readers[1]?.map fun reader => (reader.statusString, reader.ctx),
          s.process.contexts.values, s.cards[0]?.map (·.smartCard.atr))) =
      some (some ("CHANGED,PRESENT,INUSE", 0), [⟨⟨1, 0⟩⟩], some [0x3b, 0x80]) := by
    decide +kernel
  obtain ⟨s, hs, hheld⟩ := Option.map_eq_some_iff.mp hlast
  obtain ⟨hreader, hvalues, hcard⟩ : _ ∧ _ ∧ _ := by simpa only [Prod.mk.injEq] using hheld
  obtain ⟨reader, hreader, htext⟩ := Option.map_eq_some_iff.mp hreader
  obtain ⟨held, hheld, hatr⟩ := Option.map_eq_some_iff.mp hcard
  obtain ⟨htext, hctx⟩ := Prod.mk.inj htext
  have hmem := List.mem_of_getElem? hs
  have hgiven := held_from_listings readerDisappears 1 () _ s hmem
  obtain ⟨c, hc, hreaderGiven⟩ := hgiven.readers reader (List.mem_of_getElem? hreader)
  rw [hctx, hvalues] at hc
  cases hc
  exact ⟨s, hmem, ⟨reader, List.mem_of_getElem? hreader, htext, hreaderGiven⟩,
    held, List.mem_of_getElem? hheld, hatr, hgiven.cards held (List.mem_of_getElem? hheld)⟩

end System

end PcscCpp

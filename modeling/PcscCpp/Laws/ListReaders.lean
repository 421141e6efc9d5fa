import PcscCpp.Laws.Ownership
import PcscCpp.Laws.ReaderNames

namespace PcscCpp

open Effects MultiString

variable {σ : Type}

def askedStates (names : List StringT) : List ScardReaderState :=
  (starts 0 names).map fun readerNamePointer =>
    ⟨readerNamePointer, scardStateUnaware, scardStateUnaware, 0, List.replicate maxAtrSize 0⟩

theorem askedStates_eq_nil {names : List StringT} : askedStates names = [] ↔ names = [] := by
  rw [askedStates, List.map_eq_nil_iff, ← List.length_eq_zero_iff, length_starts,
    List.length_eq_zero_iff]

def listing (pcsc : Service σ) (ctx : ScardContext) :
    Program σ (StringT × List ScardReaderState) := do
  let readerNames ← populateReaderNames pcsc ctx
  let readerStates ← getReaderStates pcsc ctx readerNames
  pure (readerNames, readerStates)

namespace Listing

variable (pcsc : Service σ) (ctx : ScardContext) (w : World σ) (names : List StringT)

def lengthReply : Reply := (pcsc w.service (.listReaders ctx none)).1

def atNames : World σ := w.after pcsc (.listReaders ctx none)

def namesCall : Call := .listReaders ctx (some (lengthReply pcsc ctx w).length)

def namesReply : Reply := (pcsc (atNames pcsc ctx w).service (namesCall pcsc ctx w)).1

def buffer : StringT :=
  (namesReply pcsc ctx w).fill (List.replicate (lengthReply pcsc ctx w).length 0)

def atStates : World σ := (atNames pcsc ctx w).after pcsc (namesCall pcsc ctx w)

def statesCall : Call := .getStatusChange ctx 0 (askedStates names)

def statesReply : Reply := (pcsc (atStates pcsc ctx w).service (statesCall ctx names)).1

structure Measured : Prop where
  success : (lengthReply pcsc ctx w).result = scardSSuccess
  room : (lengthReply pcsc ctx w).length ≤ maxStringSize

/-- The ends of a listing: a failed call, a length that no string has, a buffer whose last name
is not terminated, no name, or an entry for each name. -/
inductive Ends : Outcome Exception (StringT × List ScardReaderState) × World σ → Prop
  | noLength (what : String) (length : (lengthReply pcsc ctx w).result ≠ scardSSuccess) :
    Ends (.threw ⟨scardErrorType (lengthReply pcsc ctx w).result, what⟩, atNames pcsc ctx w)
  | tooLong (what : String) (length : (lengthReply pcsc ctx w).result = scardSSuccess)
      (long : maxStringSize < (lengthReply pcsc ctx w).length) :
    Ends (.threw ⟨.lengthError, what⟩, atNames pcsc ctx w)
  | noNames (what : String) (measured : Measured pcsc ctx w)
      (names : (namesReply pcsc ctx w).result ≠ scardSSuccess) :
    Ends (.threw ⟨scardErrorType (namesReply pcsc ctx w).result, what⟩, atStates pcsc ctx w)
  | overrun (measured : Measured pcsc ctx w)
      (names : (namesReply pcsc ctx w).result = scardSSuccess)
      (overruns : Overruns 0 (buffer pcsc ctx w)) : Ends (.undefined, atStates pcsc ctx w)
  | none (measured : Measured pcsc ctx w)
      (names : (namesReply pcsc ctx w).result = scardSSuccess)
      (lists : Lists 0 (buffer pcsc ctx w) []) :
    Ends (.returned (buffer pcsc ctx w, []), atStates pcsc ctx w)
  | noStates (what : String) {names : List StringT} (measured : Measured pcsc ctx w)
      (namesDelivered : (namesReply pcsc ctx w).result = scardSSuccess)
      (lists : Lists 0 (buffer pcsc ctx w) names) (nonempty : names ≠ [])
      (states : (statesReply pcsc ctx w names).result ≠ scardSSuccess) :
    Ends (.threw ⟨scardErrorType (statesReply pcsc ctx w names).result, what⟩,
      (atStates pcsc ctx w).after pcsc (statesCall ctx names))
  | states {names : List StringT} (measured : Measured pcsc ctx w)
      (namesDelivered : (namesReply pcsc ctx w).result = scardSSuccess)
      (lists : Lists 0 (buffer pcsc ctx w) names) (nonempty : names ≠ [])
      (states : (statesReply pcsc ctx w names).result = scardSSuccess) :
    Ends (.returned (buffer pcsc ctx w,
        fillReaderStates (askedStates names) (statesReply pcsc ctx w names).readerStates),
      (atStates pcsc ctx w).after pcsc (statesCall ctx names))

end Listing

section Listing

variable {pcsc : Service σ} {ctx : ScardContext} {w : World σ} {names : List StringT}

open Listing

theorem stringOfZeros_of_le {count : Nat} (h : count ≤ maxStringSize) :
    stringOfZeros count = .ok (List.replicate count 0) :=
  if_neg (Nat.not_lt.mpr h)

theorem stringOfZeros_of_lt {count : Nat} (h : maxStringSize < count) :
    stringOfZeros count = .error ⟨.lengthError, "basic_string::_M_create"⟩ :=
  if_pos h

theorem stringOfZeros_throws {count : Nat} {e : Exception} (h : stringOfZeros count = .error e) :
    e.type = .lengthError := by
  unfold stringOfZeros at h
  split_ifs at h
  cases h
  rfl

theorem populateReaderNames_eq (pcsc : Service σ) (ctx : ScardContext) :
    populateReaderNames pcsc ctx =
      scardCall pcsc "updateReaderNamesBuffer" "src/listReaders.cpp" 41 (.listReaders ctx none) >>=
        fun first => Action.ofExcept (stringOfZeros first.length) >>= fun readerNames =>
          scardCall pcsc "updateReaderNamesBuffer" "src/listReaders.cpp" 41
            (.listReaders ctx (some readerNames.length)) >>=
          fun second => pure (second.fill readerNames) := by
  simp only [populateReaderNames, updateReaderNamesBuffer, Action.bind_assoc, Action.pure_bind,
    Option.map_some, Option.map_none]
  rfl

theorem listing_noLength (h : (lengthReply pcsc ctx w).result ≠ scardSSuccess) :
    ∃ what, listing pcsc ctx w =
      (.threw ⟨scardErrorType (lengthReply pcsc ctx w).result, what⟩, atNames pcsc ctx w) := by
  rw [listing, populateReaderNames_eq, Action.bind_assoc]
  exact ⟨_, Action.bind_threw (scardCall_failure h)⟩

theorem listing_tooLong (hlength : (lengthReply pcsc ctx w).result = scardSSuccess)
    (h : maxStringSize < (lengthReply pcsc ctx w).length) :
    ∃ what, listing pcsc ctx w = (.threw ⟨.lengthError, what⟩, atNames pcsc ctx w) := by
  have hrefused := stringOfZeros_of_lt h
  rw [lengthReply] at hrefused
  rw [listing, populateReaderNames_eq, Action.bind_assoc, Action.bind_returned
    (scardCall_success hlength), hrefused, Action.ofExcept_error, Action.throw_bind,
    Action.throw_bind]
  exact ⟨_, rfl⟩

theorem listing_measured (h : Measured pcsc ctx w) :
    listing pcsc ctx w =
      (scardCall pcsc "updateReaderNamesBuffer" "src/listReaders.cpp" 41 (namesCall pcsc ctx w) >>=
        fun second => getReaderStates pcsc ctx
            (second.fill (List.replicate (lengthReply pcsc ctx w).length 0)) >>= fun states =>
          pure (second.fill (List.replicate (lengthReply pcsc ctx w).length 0), states))
        (atNames pcsc ctx w) := by
  have hzeros := stringOfZeros_of_le h.room
  rw [lengthReply] at hzeros
  rw [listing, populateReaderNames_eq, Action.bind_assoc, Action.bind_returned
    (scardCall_success h.success), hzeros, Action.ofExcept_ok, Action.pure_bind,
    List.length_replicate, Action.bind_assoc]
  rfl

theorem listing_noNames (hmeasured : Measured pcsc ctx w)
    (h : (namesReply pcsc ctx w).result ≠ scardSSuccess) :
    ∃ what, listing pcsc ctx w =
      (.threw ⟨scardErrorType (namesReply pcsc ctx w).result, what⟩, atStates pcsc ctx w) := by
  rw [listing_measured hmeasured]
  exact ⟨_, Action.bind_threw (scardCall_failure h)⟩

theorem listing_names (hmeasured : Measured pcsc ctx w)
    (h : (namesReply pcsc ctx w).result = scardSSuccess) :
    listing pcsc ctx w = (getReaderStates pcsc ctx (buffer pcsc ctx w) >>= fun states =>
      pure (buffer pcsc ctx w, states)) (atStates pcsc ctx w) := by
  rw [listing_measured hmeasured]
  exact Action.bind_returned (scardCall_success h)

theorem getReaderStates_lists {readerNames : StringT} (h : Lists 0 readerNames names) :
    getReaderStates pcsc ctx readerNames =
      if names = [] then pure []
      else scardCall pcsc "getReaderStates" "src/listReaders.cpp" 81 (statesCall ctx names) >>=
        fun reply => pure (fillReaderStates (askedStates names) reply.readerStates) := by
  rw [getReaderStates, getReaderNamePointerList_lists h, Action.pure_bind]
  change (if askedStates names = [] then _ else _) = _
  simp only [askedStates_eq_nil]
  rfl

theorem listing_ends (pcsc : Service σ) (ctx : ScardContext) (w : World σ) :
    Ends pcsc ctx w (listing pcsc ctx w) := by
  by_cases hlength : (lengthReply pcsc ctx w).result = scardSSuccess
  · rcases Nat.lt_or_ge maxStringSize (lengthReply pcsc ctx w).length with hlong | hroom
    · obtain ⟨what, h⟩ := listing_tooLong hlength hlong
      rw [h]
      exact .tooLong what hlength hlong
    · have hmeasured : Measured pcsc ctx w := ⟨hlength, hroom⟩
      by_cases hnames : (namesReply pcsc ctx w).result = scardSSuccess
      · rw [listing_names hmeasured hnames]
        rcases lists_or_overruns 0 (buffer pcsc ctx w) with ⟨names, hlists⟩ | hoverruns
        · rw [getReaderStates_lists hlists]
          by_cases hempty : names = []
          · subst hempty
            exact .none hmeasured hnames hlists
          · rw [if_neg hempty, Action.bind_assoc]
            by_cases hstates : (statesReply pcsc ctx w names).result = scardSSuccess
            · rw [Action.bind_returned (scardCall_success hstates)]
              exact .states hmeasured hnames hlists hempty hstates
            · rw [Action.bind_threw (scardCall_failure hstates)]
              exact .noStates _ hmeasured hnames hlists hempty hstates
        · rw [getReaderStates, getReaderNamePointerList_overruns hoverruns]
          exact .overrun hmeasured hnames hoverruns
      · obtain ⟨what, h⟩ := listing_noNames hmeasured hnames
        rw [h]
        exact .noNames what hmeasured hnames
  · obtain ⟨what, h⟩ := listing_noLength hlength
    rw [h]
    exact .noLength what hlength

end Listing

theorem fillReaderStates_atr {readerStates entries : List ScardReaderState}
    (h : ∀ st ∈ readerStates, st.cbAtr ≤ st.rgbAtr.length)
    (h' : ∀ f ∈ entries, f.cbAtr ≤ f.rgbAtr.length) :
    ∀ st ∈ fillReaderStates readerStates entries, st.cbAtr ≤ st.rgbAtr.length := by
  intro st hst
  obtain ⟨i, hi, rfl⟩ := List.mem_mapIdx.mp hst
  cases hf : entries[i]? with
  | none => exact h _ (List.getElem_mem hi)
  | some f => exact h' f (List.mem_of_getElem? hf)

theorem askedStates_atr (names : List StringT) :
    ∀ st ∈ askedStates names, st.cbAtr ≤ st.rgbAtr.length := by
  intro st hst
  obtain ⟨_, _, rfl⟩ := List.mem_map.mp hst
  exact Nat.zero_le _

section Readers

variable {ctx : ContextPtr} {readerNames : StringT} {readerState : ScardReaderState}
  {readerStates : List ScardReaderState} {p : Process σ}

def listedReader (ctx : ContextPtr) (readerNames : StringT) (readerState : ScardReaderState) :
    Reader :=
  ⟨((readerNames ++ [0]).drop readerState.szReader).takeWhile (· ≠ 0),
    readerState.rgbAtr.take readerState.cbAtr, flagSetFromReaderState readerState.dwEventState, ctx⟩

theorem makeReader_returned (h : readerState.cbAtr ≤ readerState.rgbAtr.length) :
    makeReader ctx readerNames readerState p =
      (.returned (listedReader ctx readerNames readerState),
        { p with contexts := p.contexts.retain ctx }) := by
  rw [makeReader, if_pos h]
  rfl

theorem makeReader_undefined (h : ¬ readerState.cbAtr ≤ readerState.rgbAtr.length) :
    (makeReader ctx readerNames readerState : Action Exception (Process σ) Reader) =
      Action.undefined := by
  rw [makeReader, if_neg h]

def readerPass (ctx : ContextPtr) (readerNames : StringT) (readers : List Reader)
    (readerState : ScardReaderState) : Action Exception (Process σ) (List Reader) := do
  let reader ← makeReader ctx readerNames readerState
  pure (readers ++ [reader])

theorem readers_returned (h : ∀ st ∈ readerStates, st.cbAtr ≤ st.rgbAtr.length)
    (readers : List Reader) (p : Process σ) :
    ∃ contexts : Heap Context,
      readerStates.foldlM (readerPass ctx readerNames) readers p =
        (.returned (readers ++ readerStates.map (listedReader ctx readerNames)),
          { p with contexts }) ∧
      contexts.values = p.contexts.values ∧
      contexts.useCount ctx = p.contexts.useCount ctx + readerStates.length := by
  induction readerStates generalizing readers p with
  | nil => exact ⟨p.contexts, by simp, rfl, rfl⟩
  | cons readerState readerStates ih =>
    obtain ⟨contexts, hrun, hvalues, hcount⟩ := ih
      (fun st hst => h st (List.mem_cons_of_mem readerState hst))
      (readers ++ [listedReader ctx readerNames readerState])
      { p with contexts := p.contexts.retain ctx }
    have hpass : readerPass ctx readerNames readers readerState p =
        (.returned (readers ++ [listedReader ctx readerNames readerState]),
          { p with contexts := p.contexts.retain ctx }) :=
      Action.bind_returned (makeReader_returned (h readerState List.mem_cons_self))
    refine ⟨contexts, ?_, hvalues, ?_⟩
    · rw [List.foldlM_cons, Action.bind_returned hpass, hrun]
      simp
    · simp only [hcount, Heap.retain, Function.update_self, List.length_cons]
      omega

theorem readers_undefined (h : ∃ st ∈ readerStates, ¬ st.cbAtr ≤ st.rgbAtr.length)
    (readers : List Reader) (p : Process σ) :
    ∃ contexts : Heap Context,
      readerStates.foldlM (readerPass ctx readerNames) readers p =
        (.undefined, { p with contexts }) := by
  induction readerStates generalizing readers p with
  | nil => simp at h
  | cons readerState readerStates ih =>
    by_cases hfirst : readerState.cbAtr ≤ readerState.rgbAtr.length
    · have hpass : readerPass ctx readerNames readers readerState p =
          (.returned (readers ++ [listedReader ctx readerNames readerState]),
            { p with contexts := p.contexts.retain ctx }) :=
        Action.bind_returned (makeReader_returned hfirst)
      have hrest : ∃ st ∈ readerStates, ¬ st.cbAtr ≤ st.rgbAtr.length := by
        obtain ⟨st, hst, hlong⟩ := h
        rcases List.mem_cons.mp hst with rfl | hst
        · exact absurd hfirst hlong
        · exact ⟨st, hst, hlong⟩
      rw [List.foldlM_cons, Action.bind_returned hpass]
      exact ih hrest _ _
    · rw [List.foldlM_cons, readerPass, makeReader_undefined hfirst]
      exact ⟨p.contexts, rfl⟩

end Readers

theorem onWorld_bind {α β : Type} (x : Program σ α) (f : α → Program σ β) :
    Process.onWorld (x >>= f) = Process.onWorld x >>= fun a => Process.onWorld (f a) := by
  have hget : ∀ (s : Process σ) (w : World σ), ({ s with world := w } : Process σ).world = w :=
    fun _ _ => rfl
  exact Action.zoom_bind hget (fun _ _ _ => rfl) x f

theorem onWorld_pure {α : Type} (a : α) :
    Process.onWorld (pure a : Program σ α) = pure a := rfl

theorem onWorld_listing (pcsc : Service σ) (ctx : ScardContext) :
    Process.onWorld (listing pcsc ctx) =
      Process.onWorld (populateReaderNames pcsc ctx) >>= fun readerNames =>
        Process.onWorld (getReaderStates pcsc ctx readerNames) >>= fun readerStates =>
          pure (readerNames, readerStates) := by
  simp only [listing, onWorld_bind, onWorld_pure]

section ListReaders

variable {pcsc : Service σ} {p : Process σ} {c : Context} {w w₁ : World σ}

theorem listReaders_refused {e : Exception} (h : Context.new pcsc p.world = (.threw e, w)) :
    listReaders pcsc p = (.threw e, { p with world := w }) := by
  have hnew : Process.onWorld (Context.new pcsc) p = (.threw e, { p with world := w }) :=
    onWorld_apply h
  exact Action.bind_threw (Action.bind_threw hnew)

def listingProcess (p : Process σ) (c : Context) (w : World σ) : Process σ :=
  ⟨w, p.contexts.make c⟩

theorem listReaders_made (h : Context.new pcsc p.world = (.returned c, w₁)) :
    listReaders pcsc p =
      (tryCatch (Process.onWorld (listing pcsc c.contextHandle) >>= fun r =>
          r.2.foldlM (readerPass p.contexts.values.length r.1) [])
        (fun e =>
          if e.type.isA .scardNoReadersError then pure []
          else ContextPtr.destroy pcsc p.contexts.values.length >>= fun _ => throw e) >>=
        fun readers => ContextPtr.destroy pcsc p.contexts.values.length >>= fun _ => pure readers)
        (listingProcess p c w₁) := by
  have hnew : Process.onWorld (Context.new pcsc) p = (.returned c, { p with world := w₁ }) :=
    onWorld_apply h
  have hmade : ContextPtr.makeShared pcsc p =
      (.returned p.contexts.values.length, listingProcess p c w₁) := by
    rw [ContextPtr.makeShared, Action.bind_returned hnew]
    rfl
  have hhandle : ContextPtr.handle p.contexts.values.length (listingProcess p c w₁) =
      (.returned c.contextHandle, listingProcess p c w₁) :=
    handle_apply List.getElem?_concat_length
  rw [listReaders, Action.bind_returned hmade, Action.bind_apply, Action.bind_apply,
    Action.tryCatch_apply, Action.tryCatch_apply, Action.bind_returned hhandle, onWorld_listing]
  simp only [Action.bind_assoc, Action.pure_bind]
  rfl

theorem listingProcess_getElem? (p : Process σ) (c : Context) (w : World σ) :
    (listingProcess p c w).contexts.values[p.contexts.values.length]? = some c :=
  List.getElem?_concat_length

theorem listingProcess_useCount (p : Process σ) (c : Context) (w : World σ) :
    (listingProcess p c w).contexts.useCount p.contexts.values.length = 1 :=
  Heap.useCount_make_self p.contexts c

theorem listReaders_threw (h : Context.new pcsc p.world = (.returned c, w₁))
    (hvalue : c.contextHandle.value ≠ 0) {e : Exception}
    (he : listing pcsc c.contextHandle w₁ = (.threw e, w)) :
    ∃ contexts, listReaders pcsc p =
      (if e.type.isA .scardNoReadersError then .returned [] else .threw e,
        ⟨w.after pcsc (.releaseContext c.contextHandle), contexts⟩) := by
  have hthrew : Process.onWorld (listing pcsc c.contextHandle) (listingProcess p c w₁) =
      (.threw e, listingProcess p c w) := onWorld_apply he
  have hdestroy := @destroy_last _ pcsc _ _ _ (listingProcess_getElem? p c w) hvalue
    (listingProcess_useCount p c w)
  refine ⟨(listingProcess p c w).contexts.release p.contexts.values.length, ?_⟩
  rw [listReaders_made h, Action.bind_apply, Action.tryCatch_apply, Action.bind_threw hthrew]
  by_cases hnone : e.type.isA .scardNoReadersError = true
  · simp only [hnone, ↓reduceIte, Action.pure_apply, Action.bind_returned hdestroy]
    rfl
  · simp only [if_neg hnone, Action.bind_returned hdestroy]
    rfl

theorem listReaders_undefined (h : Context.new pcsc p.world = (.returned c, w₁))
    (hw : listing pcsc c.contextHandle w₁ = (.undefined, w)) :
    listReaders pcsc p = (.undefined, listingProcess p c w) := by
  have hundefined : Process.onWorld (listing pcsc c.contextHandle) (listingProcess p c w₁) =
      (.undefined, listingProcess p c w) := onWorld_apply hw
  rw [listReaders_made h, Action.bind_apply, Action.tryCatch_apply,
    Action.bind_undefined hundefined]

section Returned

variable {readerNames : StringT} {readerStates : List ScardReaderState}

theorem listReaders_shortAtr (h : Context.new pcsc p.world = (.returned c, w₁))
    (hw : listing pcsc c.contextHandle w₁ = (.returned (readerNames, readerStates), w))
    (hlong : ∃ st ∈ readerStates, ¬ st.cbAtr ≤ st.rgbAtr.length) :
    ∃ contexts, listReaders pcsc p = (.undefined, ⟨w, contexts⟩) := by
  have hreturned : Process.onWorld (listing pcsc c.contextHandle) (listingProcess p c w₁) =
      (.returned (readerNames, readerStates), listingProcess p c w) := onWorld_apply hw
  obtain ⟨contexts, hrun⟩ := @readers_undefined _ p.contexts.values.length readerNames _ hlong []
    (listingProcess p c w)
  refine ⟨contexts, ?_⟩
  rw [listReaders_made h, Action.bind_apply, Action.tryCatch_apply,
    Action.bind_returned hreturned, hrun]
  rfl

theorem listReaders_returned (h : Context.new pcsc p.world = (.returned c, w₁))
    (hvalue : c.contextHandle.value ≠ 0)
    (hw : listing pcsc c.contextHandle w₁ = (.returned (readerNames, readerStates), w))
    (hatr : ∀ st ∈ readerStates, st.cbAtr ≤ st.rgbAtr.length) :
    ∃ contexts, listReaders pcsc p =
      (.returned (readerStates.map (listedReader p.contexts.values.length readerNames)),
        ⟨if readerStates = [] then w.after pcsc (.releaseContext c.contextHandle) else w,
          contexts⟩) := by
  have hreturned : Process.onWorld (listing pcsc c.contextHandle) (listingProcess p c w₁) =
      (.returned (readerNames, readerStates), listingProcess p c w) := onWorld_apply hw
  obtain ⟨contexts, hrun, hvalues, hcount⟩ := @readers_returned _ p.contexts.values.length
    readerNames _ hatr [] (listingProcess p c w)
  rw [listingProcess_useCount] at hcount
  refine ⟨contexts.release p.contexts.values.length, ?_⟩
  rw [listReaders_made h, Action.bind_apply, Action.tryCatch_apply,
    Action.bind_returned hreturned, hrun, List.nil_append]
  by_cases hempty : readerStates = []
  · subst hempty
    have hget : contexts.values[p.contexts.values.length]? = some c :=
      hvalues ▸ listingProcess_getElem? p c w
    have hdestroy : ContextPtr.destroy pcsc p.contexts.values.length ⟨w, contexts⟩ = _ :=
      destroy_last hget hvalue hcount
    exact Action.bind_returned hdestroy
  · have hshared : 1 < contexts.useCount p.contexts.values.length := by
      have := List.length_pos_iff.mpr hempty
      omega
    have hdestroy : ContextPtr.destroy pcsc p.contexts.values.length ⟨w, contexts⟩ = _ :=
      destroy_shared hshared
    rw [if_neg hempty]
    exact Action.bind_returned hdestroy

end Returned

/-- The ends of `listReaders`: it gets no context, or it lists with the new one and gives it
back unless readers keep it. -/
inductive Listing.Finishes (pcsc : Service σ) (p : Process σ) :
    Outcome Exception (List Reader) × Process σ → Prop
  | refused (e : Exception)
      (refused : Context.new pcsc p.world =
        (.threw e, p.world.after pcsc (.establishContext scardScopeUser))) :
    Finishes pcsc p (.threw e, { p with
      world := p.world.after pcsc (.establishContext scardScopeUser) })
  | failed (e : Exception) (w : World σ) (contexts : Heap Context)
      (success : (pcsc p.world.service (.establishContext scardScopeUser)).1.result =
        scardSSuccess)
      (value : (establishedContext pcsc p.world).value ≠ 0)
      (listed : listing pcsc (establishedContext pcsc p.world)
        (p.world.after pcsc (.establishContext scardScopeUser)) = (.threw e, w)) :
    Finishes pcsc p (if e.type.isA .scardNoReadersError then .returned [] else .threw e,
      ⟨w.after pcsc (.releaseContext (establishedContext pcsc p.world)), contexts⟩)
  | listed (readerNames : StringT) (readerStates : List ScardReaderState) (w : World σ)
      (contexts : Heap Context)
      (success : (pcsc p.world.service (.establishContext scardScopeUser)).1.result =
        scardSSuccess)
      (value : (establishedContext pcsc p.world).value ≠ 0)
      (listed : listing pcsc (establishedContext pcsc p.world)
        (p.world.after pcsc (.establishContext scardScopeUser)) =
          (.returned (readerNames, readerStates), w)) :
    Finishes pcsc p
      (.returned (readerStates.map (listedReader p.contexts.values.length readerNames)),
        ⟨if readerStates = [] then
            w.after pcsc (.releaseContext (establishedContext pcsc p.world))
          else w, contexts⟩)
  | undefined (o : Outcome Exception (StringT × List ScardReaderState)) (w : World σ)
      (contexts : Heap Context)
      (success : (pcsc p.world.service (.establishContext scardScopeUser)).1.result =
        scardSSuccess)
      (value : (establishedContext pcsc p.world).value ≠ 0)
      (listed : listing pcsc (establishedContext pcsc p.world)
        (p.world.after pcsc (.establishContext scardScopeUser)) = (o, w))
      (unthrown : ∀ e, o ≠ .threw e) :
    Finishes pcsc p (.undefined, ⟨w, contexts⟩)

theorem listReaders_finishes (pcsc : Service σ) (p : Process σ) :
    Listing.Finishes pcsc p (listReaders pcsc p) := by
  rcases Context.new_cases pcsc p.world with ⟨e, -, he⟩ | ⟨hsuccess, hvalue, hnew⟩
  · rw [listReaders_refused he]
    exact .refused e he
  · have hends := listing_ends pcsc (establishedContext pcsc p.world)
      (p.world.after pcsc (.establishContext scardScopeUser))
    rcases hrun : listing pcsc (establishedContext pcsc p.world)
      (p.world.after pcsc (.establishContext scardScopeUser)) with
        ⟨⟨names, states⟩ | e | _ | _, w⟩
    · by_cases hatr : ∀ st ∈ states, st.cbAtr ≤ st.rgbAtr.length
      · obtain ⟨contexts, hlisted⟩ := listReaders_returned hnew hvalue hrun hatr
        rw [hlisted]
        exact .listed names states w contexts hsuccess hvalue hrun
      · simp only [not_forall, exists_prop] at hatr
        obtain ⟨contexts, hlisted⟩ := listReaders_shortAtr hnew hrun hatr
        rw [hlisted]
        exact .undefined _ w contexts hsuccess hvalue hrun nofun
    · obtain ⟨contexts, hlisted⟩ := listReaders_threw hnew hvalue hrun
      rw [hlisted]
      exact .failed e w contexts hsuccess hvalue hrun
    · rw [listReaders_undefined hnew hrun]
      exact .undefined _ w _ hsuccess hvalue hrun nofun
    · rw [hrun] at hends
      cases hends

end ListReaders

end PcscCpp

import PcscCpp.Laws.Exceptions
import PcscCpp.Laws.ListReaders

namespace PcscCpp

open Effects MultiString

variable {σ : Type}

def Exchange.Delivers (x : Exchange) (names : List StringT) : Prop :=
  ∃ ctx n, x.call = .listReaders ctx (some n) ∧ x.reply.result = scardSSuccess ∧
    Lists 0 (x.reply.fill (List.replicate n 0)) names

def Call.lists : Call → Bool
  | .listReaders .. => true
  | .getStatusChange .. => true
  | _ => false

/-- A listing is empty only if there are no readers, and a failure after readers were listed
is thrown and not taken for a lack of readers.  Nobody looks at what `SCardReleaseContext`
returns. -/
structure Reported (o : Outcome Exception (List Reader)) (exchanges : List Exchange) : Prop where
  empty : o = .returned [] →
    (∃ x ∈ exchanges, x.call.NoRelease ∧ x.reply.result = scardENoReadersAvailable) ∨
      ∃ x ∈ exchanges, x.Delivers []
  failure : ∀ pre x post names, exchanges = pre ++ x :: post → (∃ y ∈ pre, y.Delivers names) →
    names ≠ [] → x.call.NoRelease → x.reply.result ≠ scardSSuccess →
    x.reply.result ≠ scardENoReadersAvailable →
    ∃ e, o = .threw e ∧ e.type.isA .scardError = true ∧ e.type.isA .scardNoReadersError = false

def listingExchanges (pcsc : Service σ) (p : Process σ) : List Exchange :=
  (listReaders pcsc p).2.world.trace.drop p.world.trace.length

theorem Call.noRelease_of_lists {call : Call} (h : call.lists = true) : call.NoRelease := by
  rintro ctx rfl
  cases h

theorem scardErrorType_noReaders (result : Long) :
    (scardErrorType result).isA .scardNoReadersError = true ↔
      result = scardENoReadersAvailable ∨ result = scardEReaderUnavailable := by
  unfold scardErrorType
  split_ifs with hservice hreaders
  · rcases hservice with rfl | rfl <;> decide
  · exact iff_of_true rfl hreaders
  all_goals exact iff_of_false (by decide) hreaders

section Reported

variable {o : Outcome Exception (List Reader)} {pre : List Exchange} {x released : Exchange}
  {exchanges : List Exchange}

theorem reported_of_threw {e : Exception} (herror : e.type.isA .scardError = true)
    (hreaders : e.type.isA .scardNoReadersError = false) (exchanges : List Exchange) :
    Reported (.threw e) exchanges where
  empty h := by cases h
  failure _ _ _ _ _ _ _ _ _ _ := ⟨e, rfl, herror, hreaders⟩

theorem reported_iff_of_success
    (h : ∀ x ∈ exchanges, x.call.NoRelease → x.reply.result = scardSSuccess)
    (hempty : o = .returned [] → ∃ x ∈ exchanges, x.Delivers []) :
    Reported o exchanges ↔
      ∀ x ∈ exchanges, x.call.lists = true → x.reply.result ≠ scardEReaderUnavailable := by
  refine iff_of_true ⟨fun ho => .inr (hempty ho), ?_⟩ fun x hx hlists => ?_
  · intro pre x post names hsplit _ _ hcall hfailed _
    exact absurd (h x (by simp [hsplit]) hcall) hfailed
  · rw [h x hx (Call.noRelease_of_lists hlists)]
    decide

structure Exchange.Passed (x : Exchange) : Prop where
  noRelease : x.call.NoRelease
  success : x.reply.result = scardSSuccess
  notEmpty : ¬ x.Delivers []

structure FailedAt (pre : List Exchange) (x released : Exchange) : Prop where
  before : ∀ y ∈ pre, y.Passed
  failed : x.reply.result ≠ scardSSuccess
  lists : x.call.lists = true
  release : ∃ ctx, released.call = .releaseContext ctx

theorem not_delivers_of_failed {names : List StringT} (h : x.reply.result ≠ scardSSuccess) :
    ¬ x.Delivers names := fun ⟨_, _, _, hsuccess, _⟩ => h hsuccess

theorem not_delivers_of_release {names : List StringT} {ctx : ScardContext}
    (h : x.call = .releaseContext ctx) : ¬ x.Delivers names := by
  rintro ⟨_, _, hcall, -⟩
  rw [h] at hcall
  cases hcall

namespace FailedAt

variable {what : String}

theorem eq_of_failed (h : FailedAt pre x released) {y : Exchange}
    (hy : y ∈ pre ++ [x, released]) (hrelease : y.call.NoRelease)
    (hfailed : y.reply.result ≠ scardSSuccess) : y = x := by
  simp only [List.mem_append, List.mem_cons, List.not_mem_nil, or_false] at hy
  rcases hy with hy | rfl | rfl
  · exact absurd (h.before y hy).success hfailed
  · rfl
  · obtain ⟨ctx, hctx⟩ := h.release
    exact absurd hctx (hrelease ctx)

theorem not_delivers_nil (h : FailedAt pre x released) :
    ∀ y ∈ pre ++ [x, released], ¬ y.Delivers [] := by
  intro y hy
  simp only [List.mem_append, List.mem_cons, List.not_mem_nil, or_false] at hy
  rcases hy with hy | rfl | rfl
  · exact (h.before y hy).notEmpty
  · exact not_delivers_of_failed h.failed
  · obtain ⟨ctx, hctx⟩ := h.release
    exact not_delivers_of_release hctx

theorem reported_iff (h : FailedAt pre x released) :
    Reported (if (scardErrorType x.reply.result).isA .scardNoReadersError then .returned []
      else .threw ⟨scardErrorType x.reply.result, what⟩) (pre ++ [x, released]) ↔
        ∀ y ∈ pre ++ [x, released], y.call.lists = true →
          y.reply.result ≠ scardEReaderUnavailable := by
  have hx : x ∈ pre ++ [x, released] := by simp
  have hclass := scardErrorType_noReaders x.reply.result
  constructor
  · intro hreported y hy hlists hunavailable
    have hyx : y = x := h.eq_of_failed hy (Call.noRelease_of_lists hlists)
      (by rw [hunavailable]; decide)
    subst hyx
    rw [if_pos (hclass.mpr (.inr hunavailable))] at hreported
    rcases hreported.empty rfl with ⟨z, hz, hzcall, hznone⟩ | ⟨z, hz, hznil⟩
    · have hzy := h.eq_of_failed hz hzcall (by rw [hznone]; decide)
      rw [hzy, hunavailable] at hznone
      exact absurd hznone (by decide)
    · exact h.not_delivers_nil z hz hznil
  · intro havailable
    by_cases hnone : x.reply.result = scardENoReadersAvailable
    · rw [if_pos (hclass.mpr (.inl hnone))]
      refine ⟨fun _ => .inl ⟨x, hx, Call.noRelease_of_lists h.lists, hnone⟩, ?_⟩
      intro pre' y post names hsplit _ _ hycall hyfailed hyother
      have hyx := h.eq_of_failed (by simp [hsplit]) hycall hyfailed
      exact absurd (hyx ▸ hnone) hyother
    · have hother : ¬ (scardErrorType x.reply.result).isA .scardNoReadersError = true := fun hc =>
        (hclass.mp hc).elim hnone (havailable x hx h.lists)
      rw [if_neg hother]
      exact reported_of_threw (scardErrorType_isA _) (Bool.eq_false_iff.mpr hother) _

end FailedAt

end Reported

namespace Listing

variable (pcsc : Service σ) (ctx : ScardContext) (w : World σ) (names : List StringT)

def lengthExchange : Exchange := ⟨.listReaders ctx none, lengthReply pcsc ctx w⟩

def namesExchange : Exchange := ⟨namesCall pcsc ctx w, namesReply pcsc ctx w⟩

def statesExchange : Exchange := ⟨statesCall ctx names, statesReply pcsc ctx w names⟩

variable {pcsc ctx w names}

theorem atNames_trace :
    (atNames pcsc ctx w).trace = w.trace ++ [lengthExchange pcsc ctx w] := rfl

theorem atStates_trace : (atStates pcsc ctx w).trace =
    w.trace ++ [lengthExchange pcsc ctx w, namesExchange pcsc ctx w] := by
  change (atNames pcsc ctx w).trace ++ [namesExchange pcsc ctx w] = _
  rw [atNames_trace, List.append_assoc]
  rfl

theorem afterStates_trace : ((atStates pcsc ctx w).after pcsc (statesCall ctx names)).trace =
    w.trace ++ [lengthExchange pcsc ctx w, namesExchange pcsc ctx w,
      statesExchange pcsc ctx w names] := by
  change (atStates pcsc ctx w).trace ++ [statesExchange pcsc ctx w names] = _
  rw [atStates_trace, List.append_assoc]
  rfl

theorem lengthExchange_passed (h : (lengthReply pcsc ctx w).result = scardSSuccess) :
    (lengthExchange pcsc ctx w).Passed :=
  ⟨fun _ h => (by cases h), h, fun ⟨_, _, hcall, _⟩ => (by cases hcall)⟩

theorem namesExchange_delivers (h : (namesReply pcsc ctx w).result = scardSSuccess) :
    (namesExchange pcsc ctx w).Delivers names ↔ Lists 0 (buffer pcsc ctx w) names := by
  constructor
  · rintro ⟨_, _, hcall, -, hlists⟩
    cases hcall
    exact hlists
  · intro hlists
    exact ⟨ctx, _, rfl, h, hlists⟩

theorem namesExchange_passed (h : (namesReply pcsc ctx w).result = scardSSuccess)
    (hlists : Lists 0 (buffer pcsc ctx w) names) (hne : names ≠ []) :
    (namesExchange pcsc ctx w).Passed :=
  ⟨fun _ h => (by cases h), h, fun hempty =>
    hne (((namesExchange_delivers h).mp hempty).eq_nil hlists)⟩

end Listing

section ListReaders

variable {pcsc : Service σ} {p : Process σ}

theorem listingExchanges_eq {o : Outcome Exception (List Reader)} {w : World σ}
    {contexts : Heap Context} {new : List Exchange} (h : listReaders pcsc p = (o, ⟨w, contexts⟩))
    (htrace : w.trace = p.world.trace ++ new) : listingExchanges pcsc p = new := by
  rw [listingExchanges, h]
  simp [htrace]

def ReportedIffAvailable (pcsc : Service σ) (p : Process σ) : Prop :=
  Reported (listReaders pcsc p).1 (listingExchanges pcsc p) ↔
    ∀ x ∈ listingExchanges pcsc p, x.call.lists = true →
      x.reply.result ≠ scardEReaderUnavailable

theorem reported_iff_of_refused {e : Exception}
    (h : Context.new pcsc p.world =
      (.threw e, p.world.after pcsc (.establishContext scardScopeUser))) :
    ReportedIffAvailable pcsc p := by
  rw [ReportedIffAvailable, listingExchanges_eq (listReaders_refused h) (World.after_trace _ _ _),
    listReaders_refused h]
  refine iff_of_true ⟨fun ho => (by cases ho), ?_⟩ fun x hx hlists => ?_
  · rintro pre x post names hsplit ⟨y, hy, -⟩
    rcases pre with _ | ⟨z, pre⟩
    · cases hy
    · simp at hsplit
  · rw [List.mem_singleton.mp hx] at hlists
    cases hlists

theorem reported_iff_of_failed {c : Context} {w₁ w : World σ} {pre : List Exchange} {x : Exchange}
    {what : String} (h : Context.new pcsc p.world = (.returned c, w₁))
    (hvalue : c.contextHandle.value ≠ 0)
    (hw : listing pcsc c.contextHandle w₁ = (.threw ⟨scardErrorType x.reply.result, what⟩, w))
    (htrace : w.trace = p.world.trace ++ (pre ++ [x]))
    (hfailed : ∀ reply, FailedAt pre x ⟨.releaseContext c.contextHandle, reply⟩) :
    ReportedIffAvailable pcsc p := by
  obtain ⟨contexts, hrun⟩ := listReaders_threw h hvalue hw
  have hafter : (w.after pcsc (.releaseContext c.contextHandle)).trace = p.world.trace ++
      (pre ++ [x, ⟨.releaseContext c.contextHandle,
        (pcsc w.service (.releaseContext c.contextHandle)).1⟩]) := by
    rw [World.after_trace, htrace]
    simp
  rw [ReportedIffAvailable, listingExchanges_eq hrun hafter, hrun]
  exact (hfailed _).reported_iff

section Made

variable {ctx : ScardContext} {w₁ : World σ} {first : Exchange}

theorem reported_iff_of_tooLong {what : String}
    (h : Context.new pcsc p.world = (.returned ⟨ctx⟩, w₁)) (hvalue : ctx.value ≠ 0)
    (hfirst : w₁.trace = p.world.trace ++ [first]) (hpassed : first.Passed)
    (hlength : (Listing.lengthReply pcsc ctx w₁).result = scardSSuccess)
    (hrun : listing pcsc ctx w₁ = (.threw ⟨.lengthError, what⟩, Listing.atNames pcsc ctx w₁)) :
    ReportedIffAvailable pcsc p := by
  obtain ⟨contexts, hlisted⟩ := listReaders_threw h hvalue hrun
  have htrace : ((Listing.atNames pcsc ctx w₁).after pcsc (.releaseContext ctx)).trace =
      p.world.trace ++ [first, Listing.lengthExchange pcsc ctx w₁, ⟨.releaseContext ctx,
        (pcsc (Listing.atNames pcsc ctx w₁).service (.releaseContext ctx)).1⟩] := by
    rw [World.after_trace, Listing.atNames_trace, hfirst]
    simp
  rw [ReportedIffAvailable, listingExchanges_eq hlisted htrace, hlisted]
  refine reported_iff_of_success ?_ fun ho => (by cases ho)
  simpa using ⟨fun _ => hpassed.success, fun _ => hlength, fun hno => absurd rfl (hno ctx)⟩

theorem reported_iff_of_none (h : Context.new pcsc p.world = (.returned ⟨ctx⟩, w₁))
    (hvalue : ctx.value ≠ 0) (hfirst : w₁.trace = p.world.trace ++ [first])
    (hpassed : first.Passed) (hmeasured : Listing.Measured pcsc ctx w₁)
    (hnames : (Listing.namesReply pcsc ctx w₁).result = scardSSuccess)
    (hlists : Lists 0 (Listing.buffer pcsc ctx w₁) [])
    (hrun : listing pcsc ctx w₁ =
      (.returned (Listing.buffer pcsc ctx w₁, []), Listing.atStates pcsc ctx w₁)) :
    ReportedIffAvailable pcsc p := by
  obtain ⟨contexts, hlisted⟩ := listReaders_returned h hvalue hrun (by simp)
  have htrace : ((Listing.atStates pcsc ctx w₁).after pcsc (.releaseContext ctx)).trace =
      p.world.trace ++ [first, Listing.lengthExchange pcsc ctx w₁,
        Listing.namesExchange pcsc ctx w₁, ⟨.releaseContext ctx,
          (pcsc (Listing.atStates pcsc ctx w₁).service (.releaseContext ctx)).1⟩] := by
    rw [World.after_trace, Listing.atStates_trace, hfirst]
    simp
  rw [if_pos rfl] at hlisted
  rw [ReportedIffAvailable, listingExchanges_eq hlisted htrace, hlisted]
  refine reported_iff_of_success ?_ fun _ => ⟨Listing.namesExchange pcsc ctx w₁, by simp,
    (Listing.namesExchange_delivers hnames).mpr hlists⟩
  simpa using ⟨fun _ => hpassed.success, fun _ => hmeasured.success, fun _ => hnames, fun hno =>
    absurd rfl (hno ctx)⟩

theorem reported_iff_of_states {names : List StringT}
    (h : Context.new pcsc p.world = (.returned ⟨ctx⟩, w₁)) (hvalue : ctx.value ≠ 0)
    (hfirst : w₁.trace = p.world.trace ++ [first]) (hpassed : first.Passed)
    (hmeasured : Listing.Measured pcsc ctx w₁)
    (hnames : (Listing.namesReply pcsc ctx w₁).result = scardSSuccess) (hne : names ≠ [])
    (hstates : (Listing.statesReply pcsc ctx w₁ names).result = scardSSuccess)
    (hrun : listing pcsc ctx w₁ = (.returned (Listing.buffer pcsc ctx w₁,
        fillReaderStates (askedStates names) (Listing.statesReply pcsc ctx w₁ names).readerStates),
      (Listing.atStates pcsc ctx w₁).after pcsc (Listing.statesCall ctx names))) :
    ReportedIffAvailable pcsc p := by
  have htrace : ((Listing.atStates pcsc ctx w₁).after pcsc (Listing.statesCall ctx names)).trace =
      p.world.trace ++ [first, Listing.lengthExchange pcsc ctx w₁,
        Listing.namesExchange pcsc ctx w₁, Listing.statesExchange pcsc ctx w₁ names] := by
    rw [Listing.afterStates_trace, hfirst, List.append_assoc]
    rfl
  have hsuccess : ∀ x ∈ [first, Listing.lengthExchange pcsc ctx w₁,
      Listing.namesExchange pcsc ctx w₁, Listing.statesExchange pcsc ctx w₁ names],
      x.call.NoRelease → x.reply.result = scardSSuccess := by
    simpa using ⟨fun _ => hpassed.success, fun _ => hmeasured.success, fun _ => hnames,
      fun _ => hstates⟩
  have hfilled : fillReaderStates (askedStates names)
      (Listing.statesReply pcsc ctx w₁ names).readerStates ≠ [] := by
    simpa [fillReaderStates, askedStates_eq_nil] using hne
  by_cases hatr : ∀ st ∈ fillReaderStates (askedStates names)
      (Listing.statesReply pcsc ctx w₁ names).readerStates, st.cbAtr ≤ st.rgbAtr.length
  · obtain ⟨contexts, hlisted⟩ := listReaders_returned h hvalue hrun hatr
    rw [if_neg hfilled] at hlisted
    rw [ReportedIffAvailable, listingExchanges_eq hlisted htrace, hlisted]
    exact reported_iff_of_success hsuccess fun ho =>
      absurd (List.map_eq_nil_iff.mp (Outcome.returned.inj ho)) hfilled
  · simp only [not_forall, exists_prop] at hatr
    obtain ⟨contexts, hlisted⟩ := listReaders_shortAtr h hrun hatr
    rw [ReportedIffAvailable, listingExchanges_eq hlisted htrace, hlisted]
    exact reported_iff_of_success hsuccess fun ho => (by cases ho)

theorem reported_iff_of_made (h : Context.new pcsc p.world = (.returned ⟨ctx⟩, w₁))
    (hvalue : ctx.value ≠ 0) (hfirst : w₁.trace = p.world.trace ++ [first])
    (hpassed : first.Passed) :
    ReportedIffAvailable pcsc p := by
  have htrace : ∀ (w : World σ) (pre : List Exchange) (x : Exchange),
      w.trace = w₁.trace ++ (pre ++ [x]) → w.trace = p.world.trace ++ (first :: pre ++ [x]) := by
    intro w pre x hw
    simp [hw, hfirst]
  have hends := listing_ends pcsc ctx w₁
  generalize hrun : listing pcsc ctx w₁ = r at hends
  cases hends with
  | noLength what length =>
    exact reported_iff_of_failed h hvalue hrun (htrace _ [] _ Listing.atNames_trace) fun reply =>
      ⟨by simpa using hpassed, length, rfl, ctx, rfl⟩
  | tooLong what length => exact reported_iff_of_tooLong h hvalue hfirst hpassed length hrun
  | noNames what measured names =>
    exact reported_iff_of_failed h hvalue hrun (htrace _ [_] _ Listing.atStates_trace) fun reply =>
      ⟨by simpa using ⟨hpassed, Listing.lengthExchange_passed measured.success⟩, names, rfl, ctx,
        rfl⟩
  | overrun measured names overruns =>
    have hundefined := listReaders_undefined h hrun
    rw [ReportedIffAvailable, listingExchanges_eq hundefined
      (htrace _ [_] _ Listing.atStates_trace), hundefined]
    refine reported_iff_of_success ?_ fun ho => (by cases ho)
    simpa using ⟨fun _ => hpassed.success, fun _ => measured.success, fun _ => names⟩
  | none measured names lists =>
    exact reported_iff_of_none h hvalue hfirst hpassed measured names lists hrun
  | noStates what measured names lists nonempty states =>
    exact reported_iff_of_failed h hvalue hrun (htrace _ [_, _] _ Listing.afterStates_trace)
      fun reply => ⟨by simpa using ⟨hpassed, Listing.lengthExchange_passed measured.success,
        Listing.namesExchange_passed names lists nonempty⟩, states, rfl, ctx, rfl⟩
  | states measured names lists nonempty states =>
    exact reported_iff_of_states h hvalue hfirst hpassed measured names nonempty states hrun

end Made

/-- A listing is empty only for a lack of readers, and reports a failure after readers were
listed, exactly when no call reports an unavailable reader. -/
theorem listReaders_reported_iff (pcsc : Service σ) (p : Process σ) :
    Reported (listReaders pcsc p).1 (listingExchanges pcsc p) ↔
      ∀ x ∈ listingExchanges pcsc p, x.call.lists = true →
        x.reply.result ≠ scardEReaderUnavailable := by
  rcases Context.new_cases pcsc p.world with ⟨e, -, he⟩ | ⟨hsuccess, hvalue, hnew⟩
  · exact reported_iff_of_refused he
  · exact reported_iff_of_made hnew hvalue (World.after_trace _ _ _)
      ⟨fun _ h => (by cases h), hsuccess, fun ⟨_, _, h, _⟩ => (by cases h)⟩

def readerUnplugged : Service Unit
  | _, .establishContext _ => ({ Reply.done with handle := 1 }, ())
  | _, .listReaders _ _ => (.ofBytes [0x52, 0x00, 0x00], ())
  | _, .getStatusChange _ _ _ => (.failed scardEReaderUnavailable, ())
  | _, _ => (.done, ())

theorem listReaders_swallows_unavailable :
    (listReaders readerUnplugged ⟨⟨(), []⟩, Heap.empty⟩).1 = .returned [] ∧
      ¬ Reported (listReaders readerUnplugged ⟨⟨(), []⟩, Heap.empty⟩).1
        (listingExchanges readerUnplugged ⟨⟨(), []⟩, Heap.empty⟩) := by
  refine ⟨rfl, fun h => ?_⟩
  have hlists : Lists (0 : ByteType) ([0x52] ++ 0 :: [0x00]) [[0x52]] :=
    .string (by decide) (by decide) (.stop [])
  obtain ⟨e, he, -⟩ := h.failure
    [⟨.establishContext scardScopeUser, { Reply.done with handle := 1 }⟩,
      ⟨.listReaders ⟨1, 0⟩ none, .ofBytes [0x52, 0x00, 0x00]⟩,
      ⟨.listReaders ⟨1, 0⟩ (some 3), .ofBytes [0x52, 0x00, 0x00]⟩]
    ⟨.getStatusChange ⟨1, 0⟩ 0 (askedStates [[0x52]]), .failed scardEReaderUnavailable⟩
    [⟨.releaseContext ⟨1, 0⟩, .done⟩] [[0x52]] rfl
    ⟨_, List.mem_cons_of_mem _ (List.mem_cons_of_mem _ List.mem_cons_self), ⟨1, 0⟩, 3, rfl, rfl,
      hlists⟩
    (by decide) (fun _ hcall => (by cases hcall)) (by decide) (by decide)
  cases he

end ListReaders

end PcscCpp

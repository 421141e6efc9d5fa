import Mathlib.Data.List.Nodup
import PcscCpp.Effects.Triple
import PcscCpp.Laws.Calls
import PcscCpp.Model.ListReaders

namespace PcscCpp

open Effects

variable {σ : Type}

def releases (ctx : ScardContext) (trace : List Exchange) : Nat :=
  trace.countP fun e => e.call == .releaseContext ctx

theorem releases_append (ctx : ScardContext) (l l' : List Exchange) :
    releases ctx (l ++ l') = releases ctx l + releases ctx l' := by
  simp [releases]

theorem releases_of_noRelease {ctx : ScardContext} {l : List Exchange}
    (h : ∀ e ∈ l, e.call.NoRelease) : releases ctx l = 0 := by
  refine List.countP_eq_zero.mpr fun e he => ?_
  simpa using h e he ctx

/-- The references to the contexts of `p` are those that `owners` hold, no two contexts are
the same, and a context is released once, with its last reference.  `base` are contexts
made earlier. -/
structure Owned (base : List Context) (owners : List ContextPtr) (p : Process σ) : Prop where
  counted : Heap.Counted owners p.contexts
  grown : base <+: p.contexts.values
  established : ∀ c ∈ p.contexts.values,
    c.contextHandle.value ≠ 0 ∧ c.contextHandle.serial < p.world.trace.length
  distinct : p.contexts.values.Nodup
  released : ∀ i c, p.contexts.values[i]? = some c →
    releases c.contextHandle p.world.trace = if p.contexts.useCount i = 0 then 1 else 0
  made : ∀ ctx, releases ctx p.world.trace ≠ 0 → ⟨ctx⟩ ∈ p.contexts.values

namespace Owned

variable {pcsc : Service σ} {base : List Context} {owners owners' : List ContextPtr}
  {p : Process σ} {i : ContextPtr} {E : Process σ → Prop}

theorem perm (h : Owned base owners p) (hp : owners.Perm owners') : Owned base owners' p :=
  { h with counted := h.counted.perm hp }

theorem calls (h : Owned base owners p) {w' : World σ} (hw : Calls Call.NoRelease p.world w') :
    Owned base owners { p with world := w' } := by
  obtain ⟨new, htrace, hnew⟩ := hw
  have hreleases : ∀ ctx, releases ctx w'.trace = releases ctx p.world.trace := fun ctx => by
    rw [htrace, releases_append, releases_of_noRelease hnew, Nat.add_zero]
  refine ⟨h.counted, h.grown, fun c hc => ⟨(h.established c hc).1, ?_⟩, h.distinct,
    fun i c hc => ?_, fun ctx hctx => h.made ctx (by rwa [← hreleases])⟩
  · have := (h.established c hc).2
    simp only [htrace, List.length_append]
    omega
  · rw [hreleases]
    exact h.released i c hc

theorem fresh (h : Owned base owners p) (value : UInt64) :
    ⟨⟨value, p.world.trace.length⟩⟩ ∉ p.contexts.values := fun hmem =>
  Nat.lt_irrefl _ (h.established _ hmem).2

theorem make (h : Owned base owners p) {value : UInt64} (hvalue : value ≠ 0) {w' : World σ}
    {e : Exchange} (htrace : w'.trace = p.world.trace ++ [e]) (he : e.call.NoRelease) :
    Owned base (p.contexts.values.length :: owners)
      ⟨w', p.contexts.make ⟨⟨value, p.world.trace.length⟩⟩⟩ := by
  have h' := h.calls ⟨[e], htrace, by simpa using he⟩
  have hnone : releases ⟨value, p.world.trace.length⟩ w'.trace = 0 := by
    by_contra hne
    exact h.fresh value (h'.made _ hne)
  refine ⟨h.counted.make _, h.grown.trans (List.prefix_append _ _), fun c hc => ?_, ?_,
    fun i c hc => ?_, fun ctx hctx => List.mem_append_left _ (h'.made ctx hctx)⟩
  · rcases List.mem_append.mp hc with hc | hc
    · exact h'.established c hc
    · rw [List.mem_singleton.mp hc]
      refine ⟨hvalue, ?_⟩
      simp only [htrace, List.length_append, List.length_singleton]
      omega
  · simpa using h.distinct.concat (h.fresh value)
  · rcases Heap.getElem?_make.mp hc with hc | ⟨rfl, rfl⟩
    · have hi : i ≠ p.contexts.values.length :=
        Nat.ne_of_lt (List.getElem?_eq_some_iff.mp hc).1
      rw [h'.released i c hc, Heap.useCount_make_of_ne hi]
    · rw [hnone, Heap.useCount_make_self]
      rfl

theorem retain (h : Owned base owners p) (hi : i ∈ owners) :
    Owned base (i :: owners) { p with contexts := p.contexts.retain i } := by
  refine ⟨h.counted.retain (h.counted.bound i hi), h.grown, h.established, h.distinct,
    fun j c hc => ?_, h.made⟩
  have hpos := h.counted.useCount_ne_zero hi
  rw [h.released j c hc, Heap.useCount_retain]
  by_cases hj : j = i
  · subst hj
    simp [hpos]
  · simp [hj]

theorem release (h : Owned base (i :: owners) p) (hi : i ∈ owners) :
    Owned base owners { p with contexts := p.contexts.release i } := by
  refine ⟨h.counted.release, h.grown, h.established, h.distinct, fun j c hc => ?_, h.made⟩
  rw [h.released j c hc, Heap.useCount_release]
  by_cases hj : j = i
  · subst hj
    have hbefore := h.counted.useCount_ne_zero List.mem_cons_self
    have hafter := h.counted.release.useCount_ne_zero hi
    rw [Heap.useCount_release, if_pos rfl] at hafter
    simp [hbefore, hafter]
  · simp [hj]

theorem releaseLast (h : Owned base (i :: owners) p) (hi : i ∉ owners) {c : Context}
    (hc : p.contexts.values[i]? = some c) {w' : World σ} {reply : Reply}
    (htrace : w'.trace = p.world.trace ++ [⟨.releaseContext c.contextHandle, reply⟩]) :
    Owned base owners ⟨w', p.contexts.release i⟩ := by
  have hreleases : ∀ ctx, releases ctx w'.trace =
      releases ctx p.world.trace + if c.contextHandle = ctx then 1 else 0 := fun ctx => by
    rw [htrace, releases_append]
    simp [releases, List.countP_cons]
  refine ⟨h.counted.release, h.grown, fun c' hc' => ⟨(h.established c' hc').1, ?_⟩, h.distinct,
    fun j c' hc' => ?_, fun ctx hctx => ?_⟩
  · have := (h.established c' hc').2
    simp only [htrace, List.length_append]
    omega
  · have hzero := h.counted.release_eq_zero.mpr hi
    simp only [hreleases, h.released j c' hc']
    by_cases hj : j = i
    · subst hj
      have hbefore := h.counted.useCount_ne_zero List.mem_cons_self
      obtain rfl : c = c' := Option.some.inj (hc.symm.trans hc')
      simp [hbefore, hzero]
    · have hne : c.contextHandle ≠ c'.contextHandle := by
        intro heq
        obtain rfl : c = c' := by
          cases c
          cases c'
          exact congrArg Context.mk heq
        exact hj ((List.getElem?_inj (List.getElem?_eq_some_iff.mp hc').1 h.distinct).mp
          (hc'.trans hc.symm))
      simp [hne, Heap.useCount_release, hj]
  · by_cases hctx' : c.contextHandle = ctx
    · rw [← hctx']
      exact List.mem_of_getElem? hc
    · rw [hreleases, if_neg hctx', Nat.add_zero] at hctx
      exact h.made ctx hctx

end Owned

section Triples

variable {pcsc : Service σ} {base : List Context} {owners : List ContextPtr} {i : ContextPtr}
  {E : Process σ → Prop} {α : Type}

theorem onWorld_apply {x : Program σ α} {p : Process σ} {w : World σ} {o : Outcome Exception α}
    (h : x p.world = (o, w)) : Process.onWorld x p = (o, { p with world := w }) := by
  rw [Process.onWorld, Action.zoom_apply, h]

theorem onWorld_owned {x : Program σ α} (hx : Action.Within (Calls Call.NoRelease) x) :
    Action.Triple (Owned base owners) (Process.onWorld x) (fun _ => Owned base owners)
      (Owned base owners) := by
  have hwithin : Action.Within (fun p p' : Process σ =>
      Calls Call.NoRelease p.world p'.world ∧ p'.contexts = p.contexts) (Process.onWorld x) :=
    Action.within_zoom hx fun _ _ hw => ⟨hw, rfl⟩
  refine hwithin.triple fun p p' h hp => ?_
  have h' := h.calls hp.1
  rwa [← hp.2] at h'

def establishedContext (pcsc : Service σ) (w : World σ) : ScardContext :=
  ⟨(pcsc w.service (.establishContext scardScopeUser)).1.handle, w.trace.length⟩

theorem Context.new_established {w : World σ}
    (h : (pcsc w.service (.establishContext scardScopeUser)).1.result = scardSSuccess)
    (hvalue : (establishedContext pcsc w).value ≠ 0) :
    Context.new pcsc w =
      (.returned ⟨establishedContext pcsc w⟩, w.after pcsc (.establishContext scardScopeUser)) := by
  rw [Context.new, Action.bind_returned (Action.read_apply _ _),
    Action.bind_returned (scardCall_success h)]
  exact congrFun (if_neg hvalue) _

theorem Context.new_refused {w : World σ}
    (h : (pcsc w.service (.establishContext scardScopeUser)).1.result = scardSSuccess →
      (establishedContext pcsc w).value = 0) :
    ∃ e, Context.new pcsc w = (.threw e, w.after pcsc (.establishContext scardScopeUser)) := by
  rw [Context.new, Action.bind_returned (Action.read_apply _ _)]
  by_cases hok : (pcsc w.service (.establishContext scardScopeUser)).1.result = scardSSuccess
  · rw [Action.bind_returned (scardCall_success hok)]
    exact ⟨_, congrFun (if_pos (h hok)) _⟩
  · exact ⟨_, Action.bind_threw (scardCall_failure hok)⟩

theorem Context.new_cases (pcsc : Service σ) (w : World σ) :
    (∃ e, ((pcsc w.service (.establishContext scardScopeUser)).1.result = scardSSuccess →
        (establishedContext pcsc w).value = 0) ∧
      Context.new pcsc w = (.threw e, w.after pcsc (.establishContext scardScopeUser))) ∨
    (pcsc w.service (.establishContext scardScopeUser)).1.result = scardSSuccess ∧
      (establishedContext pcsc w).value ≠ 0 ∧
      Context.new pcsc w = (.returned ⟨establishedContext pcsc w⟩,
        w.after pcsc (.establishContext scardScopeUser)) := by
  by_cases h : (pcsc w.service (.establishContext scardScopeUser)).1.result = scardSSuccess →
      (establishedContext pcsc w).value = 0
  · obtain ⟨e, he⟩ := Context.new_refused h
    exact .inl ⟨e, h, he⟩
  · obtain ⟨hok, hvalue⟩ := Classical.not_imp.mp h
    exact .inr ⟨hok, hvalue, Context.new_established hok hvalue⟩

theorem makeShared_owned :
    Action.Triple (Owned base owners) (ContextPtr.makeShared pcsc)
      (fun ctx => Owned base (ctx :: owners)) (Owned base owners) := by
  intro p h
  rw [ContextPtr.makeShared]
  rcases Context.new_cases pcsc p.world with ⟨e, -, he⟩ | ⟨-, hvalue, hnew⟩
  · rw [Action.bind_threw (onWorld_apply he)]
    exact h.calls (Calls.after nofun pcsc p.world)
  · rw [Action.bind_returned (onWorld_apply hnew)]
    exact h.make hvalue rfl (by simp [Call.NoRelease])

theorem copy_owned (hi : i ∈ owners) :
    Action.Triple (Owned base owners) (ContextPtr.copy i : Action Exception (Process σ) ContextPtr)
      (fun ctx p => ctx = i ∧ Owned base (i :: owners) p) E := by
  intro p h
  exact ⟨rfl, h.retain hi⟩

theorem destroy_owned :
    Action.Triple (Owned base (i :: owners)) (ContextPtr.destroy pcsc i)
      (fun _ => Owned base owners) E := by
  intro p h
  rw [ContextPtr.destroy, Action.bind_returned (Action.modify_apply _ _),
    Action.bind_returned (Action.read_apply _ _)]
  have hzero := h.counted.release_eq_zero
  split_ifs with hlast
  · have hi : i < p.contexts.values.length := h.counted.bound i List.mem_cons_self
    rw [Action.index_of_lt (by exact hi), Action.pure_bind, Context.destroy]
    have hvalue := (h.established _ (List.getElem_mem hi)).1
    simp only [Heap.values_release, ne_eq, hvalue, not_false_eq_true, ↓reduceIte]
    exact h.releaseLast (hzero.mp hlast) (List.getElem?_eq_getElem hi) rfl
  · exact h.release (by
      by_contra hmem
      exact hlast (hzero.mpr hmem))

theorem handle_apply {p : Process σ} {c : Context} (h : p.contexts.values[i]? = some c) :
    ContextPtr.handle i p = (.returned c.contextHandle, p) := by
  obtain ⟨hi, rfl⟩ := List.getElem?_eq_some_iff.mp h
  rw [ContextPtr.handle, Action.bind_returned (Action.read_apply _ _), Action.index_of_lt hi,
    Action.pure_bind, Action.pure_apply]

theorem Context.destroy_apply (context : Context) (w : World σ) :
    context.destroy pcsc w = (.returned (), if context.contextHandle.value = 0 then w
      else w.after pcsc (.releaseContext context.contextHandle)) := by
  by_cases hvalue : context.contextHandle.value = 0
  · simp [Context.destroy, hvalue]
  · simp only [Context.destroy, ne_eq, hvalue, not_false_eq_true, ↓reduceIte]
    rfl

theorem destroy_apply {p : Process σ} {c : Context} (h : p.contexts.values[i]? = some c) :
    ContextPtr.destroy pcsc i p =
      (.returned (), ⟨if (p.contexts.release i).useCount i = 0 ∧ c.contextHandle.value ≠ 0 then
        p.world.after pcsc (.releaseContext c.contextHandle) else p.world,
          p.contexts.release i⟩) := by
  obtain ⟨hi, rfl⟩ := List.getElem?_eq_some_iff.mp h
  rw [ContextPtr.destroy, Action.bind_returned (Action.modify_apply _ _),
    Action.bind_returned (Action.read_apply _ _)]
  by_cases hcount : (p.contexts.release i).useCount i = 0
  · rw [if_pos hcount, Action.index_of_lt (by exact hi), Action.pure_bind,
      onWorld_apply (Context.destroy_apply _ _)]
    by_cases hvalue : p.contexts.values[i].contextHandle.value = 0 <;> simp [hcount, hvalue]
  · rw [if_neg hcount, if_neg fun h => hcount h.1, Action.pure_apply]

theorem destroy_last {p : Process σ} {c : Context} (h : p.contexts.values[i]? = some c)
    (hvalue : c.contextHandle.value ≠ 0) (hcount : p.contexts.useCount i = 1) :
    ContextPtr.destroy pcsc i p =
      (.returned (),
        ⟨p.world.after pcsc (.releaseContext c.contextHandle), p.contexts.release i⟩) := by
  have hzero : (p.contexts.release i).useCount i = 0 := by simp [Heap.release, hcount]
  rw [destroy_apply h, if_pos ⟨hzero, hvalue⟩]

theorem destroy_shared {p : Process σ} (hcount : 1 < p.contexts.useCount i) :
    ContextPtr.destroy pcsc i p =
      (.returned (), { p with contexts := p.contexts.release i }) := by
  have hpos : (p.contexts.release i).useCount i ≠ 0 := by
    simp only [Heap.release, Function.update_self]
    omega
  rw [ContextPtr.destroy, Action.bind_returned (Action.modify_apply _ _),
    Action.bind_returned (Action.read_apply _ _), if_neg hpos, Action.pure_apply]

theorem handle_triple {P : Process σ → Prop} :
    Action.Triple P (ContextPtr.handle i)
      (fun handle p => P p ∧ ∃ c, p.contexts.values[i]? = some c ∧ c.contextHandle = handle) E := by
  intro p h
  rw [ContextPtr.handle, Action.bind_returned (Action.read_apply _ _)]
  by_cases hi : i < p.contexts.values.length
  · rw [Action.index_of_lt hi, Action.pure_bind]
    exact ⟨h, _, List.getElem?_eq_getElem hi, rfl⟩
  · rw [Action.index_of_le (Nat.not_lt.mp hi)]
    trivial

end Triples

section Listing

variable {pcsc : Service σ} {base : List Context} {owners : List ContextPtr} {i : ContextPtr}
  {E : Process σ → Prop}

theorem getReaderNamePointerList_within {W : Type} {R : W → W → Prop} [Std.Refl R] [IsTrans W R]
    (readerNames : StringT) :
    Action.Within R (getReaderNamePointerList readerNames) := by
  unfold getReaderNamePointerList
  split_ifs
  · exact Action.within_pure _
  · exact (Action.within_loop
      (fun s => (Action.within_index _ _).bind fun c => Action.within_pure _)
      (fun s => Action.within_pure _) _ _).bind fun _ => Action.within_pure _

theorem populateReaderNames_calls {S : Call → Prop} (ctx : ScardContext)
    (h : ∀ buffer, S (.listReaders ctx buffer)) :
    Action.Within (Calls S) (populateReaderNames pcsc ctx) :=
  ((calls_scardCall (h _)).bind fun _ => Action.within_pure _).bind fun _ =>
    (Action.within_ofExcept _).bind fun _ =>
      ((calls_scardCall (h _)).bind fun _ => Action.within_pure _).bind fun _ =>
        Action.within_pure _

theorem getReaderStates_calls {S : Call → Prop} (ctx : ScardContext)
    (h : ∀ readerStates, S (.getStatusChange ctx 0 readerStates)) (readerNames : StringT) :
    Action.Within (Calls S) (getReaderStates pcsc ctx readerNames) := by
  refine (getReaderNamePointerList_within readerNames).bind fun list => ?_
  dsimp only
  split_ifs
  · exact Action.within_pure _
  · exact (calls_scardCall (h _)).bind fun _ => Action.within_pure _

theorem makeReader_owned (hi : i ∈ owners) (readerNames : StringT)
    (readerState : ScardReaderState) :
    Action.Triple (Owned base owners)
      (makeReader i readerNames readerState : Action Exception (Process σ) Reader)
      (fun reader => Owned base (reader.ctx :: owners)) E := by
  unfold makeReader
  split_ifs
  · refine (copy_owned hi).bind fun ctx => ?_
    exact (Action.triple_pure _).pre fun p hp => hp.1 ▸ hp.2
  · exact Action.triple_undefined

theorem listReaders_owned :
    Action.Triple (Owned base owners) (listReaders pcsc)
      (fun readers => Owned base (readers.map (·.ctx) ++ owners)) (Owned base owners) := by
  refine makeShared_owned.bind fun ctx => ?_
  refine Action.Triple.bind (Q := fun readers => Owned base (readers.map (·.ctx) ++ ctx :: owners))
    (Action.Triple.tryCatch (E := Owned base (ctx :: owners)) ?_ fun e => ?_) fun readers => ?_
  · refine handle_triple.bind fun handle => ?_
    refine Action.Triple.pre (P := Owned base (ctx :: owners)) ?_ fun p hp => hp.1
    refine (onWorld_owned (populateReaderNames_calls handle
      (by simp [Call.NoRelease]))).bind fun readerNames => ?_
    refine (onWorld_owned (getReaderStates_calls handle (by simp [Call.NoRelease])
      readerNames)).bind fun readerStates => ?_
    refine (Action.triple_foldlM (I := fun readers : List Reader =>
      Owned base (readers.map (·.ctx) ++ ctx :: owners)) (fun readers readerState => ?_)
      readerStates []).pre fun p hp => hp
    refine (makeReader_owned (List.mem_append_right _ List.mem_cons_self) readerNames
      readerState).bind fun reader => ?_
    refine (Action.triple_pure _).pre fun p hp => hp.perm ?_
    simp only [List.map_append, List.map_singleton, List.append_assoc, List.singleton_append]
    exact List.perm_middle.symm
  · split_ifs
    · exact (Action.triple_pure _).pre fun p hp => hp
    · exact destroy_owned.bind fun _ => Action.triple_throw e
  · refine (destroy_owned.pre fun p hp => hp.perm List.perm_middle).bind fun _ => ?_
    exact Action.triple_pure (Q := fun readers : List Reader =>
      Owned base (readers.map (·.ctx) ++ owners)) readers

end Listing

section Connecting

variable {pcsc : Service σ} {base : List Context} {owners : List ContextPtr}

def SmartCard.ConnectedUnder (ctx : ScardContext) (s : SmartCard) : Prop :=
  ∃ card, s.card = some card ∧ card.cardHandle.context = ctx

theorem connectToCard_context (ctx : ScardContext) (readerName : StringT) :
    Action.Triple (fun _ => True) (connectToCard pcsc ctx readerName)
      (fun cardParams _ => cardParams.1.context = ctx) fun _ => True := by
  refine (Action.triple_true _).bind fun serial => ?_
  refine (Action.triple_true _).bind fun reply => ?_
  exact (Action.triple_pure _).pre fun _ _ => rfl

theorem CardImpl.new_context {ctx : ScardContext} (fuel : Nat) (cardParams : ScardHandle × Dword) :
    Action.Triple (fun _ => cardParams.1.context = ctx) (CardImpl.new pcsc fuel cardParams)
      (fun card _ => card.cardHandle.context = ctx) fun _ => True := by
  refine Action.triple_prop fun hctx => ?_
  refine (Action.triple_true _).bind fun features => ?_
  exact (Action.triple_pure _).pre fun _ _ => hctx

theorem SmartCard.new_connectedUnder (fuel : Nat) (ctx : ScardContext) (readerName : StringT)
    (atr : ByteVector) :
    Action.Triple (fun _ => True) (SmartCard.new pcsc fuel ctx readerName atr)
      (fun s _ => s.ConnectedUnder ctx) fun _ => True := by
  refine (connectToCard_context ctx readerName).bind fun cardParams => ?_
  refine (CardImpl.new_context fuel cardParams).bind fun card => ?_
  refine Action.triple_prop fun hctx => ?_
  refine (Action.triple_true _).bind fun protocol => ?_
  exact (Action.triple_pure _).pre fun _ _ => ⟨card, rfl, hctx⟩

theorem Reader.connectToCard_apply {reader : Reader} {p : Process σ} {fuel : Nat} {c : Context}
    (hc : p.contexts.values[reader.ctx]? = some c) :
    reader.connectToCard pcsc fuel p =
      Process.onWorld (SmartCard.new pcsc fuel c.contextHandle reader.name reader.cardAtr) p := by
  rw [Reader.connectToCard, Action.bind_returned (handle_apply hc)]

theorem connectToCard_owned (fuel : Nat) (reader : Reader) :
    Action.Triple (Owned base owners) (reader.connectToCard pcsc fuel)
      (fun s p => Owned base owners p ∧
        ∃ c ∈ p.contexts.values, s.ConnectedUnder c.contextHandle) (Owned base owners) := by
  refine handle_triple.bind fun handle => ?_
  intro p hp
  obtain ⟨howned, c, hc, rfl⟩ := hp
  have hcalls := (@SmartCard.new_calls _ pcsc fuel c.contextHandle reader.name
    reader.cardAtr).mono fun _ _ h => Calls.mono (fun _ h => h.2) h
  have hconnected := @SmartCard.new_connectedUnder _ pcsc fuel c.contextHandle reader.name
    reader.cardAtr p.world trivial
  have hkept := onWorld_owned hcalls p howned
  rw [Process.onWorld, Action.zoom_apply] at hkept ⊢
  revert hkept hconnected
  rcases SmartCard.new pcsc fuel c.contextHandle reader.name reader.cardAtr p.world with
    ⟨s | e | _ | _, w'⟩ <;> intro hconnected hkept
  · exact ⟨hkept, c, List.mem_of_getElem? hc, hconnected⟩
  · exact hkept
  · trivial
  · trivial

end Connecting

abbrev Process.Calls (S : Call → Prop) : Process σ → Process σ → Prop :=
  Extends (fun p => p.world.trace) fun e => S e.call

section Calls

variable {pcsc : Service σ} {S : Call → Prop}

theorem Process.calls_onWorld {α : Type} {x : Program σ α}
    (hx : Action.Within (PcscCpp.Calls S) x) :
    Action.Within (Process.Calls S) (Process.onWorld x) :=
  Action.within_zoom hx fun _ _ h => h

theorem copy_calls (i : ContextPtr) :
    Action.Within (Process.Calls S) (ContextPtr.copy i : Action Exception (Process σ) ContextPtr) :=
  Action.Within.bind (fun _ => Extends.refl _) fun _ => Action.within_pure _

theorem Context.destroy_calls (context : Context) (h : S (.releaseContext context.contextHandle)) :
    Action.Within (PcscCpp.Calls S) (context.destroy pcsc) := by
  unfold Context.destroy
  split_ifs
  · exact (calls_issue h).bind fun _ => Action.within_pure _
  · exact Action.within_pure _

section Within

variable {R : Process σ → Process σ → Prop} [Std.Refl R] [IsTrans (Process σ) R]

theorem destroy_within (i : ContextPtr)
    (hrelease : ∀ p, R p { p with contexts := p.contexts.release i })
    (hcontext : ∀ context : Context, Action.Within R (Process.onWorld (context.destroy pcsc))) :
    Action.Within R (ContextPtr.destroy pcsc i) := by
  refine Action.Within.bind hrelease fun _ => ?_
  refine (Action.within_read _).bind fun contexts => ?_
  split_ifs
  · exact (Action.within_index _ _).bind hcontext
  · exact Action.within_pure _

theorem handle_within (i : ContextPtr) : Action.Within R
    (ContextPtr.handle i : Action Exception (Process σ) ScardContext) :=
  (Action.within_read _).bind fun _ => (Action.within_index _ _).bind fun _ => Action.within_pure _

theorem Reader.connectToCard_within {fuel : Nat} (reader : Reader)
    (hcard : ∀ ctx, Action.Within R
      (Process.onWorld (SmartCard.new pcsc fuel ctx reader.name reader.cardAtr))) :
    Action.Within R (reader.connectToCard pcsc fuel) := (handle_within reader.ctx).bind hcard

theorem listReaders_within
    (hmake : Action.Within R (ContextPtr.makeShared pcsc))
    (hnames : ∀ ctx, Action.Within R (Process.onWorld (populateReaderNames pcsc ctx)))
    (hstates : ∀ ctx readerNames,
      Action.Within R (Process.onWorld (getReaderStates pcsc ctx readerNames)))
    (hcopy : ∀ i, Action.Within R
      (ContextPtr.copy i : Action Exception (Process σ) ContextPtr))
    (hdestroy : ∀ i, Action.Within R (ContextPtr.destroy pcsc i)) :
    Action.Within R (listReaders pcsc) := by
  refine hmake.bind fun ctx => ?_
  refine Action.Within.bind (Action.Within.tryCatch ?_ fun e => ?_) fun readers =>
    (hdestroy ctx).bind fun _ => Action.within_pure _
  · refine (handle_within ctx).bind fun handle => ?_
    refine (hnames handle).bind fun readerNames => ?_
    refine (hstates handle readerNames).bind fun readerStates => ?_
    refine Action.within_foldlM (fun readers readerState => ?_) _ _
    refine Action.Within.bind ?_ fun _ => Action.within_pure _
    unfold makeReader
    split_ifs
    · exact (hcopy ctx).bind fun _ => Action.within_pure _
    · exact Action.within_undefined
  · split_ifs
    · exact Action.within_pure _
    · exact (hdestroy ctx).bind fun _ => Action.within_throw e

end Within

theorem destroy_calls (i : ContextPtr) (h : ∀ ctx, S (.releaseContext ctx)) :
    Action.Within (Process.Calls S) (ContextPtr.destroy pcsc i) :=
  destroy_within i (fun _ => Extends.refl _) fun context =>
    Process.calls_onWorld (context.destroy_calls (h _))

theorem listReaders_calls (hestablish : ∀ dwScope, S (.establishContext dwScope))
    (hrelease : ∀ ctx, S (.releaseContext ctx)) (hlist : ∀ ctx buffer, S (.listReaders ctx buffer))
    (hstates : ∀ ctx readerStates, S (.getStatusChange ctx 0 readerStates)) :
    Action.Within (Process.Calls S) (listReaders pcsc) := by
  refine listReaders_within ?_
    (fun ctx => Process.calls_onWorld (populateReaderNames_calls ctx (hlist ctx)))
    (fun ctx readerNames =>
      Process.calls_onWorld (getReaderStates_calls ctx (hstates ctx) readerNames))
    copy_calls fun i => destroy_calls i hrelease
  refine (Process.calls_onWorld ?_).bind fun context => ?_
  · refine (Action.within_read _).bind fun serial => ?_
    refine (calls_scardCall (hestablish _)).bind fun reply => ?_
    split_ifs
    · exact Action.within_throw _
    · exact Action.within_pure _
  · exact (Action.within_read _).bind fun _ =>
      Action.Within.bind (fun _ => Extends.refl _) fun _ => Action.within_pure _

end Calls

end PcscCpp

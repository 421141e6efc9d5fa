import PcscCpp.Laws.ListReaders

namespace PcscCpp

open Effects MultiString

variable {σ : Type}

namespace Reader

def Status.scardState : Status → Dword
  | .unaware => scardStateUnaware
  | .ignore => scardStateIgnore
  | .changed => scardStateChanged
  | .unknown => scardStateUnknown
  | .unavailable => scardStateUnavailable
  | .empty => scardStateEmpty
  | .present => scardStatePresent
  | .atrmatch => scardStateAtrmatch
  | .exclusive => scardStateExclusive
  | .inuse => scardStateInuse
  | .mute => scardStateMute
  | .unpowered => scardStateUnpowered

theorem mem_readerStatusMap {key : Dword} {status : Status} :
    (key, status) ∈ readerStatusMap ↔ status ≠ .unaware ∧ key = status.scardState := by
  cases status <;> simp [readerStatusMap, Status.scardState]

theorem foldl_update (readerState : Dword) (l : List (Dword × Status)) (result : FlagSet)
    (status : Status) :
    l.foldl (fun result (key, value) =>
        if readerState &&& key ≠ 0 then Function.update result value true else result) result
        status = true ↔
      result status = true ∨ ∃ key, (key, status) ∈ l ∧ readerState &&& key ≠ 0 := by
  induction l generalizing result with
  | nil => simp
  | cons entry l ih =>
    obtain ⟨key, value⟩ := entry
    have hfirst : (if readerState &&& key ≠ 0 then Function.update result value true else result)
        status = true ↔ result status = true ∨ status = value ∧ readerState &&& key ≠ 0 := by
      split_ifs with hbit
      · by_cases hvalue : status = value <;> simp [hbit, hvalue]
      · simp [hbit]
    rw [List.foldl_cons, ih, hfirst, or_assoc]
    refine or_congr_right ?_
    simp only [List.mem_cons, Prod.mk.injEq, or_and_right, exists_or, and_assoc, exists_eq_left]

structure Shows (reader : Reader) (entry : ScardReaderState) : Prop where
  atr : reader.cardAtr = entry.rgbAtr.take entry.cbAtr
  unaware : reader.status .unaware = true ↔ entry.dwEventState = 0
  status : ∀ status ≠ Status.unaware,
    reader.status status = true ↔ entry.dwEventState &&& status.scardState ≠ 0

end Reader

theorem flagSetFromReaderState_unaware (readerState : Dword) :
    flagSetFromReaderState readerState .unaware = true ↔ readerState = 0 := by
  rw [flagSetFromReaderState]
  split_ifs with h
  · simp [h]
  · rw [Reader.foldl_update]
    simp [h, Reader.mem_readerStatusMap]

theorem flagSetFromReaderState_status (readerState : Dword) {status : Reader.Status}
    (hstatus : status ≠ .unaware) :
    flagSetFromReaderState readerState status = true ↔ readerState &&& status.scardState ≠ 0 := by
  rw [flagSetFromReaderState]
  split_ifs with h
  · simp [h, hstatus]
  · rw [Reader.foldl_update]
    simp [hstatus, Reader.mem_readerStatusMap]

section Entries

variable {names : List StringT} {entries : List ScardReaderState}

theorem fillReaderStates_eq {readerStates : List ScardReaderState}
    (h : entries.length = readerStates.length) :
    fillReaderStates readerStates entries = (readerStates.zip entries).map fun e =>
      { e.1 with
        dwEventState := e.2.dwEventState
        cbAtr := e.2.cbAtr
        rgbAtr := e.2.rgbAtr } := by
  refine List.ext_getElem (by simp [fillReaderStates, h]) fun i hi hi' => ?_
  have hentry : i < entries.length := by
    simp only [List.length_map, List.length_zip] at hi'
    omega
  simp [fillReaderStates, List.getElem?_eq_getElem hentry]

theorem readers_eq {buffer : StringT} (h : Lists 0 buffer names)
    (hlength : entries.length = names.length) (ctx : ContextPtr) :
    (fillReaderStates (askedStates names) entries).map (listedReader ctx buffer) =
      (names.zip entries).map fun e => ⟨e.1, e.2.rgbAtr.take e.2.cbAtr,
        flagSetFromReaderState e.2.dwEventState, ctx⟩ := by
  have hnames : (starts 0 names).map (fun i => ((buffer ++ [0]).drop i).takeWhile (· ≠ 0)) =
      names := h.map_starts List.drop_zero
  rw [fillReaderStates_eq (by simpa [askedStates] using hlength), askedStates]
  conv_rhs => rw [← hnames]
  simp only [List.zip_map_left, List.map_map]
  rfl

end Entries

open Listing in
/-- From `w` the service reports the length of a buffer, writes the multi-string of `names`
into it, where it fits, and fills in `entries`. -/
structure ServesReaders (pcsc : Service σ) (ctx : ScardContext) (w : World σ)
    (names : List StringT) (entries : List ScardReaderState) : Prop where
  measured : Measured pcsc ctx w
  listed : (namesReply pcsc ctx w).result = scardSSuccess
  written : (namesReply pcsc ctx w).bytes = encode 0 names
  fits : (encode 0 names).length ≤ (lengthReply pcsc ctx w).length
  wellFormed : ∀ name ∈ names, name ≠ [] ∧ 0 ∉ name
  filled : names ≠ [] → (statesReply pcsc ctx w names).result = scardSSuccess ∧
    (statesReply pcsc ctx w names).readerStates = entries
  entryEach : entries.length = names.length
  atrFits : ∀ entry ∈ entries, entry.cbAtr ≤ entry.rgbAtr.length

namespace ServesReaders

variable {pcsc : Service σ} {ctx : ScardContext} {w : World σ} {names : List StringT}
  {entries : List ScardReaderState}

theorem lists (h : ServesReaders pcsc ctx w names entries) :
    Lists 0 (Listing.buffer pcsc ctx w) names := by
  rw [Listing.buffer, Reply.fill, h.written, List.length_replicate, List.take_of_length_le h.fits]
  exact lists_encode h.wellFormed _

theorem listing (h : ServesReaders pcsc ctx w names entries) :
    ∃ w', PcscCpp.listing pcsc ctx w = (.returned (Listing.buffer pcsc ctx w,
      fillReaderStates (askedStates names) entries), w') := by
  by_cases hempty : names = []
  · subst hempty
    rw [listing_names h.measured h.listed, getReaderStates_lists h.lists]
    exact ⟨_, rfl⟩
  · obtain ⟨hsuccess, hentries⟩ := h.filled hempty
    rw [listing_names h.measured h.listed, getReaderStates_lists h.lists, if_neg hempty,
      Action.bind_assoc, Action.bind_returned (scardCall_success hsuccess), ← hentries]
    exact ⟨_, rfl⟩

end ServesReaders

/-- Every reader of the second list is returned, in the same order and with its own data. -/
theorem listReaders_readers {pcsc : Service σ} {p : Process σ} {names : List StringT}
    {entries : List ScardReaderState}
    (hsuccess : (pcsc p.world.service (.establishContext scardScopeUser)).1.result = scardSSuccess)
    (hvalue : (establishedContext pcsc p.world).value ≠ 0)
    (h : ServesReaders pcsc (establishedContext pcsc p.world)
      (p.world.after pcsc (.establishContext scardScopeUser)) names entries) :
    ∃ readers p', listReaders pcsc p = (.returned readers, p') ∧
      readers.map (·.name) = names ∧
      List.Forall₂ (fun reader entry => reader.Shows entry) readers entries := by
  obtain ⟨w', hlisting⟩ := h.listing
  obtain ⟨contexts, hrun⟩ := listReaders_returned (Context.new_established hsuccess hvalue) hvalue
    hlisting (fillReaderStates_atr (askedStates_atr names) h.atrFits)
  rw [readers_eq h.lists h.entryEach] at hrun
  refine ⟨_, _, hrun, ?_, ?_⟩
  · rw [List.map_map]
    exact List.map_fst_zip (Nat.le_of_eq h.entryEach.symm)
  · conv => rhs; rw [← List.map_snd_zip (Nat.le_of_eq h.entryEach)]
    rw [List.forall₂_map_left_iff, List.forall₂_map_right_iff, List.forall₂_same]
    exact fun e _ =>
      ⟨rfl, flagSetFromReaderState_unaware _, fun _ => flagSetFromReaderState_status _⟩

def twoEntries : List ScardReaderState :=
  [⟨0, 0, 0x0122, 2, [0x3b, 0x80, 0x00]⟩, ⟨0, 0, 0x0012, 0, [0x00]⟩]

def readerDisappears : Service Unit
  | _, .establishContext _ => ({ Reply.done with handle := 1 }, ())
  | _, .listReaders _ none => ({ Reply.done with length := 9 }, ())
  | _, .listReaders _ (some _) => (.ofBytes [0x52, 0x31, 0x00, 0x53, 0x00, 0x00], ())
  | _, .getStatusChange _ _ _ => ({ Reply.done with readerStates := twoEntries }, ())
  | _, _ => (.done, ())

theorem listReaders_readers_disappeared :
    ∃ readers p', listReaders readerDisappears ⟨⟨(), []⟩, Heap.empty⟩ = (.returned readers, p') ∧
      readers.map (·.name) = [[0x52, 0x31], [0x53]] ∧
      List.Forall₂ (fun reader entry => reader.Shows entry) readers twoEntries := by
  refine listReaders_readers rfl (by decide) ?_
  exact {
    measured := ⟨rfl, by decide⟩
    listed := rfl
    written := rfl
    fits := by decide
    wellFormed := by decide
    filled := fun _ => ⟨rfl, rfl⟩
    entryEach := rfl
    atrFits := by decide }

end PcscCpp

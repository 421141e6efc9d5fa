import PcscCpp.Effects.Loop
import PcscCpp.Formats.MultiString
import PcscCpp.Model.ListReaders

namespace PcscCpp

open Effects MultiString

variable {W : Type} {readerNames l rest : StringT} {name : StringT} {names : List StringT}
  {p fuel : Nat}

theorem strlen_string (h : (readerNames ++ [0]).drop p = name ++ 0 :: rest) (hz : 0 ∉ name) :
    strlen readerNames p = name.length := by
  rw [strlen, h, takeWhile_string hz]

def scanLoop (readerNames : StringT) : Nat → Nat × List Nat → Action Exception W (Nat × List Nat) :=
  Action.loop
    (fun s => do
      let c ← Action.index (readerNames ++ [0]) s.1
      pure (c != 0))
    (readerNamePass readerNames)

theorem getReaderNamePointerList_eq (readerNames : StringT) :
    (getReaderNamePointerList readerNames : Action Exception W (List Nat)) =
      if readerNames = [] then pure []
      else scanLoop readerNames (readerNames.length + 1) (0, []) >>= fun s => pure s.2 := rfl

theorem index_of_drop {c : ByteType} (h : (readerNames ++ [0]).drop p = c :: rest) :
    (Action.index (readerNames ++ [0]) p : Action Exception W ByteType) = pure c := by
  have hindex := @Action.index_drop Exception W ByteType (readerNames ++ [0]) p 0
  rw [h, Action.index_cons_zero, Nat.add_zero] at hindex
  exact hindex.symm

def scanCondition (readerNames : StringT) (s : Nat × List Nat) : Action Exception W Bool := do
  let c ← Action.index (readerNames ++ [0]) s.1
  pure (c != 0)

theorem scanCondition_stop (h : (readerNames ++ [0]).drop p = 0 :: rest) (pointers : List Nat) :
    (scanCondition readerNames (p, pointers) : Action Exception W Bool) = pure false := by
  rw [scanCondition, index_of_drop h, Action.pure_bind]
  rfl

theorem scanCondition_overrun (h : (readerNames ++ [0]).length ≤ p) (pointers : List Nat) :
    (scanCondition readerNames (p, pointers) : Action Exception W Bool) = Action.undefined := by
  rw [scanCondition, Action.index_of_le h, Action.undefined_bind]

theorem scanCondition_string (h : (readerNames ++ [0]).drop p = name ++ 0 :: rest)
    (hne : name ≠ []) (hz : 0 ∉ name) (pointers : List Nat) :
    (scanCondition readerNames (p, pointers) : Action Exception W Bool) = pure true := by
  obtain ⟨c, cs, rfl⟩ := List.exists_cons_of_ne_nil hne
  have hc : (c != 0) = true := bne_iff_ne.mpr (List.ne_of_not_mem_cons hz).symm
  rw [scanCondition, index_of_drop h, Action.pure_bind, hc]

theorem readerNamePass_string (h : (readerNames ++ [0]).drop p = name ++ 0 :: rest)
    (hz : 0 ∉ name) (pointers : List Nat) :
    (readerNamePass readerNames (p, pointers) : Action Exception W (Nat × List Nat)) =
      pure (p + (name.length + 1), pointers ++ [p]) := by
  rw [readerNamePass, strlen_string h hz]

theorem scanLoop_stop (h : (readerNames ++ [0]).drop p = 0 :: rest) (pointers : List Nat) :
    (scanLoop readerNames fuel (p, pointers) : Action Exception W (Nat × List Nat)) =
      pure (p, pointers) :=
  Action.loop_of_false fuel (scanCondition_stop h pointers)

theorem scanLoop_overrun (h : (readerNames ++ [0]).length ≤ p) (pointers : List Nat) :
    (scanLoop readerNames fuel (p, pointers) : Action Exception W (Nat × List Nat)) =
      Action.undefined :=
  Action.loop_of_undefined fuel (scanCondition_overrun h pointers)

theorem scanLoop_string (h : (readerNames ++ [0]).drop p = name ++ 0 :: rest) (hne : name ≠ [])
    (hz : 0 ∉ name) (pointers : List Nat) :
    (scanLoop readerNames (fuel + 1) (p, pointers) : Action Exception W (Nat × List Nat)) =
      scanLoop readerNames fuel (p + (name.length + 1), pointers ++ [p]) := by
  have hpass := @Action.loop_of_true Exception W _ _ (readerNamePass readerNames) _ fuel
    (scanCondition_string h hne hz pointers)
  rw [readerNamePass_string h hz, Action.pure_bind] at hpass
  exact hpass

theorem drop_string (h : (readerNames ++ [0]).drop p = name ++ 0 :: rest) :
    (readerNames ++ [0]).drop (p + (name.length + 1)) = rest := by
  rw [← List.drop_drop, h]
  simp

theorem scanLoop_lists (h : Lists 0 l names) (hl : (readerNames ++ [0]).drop p = l ++ [0])
    (hfuel : names.length ≤ fuel) (pointers : List Nat) :
    ∃ q, (scanLoop readerNames fuel (p, pointers) : Action Exception W (Nat × List Nat)) =
      pure (q, pointers ++ starts p names) := by
  induction h generalizing p fuel pointers with
  | done => exact ⟨p, by rw [scanLoop_stop hl, starts, List.append_nil]⟩
  | stop rest => exact ⟨p, by rw [scanLoop_stop hl, starts, List.append_nil]⟩
  | @string name rest names hne hz _ ih =>
    rw [List.append_assoc, List.cons_append] at hl
    obtain ⟨fuel, rfl⟩ : ∃ n, fuel = n + 1 := Nat.exists_eq_succ_of_ne_zero (by
      rw [List.length_cons] at hfuel
      omega)
    obtain ⟨q, hq⟩ := ih (drop_string hl) (Nat.le_of_succ_le_succ hfuel) (pointers ++ [p])
    exact ⟨q, by rw [scanLoop_string hl hne hz, hq, List.append_assoc, starts]; rfl⟩

theorem scanLoop_overruns (h : Overruns 0 l) (hl : (readerNames ++ [0]).drop p = l ++ [0])
    (hfuel : l.length ≤ fuel) (pointers : List Nat) :
    (scanLoop readerNames fuel (p, pointers) : Action Exception W (Nat × List Nat)) =
      Action.undefined := by
  induction h generalizing p fuel pointers with
  | @last name hne hz =>
    have hpos : 0 < name.length := List.length_pos_iff.mpr hne
    obtain ⟨fuel, rfl⟩ : ∃ n, fuel = n + 1 := Nat.exists_eq_succ_of_ne_zero (by omega)
    rw [scanLoop_string hl hne hz]
    exact scanLoop_overrun (List.drop_eq_nil_iff.mp (drop_string hl)) _
  | @string name rest hne hz _ ih =>
    rw [List.append_assoc, List.cons_append] at hl
    simp only [List.length_append, List.length_cons] at hfuel
    obtain ⟨fuel, rfl⟩ : ∃ n, fuel = n + 1 := Nat.exists_eq_succ_of_ne_zero (by omega)
    rw [scanLoop_string hl hne hz]
    exact ih (drop_string hl) (by omega) _

theorem getReaderNamePointerList_lists (h : Lists 0 readerNames names) :
    (getReaderNamePointerList readerNames : Action Exception W (List Nat)) =
      pure (starts 0 names) := by
  rw [getReaderNamePointerList_eq]
  split_ifs with hempty
  · have := h.length_le
    rw [hempty] at this
    rw [List.eq_nil_of_length_eq_zero (Nat.le_zero.mp this), starts]
  · obtain ⟨q, hq⟩ : ∃ q, (scanLoop readerNames (readerNames.length + 1) (0, []) :
        Action Exception W (Nat × List Nat)) = pure (q, [] ++ starts 0 names) :=
      scanLoop_lists h List.drop_zero (Nat.le_succ_of_le h.length_le) []
    rw [hq, Action.pure_bind, List.nil_append]

theorem getReaderNamePointerList_overruns (h : Overruns 0 readerNames) :
    (getReaderNamePointerList readerNames : Action Exception W (List Nat)) = Action.undefined := by
  rw [getReaderNamePointerList_eq, if_neg h.ne_nil, scanLoop_overruns h List.drop_zero
    (Nat.le_succ _), Action.undefined_bind]

def scanTests (readerNames : StringT) : Nat → Nat × List Nat → W → List (Nat × List Nat) :=
  Action.tests (scanCondition readerNames) (readerNamePass readerNames)

/-- The indices into `c_str()` that the scan reads: the character that it tests, and from
there on, if it is not NUL, what `strlen` reads up to the next NUL. -/
def scanReads (readerNames : StringT) (w : W) : List Nat :=
  if readerNames = [] then []
  else (scanTests readerNames (readerNames.length + 1) (0, []) w).flatMap fun s =>
    List.range' s.1 (strlen readerNames s.1 + 1)

section Reads

variable {w : W} {pointers : List Nat}

theorem strlen_le (hp : p ≤ readerNames.length) :
    p + strlen readerNames p ≤ readerNames.length := by
  have hle : strlen readerNames p ≤ (readerNames.drop p).length := by
    rw [strlen, List.drop_append_of_le_length hp, List.takeWhile_append]
    split_ifs
    · simp
    · exact (List.takeWhile_sublist _).length_le
  rw [List.length_drop] at hle
  omega

theorem length_of_drop (h : (readerNames ++ [0]).drop p = l ++ [0]) :
    p + l.length = readerNames.length := by
  have hlength := congrArg List.length h
  simp only [List.length_drop, List.length_append, List.length_singleton] at hlength
  omega

theorem scanTests_lists (h : Lists 0 l names) (hl : (readerNames ++ [0]).drop p = l ++ [0]) :
    ∀ s ∈ scanTests readerNames fuel (p, pointers) w, s.1 ≤ readerNames.length := by
  have hp := length_of_drop hl
  induction h generalizing p fuel pointers with
  | done | stop =>
    rw [scanTests, Action.tests_of_false fuel (scanCondition_stop hl pointers)]
    simpa using Nat.le.intro hp
  | @string name rest names hne hz _ ih =>
    rw [List.append_assoc, List.cons_append] at hl
    have hrest := drop_string hl
    cases fuel with
    | zero => simpa [scanTests, Action.tests] using Nat.le.intro hp
    | succ fuel =>
      rw [scanTests, Action.tests_of_true fuel (scanCondition_string hl hne hz pointers)
        (readerNamePass_string hl hz pointers), List.forall_mem_cons]
      exact ⟨Nat.le.intro hp, ih hrest (length_of_drop hrest)⟩

theorem scanTests_overruns (h : Overruns 0 l) (hl : (readerNames ++ [0]).drop p = l ++ [0])
    (hfuel : l.length ≤ fuel) :
    ∃ s ∈ scanTests readerNames fuel (p, pointers) w, s.1 = readerNames.length + 1 := by
  induction h generalizing p fuel pointers with
  | @last name hne hz =>
    have hp := length_of_drop hl
    have hpos : 0 < name.length := List.length_pos_iff.mpr hne
    obtain ⟨fuel, rfl⟩ : ∃ n, fuel = n + 1 := Nat.exists_eq_succ_of_ne_zero (by omega)
    have hbehind := scanCondition_overrun (W := W) (List.drop_eq_nil_iff.mp (drop_string hl))
      (pointers ++ [p])
    rw [scanTests, Action.tests_of_true fuel (scanCondition_string hl hne hz pointers)
      (readerNamePass_string hl hz pointers), Action.tests_of_undefined fuel hbehind]
    refine ⟨_, List.mem_cons_of_mem _ List.mem_cons_self, ?_⟩
    omega
  | @string name rest hne hz _ ih =>
    rw [List.append_assoc, List.cons_append] at hl
    simp only [List.length_append, List.length_cons] at hfuel
    obtain ⟨fuel, rfl⟩ : ∃ n, fuel = n + 1 := Nat.exists_eq_succ_of_ne_zero (by omega)
    rw [scanTests, Action.tests_of_true fuel (scanCondition_string hl hne hz pointers)
      (readerNamePass_string hl hz pointers)]
    have hrest : rest.length ≤ fuel := by omega
    obtain ⟨s, hs, hbehind⟩ := ih (drop_string hl) hrest
    exact ⟨s, List.mem_cons_of_mem _ hs, hbehind⟩

theorem scanReads_lists (h : Lists 0 readerNames names) :
    ∀ i ∈ scanReads readerNames w, i ≤ readerNames.length := by
  intro i hi
  rw [scanReads] at hi
  split_ifs at hi with hempty
  · cases hi
  · obtain ⟨s, hs, hi⟩ := List.mem_flatMap.mp hi
    have hread := strlen_le (scanTests_lists h List.drop_zero s hs)
    rw [List.mem_range'_1] at hi
    omega

theorem scanReads_overruns (h : Overruns 0 readerNames) :
    readerNames.length + 1 ∈ scanReads readerNames w := by
  obtain ⟨s, hs, hbehind⟩ : ∃ s ∈ scanTests readerNames (readerNames.length + 1) (0, []) w,
      s.1 = readerNames.length + 1 := scanTests_overruns h List.drop_zero (Nat.le_succ _)
  rw [scanReads, if_neg h.ne_nil]
  refine List.mem_flatMap.mpr ⟨s, hs, ?_⟩
  rw [hbehind, List.mem_range'_1]
  omega

end Reads

/-- The scan stays within `c_str()`, and ends, exactly when the buffer is terminated; then it
finds where the segments before the first empty one begin. -/
theorem getReaderNamePointerList_safe_iff (readerNames : StringT) (w : W) :
    ((∀ i ∈ scanReads readerNames w, i ≤ readerNames.length) ↔ Terminated 0 readerNames) ∧
    ((∃ pointers w', getReaderNamePointerList readerNames w = (.returned pointers, w')) ↔
      Terminated 0 readerNames) ∧
    (Terminated 0 readerNames → getReaderNamePointerList readerNames w =
      (.returned (starts 0 ((readerNames.splitOn 0).takeWhile (· ≠ []))), w)) := by
  rcases terminated_cases 0 readerNames with ⟨hterminated, names, h⟩ | ⟨hnot, h⟩
  · have hrun : getReaderNamePointerList readerNames w =
        (.returned (starts 0 ((readerNames.splitOn 0).takeWhile (· ≠ []))), w) := by
      rw [h.splitOn, getReaderNamePointerList_lists h, Action.pure_apply]
    exact ⟨iff_of_true (scanReads_lists h) hterminated, iff_of_true ⟨_, w, hrun⟩ hterminated,
      fun _ => hrun⟩
  · have hrun : getReaderNamePointerList readerNames w = (.undefined, w) := by
      rw [getReaderNamePointerList_overruns h, Action.undefined_apply]
    refine ⟨iff_of_false (fun hreads => ?_) hnot, iff_of_false ?_ hnot, fun h => absurd h hnot⟩
    · exact Nat.not_succ_le_self _ (hreads _ (scanReads_overruns h))
    · rintro ⟨pointers, w', hreturned⟩
      rw [hrun] at hreturned
      cases hreturned

end PcscCpp

import PcscCpp.Formats.ByteOrder
import PcscCpp.Formats.Tlv
import PcscCpp.Model.SmartCard

namespace PcscCpp

open Effects ByteOrder

variable {σ : Type}

theorem getLsbD_byteMask (i : Nat) :
    (UInt32.toBitVec 0xff00).getLsbD i = (decide (8 ≤ i) && decide (i < 16)) := by
  rcases Nat.lt_or_ge i 32 with h | h
  · revert i
    decide
  · rw [BitVec.getLsbD_of_ge _ _ h]
    simp
    omega

theorem getLsbD_ntohl (value : UInt32) {i : Nat} (hi : i < 32) :
    (ntohl value).toBitVec.getLsbD i = value.toBitVec.getLsbD (swapped i) := by
  have h24 : (UInt32.toBitVec 24 % 32).toNat = 24 := rfl
  have h8 : (UInt32.toBitVec 8 % 32).toNat = 8 := rfl
  simp only [ntohl, UInt32.toBitVec_or, UInt32.toBitVec_and, UInt32.toBitVec_shiftLeft,
    UInt32.toBitVec_shiftRight, BitVec.shiftLeft_eq', BitVec.ushiftRight_eq', h24, h8,
    BitVec.getLsbD_or, BitVec.getLsbD_and, BitVec.getLsbD_shiftLeft, BitVec.getLsbD_ushiftRight,
    getLsbD_byteMask, swapped]
  have hbyte : i / 8 = 0 ∨ i / 8 = 1 ∨ i / 8 = 2 ∨ i / 8 = 3 := by omega
  rcases hbyte with h | h | h | h
  · grind
  · grind
  · grind
  · grind

theorem ntohl_littleEndian (v : UInt32) : ntohl (littleEndian (bigEndianBytes v) 4) = v := by
  apply UInt32.eq_of_toBitVec_eq
  apply BitVec.eq_of_getLsbD_eq
  intro i hi
  rw [getLsbD_ntohl _ hi, getLsbD_littleEndian_bigEndianBytes v hi]

namespace CardImpl

variable {feature : ByteVector} {p : Nat}

theorem readValue_succ (feature : ByteVector) (p n : Nat) :
    (readValue feature p (n + 1) : Program σ (Nat × UInt32)) =
      readValue feature p n >>= fun s => Action.index feature s.1 >>= fun byte =>
        if 8 * n < 32 then pure (s.1 + 1, s.2 ||| byte.toUInt32 <<< (8 * n).toUInt32)
        else Action.undefined := by
  rw [readValue, List.range_succ, List.foldlM_append]
  simp only [List.foldlM_cons, List.foldlM_nil, bind_pure]
  rfl

theorem readValue_eq (hp : p ≤ feature.length) (n : Nat) :
    (readValue feature p n : Program σ (Nat × UInt32)) =
      if n ≤ 4 ∧ p + n ≤ feature.length then pure (p + n, littleEndian (feature.drop p) n)
      else Action.undefined := by
  induction n with
  | zero => simp [readValue, littleEndian, hp]
  | succ n ih =>
    rw [readValue_succ, ih]
    by_cases hn : n ≤ 4 ∧ p + n ≤ feature.length
    · rw [if_pos hn, Action.pure_bind]
      rcases Nat.lt_or_ge (p + n) feature.length with hlt | hge
      · have hiff : 8 * n < 32 ↔ n + 1 ≤ 4 ∧ p + (n + 1) ≤ feature.length := by omega
        have hbyte : (feature.drop p).getD n 0 = feature[p + n] := by
          rw [List.getD_eq_getElem?_getD, List.getElem?_drop, List.getElem?_eq_getElem hlt,
            Option.getD_some]
        rw [Action.index_of_lt hlt, Action.pure_bind, littleEndian, hbyte]
        simp only [hiff, Nat.add_assoc]
      · rw [Action.index_of_le hge, Action.undefined_bind, if_neg (by omega)]
    · rw [if_neg hn, Action.undefined_bind, if_neg (by omega)]

theorem readRecord_eq (hp : p ≤ feature.length) (features : Features) :
    (readRecord feature (p, features) : Program σ (Nat × Features)) =
      match Tlv.first (feature.drop p) with
      | some r => if r.value.length ≤ 4 then
          pure (p + r.bytes.length, Function.update features r.tag
            (some (ntohl (littleEndian r.value r.value.length))))
        else Action.undefined
      | none => Action.undefined := by
  have hlen : (feature.drop p).length = feature.length - p := List.length_drop
  have hrest : feature.drop (p + 2) = (feature.drop p).drop 2 := by rw [List.drop_drop]
  rw [readRecord, ← Nat.add_zero p, ← Action.index_drop, Nat.add_zero, ← Action.index_drop]
  rcases hdrop : feature.drop p with _ | ⟨tag, _ | ⟨length, rest⟩⟩
  · simp [Tlv.first]
  · simp [Tlv.first]
  · rw [hdrop] at hlen hrest
    simp only [List.length_cons] at hlen
    simp only [Action.index_cons_zero, Action.index_cons_succ, Action.pure_bind, Tlv.first]
    rw [readValue_eq (by omega), hrest]
    by_cases hwhole : length.toNat ≤ rest.length
    · have htake : (rest.take length.toNat).length = length.toNat := by
        rw [List.length_take]
        omega
      have hvalue := littleEndian_take (Nat.le_refl length.toNat) rest
      have hiff : length.toNat ≤ 4 ∧ p + 2 + length.toNat ≤ feature.length ↔
          length.toNat ≤ 4 := by omega
      simp only [hiff, if_pos hwhole, Tlv.Record.length_bytes, htake, hvalue, List.drop_succ_cons,
        List.drop_zero]
      split_ifs
      · rw [Action.pure_bind, Nat.add_assoc, Nat.add_comm 2]
      · rfl
    · rw [if_neg hwhole, if_neg (by omega)]
      rfl

def featureLoop (feature : ByteVector) (size fuel : Nat) :
    Nat × Features → Program σ (Nat × Features) :=
  Action.loop (fun s => pure (decide (s.1 < size))) (readRecord feature) fuel

section FeatureLoop

variable {size fuel : Nat}

theorem featureLoop_exit (fuel : Nat) (h : size ≤ p) (features : Features) :
    (featureLoop feature size fuel (p, features) : Program σ (Nat × Features)) =
      pure (p, features) :=
  Action.loop_of_false fuel (congrArg pure (decide_eq_false (Nat.not_lt.mpr h)))

theorem featureLoop_pass (h : p < size) (features : Features) :
    (featureLoop feature size (fuel + 1) (p, features) : Program σ (Nat × Features)) =
      readRecord feature (p, features) >>= featureLoop feature size fuel := by
  rw [featureLoop, Action.loop]
  simp only [h, decide_true, Action.pure_bind, ↓reduceIte]
  rfl

theorem featureLoop_ends (hp : p ≤ feature.length) (hfuel : size - p ≤ fuel)
    (features : Features) :
    (Tlv.Covers 4 (feature.drop p) (size - p) →
      ∃ s, (featureLoop feature size fuel (p, features) : Program σ (Nat × Features)) = pure s) ∧
    (¬ Tlv.Covers 4 (feature.drop p) (size - p) →
      (featureLoop feature size fuel (p, features) : Program σ (Nat × Features)) =
        Action.undefined) := by
  induction fuel generalizing p features with
  | zero =>
    have hdone : size - p = 0 := by omega
    rw [featureLoop_exit 0 (by omega), hdone]
    exact ⟨fun _ => ⟨_, rfl⟩, fun h => absurd (Tlv.covers_zero _ _) h⟩
  | succ fuel ih =>
    rcases Nat.lt_or_ge p size with hlt | hge
    · rw [featureLoop_pass hlt, readRecord_eq hp, Tlv.covers_iff (by omega)]
      cases hfirst : Tlv.first (feature.drop p) with
      | none => exact ⟨(fun ⟨_, h, _⟩ => by cases h), fun _ => rfl⟩
      | some r =>
        have hwhole := (Tlv.first_eq_some.mp hfirst).length_le
        rw [List.length_drop] at hwhole
        simp only [Option.some.injEq, exists_eq_left', List.drop_drop, Nat.sub_sub]
        by_cases hr : r.value.length ≤ 4
        · simp only [hr, true_and, ↓reduceIte, Action.pure_bind]
          rw [Tlv.Record.length_bytes] at hwhole
          exact ih (by rw [Tlv.Record.length_bytes]; omega)
            (by rw [Tlv.Record.length_bytes]; omega) _
        · exact ⟨fun h => absurd h.1 hr, fun _ => by rw [if_neg hr, Action.undefined_bind]⟩
    · have hdone : size - p = 0 := by omega
      rw [featureLoop_exit _ hge, hdone]
      exact ⟨fun _ => ⟨_, rfl⟩, fun h => absurd (Tlv.covers_zero _ _) h⟩

theorem readFeatures_eq (feature : ByteVector) (size fuel : Nat) :
    (readFeatures feature size fuel : Program σ Features) =
      featureLoop feature size fuel (0, fun _ => none) >>= fun s => pure s.2 := rfl

theorem readFeatures_ends (feature : ByteVector) (hfuel : size ≤ fuel) :
    (Tlv.Covers 4 feature size →
      ∃ features, (readFeatures feature size fuel : Program σ Features) = pure features) ∧
    (¬ Tlv.Covers 4 feature size →
      (readFeatures feature size fuel : Program σ Features) = Action.undefined) := by
  obtain ⟨hcovers, hnot⟩ := featureLoop_ends (σ := σ) (Nat.zero_le feature.length)
    (Nat.le_trans (Nat.sub_le size 0) hfuel) fun _ => none
  rw [readFeatures_eq]
  refine ⟨fun h => ?_, fun h => ?_⟩
  · obtain ⟨s, hs⟩ := hcovers h
    exact ⟨s.2, by rw [hs, Action.pure_bind]⟩
  · rw [hnot h, Action.undefined_bind]

/-- The loop always ends.  It stays within the buffer and shifts by less than 32 exactly
when whole records of at most four value bytes cover the reported size. -/
theorem readFeatures_safe_iff (feature : ByteVector) (size : Nat) (w : World σ) :
    (∀ fuel, size ≤ fuel → (readFeatures feature size fuel w).1 ≠ .running) ∧
    ((∀ fuel, size ≤ fuel → (readFeatures feature size fuel w).1 ≠ .undefined) ↔
      Tlv.Covers 4 feature size) := by
  by_cases h : Tlv.Covers 4 feature size
  · have hrun : ∀ fuel, size ≤ fuel →
        ∃ features, readFeatures feature size fuel w = (.returned features, w) := by
      intro fuel hfuel
      obtain ⟨features, hfeatures⟩ := (readFeatures_ends (σ := σ) feature hfuel).1 h
      exact ⟨features, by rw [hfeatures, Action.pure_apply]⟩
    refine ⟨fun fuel hfuel => ?_, iff_of_true (fun fuel hfuel => ?_) h⟩
    · obtain ⟨features, hfeatures⟩ := hrun fuel hfuel
      simp [hfeatures]
    · obtain ⟨features, hfeatures⟩ := hrun fuel hfuel
      simp [hfeatures]
  · have hrun : ∀ fuel, size ≤ fuel → readFeatures feature size fuel w = (.undefined, w) := by
      intro fuel hfuel
      rw [(readFeatures_ends feature hfuel).2 h, Action.undefined_apply]
    refine ⟨fun fuel hfuel => ?_, iff_of_false (fun hsafe => ?_) h⟩
    · simp [hrun fuel hfuel]
    · exact hsafe size (Nat.le_refl size) (by rw [hrun size (Nat.le_refl size)])

set_option maxRecDepth 2000 in
theorem readFeatures_shifts_by_width :
    (readFeatures ([0x06, 0x05] ++ List.replicate 254 0) 7 7 (⟨(), []⟩ : World Unit)).1 =
      .undefined := rfl

end FeatureLoop

def featureRequest (cardHandle : ScardHandle) : Call :=
  .control cardHandle cmIoctlGetFeatureRequest [] 256

def featureBuffer (r : Reply) : ByteVector := r.fill (List.replicate 256 0)

theorem featureBuffer_ofBytes {bytes : ByteVector} (h : bytes.length ≤ 256) :
    bytes <+: featureBuffer (.ofBytes bytes) := by
  have htake : bytes.take 256 = bytes := List.take_of_length_le h
  refine ⟨(List.replicate 256 0).drop bytes.length, ?_⟩
  rw [featureBuffer, Reply.fill, List.length_replicate]
  change bytes ++ _ = bytes.take 256 ++ _
  rw [htake]
  rfl

section New

variable {pcsc : Service σ} {cardParams : ScardHandle × Dword} {fuel : Nat} {w : World σ}

theorem new_eq (fuel : Nat) :
    new pcsc fuel cardParams =
      tryCatch (scardCall pcsc "CardImpl" "src/SmartCard.cpp" 88 (featureRequest cardParams.1) >>=
          fun reply => readFeatures (featureBuffer reply) reply.length fuel)
        (fun e => if e.type.isA .scardError then pure fun _ => none else throw e) >>=
      fun features => pure ⟨cardParams.1, ⟨cardParams.2, 16⟩, features⟩ := by
  simp only [new, featureRequest, List.length_replicate]
  rfl

theorem new_of_failure
    (h : (pcsc w.service (featureRequest cardParams.1)).1.result ≠ scardSSuccess) :
    new pcsc fuel cardParams w =
      (.returned ⟨cardParams.1, ⟨cardParams.2, 16⟩, fun _ => none⟩,
        w.after pcsc (featureRequest cardParams.1)) := by
  rw [new_eq]
  refine Action.bind_returned ?_
  rw [Action.tryCatch_apply, Action.bind_threw (scardCall_failure h)]
  simp only [scardErrorType_isA, ↓reduceIte]
  rfl

theorem new_of_features {features : Features}
    (h : (pcsc w.service (featureRequest cardParams.1)).1.result = scardSSuccess)
    (hfeatures : (readFeatures (featureBuffer (pcsc w.service (featureRequest cardParams.1)).1)
      (pcsc w.service (featureRequest cardParams.1)).1.length fuel : Program σ Features) =
        pure features) :
    new pcsc fuel cardParams w =
      (.returned ⟨cardParams.1, ⟨cardParams.2, 16⟩, features⟩,
        w.after pcsc (featureRequest cardParams.1)) := by
  rw [new_eq]
  refine Action.bind_returned ?_
  rw [Action.tryCatch_apply, Action.bind_returned (scardCall_success h), hfeatures]
  rfl

end New

theorem readerHasPinPad_false (card : CardImpl) :
    card.readerHasPinPad false = true ↔
      (card.features featureVerifyPinStart).isSome = true ∨
        (card.features featureVerifyPinDirect).isSome = true := by
  simp [readerHasPinPad]

end CardImpl

end PcscCpp

import Mathlib.Data.List.Induction
import PcscCpp.Laws.Connecting
import PcscCpp.Laws.Features

namespace PcscCpp

open Effects ByteOrder

variable {σ : Type}

def paddedValue (value : List UInt8) : List UInt8 := value ++ List.replicate (4 - value.length) 0

theorem paddedValue_getD {value : List UInt8} (h : value.length ≤ 4) {k : Nat} (hk : k < 4) :
    (paddedValue value).getD k 0 = value.getD k 0 := by
  rw [paddedValue, List.getD_eq_getElem?_getD, List.getD_eq_getElem?_getD, List.getElem?_append]
  split_ifs with hlt
  · rfl
  · rw [List.getElem?_replicate, if_pos (by omega), List.getElem?_eq_none (by omega)]
    rfl

theorem length_paddedValue {value : List UInt8} (h : value.length ≤ 4) :
    (paddedValue value).length = 4 := by
  rw [paddedValue, List.length_append, List.length_replicate]
  omega

theorem ntohl_littleEndian_padded {value : List UInt8} (h : value.length ≤ 4) :
    ntohl (littleEndian value value.length) = littleEndian (paddedValue value).reverse 4 := by
  have hlen := length_paddedValue h
  apply UInt32.eq_of_toBitVec_eq
  apply BitVec.eq_of_getLsbD_eq
  intro i hi
  have hdiv : swapped i / 8 = 3 - i / 8 := by
    unfold swapped
    omega
  have hmod : swapped i % 8 = i % 8 := by
    unfold swapped
    omega
  have hbyte : (paddedValue value).reverse.getD (i / 8) 0 = value.getD (3 - i / 8) 0 := by
    rw [List.getD_eq_getElem?_getD, List.getElem?_reverse (by omega), hlen,
      ← List.getD_eq_getElem?_getD, Nat.sub_sub, Nat.add_comm 1, ← Nat.sub_sub,
      paddedValue_getD h (by omega), Nat.sub_right_comm]
  rw [getLsbD_ntohl _ hi, getLsbD_littleEndian _ h, getLsbD_littleEndian _ (Nat.le_refl 4), hdiv,
    hmod, hbyte]
  rcases Nat.lt_or_ge (3 - i / 8) value.length with hin | hout
  · have hbit : swapped i < 8 * value.length := by
      unfold swapped
      omega
    simp [hbit, hi]
  · have hzero : value.getD (3 - i / 8) 0 = 0 := by
      rw [List.getD_eq_getElem?_getD, List.getElem?_eq_none hout]
      rfl
    rw [hzero]
    simp

/-- The control code of a record: its value as a big-endian number of 32 bits, with zeros for
the bytes that are missing at its end. -/
def featureCode (r : Tlv.Record) : UInt32 :=
  (bigEndianNat r.value * 256 ^ (4 - r.value.length)).toUInt32

theorem featureCode_eq {r : Tlv.Record} (h : r.value.length ≤ 4) :
    ntohl (littleEndian r.value r.value.length) = featureCode r := by
  rw [ntohl_littleEndian_padded h, littleEndian_reverse (length_paddedValue h), paddedValue,
    bigEndianNat_zeros]
  rfl

def featureTable (rs : List Tlv.Record) : Features := fun tag =>
  (rs.filter (·.tag = tag)).getLast?.map featureCode

def storeCode (features : Features) (r : Tlv.Record) : Features :=
  Function.update features r.tag (some (featureCode r))

theorem featureTable_concat (rs : List Tlv.Record) (r : Tlv.Record) :
    featureTable (rs ++ [r]) = storeCode (featureTable rs) r := by
  funext tag
  unfold storeCode
  by_cases htag : tag = r.tag
  · subst htag
    rw [Function.update_self, featureTable, List.filter_append, List.filter_singleton]
    simp
  · rw [Function.update_of_ne htag, featureTable, List.filter_append, List.filter_singleton]
    simp [featureTable, Ne.symm htag]

theorem foldl_featureTable (rs : List Tlv.Record) :
    rs.foldl storeCode (fun _ => none) = featureTable rs := by
  induction rs using List.reverseRecOn with
  | nil => rfl
  | append_singleton rs r ih => rw [List.foldl_concat, ih, featureTable_concat]

namespace CardImpl

variable {feature : ByteVector} {size fuel : Nat} {rs : List Tlv.Record}

theorem featureLoop_reads {l : List UInt8} {rest p : Nat} (hreads : Tlv.Reads l rest rs)
    (hl : l = feature.drop p) (hrest : rest = size - p) (hp : p ≤ feature.length)
    (hlimit : ∀ r ∈ rs, r.value.length ≤ 4) (hfuel : rs.length ≤ fuel) (features : Features) :
    (featureLoop feature size fuel (p, features) : Program σ (Nat × Features)) =
      pure (p + (Tlv.serialize rs).length, rs.foldl storeCode features) := by
  induction hreads generalizing p fuel features with
  | done l =>
    rw [featureLoop_exit fuel (by omega)]
    rfl
  | @record l rest r rs next more _ ih =>
    obtain ⟨fuel, rfl⟩ := Nat.exists_eq_add_of_le' (Nat.one_le_of_lt hfuel)
    obtain ⟨hr, hlimits⟩ := List.forall_mem_cons.mp hlimit
    have hlen := (Tlv.first_eq_some.mp next).length_le
    have hbytes := Tlv.Record.length_bytes r
    rw [hl, List.length_drop] at hlen
    rw [hl] at next
    rw [featureLoop_pass (by omega), readRecord_eq hp, next]
    simp only [hr, ↓reduceIte, Action.pure_bind, featureCode_eq hr]
    rw [ih (by rw [hl, List.drop_drop]) (by omega) (by omega) hlimits (by simpa using hfuel),
      Tlv.serialize_cons, List.length_append, Nat.add_assoc, List.foldl_cons]
    rfl

def Collects (feature : ByteVector) (p size : Nat) (features features' : Features) : Prop :=
  ∃ rs, Tlv.Reads (feature.drop p) (size - p) rs ∧ (∀ r ∈ rs, r.value.length ≤ 4) ∧
    features' = rs.foldl storeCode features

theorem collects_exit (h : size ≤ p) (features : Features) :
    Collects feature p size features features := by
  rw [Collects, Nat.sub_eq_zero_of_le h]
  exact ⟨[], .done _, by simp, rfl⟩

theorem featureLoop_collects {features : Features} {s : Nat × Features} {w w' : World σ}
    (hp : p ≤ feature.length)
    (h : featureLoop feature size fuel (p, features) w = (.returned s, w')) :
    Collects feature p size features s.2 := by
  induction fuel generalizing p features with
  | zero =>
    rcases Nat.lt_or_ge p size with hlt | hge
    · simp [featureLoop, Action.loop, hlt] at h
    · rw [featureLoop_exit 0 hge] at h
      cases h
      exact collects_exit hge features
  | succ fuel ih =>
    rcases Nat.lt_or_ge p size with hlt | hge
    · rw [featureLoop_pass hlt, readRecord_eq hp] at h
      cases hfirst : Tlv.first (feature.drop p) with
      | none => simp [hfirst] at h
      | some r =>
        have hwhole := (Tlv.first_eq_some.mp hfirst).length_le
        rw [List.length_drop] at hwhole
        simp only [hfirst] at h
        split_ifs at h with hr
        · rw [Action.pure_bind, featureCode_eq hr] at h
          obtain ⟨rs, hreads, hlimits, htable⟩ := ih (by omega) h
          rw [← List.drop_drop, ← Nat.sub_sub] at hreads
          exact ⟨r :: rs, .record hfirst (by omega) hreads, by simpa using ⟨hr, hlimits⟩, htable⟩
        · simp at h
    · rw [featureLoop_exit _ hge] at h
      cases h
      exact collects_exit hge features

theorem readFeatures_reads (hreads : Tlv.Reads feature size rs)
    (hlimit : ∀ r ∈ rs, r.value.length ≤ 4) (hfuel : rs.length ≤ fuel) :
    (readFeatures feature size fuel : Program σ Features) = pure (featureTable rs) := by
  rw [readFeatures_eq, featureLoop_reads hreads rfl (Nat.sub_zero size).symm (Nat.zero_le _) hlimit
    hfuel, Action.pure_bind, foldl_featureTable]

theorem readFeatures_returned {features : Features} {w w' : World σ}
    (h : readFeatures feature size fuel w = (.returned features, w')) :
    ∃ rs, Tlv.Reads feature size rs ∧ (∀ r ∈ rs, r.value.length ≤ 4) ∧
      features = featureTable rs := by
  rw [readFeatures_eq] at h
  obtain ⟨s, w₁, hloop, hpure⟩ := Action.bind_eq_returned.mp h
  obtain ⟨rs, hreads, hlimits, htable⟩ := featureLoop_collects (Nat.zero_le _) hloop
  cases hpure
  exact ⟨rs, hreads, hlimits, by rw [htable, foldl_featureTable]⟩

end CardImpl

/-- What a reported list holds: the records that begin before its end.  The last one may
reach beyond it. -/
structure FeatureList (reply : Reply) (rs : List Tlv.Record) : Prop where
  front : Tlv.serialize rs <+: CardImpl.featureBuffer reply
  reaches : reply.length ≤ (Tlv.serialize rs).length
  begins : ∀ pre r post, rs = pre ++ r :: post → (Tlv.serialize pre).length < reply.length
  fits : ∀ r ∈ rs, r.value.length ≤ 4

theorem featureList_iff {reply : Reply} {rs : List Tlv.Record} :
    FeatureList reply rs ↔ Tlv.Reads (CardImpl.featureBuffer reply) reply.length rs ∧
      ∀ r ∈ rs, r.value.length ≤ 4 := by
  rw [Tlv.reads_iff]
  constructor
  · rintro ⟨hfront, hreaches, hbegins, hfits⟩
    exact ⟨⟨hfront, hreaches, hbegins⟩, hfits⟩
  · rintro ⟨⟨hfront, hreaches, hbegins⟩, hfits⟩
    exact ⟨hfront, hreaches, hbegins, hfits⟩

def FeaturesFrom (reply : Reply) (features : Features) : Prop :=
  if reply.result = scardSSuccess then ∃ rs, FeatureList reply rs ∧ features = featureTable rs
  else features = fun _ => none

namespace CardImpl

section New

variable {pcsc : Service σ} {fuel : Nat} {cardParams : ScardHandle × Dword} {w w' : World σ}
  {card : CardImpl}

theorem new_featuresFrom (h : new pcsc fuel cardParams w = (.returned card, w')) :
    w' = w.after pcsc (featureRequest cardParams.1) ∧
      card.cardHandle = cardParams.1 ∧ card.protocol = ⟨cardParams.2, 16⟩ ∧
      FeaturesFrom (pcsc w.service (featureRequest cardParams.1)).1 card.features := by
  rw [FeaturesFrom]
  split_ifs with hresult
  · rw [new_eq] at h
    obtain ⟨features, w₁, hcatch, hpure⟩ := Action.bind_eq_returned.mp h
    cases hpure
    rw [Action.tryCatch_apply, Action.bind_returned (scardCall_success hresult)] at hcatch
    rcases readFeatures_cases (σ := σ)
      (featureBuffer (pcsc w.service (featureRequest cardParams.1)).1)
      (pcsc w.service (featureRequest cardParams.1)).1.length fuel with
      ⟨features', hfeatures⟩ | hfeatures | hfeatures
    · obtain ⟨rs, hreads, hfits, htable⟩ := readFeatures_returned
        (by rw [hfeatures, Action.pure_apply] : readFeatures _ _ _ w = (.returned features', w))
      rw [hfeatures] at hcatch
      cases hcatch
      exact ⟨rfl, rfl, rfl, rs, featureList_iff.mpr ⟨hreads, hfits⟩, htable⟩
    · rw [hfeatures] at hcatch
      cases hcatch
    · rw [hfeatures] at hcatch
      cases hcatch
  · rw [new_of_failure hresult] at h
    cases h
    exact ⟨rfl, rfl, rfl, rfl⟩

/-- A constructor returns exactly the card with the table that the answer gives. -/
theorem new_returned_iff
    (hfuel : (pcsc w.service (featureRequest cardParams.1)).1.length ≤ fuel) :
    new pcsc fuel cardParams w = (.returned card, w') ↔
      w' = w.after pcsc (featureRequest cardParams.1) ∧
      card.cardHandle = cardParams.1 ∧ card.protocol = ⟨cardParams.2, 16⟩ ∧
      FeaturesFrom (pcsc w.service (featureRequest cardParams.1)).1 card.features := by
  refine ⟨new_featuresFrom, ?_⟩
  obtain ⟨cardHandle, protocol, features⟩ := card
  rintro ⟨rfl, rfl, rfl, hfeatures⟩
  rw [FeaturesFrom] at hfeatures
  split_ifs at hfeatures with hresult
  · obtain ⟨rs, hlist, rfl⟩ := hfeatures
    obtain ⟨hreads, hfits⟩ := featureList_iff.mp hlist
    have hpasses := Nat.le_trans hreads.length_le hfuel
    rw [new_of_features hresult (readFeatures_reads hreads hfits hpasses)]
  · obtain rfl := hfeatures
    rw [new_of_failure hresult]

def shortRecords : List Tlv.Record :=
  [⟨featureVerifyPinDirect, [0x42, 0x33], by decide⟩,
    ⟨featureVerifyPinDirect, [0x42, 0x33, 0x00, 0x06], by decide⟩,
    ⟨featureVerifyPinStart, [0x42], by decide⟩]

def shortAnswer : Reply := { Reply.ofBytes (Tlv.serialize shortRecords) with length := 11 }

theorem shortAnswer_list : FeatureList shortAnswer shortRecords where
  front := featureBuffer_ofBytes (by decide)
  reaches := by decide
  begins := by
    intro pre r post hsplit
    have hbegins : ∀ n < 3, (Tlv.serialize (shortRecords.take n)).length < 11 := by decide
    have hlength : 3 = pre.length + (post.length + 1) := by
      simpa [shortRecords] using congrArg List.length hsplit
    have hpre := hbegins pre.length (by omega)
    rwa [hsplit, List.take_left] at hpre
  fits := by decide

theorem new_returned_iff_short :
    new (fun (_ : Unit) _ => (shortAnswer, ())) 11 (⟨1, ⟨1, 0⟩, 1⟩, scardProtocolT1) ⟨(), []⟩ =
      (.returned ⟨⟨1, ⟨1, 0⟩, 1⟩, ⟨scardProtocolT1, 16⟩, featureTable shortRecords⟩,
        ⟨(), [⟨featureRequest ⟨1, ⟨1, 0⟩, 1⟩, shortAnswer⟩]⟩) :=
  (new_returned_iff (Nat.le_refl 11)).mpr
    ⟨rfl, rfl, rfl, (if_pos rfl).mpr ⟨shortRecords, shortAnswer_list, rfl⟩⟩

end New

end CardImpl

/-- A record of the PC/SC feature list: a tag and a control code. -/
structure ControlRecord where
  tag : DriverFeatures
  code : UInt32

namespace ControlRecord

def record (r : ControlRecord) : Tlv.Record :=
  ⟨r.tag, bigEndianBytes r.code, by simp [bigEndianBytes]⟩

def serialize (rs : List ControlRecord) : ByteVector := Tlv.serialize (rs.map record)

def lastCode (rs : List ControlRecord) (tag : DriverFeatures) : Option UInt32 :=
  (rs.filter (·.tag = tag)).getLast?.map (·.code)

theorem lastCode_isSome {rs : List ControlRecord} {tag : DriverFeatures} :
    (lastCode rs tag).isSome = true ↔ ∃ r ∈ rs, r.tag = tag := by
  simp [lastCode]

theorem length_value (r : ControlRecord) : r.record.value.length = 4 := rfl

theorem featureCode_record (r : ControlRecord) : featureCode r.record = r.code := by
  rw [← featureCode_eq (Nat.le_of_eq r.length_value)]
  exact ntohl_littleEndian r.code

theorem featureTable_records (rs : List ControlRecord) (tag : DriverFeatures) :
    featureTable (rs.map record) tag = lastCode rs tag := by
  have hcode : featureCode ∘ record = (·.code) := funext featureCode_record
  rw [featureTable, List.filter_map, List.getLast?_map, Option.map_map, hcode]
  rfl

theorem length_le_four (rs : List ControlRecord) : ∀ r ∈ rs.map record, r.value.length ≤ 4 := by
  simp [length_value]

end ControlRecord

section New

open CardImpl

variable {pcsc : Service σ} {cardParams : ScardHandle × Dword} {w : World σ}
  {rs : List ControlRecord} {fuel : Nat}

/-- A list of control records is read to its end, whatever follows it in the buffer. -/
theorem new_controlRecords
    (hsuccess : (pcsc w.service (featureRequest cardParams.1)).1.result = scardSSuccess)
    (hlength : (pcsc w.service (featureRequest cardParams.1)).1.length =
      (ControlRecord.serialize rs).length)
    (hbytes : ControlRecord.serialize rs <+:
      featureBuffer (pcsc w.service (featureRequest cardParams.1)).1)
    (hfuel : rs.length ≤ fuel) :
    (∃ features : Features,
      Action.loop (fun s => pure (decide (s.1 < (ControlRecord.serialize rs).length)))
          (readRecord (featureBuffer (pcsc w.service (featureRequest cardParams.1)).1)) fuel
          (0, fun _ => none) w =
        (.returned ((ControlRecord.serialize rs).length, features), w) ∧
      ∀ tag, features tag = ControlRecord.lastCode rs tag) ∧
    ∃ card, CardImpl.new pcsc fuel cardParams w =
        (.returned card, w.after pcsc (featureRequest cardParams.1)) ∧
      (∀ tag, card.features tag = ControlRecord.lastCode rs tag) ∧
      (card.readerHasPinPad false = true ↔
        ∃ r ∈ rs, r.tag = featureVerifyPinStart ∨ r.tag = featureVerifyPinDirect) := by
  have hreads := Tlv.reads_serialize hbytes
  have hlimit := ControlRecord.length_le_four rs
  have hpasses : (rs.map ControlRecord.record).length ≤ fuel := by rwa [List.length_map]
  have htable := ControlRecord.featureTable_records rs
  have hloop := featureLoop_reads (σ := σ) hreads List.drop_zero.symm (Nat.sub_zero _).symm
    (Nat.zero_le _) hlimit hpasses fun _ => none
  rw [foldl_featureTable, Nat.zero_add] at hloop
  have hread := readFeatures_reads (σ := σ) hreads hlimit hpasses
  rw [← ControlRecord.serialize, ← hlength] at hread
  refine ⟨⟨_, congrFun hloop w, htable⟩, _, new_of_features hsuccess hread, htable, ?_⟩
  rw [readerHasPinPad_false]
  simp only [htable, ControlRecord.lastCode_isSome, and_or_left, exists_or]

def pinPadRecords : List ControlRecord :=
  [⟨featureVerifyPinStart, 0x42330001⟩, ⟨featureVerifyPinFinish, 0x42330002⟩]

theorem new_controlRecords_pinPad :
    ∃ card, CardImpl.new
          (fun (_ : Unit) _ => (.ofBytes (ControlRecord.serialize pinPadRecords), ())) 2
          (⟨1, ⟨1, 0⟩, 1⟩, scardProtocolT1) ⟨(), []⟩ =
        (.returned card, ⟨(),
          [⟨featureRequest ⟨1, ⟨1, 0⟩, 1⟩, .ofBytes (ControlRecord.serialize pinPadRecords)⟩]⟩) ∧
      card.features featureVerifyPinFinish = some 0x42330002 ∧
      card.readerHasPinPad false = true := by
  obtain ⟨-, card, hrun, htable, hpinPad⟩ := @new_controlRecords Unit
    (fun _ _ => (.ofBytes (ControlRecord.serialize pinPadRecords), ()))
    (⟨1, ⟨1, 0⟩, 1⟩, scardProtocolT1) ⟨(), []⟩ pinPadRecords 2 rfl rfl
    (featureBuffer_ofBytes (by decide)) (Nat.le_refl 2)
  exact ⟨card, hrun, htable _, hpinPad.mpr ⟨_, List.mem_cons_self, .inl rfl⟩⟩

end New

end PcscCpp

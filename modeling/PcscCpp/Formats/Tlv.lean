import Mathlib.Data.List.Basic

namespace Tlv

structure Record where
  tag : UInt8
  value : List UInt8
  length_value : value.length ≤ 255

namespace Record

def bytes (r : Record) : List UInt8 := r.tag :: r.value.length.toUInt8 :: r.value

@[simp] theorem length_bytes (r : Record) : r.bytes.length = r.value.length + 2 := rfl

theorem toNat_length (r : Record) : r.value.length.toUInt8.toNat = r.value.length := by
  have := r.length_value
  simp only [Nat.toUInt8, UInt8.toNat_ofNat']
  omega

end Record

def first : List UInt8 → Option Record
  | [] => none
  | [_] => none
  | tag :: length :: rest =>
    if length.toNat ≤ rest.length then
      some ⟨tag, rest.take length.toNat,
        Nat.le_trans (List.length_take_le _ _) (Nat.le_of_lt_succ length.toNat_lt)⟩
    else none

section First

variable {l rest : List UInt8} {r : Record}

theorem first_append (r : Record) (rest : List UInt8) : first (r.bytes ++ rest) = some r := by
  obtain ⟨tag, value, hvalue⟩ := r
  have hlength := Record.toNat_length ⟨tag, value, hvalue⟩
  simp only at hlength
  simp [Record.bytes, first, hlength]

theorem eq_append_of_first (h : first l = some r) : l = r.bytes ++ l.drop r.bytes.length := by
  rcases l with _ | ⟨tag, _ | ⟨length, rest⟩⟩
  · cases h
  · cases h
  · simp only [first] at h
    split_ifs at h with hle
    cases h
    have htake : (rest.take length.toNat).length = length.toNat := by
      rw [List.length_take]
      omega
    simp [Record.bytes, htake]

theorem first_eq_some : first l = some r ↔ r.bytes <+: l := by
  constructor
  · intro h
    exact ⟨_, (eq_append_of_first h).symm⟩
  · rintro ⟨rest, rfl⟩
    exact first_append r rest

end First

def serialize (rs : List Record) : List UInt8 := rs.flatMap Record.bytes

@[simp] theorem serialize_nil : serialize [] = [] := rfl

@[simp] theorem serialize_cons (r : Record) (rs : List Record) :
    serialize (r :: rs) = r.bytes ++ serialize rs := rfl

theorem serialize_append (rs rs' : List Record) :
    serialize (rs ++ rs') = serialize rs ++ serialize rs' := List.flatMap_append

/-- The buffer starts with whole records that reach at least to `size`, none of them with a
value of more than `limit` bytes. -/
def Covers (limit : Nat) (l : List UInt8) (size : Nat) : Prop :=
  ∃ rs : List Record, (∀ r ∈ rs, r.value.length ≤ limit) ∧ serialize rs <+: l ∧
    size ≤ (serialize rs).length

section Covers

variable {limit size : Nat} {l : List UInt8}

theorem covers_zero (limit : Nat) (l : List UInt8) : Covers limit l 0 :=
  ⟨[], by simp, List.nil_prefix, Nat.zero_le _⟩

theorem covers_iff (hsize : 0 < size) :
    Covers limit l size ↔ ∃ r, first l = some r ∧ r.value.length ≤ limit ∧
      Covers limit (l.drop r.bytes.length) (size - r.bytes.length) := by
  constructor
  · rintro ⟨rs, hlimit, ⟨rest, rfl⟩, hlen⟩
    cases rs with
    | nil => exact absurd hlen (by simp; omega)
    | cons r rs =>
      rw [serialize_cons, List.append_assoc]
      refine ⟨r, first_append r _, hlimit r List.mem_cons_self, rs,
        fun r' hr' => hlimit r' (List.mem_cons_of_mem _ hr'), ?_, ?_⟩
      · rw [List.drop_left]
        exact List.prefix_append _ _
      · rw [serialize_cons, List.length_append] at hlen
        omega
  · rintro ⟨r, hfirst, hr, rs, hlimit, ⟨rest, hrest⟩, hlen⟩
    refine ⟨r :: rs, by simpa using ⟨hr, hlimit⟩, ⟨rest, ?_⟩, ?_⟩
    · rw [serialize_cons, List.append_assoc, hrest, ← eq_append_of_first hfirst]
    · rw [serialize_cons, List.length_append]
      omega

end Covers

/-- A buffer is read record by record as long as less than `size` bytes are behind. -/
inductive Reads : List UInt8 → Nat → List Record → Prop
  | done (l : List UInt8) : Reads l 0 []
  | record {l : List UInt8} {size : Nat} {r : Record} {rs : List Record}
      (next : first l = some r) (more : 0 < size)
      (rest : Reads (l.drop r.bytes.length) (size - r.bytes.length) rs) : Reads l size (r :: rs)

section Reads

variable {limit size : Nat} {l : List UInt8} {rs rs' : List Record}

theorem reads_iff :
    Reads l size rs ↔ serialize rs <+: l ∧ size ≤ (serialize rs).length ∧
      ∀ pre r post, rs = pre ++ r :: post → (serialize pre).length < size := by
  constructor
  · intro h
    induction h with
    | done l => exact ⟨List.nil_prefix, Nat.le_refl 0, by simp⟩
    | @record l size r rs next more rest ih =>
      obtain ⟨⟨suffix, hsuffix⟩, hsize, hbegins⟩ := ih
      refine ⟨⟨suffix, ?_⟩, ?_, fun pre r' post hsplit => ?_⟩
      · rw [serialize_cons, List.append_assoc, hsuffix, ← eq_append_of_first next]
      · rw [serialize_cons, List.length_append]
        omega
      · cases pre with
        | nil => exact more
        | cons r'' pre =>
          obtain ⟨rfl, hrest⟩ := List.cons.inj hsplit
          have := hbegins pre r' post hrest
          rw [serialize_cons, List.length_append]
          omega
  · rintro ⟨⟨suffix, rfl⟩, hsize, hbegins⟩
    induction rs generalizing size with
    | nil =>
      obtain rfl : size = 0 := Nat.le_zero.mp hsize
      exact .done _
    | cons r rs ih =>
      rw [serialize_cons, List.length_append] at hsize
      refine .record (r := r) ?_ (hbegins [] r rs rfl) ?_
      · rw [serialize_cons, List.append_assoc]
        exact first_append r _
      · rw [serialize_cons, List.append_assoc, List.drop_left]
        refine ih (by omega) fun pre r' post hsplit => ?_
        have := hbegins (r :: pre) r' post (congrArg (r :: ·) hsplit)
        rw [serialize_cons, List.length_append] at this
        omega

theorem reads_serialize (h : serialize rs <+: l) : Reads l (serialize rs).length rs := by
  refine reads_iff.mpr ⟨h, Nat.le_refl _, fun pre r post hsplit => ?_⟩
  have hr := r.length_bytes
  rw [hsplit, serialize_append, serialize_cons, List.length_append, List.length_append]
  omega

theorem Reads.length_le (h : Reads l size rs) : rs.length ≤ size := by
  induction h with
  | done l => exact Nat.le_refl 0
  | @record l size r rs next more rest ih =>
    have hr := r.length_bytes
    rw [List.length_cons]
    omega

end Reads

end Tlv

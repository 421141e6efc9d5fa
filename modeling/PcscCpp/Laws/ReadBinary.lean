import PcscCpp.Effects.Blocks
import PcscCpp.Laws.Chaining
import PcscCpp.Model.Utils

namespace PcscCpp

open Effects

variable {σ W : Type} {transmit : CommandApdu → Action Exception W ResponseApdu}

def readCommand (offset length : Nat) : CommandApdu :=
  ⟨0x00, 0xb0, (offset / 256).toUInt8, offset.toUInt8, length.toUInt8.toUInt16, []⟩

def readBlock (transmit : CommandApdu → Action Exception W ResponseApdu) (p : Nat × Nat) :
    Action Exception W ByteVector := do
  let response ← transmit (readCommand p.1 p.2)
  pure response.data

def checkLength (length : Nat) (resultBytes : ByteVector) : Action Exception W ByteVector :=
  if resultBytes.length ≠ length then
    throw (throwWithCallerInfo .error
      ("readBinary(): Invalid length: " ++ toString resultBytes.length)
      "src/utils.cpp" 170 "readBinary")
  else pure resultBytes

/-- The specification of `readBinary`, without machine integers. -/
def readBlocks (transmit : CommandApdu → Action Exception W ResponseApdu)
    (length blockLength : Nat) : Action Exception W ByteVector := do
  let resultBytes ← Action.collect (readBlock transmit) (tiles 0 length blockLength)
  checkLength length resultBytes

theorem hiByte_eq (w : SizeT) : hiByte w = (w.toNat / 256).toUInt8 := by
  apply UInt8.toNat_inj.mp
  simp only [hiByte, UInt64.toNat_toUInt8, UInt64.toNat_and, UInt64.toNat_shiftRight,
    Nat.toUInt8, UInt8.toNat_ofNat', UInt64.reduceToNat, Nat.shiftRight_eq_div_pow,
    Nat.reduceMod, Nat.reducePow]
  rw [Nat.and_two_pow_sub_one_eq_mod _ 8]
  omega

theorem loByte_eq (w : SizeT) : loByte w = w.toNat.toUInt8 := by
  apply UInt8.toNat_inj.mp
  simp only [loByte, UInt64.toNat_toUInt8, UInt64.toNat_and, Nat.toUInt8, UInt8.toNat_ofNat',
    UInt64.reduceToNat]
  rw [Nat.and_two_pow_sub_one_eq_mod _ 8]
  omega

namespace ReadBinary

/-- Holds before every pass: nothing will wrap, and the command is a READ BINARY. -/
structure Ready (s : ReadBinary) : Prop where
  command : s.readBinary.cla = 0x00 ∧ s.readBinary.ins = 0xb0 ∧ s.readBinary.data = []
  block : s.lengthCounter ≠ 0 → s.blockLengthVar ≠ 0
  fits : s.offset.toNat + s.lengthCounter.toNat < 2 ^ 64

variable {s : ReadBinary}

def blockSize (s : ReadBinary) : Nat := min s.blockLengthVar.toNat s.lengthCounter.toNat

def pending (s : ReadBinary) : List (Nat × Nat) :=
  tiles s.offset.toNat s.lengthCounter.toNat s.blockLengthVar.toNat

theorem start_ready {length blockLength : SizeT} (h : length = 0 ∨ blockLength ≠ 0) :
    (start length blockLength).Ready where
  command := ⟨rfl, rfl, rfl⟩
  block hne := h.resolve_left hne
  fits := by simpa [start] using length.toNat_lt

theorem clamp_toNat (s : ReadBinary) :
    (if s.blockLengthVar > s.lengthCounter then s.lengthCounter
      else s.blockLengthVar).toNat = s.blockSize := by
  unfold blockSize
  split_ifs with h
  · rw [Nat.min_eq_right]
    exact Nat.le_of_lt (UInt64.lt_iff_toNat_lt.mp h)
  · rw [Nat.min_eq_left]
    exact Nat.not_lt.mp fun hlt => h (UInt64.lt_iff_toNat_lt.mpr hlt)

section Next

variable {b : SizeT}

theorem offset_add (h : s.Ready) (hb : b.toNat = s.blockSize) :
    (s.offset + b).toNat = s.offset.toNat + s.blockSize := by
  have hle : s.blockSize ≤ s.lengthCounter.toNat := Nat.min_le_right _ _
  have hfits := h.fits
  rw [UInt64.toNat_add, hb]
  omega

theorem lengthCounter_sub (hb : b.toNat = s.blockSize) :
    (s.lengthCounter - b).toNat = s.lengthCounter.toNat - s.blockSize := by
  have hle : s.blockSize ≤ s.lengthCounter.toNat := Nat.min_le_right _ _
  rw [UInt64.toNat_sub_of_le _ _ (UInt64.le_iff_toNat_le.mpr (by rw [hb]; exact hle)), hb]

theorem lengthCounter_eq_zero (h : s.Ready) (hsize : s.blockSize = 0) : s.lengthCounter = 0 := by
  by_contra hne
  have hb0 : s.blockLengthVar.toNat ≠ 0 := fun h0 => h.block hne (UInt64.toNat_inj.mp h0)
  have hn0 : s.lengthCounter.toNat ≠ 0 := fun h0 => hne (UInt64.toNat_inj.mp h0)
  unfold blockSize at hsize
  omega

theorem ready_next (h : s.Ready) (hb : b.toNat = s.blockSize) (resultBytes : ByteVector) :
    (mk (s.offset + b) (s.lengthCounter - b) b resultBytes
      (readCommand s.offset.toNat s.blockSize)).Ready where
  command := ⟨rfl, rfl, rfl⟩
  block hne hzero := by
    have hb0 : b = 0 := hzero
    subst hb0
    refine hne ?_
    simp only [lengthCounter_eq_zero h hb.symm, UInt64.sub_zero]
  fits := by
    have hle : s.blockSize ≤ s.lengthCounter.toNat := Nat.min_le_right _ _
    have hfits := h.fits
    simp only [offset_add h hb, lengthCounter_sub hb]
    omega

end Next

theorem pass_eq (h : s.Ready) :
    ∃ next : ByteVector → ReadBinary,
      pass transmit s = (readBlock transmit (s.offset.toNat, s.blockSize) >>= fun data =>
        pure (next data)) ∧
      ∀ data, (next data).Ready ∧
        (next data).offset.toNat = s.offset.toNat + s.blockSize ∧
        (next data).lengthCounter.toNat = s.lengthCounter.toNat - s.blockSize ∧
        (next data).blockLengthVar.toNat = s.blockSize ∧
        (next data).resultBytes = s.resultBytes ++ data := by
  obtain ⟨hcla, hins, hdata⟩ := h.command
  obtain ⟨b, hb⟩ : ∃ b, b = if s.blockLengthVar > s.lengthCounter then s.lengthCounter
      else s.blockLengthVar := ⟨_, rfl⟩
  have hclamp : b.toNat = s.blockSize := by rw [hb, clamp_toNat]
  have hle : b.toUInt8 = s.blockSize.toUInt8 := by
    rw [← hclamp]
    simp
  refine ⟨fun data => ⟨s.offset + b, s.lengthCounter - b, b, s.resultBytes ++ data,
    readCommand s.offset.toNat s.blockSize⟩, ?_, fun data => ⟨ready_next h hclamp _,
    offset_add h hclamp, lengthCounter_sub hclamp, hclamp, rfl⟩⟩
  rw [pass, ← hb, hiByte_eq, loByte_eq, hle]
  simp only [hcla, hins, hdata, readBlock, Action.bind_assoc, Action.pure_bind]
  rfl

theorem pending_cons (h : s.Ready) (hne : s.lengthCounter ≠ 0) {next : ReadBinary}
    (hoffset : next.offset.toNat = s.offset.toNat + s.blockSize)
    (hcounter : next.lengthCounter.toNat = s.lengthCounter.toNat - s.blockSize)
    (hblock : next.blockLengthVar.toNat = s.blockSize) :
    s.pending = (s.offset.toNat, s.blockSize) :: next.pending := by
  have hb : 0 < s.blockLengthVar.toNat := Nat.pos_of_ne_zero fun h0 =>
    h.block hne (UInt64.toNat_inj.mp h0)
  have hn : 0 < s.lengthCounter.toNat := Nat.pos_of_ne_zero fun h0 => hne (UInt64.toNat_inj.mp h0)
  rw [pending, pending, tiles_cons hb hn, hoffset, hcounter, hblock]
  unfold blockSize
  rcases Nat.le_total s.blockLengthVar.toNat s.lengthCounter.toNat with hle | hle
  · rw [Nat.min_eq_left hle]
  · rw [Nat.min_eq_right hle, Nat.sub_eq_zero_of_le hle, Nat.sub_self, tiles_zero, tiles_zero]

theorem pending_nil (h : s.lengthCounter = 0) : s.pending = [] := by
  rw [pending, h]
  exact tiles_zero _ _

theorem loop_eq_collect (h : s.Ready) {fuel : Nat} (hfuel : s.pending.length ≤ fuel) :
    (Action.loop (fun s => pure (s.lengthCounter != 0)) (pass transmit) fuel s >>= fun s =>
      pure s.resultBytes) =
    Action.collect (readBlock transmit) s.pending >>= fun data =>
      pure (s.resultBytes ++ data) := by
  induction fuel generalizing s with
  | zero =>
    have hzero : s.lengthCounter = 0 := by
      by_contra hne
      obtain ⟨next, -, hnext⟩ := @pass_eq _ transmit _ h
      obtain ⟨-, hoffset, hcounter, hblock, -⟩ := hnext []
      rw [pending_cons h hne hoffset hcounter hblock] at hfuel
      simp at hfuel
    rw [pending_nil hzero, Action.loop_of_false 0 (by simp [hzero])]
    simp [Action.collect]
  | succ fuel ih =>
    by_cases hzero : s.lengthCounter = 0
    · rw [pending_nil hzero, Action.loop_of_false _ (by simp [hzero])]
      simp [Action.collect]
    · obtain ⟨next, hpass, hnext⟩ := @pass_eq _ transmit _ h
      have hcons : ∀ data, s.pending = (s.offset.toNat, s.blockSize) :: (next data).pending :=
        fun data => pending_cons h hzero (hnext data).2.1 (hnext data).2.2.1 (hnext data).2.2.2.1
      have htail : ∀ data, (next data).pending = (next []).pending := fun data =>
        (List.cons.inj ((hcons data).symm.trans (hcons []))).2
      rw [hcons [], Action.collect_cons, Action.loop]
      simp only [bne_iff_ne, ne_eq, hzero, not_false_eq_true, Action.pure_bind,
        ↓reduceIte, hpass, Action.bind_assoc]
      congr 1
      funext data
      rw [ih (hnext data).1 (by rw [hcons data] at hfuel; simpa using hfuel), htail,
        (hnext data).2.2.2.2]
      simp only [List.append_assoc]

theorem loop_unfinished (h : s.Ready) {fuel : Nat} (hfuel : fuel < s.pending.length) (w : W)
    (s' : ReadBinary) (w' : W) :
    Action.loop (fun s => pure (s.lengthCounter != 0)) (pass transmit) fuel s w ≠
      (.returned s', w') := by
  have hne : s.lengthCounter ≠ 0 := by
    intro hzero
    rw [pending_nil hzero] at hfuel
    simp at hfuel
  induction fuel generalizing s w with
  | zero => simp [Action.loop, hne]
  | succ fuel ih =>
    obtain ⟨next, hpass, hnext⟩ := @pass_eq _ transmit _ h
    intro hrun
    rw [Action.loop_pass fuel (by simp [hne]; rfl), hpass, Action.bind_assoc] at hrun
    obtain ⟨data, w₁, -, hrest⟩ := Action.bind_eq_returned.mp hrun
    rw [Action.pure_bind] at hrest
    obtain ⟨hready, hoffset, hcounter, hblock, -⟩ := hnext data
    rw [pending_cons h hne hoffset hcounter hblock] at hfuel
    have hlt : fuel < (next data).pending.length := by simpa using hfuel
    refine ih hready hlt w₁ (fun hzero => ?_) hrest
    rw [pending_nil hzero] at hlt
    simp at hlt

end ReadBinary

section ReadBinary

variable {length blockLength : SizeT} {fuel : Nat}

theorem readBinary_eq_loop (fuel : Nat) (length blockLength : SizeT) :
    readBinary transmit fuel length blockLength =
      (Action.loop (fun s => pure (s.lengthCounter != 0)) (ReadBinary.pass transmit) fuel
        (ReadBinary.start length blockLength) >>= fun s => pure s.resultBytes) >>=
        checkLength length.toNat := by
  simp only [Action.bind_assoc, Action.pure_bind]
  rfl

theorem start_pending (length blockLength : SizeT) :
    (ReadBinary.start length blockLength).pending = tiles 0 length.toNat blockLength.toNat := rfl

theorem readBinary_eq (h : length = 0 ∨ blockLength ≠ 0)
    (hfuel : (tiles 0 length.toNat blockLength.toNat).length ≤ fuel) :
    readBinary transmit fuel length blockLength =
      readBlocks transmit length.toNat blockLength.toNat := by
  rw [readBinary_eq_loop, ReadBinary.loop_eq_collect (ReadBinary.start_ready h) hfuel,
    start_pending]
  simp only [ReadBinary.start, List.nil_append, Action.bind_pure]
  rfl

theorem readBinary_unfinished (h : length = 0 ∨ blockLength ≠ 0)
    (hfuel : fuel < (tiles 0 length.toNat blockLength.toNat).length) (w : W) (data : ByteVector)
    (w' : W) : readBinary transmit fuel length blockLength w ≠ (.returned data, w') := by
  intro hrun
  obtain ⟨s, w₁, hloop, -⟩ := Action.bind_eq_returned.mp hrun
  exact ReadBinary.loop_unfinished (ReadBinary.start_ready h) hfuel w s w₁ hloop

end ReadBinary

end PcscCpp

import Mathlib.Data.List.Basic

namespace Text

/-- What stands between `lead`, with which the text has to begin, and the next `stop`, and what
comes from there on. -/
def field (lead : List Char) (stop : Char) (text : List Char) : Option (List Char × List Char) :=
  if lead.isPrefixOf text then
    some ((text.drop lead.length).takeWhile (· ≠ stop),
      (text.drop lead.length).dropWhile (· ≠ stop))
  else none

theorem field_append {lead content rest : List Char} {stop : Char} (h : ∀ c ∈ content, c ≠ stop)
    (hrest : rest.head? = some stop) :
    field lead stop (lead ++ (content ++ rest)) = some (content, rest) := by
  obtain ⟨rest, rfl⟩ := List.head?_eq_some_iff.mp hrest
  have hall : ∀ c ∈ content, (decide (c ≠ stop)) = true := fun c hc => by simpa using h c hc
  rw [field, if_pos (by simp), List.drop_left, List.takeWhile_append_of_pos hall,
    List.dropWhile_append_of_pos hall]
  simp

def joined (separator : Char) (items : List (List Char)) : List Char :=
  items.foldl (fun text item => if text = [] then item else text ++ separator :: item) []

section Joined

variable {separator : Char} {items : List (List Char)}

theorem foldl_joined {text : List Char} (h : text ≠ []) :
    items.foldl (fun text item => if text = [] then item else text ++ separator :: item) text =
      [separator].intercalate (text :: items) := by
  induction items generalizing text with
  | nil => simp
  | cons item items ih =>
    rw [List.foldl_cons, if_neg h, ih (by simp), List.intercalate_cons_cons]
    cases items with
    | nil => simp
    | cons item' items => simp [List.intercalate_cons_cons]

theorem splitOn_joined (h : ∀ item ∈ items, item ≠ [] ∧ separator ∉ item) (hne : items ≠ []) :
    (joined separator items).splitOn separator = items := by
  cases items with
  | nil => exact absurd rfl hne
  | cons item items =>
    rw [joined, List.foldl_cons, if_pos rfl, foldl_joined (h item List.mem_cons_self).1]
    exact List.splitOn_intercalate separator (fun item' hitem => (h item' hitem).2) hne

end Joined

def digitValue (c : Char) : Option Nat := (List.range 16).find? fun d => d.digitChar = c

theorem digitValue_digitChar {d : Nat} (hd : d < 16) : digitValue d.digitChar = some d := by
  revert d
  decide

def number (digits : List Char) : Option Nat :=
  digits.foldlM (fun n c => (digitValue c).map (16 * n + ·)) 0

theorem number_concat (digits : List Char) (c : Char) :
    number (digits ++ [c]) =
      (number digits).bind fun n => (digitValue c).map (16 * n + ·) := by
  rw [number, List.foldlM_append]
  simp only [List.foldlM_cons, List.foldlM_nil, bind_pure]
  rfl

theorem number_toDigits (n : Nat) : number (Nat.toDigits 16 n) = some n := by
  induction n using Nat.strongRecOn with
  | ind n ih =>
    rcases Nat.lt_or_ge n 16 with hn | hn
    · rw [Nat.toDigits_of_lt_base hn, ← List.nil_append [_], number_concat,
        digitValue_digitChar hn]
      simp [number]
    · rw [Nat.toDigits_of_base_le (by decide) hn, number_concat, ih (n / 16) (by omega),
        digitValue_digitChar (Nat.mod_lt n (by decide))]
      simp [Nat.div_add_mod]

theorem number_leftpad (k : Nat) (digits : List Char) :
    number (digits.leftpad k '0') = number digits := by
  have hzeros : ∀ m, number (List.replicate m '0') = some 0 := by
    intro m
    induction m with
    | zero => rfl
    | succ m ih =>
      rw [List.replicate_succ', number_concat, ih]
      rfl
  have hfold : ∀ m, (List.replicate m '0').foldlM
      (fun n c => (digitValue c).map (16 * n + ·)) 0 = some 0 := hzeros
  rw [number, List.leftpad, List.foldlM_append, hfold]
  rfl

def byteDigits (byte : UInt8) : List Char :=
  [Nat.digitChar (byte.toNat / 16), Nat.digitChar (byte.toNat % 16)]

def bytes : List Char → Option (List UInt8)
  | [] => some []
  | [_] => none
  | high :: low :: digits => do
    let h ← digitValue high
    let l ← digitValue low
    let rest ← bytes digits
    some ((16 * h + l).toUInt8 :: rest)

theorem bytes_byteDigits (bs : List UInt8) : bytes (bs.flatMap byteDigits) = some bs := by
  induction bs with
  | nil => rfl
  | cons b bs ih =>
    have hb := b.toNat_lt
    have hbyte : (16 * (b.toNat / 16) + b.toNat % 16).toUInt8 = b := by
      rw [Nat.div_add_mod, Nat.toUInt8, UInt8.ofNat_toNat]
    rw [List.flatMap_cons, byteDigits, List.cons_append, List.cons_append, List.nil_append, bytes,
      digitValue_digitChar (by omega), digitValue_digitChar (by omega), ih]
    simp only [Option.bind_eq_bind, Option.bind_some, hbyte]

theorem digitChar_ne {d : Nat} (hd : d < 16) {stop : Char} (h : digitValue stop = none) :
    d.digitChar ≠ stop := by
  rintro rfl
  rw [digitValue_digitChar hd] at h
  cases h

theorem byteDigits_ne {bs : List UInt8} {stop : Char} (h : digitValue stop = none) :
    ∀ c ∈ bs.flatMap byteDigits, c ≠ stop := by
  intro c hc
  obtain ⟨b, -, hc⟩ := List.mem_flatMap.mp hc
  have hb := b.toNat_lt
  simp only [byteDigits, List.mem_cons, List.not_mem_nil, or_false] at hc
  rcases hc with rfl | rfl
  · exact digitChar_ne (by omega) h
  · exact digitChar_ne (Nat.mod_lt _ (by decide)) h

theorem toDigits_ne {n : Nat} {stop : Char} (h : digitValue stop = none) :
    ∀ c ∈ Nat.toDigits 16 n, c ≠ stop := by
  induction n using Nat.strongRecOn with
  | ind n ih =>
    intro c hc
    rcases Nat.lt_or_ge n 16 with hn | hn
    · rw [Nat.toDigits_of_lt_base hn, List.mem_singleton] at hc
      rw [hc]
      exact digitChar_ne hn h
    · rw [Nat.toDigits_of_base_le (by decide) hn] at hc
      rcases List.mem_append.mp hc with hc | hc
      · exact ih (n / 16) (by omega) c hc
      · rw [List.mem_singleton.mp hc]
        exact digitChar_ne (Nat.mod_lt n (by decide)) h

end Text

import PcscCpp.Effects.Action
import Mathlib.Algebra.BigOperators.Group.List.Basic
import Mathlib.Algebra.GroupWithZero.Nat
import Mathlib.Algebra.Order.BigOperators.Group.List

namespace Effects

def tiles (off n b : Nat) : List (Nat × Nat) :=
  (List.range ((n + b - 1) / b)).map fun i => (off + i * b, min b (n - i * b))

section Tiles

variable {off n b : Nat}

theorem tiles_zero (off b : Nat) : tiles off 0 b = [] := by
  have hcount : (0 + b - 1) / b = 0 := by
    rcases Nat.eq_zero_or_pos b with rfl | hb
    · rfl
    · exact Nat.div_eq_of_lt (by omega)
  rw [tiles, hcount, List.range_zero, List.map_nil]

theorem tiles_cons (hb : 0 < b) (hn : 0 < n) :
    tiles off n b = (off, min b n) :: tiles (off + b) (n - b) b := by
  have hcount : (n + b - 1) / b = (n - b + b - 1) / b + 1 := by
    rw [← Nat.add_div_right _ hb]
    rcases Nat.le_total b n with h | h
    · congr 1
      omega
    · have hleft : (n + b - 1) / b = 1 := Nat.div_eq_of_lt_le (by omega) (by omega)
      have hright : (n - b + b - 1 + b) / b = 1 := Nat.div_eq_of_lt_le (by omega) (by omega)
      rw [hleft, hright]
  rw [tiles, tiles, hcount, List.range_succ_eq_map, List.map_cons, List.map_map]
  congr 1
  · simp
  · apply List.map_congr_left
    intro i _
    simp only [Function.comp_apply, Nat.succ_eq_add_one, Nat.add_mul, Nat.one_mul,
      Prod.mk.injEq]
    constructor <;> omega

example : tiles 0 300 128 = [(0, 128), (128, 128), (256, 44)] := rfl

theorem tiles_concat (hb : 0 < b) (hn : 0 < n) :
    tiles off n b = tiles off (b * ((n - 1) / b)) b ++
      [(off + b * ((n - 1) / b), n - b * ((n - 1) / b))] := by
  obtain ⟨k, hk⟩ : ∃ k, k = (n - 1) / b := ⟨_, rfl⟩
  have hlow : k * b ≤ n - 1 := by rw [hk]; exact Nat.div_mul_le_self _ _
  have hhigh : n - 1 < k * b + b := by
    have := Nat.lt_div_mul_add (a := n - 1) hb
    rwa [← hk] at this
  have hcount : (n + b - 1) / b = k + 1 := by
    rw [show n + b - 1 = n - 1 + b from by omega, Nat.add_div_right _ hb, ← hk]
  have hinit : (b * k + b - 1) / b = k := by
    rw [Nat.mul_comm]
    exact Nat.div_eq_of_lt_le (by omega) (by rw [Nat.succ_mul]; omega)
  rw [← hk, tiles, tiles, hcount, hinit, List.range_succ, List.map_append, List.map_singleton,
    Nat.mul_comm b k]
  congr 1
  · apply List.map_congr_left
    intro i hi
    have hstep : i * b + b ≤ k * b := by
      rw [← Nat.succ_mul]
      exact Nat.mul_le_mul_right b (List.mem_range.mp hi)
    simp only [Prod.mk.injEq, true_and]
    omega
  · simp only [List.cons.injEq, Prod.mk.injEq, true_and, and_true]
    omega

theorem mem_tiles {p : Nat × Nat} (hp : p ∈ tiles off n b) :
    0 < p.2 ∧ p.2 ≤ b ∧ p.1 ≤ off + b * ((n - 1) / b) ∧ p.1 + p.2 ≤ off + n := by
  obtain ⟨i, hi, rfl⟩ := List.mem_map.mp hp
  rw [List.mem_range] at hi
  have hb : 0 < b := by
    by_contra hb
    obtain rfl : b = 0 := by omega
    simp at hi
  have hn : 0 < n := by
    by_contra hn
    rw [Nat.div_eq_of_lt (by omega)] at hi
    omega
  have hle : i ≤ (n - 1) / b := by
    have hshift : n + b - 1 = n - 1 + b := by omega
    rw [hshift, Nat.add_div_right _ hb] at hi
    omega
  have hmul : i * b ≤ b * ((n - 1) / b) := by
    rw [Nat.mul_comm b]
    exact Nat.mul_le_mul_right b hle
  have hlast : b * ((n - 1) / b) ≤ n - 1 := Nat.mul_div_le _ _
  refine ⟨?_, Nat.min_le_left _ _, by simpa using hmul, ?_⟩
  all_goals simp only
  all_goals omega

theorem flatMap_tiles {α : Type} (hb : 0 < b) (f : List α) (off n : Nat) :
    ((tiles off n b).flatMap fun p => (f.drop p.1).take p.2) = (f.drop off).take n := by
  induction n using Nat.strongRecOn generalizing off with
  | ind n ih =>
    rcases Nat.eq_zero_or_pos n with rfl | hn
    · simp [tiles_zero]
    · rw [tiles_cons hb hn, List.flatMap_cons, ih (n - b) (by omega), ← List.drop_drop]
      rcases Nat.le_total b n with h | h
      · have hsplit : n = b + (n - b) := by omega
        rw [Nat.min_eq_left h]
        conv_rhs => rw [hsplit, List.take_add]
      · rw [Nat.min_eq_right h, Nat.sub_eq_zero_of_le h, List.take_zero, List.append_nil]

theorem length_tiles (off n b : Nat) : (tiles off n b).length = (n + b - 1) / b := by
  rw [tiles, List.length_map, List.length_range]

theorem sum_tiles (hb : 0 < b) (off n : Nat) : ((tiles off n b).map (·.2)).sum = n := by
  induction n using Nat.strongRecOn generalizing off with
  | ind n ih =>
    rcases Nat.eq_zero_or_pos n with rfl | hn
    · simp [tiles_zero]
    · rw [tiles_cons hb hn, List.map_cons, List.sum_cons, ih (n - b) (by omega)]
      simp only
      omega

end Tiles

/-- Pieces that are each no longer than asked for and as long in total are complete. -/
theorem forall₂_length_eq {α β : Type} {R : β → List α → Prop} {size : β → Nat}
    (hR : ∀ b x, R b x → x.length ≤ size b) {l : List β} {pieces : List (List α)}
    (h : List.Forall₂ R l pieces) (hsum : (l.map size).sum ≤ pieces.flatten.length) :
    List.Forall₂ (fun b x => R b x ∧ x.length = size b) l pieces := by
  have hle : ∀ {l : List β} {pieces : List (List α)}, List.Forall₂ R l pieces →
      pieces.flatten.length ≤ (l.map size).sum := by
    intro l pieces h
    induction h with
    | nil => simp
    | cons hx _ ih =>
      have := hR _ _ hx
      simp only [List.flatten_cons, List.length_append, List.map_cons, List.sum_cons]
      omega
  induction h with
  | nil => exact .nil
  | cons hx hrest ih =>
    have hhead := hR _ _ hx
    have htail := hle hrest
    simp only [List.flatten_cons, List.length_append, List.map_cons, List.sum_cons] at hsum
    exact .cons ⟨hx, by omega⟩ (ih (by omega))

theorem sum_of_forall₂_length {α β : Type} {size : β → Nat} {l : List β} {pieces : List (List α)}
    (h : List.Forall₂ (fun b x => x.length = size b) l pieces) :
    pieces.flatten.length = (l.map size).sum := by
  induction h with
  | nil => rfl
  | cons hx _ ih => rw [List.flatten_cons, List.length_append, List.map_cons, List.sum_cons, hx, ih]

theorem flatten_of_forall₂ {α β : Type} {g : β → List α} {l : List β} {pieces : List (List α)}
    (h : List.Forall₂ (fun b x => x = g b) l pieces) : pieces.flatten = l.flatMap g := by
  induction h with
  | nil => rfl
  | cons hx _ ih => rw [List.flatten_cons, List.flatMap_cons, hx, ih]

namespace Action

variable {ε W α β : Type} {f : β → Action ε W (List α)}

theorem collect_cons (b : β) (bs : List β) :
    collect f (b :: bs) = f b >>= fun x => collect f bs >>= fun xs => pure (x ++ xs) := rfl

theorem collect_pieces {I : W → Prop} {P : β → List α → Prop} {l : List β}
    (h : ∀ b ∈ l, ∀ w, I w → ∃ x w', f b w = (.returned x, w') ∧ I w' ∧ P b x) {w : W}
    (hw : I w) :
    ∃ pieces w', collect f l w = (.returned pieces.flatten, w') ∧ I w' ∧
      List.Forall₂ P l pieces := by
  induction l generalizing w with
  | nil => exact ⟨[], w, rfl, hw, .nil⟩
  | cons b l ih =>
    obtain ⟨x, w₁, hx, hw₁, hP⟩ := h b List.mem_cons_self w hw
    obtain ⟨pieces, w₂, hpieces, hw₂, hall⟩ :=
      ih (fun b hb => h b (List.mem_cons_of_mem _ hb)) hw₁
    refine ⟨x :: pieces, w₂, ?_, hw₂, .cons hP hall⟩
    rw [collect_cons, bind_returned hx, bind_returned hpieces]
    rfl

end Action

end Effects

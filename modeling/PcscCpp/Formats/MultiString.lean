import Mathlib.Data.List.Basic

namespace MultiString

variable {α : Type} {z : α} {l rest buffer : List α} {names : List (List α)} {p : Nat}

def encode (z : α) (names : List (List α)) : List α :=
  names.flatMap (fun name => name ++ [z]) ++ [z]

/-- The strings up to the first empty one, which is at the end of the buffer or ends
with a terminator there. -/
inductive Lists (z : α) : List α → List (List α) → Prop
  | done : Lists z [] []
  | stop (rest : List α) : Lists z (z :: rest) []
  | string {name rest : List α} {names : List (List α)} (nonempty : name ≠ [])
      (unterminated : z ∉ name) (h : Lists z rest names) :
      Lists z (name ++ z :: rest) (name :: names)

inductive Overruns (z : α) : List α → Prop
  | last {name : List α} (nonempty : name ≠ []) (unterminated : z ∉ name) : Overruns z name
  | string {name rest : List α} (nonempty : name ≠ []) (unterminated : z ∉ name)
      (h : Overruns z rest) : Overruns z (name ++ z :: rest)

theorem lists_encode (h : ∀ name ∈ names, name ≠ [] ∧ z ∉ name) (tail : List α) :
    Lists z (encode z names ++ tail) names := by
  induction names with
  | nil => exact .stop tail
  | cons name names ih =>
    obtain ⟨hne, hz⟩ := h name List.mem_cons_self
    have hrest := ih fun n hn => h n (List.mem_cons_of_mem name hn)
    have hsplit : encode z (name :: names) ++ tail = name ++ z :: (encode z names ++ tail) := by
      simp [encode]
    rw [hsplit]
    exact .string hne hz hrest

theorem Lists.length_le (h : Lists z l names) : names.length ≤ l.length := by
  induction h with
  | done => exact Nat.le_refl 0
  | stop rest => exact Nat.zero_le _
  | string _ _ _ ih =>
    simp only [List.length_append, List.length_cons]
    omega

theorem lists_nil_iff : Lists z l [] ↔ l = [] ∨ ∃ rest, l = z :: rest := by
  constructor
  · intro h
    cases h with
    | done => exact .inl rfl
    | stop rest => exact .inr ⟨rest, rfl⟩
  · rintro (rfl | ⟨rest, rfl⟩)
    · exact .done
    · exact .stop rest

theorem Lists.eq_nil (h : Lists z l []) (h' : Lists z l names) : names = [] := by
  cases h' with
  | done => rfl
  | stop rest => rfl
  | @string name rest names hne hz _ =>
    obtain ⟨c, cs, rfl⟩ := List.exists_cons_of_ne_nil hne
    rcases lists_nil_iff.mp h with hnil | ⟨_, hcons⟩
    · cases hnil
    · exact absurd ((List.cons.inj hcons).1 ▸ List.mem_cons_self) hz

theorem Overruns.ne_nil (h : Overruns z l) : l ≠ [] := by
  cases h with
  | last nonempty _ => exact nonempty
  | string _ _ _ => simp

theorem lists_or_overruns (z : α) (l : List α) : (∃ names, Lists z l names) ∨ Overruns z l := by
  induction hlen : l.length using Nat.strongRecOn generalizing l with
  | _ n ih =>
    by_cases hmem : z ∈ l
    · obtain ⟨name, rest, rfl, hz⟩ := List.eq_append_cons_of_mem hmem
      by_cases hne : name = []
      · subst hne
        exact .inl ⟨[], .stop rest⟩
      · have hshorter : rest.length < n := by
          simp only [← hlen, List.length_append, List.length_cons]
          omega
        rcases ih rest.length hshorter rest rfl with ⟨names, hrest⟩ | hrest
        · exact .inl ⟨name :: names, .string hne hz hrest⟩
        · exact .inr (.string hne hz hrest)
    · by_cases hne : l = []
      · subst hne
        exact .inl ⟨[], .done⟩
      · exact .inr (.last hne hmem)

/-- The buffer is empty, begins or ends with a terminator, or has two of them in a row. -/
def Terminated (z : α) (l : List α) : Prop :=
  l = [] ∨ l.head? = some z ∨ [z, z] <:+: l ∨ l.getLast? = some z

instance [DecidableEq α] : Decidable (Terminated z l) :=
  inferInstanceAs (Decidable (_ ∨ _ ∨ _ ∨ _))

section Terminated

variable {name : List α}

theorem not_terminated (hne : name ≠ []) (hz : z ∉ name) : ¬ Terminated z name := by
  rintro (h | h | h | h)
  · exact hne h
  · exact hz (List.mem_of_head? h)
  · exact hz (h.subset List.mem_cons_self)
  · exact hz (List.mem_of_getLast? h)

theorem pair_infix_string (hz : z ∉ name) (rest : List α) :
    [z, z] <:+: name ++ z :: rest ↔ rest.head? = some z ∨ [z, z] <:+: rest := by
  induction name with
  | nil =>
    rw [List.nil_append, List.infix_cons_iff, List.cons_prefix_cons,
      List.singleton_prefix_iff_head?_eq_some, and_iff_right rfl]
  | cons c cs ih =>
    obtain ⟨hc, hcs⟩ := List.ne_and_not_mem_of_not_mem_cons hz
    rw [List.cons_append, List.infix_cons_iff, ih hcs, List.cons_prefix_cons, eq_false hc]
    simp

theorem terminated_string (hne : name ≠ []) (hz : z ∉ name) (rest : List α) :
    Terminated z (name ++ z :: rest) ↔ Terminated z rest := by
  have hlast : (name ++ z :: rest).getLast? = some z ↔ rest = [] ∨ rest.getLast? = some z := by
    rw [List.getLast?_append, List.getLast?_cons, Option.some_or]
    cases rest <;> simp [List.getLast?_cons]
  have hhead : (name ++ z :: rest).head? ≠ some z := by
    rw [List.head?_append_of_ne_nil _ hne]
    exact fun h => hz (List.mem_of_head? h)
  rw [Terminated, pair_infix_string hz, hlast, Terminated]
  simp only [List.append_eq_nil_iff, reduceCtorEq, and_false, hhead, false_or]
  rw [or_left_comm, or_assoc]

end Terminated

theorem Lists.terminated (h : Lists z l names) : Terminated z l := by
  induction h with
  | done => exact .inl rfl
  | stop rest => exact .inr (.inl rfl)
  | string hne hz _ ih => exact (terminated_string hne hz _).mpr ih

theorem Overruns.not_terminated (h : Overruns z l) : ¬ Terminated z l := by
  induction h with
  | last hne hz => exact MultiString.not_terminated hne hz
  | string hne hz _ ih => exact fun h => ih ((terminated_string hne hz _).mp h)

theorem Lists.not_overruns (h : Lists z l names) : ¬ Overruns z l :=
  fun h' => h'.not_terminated h.terminated

theorem terminated_cases (z : α) (l : List α) :
    Terminated z l ∧ (∃ names, Lists z l names) ∨ ¬ Terminated z l ∧ Overruns z l := by
  rcases lists_or_overruns z l with ⟨names, h⟩ | h
  · exact .inl ⟨h.terminated, names, h⟩
  · exact .inr ⟨h.not_terminated, h⟩

/-- One more terminator is implied at the end, so a single one there is enough. -/
example : Terminated 0 [5, 0] ∧ ¬ Terminated 0 [5, 0, 6] := by decide

def starts : Nat → List (List α) → List Nat
  | _, [] => []
  | p, name :: names => p :: starts (p + (name.length + 1)) names

@[simp] theorem length_starts (p : Nat) (names : List (List α)) :
    (starts p names).length = names.length := by
  induction names generalizing p with
  | nil => rfl
  | cons name names ih => simp [starts, ih]

section Reading

variable [DecidableEq α]

theorem takeWhile_string {name : List α} (h : z ∉ name) (rest : List α) :
    (name ++ z :: rest).takeWhile (· ≠ z) = name := by
  rw [List.takeWhile_append_of_pos]
  · simp
  · intro c hc
    simpa using fun heq : c = z => h (heq ▸ hc)

theorem Lists.splitOn (h : Lists z l names) : (l.splitOn z).takeWhile (· ≠ []) = names := by
  induction h with
  | done => simp
  | stop rest => simp [List.splitOn_cons_eq_if_modifyHead]
  | @string name rest names hne hz _ ih =>
    rw [List.splitOn_append_cons_self_of_not_mem hz,
      List.takeWhile_cons_of_pos (by simpa using hne), ih]

theorem Lists.map_starts (h : Lists z l names) (hl : buffer.drop p = l ++ [z]) :
    (starts p names).map (fun i => (buffer.drop i).takeWhile (· ≠ z)) = names := by
  induction h generalizing p with
  | done => rfl
  | stop rest => rfl
  | @string name rest names _ hz _ ih =>
    have hrest : buffer.drop (p + (name.length + 1)) = rest ++ [z] := by
      rw [← List.drop_drop, hl]
      simp
    rw [starts, List.map_cons, ih hrest, hl, List.append_assoc, List.cons_append,
      takeWhile_string hz]

end Reading

end MultiString

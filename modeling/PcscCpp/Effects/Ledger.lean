import Mathlib.Data.List.Perm.Basic

namespace Effects

variable {E R : Type}

structure Ledger (E R : Type) where
  /-- What an event at a place of the log opens. -/
  opens : Nat → E → Option R
  closes : E → Option R
  place : R → Nat
  place_of_opens : ∀ n e r, opens n e = some r → place r = n
  opens_of_closes : ∀ n e r, closes e = some r → opens n e = none

namespace Ledger

variable {L : Ledger E R} {log new : List E} {e : E} {r r' : R} {held held' : List R}

def Opened (L : Ledger E R) (r : R) (log : List E) : Prop :=
  ∃ e, log[L.place r]? = some e ∧ L.opens (L.place r) e = some r

def closings [DecidableEq R] (L : Ledger E R) (r : R) (log : List E) : Nat :=
  log.countP fun e => L.closes e = some r

structure Quiet (L : Ledger E R) (e : E) : Prop where
  opens : ∀ n, L.opens n e = none
  closes : L.closes e = none

theorem not_opened_nil (r : R) : ¬ L.Opened r [] := by
  rintro ⟨e, he, -⟩
  cases he

theorem Opened.place_lt (h : L.Opened r log) : L.place r < log.length := by
  obtain ⟨e, he, -⟩ := h
  exact (List.getElem?_eq_some_iff.mp he).1

theorem Opened.append (h : L.Opened r log) (new : List E) : L.Opened r (log ++ new) := by
  obtain ⟨e, he, ho⟩ := h
  exact ⟨e, by rw [List.getElem?_append_left (List.getElem?_eq_some_iff.mp he).1, he], ho⟩

theorem opened_concat :
    L.Opened r (log ++ [e]) ↔ L.Opened r log ∨ L.opens log.length e = some r := by
  constructor
  · rintro ⟨e', he', ho⟩
    rcases Nat.lt_or_ge (L.place r) log.length with hlt | hge
    · rw [List.getElem?_append_left hlt] at he'
      exact .inl ⟨e', he', ho⟩
    · have hplace : L.place r = log.length := by
        have := (List.getElem?_eq_some_iff.mp he').1
        simp only [List.length_append, List.length_singleton] at this
        omega
      rw [hplace, List.getElem?_concat_length, Option.some.injEq] at he'
      exact .inr (by rw [← hplace, he', ho])
  · rintro (h | ho)
    · exact h.append [e]
    · have hplace := L.place_of_opens _ _ _ ho
      exact ⟨e, by rw [hplace, List.getElem?_concat_length], by rw [hplace, ho]⟩

theorem opened_append (h : ∀ e ∈ new, ∀ n, L.opens n e = none) :
    L.Opened r (log ++ new) ↔ L.Opened r log := by
  induction new generalizing log with
  | nil => rw [List.append_nil]
  | cons e new ih =>
    have hfirst := h e List.mem_cons_self log.length
    rw [List.append_cons, ih fun e' he' => h e' (List.mem_cons_of_mem e he'), opened_concat,
      hfirst]
    simp

section Closings

variable [DecidableEq R]

theorem closings_concat :
    L.closings r (log ++ [e]) = L.closings r log + if L.closes e = some r then 1 else 0 := by
  simp [closings, List.countP_cons]

/-- Of all that was opened only what is held has not been closed, and that exactly once. -/
structure Holds (L : Ledger E R) (held : List R) (log : List E) : Prop where
  nodup : held.Nodup
  opened : ∀ r ∈ held, L.Opened r log
  closed : ∀ r, L.Opened r log → L.closings r log = if r ∈ held then 0 else 1
  known : ∀ r, L.closings r log ≠ 0 → L.Opened r log

namespace Holds

theorem nil : L.Holds [] [] where
  nodup := List.nodup_nil
  opened := by simp
  closed r h := absurd h (not_opened_nil r)
  known r h := absurd rfl h

theorem perm (h : L.Holds held log) (hp : held.Perm held') : L.Holds held' log where
  nodup := hp.nodup_iff.mp h.nodup
  opened r hr := h.opened r (hp.mem_iff.mpr hr)
  closed r hr := by simp only [h.closed r hr, hp.mem_iff]
  known := h.known

theorem fresh (h : L.Holds held log) (ho : L.opens log.length e = some r) :
    ¬ L.Opened r log ∧ L.closings r log = 0 := by
  have hnot : ¬ L.Opened r log := fun hr => by
    have hlt := hr.place_lt
    rw [L.place_of_opens _ _ _ ho] at hlt
    exact Nat.lt_irrefl _ hlt
  exact ⟨hnot, by_contra fun hc => hnot (h.known r hc)⟩

theorem quiet (h : L.Holds held log) (hnew : ∀ e ∈ new, L.Quiet e) :
    L.Holds held (log ++ new) := by
  have hopened : ∀ r, L.Opened r (log ++ new) ↔ L.Opened r log := fun r =>
    opened_append fun e he => (hnew e he).opens
  have hclosings : ∀ r, L.closings r (log ++ new) = L.closings r log := by
    intro r
    have hnone : new.countP (fun e => L.closes e = some r) = 0 :=
      List.countP_eq_zero.mpr fun e he => by simp [(hnew e he).closes]
    rw [closings, List.countP_append, hnone]
    rfl
  exact ⟨h.nodup, fun r hr => (hopened r).mpr (h.opened r hr),
    fun r hr => by rw [hclosings, h.closed r ((hopened r).mp hr)],
    fun r hr => (hopened r).mpr (h.known r (hclosings r ▸ hr))⟩

theorem opening (h : L.Holds held log) (ho : L.opens log.length e = some r) :
    L.Holds (r :: held) (log ++ [e]) := by
  obtain ⟨hnot, hzero⟩ := h.fresh ho
  have hcloses : ∀ r', L.closes e ≠ some r' := fun r' hc => by
    rw [L.opens_of_closes _ _ _ hc] at ho
    cases ho
  have hclosings : ∀ r', L.closings r' (log ++ [e]) = L.closings r' log := fun r' => by
    rw [closings_concat, if_neg (hcloses r'), Nat.add_zero]
  refine ⟨List.nodup_cons.mpr ⟨fun hr => hnot (h.opened r hr), h.nodup⟩, fun r' hr' => ?_,
    fun r' hr' => ?_, fun r' hr' => (h.known r' (hclosings r' ▸ hr')).append _⟩
  · rcases List.mem_cons.mp hr' with rfl | hr'
    · exact opened_concat.mpr (.inr ho)
    · exact (h.opened r' hr').append _
  · rw [hclosings]
    rcases opened_concat.mp hr' with hr' | hr'
    · have hne : r' ≠ r := fun heq => hnot (heq ▸ hr')
      rw [h.closed r' hr']
      simp [hne]
    · obtain rfl := Option.some.inj (ho.symm.trans hr')
      simp [hzero]

theorem closing (h : L.Holds (r :: held) log) (hc : L.closes e = some r) :
    L.Holds held (log ++ [e]) := by
  have hopened : ∀ r', L.Opened r' (log ++ [e]) ↔ L.Opened r' log := fun r' => by
    rw [opened_concat, L.opens_of_closes _ _ _ hc]
    simp
  obtain ⟨hr, hnodup⟩ := List.nodup_cons.mp h.nodup
  refine ⟨hnodup, fun r' hr' => (h.opened r' (List.mem_cons_of_mem r hr')).append _,
    fun r' hr' => ?_, fun r' hr' => ?_⟩
  · rw [closings_concat, h.closed r' ((hopened r').mp hr'), hc]
    by_cases hne : r' = r
    · subst hne
      simp [hr]
    · simp [hne, Ne.symm hne]
  · rw [closings_concat, hc] at hr'
    by_cases hne : r' = r
    · subst hne
      exact (h.opened r' List.mem_cons_self).append _
    · rw [if_neg (by simpa using Ne.symm hne), Nat.add_zero] at hr'
      exact (h.known r' hr').append _

end Holds

end Closings

end Ledger

end Effects

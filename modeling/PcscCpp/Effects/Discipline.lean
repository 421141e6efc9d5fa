import PcscCpp.Effects.Ledger
import PcscCpp.Effects.Trace
import Mathlib.Data.List.Induction
import Mathlib.Logic.Function.Basic

namespace Effects

variable {E R K : Type}

namespace Ledger

variable {L : Ledger E R} {uses : E → Option R} {log new : List E} {e : E} {r : R}
  {held : List R} [DecidableEq R]

structure Live (L : Ledger E R) (r : R) (log : List E) : Prop where
  opened : L.Opened r log
  unclosed : L.closings r log = 0

/-- Every event uses only a resource that is open when it happens. -/
def Disciplined (L : Ledger E R) (uses : E → Option R) (log : List E) : Prop :=
  EachAfter (fun pre e => ∀ r ∈ uses e, L.Live r pre) log

theorem Live.append {l : List E} (h : L.Live r log) (hnew : ∀ e ∈ l, L.closes e ≠ some r) :
    L.Live r (log ++ l) where
  opened := h.opened.append l
  unclosed := by
    have hnone : l.countP (fun e => L.closes e = some r) = 0 :=
      List.countP_eq_zero.mpr fun e he => by simpa using hnew e he
    rw [closings, List.countP_append, hnone]
    exact h.unclosed

theorem Live.of_opens (ho : L.opens log.length e = some r) (hclosed : L.closings r log = 0) :
    L.Live r (log ++ [e]) where
  opened := opened_concat.mpr (.inr ho)
  unclosed := by
    have hcloses : L.closes e ≠ some r := fun hc => by
      rw [L.opens_of_closes _ _ _ hc] at ho
      cases ho
    rw [closings_concat, hclosed, if_neg hcloses]

theorem Holds.live_iff (h : L.Holds held log) : L.Live r log ↔ r ∈ held := by
  constructor
  · intro hlive
    by_contra hnot
    have := h.closed r hlive.opened
    rw [hlive.unclosed, if_neg hnot] at this
    cases this
  · intro hr
    exact ⟨h.opened r hr, by rw [h.closed r (h.opened r hr), if_pos hr]⟩

namespace Disciplined

theorem nil : L.Disciplined uses [] := eachAfter_nil _

theorem concat (h : L.Disciplined uses log) (hr : ∀ r ∈ uses e, L.Live r log) :
    L.Disciplined uses (log ++ [e]) :=
  eachAfter_append.mpr ⟨h, eachAfter_singleton.mpr (by simpa using hr)⟩

theorem unused (h : L.Disciplined uses log) (hnew : ∀ e ∈ new, uses e = none) :
    L.Disciplined uses (log ++ new) := by
  refine EachAfter.append_of h fun pre e post hpre r hr => ?_
  rw [hnew e (by simp [hpre])] at hr
  cases hr

theorem live (h : L.Disciplined uses log) (hlive : L.Live r log)
    (hnew : ∀ e ∈ new, (∀ r' ∈ uses e, r' = r) ∧ L.closes e ≠ some r) :
    L.Disciplined uses (log ++ new) := by
  refine EachAfter.append_of h fun pre e post hpre r' hr' => ?_
  rw [(hnew e (by simp [hpre])).1 r' hr']
  exact hlive.append fun x hx => (hnew x (by simp [hpre, hx])).2

end Disciplined

end Ledger

/-- What an event means for the brackets of a key: it opens or closes one, or it may happen
only inside of one. -/
inductive Bracket (K : Type)
  | opens (k : K)
  | closes (k : K)
  | inside (k : K)
  | neutral
  deriving DecidableEq

namespace Bracket

variable [DecidableEq K] {b : Bracket K} {depth : K → Nat} {k k' : K}

def next : Bracket K → (K → Nat) → K → Nat
  | opens k, depth => Function.update depth k (depth k + 1)
  | closes k, depth => Function.update depth k (depth k - 1)
  | _, depth => depth

def Allowed : Bracket K → (K → Nat) → Prop
  | closes k, depth => 0 < depth k
  | inside k, depth => 0 < depth k
  | _, _ => True

instance : (b : Bracket K) → (depth : K → Nat) → Decidable (b.Allowed depth)
  | opens _, _ => isTrue trivial
  | closes k, depth => inferInstanceAs (Decidable (0 < depth k))
  | inside k, depth => inferInstanceAs (Decidable (0 < depth k))
  | neutral, _ => isTrue trivial

def Still : Bracket K → Prop
  | opens _ => False
  | closes _ => False
  | _ => True

theorem next_of_still (h : b.Still) (depth : K → Nat) : b.next depth = depth := by
  cases b <;> first | rfl | exact h.elim

end Bracket

section Brackets

variable [DecidableEq K] {bracket : E → Bracket K} {log new : List E} {e : E} {k : K}
  {depth depth' : K → Nat}

def depthAfter (bracket : E → Bracket K) (log : List E) : K → Nat :=
  log.foldl (fun depth e => (bracket e).next depth) fun _ => 0

def Nested (bracket : E → Bracket K) (log : List E) : Prop :=
  EachAfter (fun pre e => (bracket e).Allowed (depthAfter bracket pre)) log

def openings (bracket : E → Bracket K) (k : K) (log : List E) : Nat :=
  log.countP fun e => bracket e = .opens k

def closings (bracket : E → Bracket K) (k : K) (log : List E) : Nat :=
  log.countP fun e => bracket e = .closes k

theorem depthAfter_concat (log : List E) (e : E) :
    depthAfter bracket (log ++ [e]) = (bracket e).next (depthAfter bracket log) := by
  rw [depthAfter, List.foldl_concat]
  rfl

theorem depthAfter_still (h : ∀ e ∈ new, (bracket e).Still) :
    depthAfter bracket (log ++ new) = depthAfter bracket log := by
  induction new generalizing log with
  | nil => rw [List.append_nil]
  | cons e new ih =>
    rw [List.append_cons, ih fun e' he' => h e' (List.mem_cons_of_mem e he'), depthAfter_concat,
      Bracket.next_of_still (h e List.mem_cons_self)]

theorem nested_nil : Nested bracket [] := eachAfter_nil _

theorem nested_concat :
    Nested bracket (log ++ [e]) ↔
      Nested bracket log ∧ (bracket e).Allowed (depthAfter bracket log) := by
  rw [Nested, eachAfter_append, eachAfter_singleton, List.append_nil]
  rfl

theorem Nested.still (h : Nested bracket log) (hnew : ∀ e ∈ new, (bracket e).Still ∧
    (bracket e).Allowed (depthAfter bracket log)) : Nested bracket (log ++ new) := by
  refine EachAfter.append_of h fun pre e post hpre => ?_
  rw [depthAfter_still fun x hx => (hnew x (by simp [hpre, hx])).1]
  exact (hnew e (by simp [hpre])).2

theorem Nested.openings_eq (h : Nested bracket log) (k : K) :
    openings bracket k log = closings bracket k log + depthAfter bracket log k := by
  induction log using List.reverseRecOn with
  | nil => rfl
  | append_singleton log e ih =>
    obtain ⟨hlog, hallowed⟩ := nested_concat.mp h
    have hcount := ih hlog
    rw [openings, closings] at hcount ⊢
    rw [List.countP_append, List.countP_append, List.countP_singleton, List.countP_singleton,
      depthAfter_concat]
    cases hb : bracket e with
    | opens k' =>
      by_cases hk : k' = k
      · subst hk
        simp [Bracket.next]
        omega
      · simp [Bracket.next, hk, Function.update_of_ne (Ne.symm hk)]
        omega
    | closes k' =>
      by_cases hk : k' = k
      · subst hk
        rw [hb] at hallowed
        have hpos : 0 < depthAfter bracket log k' := hallowed
        simp [Bracket.next]
        omega
      · simp [Bracket.next, hk, Function.update_of_ne (Ne.symm hk)]
        omega
    | inside k' => simpa [Bracket.next] using hcount
    | neutral => simpa [Bracket.next] using hcount

end Brackets

end Effects

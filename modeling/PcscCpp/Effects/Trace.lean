import PcscCpp.Effects.Action

namespace Effects

variable {W E : Type} {log : W → List E}

/-- `w'` has the log of `w` and after it only events that satisfy `S`. -/
def Extends (log : W → List E) (S : E → Prop) (w w' : W) : Prop :=
  ∃ new, log w' = log w ++ new ∧ ∀ e ∈ new, S e

namespace Extends

variable {S S' : E → Prop} {w w' w'' : W}

theorem refl (w : W) : Extends log S w w := ⟨[], by simp, by simp⟩

theorem trans (h : Extends log S w w') (h' : Extends log S w' w'') : Extends log S w w'' := by
  obtain ⟨new, hnew, hS⟩ := h
  obtain ⟨new', hnew', hS'⟩ := h'
  refine ⟨new ++ new', by rw [hnew', hnew, List.append_assoc], ?_⟩
  intro e he
  rcases List.mem_append.mp he with he | he
  · exact hS e he
  · exact hS' e he

theorem mono (hS : ∀ e, S e → S' e) (h : Extends log S w w') : Extends log S' w w' := by
  obtain ⟨new, hnew, h⟩ := h
  exact ⟨new, hnew, fun e he => hS e (h e he)⟩

instance : Std.Refl (Extends log S) := ⟨refl⟩

instance : IsTrans W (Extends log S) := ⟨fun _ _ _ => trans⟩

end Extends

def EachAfter (P : List E → E → Prop) (l : List E) : Prop :=
  ∀ pre e post, l = pre ++ e :: post → P pre e

theorem eachAfter_nil (P : List E → E → Prop) : EachAfter P [] := by
  intro pre e post h
  simp at h

theorem eachAfter_append {P : List E → E → Prop} {l l' : List E} :
    EachAfter P (l ++ l') ↔ EachAfter P l ∧ EachAfter (fun pre e => P (l ++ pre) e) l' := by
  constructor
  · intro h
    refine ⟨fun pre e post hl => h pre e (post ++ l') (by simp [hl]), ?_⟩
    intro pre e post hl
    exact h (l ++ pre) e post (by simp [hl])
  · rintro ⟨hl, hl'⟩ pre e post h
    rcases List.append_eq_append_iff.mp h with ⟨mid, hpre, hpost⟩ | ⟨mid, hpre, hpost⟩
    · rw [hpre]
      exact hl' mid e post hpost
    · cases mid with
      | nil =>
        rw [List.append_nil] at hpre
        subst hpre
        have := hl' [] e post (by simpa using hpost.symm)
        simpa using this
      | cons x mid =>
        obtain ⟨rfl, rfl⟩ := List.cons.inj hpost
        exact hl pre e mid hpre

theorem eachAfter_singleton {P : List E → E → Prop} {e : E} :
    EachAfter P [e] ↔ P [] e := by
  constructor
  · intro h
    exact h [] e [] rfl
  · intro h pre e' post hl
    cases pre with
    | nil => cases hl; exact h
    | cons x pre => simp at hl

theorem eachAfter_concat {P : List E → E → Prop} {l : List E} {e : E} :
    EachAfter P (l ++ [e]) ↔ EachAfter P l ∧ P l e := by
  rw [eachAfter_append, eachAfter_singleton, List.append_nil]

theorem EachAfter.append_of {P : List E → E → Prop} {l l' : List E} (h : EachAfter P l)
    (h' : ∀ pre e post, l' = pre ++ e :: post → P (l ++ pre) e) : EachAfter P (l ++ l') :=
  eachAfter_append.mpr ⟨h, h'⟩

def scan {γ : Type} (f : Option E → E → List γ) : Option E → List E → List γ
  | _, [] => []
  | last, e :: l => f last e ++ scan f (some e) l

theorem scan_concat {γ : Type} (f : Option E → E → List γ) (last : Option E) (l : List E) (e : E) :
    scan f last (l ++ [e]) = scan f last l ++ f (l.getLast?.or last) e := by
  induction l generalizing last with
  | nil => simp [scan]
  | cons e' l ih =>
    rw [List.cons_append, scan, ih, scan, List.append_assoc]
    congr 3
    cases l with
    | nil => rfl
    | cons e'' l =>
      rw [List.getLast?_cons_cons, List.getLast?_cons]
      rfl

def positions (p : E → Bool) (start : Nat) : List E → List Nat
  | [] => []
  | e :: l => if p e then start :: positions p (start + 1) l else positions p (start + 1) l

section Positions

variable {p : E → Bool}

theorem positions_append (start : Nat) (l l' : List E) :
    positions p start (l ++ l') = positions p start l ++ positions p (start + l.length) l' := by
  induction l generalizing start with
  | nil => simp [positions]
  | cons e l ih =>
    simp only [List.cons_append, positions, ih, List.length_cons, Nat.add_right_comm start 1,
      Nat.add_assoc start]
    split_ifs <;> simp

theorem length_positions (start : Nat) (l : List E) :
    (positions p start l).length = l.countP p := by
  induction l generalizing start with
  | nil => rfl
  | cons e l ih =>
    by_cases he : p e <;> simp [positions, he, ih]

theorem positions_eq_nil {l : List E} (start : Nat) (h : ∀ e ∈ l, p e = false) :
    positions p start l = [] := by
  apply List.eq_nil_of_length_eq_zero
  rw [length_positions, List.countP_eq_zero]
  simpa using h

end Positions

end Effects

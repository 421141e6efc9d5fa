import PcscCpp.Effects.Triple

/-! Runs of operations in any order.  An exception is caught by the caller, who goes on;
nothing follows undefined behaviour or an operation that is still running. -/

namespace Effects

variable {ε S O : Type}

def steps (step : O → Action ε S Unit) : List O → S → List (O × S)
  | [], _ => []
  | o :: os, s => (o, s) :: match step o s with
    | (.returned (), s') => steps step os s'
    | (.threw _, s') => steps step os s'
    | _ => []

def states (step : O → Action ε S Unit) (os : List O) (s : S) : List S :=
  s :: (steps step os s).map fun p => (step p.1 p.2).2

/-- The states between the operations, the first and the last one included, as long as
every operation returns or throws. -/
def between (step : O → Action ε S Unit) : List O → S → List S
  | [], s => [s]
  | o :: os, s => s :: match step o s with
    | (.returned (), s') => between step os s'
    | (.threw _, s') => between step os s'
    | _ => []

inductive Outcome.Completes {α : Type} : Outcome ε α → Prop
  | returned (a : α) : Completes (.returned a)
  | threw (e : ε) : Completes (.threw e)

theorem completes_bind {W α β : Type} {x : Action ε W α} {f : α → Action ε W β} {w : W}
    (hx : (x w).1.Completes) (hf : ∀ a w', x w = (.returned a, w') → (f a w').1.Completes) :
    ((x >>= f) w).1.Completes := by
  rw [Action.bind_apply]
  rcases hrun : x w with ⟨a | e | _ | _, w'⟩
  · exact hf a w' hrun
  · exact .threw e
  · rw [hrun] at hx
    cases hx
  · rw [hrun] at hx
    cases hx

theorem Action.Triple.completed {W α : Type} {x : Action ε W α} {I : W → Prop} {w : W}
    (h : Action.Triple I x (fun _ => I) I) (hw : I w) (hx : (x w).1.Completes) : I (x w).2 := by
  rcases hrun : x w with ⟨a | e | _ | _, w'⟩
  · exact h.returned hw hrun
  · exact h.threw hw hrun
  · rw [hrun] at hx
    cases hx
  · rw [hrun] at hx
    cases hx

section Cons

variable {step : O → Action ε S Unit} {o : O} {os : List O} {s : S}

theorem steps_cons (h : (step o s).1.Completes) :
    steps step (o :: os) s = (o, s) :: steps step os (step o s).2 := by
  rcases hrun : step o s with ⟨⟨⟩ | e | _ | _, s'⟩
  · simp [steps, hrun]
  · simp [steps, hrun]
  · rw [hrun] at h
    cases h
  · rw [hrun] at h
    cases h

theorem states_cons (h : (step o s).1.Completes) :
    states step (o :: os) s = s :: states step os (step o s).2 := by
  rw [states, steps_cons h, List.map_cons]
  rfl

theorem steps_cons_of_not (h : ¬ (step o s).1.Completes) : steps step (o :: os) s = [(o, s)] := by
  rcases hrun : step o s with ⟨⟨⟩ | e | _ | _, s'⟩
  · exact absurd (hrun ▸ .returned ()) h
  · exact absurd (hrun ▸ .threw e) h
  · simp [steps, hrun]
  · simp [steps, hrun]

end Cons

section Invariants

variable {step : O → Action ε S Unit} {os : List O} {s : S}

theorem after_mem_states {p : O × S} (hp : p ∈ steps step os s) :
    (step p.1 p.2).2 ∈ states step os s :=
  List.mem_cons_of_mem _ (List.mem_map_of_mem hp)

theorem mem_states_of_mem_steps {p : O × S} (hp : p ∈ steps step os s) :
    p.2 ∈ states step os s := by
  induction os generalizing s with
  | nil => simp [steps] at hp
  | cons o os ih =>
    by_cases hcompletes : (step o s).1.Completes
    · rw [steps_cons hcompletes] at hp
      rw [states_cons hcompletes]
      rcases List.mem_cons.mp hp with rfl | hp
      · exact List.mem_cons_self
      · exact List.mem_cons_of_mem s (ih hp)
    · rw [steps_cons_of_not hcompletes] at hp
      rw [List.mem_singleton.mp hp]
      exact List.mem_cons_self

theorem mem_of_mem_steps {p : O × S} (hp : p ∈ steps step os s) : p.1 ∈ os := by
  induction os generalizing s with
  | nil => simp [steps] at hp
  | cons o os ih =>
    rcases List.mem_cons.mp hp with rfl | hp
    · exact List.mem_cons_self
    · rcases hrun : step o s with ⟨⟨⟩ | e | _ | _, s₁⟩ <;> rw [hrun] at hp
      · exact List.mem_cons_of_mem o (ih hp)
      · exact List.mem_cons_of_mem o (ih hp)
      · cases hp
      · cases hp

theorem states_of_steps {P : S → Prop} (hs : P s)
    (h : ∀ p ∈ steps step os s, P (step p.1 p.2).2) : ∀ s' ∈ states step os s, P s' := by
  intro s' hs'
  rcases List.mem_cons.mp hs' with rfl | hs'
  · exact hs
  · obtain ⟨p, hp, rfl⟩ := List.mem_map.mp hs'
    exact h p hp

theorem steps_invariant {I : S → Prop} {C : O × S → Prop}
    (hstep : ∀ o, Action.Triple (fun s => I s ∧ C (o, s)) (step o) (fun _ => I) I)
    (hC : ∀ p ∈ steps step os s, C p) (hs : I s) : ∀ p ∈ steps step os s, I p.2 := by
  induction os generalizing s with
  | nil => simp [steps]
  | cons o os ih =>
    have hfirst : I s ∧ C (o, s) := ⟨hs, hC _ (by simp [steps])⟩
    rcases hrun : step o s with ⟨⟨⟩ | e | _ | _, s₁⟩ <;>
      simp only [steps, hrun, List.mem_cons, forall_eq_or_imp] at hC ⊢
    · exact ⟨hs, ih hC.2 ((hstep o).returned hfirst hrun)⟩
    · exact ⟨hs, ih hC.2 ((hstep o).threw hfirst hrun)⟩
    · exact ⟨hs, by simp⟩
    · exact ⟨hs, by simp⟩

theorem states_invariant_of_steps {I : S → Prop} {C : O × S → Prop}
    (hstep : ∀ o s, I s → C (o, s) → I (step o s).2) (hC : ∀ p ∈ steps step os s, C p)
    (hs : I s) : ∀ s' ∈ states step os s, I s' := by
  have hI := steps_invariant (fun o s hs => Action.post_of_world (hstep o s hs.1 hs.2)) hC hs
  exact states_of_steps hs fun p hp => hstep p.1 p.2 (hI p hp) (hC p hp)

theorem states_invariant {I : S → Prop} (hstep : ∀ o s, I s → I (step o s).2) (hs : I s) :
    ∀ s' ∈ states step os s, I s' :=
  states_invariant_of_steps (C := fun _ => True) (fun o s hI _ => hstep o s hI)
    (fun _ _ => trivial) hs

/-- What holds at first, and after an operation exactly when that meets `C`, holds in every state
of a run exactly when all operations that are carried out meet `C`. -/
theorem forall_states_iff {I P : S → Prop} {C : O × S → Prop}
    (hI : ∀ o, Action.Triple I (step o) (fun _ => I) I)
    (hstep : ∀ o s, I s → P s → (P (step o s).2 ↔ C (o, s))) (hs : I s) (hP : P s) :
    (∀ s' ∈ states step os s, P s') ↔ ∀ p ∈ steps step os s, C p := by
  induction os generalizing s with
  | nil => simpa [states, steps] using hP
  | cons o os ih =>
    have hfirst := hstep o s hs hP
    by_cases hcompletes : (step o s).1.Completes
    · rw [states_cons hcompletes, steps_cons hcompletes, List.forall_mem_cons,
        List.forall_mem_cons, and_iff_right hP]
      have hnext : I (step o s).2 := (hI o).completed hs hcompletes
      constructor
      · intro h
        have hafter : P (step o s).2 := h _ List.mem_cons_self
        exact ⟨hfirst.mp hafter, (ih hnext hafter).mp h⟩
      · rintro ⟨hmeets, h⟩
        exact (ih hnext (hfirst.mpr hmeets)).mpr h
    · rw [states, steps_cons_of_not hcompletes]
      simpa [hP] using hfirst

theorem filterMap_steps {γ : Type} {I : S → Prop} {f : S → List γ} {g : O × S → Option γ}
    (hkeeps : ∀ o, Action.Triple I (step o) (fun _ => I) I)
    (h : ∀ o s, I s → f (step o s).2 = f s ++ (g (o, s)).toList) (hs : I s) :
    ∀ s' ∈ (states step os s).getLast?, f s' = f s ++ (steps step os s).filterMap g := by
  induction os generalizing s with
  | nil =>
    intro s' hs'
    obtain rfl : s = s' := by simpa [states, steps] using hs'
    simp [steps]
  | cons o os ih =>
    intro s' hs'
    have hfirst := h o s hs
    by_cases hcompletes : (step o s).1.Completes
    · have hnext : I (step o s).2 := (hkeeps o).completed hs hcompletes
      rw [states_cons hcompletes, states, List.getLast?_cons_cons] at hs'
      rw [ih hnext s' hs', hfirst, steps_cons hcompletes, List.append_assoc, List.filterMap_cons]
      cases g (o, s) <;> rfl
    · rw [states, steps_cons_of_not hcompletes] at hs'
      obtain rfl : (step o s).2 = s' := by simpa using hs'
      rw [hfirst, steps_cons_of_not hcompletes, List.filterMap_cons]
      cases g (o, s) <;> rfl

theorem between_invariant {I : S → Prop}
    (hstep : ∀ o, Action.Triple I (step o) (fun _ => I) I) (hs : I s) :
    ∀ s' ∈ between step os s, I s' := by
  induction os generalizing s with
  | nil => simpa [between] using hs
  | cons o os ih =>
    rcases hrun : step o s with ⟨⟨⟩ | e | _ | _, s₁⟩ <;>
      simp only [between, hrun, List.mem_cons, forall_eq_or_imp]
    · exact ⟨hs, ih ((hstep o).returned hs hrun)⟩
    · exact ⟨hs, ih ((hstep o).threw hs hrun)⟩
    · exact ⟨hs, by simp⟩
    · exact ⟨hs, by simp⟩

end Invariants

end Effects

import Mathlib.Data.List.Forall2
import PcscCpp.Effects.Runs

namespace Effects

variable {ε S T O P α β : Type}

def Outcome.goesOn : Outcome ε α → Bool
  | .returned _ => true
  | .threw _ => true
  | .undefined => false
  | .running => false

theorem Outcome.Completes.goesOn {r : Outcome ε α} (h : r.Completes) : r.goesOn = true := by
  cases h <;> rfl

/-- All of the operations are carried out and lead from `s` to `s'`; unless the run goes on from
there, the last one may end in any way. -/
inductive Leads (step : O → Action ε S Unit) : List O → S → Bool → S → Prop
  | done (goesOn : Bool) (s : S) : Leads step [] s goesOn s
  | next {o : O} {os : List O} {s s' : S} {goesOn : Bool} (completes : (step o s).1.Completes)
      (rest : Leads step os (step o s).2 goesOn s') : Leads step (o :: os) s goesOn s'
  | last (o : O) (s : S) : Leads step [o] s false (step o s).2

namespace Leads

variable {step : O → Action ε S Unit} {os os' : List O} {s s' s'' : S} {goesOn : Bool}

theorem stop (h : Leads step os s goesOn s') : Leads step os s false s' := by
  induction h with
  | done => exact .done false _
  | next completes _ ih => exact .next completes ih
  | last o s => exact .last o s

theorem append (h : Leads step os s true s') (h' : Leads step os' s' goesOn s'') :
    Leads step (os ++ os') s goesOn s'' := by
  generalize htrue : true = b at h
  induction h with
  | done => exact h'
  | next completes _ ih => exact .next completes (ih h' htrue)
  | last => cases htrue

theorem operation (o : O) (s : S) : Leads step [o] s (step o s).1.goesOn (step o s).2 := by
  rcases hrun : step o s with ⟨⟨⟩ | e | _ | _, s'⟩
  · exact .next (by rw [hrun]; exact .returned ()) (by rw [hrun]; exact .done _ _)
  · exact .next (by rw [hrun]; exact .threw e) (by rw [hrun]; exact .done _ _)
  · have hlast := @Leads.last _ _ _ step o s
    rwa [hrun] at hlast
  · have hlast := @Leads.last _ _ _ step o s
    rwa [hrun] at hlast

end Leads

/-- The action carries out operations of the script in their order, as far as it gets, and all of
them if it returns. -/
def Follows (step : O → Action ε S Unit) (script : List O) (x : Action ε S α) : Prop :=
  ∀ s, ∃ os, os <+: script ∧ Leads step os s (x s).1.goesOn (x s).2 ∧
    ∀ a, (x s).1 = .returned a → os = script

section Rules

variable {step : O → Action ε S Unit} {script script' : List O}

theorem Follows.bind {x : Action ε S α} {f : α → Action ε S β} (hx : Follows step script x)
    (hf : ∀ a, Follows step script' (f a)) : Follows step (script ++ script') (x >>= f) := by
  intro s
  obtain ⟨os, hos, hleads, hall⟩ := hx s
  have hpart := hos.trans (List.prefix_append script script')
  rw [Action.bind_apply]
  rcases hrun : x s with ⟨a | e | _ | _, s'⟩ <;> rw [hrun] at hleads hall
  · obtain ⟨os', hos', hleads', hall'⟩ := hf a s'
    obtain rfl := hall a rfl
    refine ⟨os ++ os', (List.prefix_append_right_inj os).mpr hos', hleads.append hleads',
      fun b hb => ?_⟩
    rw [hall' b hb]
  · exact ⟨os, hpart, hleads, fun _ h => by cases h⟩
  · exact ⟨os, hpart, hleads, fun _ h => by cases h⟩
  · exact ⟨os, hpart, hleads, fun _ h => by cases h⟩

end Rules

end Effects

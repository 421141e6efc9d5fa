import Mathlib.Logic.Function.Basic
import PcscCpp.Effects.Runs

/-! Two programs side by side, each on a world of its own, and machines made of parts that do
not depend on each other. -/

namespace Effects

variable {ε W V S T U α β γ δ O ι : Type}

inductive Outcome.Alike (Q : α → β → Prop) : Outcome ε α → Outcome ε β → Prop
  | returned {a : α} {b : β} (h : Q a b) : Alike Q (.returned a) (.returned b)
  | threw (e : ε) : Alike Q (.threw e) (.threw e)
  | undefined : Alike Q .undefined .undefined
  | running : Alike Q .running .running

theorem Outcome.Alike.eq {r r' : Outcome ε α} (h : Alike Eq r r') : r = r' := by
  cases h with
  | returned h => rw [h]
  | threw | undefined | running => rfl

namespace Action

/-- From related worlds both programs end alike, in related worlds again. -/
def Simulates (R : W → V → Prop) (Q : α → β → Prop) (x : Action ε W α) (y : Action ε V β) :
    Prop :=
  ∀ w v, R w v → Outcome.Alike Q (x w).1 (y v).1 ∧ R (x w).2 (y v).2

section Rules

variable {R : W → V → Prop} {Q : α → β → Prop}

theorem simulates_pure {a : α} {b : β} (h : Q a b) :
    Simulates R Q (pure a : Action ε W α) (pure b) :=
  fun _ _ hR => ⟨.returned h, hR⟩

theorem simulates_throw (e : ε) : Simulates R Q (throw e) (throw e) :=
  fun _ _ hR => ⟨.threw e, hR⟩

theorem simulates_undefined : Simulates R Q (undefined : Action ε W α) undefined :=
  fun _ _ hR => ⟨.undefined, hR⟩

theorem simulates_running : Simulates R Q (running : Action ε W α) running :=
  fun _ _ hR => ⟨.running, hR⟩

theorem simulates_read {f : W → α} {g : V → β} (h : ∀ w v, R w v → Q (f w) (g v)) :
    Simulates R Q (read f : Action ε W α) (read g) :=
  fun w v hR => ⟨.returned (h w v hR), hR⟩

theorem simulates_modify {f : W → W} {g : V → V} (h : ∀ w v, R w v → R (f w) (g v)) :
    Simulates R Eq (modify f : Action ε W Unit) (modify g) :=
  fun w v hR => ⟨.returned rfl, h w v hR⟩

theorem simulates_ofExcept (r : Except ε α) :
    Simulates R Eq (ofExcept r : Action ε W α) (ofExcept r) := by
  cases r with
  | ok a => exact simulates_pure rfl
  | error e => exact simulates_throw e

theorem simulates_index {f : α → γ} {g : β → γ} {l : List α} {l' : List β}
    (h : l.map f = l'.map g) (i : Nat) :
    Simulates R (fun a b => a ∈ l ∧ f a = g b) (index l i : Action ε W α) (index l' i) := by
  have hlength : l.length = l'.length := by
    have := congrArg List.length h
    rwa [List.length_map, List.length_map] at this
  rcases Nat.lt_or_ge i l.length with hi | hi
  · have hi' : i < l'.length := hlength ▸ hi
    rw [index_of_lt hi, index_of_lt hi']
    refine simulates_pure ⟨List.getElem_mem hi, ?_⟩
    have hget : (l.map f)[i]? = (l'.map g)[i]? := by rw [h]
    simpa [hi, hi'] using hget
  · rw [index_of_le hi, index_of_le (hlength ▸ hi)]
    exact simulates_undefined

theorem Simulates.bind {Q' : γ → δ → Prop} {x : Action ε W α} {y : Action ε V β}
    {f : α → Action ε W γ} {g : β → Action ε V δ} (hx : Simulates R Q x y)
    (hf : ∀ a b, Q a b → Simulates R Q' (f a) (g b)) : Simulates R Q' (x >>= f) (y >>= g) := by
  intro w v hR
  obtain ⟨halike, hR'⟩ := hx w v hR
  rw [bind_apply, bind_apply]
  revert halike hR'
  rcases x w with ⟨r, w'⟩
  rcases y v with ⟨r', v'⟩
  intro halike hR'
  cases halike with
  | returned h => exact hf _ _ h _ _ hR'
  | threw e => exact ⟨.threw e, hR'⟩
  | undefined => exact ⟨.undefined, hR'⟩
  | running => exact ⟨.running, hR'⟩

theorem Simulates.tryCatch {x : Action ε W α} {y : Action ε V β} {handler : ε → Action ε W α}
    {handler' : ε → Action ε V β} (hx : Simulates R Q x y)
    (hh : ∀ e, Simulates R Q (handler e) (handler' e)) :
    Simulates R Q (MonadExcept.tryCatch x handler) (MonadExcept.tryCatch y handler') := by
  intro w v hR
  obtain ⟨halike, hR'⟩ := hx w v hR
  rw [tryCatch_apply, tryCatch_apply]
  revert halike hR'
  rcases x w with ⟨r, w'⟩
  rcases y v with ⟨r', v'⟩
  intro halike hR'
  cases halike with
  | returned h => exact ⟨.returned h, hR'⟩
  | threw e => exact hh e _ _ hR'
  | undefined => exact ⟨.undefined, hR'⟩
  | running => exact ⟨.running, hR'⟩

theorem simulates_loop {condition : S → Action ε W Bool} {condition' : S → Action ε V Bool}
    {body : S → Action ε W S} {body' : S → Action ε V S}
    (hc : ∀ s, Simulates R Eq (condition s) (condition' s))
    (hb : ∀ s, Simulates R Eq (body s) (body' s)) (fuel : Nat) (s : S) :
    Simulates R Eq (loop condition body fuel s) (loop condition' body' fuel s) := by
  induction fuel generalizing s with
  | zero =>
    refine (hc s).bind ?_
    rintro b _ rfl
    cases b
    · exact simulates_pure rfl
    · exact simulates_running
  | succ fuel ih =>
    refine (hc s).bind ?_
    rintro b _ rfl
    cases b
    · exact simulates_pure rfl
    · refine (hb s).bind ?_
      rintro s' _ rfl
      exact ih s'

theorem Simulates.zoom {R' : S → T → Prop} {get : S → W} {put : S → W → S} {get' : T → V}
    {put' : T → V → T} {x : Action ε W α} {y : Action ε V β} (hx : Simulates R Q x y)
    (hget : ∀ s t, R' s t → R (get s) (get' t))
    (hput : ∀ s t w v, R' s t → R w v → R' (put s w) (put' t v)) :
    Simulates R' Q (Action.zoom get put x) (Action.zoom get' put' y) := by
  intro s t hR
  obtain ⟨halike, hR'⟩ := hx (get s) (get' t) (hget s t hR)
  exact ⟨halike, hput s t _ _ hR hR'⟩

end Rules

end Action

inductive Ran (step : O → Action ε S Unit) : S → List (O × Outcome ε Unit) → S → Prop
  | done (s : S) : Ran step s [] s
  | next {s s₁ s₂ : S} {o : O} {r : Outcome ε Unit} {l : List (O × Outcome ε Unit)}
      (run : step o s = (r, s₁)) (completes : r.Completes) (rest : Ran step s₁ l s₂) :
    Ran step s ((o, r) :: l) s₂

def outcomes (step : O → Action ε S Unit) : List O → S → List (Outcome ε Unit)
  | [], _ => []
  | o :: os, s => (step o s).1 :: outcomes step os (step o s).2

theorem exists_ran {step : O → Action ε S Unit} {os : List O} {s : S}
    (h : ∀ r ∈ outcomes step os s, r.Completes) :
    ∃ s', Ran step s (os.zip (outcomes step os s)) s' := by
  induction os generalizing s with
  | nil => exact ⟨s, .done s⟩
  | cons o os ih =>
    obtain ⟨s', hran⟩ := ih fun r hr => h r (List.mem_cons_of_mem _ hr)
    exact ⟨s', .next rfl (h _ List.mem_cons_self) hran⟩

theorem Ran.eq_of_nil {step : O → Action ε S Unit} {s s' : S} (h : Ran step s [] s') : s = s' := by
  cases h with
  | done => rfl

section Parts

variable [DecidableEq ι]

def part (i : ι) (l : List ((ι × O) × U)) : List (O × U) :=
  (l.filter fun p => p.1.1 = i).map fun p => (p.1.2, p.2)

theorem part_cons_self (i : ι) (o : O) (r : U) (l : List ((ι × O) × U)) :
    part i (((i, o), r) :: l) = (o, r) :: part i l := by
  simp [part]

theorem part_cons_of_ne {i j : ι} (h : i ≠ j) (o : O) (r : U) (l : List ((ι × O) × U)) :
    part i (((j, o), r) :: l) = part i l := by
  simp [part, Ne.symm h]

/-- An operation on a part moves the whole as it moves that part alone, and no other part. -/
def Parted (step : ι × O → Action ε S Unit) (alone : O → Action ε T Unit)
    (R : S → (ι → T) → Prop) : Prop :=
  ∀ i o s t, R s t → (step (i, o) s).1 = (alone o (t i)).1 ∧
    R (step (i, o) s).2 (Function.update t i (alone o (t i)).2)

namespace Parted

variable {step : ι × O → Action ε S Unit} {alone : O → Action ε T Unit} {R : S → (ι → T) → Prop}
  {s s' : S} {t t' : ι → T} {l : List ((ι × O) × Outcome ε Unit)}

theorem ran (h : Parted step alone R) (hran : Ran step s l s') (hR : R s t) :
    ∃ t', R s' t' ∧ ∀ i, Ran alone (t i) (part i l) (t' i) := by
  induction hran generalizing t with
  | done s => exact ⟨t, hR, fun i => .done _⟩
  | @next s s₁ s₂ o r l run completes rest ih =>
    obtain ⟨j, o⟩ := o
    obtain ⟨hsame, hnext⟩ := h j o s t hR
    rw [run] at hsame hnext
    obtain ⟨t', hR', hparts⟩ := ih hnext
    refine ⟨t', hR', fun i => ?_⟩
    have hpart := hparts i
    by_cases hi : i = j
    · subst hi
      rw [Function.update_self] at hpart
      rw [part_cons_self]
      exact .next (Prod.ext hsame.symm rfl) completes hpart
    · rw [Function.update_of_ne hi] at hpart
      rwa [part_cons_of_ne hi]

theorem of_ran (h : Parted step alone R) (hparts : ∀ i, Ran alone (t i) (part i l) (t' i))
    (hR : R s t) : ∃ s', Ran step s l s' ∧ R s' t' := by
  induction l generalizing s t with
  | nil =>
    have hsame : t = t' := funext fun i => (hparts i).eq_of_nil
    exact ⟨s, .done s, hsame ▸ hR⟩
  | cons p l ih =>
    obtain ⟨⟨j, o⟩, r⟩ := p
    have hj := hparts j
    rw [part_cons_self] at hj
    cases hj with
    | @next _ t₁ _ _ _ _ run completes rest =>
      obtain ⟨hsame, hnext⟩ := h j o s t hR
      rw [run] at hsame hnext
      have hrest : ∀ i, Ran alone (Function.update t j t₁ i) (part i l) (t' i) := by
        intro i
        by_cases hi : i = j
        · subst hi
          rwa [Function.update_self]
        · rw [Function.update_of_ne hi]
          have hpart := hparts i
          rwa [part_cons_of_ne hi] at hpart
      obtain ⟨s', hran, hR'⟩ := ih hrest hnext
      exact ⟨s', .next (Prod.ext hsame rfl) completes hran, hR'⟩

end Parted

end Parts

end Effects

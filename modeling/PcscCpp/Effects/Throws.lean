import PcscCpp.Effects.Action

namespace Effects.Action

variable {ε W S α β : Type}

def Throws (P : ε → Prop) (x : Action ε W α) : Prop := ∀ w e w', x w = (.threw e, w') → P e

section Throws

variable {P P' : ε → Prop}

theorem Throws.mono {x : Action ε W α} (h : ∀ e, P e → P' e) (hx : Throws P x) : Throws P' x :=
  fun w e w' hrun => h e (hx w e w' hrun)

theorem throws_pure (a : α) : Throws P (pure a : Action ε W α) := by
  intro w e w' h
  cases h

theorem throws_throw {e : ε} (he : P e) : Throws P (throw e : Action ε W α) := by
  intro w e' w' h
  cases h
  exact he

theorem throws_undefined : Throws P (undefined : Action ε W α) := by
  intro w e w' h
  cases h

theorem throws_running : Throws P (running : Action ε W α) := by
  intro w e w' h
  cases h

theorem throws_read (f : W → α) : Throws P (read f : Action ε W α) := by
  intro w e w' h
  cases h

theorem throws_modify (f : W → W) : Throws P (modify f : Action ε W Unit) := by
  intro w e w' h
  cases h

theorem throws_index (l : List α) (i : Nat) : Throws P (index l i : Action ε W α) := by
  unfold index
  split_ifs
  · exact throws_pure _
  · exact throws_undefined

theorem throws_ofExcept {r : Except ε α} (h : ∀ e, r = .error e → P e) :
    Throws P (ofExcept r : Action ε W α) := by
  cases r with
  | ok a => exact throws_pure a
  | error e => exact throws_throw (h e rfl)

theorem Throws.bind {x : Action ε W α} {f : α → Action ε W β} (hx : Throws P x)
    (hf : ∀ a, Throws P (f a)) : Throws P (x >>= f) := by
  intro w e w' h
  rw [bind_apply] at h
  rcases hrun : x w with ⟨a | e₁ | _ | _, w₁⟩ <;> rw [hrun] at h
  · exact hf a w₁ e w' h
  · cases h
    exact hx w _ _ hrun
  · cases h
  · cases h

theorem Throws.tryCatch {Q : ε → Prop} {x : Action ε W α} {handler : ε → Action ε W α}
    (hx : Throws Q x) (hh : ∀ e, Q e → Throws P (handler e)) :
    Throws P (MonadExcept.tryCatch x handler) := by
  intro w e w' h
  rw [tryCatch_apply] at h
  rcases hrun : x w with ⟨a | e₁ | _ | _, w₁⟩ <;> rw [hrun] at h
  · cases h
  · exact hh e₁ (hx w e₁ w₁ hrun) w₁ e w' h
  · cases h
  · cases h

theorem throws_zoom {get : S → W} {put : S → W → S} {x : Action ε W α} (hx : Throws P x) :
    Throws P (zoom get put x) := by
  intro s e s' h
  exact hx (get s) e _ (Prod.ext (Prod.mk.inj h).1 rfl)

theorem throws_foldlM {f : S → β → Action ε W S} (hf : ∀ s b, Throws P (f s b)) (l : List β)
    (s : S) : Throws P (l.foldlM f s) := by
  induction l generalizing s with
  | nil => exact throws_pure s
  | cons b l ih => exact (hf s b).bind ih

theorem throws_loop {condition : S → Action ε W Bool} {body : S → Action ε W S}
    (hc : ∀ s, Throws P (condition s)) (hb : ∀ s, Throws P (body s)) (fuel : Nat) (s : S) :
    Throws P (loop condition body fuel s) := by
  induction fuel generalizing s with
  | zero =>
    refine (hc s).bind fun b => ?_
    cases b
    · exact throws_pure s
    · exact throws_running
  | succ fuel ih =>
    refine (hc s).bind fun b => ?_
    cases b
    · exact throws_pure s
    · exact (hb s).bind ih

end Throws

end Effects.Action

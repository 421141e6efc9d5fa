import PcscCpp.Effects.Action

namespace Effects.Action

variable {ε W S α β : Type}

def Post (Q : α → W → Prop) (E : W → Prop) : Outcome ε α × W → Prop
  | (.returned a, w) => Q a w
  | (.threw _, w) => E w
  | _ => True

def Triple (P : W → Prop) (x : Action ε W α) (Q : α → W → Prop) (E : W → Prop) : Prop :=
  ∀ w, P w → Post Q E (x w)

theorem post_of_world {P : W → Prop} {r : Outcome ε α × W} (h : P r.2) :
    Post (fun _ => P) P r := by
  rcases r with ⟨_ | _ | _ | _, w⟩
  · exact h
  · exact h
  · trivial
  · trivial

theorem Post.and_world {P : W → Prop} {Q : α → W → Prop} {E : W → Prop} {r : Outcome ε α × W}
    (h : Post Q E r) (hP : P r.2) : Post (fun a w => Q a w ∧ P w) (fun w => E w ∧ P w) r := by
  rcases r with ⟨_ | _ | _ | _, w⟩
  · exact ⟨h, hP⟩
  · exact ⟨h, hP⟩
  · trivial
  · trivial

theorem Post.mono {Q Q' : α → W → Prop} {E E' : W → Prop} {r : Outcome ε α × W}
    (h : Post Q E r) (hQ : ∀ a w, Q a w → Q' a w) (hE : ∀ w, E w → E' w) : Post Q' E' r := by
  rcases r with ⟨a | _ | _ | _, w⟩
  · exact hQ a w h
  · exact hE w h
  · trivial
  · trivial

theorem Post.and {Q Q' : α → W → Prop} {E E' : W → Prop} {r : Outcome ε α × W}
    (h : Post Q E r) (h' : Post Q' E' r) :
    Post (fun a w => Q a w ∧ Q' a w) (fun w => E w ∧ E' w) r := by
  rcases r with ⟨_ | _ | _ | _, w⟩
  · exact ⟨h, h'⟩
  · exact ⟨h, h'⟩
  · trivial
  · trivial

section Rules

variable {P P' E E' : W → Prop} {Q Q' : α → W → Prop} {R : β → W → Prop} {x : Action ε W α}

theorem Triple.returned (h : Triple P x Q E) {w w' : W} {a : α} (hw : P w)
    (hx : x w = (.returned a, w')) : Q a w' := by
  have := h w hw
  rwa [hx] at this

theorem Triple.threw (h : Triple P x Q E) {w w' : W} {e : ε} (hw : P w)
    (hx : x w = (.threw e, w')) : E w' := by
  have := h w hw
  rwa [hx] at this

theorem Triple.mono (h : Triple P x Q E) (hP : ∀ w, P' w → P w) (hQ : ∀ a w, Q a w → Q' a w)
    (hE : ∀ w, E w → E' w) : Triple P' x Q' E' := fun w hw => (h w (hP w hw)).mono hQ hE

theorem Triple.pre (h : Triple P x Q E) (hP : ∀ w, P' w → P w) : Triple P' x Q E :=
  h.mono hP (fun _ _ h => h) fun _ h => h

theorem triple_true (x : Action ε W α) : Triple P x (fun _ _ => True) fun _ => True := by
  intro w _
  rcases x w with ⟨a | e | _ | _, w'⟩ <;> trivial

theorem triple_prop {p : Prop} (h : p → Triple (fun _ => True) x Q E) :
    Triple (fun _ => p) x Q E := fun w hw => h hw w trivial

theorem triple_pure (a : α) : Triple (Q a) (pure a : Action ε W α) Q E := fun _ hw => hw

theorem triple_throw (e : ε) : Triple E (throw e : Action ε W α) Q E := fun _ hw => hw

theorem triple_undefined : Triple P (undefined : Action ε W α) Q E := fun _ _ => trivial

theorem triple_modify (f : W → W) {Q : Unit → W → Prop} :
    Triple (fun w => Q () (f w)) (modify f : Action ε W Unit) Q E := fun _ hw => hw

theorem Triple.bind {f : α → Action ε W β} (hx : Triple P x Q E)
    (hf : ∀ a, Triple (Q a) (f a) R E) : Triple P (x >>= f) R E := by
  intro w hw
  have h := hx w hw
  rw [bind_apply]
  revert h
  rcases x w with ⟨a | e | _ | _, w'⟩ <;> intro h
  · exact hf a w' h
  · exact h
  · trivial
  · trivial

theorem Triple.tryCatch {handler : ε → Action ε W α} (hx : Triple P x Q E)
    (hh : ∀ e, Triple E (handler e) Q E') : Triple P (MonadExcept.tryCatch x handler) Q E' := by
  intro w hw
  have h := hx w hw
  rw [tryCatch_apply]
  revert h
  rcases x w with ⟨a | e | _ | _, w'⟩ <;> intro h
  · exact h
  · exact hh e w' h
  · trivial
  · trivial

theorem triple_foldlM {I : S → W → Prop} {f : S → β → Action ε W S}
    (h : ∀ s b, Triple (I s) (f s b) I E) (l : List β) (s : S) :
    Triple (I s) (l.foldlM f s) I E := by
  induction l generalizing s with
  | nil => exact triple_pure s
  | cons b l ih => exact (h s b).bind ih

theorem Within.triple {R : W → W → Prop} (hx : Within R x) (h : ∀ w w', P w → R w w' → P w') :
    Triple P x (fun _ => P) P := fun w hw => post_of_world (h w _ hw (hx w))

end Rules

end Effects.Action

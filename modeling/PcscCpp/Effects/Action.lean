import Mathlib.Order.Defs.Unbundled
import Mathlib.Tactic.SplitIfs

/-! Sequential programs over a world `W` that may throw, run into undefined
behaviour, or still be running when their fuel is used up.  The world is kept in
every case, so what a program did before it stopped can always be inspected. -/

namespace Effects

inductive Outcome (ε α : Type)
  | returned (value : α)
  | threw (exception : ε)
  | undefined
  | running
  deriving DecidableEq, Repr

def Action (ε W α : Type) := W → Outcome ε α × W

variable {ε W S α β γ : Type}

namespace Action

def bind (x : Action ε W α) (f : α → Action ε W β) : Action ε W β := fun w =>
  match x w with
  | (.returned a, w') => f a w'
  | (.threw e, w') => (.threw e, w')
  | (.undefined, w') => (.undefined, w')
  | (.running, w') => (.running, w')

def tryCatch (x : Action ε W α) (handler : ε → Action ε W α) : Action ε W α := fun w =>
  match x w with
  | (.threw e, w') => handler e w'
  | r => r

instance : Monad (Action ε W) where
  pure a := fun w => (.returned a, w)
  bind := bind

instance : MonadExcept ε (Action ε W) where
  throw e := fun w => (.threw e, w)
  tryCatch := tryCatch

def undefined : Action ε W α := fun w => (.undefined, w)

def running : Action ε W α := fun w => (.running, w)

def ofExcept : Except ε α → Action ε W α
  | .ok a => pure a
  | .error e => throw e

def modify (f : W → W) : Action ε W Unit := fun w => (.returned (), f w)

def read (f : W → α) : Action ε W α := fun w => (.returned (f w), w)

/-- Reads an element; a read at or beyond the end is undefined behaviour. -/
def index (l : List α) (i : Nat) : Action ε W α := if h : i < l.length then pure l[i] else undefined

def zoom (get : S → W) (put : S → W → S) (x : Action ε W α) : Action ε S α := fun s =>
  ((x (get s)).1, put s (x (get s)).2)

/-- `while (condition) body` over a loop state; one unit of fuel a pass. -/
def loop (condition : S → Action ε W Bool) (body : S → Action ε W S) : Nat → S → Action ε W S
  | 0, s => do if ← condition s then running else pure s
  | fuel + 1, s => do
    if ← condition s then
      let s' ← body s
      loop condition body fuel s'
    else pure s

def collect (f : β → Action ε W (List α)) : List β → Action ε W (List α)
  | [] => pure []
  | b :: bs => do
    let x ← f b
    let xs ← collect f bs
    pure (x ++ xs)

@[simp] theorem pure_apply (a : α) (w : W) :
    (pure a : Action ε W α) w = (.returned a, w) := rfl

@[simp] theorem throw_apply (e : ε) (w : W) :
    (throw e : Action ε W α) w = (.threw e, w) := rfl

@[simp] theorem undefined_apply (w : W) :
    (undefined : Action ε W α) w = (.undefined, w) := rfl

@[simp] theorem running_apply (w : W) : (running : Action ε W α) w = (.running, w) := rfl

@[simp] theorem modify_apply (f : W → W) (w : W) :
    (modify f : Action ε W Unit) w = (.returned (), f w) := rfl

@[simp] theorem read_apply (f : W → α) (w : W) :
    (read f : Action ε W α) w = (.returned (f w), w) := rfl

@[simp] theorem ofExcept_ok (a : α) : (ofExcept (.ok a) : Action ε W α) = pure a := rfl

@[simp] theorem ofExcept_error (e : ε) : (ofExcept (.error e) : Action ε W α) = throw e := rfl

@[simp] theorem ofExcept_world (r : Except ε α) (w : W) :
    ((ofExcept r : Action ε W α) w).2 = w := by
  cases r <;> rfl

theorem index_of_lt {l : List α} {i : Nat} (h : i < l.length) :
    (index l i : Action ε W α) = pure l[i] := by
  simp [index, h]

theorem index_of_le {l : List α} {i : Nat} (h : l.length ≤ i) :
    (index l i : Action ε W α) = undefined := by
  simp [index, Nat.not_lt.mpr h]

@[simp] theorem index_nil (i : Nat) : (index [] i : Action ε W α) = undefined := rfl

@[simp] theorem index_cons_zero (a : α) (l : List α) :
    (index (a :: l) 0 : Action ε W α) = pure a := rfl

@[simp] theorem index_cons_succ (a : α) (l : List α) (i : Nat) :
    (index (a :: l) (i + 1) : Action ε W α) = index l i := by
  simp [index]

theorem index_drop (l : List α) (p i : Nat) :
    (index (l.drop p) i : Action ε W α) = index l (p + i) := by
  rcases Nat.lt_or_ge (p + i) l.length with h | h
  · rw [index_of_lt h, index_of_lt (by rw [List.length_drop]; omega), List.getElem_drop]
  · rw [index_of_le h, index_of_le (by rw [List.length_drop]; omega)]

theorem bind_apply (x : Action ε W α) (f : α → Action ε W β) (w : W) :
    (x >>= f) w = match x w with
      | (.returned a, w') => f a w'
      | (.threw e, w') => (.threw e, w')
      | (.undefined, w') => (.undefined, w')
      | (.running, w') => (.running, w') := rfl

theorem tryCatch_apply (x : Action ε W α) (handler : ε → Action ε W α) (w : W) :
    (MonadExcept.tryCatch x handler) w = match x w with
      | (.threw e, w') => handler e w'
      | r => r := rfl

theorem zoom_apply (get : S → W) (put : S → W → S) (x : Action ε W α) (s : S) :
    zoom get put x s = ((x (get s)).1, put s (x (get s)).2) := rfl

theorem zoom_bind {get : S → W} {put : S → W → S} (hget : ∀ s w, get (put s w) = w)
    (hput : ∀ s w w', put (put s w) w' = put s w') (x : Action ε W α) (f : α → Action ε W β) :
    zoom get put (x >>= f) = zoom get put x >>= fun a => zoom get put (f a) := by
  funext s
  rw [zoom_apply, bind_apply, bind_apply, zoom_apply]
  rcases x (get s) with ⟨a | _ | _ | _, w⟩
  · simp only [zoom_apply, hget, hput]
  all_goals rfl

section Bind

variable {x : Action ε W α} {f : α → Action ε W β} {w w' w'' : W}

theorem bind_returned {a : α} (h : x w = (.returned a, w')) : (x >>= f) w = f a w' := by
  rw [bind_apply, h]

theorem bind_threw {e : ε} (h : x w = (.threw e, w')) : (x >>= f) w = (.threw e, w') := by
  rw [bind_apply, h]

theorem bind_undefined (h : x w = (.undefined, w')) : (x >>= f) w = (.undefined, w') := by
  rw [bind_apply, h]

theorem bind_eq_returned {b : β} :
    (x >>= f) w = (.returned b, w'') ↔
      ∃ a w', x w = (.returned a, w') ∧ f a w' = (.returned b, w'') := by
  rw [bind_apply]
  rcases x w with ⟨a | _ | _ | _, w₁⟩
  · exact ⟨fun h => ⟨a, w₁, rfl, h⟩, fun ⟨_, _, h, h'⟩ => by cases h; exact h'⟩
  all_goals simp

theorem bind_eq_threw {e : ε} :
    (x >>= f) w = (.threw e, w'') ↔
      x w = (.threw e, w'') ∨ ∃ a w', x w = (.returned a, w') ∧ f a w' = (.threw e, w'') := by
  rw [bind_apply]
  rcases x w with ⟨a | _ | _ | _, w₁⟩
  · simp only [Prod.mk.injEq, reduceCtorEq, false_and, false_or, Outcome.returned.injEq]
    exact ⟨fun h => ⟨a, w₁, ⟨rfl, rfl⟩, h⟩, fun ⟨_, _, ⟨ha, hw⟩, h⟩ => ha ▸ hw ▸ h⟩
  all_goals simp

end Bind

@[simp] theorem pure_bind (a : α) (f : α → Action ε W β) : (pure a >>= f) = f a := rfl

@[simp] theorem throw_bind (e : ε) (f : α → Action ε W β) :
    ((throw e : Action ε W α) >>= f) = throw e := rfl

@[simp] theorem undefined_bind (f : α → Action ε W β) :
    ((undefined : Action ε W α) >>= f) = undefined := rfl

@[simp] theorem bind_assoc (x : Action ε W α) (f : α → Action ε W β) (g : β → Action ε W γ) :
    (x >>= f >>= g) = x >>= fun a => f a >>= g := by
  funext w
  rw [bind_apply, bind_apply, bind_apply]
  rcases x w with ⟨_ | _ | _ | _, w₁⟩ <;> rfl

theorem bind_pure (x : Action ε W α) : (x >>= pure) = x := by
  funext w
  rw [bind_apply]
  rcases x w with ⟨_ | _ | _ | _, w₁⟩ <;> rfl

instance : LawfulMonad (Action ε W) :=
  LawfulMonad.mk' _ (fun x => bind_pure x) (fun a f => pure_bind a f) fun x f g => bind_assoc x f g

section Lookup

variable {f : W → List β} {i : Nat} {w : W}

theorem lookup_some {b : β} (h : (f w)[i]? = some b) (k : β → Action ε W α) :
    (read f >>= fun l => index l i >>= k) w = k b w := by
  obtain ⟨hi, rfl⟩ := List.getElem?_eq_some_iff.mp h
  rw [bind_returned (read_apply f w), index_of_lt hi, pure_bind]

theorem lookup_none (h : (f w)[i]? = none) (k : β → Action ε W α) :
    (read f >>= fun l => index l i >>= k) w = (.undefined, w) := by
  rw [bind_returned (read_apply f w), index_of_le (List.getElem?_eq_none_iff.mp h),
    bind_undefined (undefined_apply w)]

end Lookup

section Loop

variable {condition : S → Action ε W Bool} {body : S → Action ε W S} {s s' : S} {w w' w'' : W}

theorem loop_exit (fuel : Nat) (h : condition s w = (.returned false, w')) :
    loop condition body fuel s w = (.returned s, w') := by
  cases fuel <;> simp [loop, bind_returned h]

theorem loop_of_false (fuel : Nat) (h : condition s = pure false) :
    loop condition body fuel s = pure s := by
  cases fuel <;> simp [loop, h]

theorem loop_of_true (fuel : Nat) (h : condition s = pure true) :
    loop condition body (fuel + 1) s = body s >>= loop condition body fuel := by
  simp only [loop, h, pure_bind, ↓reduceIte]

theorem loop_of_undefined (fuel : Nat) (h : condition s = undefined) :
    loop condition body fuel s = undefined := by
  cases fuel <;> simp only [loop, h, undefined_bind]

theorem loop_pass (fuel : Nat) (h : condition s w = (.returned true, w')) :
    loop condition body (fuel + 1) s w = (body s >>= loop condition body fuel) w' := by
  simp [loop, bind_returned h]

theorem loop_map (φ : S → S) (hc : ∀ s, condition (φ s) = condition s)
    (hb : ∀ s, body (φ s) = body s >>= fun s' => pure (φ s')) (fuel : Nat) (s : S) :
    loop condition body fuel (φ s) = loop condition body fuel s >>= fun s' => pure (φ s') := by
  induction fuel generalizing s with
  | zero =>
    simp only [loop, hc, bind_assoc]
    congr 1
    funext b
    cases b <;> rfl
  | succ fuel ih =>
    simp only [loop, hc, hb, bind_assoc]
    congr 1
    funext b
    cases b
    · rfl
    · simp [ih]

end Loop

def Within (R : W → W → Prop) (x : Action ε W α) : Prop := ∀ w, R w (x w).2

section Within

variable {R : W → W → Prop}

theorem Within.mono {R' : W → W → Prop} {x : Action ε W α} (h : ∀ w w', R w w' → R' w w')
    (hx : Within R x) : Within R' x := fun w => h w _ (hx w)

section Refl

variable [Std.Refl R]

theorem within_pure (a : α) : Within R (pure a : Action ε W α) := fun w => refl_of R w

theorem within_throw (e : ε) : Within R (throw e : Action ε W α) := fun w => refl_of R w

theorem within_undefined : Within R (undefined : Action ε W α) := fun w => refl_of R w

theorem within_running : Within R (running : Action ε W α) := fun w => refl_of R w

theorem within_read (f : W → α) : Within R (read f : Action ε W α) := fun w => refl_of R w

theorem within_ofExcept (r : Except ε α) : Within R (ofExcept r : Action ε W α) := by
  cases r with
  | ok a => exact within_pure a
  | error e => exact within_throw e

theorem within_index (l : List α) (i : Nat) : Within R (index l i : Action ε W α) := by
  unfold index
  split_ifs
  · exact within_pure _
  · exact within_undefined

end Refl

theorem Within.bind [IsTrans W R] {x : Action ε W α} {f : α → Action ε W β}
    (hx : Within R x) (hf : ∀ a, Within R (f a)) : Within R (x >>= f) := by
  intro w
  have h := hx w
  rw [bind_apply]
  revert h
  rcases x w with ⟨a | _ | _ | _, w₁⟩ <;> intro h
  · exact trans_of R h (hf a w₁)
  · exact h
  · exact h
  · exact h

theorem Within.tryCatch [IsTrans W R] {x : Action ε W α} {handler : ε → Action ε W α}
    (hx : Within R x) (hh : ∀ e, Within R (handler e)) :
    Within R (MonadExcept.tryCatch x handler) := by
  intro w
  have h := hx w
  rw [tryCatch_apply]
  revert h
  rcases x w with ⟨_ | e | _ | _, w₁⟩ <;> intro h
  · exact h
  · exact trans_of R h (hh e w₁)
  · exact h
  · exact h

theorem within_loop [Std.Refl R] [IsTrans W R] {condition : S → Action ε W Bool}
    {body : S → Action ε W S} (hc : ∀ s, Within R (condition s)) (hb : ∀ s, Within R (body s))
    (fuel : Nat) (s : S) : Within R (loop condition body fuel s) := by
  induction fuel generalizing s with
  | zero =>
    refine (hc s).bind fun b => ?_
    cases b
    · exact within_pure s
    · exact within_running
  | succ fuel ih =>
    refine (hc s).bind fun b => ?_
    cases b
    · exact within_pure s
    · exact (hb s).bind ih

theorem within_zoom {get : S → W} {put : S → W → S} {R' : S → S → Prop} {x : Action ε W α}
    (hx : Within R x) (h : ∀ s w, R (get s) w → R' s (put s w)) : Within R' (zoom get put x) :=
  fun s => h s _ (hx (get s))

theorem within_foldlM [Std.Refl R] [IsTrans W R] {f : S → β → Action ε W S}
    (hf : ∀ s b, Within R (f s b)) (l : List β) (s : S) : Within R (l.foldlM f s) := by
  induction l generalizing s with
  | nil => exact within_pure s
  | cons b l ih => exact (hf s b).bind ih

end Within

end Action

end Effects

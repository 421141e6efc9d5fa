import PcscCpp.Effects.Runs
import PcscCpp.Effects.Trace

/-! Which failed events of a log an exception reports.  An honest program stops at the first
event that fails, with an exception about it, and throws no such exception otherwise.  Only
events that clean up follow the one that failed. -/

namespace Effects

variable {ε W S E O α β γ : Type}

/-- The events that fail and those that clean up, the exceptions that report a failed one, and
the exceptions a program throws on its own. -/
structure Blame (E ε : Type) where
  failed : E → Bool
  cleanup : E → Bool
  reports : E → ε → Prop
  own : ε → Bool
  own_of_reports : ∀ e x, reports e x → own x = false

namespace Blame

variable {B B' : Blame E ε} {log : W → List E} {l l' : List E} {r : Outcome ε α}

inductive Accounts (B : Blame E ε) (l : List E) : Outcome ε α → Prop
  | fine {r : Outcome ε α} (unfailed : ∀ e ∈ l, B.failed e = false)
      (own : ∀ x, r = .threw x → B.own x = true) : Accounts B l r
  | reported {before after : List E} {e : E} {x : ε} (split : l = before ++ e :: after)
      (failed : B.failed e = true) (unfailed : ∀ e' ∈ before ++ after, B.failed e' = false)
      (cleanup : ∀ e' ∈ after, B.cleanup e' = true) (reports : B.reports e x) :
    Accounts B l (.threw x)

theorem Accounts.single {e : E} {x : ε} (hfailed : B.failed e = true) (hreports : B.reports e x) :
    B.Accounts [e] (.threw x : Outcome ε α) :=
  .reported (List.nil_append [e]).symm hfailed nofun nofun hreports

theorem Accounts.prepend (h : B.Accounts l r) (hl : ∀ e ∈ l', B.failed e = false) :
    B.Accounts (l' ++ l) r := by
  cases h with
  | fine unfailed own =>
    refine .fine (fun e he => ?_) own
    exact (List.mem_append.mp he).elim (hl e) (unfailed e)
  | @reported before after e x split failed unfailed cleanup reports =>
    have hsplit : l' ++ l = (l' ++ before) ++ e :: after := by rw [split, List.append_assoc]
    refine .reported hsplit failed (fun e' he' => ?_) cleanup reports
    rw [List.append_assoc] at he'
    exact (List.mem_append.mp he').elim (hl e') (unfailed e')

theorem Accounts.append (h : B.Accounts l r)
    (hl : ∀ e ∈ l', B.failed e = false ∧ B.cleanup e = true) : B.Accounts (l ++ l') r := by
  cases h with
  | fine unfailed own =>
    refine .fine (fun e he => ?_) own
    exact (List.mem_append.mp he).elim (unfailed e) fun he => (hl e he).1
  | @reported before after e x split failed unfailed cleanup reports =>
    have hsplit : l ++ l' = before ++ e :: (after ++ l') := by
      rw [split, List.append_assoc, List.cons_append]
    refine .reported hsplit failed (fun e' he' => ?_) (fun e' he' => ?_) reports
    · rw [← List.append_assoc] at he'
      exact (List.mem_append.mp he').elim (unfailed e') fun he' => (hl e' he').1
    · exact (List.mem_append.mp he').elim (cleanup e') fun he' => (hl e' he').2

theorem Accounts.threw {x : ε} (h : B.Accounts l (.threw x : Outcome ε α)) :
    B.Accounts l (.threw x : Outcome ε β) := by
  cases h with
  | fine unfailed own => exact .fine unfailed fun y hy => own y (by cases hy; rfl)
  | reported split failed unfailed cleanup reports =>
    exact .reported split failed unfailed cleanup reports

theorem Accounts.unfailed (h : B.Accounts l r) (hr : ∀ x, r ≠ .threw x) :
    ∀ e ∈ l, B.failed e = false := by
  cases h with
  | fine unfailed => exact unfailed
  | reported => exact absurd rfl (hr _)

def blames (B : Blame E ε) : Outcome ε α → Bool
  | .threw x => !B.own x
  | _ => false

def heard (B : Blame E ε) (hear : ε → γ) : Outcome ε α → Option γ
  | .threw x => if B.own x then none else some (hear x)
  | _ => none

theorem isSome_heard (hear : ε → γ) (r : Outcome ε α) :
    (B.heard hear r).isSome = B.blames r := by
  rcases r with ⟨_⟩ | x | _ | _
  · rfl
  · cases h : B.own x <;> simp [heard, blames, h]
  · rfl
  · rfl

theorem Accounts.heard {tell : E → γ} {hear : ε → γ}
    (htell : ∀ e x, B.reports e x → hear x = tell e) (h : B.Accounts l r) :
    (l.filter B.failed).map tell = (B.heard hear r).toList := by
  cases h with
  | fine unfailed own =>
    rw [List.filter_eq_nil_iff.mpr fun e he => by simp [unfailed e he]]
    rcases r with ⟨_⟩ | x | _ | _
    · rfl
    · simp [Blame.heard, own x rfl]
    · rfl
    · rfl
  | @reported before after e x split failed unfailed cleanup reports =>
    have hbefore : before.filter B.failed = [] :=
      List.filter_eq_nil_iff.mpr fun e he => by simp [unfailed e (List.mem_append_left _ he)]
    have hafter : after.filter B.failed = [] :=
      List.filter_eq_nil_iff.mpr fun e he => by simp [unfailed e (List.mem_append_right _ he)]
    rw [split, List.filter_append, List.filter_cons_of_pos failed, hbefore, hafter, Blame.heard,
      B.own_of_reports _ _ reports, htell e x reports]
    rfl

/-- Every run of the program is accounted for by its events. -/
def Honest (B : Blame E ε) (log : W → List E) (x : Action ε W α) : Prop :=
  ∀ w, ∃ l, log (x w).2 = log w ++ l ∧ B.Accounts l (x w).1

section Rules

theorem honest_same {x : Action ε W α} (hlog : ∀ w, log (x w).2 = log w)
    (hown : ∀ w ex w', x w = (.threw ex, w') → B.own ex = true) : B.Honest log x := by
  intro w
  refine ⟨[], by simp [hlog], .fine nofun fun ex hex => ?_⟩
  exact hown w ex _ (Prod.ext hex rfl)

theorem honest_pure (a : α) : B.Honest log (pure a : Action ε W α) :=
  honest_same (fun _ => rfl) nofun

theorem honest_throw {ex : ε} (h : B.own ex = true) : B.Honest log (throw ex : Action ε W α) :=
  honest_same (fun _ => rfl) fun _ _ _ hrun => by cases hrun; exact h

theorem honest_undefined : B.Honest log (Action.undefined : Action ε W α) :=
  honest_same (fun _ => rfl) nofun

theorem honest_running : B.Honest log (Action.running : Action ε W α) :=
  honest_same (fun _ => rfl) nofun

theorem honest_read (f : W → α) : B.Honest log (Action.read f : Action ε W α) :=
  honest_same (fun _ => rfl) nofun

theorem honest_modify {f : W → W} (h : ∀ w, log (f w) = log w) :
    B.Honest log (Action.modify f : Action ε W Unit) :=
  honest_same h nofun

theorem honest_ofExcept {r : Except ε α} (h : ∀ ex, r = .error ex → B.own ex = true) :
    B.Honest log (Action.ofExcept r : Action ε W α) := by
  cases r with
  | ok a => exact honest_pure a
  | error ex => exact honest_throw (h ex rfl)

theorem honest_index (xs : List α) (i : Nat) :
    B.Honest log (Action.index xs i : Action ε W α) := by
  rcases Nat.lt_or_ge i xs.length with h | h
  · rw [Action.index_of_lt h]
    exact honest_pure _
  · rw [Action.index_of_le h]
    exact honest_undefined

theorem Honest.bind {x : Action ε W α} {f : α → Action ε W β} (hx : B.Honest log x)
    (hf : ∀ a, B.Honest log (f a)) : B.Honest log (x >>= f) := by
  intro w
  obtain ⟨l, hlog, haccounts⟩ := hx w
  rw [Action.bind_apply]
  revert hlog haccounts
  rcases x w with ⟨a | ex | _ | _, w₁⟩ <;> intro hlog haccounts
  · obtain ⟨l', hlog', haccounts'⟩ := hf a w₁
    exact ⟨l ++ l', by rw [hlog', hlog, List.append_assoc],
      haccounts'.prepend (haccounts.unfailed nofun)⟩
  · exact ⟨l, hlog, haccounts.threw⟩
  · exact ⟨l, hlog, .fine (haccounts.unfailed nofun) nofun⟩
  · exact ⟨l, hlog, .fine (haccounts.unfailed nofun) nofun⟩

theorem Honest.tryCatch {x : Action ε W α} {handler : ε → Action ε W α} (hx : B'.Honest log x)
    (hfine : ∀ e, B'.failed e = false → B.failed e = false)
    (hhandler : ∀ l ex, B'.Accounts l (.threw ex : Outcome ε α) → ∀ w, ∃ l',
      log (handler ex w).2 = log w ++ l' ∧ B.Accounts (l ++ l') (handler ex w).1) :
    B.Honest log (MonadExcept.tryCatch x handler) := by
  intro w
  obtain ⟨l, hlog, haccounts⟩ := hx w
  rw [Action.tryCatch_apply]
  revert hlog haccounts
  rcases x w with ⟨a | ex | _ | _, w₁⟩ <;> intro hlog haccounts
  · exact ⟨l, hlog, .fine (fun e he => hfine e (haccounts.unfailed nofun e he)) nofun⟩
  · obtain ⟨l', hlog', haccounts'⟩ := hhandler l ex haccounts w₁
    exact ⟨l ++ l', by rw [hlog', hlog, List.append_assoc], haccounts'⟩
  · exact ⟨l, hlog, .fine (fun e he => hfine e (haccounts.unfailed nofun e he)) nofun⟩
  · exact ⟨l, hlog, .fine (fun e he => hfine e (haccounts.unfailed nofun e he)) nofun⟩

theorem honest_loop {condition : S → Action ε W Bool} {body : S → Action ε W S}
    (hc : ∀ s, B.Honest log (condition s)) (hb : ∀ s, B.Honest log (body s)) (fuel : Nat)
    (s : S) : B.Honest log (Action.loop condition body fuel s) := by
  induction fuel generalizing s with
  | zero =>
    refine (hc s).bind fun b => ?_
    cases b
    · exact honest_pure s
    · exact honest_running
  | succ fuel ih =>
    refine (hc s).bind fun b => ?_
    cases b
    · exact honest_pure s
    · exact (hb s).bind ih

theorem honest_zoom {get : S → W} {put : S → W → S} {log' : S → List E} {x : Action ε W α}
    (hx : B.Honest log x) (hget : ∀ s, log' s = log (get s))
    (hput : ∀ s w, log' (put s w) = log w) : B.Honest log' (Action.zoom get put x) := by
  intro s
  obtain ⟨l, hlog, haccounts⟩ := hx (get s)
  exact ⟨l, by rw [Action.zoom_apply, hput, hlog, hget], haccounts⟩

end Rules

section Runs

variable {step : O → Action ε S Unit} {log : S → List E}

/-- In a run of honest operations what is told of the events that fail is heard from the
exceptions that are thrown, in the same order. -/
theorem failed_heard {tell : E → γ} {hear : ε → γ}
    (htell : ∀ e x, B.reports e x → hear x = tell e) (h : ∀ o, B.Honest log (step o))
    (os : List O) (s : S) :
    ∀ s' ∈ (states step os s).getLast?, ((log s').filter B.failed).map tell =
      ((log s).filter B.failed).map tell ++
        (steps step os s).filterMap fun p => B.heard hear (step p.1 p.2).1 := by
  refine filterMap_steps (I := fun _ => True) (f := fun s => ((log s).filter B.failed).map tell)
    (fun o => Action.triple_true _) (fun o s _ => ?_) trivial
  obtain ⟨l, hlog, haccounts⟩ := h o s
  rw [hlog, List.filter_append, List.map_append, haccounts.heard htell]

theorem countP_failed (h : ∀ o, B.Honest log (step o)) (os : List O) (s : S) :
    ∀ s' ∈ (states step os s).getLast?, (log s').countP B.failed =
      (log s).countP B.failed + (steps step os s).countP fun p => B.blames (step p.1 p.2).1 := by
  intro s' hs'
  have hheard := congrArg List.length (@failed_heard _ _ _ _ _ B _ _ (fun _ => ()) (fun _ => ())
    (fun _ _ _ => rfl) h os s s' hs')
  simpa only [List.length_append, List.length_map, List.length_filterMap_eq_countP, isSome_heard,
    List.countP_eq_length_filter] using hheard

end Runs

end Blame

end Effects

import PcscCpp.Effects.Action

namespace Effects.Action

variable {ε W S : Type}

def tests (condition : S → Action ε W Bool) (body : S → Action ε W S) : Nat → S → W → List S
  | 0, s, _ => [s]
  | fuel + 1, s, w => s :: match condition s w with
    | (.returned true, w') => match body s w' with
      | (.returned s', w'') => tests condition body fuel s' w''
      | _ => []
    | _ => []

section Tests

variable {condition : S → Action ε W Bool} {body : S → Action ε W S} {s s' : S}

theorem tests_of_false (fuel : Nat) (h : condition s = pure false) (w : W) :
    tests condition body fuel s w = [s] := by
  cases fuel <;> simp [tests, h]

theorem tests_of_undefined (fuel : Nat) (h : condition s = undefined) (w : W) :
    tests condition body fuel s w = [s] := by
  cases fuel <;> simp [tests, h]

theorem tests_of_true (fuel : Nat) (h : condition s = pure true) (hbody : body s = pure s')
    (w : W) : tests condition body (fuel + 1) s w = s :: tests condition body fuel s' w := by
  simp [tests, h, hbody]

end Tests

section Passes

variable {condition : S → Bool} {body : S → Action ε W S} {s s' : S} {w w' : W} {fuel : Nat}

end Passes

end Effects.Action

set_option autoImplicit false

namespace Metaspace.Saturation

variable {σ α : Type}

/-- One pass over the candidates: the state after it, and the candidates it left out. -/
def pass (ready : σ → α → Bool) (takeIn : σ → α → σ) : σ → List α → σ × List α
  | state, [] => (state, [])
  | state, x :: xs =>
    if ready state x then pass ready takeIn (takeIn state x) xs
    else
      let (final, left) := pass ready takeIn state xs
      (final, x :: left)

theorem length_pass_le (ready : σ → α → Bool) (takeIn : σ → α → σ) (state : σ) (xs : List α) :
    (pass ready takeIn state xs).2.length ≤ xs.length := by
  induction xs generalizing state with
  | nil => simp [pass]
  | cons x xs ih =>
    unfold pass
    split
    · exact Nat.le_succ_of_le (ih _)
    · simpa using ih state

end Metaspace.Saturation

namespace Metaspace

def saturate {σ α : Type} (ready : σ → α → Bool) (takeIn : σ → α → σ) (state : σ)
    (candidates : List α) : σ :=
  let outcome := Saturation.pass ready takeIn state candidates
  if outcome.2.length < candidates.length then saturate ready takeIn outcome.1 outcome.2
  else outcome.1
termination_by candidates.length

end Metaspace

import Metaspace.Saturation

set_option autoImplicit false

namespace Metaspace.Saturation

variable {σ α : Type} {ready : σ → α → Bool} {takeIn : σ → α → σ}

theorem pass_keeps {P : σ → Prop} {xs : List α}
    (hstep : ∀ s, ∀ x ∈ xs, ready s x = true → P s → P (takeIn s x)) {state : σ} (h : P state) :
    P (pass ready takeIn state xs).1 := by
  induction xs generalizing state with
  | nil => exact h
  | cons x xs ih =>
    have htail : ∀ s, ∀ y ∈ xs, ready s y = true → P s → P (takeIn s y) := by
      intro s y hy
      exact hstep s y (List.mem_cons_of_mem x hy)
    unfold pass
    split
    · rename_i hx
      exact ih htail (hstep state x List.mem_cons_self hx h)
    · exact ih htail h

theorem pass_left_subset (state : σ) (xs : List α) : (pass ready takeIn state xs).2 ⊆ xs := by
  induction xs generalizing state with
  | nil => simp [pass]
  | cons x xs ih =>
    unfold pass
    split
    · exact List.subset_cons_of_subset x (ih _)
    · exact List.cons_subset_cons x (ih state)

theorem pass_stuck {state : σ} {xs : List α}
    (h : (pass ready takeIn state xs).2.length = xs.length) :
    (pass ready takeIn state xs).1 = state ∧ ∀ x ∈ xs, ready state x = false := by
  induction xs generalizing state with
  | nil => simp [pass]
  | cons x xs ih =>
    unfold pass at h ⊢
    split
    · rename_i hx
      have hle := length_pass_le ready takeIn (takeIn state x) xs
      simp only [hx, if_true, List.length_cons] at h
      omega
    · rename_i hx
      simp only [hx, if_false, List.length_cons, Nat.add_right_cancel_iff, Bool.false_eq_true] at h
      obtain ⟨hstate, hleft⟩ := ih h
      refine ⟨hstate, ?_⟩
      intro y hy
      rcases List.mem_cons.mp hy with rfl | hy
      · simpa using hx
      · exact hleft y hy

/-- A candidate that a pass does not leave out is settled, if taking in settles and nothing
unsettles. -/
theorem pass_settles {settled : σ → α → Prop} (hself : ∀ s x, settled (takeIn s x) x)
    (hkeep : ∀ s x y, settled s y → settled (takeIn s x) y) (state : σ) (xs : List α) :
    ∀ x ∈ xs, x ∈ (pass ready takeIn state xs).2 ∨ settled (pass ready takeIn state xs).1 x := by
  induction xs generalizing state with
  | nil => simp
  | cons x xs ih =>
    intro y hy
    unfold pass
    split
    · rcases List.mem_cons.mp hy with rfl | hy
      · right
        exact pass_keeps (P := fun s => settled s y) (fun s z _ _ => hkeep s z y) (hself state y)
      · exact ih _ y hy
    · rcases List.mem_cons.mp hy with rfl | hy
      · exact Or.inl List.mem_cons_self
      · exact (ih state y hy).imp_left (List.mem_cons_of_mem x)

end Metaspace.Saturation

namespace Metaspace

open Saturation

variable {σ α : Type} {ready : σ → α → Bool} {takeIn : σ → α → σ}

theorem saturate_keeps {P : σ → Prop} {candidates : List α}
    (hstep : ∀ s, ∀ x ∈ candidates, ready s x = true → P s → P (takeIn s x)) {state : σ}
    (h : P state) : P (saturate ready takeIn state candidates) := by
  fun_induction saturate ready takeIn state candidates with
  | case1 state candidates outcome _ ih =>
    refine ih ?_ (pass_keeps hstep h)
    intro s x hx
    exact hstep s x (pass_left_subset state candidates hx)
  | case2 => exact pass_keeps hstep h

theorem saturate_settles (settled : σ → α → Prop) (hself : ∀ s x, settled (takeIn s x) x)
    (hkeep : ∀ s x y, settled s y → settled (takeIn s x) y) (state : σ) (candidates : List α) :
    ∀ x ∈ candidates, settled (saturate ready takeIn state candidates) x ∨
      ready (saturate ready takeIn state candidates) x = false := by
  fun_induction saturate ready takeIn state candidates with
  | case1 state candidates outcome _ ih =>
    intro x hx
    rcases pass_settles hself hkeep state candidates x hx with hleft | hdone
    · exact ih x hleft
    · left
      exact saturate_keeps (P := fun s => settled s x) (fun s z _ _ => hkeep s z x) hdone
  | case2 state candidates outcome hstop =>
    intro x hx
    change ¬ (pass ready takeIn state candidates).2.length < candidates.length at hstop
    have hlen : (pass ready takeIn state candidates).2.length = candidates.length := by
      have hle := length_pass_le ready takeIn state candidates
      omega
    obtain ⟨hstate, hready⟩ := pass_stuck hlen
    right
    show ready (pass ready takeIn state candidates).1 x = false
    rw [hstate]
    exact hready x hx

end Metaspace

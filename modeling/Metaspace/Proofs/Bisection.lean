import Mathlib.Data.List.Nodup
import Metaspace.Bisection
import Std.Data.TreeMap

set_option autoImplicit false

namespace Metaspace

variable {α κ : Type} [Ord κ] {keyOf : α → κ} {key : κ} {xs : List α}

theorem mem_of_bisect? {x : α} (h : bisect? keyOf key xs = some x) :
    x ∈ xs ∧ compare (keyOf x) key = .eq := by
  fun_induction bisect? keyOf key xs with
  | case1 xs middle hmiddle =>
    exact ⟨List.mem_of_find?_eq_some h, by simpa using List.find?_some h⟩
  | case2 xs middle hmiddle hbefore ih =>
    obtain ⟨hmem, hkey⟩ := ih h
    exact ⟨List.mem_of_mem_take hmem, hkey⟩
  | case3 xs middle hmiddle hbefore ih =>
    obtain ⟨hmem, hkey⟩ := ih h
    exact ⟨List.mem_of_mem_drop hmem, hkey⟩

def Ascends (keyOf : α → κ) (xs : List α) : Prop :=
  xs.Pairwise fun a b => compare (keyOf a) (keyOf b) = .lt

theorem find?_eq_none_of_ne (h : ∀ x ∈ xs, compare (keyOf x) key ≠ .eq) :
    xs.find? (fun x => compare (keyOf x) key = .eq) = none :=
  List.find?_eq_none.mpr fun x hx => by simpa only [decide_eq_true_eq] using h x hx

section

variable [Std.TransOrd κ] {x : α} {front back : List α}

theorem Ascends.none_after (h : Ascends keyOf (front ++ x :: back))
    (hbefore : compare key (keyOf x) = .lt) :
    ∀ y ∈ x :: back, compare (keyOf y) key ≠ .eq := by
  intro y hy heq
  have hlt : compare key (keyOf y) = .lt := by
    rcases List.mem_cons.mp hy with rfl | hlater
    · exact hbefore
    · have hback := (List.pairwise_append.mp h).2.1
      exact Std.TransCmp.lt_trans hbefore ((List.pairwise_cons.mp hback).1 y hlater)
  rw [Std.OrientedCmp.eq_symm heq] at hlt
  contradiction

theorem Ascends.none_before (h : Ascends keyOf (front ++ x :: back))
    (hbefore : compare key (keyOf x) ≠ .lt) : ∀ y ∈ front, compare (keyOf y) key ≠ .eq := by
  intro y hy heq
  have hlt := (List.pairwise_append.mp h).2.2 y hy x List.mem_cons_self
  exact hbefore (Std.TransCmp.lt_of_eq_of_lt (Std.OrientedCmp.eq_symm heq) hlt)

theorem bisect?_eq_find? (h : Ascends keyOf xs) :
    bisect? keyOf key xs = xs.find? fun x => compare (keyOf x) key = .eq := by
  have cut {xs : List α} (hmiddle : ¬ xs.length / 2 = 0) :
      ∃ x back, xs.drop (xs.length / 2) = x :: back := by
    refine List.exists_cons_of_ne_nil fun hnil => ?_
    rw [List.drop_eq_nil_iff] at hnil
    omega
  fun_induction bisect? keyOf key xs with
  | case1 xs middle hmiddle => rfl
  | case2 xs middle hmiddle hbefore ih =>
    obtain ⟨x, back, hback⟩ := cut hmiddle
    have hsplit := List.take_append_drop middle xs
    rw [hback] at hbefore hsplit
    rw [← hsplit] at h
    have hnone := find?_eq_none_of_ne (h.none_after (by simpa using hbefore))
    rw [ih (List.pairwise_append.mp h).1]
    conv => rhs; rw [← hsplit, List.find?_append, hnone, Option.or_none]
  | case3 xs middle hmiddle hbefore ih =>
    obtain ⟨x, back, hback⟩ := cut hmiddle
    have hsplit := List.take_append_drop middle xs
    rw [hback] at hbefore hsplit ih ⊢
    rw [← hsplit] at h
    have hnone := find?_eq_none_of_ne (h.none_before (by simpa using hbefore))
    rw [ih (List.pairwise_append.mp h).2.1]
    conv => rhs; rw [← hsplit, List.find?_append, hnone, Option.none_or]

theorem Ascends.bisect?_eq_some [Std.LawfulEqOrd κ] (h : Ascends keyOf xs) :
    bisect? keyOf key xs = some x ↔ x ∈ xs ∧ keyOf x = key := by
  constructor
  · intro hfound
    obtain ⟨hmem, hkey⟩ := mem_of_bisect? hfound
    exact ⟨hmem, Std.LawfulEqOrd.eq_of_compare hkey⟩
  · rintro ⟨hmem, rfl⟩
    rw [bisect?_eq_find? h]
    cases hfind : xs.find? fun y => compare (keyOf y) (keyOf x) = .eq with
    | none =>
      have hne := List.find?_eq_none.mp hfind x hmem
      simp [Std.ReflOrd.compare_self] at hne
    | some y =>
      have hkey : keyOf y = keyOf x :=
        Std.LawfulEqOrd.eq_of_compare (by simpa using List.find?_some hfind)
      have hnodup : (xs.map keyOf).Nodup := by
        refine List.pairwise_map.mpr (h.imp fun hlt heq => ?_)
        rw [heq, Std.ReflOrd.compare_self] at hlt
        contradiction
      rw [List.inj_on_of_nodup_map hnodup (List.mem_of_find?_eq_some hfind) hmem hkey]

end

end Metaspace

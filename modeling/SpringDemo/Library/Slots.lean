import Mathlib.Data.List.Perm.Basic

/-! Lists whose entries are replaced one at a time: what the one entry had goes, what the new one
has comes, and everything else stays. -/
namespace Lib.Slots

variable {α β : Type*} {xs : List α} {k : Nat} {a b : α}

theorem perm_set (h : xs[k]? = some a) (b : α) : (a :: xs.set k b).Perm (b :: xs) := by
  induction xs generalizing k with
  | nil => cases h
  | cons x xs ih =>
    cases k with
    | zero =>
      obtain rfl : x = a := by simpa using h
      exact .swap ..
    | succ k =>
      have ih := ih (by simpa using h)
      exact (List.Perm.swap ..).trans ((ih.cons x).trans (.swap ..))

theorem filterMap_set_perm (f : α → Option β) (h : xs[k]? = some a) (b : α) :
    ((f a).toList ++ (xs.set k b).filterMap f).Perm ((f b).toList ++ xs.filterMap f) := by
  have hcons : ∀ (x : α) (ys : List α), (x :: ys).filterMap f = (f x).toList ++ ys.filterMap f := by
    intro x ys
    cases hx : f x <;> simp [hx]
  rw [← hcons, ← hcons]
  exact (perm_set h b).filterMap f

theorem forall_set {P : α → Prop} (h : ∀ x ∈ xs, P x) (hb : P b) : ∀ x ∈ xs.set k b, P x := by
  intro x hx
  rcases List.mem_or_eq_of_mem_set hx with hx | rfl
  · exact h x hx
  · exact hb

theorem bind_getElem?_set (f : α → Option β) (h : xs[k]? = some a) (b : α) (j : Nat) :
    (xs.set k b)[j]?.bind f = if j = k then f b else xs[j]?.bind f := by
  obtain ⟨hlt, -⟩ := List.getElem?_eq_some_iff.mp h
  by_cases hj : j = k
  · subst hj
    simp [hlt]
  · rw [if_neg hj, List.getElem?_set_ne (Ne.symm hj)]

theorem bind_getElem?_concat {f : α → Option β} (ha : f a = none) (j : Nat) :
    (xs ++ [a])[j]?.bind f = xs[j]?.bind f := by
  rcases Nat.lt_or_ge j xs.length with hj | hj
  · rw [List.getElem?_append_left hj]
  · rw [List.getElem?_append_right hj, List.getElem?_eq_none hj]
    cases j - xs.length with
    | zero => simpa using ha
    | succ n => simp

/-- What is read off one more index, of which there was nothing before. -/
theorem filterMap_concat {ι : Type*} {f g : ι → Option β} {is : List ι} {i : ι} {b : β}
    (hi : i ∉ is) (hg : ∀ j, j ≠ i → g j = f j) (hb : g i = some b) :
    (is ++ [i]).filterMap g = is.filterMap f ++ [b] := by
  have hold : is.filterMap g = is.filterMap f := List.filterMap_congr fun j hj =>
    hg j fun he => hi (he ▸ hj)
  rw [List.filterMap_append, hold, List.filterMap_cons, hb, List.filterMap_nil]

end Lib.Slots

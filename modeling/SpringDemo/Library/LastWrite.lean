import Mathlib.Data.List.Dedup
import Mathlib.Data.List.Induction
import Mathlib.Order.Basic

/-! The last of a sequence of writes, and the order in which several writers write last. -/
namespace Lib.LastWrite

variable {α β γ : Type*} {f : α → Option β} {a : α} {b : β} {l l' : List α}

/-- The last value that the elements of a list write, some of which write nothing. -/
def last (f : α → Option β) (l : List α) : Option β := l.reverse.findSome? f

@[simp] theorem last_nil : last f [] = none := rfl

theorem last_append : last f (l ++ l') = (last f l').or (last f l) := by
  rw [last, List.reverse_append, List.findSome?_append]
  rfl

theorem last_cons : last f (a :: l) = (last f l).or (f a) := by
  rw [← List.singleton_append, last_append]
  cases hf : f a <;> simp [last, hf]

theorem last_concat : last f (l ++ [a]) = (f a).or (last f l) := by
  rw [last_append]
  cases hf : f a <;> simp [last, hf]

theorem last_eq_none_iff : last f l = none ↔ ∀ a ∈ l, f a = none := by
  simp [last]

theorem exists_of_last (h : last f l = some b) : ∃ a ∈ l, f a = some b := by
  obtain ⟨a, ha, hb⟩ := List.exists_of_findSome?_eq_some h
  exact ⟨a, List.mem_reverse.mp ha, hb⟩

/-- The last write is followed by none. -/
theorem split_of_last (h : last f l = some b) :
    ∃ pre a post, l = pre ++ a :: post ∧ f a = some b ∧ ∀ c ∈ post, f c = none := by
  induction l using List.reverseRecOn with
  | nil => cases h
  | append_singleton l a ih =>
    rw [last_concat] at h
    cases ha : f a with
    | some b' =>
      rw [ha, Option.some_or] at h
      exact ⟨l, a, [], rfl, ha.trans h, fun c hc => absurd hc List.not_mem_nil⟩
    | none =>
      rw [ha, Option.none_or] at h
      obtain ⟨pre, a', post, rfl, hb, hpost⟩ := ih h
      refine ⟨pre, a', post ++ [a], by simp, hb, ?_⟩
      exact List.forall_mem_append.mpr ⟨hpost, List.forall_mem_singleton.mpr ha⟩

theorem last_congr {g : α → Option β} (h : ∀ a ∈ l, f a = g a) : last f l = last g l := by
  induction l with
  | nil => rfl
  | cons a l ih =>
    rw [last_cons, last_cons, h a List.mem_cons_self,
      ih fun a ha => h a (List.mem_cons_of_mem _ ha)]

theorem last_map (g : γ → α) (l : List γ) : last f (l.map g) = last (fun c => f (g c)) l := by
  induction l with
  | nil => rfl
  | cons c l ih => rw [List.map_cons, last_cons, last_cons, ih]

theorem last_filterMap (g : γ → Option α) (l : List γ) :
    last f (l.filterMap g) = last (fun c => (g c).bind f) l := by
  induction l with
  | nil => rfl
  | cons c l ih => cases hg : g c <;> simp [last_cons, hg, ih]

theorem map_last (g : β → γ) (l : List α) :
    (last f l).map g = last (fun a => (f a).map g) l := by
  induction l with
  | nil => rfl
  | cons a l ih => rw [last_cons, last_cons, ← ih]; cases last f l <;> simp

/-- Of several writes by one writer only the last one counts. -/
theorem last_dedup [DecidableEq α] (f : α → Option β) (l : List α) :
    last f l.dedup = last f l := by
  induction l with
  | nil => rfl
  | cons a l ih =>
    by_cases ha : a ∈ l
    · rw [List.dedup_cons_of_mem ha, ih, last_cons]
      cases hl : last f l with
      | some b => rfl
      | none => rw [last_eq_none_iff.mp hl a ha]; rfl
    · rw [List.dedup_cons_of_notMem ha, last_cons, last_cons, ih]

theorem last_eq_getLast? : last f l = (l.filterMap f).getLast? := by
  rw [last, List.getLast?_eq_head?_reverse, ← List.filterMap_reverse, List.head?_filterMap]

/-- What the last write carries with it is the last to be carried. -/
theorem last_bind {g : β → Option γ} {c : γ} (h : last f l = some b) (hc : g b = some c) :
    last (fun a => (f a).bind g) l = some c := by
  induction l with
  | nil => cases h
  | cons a l ih =>
    rw [last_cons] at h ⊢
    cases hl : last f l with
    | some b' =>
      obtain rfl : b' = b := by simpa [hl] using h
      rw [ih hl]
      rfl
    | none =>
      have hn : last (fun a => (f a).bind g) l = none :=
        last_eq_none_iff.mpr fun a ha => by simp [last_eq_none_iff.mp hl a ha]
      have hfa : f a = some b := by simpa [hl] using h
      simp [hn, hfa, hc]

/-- Writes are in order when none is followed by a smaller one. -/
theorem pairwise_iff_last [Preorder β] : (l.filterMap f).Pairwise (· ≤ ·) ↔
    ∀ pre a post, l = pre ++ a :: post → ∀ b c, last f pre = some b → f a = some c → b ≤ c := by
  constructor
  · rintro h pre a post rfl b c hb hc
    rw [last_eq_getLast?] at hb
    rw [List.filterMap_append, List.pairwise_append] at h
    exact h.2.2 b (List.mem_of_getLast? hb) c (List.mem_filterMap.mpr ⟨a, by simp, hc⟩)
  · intro h
    induction l using List.reverseRecOn with
    | nil => simp
    | append_singleton l a ih =>
      have hl := ih fun pre a' post he => h pre a' (post ++ [a]) (by simp [he])
      rw [List.filterMap_append, List.pairwise_append]
      refine ⟨hl, by cases hf : f a <;> simp [hf], fun b hb c hc => ?_⟩
      have hfa : f a = some c := by simpa using hc
      obtain ⟨m, hm⟩ := Option.isSome_iff_exists.mp
        (List.getLast?_isSome.mpr (List.ne_nil_of_mem hb))
      have hmc := h l a [] rfl m c (last_eq_getLast?.trans hm) hfa
      obtain ⟨xs, hxs⟩ := List.getLast?_eq_some_iff.mp hm
      rw [hxs, List.pairwise_append] at hl
      rw [hxs, List.mem_append, List.mem_singleton] at hb
      rcases hb with hb | rfl
      · exact (hl.2.2 b hb m (List.mem_singleton_self _)).trans hmc
      · exact hmc

end Lib.LastWrite

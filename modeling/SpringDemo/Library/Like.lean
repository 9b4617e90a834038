import Mathlib.Data.List.Infix

/-! Patterns with wildcards, and when one of them looks for a substring. -/
namespace Lib.Like

/-- What a pattern is made of. -/
inductive Part (α : Type*) where
  /-- any string -/
  | run
  /-- any one character -/
  | one
  | char (a : α)

/-- The characters that a pattern does not take literally. -/
structure Wildcards (α : Type*) where
  run : α
  one : α
  escape : α
  run_ne_escape : run ≠ escape
  run_ne_one : run ≠ one

variable {α : Type*} [DecidableEq α]

/-- The string can be cut into what the parts stand for. -/
def like : List (Part α) → List α → Bool
  | [], s => s.isEmpty
  | .run :: p, s => s.tails.any (like p)
  | .one :: _, [] => false
  | .one :: p, _ :: s => like p s
  | .char _ :: _, [] => false
  | .char a :: p, b :: s => a == b && like p s

/-- A character that is not escaped. -/
def Wildcards.part (w : Wildcards α) (a : α) : Part α :=
  if a = w.run then .run else if a = w.one then .one else .char a

/-- The parts of a pattern. What follows the escape character stands for itself, and so does the
escape character at the end. -/
def Wildcards.parts (w : Wildcards α) : List α → List (Part α)
  | [] => []
  | [a] => [if a = w.escape then .char a else w.part a]
  | a :: b :: p => if a = w.escape then .char b :: w.parts p else w.part a :: w.parts (b :: p)

/-- The string stands for itself in a pattern. -/
def Wildcards.Plain (w : Wildcards α) (s : List α) : Prop :=
  ∀ a ∈ s, a ≠ w.run ∧ a ≠ w.one ∧ a ≠ w.escape

variable {w : Wildcards α} {p : List (Part α)} {s k : List α} {a b : α}

@[simp] theorem like_nil : like ([] : List (Part α)) s = true ↔ s = [] := by
  simp [like]

theorem like_run : like (.run :: p) s = true ↔ ∃ t, t <:+ s ∧ like p t = true := by
  simp [like, List.mem_tails]

theorem like_char : like (.char a :: p) s = true ↔ ∃ t, s = a :: t ∧ like p t = true := by
  cases s with
  | nil => simp [like]
  | cons b s =>
    simp only [like, Bool.and_eq_true, beq_iff_eq, List.cons.injEq]
    constructor
    · rintro ⟨rfl, h⟩
      exact ⟨s, ⟨rfl, rfl⟩, h⟩
    · rintro ⟨t, ⟨rfl, rfl⟩, h⟩
      exact ⟨rfl, h⟩

/-- A run at the end takes whatever is left. -/
theorem like_run_last : like [.run] s = true :=
  like_run.mpr ⟨[], List.nil_suffix, like_nil.mpr rfl⟩

theorem like_chars (k : List α) (s : List α) :
    like (k.map .char ++ p) s = true ↔ ∃ t, s = k ++ t ∧ like p t = true := by
  induction k generalizing s with
  | nil => simp
  | cons a k ih => simp [like_char, ih]

/-- Between two runs a string is looked for anywhere. -/
theorem like_infix : like (.run :: (k.map .char ++ [.run])) s = true ↔ k <:+: s := by
  rw [like_run]
  constructor
  · rintro ⟨t, ⟨u, rfl⟩, ht⟩
    obtain ⟨v, rfl, -⟩ := (like_chars k t).mp ht
    exact ⟨u, v, List.append_assoc ..⟩
  · rintro ⟨u, v, rfl⟩
    exact ⟨k ++ v, ⟨u, (List.append_assoc ..).symm⟩, (like_chars k _).mpr ⟨v, rfl, like_run_last⟩⟩

theorem part_run : w.part w.run = .run := if_pos rfl

theorem parts_escape : w.parts (w.escape :: b :: s) = .char b :: w.parts s := by
  rw [Wildcards.parts, if_pos rfl]

theorem parts_cons (h : a ≠ w.escape) : w.parts (a :: s) = w.part a :: w.parts s := by
  cases s with
  | nil => simp [Wildcards.parts, h]
  | cons b s => rw [Wildcards.parts, if_neg h]

theorem parts_run (s : List α) : w.parts (w.run :: s) = .run :: w.parts s := by
  rw [parts_cons w.run_ne_escape, part_run]

theorem parts_of_plain (h : w.Plain k) (s : List α) :
    w.parts (k ++ s) = k.map .char ++ w.parts s := by
  induction k with
  | nil => rfl
  | cons a k ih =>
    obtain ⟨hr, ho, he⟩ := h a List.mem_cons_self
    rw [List.cons_append, parts_cons he, ih fun b hb => h b (List.mem_cons_of_mem _ hb),
      Wildcards.part, if_neg hr, if_neg ho]
    rfl

/-- A run stands for nothing, and any one character is that of a run. -/
def Wildcards.sample (w : Wildcards α) : List (Part α) → List α
  | [] => []
  | .run :: p => w.sample p
  | .one :: p => w.run :: w.sample p
  | .char a :: p => a :: w.sample p

theorem like_sample (w : Wildcards α) (p : List (Part α)) : like p (w.sample p) = true := by
  induction p with
  | nil => rfl
  | cons x p ih =>
    cases x with
    | run => exact like_run.mpr ⟨_, List.suffix_rfl, ih⟩
    | one => exact ih
    | char a => exact like_char.mpr ⟨_, rfl, ih⟩

omit [DecidableEq α] in
/-- A shorter text is another one. -/
theorem le_and_ne_of_shorter {s k : List α} {P : Prop} (h : s.length < k.length) :
    s.length ≤ k.length ∧ (s = k → P) :=
  ⟨h.le, fun he => absurd (congrArg List.length he) h.ne⟩

/-- The shortest string of a pattern is at most as long as the pattern is without its last run, and
it is that text only if the text has no wildcard. -/
theorem sample_parts (w : Wildcards α) (k : List α) :
    (w.sample (w.parts (k ++ [w.run]))).length ≤ k.length ∧
      (w.sample (w.parts (k ++ [w.run])) = k → w.Plain k) := by
  induction hn : k.length using Nat.strong_induction_on generalizing k with
  | _ n ih =>
    subst hn
    rcases k with _ | ⟨a, k⟩
    · rw [List.nil_append, parts_run]
      exact ⟨le_rfl, fun _ => by simp [Wildcards.Plain]⟩
    by_cases ha : a = w.escape
    · subst ha
      -- the escape character is lost, or makes a character of the last run
      rcases k with _ | ⟨b, k⟩
      · rw [List.singleton_append, parts_escape]
        refine ⟨le_rfl, fun h => ?_⟩
        exact absurd (List.cons.inj h).1 w.run_ne_escape
      · obtain ⟨hl, -⟩ := ih k.length (by simp only [List.length_cons]; omega) k rfl
        rw [List.cons_append, List.cons_append, parts_escape]
        refine le_and_ne_of_shorter ?_
        simp only [Wildcards.sample, List.length_cons]
        omega
    · obtain ⟨hl, hk⟩ := ih k.length (by simp) k rfl
      rw [List.cons_append, parts_cons ha, Wildcards.part]
      split
      · refine le_and_ne_of_shorter ?_
        simp only [Wildcards.sample, List.length_cons]
        omega
      · rename_i hr
        split
        · rename_i ho
          refine ⟨Nat.succ_le_succ hl, fun h => ?_⟩
          exact absurd ((List.cons.inj h).1.trans ho) w.run_ne_one
        · rename_i ho
          refine ⟨Nat.succ_le_succ hl, fun h => ?_⟩
          have hplain := hk (List.cons.inj h).2
          intro b hb
          rcases List.mem_cons.mp hb with rfl | hb
          · exact ⟨hr, ho, ha⟩
          · exact hplain b hb

/-- A text between two runs is looked for as a substring, whatever it is looked for in, exactly when
it has no wildcard. -/
theorem like_infix_iff_plain (w : Wildcards α) (k : List α) :
    (∀ s, like (w.parts (w.run :: (k ++ [w.run]))) s = true ↔ k <:+: s) ↔ w.Plain k := by
  constructor
  · intro h
    obtain ⟨hl, hk⟩ := sample_parts w k
    have hs := like_run.mpr ⟨_, List.suffix_rfl, like_sample w (w.parts (k ++ [w.run]))⟩
    rw [← parts_run, h] at hs
    exact hk (hs.eq_of_length_le hl).symm
  · intro h s
    rw [parts_run, parts_of_plain h, parts_run]
    exact like_infix

end Lib.Like

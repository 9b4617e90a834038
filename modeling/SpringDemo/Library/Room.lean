import Mathlib.Data.List.Basic

/-! A room: members come and go, and what one of them says is heard by those who are there. -/
namespace Lib.Room

inductive Act (μ τ : Type*)
  | join (m : μ)
  | leave (m : μ)
  | say (m : μ) (t : τ)

/-- What is said to a member who comes in, and whether a speaker hears himself. -/
structure Rules (τ : Type*) where
  greeting : List τ
  echo : Bool

variable {μ τ : Type*} [DecidableEq μ]

/-- Whether the member is there after the act, being there before it or not. -/
def here (m : μ) (b : Bool) : Act μ τ → Bool
  | .join m' => b || m' = m
  | .leave m' => b && m' ≠ m
  | .say _ _ => b

/-- Whether the member is there after a history. -/
def present (m : μ) (b : Bool) (as : List (Act μ τ)) : Bool := as.foldl (here m) b

/-- What a member hears of one act. -/
def hears (R : Rules τ) (m : μ) (b : Bool) : Act μ τ → List τ
  | .join m' => if m' = m then R.greeting else []
  | .leave _ => []
  | .say m' t => if b && (R.echo || m' ≠ m) then [t] else []

/-- What a member hears of a history. -/
def heard (R : Rules τ) (m : μ) : Bool → List (Act μ τ) → List τ
  | _, [] => []
  | b, a :: as => hears R m b a ++ heard R m (here m b a) as

variable {R : Rules τ} {m : μ} {b : Bool} {as as' : List (Act μ τ)} {a : Act μ τ}

@[simp] theorem heard_nil : heard R m b [] = [] := rfl

@[simp] theorem present_nil : present m b ([] : List (Act μ τ)) = b := rfl

theorem present_append : present m b (as ++ as') = present m (present m b as) as' :=
  List.foldl_append

theorem present_concat : present m b (as ++ [a]) = here m (present m b as) a := present_append

theorem heard_append :
    heard R m b (as ++ as') = heard R m b as ++ heard R m (present m b as) as' := by
  induction as generalizing b with
  | nil => rfl
  | cons a as ih =>
    simp only [List.cons_append, heard, ih, List.append_assoc]
    rfl

theorem heard_concat :
    heard R m b (as ++ [a]) = heard R m b as ++ hears R m (present m b as) a := by
  simp [heard_append, heard]

/-- Who does not leave is there from the time he comes in. -/
theorem present_iff_of_staying (hl : .leave m ∉ as) :
    present m b as = true ↔ b = true ∨ .join m ∈ as := by
  induction as generalizing b with
  | nil => simp
  | cons a as ih =>
    rw [present, List.foldl_cons]
    refine (ih fun h => hl (by simp [h])).trans ?_
    cases a with
    | join m' =>
      by_cases hm : m' = m
      · simp [here, hm]
      · simp [here, hm, Ne.symm hm]
    | leave m' =>
      have hne : m' ≠ m := fun he => hl (by simp [he])
      simp [here, hne]
    | say m' t => simp [here]

/-- Outside the room nothing is heard. -/
theorem heard_of_outside (hj : .join m ∉ as) : heard R m false as = [] := by
  induction as with
  | nil => rfl
  | cons a as ih =>
    have has : .join m ∉ as := fun h => hj (by simp [h])
    cases a with
    | join m' =>
      have hne : m' ≠ m := fun he => hj (by simp [he])
      simpa [heard, hears, here, hne] using ih has
    | leave m' => simpa [heard, hears, here] using ih has
    | say m' t => simpa [heard, hears, here] using ih has

/-- What is said to a member who stays. -/
def said (R : Rules τ) (m : μ) : Act μ τ → Option τ
  | .say m' t => if R.echo || m' ≠ m then some t else none
  | _ => none

/-- A member who stays hears everything that is said to him, once and in its order. -/
theorem heard_of_staying (hj : .join m ∉ as) (hl : .leave m ∉ as) :
    heard R m true as = as.filterMap (said R m) := by
  induction as with
  | nil => rfl
  | cons a as ih =>
    have has := ih (fun h => hj (by simp [h])) (fun h => hl (by simp [h]))
    cases a with
    | join m' =>
      have hne : m' ≠ m := fun he => hj (by simp [he])
      simpa [heard, hears, here, hne, said, List.filterMap_cons] using has
    | leave m' =>
      have hne : m' ≠ m := fun he => hl (by simp [he])
      simpa [heard, hears, here, hne, said, List.filterMap_cons] using has
    | say m' t =>
      by_cases hs : R.echo = true ∨ m' ≠ m
      · simpa [heard, hears, here, said, List.filterMap_cons, hs] using has
      · simpa [heard, hears, here, said, List.filterMap_cons, hs] using has

/-- A member's whole time in the room, up to now. -/
theorem heard_of_joined {pre post : List (Act μ τ)} (hpre : .join m ∉ pre)
    (hj : .join m ∉ post) (hl : .leave m ∉ post) :
    heard R m false (pre ++ .join m :: post) = R.greeting ++ post.filterMap (said R m) := by
  rw [heard_append, heard_of_outside hpre, List.nil_append, heard, ← heard_of_staying hj hl]
  simp [hears, here]

end Lib.Room

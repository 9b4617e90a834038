import Mathlib.Data.List.Induction

/-! A table whose search compares a stored hash first and the keys after it. It behaves as a
partial function only when equal keys have equal hashes, which is what `LawfulKeyed` says. -/
namespace Lib.HashTable

/-- A key type's own hash code and equality test. -/
class Keyed (κ : Type) where
  hash : κ → UInt32
  eqv : κ → κ → Bool

/-- The contract between the two: an equivalence that the hash respects. -/
class LawfulKeyed (κ : Type) [Keyed κ] : Prop where
  refl : ∀ a : κ, Keyed.eqv a a = true
  symm : ∀ {a b : κ}, Keyed.eqv a b = true → Keyed.eqv b a = true
  trans : ∀ {a b c : κ}, Keyed.eqv a b = true → Keyed.eqv b c = true → Keyed.eqv a c = true
  hash_eq : ∀ {a b : κ}, Keyed.eqv a b = true → Keyed.hash a = Keyed.hash b

structure Node (κ ν : Type) where
  hash : UInt32
  key : κ
  value : ν

abbrev Table (κ ν : Type) := List (Node κ ν)

variable {κ ν α : Type} [Keyed κ]

/-- The node is the one a search for `k` stops at. -/
def Node.hits (n : Node κ ν) (k : κ) : Bool := n.hash == Keyed.hash k && Keyed.eqv k n.key

def get : Table κ ν → κ → Option ν
  | [], _ => none
  | n :: t, k => if n.hits k then some n.value else get t k

/-- A hit keeps the stored key and replaces its value; a miss appends a node. -/
def put : Table κ ν → κ → ν → Table κ ν
  | [], k, v => [⟨Keyed.hash k, k, v⟩]
  | n :: t, k, v => if n.hits k then { n with value := v } :: t else n :: put t k v

/-- Put one entry for each element of a list, in its order. -/
def putAll (key : α → κ) (value : α → ν) (t : Table κ ν) (xs : List α) : Table κ ν :=
  xs.foldl (fun t x => put t (key x) (value x)) t

variable {key : α → κ} {value : α → ν}

@[simp] theorem get_nil (k : κ) : get ([] : Table κ ν) k = none := rfl

theorem putAll_append (t : Table κ ν) (xs : List α) (x : α) :
    putAll key value t (xs ++ [x]) = put (putAll key value t xs) (key x) (value x) := by
  simp [putAll]

variable [LawfulKeyed κ]

/-- Two searches that stop at one node are searches for equal keys, and conversely. -/
theorem hits_iff_of_hits {n : Node κ ν} {k k' : κ} (h : n.hits k = true) :
    n.hits k' = true ↔ Keyed.eqv k' k = true := by
  simp only [Node.hits, Bool.and_eq_true, beq_iff_eq] at h ⊢
  constructor
  · rintro ⟨_, hk'⟩
    exact LawfulKeyed.trans hk' (LawfulKeyed.symm h.2)
  · intro he
    exact ⟨h.1.trans (LawfulKeyed.hash_eq he).symm, LawfulKeyed.trans he h.2⟩

theorem get_put_of_eqv {k k' : κ} (he : Keyed.eqv k' k = true) (t : Table κ ν) (v : ν) :
    get (put t k v) k' = some v := by
  induction t with
  | nil => simp [put, get, Node.hits, he, LawfulKeyed.hash_eq he]
  | cons n t ih =>
    by_cases hk : n.hits k = true
    · have hk' : ({ n with value := v } : Node κ ν).hits k' = true :=
        (hits_iff_of_hits (n := { n with value := v }) hk).mpr he
      simp [put, hk, get, hk']
    · have hk' : ¬ n.hits k' = true := fun h =>
        hk ((hits_iff_of_hits h).mpr (LawfulKeyed.symm he))
      simp [put, hk, get, hk', ih]

theorem get_put_of_not_eqv {k k' : κ} (he : Keyed.eqv k' k = false) (t : Table κ ν) (v : ν) :
    get (put t k v) k' = get t k' := by
  induction t with
  | nil => simp [put, get, Node.hits, he]
  | cons n t ih =>
    by_cases hk : n.hits k = true
    · have hn : ¬ n.hits k' = true := fun h => by
        simp [(hits_iff_of_hits hk).mp h] at he
      have hk' : ¬ ({ n with value := v } : Node κ ν).hits k' = true := hn
      simp [put, hk, get, hn, hk']
    · simp [put, hk, get, ih]

/-- Keys that the list does not mention keep what they had. -/
theorem get_putAll_of_not_mem {k : κ} (t : Table κ ν) {xs : List α}
    (h : ∀ x ∈ xs, Keyed.eqv k (key x) = false) : get (putAll key value t xs) k = get t k := by
  induction xs using List.reverseRecOn with
  | nil => rfl
  | append_singleton xs x ih =>
    rw [putAll_append, get_put_of_not_eqv (h x (by simp))]
    exact ih fun y hy => h y (by simp [hy])

/-- A key that the list mentions gets the value of the entry that mentions it, when the
list does not mention it with two values. -/
theorem get_putAll_of_mem {k : κ} (t : Table κ ν) {xs : List α} {x : α} (hx : x ∈ xs)
    (hk : Keyed.eqv k (key x) = true)
    (hu : ∀ y ∈ xs, Keyed.eqv k (key y) = true → value y = value x) :
    get (putAll key value t xs) k = some (value x) := by
  induction xs using List.reverseRecOn with
  | nil => simp at hx
  | append_singleton xs y ih =>
    rw [putAll_append]
    by_cases hy : Keyed.eqv k (key y) = true
    · rw [get_put_of_eqv hy, hu y (by simp) hy]
    · rw [get_put_of_not_eqv (by simpa using hy)]
      have hne : x ≠ y := fun he => hy (he ▸ hk)
      exact ih (by simpa [hne] using hx) fun z hz => hu z (by simp [hz])

end Lib.HashTable

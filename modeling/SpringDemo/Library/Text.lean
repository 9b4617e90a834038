import Mathlib.Data.List.Basic

/-! Decimal numerals, and a text that a separator divides at its last place. -/
namespace Lib.Text

variable {m m' : Nat} {n n' : Int} {c : Char}

theorem isDigit_of_mem_toDigits (h : c ∈ Nat.toDigits 10 m) : c.isDigit = true :=
  Nat.isDigit_of_mem_toDigits (by decide) (by decide) h

theorem toDigits_injective (h : Nat.toDigits 10 m = Nat.toDigits 10 m') : m = m' := by
  have hd := congrArg (fun ds => Nat.ofDigitChars 10 ds 0) h
  simpa using hd

theorem toList_ofNat (m : Nat) : (toString (Int.ofNat m)).toList = Nat.toDigits 10 m :=
  (congrArg String.toList Nat.toString_eq_repr).trans Nat.toList_repr

theorem toList_negSucc (m : Nat) :
    (toString (Int.negSucc m)).toList = '-' :: Nat.toDigits 10 (m + 1) := by
  have h : (toString (Int.negSucc m)).toList = ("-" ++ toString (m + 1)).toList := rfl
  rw [h, String.toList_append, Nat.toString_eq_repr, Nat.toList_repr]
  rfl

/-- A numeral has digits, and a minus before them or none. -/
theorem mem_numeral (h : c ∈ (toString n).toList) : c = '-' ∨ c.isDigit = true := by
  cases n with
  | ofNat m =>
    rw [toList_ofNat] at h
    exact .inr (isDigit_of_mem_toDigits h)
  | negSucc m =>
    rw [toList_negSucc, List.mem_cons] at h
    exact h.imp_right isDigit_of_mem_toDigits

/-- Digits and the minus come before the colon. -/
theorem toNat_lt_of_mem_numeral (h : c ∈ (toString n).toList) : c.toNat < 58 := by
  rcases mem_numeral h with rfl | hd
  · decide
  · have hle : c ≤ '9' := of_decide_eq_true (Bool.and_eq_true_iff.mp hd).2
    exact Nat.lt_succ_of_le hle

theorem toDigits_ne_minus (ds : List Char) : Nat.toDigits 10 m ≠ '-' :: ds := by
  intro h
  have hm : '-' ∈ Nat.toDigits 10 m := h ▸ List.mem_cons_self
  exact absurd (isDigit_of_mem_toDigits hm) (by decide)

/-- Two integers that are written alike are the same. -/
theorem numeral_injective (h : (toString n).toList = (toString n').toList) : n = n' := by
  cases n with
  | ofNat m =>
    cases n' with
    | ofNat m' =>
      rw [toList_ofNat, toList_ofNat] at h
      exact congrArg Int.ofNat (toDigits_injective h)
    | negSucc m' =>
      rw [toList_ofNat, toList_negSucc] at h
      exact absurd h (toDigits_ne_minus _)
  | negSucc m =>
    cases n' with
    | ofNat m' =>
      rw [toList_negSucc, toList_ofNat] at h
      exact absurd h.symm (toDigits_ne_minus _)
    | negSucc m' =>
      rw [toList_negSucc, toList_negSucc] at h
      have hs := toDigits_injective (List.cons.inj h).2
      exact congrArg Int.negSucc (Nat.succ.inj hs)

/-- The whole tells what stands before its last separator, and what behind. -/
theorem append_cons_inj_of_last {α : Type*} {x : α} {xs xs' ys ys' : List α} (hy : x ∉ ys)
    (hy' : x ∉ ys') : xs ++ x :: ys = xs' ++ x :: ys' ↔ xs = xs' ∧ ys = ys' := by
  constructor
  · intro h
    rcases List.append_eq_append_iff.mp h with ⟨zs, rfl, hz⟩ | ⟨zs, rfl, hz⟩
    · cases zs with
      | nil => simpa using hz
      | cons z zs =>
        obtain ⟨rfl, rfl⟩ := List.cons.inj hz
        exact absurd (List.mem_append_right zs List.mem_cons_self) hy
    · cases zs with
      | nil => simpa using hz.symm
      | cons z zs =>
        obtain ⟨rfl, rfl⟩ := List.cons.inj hz
        exact absurd (List.mem_append_right zs List.mem_cons_self) hy'
  · rintro ⟨rfl, rfl⟩
    rfl

end Lib.Text

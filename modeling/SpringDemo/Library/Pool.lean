import Mathlib.Algebra.Order.Group.Multiset
import SpringDemo.Library.Runs

/-! An abstract pool of resources: what is idle, what is lent out and what has been retired,
with every resource that was ever supplied. -/
namespace Lib.Pool

open Runs

variable {ρ : Type*}

@[ext] structure State (ρ : Type*) where
  idle : Multiset ρ
  lent : Multiset ρ
  retired : Multiset ρ
  supplied : Multiset ρ

def empty : State ρ := ⟨0, 0, 0, 0⟩

inductive Action (ρ : Type*)
  | supply (r : ρ)
  | borrow (r : ρ)
  | giveBack (r : ρ)
  | retire (r : ρ)

/-- A resource moves between the idle and the lent ones, or leaves the idle ones for good. -/
inductive Step : State ρ → Action ρ → State ρ → Prop
  | supply (p : State ρ) (r : ρ) :
      Step p (.supply r) { p with idle := r ::ₘ p.idle, supplied := r ::ₘ p.supplied }
  | borrow (p : State ρ) (r : ρ) (i : Multiset ρ) (h : p.idle = r ::ₘ i) :
      Step p (.borrow r) { p with idle := i, lent := r ::ₘ p.lent }
  | giveBack (p : State ρ) (r : ρ) (l : Multiset ρ) (h : p.lent = r ::ₘ l) :
      Step p (.giveBack r) { p with idle := r ::ₘ p.idle, lent := l }
  | retire (p : State ρ) (r : ρ) (i : Multiset ρ) (h : p.idle = r ::ₘ i) :
      Step p (.retire r) { p with idle := i, retired := r ::ₘ p.retired }

/-- Every supplied resource is in exactly one of the three places. -/
def Conserved (p : State ρ) : Prop := p.idle + p.lent + p.retired = p.supplied

theorem conserved_empty : Conserved (empty : State ρ) := rfl

theorem conserved_step {p q : State ρ} {a : Action ρ} (h : Step p a q) (hp : Conserved p) :
    Conserved q := by
  cases h with
  | supply r => simpa [Conserved] using hp
  | borrow r i h => simpa [Conserved, h] using hp
  | giveBack r l h => simpa [Conserved, h] using hp
  | retire r i h => simpa [Conserved, h] using hp

theorem conserved_run {p q : State ρ} {as : List (Action ρ)} (h : Run Step p as q)
    (hp : Conserved p) : Conserved q :=
  h.invariant (fun _ _ _ => conserved_step) hp

/-- Retiring all idle resources, one after the other. -/
theorem retire_all (p : State ρ) (l : List ρ) (hl : p.idle = ↑l) :
    ∃ as, Run Step p as { p with idle := 0, retired := ↑l + p.retired } := by
  induction l generalizing p with
  | nil =>
    refine ⟨[], ?_⟩
    have he : ({ p with idle := 0, retired := ↑([] : List ρ) + p.retired } : State ρ) = p := by
      ext1 <;> simp_all
    rw [he]
    exact .start
  | cons r l ih =>
    have hs := Step.retire p r ↑l (by simpa using hl)
    obtain ⟨as, ha⟩ := ih { p with idle := ↑l, retired := r ::ₘ p.retired } rfl
    refine ⟨[.retire r] ++ as, (Run.single hs).append ?_⟩
    have hr : (↑(r :: l) : Multiset ρ) + p.retired = ↑l + r ::ₘ p.retired := by
      rw [← Multiset.cons_coe, Multiset.cons_add, Multiset.add_cons]
    rw [hr]
    exact ha

/-- When no resource was supplied twice, none is in two places or twice in one. -/
theorem exclusive {p : State ρ} (hp : Conserved p) (hn : p.supplied.Nodup) :
    p.idle.Nodup ∧ p.lent.Nodup ∧ ∀ r ∈ p.idle, r ∉ p.lent := by
  rw [← hp] at hn
  have hil := (Multiset.nodup_add.mp hn).1
  obtain ⟨hi, hl, hd⟩ := Multiset.nodup_add.mp hil
  exact ⟨hi, hl, fun r hr hr' => Multiset.disjoint_left.mp hd hr hr'⟩

/-- The pool runs dry exactly when everything that was not retired is lent out. -/
theorem idle_eq_zero_iff {p : State ρ} (hp : Conserved p) :
    p.idle = 0 ↔ p.supplied.card ≤ p.lent.card + p.retired.card := by
  have hc := congrArg Multiset.card hp
  simp only [Multiset.card_add] at hc
  rw [← Multiset.card_eq_zero]
  omega

end Lib.Pool

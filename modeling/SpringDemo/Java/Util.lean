import SpringDemo.Java.Lang

/-! Strings compared without regard to case, and lists as `java.util` searches them. -/
namespace SpringDemo.Java

/-- `Character.toUpperCase` and `Character.toLowerCase`, whatever the platform's Unicode tables
say. -/
structure CaseMapping where
  toUpperCase : UInt16 → UInt16
  toLowerCase : UInt16 → UInt16

/-- The tables for Basic Latin; no other character has a counterpart. -/
def CaseMapping.basicLatin : CaseMapping where
  toUpperCase c := if 97 ≤ c ∧ c ≤ 122 then c - 32 else c
  toLowerCase c := if 65 ≤ c ∧ c ≤ 90 then c + 32 else c

/-- What `regionMatches` asks of two characters when it ignores case. -/
def CaseMapping.sameChar (cm : CaseMapping) (c d : UInt16) : Bool :=
  c == d || cm.toUpperCase c == cm.toUpperCase d ||
    cm.toLowerCase (cm.toUpperCase c) == cm.toLowerCase (cm.toUpperCase d)

/-- `s.equalsIgnoreCase(t)` of two strings that are not null. -/
def equalsIgnoreCase (cm : CaseMapping) (s t : JString) : Bool :=
  s.length == t.length && (s.zip t).all fun (c, d) => cm.sameChar c d

/-- The character that stands for all that are the same up to case. -/
def CaseMapping.fold (cm : CaseMapping) (c : UInt16) : UInt16 :=
  cm.toLowerCase (cm.toUpperCase c)

section IgnoreCase

variable {cm : CaseMapping} {s t u : JString}

theorem CaseMapping.sameChar_iff {c d : UInt16} :
    cm.sameChar c d = true ↔ cm.fold c = cm.fold d := by
  simp only [sameChar, fold, Bool.or_eq_true, beq_iff_eq]
  constructor
  · rintro ((rfl | h) | h)
    · rfl
    · rw [h]
    · exact h
  · exact .inr

/-- The third comparison decides, so ignoring case is an equivalence whatever the tables. -/
theorem equalsIgnoreCase_iff :
    equalsIgnoreCase cm s t = true ↔ s.map cm.fold = t.map cm.fold := by
  simp only [equalsIgnoreCase, Bool.and_eq_true, beq_iff_eq]
  induction s generalizing t with
  | nil => cases t <;> simp
  | cons c s ih =>
    cases t with
    | nil => simp
    | cons d t =>
      rw [List.map_cons, List.map_cons, List.cons.injEq, ← ih, ← CaseMapping.sameChar_iff]
      simp only [List.length_cons, Nat.add_right_cancel_iff, List.zip_cons_cons, List.all_cons,
        Bool.and_eq_true]
      exact and_left_comm

theorem equalsIgnoreCase_refl (s : JString) : equalsIgnoreCase cm s s = true :=
  equalsIgnoreCase_iff.mpr rfl

/-- What equals the one equals the other. -/
theorem equalsIgnoreCase_congr (h : equalsIgnoreCase cm s t = true) (u : JString) :
    equalsIgnoreCase cm s u = equalsIgnoreCase cm t u := by
  rw [Bool.eq_iff_iff, equalsIgnoreCase_iff, equalsIgnoreCase_iff, equalsIgnoreCase_iff.mp h]

theorem length_eq_of_equalsIgnoreCase (h : equalsIgnoreCase cm s t = true) :
    s.length = t.length := by
  simpa using congrArg List.length (equalsIgnoreCase_iff.mp h)

end IgnoreCase

/-- What `get(0)` of an empty list throws. -/
def indexOutOfBounds : Throwable :=
  ⟨.runtime, utf16 "java.lang.IndexOutOfBoundsException", some (utf16 "Index: 0, Size: 0")⟩

/-- `list.get(0)`. -/
def getFirst {α : Type} : List α → Except Throwable α
  | [] => .error indexOutOfBounds
  | x :: _ => .ok x

variable {α : Type} {p : α → Except Throwable Bool} {q : α → Bool} {xs : List α}

/-- `stream().filter(p).collect(toList())`; an exception of the predicate ends it. -/
def collect (p : α → Except Throwable Bool) : List α → Except Throwable (List α)
  | [] => .ok []
  | x :: xs => do
    let kept ← p x
    let rest ← collect p xs
    pure (if kept then x :: rest else rest)

/-- `for (x : xs) { if (p(x)) { found = x; break; } }`. -/
def findFirst (p : α → Except Throwable Bool) : List α → Except Throwable (Option α)
  | [] => .ok none
  | x :: xs => do
    let found ← p x
    if found then pure (some x) else findFirst p xs

theorem collect_ok (h : ∀ x ∈ xs, p x = .ok (q x)) : collect p xs = .ok (xs.filter q) := by
  induction xs with
  | nil => rfl
  | cons x xs ih =>
    rw [collect, h x List.mem_cons_self, ih fun y hy => h y (List.mem_cons_of_mem _ hy)]
    cases hq : q x <;> simp [hq, bind, Except.bind, pure, Except.pure]

theorem findFirst_ok (h : ∀ x ∈ xs, p x = .ok (q x)) : findFirst p xs = .ok (xs.find? q) := by
  induction xs with
  | nil => rfl
  | cons x xs ih =>
    rw [findFirst, h x List.mem_cons_self, ih fun y hy => h y (List.mem_cons_of_mem _ hy)]
    cases hq : q x <;> simp [hq, bind, Except.bind, pure, Except.pure]

/-- A predicate that throws anywhere is asked. -/
theorem of_collect_ok {ys : List α} (h : collect p xs = .ok ys) :
    ∀ x ∈ xs, ∃ b, p x = .ok b := by
  induction xs generalizing ys with
  | nil => simp
  | cons x xs ih =>
    rw [collect] at h
    cases hp : p x with
    | error e => simp [hp, bind, Except.bind] at h
    | ok b =>
      cases hc : collect p xs with
      | error e => simp [hp, hc, bind, Except.bind] at h
      | ok zs => simpa [hp] using ih hc

/-- A search that finds nothing has asked every element. -/
theorem of_findFirst_ok {found : Option α} (h : findFirst p xs = .ok found)
    (hn : ∀ x ∈ xs, p x ≠ .ok true) : ∀ x ∈ xs, ∃ b, p x = .ok b := by
  induction xs with
  | nil => simp
  | cons x xs ih =>
    rw [findFirst] at h
    cases hp : p x with
    | error e => simp [hp, bind, Except.bind] at h
    | ok b =>
      cases b with
      | true => exact absurd hp (hn x List.mem_cons_self)
      | false =>
        have hrest := ih (by simpa [hp, bind, Except.bind] using h)
          fun y hy => hn y (List.mem_cons_of_mem _ hy)
        simpa [hp] using hrest

end SpringDemo.Java

import Mathlib.Data.List.Basic

/-! The lines of a stream, and a reader that may have read beyond the line that it returns. -/
namespace Lib.Lines

/-- What ends a line: one of the two marks, or the first followed by the second. -/
structure Marks (α : Type*) where
  cr : α
  lf : α
  ne : cr ≠ lf

/-- What was read and has not been returned. After a `cr` a `lf` at its front is no end of its
own. -/
structure Reader (α : Type*) where
  unread : List α
  skipLF : Bool
deriving DecidableEq

variable {α : Type*} [DecidableEq α] (M : Marks α)

/-- The lines of a stream, behind the beginning `l` of its first one. What has no end at the end
of the stream is a line too, unless it is empty. -/
def linesFrom (skipLF : Bool) (l : List α) : List α → List (List α)
  | [] => if l = [] then [] else [l]
  | a :: as =>
    if a = M.lf then
      if skipLF then linesFrom false l as else l :: linesFrom false [] as
    else if a = M.cr then l :: linesFrom true [] as
    else linesFrom false (l ++ [a]) as

def lines (as : List α) : List (List α) := linesFrom M false [] as

/-- The first line, if its end is there, and the reader behind that end. -/
def cut : List α → Option (List α × Reader α)
  | [] => none
  | a :: as =>
    if a = M.lf then some ([], ⟨as, false⟩)
    else if a = M.cr then some ([], ⟨as, true⟩)
    else (cut as).map fun p => (a :: p.1, p.2)

/-- The same stream with a `lf` for every end of a line. -/
def normalizeFrom (skipLF : Bool) : List α → List α
  | [] => []
  | a :: as =>
    if a = M.lf then
      if skipLF then normalizeFrom false as else M.lf :: normalizeFrom false as
    else if a = M.cr then M.lf :: normalizeFrom true as
    else a :: normalizeFrom false as

def normalize (as : List α) : List α := normalizeFrom M false as

/-- No mark is among them. -/
def Plain (as : List α) : Prop := M.cr ∉ as ∧ M.lf ∉ as

instance (as : List α) : Decidable (Plain M as) := inferInstanceAs (Decidable (_ ∧ _))

namespace Reader

def new : Reader α := ⟨[], false⟩

def feed (r : Reader α) (as : List α) : Reader α := { r with unread := r.unread ++ as }

/-- What is unread of the lines that are still to come. -/
def pending (r : Reader α) : List α :=
  match r.unread with
  | [] => []
  | a :: as => if r.skipLF ∧ a = M.lf then as else a :: as

/-- The next line, if its end has been read. -/
def line? (r : Reader α) : Option (List α × Reader α) := cut M (r.pending M)

/-- The line that is left at the end of the stream. -/
def last? (r : Reader α) : Option (List α) :=
  if r.pending M = [] then none else some (r.pending M)

/-- The lines that are still to come when the stream goes on like this. -/
def linesWith (r : Reader α) (more : List α) : List (List α) :=
  linesFrom M r.skipLF [] (r.unread ++ more)

end Reader

variable {M} {as more l : List α} {r r' : Reader α} {a : α}

omit [DecidableEq α] in
theorem plain_cons : Plain M (a :: as) ↔ (a ≠ M.cr ∧ a ≠ M.lf) ∧ Plain M as := by
  simp only [Plain, List.mem_cons, not_or, eq_comm (a := a), ne_eq]
  exact and_and_and_comm

theorem linesFrom_plain (h : Plain M as) (skipLF : Bool) (l : List α) (hl : l ++ as ≠ []) :
    linesFrom M skipLF l as = [l ++ as] := by
  induction as generalizing skipLF l with
  | nil =>
    rw [List.append_nil] at hl
    simp [linesFrom, hl]
  | cons a as ih =>
    obtain ⟨⟨hc, hf⟩, has⟩ := plain_cons.mp h
    rw [linesFrom, if_neg hf, if_neg hc, ih has _ _ (by simp)]
    simp

/-- A stream without marks is one line, if it is anything. -/
theorem lines_plain (h : Plain M as) : lines M as = if as = [] then [] else [as] := by
  by_cases ha : as = []
  · subst ha
    rfl
  · rw [if_neg ha, lines, linesFrom_plain h false [] (by simpa using ha)]
    rfl

theorem cut_eq_none_iff : cut M as = none ↔ Plain M as := by
  induction as with
  | nil => simp [cut, Plain]
  | cons a as ih =>
    rw [cut, plain_cons]
    by_cases hf : a = M.lf
    · simp [hf]
    by_cases hc : a = M.cr
    · simp [hc, M.ne]
    simp [hf, hc, ih]

/-- A line that was cut off, its mark and what stays behind. -/
theorem of_cut_eq_some (h : cut M as = some (l, r)) : Plain M l ∧
    (as = l ++ M.lf :: r.unread ∧ r.skipLF = false ∨
      as = l ++ M.cr :: r.unread ∧ r.skipLF = true) := by
  induction as generalizing l with
  | nil => cases h
  | cons a as ih =>
    rw [cut] at h
    split_ifs at h with hf hc
    · cases h
      exact ⟨by simp [Plain], .inl ⟨by simp [hf], rfl⟩⟩
    · cases h
      exact ⟨by simp [Plain], .inr ⟨by simp [hc], rfl⟩⟩
    · obtain ⟨⟨l', r'⟩, hl', he⟩ := Option.map_eq_some_iff.mp h
      cases he
      obtain ⟨hp, hend⟩ := ih hl'
      exact ⟨plain_cons.mpr ⟨⟨hc, hf⟩, hp⟩, by simpa using hend⟩

theorem cut_append_lf (hl : Plain M l) (more : List α) :
    cut M (l ++ M.lf :: more) = some (l, ⟨more, false⟩) := by
  induction l with
  | nil => simp [cut]
  | cons a l ih =>
    obtain ⟨⟨hc, hf⟩, hp⟩ := plain_cons.mp hl
    rw [List.cons_append, cut, if_neg hf, if_neg hc, ih hp]
    rfl

theorem cut_append_cr (hl : Plain M l) (more : List α) :
    cut M (l ++ M.cr :: more) = some (l, ⟨more, true⟩) := by
  induction l with
  | nil => simp [cut, M.ne]
  | cons a l ih =>
    obtain ⟨⟨hc, hf⟩, hp⟩ := plain_cons.mp hl
    rw [List.cons_append, cut, if_neg hf, if_neg hc, ih hp]
    rfl

theorem linesFrom_append_lf (hl : Plain M l) (cur more : List α) :
    linesFrom M false cur (l ++ M.lf :: more) = (cur ++ l) :: linesFrom M false [] more := by
  induction l generalizing cur with
  | nil => simp [linesFrom]
  | cons a l ih =>
    obtain ⟨⟨hc, hf⟩, hp⟩ := plain_cons.mp hl
    rw [List.cons_append, linesFrom, if_neg hf, if_neg hc, ih hp]
    simp

theorem linesFrom_append_cr (hl : Plain M l) (cur more : List α) :
    linesFrom M false cur (l ++ M.cr :: more) = (cur ++ l) :: linesFrom M true [] more := by
  induction l generalizing cur with
  | nil => simp [linesFrom, M.ne]
  | cons a l ih =>
    obtain ⟨⟨hc, hf⟩, hp⟩ := plain_cons.mp hl
    rw [List.cons_append, linesFrom, if_neg hf, if_neg hc, ih hp]
    simp

namespace Reader

/-- What may be skipped makes no difference once something stands behind it. -/
theorem linesWith_eq (hp : r.pending M ≠ [] ∨ r.skipLF = false) (more : List α) :
    r.linesWith M more = linesFrom M false [] (r.pending M ++ more) := by
  obtain ⟨unread, skipLF⟩ := r
  rcases unread with _ | ⟨a, as⟩
  · obtain rfl : skipLF = false := by simpa [pending] using hp
    rfl
  · cases skipLF with
    | false => simp [linesWith, pending]
    | true =>
      by_cases hf : a = M.lf
      · simp [linesWith, pending, linesFrom, hf]
      · simp [linesWith, pending, linesFrom, hf]

/-- A line that has its end is the first one, whatever comes after it. -/
theorem linesWith_of_line? (h : r.line? M = some (l, r')) (more : List α) :
    r.linesWith M more = l :: r'.linesWith M more := by
  obtain ⟨hl, hr⟩ := of_cut_eq_some h
  have hne : r.pending M ≠ [] := by rcases hr with ⟨hr, -⟩ | ⟨hr, -⟩ <;> simp [hr]
  rw [linesWith_eq (.inl hne)]
  rcases hr with ⟨hr, hs⟩ | ⟨hr, hs⟩
  · rw [hr, List.append_assoc, List.cons_append, linesFrom_append_lf hl, linesWith, hs]
    rfl
  · rw [hr, List.append_assoc, List.cons_append, linesFrom_append_cr hl, linesWith, hs]
    rfl

/-- At the end of the stream there is one line more, or none. -/
theorem linesWith_nil_of_line? (h : r.line? M = none) :
    r.linesWith M [] = (r.last? M).toList := by
  have hp := cut_eq_none_iff.mp h
  by_cases hn : r.pending M = []
  · obtain ⟨unread, skipLF⟩ := r
    rcases unread with _ | ⟨a, as⟩
    · simp [linesWith, last?, pending, linesFrom]
    · by_cases hs : skipLF = true ∧ a = M.lf
      · simp_all [linesWith, last?, pending, linesFrom]
      · simp [pending, hs] at hn
  · rw [linesWith_eq (.inl hn), List.append_nil,
      linesFrom_plain hp false [] (by simpa using hn), last?, if_neg hn]
    rfl

theorem length_pending_le (r : Reader α) : (r.pending M).length ≤ r.unread.length := by
  obtain ⟨_ | ⟨a, as⟩, skipLF⟩ := r
  · exact Nat.le_refl _
  · by_cases hs : skipLF = true ∧ a = M.lf <;> simp [pending, hs]

/-- A line takes its mark out of the reader. -/
theorem length_unread_lt (h : r.line? M = some (l, r')) :
    r'.unread.length < r.unread.length := by
  have hle := r.length_pending_le (M := M)
  obtain ⟨-, ⟨hr, -⟩ | ⟨hr, -⟩⟩ := of_cut_eq_some h <;>
  · have hlen := congrArg List.length hr
    simp only [List.length_append, List.length_cons] at hlen
    omega

theorem linesWith_feed (r : Reader α) (as more : List α) :
    (r.feed as).linesWith M more = r.linesWith M (as ++ more) := by
  simp [linesWith, feed]

end Reader

theorem cr_not_mem_normalizeFrom (skipLF : Bool) (as : List α) :
    M.cr ∉ normalizeFrom M skipLF as := by
  induction as generalizing skipLF with
  | nil => simp [normalizeFrom]
  | cons a as ih =>
    rw [normalizeFrom]
    split_ifs with hf hs hc
    · exact ih false
    · simp [M.ne, ih]
    · simp [M.ne, ih]
    · simp [Ne.symm hc, ih]

/-- What has been normalized stays as it is. -/
theorem normalize_append_of_not_mem (h : M.cr ∉ as) (more : List α) :
    normalize M (as ++ more) = as ++ normalize M more := by
  induction as with
  | nil => rfl
  | cons a as ih =>
    simp only [List.mem_cons, not_or] at h
    rw [List.cons_append, normalize, normalizeFrom, List.cons_append, ← ih h.2]
    by_cases hf : a = M.lf
    · simp [hf, normalize]
    · rw [if_neg hf, if_neg (Ne.symm h.1)]
      rfl

theorem normalizeFrom_append_crlf (skipLF : Bool) (as : List α) :
    normalizeFrom M skipLF (as ++ [M.cr, M.lf]) = normalizeFrom M skipLF as ++ [M.lf] := by
  induction as generalizing skipLF with
  | nil => simp [normalizeFrom, M.ne]
  | cons a as ih =>
    rw [List.cons_append, normalizeFrom, normalizeFrom]
    split_ifs <;> simp [ih]

end Lib.Lines

import Mathlib.Logic.Function.Basic

/-! Statement blocks over a mutable state that return or throw: selective `catch`, `finally`, and
how the blocks built from them end. -/
namespace Lib.Exec

variable {ε σ α β : Type}

/-- A block that reads and writes `σ` and either returns or throws; the state
written before an exception is kept. -/
abbrev Block (ε σ α : Type) := EStateM ε σ α

/-- The state a block leaves behind, whichever way it ends. -/
def final : EStateM.Result ε σ α → σ
  | .ok _ s => s
  | .error _ s => s

/-- How a block ends, without the state. -/
def outcome : EStateM.Result ε σ α → Except ε α
  | .ok a _ => .ok a
  | .error e _ => .error e

/-- The result with a given outcome and a given state. -/
def ended (r : Except ε α) (s : σ) : EStateM.Result ε σ α :=
  match r with
  | .ok a => .ok a s
  | .error e => .error e s

@[simp] theorem ended_ok (a : α) (s : σ) :
    ended (.ok a : Except ε α) s = .ok a s := rfl
@[simp] theorem ended_error (e : ε) (s : σ) :
    ended (.error e : Except ε α) s = .error e s := rfl

@[simp] theorem final_ended (r : Except ε α) (s : σ) : final (ended r s) = s := by
  cases r <;> rfl

@[simp] theorem outcome_ended (r : Except ε α) (s : σ) : outcome (ended r s) = r := by
  cases r <;> rfl

@[simp] theorem final_ok (a : α) (s : σ) : final (.ok a s : EStateM.Result ε σ α) = s := rfl
@[simp] theorem final_error (e : ε) (s : σ) :
    final (.error e s : EStateM.Result ε σ α) = s := rfl
@[simp] theorem outcome_ok (a : α) (s : σ) :
    outcome (.ok a s : EStateM.Result ε σ α) = .ok a := rfl
@[simp] theorem outcome_error (e : ε) (s : σ) :
    outcome (.error e s : EStateM.Result ε σ α) = .error e := rfl

/-- A pure step that may throw. -/
def lift (r : Except ε α) : Block ε σ α := ended r

/-- `try { x } catch (p e) { h e }`: what `p` does not name passes through. -/
def catching (p : ε → Bool) (x : Block ε σ α) (h : ε → Block ε σ α) : Block ε σ α := fun s =>
  match x s with
  | .ok a s' => .ok a s'
  | .error e s' => if p e then h e s' else .error e s'

/-- `try { x } finally { f }`: `f` runs in both cases and its own exception wins. -/
def andFinally (x : Block ε σ α) (f : Block ε σ Unit) : Block ε σ α := fun s =>
  match x s with
  | .ok a s' =>
    match f s' with
    | .ok _ s'' => .ok a s''
    | .error e s'' => .error e s''
  | .error e s' =>
    match f s' with
    | .ok _ s'' => .error e s''
    | .error e' s'' => .error e' s''

/-- A block in a frame of its own: entered from the caller's state and dropped at the end. -/
def inFrame {τ : Type} (enter : σ → τ) (leave : τ → σ) (x : Block ε τ α) : Block ε σ α :=
  fun s =>
    match x (enter s) with
    | .ok a t => .ok a (leave t)
    | .error e t => .error e (leave t)

/-- A block that works on one part of the state. -/
def onPart {τ : Type} (part : σ → τ) (put : τ → σ → σ) (x : Block ε τ α) : Block ε σ α :=
  fun s => ended (outcome (x (part s))) (put (final (x (part s))) s)

/-- What a clause that does nothing leaves of an outcome. -/
def ignoring (p : ε → Bool) : Except ε Unit → Except ε Unit
  | .ok _ => .ok ()
  | .error e => if p e then .ok () else .error e

variable {x : Block ε σ α} {k : α → Block ε σ β} {h : ε → Block ε σ α} {f : Block ε σ Unit}
  {p : ε → Bool} {a : α} {e : ε} {s s' s'' : σ}

@[simp] theorem pure_run (a : α) (s : σ) : (pure a : Block ε σ α) s = .ok a s := rfl
@[simp] theorem throw_run (e : ε) (s : σ) : (throw e : Block ε σ α) s = .error e s := rfl
@[simp] theorem modify_run (g : σ → σ) (s : σ) :
    (modify g : Block ε σ PUnit) s = .ok ⟨⟩ (g s) := rfl
@[simp] theorem get_run (s : σ) : (get : Block ε σ σ) s = .ok s s := rfl
@[simp] theorem map_get_run (g : σ → α) (s : σ) :
    (g <$> get : Block ε σ α) s = .ok (g s) s := rfl
@[simp] theorem lift_run (r : Except ε α) (s : σ) : lift r s = ended r s := rfl

theorem bind_run (x : Block ε σ α) (k : α → Block ε σ β) (s : σ) :
    (x >>= k) s = match x s with
      | .ok a s' => k a s'
      | .error e s' => .error e s' := rfl

theorem map_run (g : α → β) (x : Block ε σ α) (s : σ) :
    (g <$> x) s = match x s with
      | .ok a s' => .ok (g a) s'
      | .error e s' => .error e s' := rfl

theorem bind_ok (hx : x s = .ok a s') : (x >>= k) s = k a s' := by
  rw [bind_run, hx]

theorem bind_error (hx : x s = .error e s') : (x >>= k) s = .error e s' := by
  rw [bind_run, hx]

theorem catching_ok (hx : x s = .ok a s') : catching p x h s = .ok a s' := by
  simp [catching, hx]

theorem catching_caught (hx : x s = .error e s') (hp : p e = true) :
    catching p x h s = h e s' := by
  simp [catching, hx, hp]

theorem catching_passed (hx : x s = .error e s') (hp : p e = false) :
    catching p x h s = .error e s' := by
  simp [catching, hx, hp]

theorem catching_ignore {x : Block ε σ Unit} {r : Except ε Unit} (hx : x s = ended r s') :
    catching p x (fun _ => pure ()) s = ended (ignoring p r) s' := by
  cases r with
  | ok u => exact catching_ok hx
  | error e => cases hp : p e <;> simp_all [catching, ignoring]

theorem inFrame_ended {τ : Type} {enter : σ → τ} {leave : τ → σ} {x : Block ε τ α}
    {r : Except ε α} {t : τ} (hx : x (enter s) = ended r t) :
    inFrame enter leave x s = ended r (leave t) := by
  cases r <;> simp_all [inFrame]

/-- `finally` by the outcomes of its two blocks: the finalizer's exception wins, and one that
returns leaves the outcome of the `try` block. -/
theorem andFinally_ended {r : Except ε α} {q : Except ε Unit} (hx : x s = ended r s')
    (hf : f s' = ended q s'') : andFinally x f s = ended (q.bind fun _ => r) s'' := by
  cases r <;> cases q <;> simp_all [andFinally, Except.bind]

/-- A loop over a list whose body always returns. -/
theorem forM_run {body : α → Block ε σ Unit} {g : σ → α → σ}
    (hb : ∀ a s, body a s = .ok () (g s a)) (as : List α) (s : σ) :
    as.forM body s = .ok () (as.foldl g s) := by
  induction as generalizing s with
  | nil => rfl
  | cons a as ih =>
    have hc : (a :: as).forM body = (body a >>= fun _ => as.forM body) := rfl
    rw [hc, bind_ok (hb a s), ih, List.foldl_cons]

/-- A loop each of whose rounds says something and does nothing else. -/
theorem forM_tell {ω : Type} (tell : List ω → σ → σ) (hnil : ∀ s, tell [] s = s)
    (happ : ∀ es es' s, tell es' (tell es s) = tell (es ++ es') s) {body : α → Block ε σ Unit}
    {es : α → List ω} (hb : ∀ a s, body a s = .ok () (tell (es a) s)) (as : List α) (s : σ) :
    as.forM body s = .ok () (tell (as.flatMap es) s) := by
  rw [forM_run hb]
  congr 1
  induction as generalizing s with
  | nil => exact (hnil s).symm
  | cons a as ih => rw [List.foldl_cons, ih, happ, List.flatMap_cons]

end Lib.Exec

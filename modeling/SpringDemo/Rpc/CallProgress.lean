import Mathlib.Algebra.BigOperators.Group.List.Basic
import Mathlib.Algebra.Ring.Nat
import SpringDemo.Rpc.ConcurrentCalls

/-! No call of a proxy waits for another one, and no connection is lost. -/
namespace SpringDemo.Rpc

open Java Lib.Runs Lib.Slots

variable {V B W : Type} [JavaObject V]

/-- The steps that a call has still to take, at most. -/
def Progress.work : Progress V B → Nat
  | selecting => 5
  | drawn _ => 4
  | sending _ => 3
  | found _ _ => 2
  | answered _ _ => 1
  | returned _ => 0
  | refused _ => 0

namespace Calls

def Label.isCall : Label V → Bool
  | call _ => true
  | _ => false

def work (s : Calls V B W) : Nat := (s.calls.map fun call => call.2.work).sum

variable {srvs : Option JString → RpcServer V B W TimedStream}
  {services : Option JString → Services B} {inv : RemoteInvoker V (Servers V B W) TimedStream}
  {render : V → JString} {s t : Calls V B W} {l : Label V} {ls : List (Label V)}
  {st₀ : ClientState (Servers V B W)} {k : Nat} {i : Invocation V} {p p' : Progress V B}

omit [JavaObject V] in
theorem work_setProgress (hk : s.calls[k]? = some (i, p)) (p' : Progress V B) :
    p.work + (s.setProgress k i p').work = p'.work + s.work := by
  have hperm := (perm_set hk (i, p')).map fun call => call.2.work
  simpa [work, setProgress] using hperm.sum_eq

omit [JavaObject V] in
theorem work_le (s : Calls V B W) : s.work ≤ 5 * s.calls.length := by
  unfold work
  induction s.calls with
  | nil => simp
  | cons call calls ih =>
    have hle : call.2.work ≤ 5 := by cases call.2 <;> simp [Progress.work]
    rw [List.map_cons, List.sum_cons, List.length_cons]
    omega

/-- Any step but a new call brings one call nearer to its end. -/
theorem step_cases (h : Step srvs services inv render s l t) :
    (∃ i, l = .call i ∧ t.calls = s.calls ++ [(i, .selecting)]) ∨
    ∃ k i p p', l.isCall = false ∧ s.calls[k]? = some (i, p) ∧
      t.calls = (s.setProgress k i p').calls ∧ p'.work < p.work := by
  cases h with
  | call i => exact .inl ⟨i, rfl, rfl⟩
  | _ =>
    exact .inr ⟨_, _, _, _, rfl, ‹s.calls[_]? = some (_, _)›, rfl, by simp [Progress.work]⟩

theorem work_step (h : Step srvs services inv render s l t) :
    t.work + 1 ≤ s.work + if l.isCall then 6 else 0 := by
  rcases step_cases h with ⟨i, rfl, ht⟩ | ⟨k, i, p, p', hl, hk, ht, hlt⟩
  · rw [work, ht]
    simp [work, Progress.work, Label.isCall]
  · have hwork : t.work = (s.setProgress k i p').work := by rw [work, ht, work]
    have hset := work_setProgress hk p'
    rw [hl, hwork]
    simp only [Bool.false_eq_true, if_false]
    omega

/-- A run takes no more steps than its calls need. -/
theorem length_run (h : Run (Step srvs services inv render) s ls t) :
    ls.length + t.work ≤ s.work + 6 * ls.countP Label.isCall := by
  induction h with
  | start => simp
  | next _ hs ih =>
    have hstep := work_step hs
    rw [List.length_append, List.countP_append, List.length_singleton, List.countP_singleton]
    split at hstep <;> simp_all <;> omega

/-- A call that has not come to its end can go on, whatever the others do. -/
theorem call_goes_on (srvs : Option JString → RpcServer V B W TimedStream)
    (services : Option JString → Services B) (inv : RemoteInvoker V (Servers V B W) TimedStream)
    (render : V → JString) (hk : s.calls[k]? = some (i, p)) (hp : p.work ≠ 0) :
    ∃ l t, l.isCall = false ∧ Step srvs services inv render s l t := by
  cases p with
  | selecting =>
    cases hs : RandomTransportSelector.nextInt 0 s.selector.clients.length with
    | error e => exact ⟨_, _, rfl, .refuse s k 0 i e hk hs⟩
    | ok index => exact ⟨_, _, rfl, .draw s k 0 i index hk hs⟩
  | drawn index =>
    cases hs : s.selector.remove index with
    | error e => exact ⟨_, _, rfl, .miss s k i index e hk hs⟩
    | ok found => exact ⟨_, _, rfl, .remove s k i index found.1 found.2 hk hs⟩
  | sending client =>
    cases he : inv.encode i.request with
    | error e => exact ⟨_, _, rfl, .unencoded s k i client e hk he⟩
    | ok outBytes =>
      cases hf : i.fate with
      | requestLost e => exact ⟨_, _, rfl, .lose s k i client outBytes e hk he hf⟩
      | delivered => exact ⟨_, _, rfl, .look s k i client outBytes hk he (by rw [hf]; rfl)⟩
      | answerLost e => exact ⟨_, _, rfl, .look s k i client outBytes hk he (by rw [hf]; rfl)⟩
  | found client found => exact ⟨_, _, rfl, .run s k i client found hk⟩
  | answered client r => exact ⟨_, _, rfl, .finish s k i client r hk⟩
  | returned result => exact absurd rfl hp
  | refused e => exact absurd rfl hp

/-- Calls at the same time cannot wait for one another for ever: from any state that is reached, no
more than five steps for each call that has begun and six for each that begins are left, and when
there is nothing left to do but to call, every call has returned or found no client, those that have
returned are the ones that came to an effect, and every client is back in the pool. -/
theorem calls_end (hx : inv.exchange = servingAll srvs)
    (h : Run (Step srvs (registries st₀) inv render) (start st₀) ls s) :
    (∀ ls' t, Run (Step srvs (registries st₀) inv render) s ls' t →
      ls'.length ≤ 5 * s.calls.length + 6 * ls'.countP Label.isCall) ∧
    ((∀ l t, Step srvs (registries st₀) inv render s l t → l.isCall = true) →
      (∀ call ∈ s.calls, (∃ r, call.2 = .returned r) ∨ ∃ e, call.2 = .refused e) ∧
      (∀ k, k ∈ s.order ↔ ∃ i r, s.calls[k]? = some (i, .returned r)) ∧
      s.selector.clients.Perm st₀.selector.clients) := by
  have hi := linear_run hx h
  refine ⟨fun ls' t h' => ?_, fun hstuck => ?_⟩
  · have hlen := length_run h'
    have hwork := work_le s
    omega
  have hended : ∀ (k : Nat) (i : Invocation V) (p : Progress V B), s.calls[k]? = some (i, p) →
      p.work = 0 := by
    intro k i p hk
    by_contra hp
    obtain ⟨l, t, hl, hs⟩ := call_goes_on srvs (registries st₀) inv render hk hp
    rw [hstuck l t hs] at hl
    cases hl
  have hcall : ∀ call ∈ s.calls, (∃ r, call.2 = .returned r) ∨ ∃ e, call.2 = .refused e := by
    rintro ⟨i, p⟩ hm
    obtain ⟨k, hk⟩ := List.mem_iff_getElem?.mp hm
    have hp := hended k i p hk
    cases p with
    | returned r => exact .inl ⟨r, rfl⟩
    | refused e => exact .inr ⟨e, rfl⟩
    | _ => cases hp
  refine ⟨hcall, fun k => ?_, ?_⟩
  · rw [hi.mem k, entry]
    cases hk : s.calls[k]? with
    | none => simp
    | some call =>
      obtain ⟨i, p⟩ := call
      rcases hcall _ (List.mem_of_getElem? hk) with ⟨r, rfl⟩ | ⟨e, rfl⟩
      · simp [Progress.result?]
      · simp [Progress.result?]
  · have hheld : s.held = [] := by
      refine List.filterMap_eq_nil_iff.mpr fun call hm => ?_
      obtain ⟨i, p⟩ := call
      rcases hcall _ hm with ⟨r, rfl⟩ | ⟨e, rfl⟩
      · rfl
      · rfl
    have hpool := hi.pool
    rwa [hheld] at hpool

namespace Example

open Rpc.Example

/-- A call for itself, once it has returned. -/
theorem returned_run : ∃ ls s, Run (Step servers (registries idle) invoker fun _ => [])
    (start idle) ls s ∧ ∃ r, s.calls = [(addition, .returned r)] := by
  have h₀ : Run (Step servers (registries idle) invoker fun _ => []) (start idle) _ _ :=
    .single (.call _ addition)
  have h₁ := h₀.next (.draw _ 0 0 addition 0 rfl rfl)
  have h₂ := h₁.next (.remove _ 0 addition 0 defaultClient ⟨[], 1⟩ rfl rfl)
  have h₃ := h₂.next (.look _ 0 addition defaultClient addRequestText rfl encodeRequest_add rfl)
  have h₄ := h₃.next (.run _ 0 addition defaultClient _ rfl)
  exact ⟨_, _, h₄.next (.finish _ 0 addition defaultClient _ rfl), _, rfl⟩

/-- Nothing is left to do then, and its client is back. -/
theorem calls_end_one : ∃ ls s, Run (Step servers (registries idle) invoker fun _ => [])
    (start idle) ls s ∧ s.selector.clients.Perm [defaultClient] := by
  obtain ⟨ls, s, h, r, hcalls⟩ := returned_run
  refine ⟨ls, s, h, ((calls_end rfl h).2 fun l t hs => ?_).2.2⟩
  rcases step_cases hs with ⟨i, rfl, -⟩ | ⟨k, i, p, p', -, hk, -, hlt⟩
  · rfl
  · have hm := List.mem_of_getElem? hk
    rw [hcalls, List.mem_singleton] at hm
    cases hm
    cases hlt

end Example

end Calls

end SpringDemo.Rpc

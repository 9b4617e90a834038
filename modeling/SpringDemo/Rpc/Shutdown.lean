import SpringDemo.Rpc.PoolRuns

/-! Closing the selector while calls are running. -/
namespace SpringDemo.Rpc

open Java Lib.Runs

/-- The label neither adds clients nor closes any. -/
def Label.Borrows : Label → Prop
  | init _ _ | connect | close => False
  | _ => True

namespace CallPool

variable {s t u v : CallPool} {l : Label} {ls ls' : List Label}

/-- `close` was called on every client that `init` ever created, and none is left. -/
structure AllClosed (s : CallPool) : Prop where
  empty : s.selector.clients = []
  closed : ∀ c ∈ s.created, c ∈ s.closed

/-- Calls borrow and give back; they neither create clients nor close them. -/
theorem borrows_step (hl : l.Borrows) (h : Step s l t) :
    t.created = s.created ∧ t.closed = s.closed := by
  cases h with
  | init | connect | close => exact hl.elim
  | _ => exact ⟨rfl, rfl⟩

theorem borrows_run (h : Run Step v ls s) (hls : ∀ l ∈ ls, l.Borrows) :
    s.created = v.created ∧ s.closed = v.closed := by
  induction h with
  | start => exact ⟨rfl, rfl⟩
  | next _ hs ih =>
    obtain ⟨hcr, hcl⟩ := ih fun l hl => hls l (by simp [hl])
    obtain ⟨hcr', hcl'⟩ := borrows_step (hls _ (by simp)) hs
    exact ⟨hcr'.trans hcr, hcl'.trans hcl⟩

/-- What was held when the selector was closed is all that there is afterwards, held or idle. -/
theorem clients_add_held_of_close (h : Run Step new ls u) (hc : Step u .close v)
    (h' : Run Step v ls' s) (hls : ∀ l ∈ ls', l.Borrows) :
    (↑s.selector.clients + s.held : Multiset HttpTransportClient) = u.held := by
  have hv := conserved (h.next hc)
  have hs := conserved ((h.next hc).append h')
  obtain ⟨hcr, hcl⟩ := borrows_run h' hls
  have heq : (↑s.selector.clients + s.held : Multiset HttpTransportClient) =
      ↑v.selector.clients + v.held := by
    simp only [Lib.Pool.Conserved, abs, hcr, hcl] at hv hs
    exact add_right_cancel (hs.trans hv.symm)
  rw [heq]
  cases hc with
  | close => simp [RandomTransportSelector.close, held]

theorem allClosed_iff_clients_eq_nil (h : Run Step new ls s) (hheld : s.held = 0) :
    AllClosed s ↔ s.selector.clients = [] := by
  refine ⟨AllClosed.empty, fun he => ⟨he, fun c hc => ?_⟩⟩
  have hcons := conserved h
  simp only [Lib.Pool.Conserved, abs, he, hheld, Multiset.coe_nil, zero_add] at hcons
  rw [← Multiset.mem_coe, hcons]
  exact Multiset.mem_coe.mpr hc

/-- Once all calls have ended after a `close`, every client was closed exactly when none was held
by a call at that `close`. -/
theorem all_closed_iff (h : Run Step new ls u) (hc : Step u .close v) (h' : Run Step v ls' s)
    (hls : ∀ l ∈ ls', l.Borrows) (hheld : s.held = 0) : AllClosed s ↔ u.held = 0 := by
  have hkept := clients_add_held_of_close h hc h' hls
  rw [hheld, add_zero] at hkept
  rw [allClosed_iff_clients_eq_nil ((h.next hc).append h') hheld, ← hkept, Multiset.coe_eq_zero]

open Example in
theorem all_closed_idle : ∃ s, Run Step new [.init [defaultPeer] 1, .connect, .close] s ∧
    s.created = [defaultClient] ∧ AllClosed s := by
  have h : Run Step new [.init [defaultPeer] 1, .connect]
      ⟨⟨[defaultClient], 1⟩, [], 0, [defaultClient], []⟩ :=
    .next (.next .start (.init _ _ _ rfl)) (.connect _ _ _ rfl)
  exact ⟨_, h.next (.close _), rfl, (all_closed_iff h (.close _) .start (by simp) rfl).mpr rfl⟩

open Example in
/-- The one client comes back to the selector after `close`, and is never closed. -/
theorem returned_after_close : ∃ s,
    Run Step new [.init [defaultPeer] 1, .connect, .call, .select defaultClient, .close,
      .throws .encode .nullPointerException, .release defaultClient] s ∧
      s.running = 0 ∧ s.selector.clients = [defaultClient] ∧ s.closed = [] ∧ ¬ AllClosed s := by
  have h : Run Step new [.init [defaultPeer] 1, .connect, .call, .select defaultClient]
      ⟨⟨[], 1⟩, [], {.holding .encode defaultClient}, [defaultClient], []⟩ :=
    .next (.next (.next (.next .start (.init _ _ _ rfl)) (.connect _ _ _ rfl)) (.call _))
      (.select _ 0 0 _ _ rfl rfl)
  have hclose : Run Step new [.init [defaultPeer] 1, .connect, .call, .select defaultClient, .close]
      ⟨⟨[], 1⟩, [], .holding .encode defaultClient ::ₘ 0, [defaultClient], []⟩ :=
    h.next (.close _)
  have hrelease : Run Step new [.init [defaultPeer] 1, .connect, .call, .select defaultClient,
      .close, .throws .encode .nullPointerException, .release defaultClient]
      ⟨⟨[defaultClient], 1⟩, [], 0, [defaultClient], []⟩ :=
    (hclose.next (.throws _ 0 .encode defaultClient _ rfl (by decide))).next
      (.release _ 0 defaultClient rfl)
  refine ⟨_, hrelease, rfl, rfl, rfl, ?_⟩
  intro hall
  cases hall.empty

end CallPool

end SpringDemo.Rpc

import Mathlib.Data.Multiset.Filter
import SpringDemo.Library.Pool
import SpringDemo.Rpc.Example

/-! The selector under any number of calls at once, each `add` of `init`, each `select` and each
`release` being one step. -/
namespace SpringDemo.Rpc

open Java Lib.Runs HttpTransportClient

/-- The statements of `invokeRemote` between `select` and the end of its finalizer. -/
inductive Stage where
  | encode | write | read | decode | release
deriving DecidableEq, Repr

def Stage.next : Stage → Stage
  | encode => write
  | write => read
  | read => decode
  | decode => release
  | release => release

/-- Where a call of `invokeRemote` stands, with its `client` once that is no longer null. -/
inductive Phase where
  | selecting
  | holding (stage : Stage) (client : HttpTransportClient)
deriving DecidableEq

def Phase.client? : Phase → Option HttpTransportClient
  | selecting => none
  | holding _ client => some client

/-- The selector and the calls that share it. -/
structure CallPool where
  selector : RandomTransportSelector
  /-- what the `init` that owns the monitor has still to connect -/
  pending : List Peer
  running : Multiset Phase
  /-- the clients that were ever added by `init`, in their order -/
  created : List HttpTransportClient
  /-- the clients that `close` found in the list -/
  closed : List HttpTransportClient

inductive Label where
  | init (peers : List Peer) (count : Int)
  | connect
  | call
  | select (client : HttpTransportClient)
  | selectThrows (e : Throwable)
  | returns (stage : Stage)
  | throws (stage : Stage) (e : Throwable)
  | release (client : HttpTransportClient)
  | close
deriving DecidableEq

/-- The label is an evaluation of `select`. -/
def Label.isSelect : Label → Bool
  | select _ => true
  | selectThrows _ => true
  | _ => false

/-- The label is an evaluation of `select` that throws. -/
def Label.isSelectThrows : Label → Bool
  | selectThrows _ => true
  | _ => false

/-- The connections that a label asks `init` for. -/
def Label.entries : Label → List Peer
  | init peers count => RandomTransportSelector.entries peers count
  | _ => []

namespace CallPool

def new : CallPool := ⟨.new, [], 0, [], []⟩

/-- The clients that running calls hold. -/
def held (s : CallPool) : Multiset HttpTransportClient := s.running.filterMap Phase.client?

inductive Step : CallPool → Label → CallPool → Prop
  | init (s : CallPool) (peers : List Peer) (count : Int) (h : s.pending = []) :
      Step s (.init peers count) { s with pending := RandomTransportSelector.entries peers count }
  | connect (s : CallPool) (peer : Peer) (rest : List Peer) (h : s.pending = peer :: rest) :
      Step s .connect { s with
        selector := s.selector.addConnected peer
        pending := rest
        created := s.created ++ [.connect ⟨s.selector.allocated, none⟩ peer] }
  | call (s : CallPool) : Step s .call { s with running := .selecting ::ₘ s.running }
  | select (s : CallPool) (R : Multiset Phase) (seed : Nat) (client : HttpTransportClient)
      (sel : RandomTransportSelector) (hr : s.running = .selecting ::ₘ R)
      (hs : s.selector.select seed = .ok (client, sel)) :
      Step s (.select client)
        { s with selector := sel, running := .holding .encode client ::ₘ R }
  | selectThrows (s : CallPool) (R : Multiset Phase) (seed : Nat) (e : Throwable)
      (hr : s.running = .selecting ::ₘ R) (hs : s.selector.select seed = .error e) :
      Step s (.selectThrows e) { s with running := R }
  | returns (s : CallPool) (R : Multiset Phase) (stage : Stage) (client : HttpTransportClient)
      (hr : s.running = .holding stage client ::ₘ R) (h : stage ≠ .release) :
      Step s (.returns stage) { s with running := .holding stage.next client ::ₘ R }
  | throws (s : CallPool) (R : Multiset Phase) (stage : Stage) (client : HttpTransportClient)
      (e : Throwable) (hr : s.running = .holding stage client ::ₘ R) (h : stage ≠ .release) :
      Step s (.throws stage e) { s with running := .holding .release client ::ₘ R }
  | release (s : CallPool) (R : Multiset Phase) (client : HttpTransportClient)
      (hr : s.running = .holding .release client ::ₘ R) :
      Step s (.release client)
        { s with selector := s.selector.release client, running := R }
  | close (s : CallPool) :
      Step s .close
        { s with selector := s.selector.close, closed := s.closed ++ s.selector.clients }

variable {s t : CallPool} {l : Label} {ls : List Label}

/-- The pool of resources that the selector implements. -/
def abs (s : CallPool) : Lib.Pool.State HttpTransportClient where
  idle := s.selector.clients
  lent := s.held
  retired := s.closed
  supplied := s.created

@[simp] theorem filterMap_selecting (R : Multiset Phase) :
    (Phase.selecting ::ₘ R).filterMap Phase.client? = R.filterMap Phase.client? :=
  Multiset.filterMap_cons_none _ _ rfl

@[simp] theorem filterMap_holding (R : Multiset Phase) (stage : Stage)
    (client : HttpTransportClient) :
    (Phase.holding stage client ::ₘ R).filterMap Phase.client? =
      client ::ₘ R.filterMap Phase.client? :=
  Multiset.filterMap_cons_some _ _ _ rfl

theorem refines_of_eq (h : t.abs = s.abs) : ∃ as, Run Lib.Pool.Step s.abs as t.abs := by
  rw [h]
  exact ⟨[], .start⟩

/-- What a step does to the abstract pool. -/
theorem step_refines (h : Step s l t) : ∃ as, Run Lib.Pool.Step s.abs as t.abs := by
  cases h with
  | init peers count h => exact refines_of_eq rfl
  | connect peer rest h =>
    refine ⟨[.supply (.connect ⟨s.selector.allocated, none⟩ peer)], .single ?_⟩
    convert Lib.Pool.Step.supply s.abs (.connect ⟨s.selector.allocated, none⟩ peer) using 1
    ext1 <;> simp [abs, held, ← Multiset.coe_add, add_comm, ← Multiset.singleton_add]
  | call => exact refines_of_eq (by simp [abs, held])
  | select R seed client sel hr hs =>
    have hp := (RandomTransportSelector.perm_of_select hs).1
    refine ⟨[.borrow client], .single ?_⟩
    convert Lib.Pool.Step.borrow s.abs client sel.clients ?_ using 1
    · ext1 <;> simp [abs, held, hr]
    · exact Multiset.coe_eq_coe.mpr hp
  | selectThrows R seed e hr hs => exact refines_of_eq (by simp [abs, held, hr])
  | returns R stage client hr h => exact refines_of_eq (by simp [abs, held, hr])
  | throws R stage client e hr h => exact refines_of_eq (by simp [abs, held, hr])
  | release R client hr =>
    refine ⟨[.giveBack client], .single ?_⟩
    convert Lib.Pool.Step.giveBack s.abs client (R.filterMap Phase.client?) ?_ using 1
    · ext1 <;> simp [abs, held, ← Multiset.coe_add, add_comm, ← Multiset.singleton_add]
    · simp [abs, held, hr]
  | close =>
    obtain ⟨as, ha⟩ := Lib.Pool.retire_all s.abs s.selector.clients rfl
    refine ⟨as, ?_⟩
    convert ha using 1
    ext1 <;> simp [abs, held, RandomTransportSelector.close, ← Multiset.coe_add, add_comm]

/-- The selector refines the abstract pool over every run. -/
theorem run_refines (h : Run Step new ls s) : ∃ as, Run Lib.Pool.Step Lib.Pool.empty as s.abs :=
  Run.simulate abs (fun _ _ _ => step_refines) h

theorem conserved (h : Run Step new ls s) : Lib.Pool.Conserved s.abs := by
  obtain ⟨as, ha⟩ := run_refines h
  exact Lib.Pool.conserved_run ha Lib.Pool.conserved_empty

/-- The ids of the created clients are the numbers of their instantiation. -/
theorem ids_step (h : Step s l t)
    (hs : s.created.map (·.id) = List.range s.selector.allocated) :
    t.created.map (·.id) = List.range t.selector.allocated := by
  cases h with
  | connect peer rest h =>
    simp [RandomTransportSelector.addConnected, HttpTransportClient.connect, hs,
      List.range_succ]
  | select R seed client sel hr h =>
    simpa [(RandomTransportSelector.perm_of_select h).2] using hs
  | _ => exact hs

theorem created_nodup (h : Run Step new ls s) : s.created.Nodup := by
  have hids := h.invariant (fun _ _ _ hs => ids_step hs) rfl
  exact List.Nodup.of_map _ (hids ▸ List.nodup_range)

/-- What `init` was asked for is what it has connected, one client for each entry, and what it has
still to connect. -/
def Accounted (ls : List Label) (s : CallPool) : Prop :=
  ∃ connected, connected ++ s.pending = ls.flatMap Label.entries ∧
    s.created.map (·.url) = connected.map fun peer =>
      some (utf16 "http://" ++ orNull peer.host ++ utf16 ":" ++ intToString peer.port)

theorem accounted_step (h : Step s l t) (hs : Accounted ls s) : Accounted (ls ++ [l]) t := by
  obtain ⟨connected, hdone, hurl⟩ := hs
  simp only [Accounted, List.flatMap_append, ← hdone]
  cases h with
  | init peers count h => exact ⟨connected, by simp [h, Label.entries], hurl⟩
  | connect peer rest h =>
    refine ⟨connected ++ [peer], by simp [h, Label.entries], ?_⟩
    rw [List.map_append, List.map_append, hurl]
    rfl
  | _ => exact ⟨connected, by simp [Label.entries], hurl⟩

theorem accounted (h : Run Step new ls s) : Accounted ls s :=
  Run.history (R := Accounted) (fun _ _ _ _ hst hs => accounted_step hst hs) ⟨[], rfl, rfl⟩ h

/-- As many clients lead to a peer as entries name it. -/
theorem countP_url_eq {clients : List HttpTransportClient} {peers : List Peer}
    (h : clients.map (·.url) = peers.map fun peer => some (urlOf peer)) (peer : Peer) :
    clients.countP (·.url = some (urlOf peer)) =
      peers.countP fun p => orNull p.host = orNull peer.host ∧ p.port = peer.port := by
  have hmap := congrArg (List.countP fun url => url = some (urlOf peer)) h
  rw [List.countP_map, List.countP_map] at hmap
  refine hmap.trans (List.countP_congr fun p _ => ?_)
  simp [urlOf_eq_iff]

theorem closed_step (h : Step s l t) (hs : Label.close ∉ ls → s.closed = []) :
    Label.close ∉ ls ++ [l] → t.closed = [] := by
  intro hc
  have hls : Label.close ∉ ls := fun h => hc (by simp [h])
  cases h with
  | close => simp at hc
  | _ => exact hs hls

theorem closed_eq_nil (h : Run Step new ls s) : Label.close ∉ ls → s.closed = [] :=
  Run.history (R := fun ls s => Label.close ∉ ls → s.closed = [])
    (fun _ _ _ _ hst hs => closed_step hst hs) (fun _ => rfl) h

/-- Before `close`, the idle and the held clients are the created ones: one for each entry that
`init` has got to, connected to its peer and so to no other, none of them in two places. -/
theorem pool_exact (h : Run Step new ls s) (hc : Label.close ∉ ls) :
    (↑s.selector.clients + s.held = (↑s.created : Multiset HttpTransportClient)) ∧
    (∃ connected, connected ++ s.pending = ls.flatMap Label.entries ∧
      s.created.map (·.url) = connected.map (fun peer =>
        some (utf16 "http://" ++ orNull peer.host ++ utf16 ":" ++ intToString peer.port)) ∧
      ∀ peer, s.created.countP (·.url = some (urlOf peer)) =
        connected.countP fun p => orNull p.host = orNull peer.host ∧ p.port = peer.port) ∧
    s.selector.clients.Nodup ∧ s.held.Nodup ∧ (∀ c ∈ s.held, c ∉ s.selector.clients) ∧
    (s.running = 0 → (↑s.selector.clients : Multiset HttpTransportClient) = ↑s.created) := by
  have hcons := conserved h
  have hidle : (↑s.selector.clients + s.held : Multiset HttpTransportClient) = ↑s.created := by
    simpa [Lib.Pool.Conserved, abs, closed_eq_nil h hc] using hcons
  obtain ⟨hni, hnl, hdisj⟩ := Lib.Pool.exclusive hcons (Multiset.coe_nodup.mpr (created_nodup h))
  obtain ⟨connected, hdone, hurl⟩ := accounted h
  refine ⟨hidle, ⟨connected, hdone, hurl, countP_url_eq hurl⟩, Multiset.coe_nodup.mp hni, hnl, ?_,
    ?_⟩
  · intro c hh hi
    exact hdisj c (Multiset.mem_coe.mpr hi) hh
  · intro hr
    simpa [held, hr] using hidle

open Example in
theorem pool_exact_held :
    ∃ s, Run Step new [.init [defaultPeer] 0, .connect, .call, .select defaultClient] s ∧
      s.selector.clients = [] ∧ s.held = {defaultClient} ∧
      (↑s.selector.clients + s.held = (↑s.created : Multiset HttpTransportClient)) ∧
      s.created.map (·.url) = [some (utf16 "http://127.0.0.1:3000")] := by
  have h : Run Step new [.init [defaultPeer] 0, .connect, .call, .select defaultClient]
      ⟨⟨[], 1⟩, [], {.holding .encode defaultClient}, [defaultClient], []⟩ :=
    .next (.next (.next (.next .start (.init _ _ _ rfl)) (.connect _ _ _ rfl)) (.call _))
      (.select _ 0 0 _ _ rfl rfl)
  obtain ⟨hidle, ⟨connected, hdone, hurl, -⟩, -⟩ := pool_exact h (by decide)
  obtain rfl : connected = [defaultPeer] := (List.append_nil connected).symm.trans hdone
  exact ⟨_, h, rfl, rfl, hidle, hurl⟩

/-- Some client is neither held by a call nor closed. -/
def Spare (s : CallPool) : Prop := s.held.card + s.closed.length < s.created.length

theorem clients_ne_nil_iff (h : Run Step new ls s) : s.selector.clients ≠ [] ↔ s.Spare := by
  have hi := Lib.Pool.idle_eq_zero_iff (conserved h)
  simp only [abs, Multiset.coe_eq_zero, Multiset.coe_card] at hi
  rw [ne_eq, hi, Spare]
  omega

/-- The runs in which every `select` finds a spare client are the runs in which no `select`
throws. -/
theorem select_safe_iff (ls : List Label) (s : CallPool) :
    Run (fun s l t => Step s l t ∧ (l.isSelect = true → s.Spare)) new ls s ↔
      Run (fun s l t => Step s l t ∧ l.isSelectThrows = false) new ls s := by
  constructor
  · intro h
    refine h.strengthen fun pre u l v hr hs => ⟨hs.1, ?_⟩
    have hr' : Run Step new pre u := hr.mono fun _ _ _ h => h.1
    obtain ⟨hst, hsp⟩ := hs
    cases hst with
    | selectThrows R seed e _ he =>
      have hnil := (RandomTransportSelector.select_error_iff _ seed).mp ⟨e, he⟩
      exact absurd hnil ((clients_ne_nil_iff hr').mpr (hsp rfl))
    | _ => rfl
  · intro h
    refine h.strengthen fun pre u l v hr hs => ⟨hs.1, ?_⟩
    have hr' : Run Step new pre u := hr.mono fun _ _ _ h => h.1
    obtain ⟨hst, hno⟩ := hs
    cases hst with
    | select R seed client sel _ hs =>
      intro _
      refine (clients_ne_nil_iff hr').mp fun hnil => ?_
      obtain ⟨e, he⟩ := (RandomTransportSelector.select_error_iff _ seed).mpr hnil
      rw [hs] at he
      cases he
    | selectThrows => cases hno
    | _ => intro h; cases h

open Example in
/-- Two calls over one connection: the second `select` throws. -/
theorem busy_pool_throws :
    ∃ s, Run Step new [.init [defaultPeer] 1, .connect, .call, .call, .select defaultClient,
      .selectThrows (.illegalArgumentException "bound must be positive")] s := by
  have h : Run Step new [.init [defaultPeer] 1, .connect, .call, .call, .select defaultClient]
      ⟨⟨[], 1⟩, [], .holding .encode defaultClient ::ₘ .selecting ::ₘ 0, [defaultClient], []⟩ :=
    .next (.next (.next (.next (.next .start (.init _ _ _ rfl)) (.connect _ _ _ rfl)) (.call _))
      (.call _)) (.select _ _ 0 _ _ rfl rfl)
  exact ⟨_, h.next (.selectThrows _ _ 0 _ (Multiset.cons_swap _ _ 0) rfl)⟩

end CallPool

end SpringDemo.Rpc

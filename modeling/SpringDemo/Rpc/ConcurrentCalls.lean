import SpringDemo.Library.Runs
import SpringDemo.Library.Slots
import SpringDemo.Rpc.Parts

/-! Calls of the proxies of one client at the same time, over a network that may fail, down to the
method runs on the servers. -/
namespace SpringDemo.Rpc

open Java Lib.Exec Lib.HashTable Lib.Runs Lib.Slots

variable {V B W σ : Type} [JavaObject V]

/-- What the network does to an exchange. -/
inductive Fate where
  | delivered
  /-- nothing reaches the server -/
  | requestLost (e : Throwable)
  /-- the server has answered, but not for the client -/
  | answerLost (e : Throwable)
deriving DecidableEq

namespace Fate

variable {τ : Type}

def arrives : Fate → Bool
  | requestLost _ => false
  | _ => true

/-- An exchange of this fate. -/
def carry (fate : Fate)
    (exchange : Option JString → Bytes → Block Throwable τ (HttpURLConnection σ)) :
    Option JString → Bytes → Block Throwable τ (HttpURLConnection σ) :=
  match fate with
  | delivered => exchange
  | requestLost e => fun _ _ n => .error e n
  | answerLost e => fun url data n => .error e (final (exchange url data n))

/-- What becomes of the call when the exchange itself would come to this. -/
def received : Fate → Raw V → Raw V
  | delivered, raw => raw
  | requestLost e, _ => .unsent e
  | answerLost e, _ => .unsent e

end Fate

/-- The states of the servers, by their addresses. -/
abbrev Servers (V B W : Type) := Option JString → ServerState V B W

/-- An exchange with the server at the address. -/
def servingAll (srvs : Option JString → RpcServer V B W TimedStream) :
    Option JString → Bytes → Block Throwable (Servers V B W) (HttpURLConnection TimedStream) :=
  fun url data =>
    onPart (· url) (fun st n => Function.update n url st) (serving (srvs url) url data)

/-- What a caller asks of a proxy, and the fate of its exchange, which is open until then. -/
structure Invocation (V : Type) where
  clazz : ClassName
  method : Method
  args : Option (List V)
  fate : Fate

namespace Invocation

/-- The proxies of a client share everything but their interface. -/
def invoker {τ : Type} (i : Invocation V) (inv : RemoteInvoker V τ σ) : RemoteInvoker V τ σ :=
  { inv with clazz := i.clazz, exchange := i.fate.carry inv.exchange }

def request (i : Invocation V) : Request V := ⟨some (.fromMethod i.clazz i.method), i.args⟩

end Invocation

/-- A whole call, with how it ends. -/
inductive Sequential {τ : Type} (inv : RemoteInvoker V τ σ) (render : V → JString) :
    ClientState τ → Invocation V × Except Throwable V → ClientState τ → Prop
  | invoke (st : ClientState τ) (i : Invocation V) (seed : Nat) :
      Sequential inv render st
        (i, outcome ((i.invoker inv).invoke render seed i.method i.args st))
        (final ((i.invoker inv).invoke render seed i.method i.args st))

/-- How far a call has come. -/
inductive Progress (V B : Type) where
  | selecting
  /-- the index is drawn, and not used yet -/
  | drawn (index : Nat)
  | sending (client : HttpTransportClient)
  /-- the server has looked up what it was asked for -/
  | found (client : HttpTransportClient)
      (found : Except Throwable (Option (ServiceInstance B) × Option (Request V)))
  /-- the `try` block of the server has ended -/
  | answered (client : HttpTransportClient) (r : Except Throwable V)
  | returned (result : Except Throwable V)
  /-- there was no client to select, or not at that index -/
  | refused (e : Throwable)

/-- The selector, the machines of the servers, and the calls as they were begun. -/
structure Calls (V B W : Type) where
  selector : RandomTransportSelector
  world : Option JString → W
  calls : List (Invocation V × Progress V B)
  /-- the calls that have come to their effect, in the order in which they did -/
  order : List Nat

namespace Progress

/-- The client that a call holds. -/
def client? : Progress V B → Option HttpTransportClient
  | .sending client | .found client _ | .answered client _ => some client
  | _ => none

/-- How a call will end, once it has come to its effect. -/
def result? (srvs : Option JString → RpcServer V B W TimedStream) {τ : Type}
    (inv : RemoteInvoker V τ TimedStream) (render : V → JString) (i : Invocation V) :
    Progress V B → Option (Except Throwable V)
  | .answered client r => some (RemoteInvoker.concluded render
      (i.fate.received (inv.received ((srvs client.url).respond r))))
  | .returned result => some result
  | _ => none

end Progress

namespace Calls

inductive Label (V : Type) where
  | call (i : Invocation V)
  | draw (k seed : Nat)
  | remove (k : Nat)
  | unencoded (k : Nat)
  | lose (k : Nat)
  | look (k : Nat)
  | run (k : Nat)
  | finish (k : Nat)

def setProgress (s : Calls V B W) (k : Nat) (i : Invocation V) (p : Progress V B) :
    Calls V B W := { s with calls := s.calls.set k (i, p) }

variable (srvs : Option JString → RpcServer V B W TimedStream)
  (services : Option JString → Services B)
  (inv : RemoteInvoker V (Servers V B W) TimedStream) (render : V → JString)

/-- Each access to the list of the selector, to a registry and to the machine of a server is a
step. -/
inductive Step : Calls V B W → Label V → Calls V B W → Prop
  | call (s : Calls V B W) (i : Invocation V) :
      Step s (.call i) { s with calls := s.calls ++ [(i, .selecting)] }
  | draw (s : Calls V B W) (k seed : Nat) (i : Invocation V) (index : Nat)
      (hk : s.calls[k]? = some (i, .selecting))
      (hs : RandomTransportSelector.nextInt seed s.selector.clients.length = .ok index) :
      Step s (.draw k seed) (s.setProgress k i (.drawn index))
  | refuse (s : Calls V B W) (k seed : Nat) (i : Invocation V) (e : Throwable)
      (hk : s.calls[k]? = some (i, .selecting))
      (hs : RandomTransportSelector.nextInt seed s.selector.clients.length = .error e) :
      Step s (.draw k seed) (s.setProgress k i (.refused e))
  | remove (s : Calls V B W) (k : Nat) (i : Invocation V) (index : Nat)
      (client : HttpTransportClient) (sel : RandomTransportSelector)
      (hk : s.calls[k]? = some (i, .drawn index))
      (hs : s.selector.remove index = .ok (client, sel)) :
      Step s (.remove k) { s.setProgress k i (.sending client) with selector := sel }
  | miss (s : Calls V B W) (k : Nat) (i : Invocation V) (index : Nat) (e : Throwable)
      (hk : s.calls[k]? = some (i, .drawn index)) (hs : s.selector.remove index = .error e) :
      Step s (.remove k) (s.setProgress k i (.refused e))
  | unencoded (s : Calls V B W) (k : Nat) (i : Invocation V) (client : HttpTransportClient)
      (e : Throwable) (hk : s.calls[k]? = some (i, .sending client))
      (he : inv.encode i.request = .error e) :
      Step s (.unencoded k) { s.setProgress k i
          (.returned (RemoteInvoker.concluded render (.threw e))) with
        selector := s.selector.release client
        order := s.order ++ [k] }
  | lose (s : Calls V B W) (k : Nat) (i : Invocation V) (client : HttpTransportClient)
      (outBytes : Bytes) (e : Throwable) (hk : s.calls[k]? = some (i, .sending client))
      (he : inv.encode i.request = .ok outBytes) (hf : i.fate = .requestLost e) :
      Step s (.lose k) { s.setProgress k i
          (.returned (RemoteInvoker.concluded render (.unsent e))) with
        selector := s.selector.release client
        order := s.order ++ [k] }
  | look (s : Calls V B W) (k : Nat) (i : Invocation V) (client : HttpTransportClient)
      (outBytes : Bytes) (hk : s.calls[k]? = some (i, .sending client))
      (he : inv.encode i.request = .ok outBytes) (hf : i.fate.arrives = true) :
      Step s (.look k) (s.setProgress k i (.found client
        ((srvs client.url).look (services client.url) (Arrival.whole outBytes).start)))
  | run (s : Calls V B W) (k : Nat) (i : Invocation V) (client : HttpTransportClient)
      (found : Except Throwable (Option (ServiceInstance B) × Option (Request V)))
      (hk : s.calls[k]? = some (i, .found client found)) :
      Step s (.run k) { s.setProgress k i (.answered client
          ((srvs client.url).runOn found (s.world client.url)).1) with
        world := Function.update s.world client.url
          ((srvs client.url).runOn found (s.world client.url)).2
        order := s.order ++ [k] }
  | finish (s : Calls V B W) (k : Nat) (i : Invocation V) (client : HttpTransportClient)
      (r : Except Throwable V) (hk : s.calls[k]? = some (i, .answered client r)) :
      Step s (.finish k) { s.setProgress k i (.returned (RemoteInvoker.concluded render
          (i.fate.received (inv.received ((srvs client.url).respond r))))) with
        selector := s.selector.release client }

/-- The client and the servers before the first call. -/
def start (st₀ : ClientState (Servers V B W)) : Calls V B W :=
  ⟨st₀.selector, fun url => (st₀.network url).world, [], []⟩

/-- A call that has come to its effect, with how it ends. -/
def entry (s : Calls V B W) (k : Nat) : Option (Invocation V × Except Throwable V) :=
  s.calls[k]?.bind fun call => (call.2.result? srvs inv render call.1).map fun r => (call.1, r)

/-- The clients that calls hold. -/
def held (s : Calls V B W) : List HttpTransportClient :=
  s.calls.filterMap fun call => call.2.client?

variable {srvs services inv render} {s t : Calls V B W} {l : Label V} {ls : List (Label V)}
  {st₀ st : ClientState (Servers V B W)} {k : Nat} {i : Invocation V} {p p' : Progress V B}
  {client : HttpTransportClient}

omit [JavaObject V] in
theorem held_setProgress (p' : Progress V B) (hk : s.calls[k]? = some (i, p)) :
    (p'.client?.toList ++ s.held).Perm (p.client?.toList ++ (s.setProgress k i p').held) :=
  (filterMap_set_perm (fun call => call.2.client?) hk (i, p')).symm

theorem entry_setProgress (hk : s.calls[k]? = some (i, p)) (j : Nat) :
    (s.setProgress k i p').entry srvs inv render j =
      if j = k then (p'.result? srvs inv render i).map fun r => (i, r)
      else s.entry srvs inv render j :=
  bind_getElem?_set _ hk _ j

/-- A step that does not settle how the call ends. -/
theorem entry_same (hk : s.calls[k]? = some (i, p))
    (hp : p'.result? srvs inv render i = p.result? srvs inv render i) :
    (s.setProgress k i p').entry srvs inv render = s.entry srvs inv render := by
  funext j
  rw [entry_setProgress hk, hp]
  by_cases hj : j = k
  · subst hj
    simp [entry, hk]
  · rw [if_neg hj]

/-- The registries of the servers before the first call. -/
def registries (st₀ : ClientState (Servers V B W)) : Option JString → Services B :=
  fun url => (st₀.network url).services

/-- The machines are as they are told; the registries and the pool are what they were. -/
structure Reflects (st₀ : ClientState (Servers V B W)) (world : Option JString → W)
    (st : ClientState (Servers V B W)) : Prop where
  world : ∀ url, (st.network url).world = world url
  services : ∀ url, (st.network url).services = registries st₀ url
  clients : st.selector.clients.Perm st₀.selector.clients

/-- A call that comes, over the connection of a client, to this. -/
theorem sequential_of_exit {raw : Raw V} {n' : Servers V B W}
    (hm : client ∈ st.selector.clients)
    (h : ∃ bs, RemoteInvoker.Exit (i.invoker inv) client.url i.request st.network raw bs n') :
    ∃ st', Sequential inv render st (i, RemoteInvoker.concluded render raw) st' ∧
      st'.network = n' ∧ st'.selector.clients.Perm st.selector.clients := by
  obtain ⟨seed, sel, hsel⟩ := RandomTransportSelector.exists_select_of_mem hm
  obtain ⟨bs, hexit⟩ := h
  have hinv : (i.invoker inv).invoke render seed i.method i.args st = _ :=
    RemoteInvoker.invoke_of_exit hsel hexit
  have hs : Sequential inv render st (i, _) _ := .invoke st i seed
  rw [hinv, outcome_ended, final_ended] at hs
  refine ⟨_, hs, rfl, ?_⟩
  exact (List.perm_append_singleton client sel.clients).trans
    (RandomTransportSelector.perm_of_select hsel).1.symm

/-- A call of which nothing reaches a server. -/
theorem sequential_alone {raw : Raw V} {world : Option JString → W} (hr : Reflects st₀ world st)
    (hm : client ∈ st₀.selector.clients)
    (h : ∃ bs, RemoteInvoker.Exit (i.invoker inv) client.url i.request st.network raw bs
      st.network) :
    ∃ st', Sequential inv render st (i, RemoteInvoker.concluded render raw) st' ∧
      Reflects st₀ world st' := by
  obtain ⟨st', hs, hn, hp⟩ := sequential_of_exit (hr.clients.mem_iff.mpr hm) h
  refine ⟨st', hs, ⟨fun url => ?_, fun url => ?_, hp.trans hr.clients⟩⟩
  · rw [hn, hr.world]
  · rw [hn, hr.services]

omit [JavaObject V] in
/-- What an exchange that reaches the server comes to. -/
theorem exit_of_arrives {outBytes : Bytes} {n n' : Servers V B W} {url : Option JString}
    {httpConn : HttpURLConnection TimedStream} (he : inv.encode i.request = .ok outBytes)
    (hf : i.fate.arrives = true) (hx : inv.exchange url outBytes n = .ok httpConn n') :
    ∃ bs, RemoteInvoker.Exit (i.invoker inv) url i.request n
      (i.fate.received (inv.received httpConn)) bs n' := by
  have he : (i.invoker inv).encode i.request = .ok outBytes := he
  cases hfate : i.fate with
  | delivered =>
    have hx : (i.invoker inv).exchange url outBytes n = .ok httpConn n' := by
      rw [Invocation.invoker, hfate]
      exact hx
    exact RemoteInvoker.exit_of_received he hx
  | requestLost e =>
    rw [hfate] at hf
    cases hf
  | answerLost e =>
    have hx : (i.invoker inv).exchange url outBytes n = .error e n' := by
      rw [Invocation.invoker, hfate]
      simp [Fate.carry, hx]
    exact ⟨_, .unsent outBytes e n' he hx⟩

/-- A call that a server serves in one piece. -/
theorem sequential_served {outBytes : Bytes} {world : Option JString → W}
    (hx : inv.exchange = servingAll srvs) (hr : Reflects st₀ world st)
    (hm : client ∈ st₀.selector.clients) (he : inv.encode i.request = .ok outBytes)
    (hf : i.fate.arrives = true) {q : Except Throwable V × W}
    (hq : (srvs client.url).runOn ((srvs client.url).look (registries st₀ client.url)
      (Arrival.whole outBytes).start) (world client.url) = q) :
    ∃ st', Sequential inv render st (i, RemoteInvoker.concluded render
        (i.fate.received (inv.received ((srvs client.url).respond q.1)))) st' ∧
      Reflects st₀ (Function.update world client.url q.2) st' := by
  obtain ⟨log, hlog⟩ := RpcServer.serving_eq (srvs client.url) outBytes (st.network client.url)
  rw [hr.services, hr.world, hq] at hlog
  have hx : inv.exchange client.url outBytes st.network =
      .ok ((srvs client.url).respond q.1)
        (Function.update st.network client.url ⟨registries st₀ client.url, q.2, log⟩) := by
    simp [hx, servingAll, onPart, hlog]
  obtain ⟨st', hs, hn, hp⟩ := sequential_of_exit (hr.clients.mem_iff.mpr hm)
    (exit_of_arrives he hf hx)
  refine ⟨st', hs, ⟨fun url => ?_, fun url => ?_, hp.trans hr.clients⟩⟩
  · by_cases hu : url = client.url
    · subst hu
      simp [hn]
    · simp [hn, hu, hr.world]
  · by_cases hu : url = client.url
    · subst hu
      simp [hn]
    · simp [hn, hu, hr.services]

/-- What a server has found for a call that has reached it, it would find again. -/
def Found (srvs : Option JString → RpcServer V B W TimedStream)
    (inv : RemoteInvoker V (Servers V B W) TimedStream) (st₀ : ClientState (Servers V B W)) :
    Invocation V × Progress V B → Prop
  | (i, .found client found) => ∃ outBytes, inv.encode i.request = .ok outBytes ∧
      i.fate.arrives = true ∧
      found = (srvs client.url).look (registries st₀ client.url) (Arrival.whole outBytes).start
  | _ => True

/-- The calls that have come to their effect are calls made one after the other, in that order, and
the clients are where they were or held by a call. -/
structure Linear (srvs : Option JString → RpcServer V B W TimedStream)
    (inv : RemoteInvoker V (Servers V B W) TimedStream) (render : V → JString)
    (st₀ : ClientState (Servers V B W)) (s : Calls V B W) : Prop where
  nodup : s.order.Nodup
  mem : ∀ k, k ∈ s.order ↔ s.entry srvs inv render k ≠ none
  pool : (s.held ++ s.selector.clients).Perm st₀.selector.clients
  found : ∀ call ∈ s.calls, Found srvs inv st₀ call
  sequential : ∃ st, Run (Sequential inv render) st₀
    (s.order.filterMap (s.entry srvs inv render)) st ∧ Reflects st₀ s.world st

omit [JavaObject V] in
/-- What leaves or enters the pool enters or leaves the hands of the call. -/
theorem pool_setProgress (hk : s.calls[k]? = some (i, p))
    (hcalls : t.calls = (s.setProgress k i p').calls)
    (hpool : (p'.client?.toList ++ t.selector.clients).Perm
      (p.client?.toList ++ s.selector.clients)) :
    (t.held ++ t.selector.clients).Perm (s.held ++ s.selector.clients) := by
  have hheld := held_setProgress p' hk
  have ht : t.held = (s.setProgress k i p').held := by rw [held, hcalls, held]
  rw [List.perm_iff_count] at hheld hpool ⊢
  intro a
  have hheld := hheld a
  have hpool := hpool a
  simp only [List.count_append, ht] at hheld hpool ⊢
  omega

theorem entry_eq (hk : s.calls[k]? = some (i, p))
    (hcalls : t.calls = (s.setProgress k i p').calls) (j : Nat) :
    t.entry srvs inv render j = if j = k then (p'.result? srvs inv render i).map fun r => (i, r)
      else s.entry srvs inv render j := by
  rw [← entry_setProgress hk, entry, hcalls, entry]

/-- A step before the effect of its call, or behind it. -/
theorem linear_same (hi : Linear srvs inv render st₀ s) (hk : s.calls[k]? = some (i, p))
    (hcalls : t.calls = (s.setProgress k i p').calls)
    (hp : p'.result? srvs inv render i = p.result? srvs inv render i)
    (hpool : (p'.client?.toList ++ t.selector.clients).Perm
      (p.client?.toList ++ s.selector.clients))
    (hfound : Found srvs inv st₀ (i, p')) (hworld : t.world = s.world)
    (horder : t.order = s.order) :
    Linear srvs inv render st₀ t := by
  have hentry : t.entry srvs inv render = s.entry srvs inv render := by
    rw [← entry_same hk hp]
    funext j
    rw [entry, hcalls, entry]
  refine ⟨by rw [horder]; exact hi.nodup, fun j => by rw [horder, hentry]; exact hi.mem j,
    (pool_setProgress hk hcalls hpool).trans hi.pool,
    by rw [hcalls]; exact forall_set hi.found hfound, ?_⟩
  rw [horder, hentry, hworld]
  exact hi.sequential

/-- The step at which a call comes to its effect. -/
theorem linear_effect (hi : Linear srvs inv render st₀ s) (hk : s.calls[k]? = some (i, p))
    (hcalls : t.calls = (s.setProgress k i p').calls) {r : Except Throwable V}
    (hp : p.result? srvs inv render i = none) (hp' : p'.result? srvs inv render i = some r)
    (hpool : (p'.client?.toList ++ t.selector.clients).Perm
      (p.client?.toList ++ s.selector.clients))
    (horder : t.order = s.order ++ [k])
    (hseq : ∀ st, Reflects st₀ s.world st →
      ∃ st', Sequential inv render st (i, r) st' ∧ Reflects st₀ t.world st') :
    Linear srvs inv render st₀ t := by
  have hentry : ∀ j, t.entry srvs inv render j =
      if j = k then (p'.result? srvs inv render i).map fun r => (i, r)
      else s.entry srvs inv render j := entry_eq hk hcalls
  have hself : t.entry srvs inv render k = some (i, r) := by simp [hentry, hp']
  have hnot : k ∉ s.order := by simp [hi.mem, entry, hk, hp]
  have hfound : Found srvs inv st₀ (i, p') := by
    cases p' with
    | found client found => cases hp'
    | _ => trivial
  obtain ⟨st, hrun, hst⟩ := hi.sequential
  obtain ⟨st', hs, hst'⟩ := hseq st hst
  refine ⟨?_, fun j => ?_, (pool_setProgress hk hcalls hpool).trans hi.pool,
    by rw [hcalls]; exact forall_set hi.found hfound, st', ?_, hst'⟩
  · rw [horder]
    have hne : ∀ j ∈ s.order, j ≠ k := fun j hj he => hnot (by rwa [← he])
    simpa [List.nodup_append] using ⟨hi.nodup, hne⟩
  · rw [horder, List.mem_append, List.mem_singleton]
    by_cases hj : j = k
    · simp [hj, hself]
    · rw [hentry, if_neg hj, hi.mem j]
      simp [hj]
  · rw [horder, filterMap_concat hnot (fun j hj => by rw [hentry, if_neg hj]) hself]
    exact hrun.next hs

theorem linear_call (hi : Linear srvs inv render st₀ s) (i : Invocation V) :
    Linear srvs inv render st₀ { s with calls := s.calls ++ [(i, .selecting)] } := by
  have hentry : ({ s with calls := s.calls ++ [(i, .selecting)] } : Calls V B W).entry srvs inv
      render = s.entry srvs inv render := by
    funext j
    exact bind_getElem?_concat rfl j
  refine ⟨hi.nodup, fun j => by rw [hentry]; exact hi.mem j, ?_, ?_, ?_⟩
  · simpa [held, Progress.client?, List.filterMap_cons] using hi.pool
  · exact List.forall_mem_append.mpr ⟨hi.found, List.forall_mem_singleton.mpr trivial⟩
  · rw [hentry]
    exact hi.sequential

/-- What a call holds was in the pool at first. -/
theorem Linear.mem_clients (hi : Linear srvs inv render st₀ s)
    (hk : s.calls[k]? = some (i, p)) (hp : p.client? = some client) :
    client ∈ st₀.selector.clients := by
  have hmem : client ∈ s.held :=
    List.mem_filterMap.mpr ⟨(i, p), List.mem_of_getElem? hk, hp⟩
  exact hi.pool.subset (List.mem_append_left _ hmem)

theorem linear_step (hx : inv.exchange = servingAll srvs) (hi : Linear srvs inv render st₀ s)
    (h : Step srvs (registries st₀) inv render s l t) : Linear srvs inv render st₀ t := by
  cases h with
  | call i => exact linear_call hi i
  | draw k seed i index hk hs => exact linear_same hi hk rfl rfl (.refl _) trivial rfl rfl
  | refuse k seed i e hk hs => exact linear_same hi hk rfl rfl (.refl _) trivial rfl rfl
  | remove k i index client sel hk hs =>
    refine linear_same hi hk rfl rfl ?_ trivial rfl rfl
    exact (RandomTransportSelector.perm_of_remove hs).symm
  | miss k i index e hk hs => exact linear_same hi hk rfl rfl (.refl _) trivial rfl rfl
  | unencoded k i client e hk he =>
    refine linear_effect hi hk rfl rfl rfl ?_ rfl fun st hr =>
      sequential_alone hr (hi.mem_clients hk rfl) ⟨[], .unencoded e he⟩
    exact List.perm_append_singleton client s.selector.clients
  | lose k i client outBytes e hk he hf =>
    refine linear_effect hi hk rfl rfl rfl ?_ rfl fun st hr =>
      sequential_alone hr (hi.mem_clients hk rfl) ⟨[], .unsent outBytes e _ he ?_⟩
    · exact List.perm_append_singleton client s.selector.clients
    · rw [Invocation.invoker, hf]
      rfl
  | look k i client outBytes hk he hf =>
    exact linear_same hi hk rfl rfl (.refl _) ⟨outBytes, he, hf, rfl⟩ rfl rfl
  | run k i client found hk =>
    obtain ⟨outBytes, he, hf, rfl⟩ := hi.found (i, .found client found) (List.mem_of_getElem? hk)
    exact linear_effect hi hk rfl rfl rfl (.refl _) rfl fun st hr =>
      sequential_served hx hr (hi.mem_clients hk rfl) he hf rfl
  | finish k i client r hk =>
    exact linear_same hi hk rfl rfl (List.perm_append_singleton client s.selector.clients)
      trivial rfl rfl

theorem linear_start : Linear srvs inv render st₀ (start st₀) where
  nodup := .nil
  mem := by simp [start, entry]
  pool := .refl _
  found := by simp [start]
  sequential := ⟨st₀, .start, fun _ => rfl, fun _ => rfl, .refl _⟩

theorem linear_run (hx : inv.exchange = servingAll srvs)
    (h : Run (Step srvs (registries st₀) inv render) (start st₀) ls s) :
    Linear srvs inv render st₀ s :=
  h.invariant (fun _ _ _ hs hi => linear_step hx hi hs) linear_start

theorem order_step (h : Step srvs services inv render s l t) : s.order <+: t.order := by
  cases h <;> first | exact List.prefix_rfl | exact List.prefix_append _ _

/-- However the steps of calls follow on one another and whatever the network loses, the calls that
have come to their effect are calls made one after the other: each once, with the result that it has
or will have, and with this effect on the servers. A call takes its place in that order between its
beginning and its end, for the order only grows. Every client is in the pool or in the hands of one
call. -/
theorem calls_linearize (hx : inv.exchange = servingAll srvs)
    (h : Run (Step srvs (registries st₀) inv render) (start st₀) ls s) :
    (∃ st, Run (Sequential inv render) st₀ (s.order.filterMap (s.entry srvs inv render)) st ∧
      ∀ url, (st.network url).world = s.world url) ∧
    s.order.Nodup ∧ (∀ k, k ∈ s.order ↔ s.entry srvs inv render k ≠ none) ∧
    (∀ ls' t, Run (Step srvs (registries st₀) inv render) s ls' t → s.order <+: t.order) ∧
    (s.held ++ s.selector.clients).Perm st₀.selector.clients := by
  have hi := linear_run hx h
  obtain ⟨st, hrun, hst⟩ := hi.sequential
  refine ⟨⟨st, hrun, hst.world⟩, hi.nodup, hi.mem, fun ls' t h' => ?_, hi.pool⟩
  exact h'.invariant (P := fun t => s.order <+: t.order)
    (fun _ _ _ hs hp => hp.trans (order_step hs)) List.prefix_rfl

namespace Example

open Rpc.Example

/-- The sum of one and two. -/
def addition : Invocation Value := ⟨calcService, add, addRequest.parameters, .delivered⟩

/-- The server of the example at every address. -/
def servers : Option JString → RpcServer Value CalcServiceImpl Unit TimedStream := fun _ => server

abbrev invoker : RemoteInvoker Value (Servers Value CalcServiceImpl Unit) TimedStream :=
  invokerWith (servingAll servers)

abbrev idle : ClientState (Servers Value CalcServiceImpl Unit) := clientState fun _ => serverState

/-- Two calls draw the index of the only client. The second one finds it gone, and the first one is
as good as alone. -/
theorem calls_linearize_two : ∃ ls s,
    Run (Step servers (registries idle) invoker fun _ => []) (start idle) ls s ∧
      s.calls[1]? = some (addition, .refused .indexOutOfBoundsException) ∧
      ∃ r st, Run (Sequential invoker fun _ => []) idle [(addition, r)] st := by
  have h₀ : Run (Step servers (registries idle) invoker fun _ => []) (start idle) _ _ :=
    .single (.call _ addition)
  have h₁ := h₀.next (.call _ addition)
  have h₂ := h₁.next (.draw _ 0 0 addition 0 rfl rfl)
  have h₃ := h₂.next (.draw _ 1 0 addition 0 rfl rfl)
  have h₄ := h₃.next (.remove _ 0 addition 0 defaultClient ⟨[], 1⟩ rfl rfl)
  have h₅ := h₄.next (.miss _ 1 addition 0 _ rfl rfl)
  have h₆ := h₅.next (.look _ 0 addition defaultClient addRequestText rfl encodeRequest_add rfl)
  have h := h₆.next (.run _ 0 addition defaultClient _ rfl)
  obtain ⟨⟨st, hrun, -⟩, -⟩ := calls_linearize rfl h
  exact ⟨_, _, h, rfl, _, st, hrun⟩

end Example

end Calls

end SpringDemo.Rpc

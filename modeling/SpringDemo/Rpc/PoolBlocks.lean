import SpringDemo.Rpc.ClientReply
import SpringDemo.Rpc.PoolRuns

/-! The blocks of the code that nothing interrupts, as runs of the selector: an `init`, a call, and
a client that one thread makes and uses. -/
namespace SpringDemo.Rpc

open Java Lib.Exec Lib.Runs

/-- The stages that a call has behind it. -/
def Stage.before : Stage → List Stage
  | encode => []
  | write => [encode]
  | read => [encode, write]
  | decode => [encode, write, read]
  | release => [encode, write, read, decode]

namespace CallPool

variable {l : Label} {ls : List Label}

/-- The loop of `init` over what it has still to connect. -/
theorem connect_run (ps : List Peer) (s : CallPool) (h : s.pending = ps) :
    Run Step s (List.replicate ps.length .connect)
      { s with
        selector := ps.foldl RandomTransportSelector.addConnected s.selector
        pending := []
        created := s.created ++ s.selector.fresh ps } := by
  induction ps generalizing s with
  | nil =>
    have hs : ({ s with pending := [] } : CallPool) = s := by rw [← h]
    rw [RandomTransportSelector.fresh_nil, List.append_nil, List.foldl_nil, hs]
    exact .start
  | cons p ps ih =>
    have hfirst := Run.single (Step.connect s p ps h)
    have hrest := ih { s with
      selector := s.selector.addConnected p
      pending := ps
      created := s.created ++ [.connect ⟨s.selector.allocated, none⟩ p] } rfl
    rw [List.append_assoc, ← RandomTransportSelector.fresh_cons] at hrest
    exact hfirst.append hrest

/-- An `init` that nothing interrupts: it connects one client for each entry. -/
theorem init_run (s : CallPool) (peers : List Peer) (count : Int) (h : s.pending = []) :
    Run Step s
      (.init peers count ::
        List.replicate (RandomTransportSelector.entries peers count).length .connect)
      { s with
        selector := s.selector.init peers count
        created := s.created ++
          s.selector.fresh (RandomTransportSelector.entries peers count) } := by
  have hinit := Run.single (Step.init s peers count h)
  have hloop := connect_run (RandomTransportSelector.entries peers count)
    { s with pending := RandomTransportSelector.entries peers count } rfl
  rw [RandomTransportSelector.init_eq]
  rw [← h] at hloop
  exact hinit.append hloop

theorem passed_run (s : CallPool) (client : HttpTransportClient) (stage : Stage) :
    Run Step { s with running := .holding .encode client ::ₘ s.running } (stage.before.map .returns)
      { s with running := .holding stage client ::ₘ s.running } := by
  have returns : ∀ stage, stage ≠ Stage.release →
      Run Step { s with running := .holding stage client ::ₘ s.running } [.returns stage]
        { s with running := .holding stage.next client ::ₘ s.running } :=
    fun stage hne => .single (.returns _ _ stage client rfl hne)
  have encoded := returns .encode (by decide)
  have wrote := encoded.append (returns .write (by decide))
  have read := wrote.append (returns .read (by decide))
  cases stage with
  | encode => exact .start
  | write => exact encoded
  | read => exact wrote
  | decode => exact read
  | release => exact read.append (returns .decode (by decide))

variable {V τ σ : Type} [JavaObject V] {inv : RemoteInvoker V τ σ} {url : Option JString}
  {request : Request V} {n n' : τ} {raw : Raw V} {bs : List Bytes}

/-- The work of a call over its connection: either all its stages return, or one of them throws
what is thrown in the end. -/
inductive Worked (raw : Raw V) : List Label → Prop
  | returned (response : Option (Response V)) (h : RemoteInvoker.thrown raw = .ok response) :
      Worked raw (Stage.release.before.map .returns)
  | threw (stage : Stage) (e : Throwable) (hs : stage ≠ .release)
      (h : RemoteInvoker.thrown raw = .error e) :
      Worked raw (stage.before.map .returns ++ [.throws stage e])

omit [JavaObject V] in
/-- The steps of a call over its connection, however they end. -/
theorem work_run (h : RemoteInvoker.Exit inv url request n raw bs n') (s : CallPool)
    (client : HttpTransportClient) :
    ∃ ls, Worked raw ls ∧
      Run Step { s with running := .holding .encode client ::ₘ s.running } ls
        { s with running := .holding .release client ::ₘ s.running } := by
  have throws : ∀ stage e, stage ≠ Stage.release → RemoteInvoker.thrown raw = .error e →
      ∃ ls, Worked raw ls ∧
        Run Step { s with running := .holding .encode client ::ₘ s.running } ls
          { s with running := .holding .release client ::ₘ s.running } := by
    intro stage e hne ht
    exact ⟨_, .threw stage e hne ht,
      (passed_run s client stage).next (.throws _ _ stage client e rfl hne)⟩
  cases h with
  | unencoded e he => exact throws .encode e (by decide) rfl
  | unsent outBytes e n' he hx => exact throws .write _ (by decide) rfl
  | noInput outBytes c e n' he hx hs => exact throws .write _ (by decide) rfl
  | noStream outBytes c n' he hx hs => exact throws .read _ (by decide) rfl
  | unread outBytes c revice e n' he hx hs hr => exact throws .read e (by decide) rfl
  | undecoded outBytes c revice inBytes e n' he hx hs hr hd =>
    exact throws .decode e (by decide) rfl
  | decoded outBytes c revice inBytes response n' he hx hs hr hd =>
    exact ⟨_, .returned response rfl, passed_run s client .release⟩

/-- The labels of one call of `invokeRemote` that nothing interrupts: it selects a client, works
and releases that client, unless it is `select` that throws. -/
inductive Called (inv : RemoteInvoker V τ σ) (seed : Nat) (request : Request V)
    (st : ClientState τ) : List Label → Prop
  | selectThrows (e : Throwable) (h : st.selector.select seed = .error e)
      (hr : outcome (inv.invokeRemote seed request st) = .error e) :
      Called inv seed request st [.call, .selectThrows e]
  | worked (client : HttpTransportClient) (sel : RandomTransportSelector) (raw : Raw V)
      (work : List Label) (h : st.selector.select seed = .ok (client, sel)) (hw : Worked raw work)
      (hr : outcome (inv.invokeRemote seed request st) = RemoteInvoker.returned raw) :
      Called inv seed request st ([.call, .select client] ++ work ++ [.release client])

/-- A call of `invokeRemote` that nothing interrupts does to the selector what its steps do. -/
theorem invokeRemote_run (inv : RemoteInvoker V τ σ) (seed : Nat) (request : Request V)
    (st : ClientState τ) (s : CallPool) (hs : s.selector = st.selector) :
    ∃ ls, Called inv seed request st ls ∧ Run Step s ls
      { s with selector := (final (inv.invokeRemote seed request st)).selector } := by
  have hcall := Run.single (Step.call s)
  cases hsel : st.selector.select seed with
  | error e =>
    have hio := RandomTransportSelector.isIOException_of_select_error hsel
    have hx : inv.invokeRemote seed request st = .error e st :=
      RemoteInvoker.invokeRemote_of_select_error hsel hio
    refine ⟨_, .selectThrows e hsel (by rw [hx, outcome_error]), ?_⟩
    rw [hx, final_error, ← hs]
    exact hcall.next (.selectThrows _ s.running seed e rfl (hs ▸ hsel))
  | ok r =>
    obtain ⟨client, sel⟩ := r
    obtain ⟨raw, bs, n', h⟩ := RemoteInvoker.exit_total inv client.url request st.network
    have hx := RemoteInvoker.invokeRemote_of_exit hsel h
    obtain ⟨work, hw, hrun⟩ := work_run h { s with selector := sel } client
    refine ⟨_, .worked client sel raw work hsel hw (by rw [hx, outcome_ended]), ?_⟩
    rw [hx, final_ended]
    have hselect := hcall.next (.select _ s.running seed client sel rfl (hs ▸ hsel))
    exact (hselect.append hrun).next (.release _ s.running client rfl)

/-- The calls of `invokeRemote` that one thread makes, one after the other. -/
def invokeRemotes (inv : RemoteInvoker V τ σ) (calls : List (Nat × Request V))
    (st : ClientState τ) : ClientState τ :=
  calls.foldl (fun st c => final (inv.invokeRemote c.1 c.2 st)) st

theorem of_mem_called {st : ClientState τ} {seed : Nat} (h : Called inv seed request st ls)
    (hl : l ∈ ls) : l ≠ .close ∧ (st.selector.clients ≠ [] → l.isSelectThrows = false) := by
  cases h with
  | selectThrows e hs =>
    have hnil := (RandomTransportSelector.select_error_iff _ seed).mp ⟨e, hs⟩
    rcases List.mem_pair.mp hl with rfl | rfl
    · exact ⟨by simp, fun _ => rfl⟩
    · exact ⟨by simp, fun hne => absurd hnil hne⟩
  | worked client sel raw work _ hw =>
    have hwork : l ∈ work → l ≠ .close ∧ l.isSelectThrows = false := by
      intro hl
      cases hw with
      | returned =>
        obtain ⟨stage, -, rfl⟩ := List.mem_map.mp hl
        exact ⟨by simp, rfl⟩
      | threw stage e =>
        rcases List.mem_append.mp hl with hl | hl
        · obtain ⟨stage, -, rfl⟩ := List.mem_map.mp hl
          exact ⟨by simp, rfl⟩
        · rw [List.mem_singleton.mp hl]
          exact ⟨by simp, rfl⟩
    simp only [List.mem_append, List.mem_pair, List.mem_singleton] at hl
    rcases hl with ((rfl | rfl) | hl) | rfl
    · exact ⟨by simp, fun _ => rfl⟩
    · exact ⟨by simp, fun _ => rfl⟩
    · exact (hwork hl).imp_right fun h _ => h
    · exact ⟨by simp, fun _ => rfl⟩

/-- A client that one thread makes and then uses is a run that closes nothing and that leaves no
call running; when it has a peer at all, no `select` of it throws. -/
theorem client_run (inv : RemoteInvoker V τ σ) (peers : List Peer) (count : Int) (network : τ)
    (calls : List (Nat × Request V)) :
    ∃ ls, Run Step new ls
        { selector := (invokeRemotes inv calls ⟨.init .new peers count, network, []⟩).selector
          pending := []
          running := 0
          created := RandomTransportSelector.new.fresh
            (RandomTransportSelector.entries peers count)
          closed := [] } ∧
      Label.close ∉ ls ∧ (peers ≠ [] → ∀ l ∈ ls, l.isSelectThrows = false) := by
  induction calls using List.reverseRecOn with
  | nil =>
    refine ⟨_, init_run new peers count rfl, by simp, ?_⟩
    intro _ l hl
    rcases List.mem_cons.mp hl with rfl | hl
    · rfl
    · rw [List.eq_of_mem_replicate hl]
      rfl
  | append_singleton calls c ih =>
    obtain ⟨ls, hrun, hclose, hsafe⟩ := ih
    rw [invokeRemotes, List.foldl_concat, ← invokeRemotes]
    generalize invokeRemotes inv calls ⟨.init .new peers count, network, []⟩ = st at hrun ⊢
    obtain ⟨ls', hcalled, hrun'⟩ := invokeRemote_run inv c.1 c.2 st ⟨st.selector, [], 0, _, _⟩ rfl
    refine ⟨ls ++ ls', hrun.append hrun', ?_, fun hpeers l hl => ?_⟩
    · intro hl
      rcases List.mem_append.mp hl with hl | hl
      · exact hclose hl
      · exact (of_mem_called hcalled hl).1 rfl
    · have hspare : st.selector.clients ≠ [] := by
        refine (clients_ne_nil_iff hrun).mpr (List.length_pos_of_ne_nil ?_)
        exact RandomTransportSelector.fresh_entries_ne_nil hpeers .new count
      rcases List.mem_append.mp hl with hl | hl
      · exact hsafe hpeers l hl
      · exact (of_mem_called hcalled hl).2 hspare

end CallPool

end SpringDemo.Rpc

import SpringDemo.Rpc.RemoteCall

/-! The parts of a call between which other threads may act, and that with nothing between them they
are the whole. -/
namespace SpringDemo.Rpc

open Java Lib.Exec Lib.HashTable

variable {V B W σ : Type} [JavaObject V]

namespace RpcServer

/-- The statements of `onRequest` up to the lookup. -/
def look (srv : RpcServer V B W σ) (services : Services B) (recive : σ) :
    Except Throwable (Option (ServiceInstance B) × Option (Request V)) := do
  let inBytes ← readBody srv.io recive
  let request ← srv.decode inBytes
  let sis ← ServiceManager.lookup services request
  pure (sis, request)

/-- `serviceInvoker.invoke(sis, request)`, on the machine as it is then. -/
def runOn (srv : RpcServer V B W σ)
    (found : Except Throwable (Option (ServiceInstance B) × Option (Request V))) (world : W) :
    Except Throwable V × W :=
  match found with
  | .error e => (.error e, world)
  | .ok (sis, request) =>
    let result := srv.serviceInvoke sis request ⟨⟨[], world, []⟩, Response.new⟩
    (outcome result, (final result).world)

/-- What the container answers when the `try` block has ended so. -/
def respond (srv : RpcServer V B W σ) (r : Except Throwable V) : HttpURLConnection TimedStream :=
  match (srv.replied (fun _ => .ok ()) (answer r)).1.bind fun _ => settled r with
  | .ok _ => ⟨200, .ok (Arrival.whole (srv.encode (answer r)).toOption.toList.flatten).start, none⟩
  | .error _ => ⟨500, .error ⟨.io, utf16 "java.io.IOException", none⟩, none⟩

omit [JavaObject V] in
theorem look_of_lookup {srv : RpcServer V B W σ} {services : Services B} {recive : σ}
    {inBytes : Bytes} {request : Request V} {d : ServiceDescriptor}
    (hr : readBody srv.io recive = .ok inBytes) (hd : srv.decode inBytes = .ok (some request))
    (hs : request.serviceDescriptor = some d) :
    srv.look services recive = .ok (get services d, some request) := by
  simp [look, hr, hd, hs, ServiceManager.lookup, bind, Except.bind, pure, Except.pure]

/-- The parts, with nothing between them, are the `try` block. -/
theorem exit_of_parts (srv : RpcServer V B W σ) (services : Services B) (world : W) (recive : σ) :
    ∃ evs, Exit srv services world recive (srv.runOn (srv.look services recive) world).1 evs
      (srv.runOn (srv.look services recive) world).2 := by
  obtain ⟨r, evs, w, h⟩ := exit_total srv services world recive
  have hparts : srv.runOn (srv.look services recive) world = (r, w) := by
    cases h with
    | unread e hr => simp [look, runOn, hr, bind, Except.bind]
    | undecoded inBytes e hr hd => simp [look, runOn, hr, hd, bind, Except.bind]
    | nullRequest inBytes hr hd =>
      simp [look, runOn, hr, hd, bind, Except.bind, ServiceManager.lookup]
    | nullDescriptor inBytes request hr hd hs =>
      simp [look, runOn, hr, hd, hs, bind, Except.bind, ServiceManager.lookup]
    | unregistered inBytes request d hr hd hs hg =>
      rw [look_of_lookup hr hd hs, hg]
      simp [runOn, serviceInvoke]
    | rejected inBytes request d sis e hr hd hs hg ha =>
      have he := Method.arguments_error ha
      rw [look_of_lookup hr hd hs, hg]
      simp [runOn, serviceInvoke, reflectionInvoke, catching, methodInvoke, bind_run, ha, he]
    | ran inBytes request d sis actual r w hr hd hs hg ha hx =>
      rw [look_of_lookup hr hd hs, hg]
      cases r <;>
        simp [runOn, serviceInvoke, reflectionInvoke, catching, methodInvoke, exec, tell, bind_run,
          ha, hx, Except.mapError]
  rw [hparts]
  exact ⟨evs, h⟩

/-- The container answers as the parts say. -/
theorem serving_eq (srv : RpcServer V B W TimedStream) (data : Bytes) (n : ServerState V B W) :
    ∃ log, ∀ url, serving srv url data n =
      .ok (srv.respond (srv.runOn (srv.look n.services (Arrival.whole data).start) n.world).1)
        ⟨n.services, (srv.runOn (srv.look n.services (Arrival.whole data).start) n.world).2,
          log⟩ := by
  obtain ⟨evs, h⟩ := exit_of_parts srv n.services n.world (Arrival.whole data).start
  generalize srv.runOn (srv.look n.services (Arrival.whole data).start) n.world = q at h ⊢
  have hserve : srv.onRequest _ (fun _ => .ok ()) n = _ := onRequest_of_exit h
  have hwrote := (replied_events srv (fun _ => .ok ()) (answer q.1)).2
  simp only [serving, hserve, respond]
  cases (srv.replied (fun _ => .ok ()) (answer q.1)).1.bind fun _ => settled q.1 with
  | ok u =>
    refine ⟨n.log ++ evs ++ (srv.replied (fun _ => .ok ()) (answer q.1)).2, ?_⟩
    simp [(exit_events h).2.2, hwrote]
  | error e => exact ⟨_, fun _ => rfl⟩

end RpcServer

namespace RandomTransportSelector

/-- `clients.remove(i)`. -/
def remove (sel : RandomTransportSelector) (i : Nat) :
    Except Throwable (HttpTransportClient × RandomTransportSelector) :=
  match sel.clients[i]? with
  | none => .error .indexOutOfBoundsException
  | some client => .ok (client, { sel with clients := sel.clients.eraseIdx i })

/-- The parts, with nothing between them, are `select`. -/
theorem select_eq (sel : RandomTransportSelector) (seed : Nat) :
    sel.select seed = (nextInt seed sel.clients.length).bind sel.remove := by
  unfold select
  cases nextInt seed sel.clients.length <;> rfl

/-- Each client of the pool can be the one that is selected. -/
theorem exists_select_of_mem {sel : RandomTransportSelector} {client : HttpTransportClient}
    (h : client ∈ sel.clients) : ∃ seed sel', sel.select seed = .ok (client, sel') := by
  obtain ⟨i, hi⟩ := List.mem_iff_getElem?.mp h
  obtain ⟨hlt, -⟩ := List.getElem?_eq_some_iff.mp hi
  have hne : sel.clients.length ≠ 0 := by omega
  refine ⟨i, { sel with clients := sel.clients.eraseIdx i }, ?_⟩
  rw [select_eq, nextInt, if_neg hne, Nat.mod_eq_of_lt hlt]
  simp [Except.bind, remove, hi]

theorem perm_of_remove {sel sel' : RandomTransportSelector} {i : Nat}
    {client : HttpTransportClient} (h : sel.remove i = .ok (client, sel')) :
    sel.clients.Perm (client :: sel'.clients) := by
  unfold remove at h
  split at h
  · cases h
  · rename_i hi
    cases h
    obtain ⟨hlt, rfl⟩ := List.getElem?_eq_some_iff.mp hi
    exact (List.getElem_cons_eraseIdx_perm hlt).symm

end RandomTransportSelector

namespace RemoteInvoker

variable {τ : Type}

/-- The rest of a call, from the answer to its exchange on. -/
def received (inv : RemoteInvoker V τ σ) (httpConn : HttpURLConnection σ) : Raw V :=
  match httpConn.stream with
  | .error e => .unsent e
  | .ok none => .noStream
  | .ok (some revice) =>
    match readBody inv.io revice with
    | .error e => .threw e
    | .ok inBytes =>
      match inv.decode inBytes with
      | .error e => .threw e
      | .ok response => .decoded httpConn.responseCode response

omit [JavaObject V] in
theorem exit_of_received {inv : RemoteInvoker V τ σ} {url : Option JString} {request : Request V}
    {outBytes : Bytes} {n n' : τ} {httpConn : HttpURLConnection σ}
    (he : inv.encode request = .ok outBytes) (hx : inv.exchange url outBytes n = .ok httpConn n') :
    ∃ bs, Exit inv url request n (inv.received httpConn) bs n' := by
  unfold received
  cases hs : httpConn.stream with
  | error e => exact ⟨_, .noInput outBytes httpConn e n' he hx hs⟩
  | ok revice =>
    rcases revice with _ | revice
    · exact ⟨_, .noStream outBytes httpConn n' he hx hs⟩
    dsimp only
    cases hr : readBody inv.io revice with
    | error e => exact ⟨_, .unread outBytes httpConn revice e n' he hx hs hr⟩
    | ok inBytes =>
      dsimp only
      cases hd : inv.decode inBytes with
      | error e => exact ⟨_, .undecoded outBytes httpConn revice inBytes e n' he hx hs hr hd⟩
      | ok response =>
        exact ⟨_, .decoded outBytes httpConn revice inBytes response n' he hx hs hr hd⟩

end RemoteInvoker

end SpringDemo.Rpc

import SpringDemo.Rpc.ClientReply
import SpringDemo.Rpc.ServerReply

/-! A client and a server joined by a transport: what a remote call does, against the local
call that it stands for. -/
namespace SpringDemo.Rpc

open Java Lib.Exec Lib.HashTable HttpTransportClient

variable {V B W : Type} [JavaObject V]

/-- A network whose other end is a server. -/
abbrev Exchange (V B W : Type) :=
  Option JString → Bytes → Block Throwable (ServerState V B W) (HttpURLConnection TimedStream)

/-- What is relied on of the transport at an address: the handler is run on the whole request,
and the one body it writes comes back whole, with status 200. -/
def Delivers (srv : RpcServer V B W TimedStream) (exchange : Exchange V B W) (url : JString) :
    Prop :=
  ∀ data st st' evs bytes,
    srv.onRequest (Arrival.whole data).start (fun _ => .ok ()) st = .ok () st' →
    st'.log = st.log ++ evs → evs.filterMap Event.wrote? = [bytes] →
    ∃ httpConn, exchange (some url) data st = .ok httpConn st' ∧
      httpConn.responseCode = 200 ∧ httpConn.inputStream = .ok (Arrival.whole bytes).start

/-- A client whose pool was initialised with peers that lead to the server, all of its clients
idle, and a `readFully` on both sides that does what is relied on. -/
structure Connected (srv : RpcServer V B W TimedStream)
    (inv : RemoteInvoker V (ServerState V B W) TimedStream) (st : ClientState (ServerState V B W)) :
    Prop where
  serverReads : ∃ reader : TimedStream.FullReader, srv.io = reader.io
  clientReads : ∃ reader : TimedStream.FullReader, inv.io = reader.io
  pool : ∃ peers count, peers ≠ [] ∧
    (∀ peer ∈ peers, Delivers srv inv.exchange (urlOf peer)) ∧
    st.selector.clients.Perm (RandomTransportSelector.new.init peers count).clients

/-- A public method of a public interface, and the bean most recently registered under it. -/
structure Served (srv : RpcServer V B W TimedStream) (n : ServerState V B W) (I : ClassName)
    (m : Method) (bean : B) : Prop where
  registered : ∃ hist, n.services = registered srv.classPath hist ∧
    latest hist I = some (some bean)
  accessible : srv.classPath.isAccessible I = true
  declared : m ∈ srv.classPath.getDeclaredMethods I
  isPublic : m.isPublic = true

variable {srv : RpcServer V B W TimedStream}
  {inv : RemoteInvoker V (ServerState V B W) TimedStream}
  {st : ClientState (ServerState V B W)} {url : JString} {request : Request V}
  {n : ServerState V B W} {bytes outBytes : Bytes} {r : Except Throwable V}
  {evs : List (Event V B)} {w : W} {response : Option (Response V)} {I : ClassName} {m : Method}
  {bean : B} {args : Option (List V)} {actual : List V}

/-- There is a connection for the call, and it leads to the server. -/
theorem Connected.exists_select (h : Connected srv inv st) (seed : Nat) :
    ∃ client sel url, st.selector.select seed = .ok (client, sel) ∧
      st.selector.clients.Perm (client :: sel.clients) ∧ client.url = some url ∧
      Delivers srv inv.exchange url := by
  obtain ⟨peers, count, hpeers, hnet, hpool⟩ := h.pool
  have hne : st.selector.clients ≠ [] := by
    intro hnil
    rw [hnil] at hpool
    exact RandomTransportSelector.init_clients_ne_nil hpeers count hpool.symm.eq_nil
  obtain ⟨client, sel, hsel⟩ := RandomTransportSelector.exists_select hne seed
  have hperm := (RandomTransportSelector.perm_of_select hsel).1
  obtain ⟨peer, hpeer, hurl⟩ := RandomTransportSelector.url_of_mem_init
    (hpool.subset (hperm.symm.subset List.mem_cons_self))
  exact ⟨client, sel, urlOf peer, hsel, hperm, hurl, hnet peer hpeer⟩

/-- The way of a request to the server, and of its response back. -/
theorem exit_of_delivers (hi : ∃ reader : TimedStream.FullReader, inv.io = reader.io)
    (hnet : Delivers srv inv.exchange url)
    (henc : inv.encode request = .ok bytes)
    (h : RpcServer.Exit srv n.services n.world (Arrival.whole bytes).start r evs w)
    (hr : ∀ e, r = .error e → e.isException = true)
    (hout : srv.encode (RpcServer.answer r) = .ok outBytes)
    (hdec : inv.decode outBytes = .ok response) :
    RemoteInvoker.Exit inv (some url) request n (.decoded 200 response) [outBytes]
      { n with
        world := w
        log := n.log ++ (evs ++ [.encoded (RpcServer.answer r), .wrote outBytes]) } := by
  have hrep : srv.replied (fun _ => .ok ()) (RpcServer.answer r) =
      (.ok (), [.encoded (RpcServer.answer r), .wrote outBytes]) := by
    simp [RpcServer.replied, hout, ignoring]
  have hserve : srv.onRequest _ (fun _ => .ok ()) n = _ := RpcServer.onRequest_of_exit h
  rw [hrep, RpcServer.settled_ok hr, List.append_assoc] at hserve
  obtain ⟨httpConn, hx, hcode, hin⟩ := hnet _ _ _ _ outBytes hserve rfl (by
    rw [List.filterMap_append, (RpcServer.exit_events h).2.2]
    rfl)
  have hst : httpConn.stream = .ok (some (Arrival.whole outBytes).start) := by
    rw [HttpURLConnection.stream, if_pos hcode, hin]
    rfl
  obtain ⟨reader, hi⟩ := hi
  have hread := Arrival.readBody_whole reader outBytes
  rw [← hi] at hread
  rw [← hcode]
  exact .decoded bytes httpConn (Arrival.whole outBytes).start outBytes response _ henc hx hst
    hread hdec

/-- What became of a local run, as the reflective call shows it. -/
def wrapped (r : Except Throwable V) : Except Throwable V :=
  r.mapError fun _ => .illegalStateOf .invocationTargetException

omit [JavaObject V] in
theorem wrapped_isException {e : Throwable} (h : wrapped r = .error e) :
    e.isException = true := by
  cases r with
  | ok v => cases h
  | error e' =>
    cases h
    rfl

omit [JavaObject V] in
/-- A request that names a served method runs that method on the latest bean. -/
theorem exit_of_served (hs : ∃ reader : TimedStream.FullReader, srv.io = reader.io)
    (h : Served srv n I m bean) (hdec : srv.decode bytes = .ok (some request))
    (hd : request.serviceDescriptor = some (.fromMethod I m))
    (hc : coerceAll srv.runtime.coerce m.parameterTypes (request.parameters.getD []) = some actual)
    (hrun : srv.runtime.exec (some bean) m actual n.world = (r, w)) :
    RpcServer.Exit srv n.services n.world (Arrival.whole bytes).start (wrapped r)
      [.decoded bytes, .ran (some bean) m actual] w := by
  obtain ⟨reader, hs⟩ := hs
  obtain ⟨hist, hreg, hb⟩ := h.registered
  have hread := Arrival.readBody_whole reader bytes
  rw [← hs] at hread
  obtain rfl := srv.classPath.declaring h.declared
  refine .ran bytes request _ ⟨some bean, m⟩ actual r w hread hdec hd ?_
    ((Method.arguments_eq_ok_iff h.accessible).mpr hc) hrun
  rw [hreg, get_registered_iff]
  exact ⟨_, hb, mem_getPublicMethods.mpr ⟨h.declared, h.isPublic⟩, rfl⟩

/-- A call of a served method over a connected client, whatever the codec makes of its messages:
how it ends, and what it leaves. -/
theorem invoke_of_served (hcon : Connected srv inv st) (h : Served srv st.network inv.clazz m bean)
    (henc : inv.encode (inv.requestOf m args) = .ok bytes)
    (hdec : srv.decode bytes = .ok (some request))
    (hd : request.serviceDescriptor = some (.fromMethod inv.clazz m))
    (hc : coerceAll srv.runtime.coerce m.parameterTypes (request.parameters.getD []) = some actual)
    (hrun : srv.runtime.exec (some bean) m actual st.network.world = (r, w))
    (hout : srv.encode (RpcServer.answer (wrapped r)) = .ok outBytes)
    (hdec' : inv.decode outBytes = .ok response) (render : V → JString) (seed : Nat) :
    ∃ sel : RandomTransportSelector, sel.clients.Perm st.selector.clients ∧
      inv.invoke render seed m args st = ended (RemoteInvoker.judged render response)
        ⟨sel, { st.network with
          world := w
          log := st.network.log ++ ([.decoded bytes, .ran (some bean) m actual] ++
            [.encoded (RpcServer.answer (wrapped r)), .wrote outBytes]) },
          st.decoded ++ [outBytes]⟩ := by
  obtain ⟨client, sel, url, hsel, hperm, hurl, hnet⟩ := hcon.exists_select seed
  have hserved := exit_of_served hcon.serverReads h hdec hd hc hrun
  have hexit := exit_of_delivers hcon.clientReads hnet henc hserved
    (fun _ => wrapped_isException) hout hdec'
  rw [← hurl] at hexit
  refine ⟨sel.release client, ?_, RemoteInvoker.invoke_of_exit hsel hexit⟩
  exact (List.perm_append_singleton client sel.clients).trans hperm.symm

/-- What the caller of a remote method sees of a local run. -/
theorem judged_answer (render : V → JString) (r : Except Throwable V) :
    (∀ v, r = .ok v →
      RemoteInvoker.judged render (some (RpcServer.answer (wrapped r))) = .ok v) ∧
    (∀ e, r = .error e → ∃ e',
      RemoteInvoker.judged render (some (RpcServer.answer (wrapped r))) = .error e' ∧
        e'.isIllegalStateException = true) := by
  cases r with
  | ok v =>
    refine ⟨?_, nofun⟩
    rintro v' ⟨⟩
    rfl
  | error e =>
    refine ⟨nofun, ?_⟩
    rintro e' ⟨⟩
    exact ⟨_, rfl, rfl⟩

/-- A remote call refines the local call: it returns what the bean's method returns, throws an
`IllegalStateException` when the method throws, runs that method once and nothing else, and gives
its connection back. -/
theorem remote_call_refines (hcon : Connected srv inv st)
    (h : Served srv st.network inv.clazz m bean)
    (hargs : coerceAll srv.runtime.coerce m.parameterTypes (args.getD []) = some (args.getD []))
    (hrun : srv.runtime.exec (some bean) m (args.getD []) st.network.world = (r, w))
    (hreq : ∃ bytes, inv.encode (inv.requestOf m args) = .ok bytes ∧
      srv.decode bytes = .ok (some (inv.requestOf m args)))
    (hresp : ∃ bytes, srv.encode (RpcServer.answer (wrapped r)) = .ok bytes ∧
      inv.decode bytes = .ok (some (RpcServer.answer (wrapped r))))
    (render : V → JString) (seed : Nat) :
    (∀ v, r = .ok v → outcome (inv.invoke render seed m args st) = .ok v) ∧
    (∀ e, r = .error e → ∃ e', outcome (inv.invoke render seed m args st) = .error e' ∧
      e'.isIllegalStateException = true) ∧
    (∃ evs, (final (inv.invoke render seed m args st)).network.log = st.network.log ++ evs ∧
      evs.filterMap Event.run? = [(some bean, m, args.getD [])]) ∧
    (final (inv.invoke render seed m args st)).network.world = w ∧
    (final (inv.invoke render seed m args st)).selector.clients.Perm st.selector.clients := by
  obtain ⟨bytes, henc, hdec⟩ := hreq
  obtain ⟨outBytes, hout, hdec'⟩ := hresp
  obtain ⟨sel, hperm, hinv⟩ := invoke_of_served hcon h henc hdec rfl hargs hrun hout hdec' render
    seed
  obtain ⟨hok, herr⟩ := judged_answer render r
  rw [hinv, outcome_ended, final_ended]
  exact ⟨hok, herr, ⟨_, rfl, rfl⟩, rfl, hperm⟩

/-- `RequestServlet.doPost` in its container: what the handler writes is the body of an answer of
status 200, and an exception that leaves it is answered with status 500. -/
def serving (srv : RpcServer V B W TimedStream) : Exchange V B W := fun _ data st =>
  match srv.onRequest (Arrival.whole data).start (fun _ => .ok ()) st with
  | .ok _ st' =>
    let body := ((st'.log.drop st.log.length).filterMap Event.wrote?).flatten
    .ok ⟨200, .ok (Arrival.whole body).start, none⟩ st'
  | .error _ st' => .ok ⟨500, .error ⟨.io, utf16 "java.io.IOException", none⟩, none⟩ st'

theorem serving_delivers (srv : RpcServer V B W TimedStream) (url : JString) :
    Delivers srv (serving srv) url := by
  intro data st st' evs bytes hserve hlog hwrote
  refine ⟨⟨200, .ok (Arrival.whole bytes).start, none⟩, ?_, rfl, rfl⟩
  simp [serving, hserve, hlog, hwrote]

namespace Example

/-- The client of the example, connected to its server. -/
theorem connected_default (encode : Response Value → Except Throwable Bytes) :
    Connected (serverWith encode) (invokerWith (serving (serverWith encode)))
      (clientState serverState) where
  serverReads := ⟨TimedStream.blockingReader, rfl⟩
  clientReads := ⟨TimedStream.blockingReader, rfl⟩
  pool := ⟨[defaultPeer], 1, by simp, fun _ _ => serving_delivers _ _, .rfl⟩

theorem served_add : Served server serverState calcService add .instance_ where
  registered := ⟨[(calcService, some .instance_)], rfl, by simp [latest]⟩
  accessible := rfl
  declared := add_mem
  isPublic := rfl

/-- The remote sum of one and two. -/
theorem remote_add : outcome ((invokerWith (serving server)).invoke (fun _ => []) 0 add
    addRequest.parameters (clientState serverState)) = .ok (.num .integer 3) := by
  have hrun : server.runtime.exec (some CalcServiceImpl.instance_) add
      (addRequest.parameters.getD []) () = (.ok (.num .integer 3), ()) := exec_add 1 2
  have h := remote_call_refines (connected_default encodeResponse) served_add rfl hrun
    ⟨addRequestText, encodeRequest_add, decodeRequest_text⟩
    ⟨sumResponseText, rfl, decodeResponse_sum⟩ (fun _ => []) 0
  exact h.1 _ rfl

end Example

end SpringDemo.Rpc

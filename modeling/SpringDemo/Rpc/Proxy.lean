import SpringDemo.Rpc.RemoteCall

/-! Which calls of a proxy run something on the server, and what becomes of the others. -/
namespace SpringDemo.Rpc

open Java Lib.Exec Lib.HashTable ServiceDescriptor

variable {V B W : Type} [JavaObject V]

/-- The interface itself declares such a public method, and was last registered with an object to
run it on. -/
def Reaches (cp : ClassPath) (hist : History B) (I : ClassName) (m : Method) : Prop :=
  ∃ m' ∈ getPublicMethods cp I, m.SameSignature m' ∧
    ∃ target, latest hist I = some target ∧ (m'.isStatic = true ∨ target ≠ none)

variable {srv : RpcServer V B W TimedStream}
  {inv : RemoteInvoker V (ServerState V B W) TimedStream}
  {st : ClientState (ServerState V B W)} {hist : History B} {I : ClassName} {m : Method}
  {args : Option (List V)} {actual : List V} {request : Request V} {bytes outBytes : Bytes}
  {r : Except Throwable V} {evs : List (Event V B)} {w : W} {response : Option (Response V)}
  {cp : ClassPath} {rt : Runtime V B W} {target : Option B}

omit [JavaObject V] in
theorem arguments_ok (hp : cp.isAccessible m.declaringClass = true)
    (ht : m.isStatic = true ∨ target ≠ none)
    (hc : coerceAll rt.coerce m.parameterTypes (args.getD []) = some actual) :
    m.arguments cp rt target args = .ok actual := by
  rcases ht with hs | hne
  · simp [Method.arguments, hp, hs, coerceAll_length_eq hc, hc]
  · obtain ⟨b, rfl⟩ := Option.ne_none_iff_exists'.mp hne
    simp [Method.arguments, hp, coerceAll_length_eq hc, hc]

omit [JavaObject V] in
theorem arguments_null (hp : cp.isAccessible m.declaringClass = true) (hs : m.isStatic = false) :
    m.arguments cp rt none args = .error .nullPointerException := by
  simp [Method.arguments, hp, hs]

/-- The caller sees any failure of the server as an `IllegalStateException`. -/
theorem judged_failed {e : Throwable} (he : e.isException = true) (render : V → JString) :
    ∃ e', RemoteInvoker.judged render (some (RpcServer.answer (.error e))) = .error e' ∧
      e'.isIllegalStateException = true := by
  rw [RpcServer.answer, if_pos he]
  exact ⟨_, rfl, rfl⟩

/-- A call over a connected client, however the server ends it. -/
theorem invoke_of_answer (hcon : Connected srv inv st)
    (henc : inv.encode (inv.requestOf m args) = .ok bytes)
    (h : RpcServer.Exit srv st.network.services st.network.world (Arrival.whole bytes).start r evs
      w)
    (hr : ∀ e, r = .error e → e.isException = true)
    (hout : srv.encode (RpcServer.answer r) = .ok outBytes)
    (hdec : inv.decode outBytes = .ok response) (render : V → JString) (seed : Nat) :
    ∃ sel : RandomTransportSelector, sel.clients.Perm st.selector.clients ∧
      inv.invoke render seed m args st = ended (RemoteInvoker.judged render response)
        ⟨sel, { st.network with
          world := w
          log := st.network.log ++
            (evs ++ [.encoded (RpcServer.answer r), .wrote outBytes]) },
          st.decoded ++ [outBytes]⟩ := by
  obtain ⟨client, sel, url, hsel, hperm, hurl, hnet⟩ := hcon.exists_select seed
  have hexit := exit_of_delivers hcon.clientReads hnet henc h hr hout hdec
  rw [← hurl] at hexit
  refine ⟨sel.release client, ?_, RemoteInvoker.invoke_of_exit hsel hexit⟩
  exact (List.perm_append_singleton client sel.clients).trans hperm.symm

omit [JavaObject V] in
/-- A request for a method that is reached runs it. -/
theorem exit_of_reaches {services : Services B} (world : W)
    (hs : ∃ reader : TimedStream.FullReader, srv.io = reader.io)
    (hreg : services = registered srv.classPath hist)
    (hacc : srv.classPath.isAccessible I = true) (hdec : srv.decode bytes = .ok (some request))
    (hd : request.serviceDescriptor = some (fromMethod I m))
    (hc : coerceAll srv.runtime.coerce m.parameterTypes (request.parameters.getD []) = some actual)
    (h : Reaches srv.classPath hist I m) : ∃ r evs w,
      RpcServer.Exit srv services world (Arrival.whole bytes).start r evs w ∧
      (∀ e, r = .error e → e.isException = true) ∧ evs.filterMap Event.run? ≠ [] := by
  obtain ⟨reader, hs⟩ := hs
  have hread := Arrival.readBody_whole reader bytes
  rw [← hs] at hread
  obtain ⟨m', hm', hsig, target, hl, ht⟩ := h
  have hclass : m'.declaringClass = I := srv.classPath.declaring (mem_getPublicMethods.mp hm').1
  have hget : get services (fromMethod I m) = some ⟨target, m'⟩ := by
    rw [hreg, get_registered_iff]
    exact ⟨I, hl, hm', fromMethod_eq_iff.mpr ⟨rfl, hsig⟩⟩
  rw [hsig.2.1] at hc
  have ha : m'.arguments srv.classPath srv.runtime target request.parameters = .ok actual :=
    arguments_ok (hclass ▸ hacc) ht hc
  exact ⟨_, _, _, .ran bytes request _ ⟨target, m'⟩ actual _ _ hread hdec hd hget ha rfl,
    fun _ => wrapped_isException, by simp [Event.run?]⟩

omit [JavaObject V] in
/-- Any other request is refused before anything runs. -/
theorem exit_of_not_reaches {services : Services B} (world : W)
    (hs : ∃ reader : TimedStream.FullReader, srv.io = reader.io)
    (hreg : services = registered srv.classPath hist)
    (hacc : srv.classPath.isAccessible I = true) (hdec : srv.decode bytes = .ok (some request))
    (hd : request.serviceDescriptor = some (fromMethod I m))
    (h : ¬ Reaches srv.classPath hist I m) : ∃ e : Throwable, e.isException = true ∧
      RpcServer.Exit srv services world (Arrival.whole bytes).start (.error e) [.decoded bytes]
        world := by
  obtain ⟨reader, hs⟩ := hs
  have hread := Arrival.readBody_whole reader bytes
  rw [← hs] at hread
  cases hget : get services (fromMethod I m) with
  | none => exact ⟨_, rfl, .unregistered bytes request _ hread hdec hd hget⟩
  | some sis =>
    have hserves := hget
    rw [hreg, get_registered_iff] at hserves
    obtain ⟨J, hl, hm', he⟩ := hserves
    obtain ⟨rfl, hsig⟩ := fromMethod_eq_iff.mp he
    have hclass : sis.method.declaringClass = I :=
      srv.classPath.declaring (mem_getPublicMethods.mp hm').1
    -- the method is there, so that there is no object
    have hnot : ¬ (sis.method.isStatic = true ∨ sis.target ≠ none) := fun ht =>
      h ⟨sis.method, hm', hsig, sis.target, hl, ht⟩
    obtain ⟨hstatic, htarget⟩ := not_or.mp hnot
    have ha : sis.method.arguments srv.classPath srv.runtime sis.target request.parameters =
        .error .nullPointerException := by
      rw [not_not.mp htarget]
      exact arguments_null (hclass ▸ hacc) (Bool.eq_false_iff.mpr hstatic)
    exact ⟨_, rfl, .rejected bytes request _ sis _ hread hdec hd hget ha⟩

/-- Whatever has been registered and in whatever order, a call of a proxy runs a method on the
server exactly if its interface itself declares a method of that signature and was last registered
with an object for it. A call that runs nothing (of an inherited method, of one that the proxy has
of `java.lang.Object`, or for an interface that is unknown) throws an `IllegalStateException` and
leaves the server as it was. Either way the connection is given back. -/
theorem call_runs_iff_reaches (hcon : Connected srv inv st)
    (hreg : st.network.services = registered srv.classPath hist)
    (hacc : srv.classPath.isAccessible inv.clazz = true)
    (henc : inv.encode (inv.requestOf m args) = .ok bytes)
    (hdec : srv.decode bytes = .ok (some request))
    (hd : request.serviceDescriptor = some (fromMethod inv.clazz m))
    (hc : coerceAll srv.runtime.coerce m.parameterTypes (request.parameters.getD []) = some actual)
    (hresp : ∀ r evs w,
      RpcServer.Exit srv st.network.services st.network.world (Arrival.whole bytes).start r evs w →
      ∃ outBytes, srv.encode (RpcServer.answer r) = .ok outBytes ∧
        inv.decode outBytes = .ok (some (RpcServer.answer r)))
    (render : V → JString) (seed : Nat) :
    (∃ evs, (final (inv.invoke render seed m args st)).network.log = st.network.log ++ evs ∧
      (evs.filterMap Event.run? ≠ [] ↔ Reaches srv.classPath hist inv.clazz m)) ∧
    (¬ Reaches srv.classPath hist inv.clazz m →
      (∃ e, outcome (inv.invoke render seed m args st) = .error e ∧
        e.isIllegalStateException = true) ∧
      (final (inv.invoke render seed m args st)).network.world = st.network.world) ∧
    (final (inv.invoke render seed m args st)).network.services = st.network.services ∧
    (final (inv.invoke render seed m args st)).selector.clients.Perm st.selector.clients := by
  by_cases h : Reaches srv.classPath hist inv.clazz m
  · obtain ⟨r, evs, w, hexit, hr, hran⟩ :=
      exit_of_reaches st.network.world hcon.serverReads hreg hacc hdec hd hc h
    obtain ⟨outBytes, hout, hdec'⟩ := hresp r evs w hexit
    obtain ⟨sel, hperm, hinv⟩ := invoke_of_answer hcon henc hexit hr hout hdec' render seed
    rw [hinv, outcome_ended, final_ended]
    refine ⟨⟨_, rfl, iff_of_true ?_ h⟩, fun hn => absurd h hn, rfl, hperm⟩
    rw [List.filterMap_append]
    exact List.append_ne_nil_of_left_ne_nil hran _
  · obtain ⟨e, he, hexit⟩ :=
      exit_of_not_reaches st.network.world hcon.serverReads hreg hacc hdec hd h
    obtain ⟨outBytes, hout, hdec'⟩ := hresp _ _ _ hexit
    obtain ⟨sel, hperm, hinv⟩ := invoke_of_answer hcon henc hexit
      (fun e' he' => by cases he'; exact he) hout hdec' render seed
    rw [hinv, outcome_ended, final_ended]
    refine ⟨⟨_, rfl, iff_of_false ?_ h⟩, fun _ => ⟨judged_failed he render, rfl⟩, rfl, hperm⟩
    simp [Event.run?]

namespace Example

/-- What a proxy has of `java.lang.Object`. -/
def toStringMethod : Method where
  declaringClass := platformClass "java.lang.Object"
  name := utf16 "toString"
  parameterTypes := []
  returnType := .cls stringClass
  isPublic := true
  isStatic := false

/-- The request for it, and the answer of a server that has no such service. -/
def toStringRequest : Request Value := ⟨some (fromMethod calcService toStringMethod), none⟩

def unknown : Response Value := RpcServer.answer (.error .nullPointerException)

def toStringText : Bytes :=
  ascii ("\x7b\"serviceDescriptor\":\x7b\"clazz\":\"com.stream.gkrpc.example.CalcService\"," ++
    "\"method\":\"toString\",\"parameterTypes\":[],\"returnType\":\"java.lang.String\"\x7d\x7d")

def unknownText : Bytes :=
  ascii ("\x7b\"code\":1,\"message\":\"RpcServer got errorjava.lang.NullPointerException" ++
    " : null\"\x7d")

/-- The server of the example, and its client, with the messages of this call. -/
abbrev asked : RpcServer Value CalcServiceImpl Unit TimedStream :=
  { server with decode := fun _ => .ok (some toStringRequest), encode := fun _ => .ok unknownText }

abbrev asking : RemoteInvoker Value (ServerState Value CalcServiceImpl Unit) TimedStream :=
  { invokerWith (serving asked) with
    encode := fun _ => .ok toStringText
    decode := fun _ => .ok (some unknown) }

theorem connected_asking : Connected asked asking (clientState serverState) where
  serverReads := ⟨TimedStream.blockingReader, rfl⟩
  clientReads := ⟨TimedStream.blockingReader, rfl⟩
  pool := ⟨[defaultPeer], 1, by simp, fun _ _ => serving_delivers _ _, .rfl⟩

theorem toString_undeclared {m' : Method} (h : m' ∈ getPublicMethods classPath calcService) :
    ¬ toStringMethod.SameSignature m' := by
  intro hsig
  have hm : m' = add ∨ m' = minus := by
    simpa [classPath] using (mem_getPublicMethods.mp h).1
  rcases hm with rfl | rfl <;> exact absurd hsig.1 (by decide)

theorem exit_toString :
    RpcServer.Exit asked serverState.services () (Arrival.whole toStringText).start
      (.error .nullPointerException) [.decoded toStringText] () := by
  refine .unregistered toStringText toStringRequest _
    (Arrival.readBody_whole TimedStream.blockingReader _) rfl rfl ?_
  refine (get_registered_eq_none_iff [(calcService, some CalcServiceImpl.instance_)]).mpr ?_
  rintro sis ⟨I, -, hm, he⟩
  obtain ⟨rfl, hsig⟩ := fromMethod_eq_iff.mp he
  exact toString_undeclared hm hsig

/-- The proxy of a calculator cannot even be printed. -/
theorem call_runs_iff_toString :
    ∃ e, outcome (asking.invoke (fun _ => []) 0 toStringMethod none
        (clientState serverState)) = .error e ∧ e.isIllegalStateException = true := by
  have hnot : ¬ Reaches asked.classPath [(calcService, some CalcServiceImpl.instance_)]
      asking.clazz toStringMethod := fun ⟨_, hm', hsig, _⟩ => toString_undeclared hm' hsig
  have hargs : coerceAll asked.runtime.coerce toStringMethod.parameterTypes
      (toStringRequest.parameters.getD []) = some [] := rfl
  have hresp : ∀ r evs w, RpcServer.Exit asked serverState.services ()
      (Arrival.whole toStringText).start r evs w →
      ∃ outBytes, asked.encode (RpcServer.answer r) = .ok outBytes ∧
        asking.decode outBytes = .ok (some (RpcServer.answer r)) := by
    intro r evs w h
    rw [RpcServer.exit_unique h exit_toString]
    exact ⟨_, rfl, rfl⟩
  obtain ⟨-, hfails, -⟩ := call_runs_iff_reaches connected_asking rfl rfl rfl rfl rfl hargs hresp
    (fun _ => []) 0
  exact (hfails hnot).1

end Example

end SpringDemo.Rpc

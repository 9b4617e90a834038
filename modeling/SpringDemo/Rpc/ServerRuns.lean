import SpringDemo.Library.Runs
import SpringDemo.Rpc.ServerReply

/-! Runs of one server: registrations and requests in any order, and what its registry holds
after each of them. -/
namespace SpringDemo.Rpc

open Java Lib.Exec Lib.HashTable Lib.Runs

/-- What may happen to a server. -/
inductive ServerOp (B σ : Type) where
  | register (interfaceClass : ClassName) (bean : Option B)
  | onRequest (recive : σ) (toResp : Bytes → Except Throwable Unit)

variable {V B W σ : Type}

def ServerOp.registration? : ServerOp B σ → Option (ClassName × Option B)
  | .register interfaceClass bean => some (interfaceClass, bean)
  | .onRequest _ _ => none

/-- The registrations among the operations, in their order. -/
def registrations (ops : List (ServerOp B σ)) : History B :=
  ops.filterMap ServerOp.registration?

@[simp] theorem registrations_register (ops : List (ServerOp B σ)) (I : ClassName)
    (bean : Option B) :
    registrations (ops ++ [.register I bean]) = registrations ops ++ [(I, bean)] := by
  simp [registrations, ServerOp.registration?]

@[simp] theorem registrations_onRequest (ops : List (ServerOp B σ)) (recive : σ)
    (toResp : Bytes → Except Throwable Unit) :
    registrations (ops ++ [.onRequest recive toResp]) = registrations ops := by
  simp [registrations, ServerOp.registration?]

/-- A server with an empty registry. -/
def ServerState.new (world : W) : ServerState V B W := ⟨[], world, []⟩

namespace RpcServer

/-- `server.register(interfaceClass, bean)`. -/
def register (srv : RpcServer V B W σ) (interfaceClass : ClassName) (bean : Option B)
    (st : ServerState V B W) : ServerState V B W :=
  { st with services := ServiceManager.register srv.classPath st.services interfaceClass bean }

variable [JavaObject V]

inductive Step (srv : RpcServer V B W σ) :
    ServerState V B W → ServerOp B σ → ServerState V B W → Prop
  | register (st : ServerState V B W) (I : ClassName) (bean : Option B) :
      Step srv st (.register I bean) (srv.register I bean st)
  | onRequest (st : ServerState V B W) (recive : σ) (toResp : Bytes → Except Throwable Unit) :
      Step srv st (.onRequest recive toResp) (final (srv.onRequest recive toResp st))

variable {srv : RpcServer V B W σ} {st st' : ServerState V B W} {op : ServerOp B σ}
  {ops : List (ServerOp B σ)} {world : W} {recive : σ} {toResp : Bytes → Except Throwable Unit}

omit [JavaObject V] in
/-- The reply runs no method. -/
theorem replied_run? (srv : RpcServer V B W σ) (toResp : Bytes → Except Throwable Unit)
    (resp : Response V) : (srv.replied toResp resp).2.filterMap Event.run? = [] := by
  unfold replied
  cases srv.encode resp <;> simp [List.filterMap_cons, Event.run?]

/-- A request leaves the registry alone and runs at most one method. -/
theorem onRequest_frame (srv : RpcServer V B W σ) (st : ServerState V B W) (recive : σ)
    (toResp : Bytes → Except Throwable Unit) :
    (final (srv.onRequest recive toResp st)).services = st.services ∧
    ∃ evs, (final (srv.onRequest recive toResp st)).log = st.log ++ evs ∧
      (evs.filterMap Event.run?).length ≤ 1 := by
  obtain ⟨r, evs, w, h⟩ := exit_total srv st.services st.world recive
  refine ⟨by rw [onRequest_of_exit h, final_ended], _, onRequest_log h, ?_⟩
  rw [List.filterMap_append, replied_run?, List.append_nil]
  exact (exit_events h).1

/-- One step keeps the registry in line with the registrations so far. -/
theorem services_step (hs : Step srv st op st')
    (ih : st.services = registered srv.classPath (registrations ops)) :
    st'.services = registered srv.classPath (registrations (ops ++ [op])) := by
  cases hs with
  | register I bean => rw [registrations_register, registered_append, ← ih]; rfl
  | onRequest recive toResp =>
    rw [(onRequest_frame srv st recive toResp).1, ih, registrations_onRequest]

/-- The registry is what the registrations of the run leave. -/
theorem services_run (h : Run srv.Step (ServerState.new world) ops st) :
    st.services = registered srv.classPath (registrations ops) :=
  Run.history (R := fun ops st => st.services = registered srv.classPath (registrations ops))
    (fun _ _ _ _ hs ih => services_step hs ih) rfl h

/-- The registry is exact in every state that a run reaches, and it is what the handler looks a
request up in. -/
theorem registry_exact (srv : RpcServer V B W σ) (world : W)
    (h : Run srv.Step (ServerState.new world) ops st) :
    (∀ recive toResp, (final (srv.onRequest recive toResp st)).services = st.services ∧
      ∃ evs, (final (srv.onRequest recive toResp st)).log = st.log ++ evs ∧
        (evs.filterMap Event.run?).length ≤ 1) ∧
    (∀ (request : Request V) d, request.serviceDescriptor = some d →
      (∀ sis, ServiceManager.lookup st.services (some request) = .ok (some sis) ↔
        ∃ I, latest (registrations ops) I = some sis.target ∧
          sis.method ∈ srv.classPath.getDeclaredMethods I ∧ sis.method.isPublic = true ∧
          d = .fromMethod I sis.method) ∧
      (ServiceManager.lookup st.services (some request) = .ok none ↔
        ¬ ∃ I m, (∃ bean, (I, bean) ∈ registrations ops) ∧
          m ∈ srv.classPath.getDeclaredMethods I ∧ m.isPublic = true ∧ d = .fromMethod I m)) ∧
    ∀ recive inBytes request, readBody srv.io recive = .ok inBytes →
      srv.decode inBytes = .ok request →
      srv.serve recive (.enter st) =
        (lift (ServiceManager.lookup st.services request) >>= fun sis =>
          srv.serviceInvoke sis request)
            { RequestFrame.enter st with log := st.log ++ [.decoded inBytes] } := by
  refine ⟨fun recive toResp => onRequest_frame srv st recive toResp, ?_,
    fun recive inBytes request => serve_of_decoded⟩
  intro request d hd
  have hl : ServiceManager.lookup st.services (some request) =
      .ok (get (registered srv.classPath (registrations ops)) d) := by
    simp [ServiceManager.lookup, hd, services_run h]
  rw [hl]
  constructor
  · intro sis
    rw [Except.ok.injEq, get_registered_iff]
    simp [Serves, mem_getPublicMethods, and_assoc]
  · rw [Except.ok.injEq, get_registered_eq_none_iff, not_exists]
    constructor
    · rintro hno I ⟨m, hI, hm, hp, hd⟩
      obtain ⟨bean, hb⟩ := Option.isSome_iff_exists.mp (latest_isSome_iff.mpr hI)
      exact hno ⟨bean, m⟩ ⟨I, hb, mem_getPublicMethods.mpr ⟨hm, hp⟩, hd⟩
    · rintro hno sis ⟨I, hb, hm, hd⟩
      obtain ⟨hm, hp⟩ := mem_getPublicMethods.mp hm
      exact hno I ⟨sis.method, latest_isSome_iff.mp (by rw [hb]; rfl), hm, hp, hd⟩

open Example in
theorem registry_exact_calc :
    ServiceManager.lookup
      (final (server.onRequest (Arrival.whole addRequestText).start (fun _ => .ok ())
        (server.register calcService (some .instance_) (.new ())))).services
      (some addRequest) = .ok (some ⟨some .instance_, add⟩) := by
  have hrun : Run server.Step (.new ()) [.register calcService (some .instance_),
      .onRequest (Arrival.whole addRequestText).start fun _ => .ok ()] _ :=
    .next (.next .start (.register _ _ _)) (.onRequest _ _ _)
  refine (((registry_exact server () hrun).2.1 addRequest _ rfl).1 _).mpr
    ⟨calcService, ?_, ?_, rfl, rfl⟩
  · simp [registrations, List.filterMap_cons, ServerOp.registration?, latest]
  · exact add_mem

end RpcServer

end SpringDemo.Rpc

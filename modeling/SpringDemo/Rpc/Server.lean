import SpringDemo.Java.Stream
import SpringDemo.Rpc.ServiceManager

/-! The request handler of the server, statement by statement. -/
namespace SpringDemo.Rpc

open Java Lib.Exec Lib.HashTable

/-- What a request makes the server do, in order. -/
inductive Event (V B : Type) where
  /-- `decoder.decode` was called on these bytes -/
  | decoded (bytes : Bytes)
  /-- a method was run on an object -/
  | ran (target : Option B) (method : Method) (args : List V)
  /-- `encoder.encode` was called on this response -/
  | encoded (response : Response V)
  /-- `toResp.write` was called with these bytes -/
  | wrote (bytes : Bytes)
deriving DecidableEq

namespace Event

variable {V B : Type}

/-- The run that an event records. -/
def run? : Event V B → Option (Option B × Method × List V)
  | ran target method args => some (target, method, args)
  | _ => none

/-- The bytes that a `decode` event records. -/
def decoded? : Event V B → Option Bytes
  | decoded bytes => some bytes
  | _ => none

def encoded? : Event V B → Option (Response V)
  | encoded response => some response
  | _ => none

def wrote? : Event V B → Option Bytes
  | wrote bytes => some bytes
  | _ => none

end Event

/-- The fields of an `RpcServer`, with the machine it runs on. -/
structure RpcServer (V B W σ : Type) where
  classPath : ClassPath
  runtime : Runtime V B W
  io : InputStream σ
  decode : Bytes → Except Throwable (Option (Request V))
  encode : Response V → Except Throwable Bytes

/-- The registry, the state of the beans and of the rest of the machine, and the log. -/
structure ServerState (V B W : Type) where
  services : Services B
  world : W
  log : List (Event V B)

/-- The state inside one call of `onRequest`, with its local `resp`. -/
structure RequestFrame (V B W : Type) extends ServerState V B W where
  resp : Response V

variable {V B W σ : Type}

/-- A call of `onRequest` starts with a new response. -/
def RequestFrame.enter [JavaObject V] (st : ServerState V B W) : RequestFrame V B W :=
  ⟨st, Response.new⟩

abbrev Handler (V B W α : Type) := Block Throwable (RequestFrame V B W) α

namespace RpcServer

def tell (e : Event V B) : Handler V B W Unit := modify fun f => { f with log := f.log ++ [e] }

/-- `decoder.decode(inBytes, Request.class)`. -/
def decodeRequest (srv : RpcServer V B W σ) (inBytes : Bytes) :
    Handler V B W (Option (Request V)) := do
  tell (.decoded inBytes)
  lift (srv.decode inBytes)

/-- `serviceManager.lookup(request)`. -/
def lookup (request : Option (Request V)) : Handler V B W (Option (ServiceInstance B)) := do
  let f ← get
  lift (ServiceManager.lookup f.services request)

/-- The run of the method itself; whatever it throws arrives wrapped. -/
def exec (srv : RpcServer V B W σ) (method : Method) (obj : Option B) (args : List V) :
    Handler V B W V := fun f =>
  match srv.runtime.exec obj method args f.world with
  | (.ok ret, w) => .ok ret { f with world := w }
  | (.error _, w) => .error .invocationTargetException { f with world := w }

/-- `method.invoke(obj, args)`. -/
def methodInvoke (srv : RpcServer V B W σ) (obj : Option B) (method : Method)
    (args : Option (List V)) : Handler V B W V := do
  let actual ← lift (method.arguments srv.classPath srv.runtime obj args)
  tell (.ran obj method actual)
  srv.exec method obj actual

/-- `ReflectionUtils.invoke(obj, method, args)`. -/
def reflectionInvoke (srv : RpcServer V B W σ) (obj : Option B) (method : Method)
    (args : Option (List V)) : Handler V B W V :=
  catching Throwable.isException (srv.methodInvoke obj method args)
    fun e => throw (Throwable.illegalStateOf e)

/-- `serviceInvoker.invoke(service, request)`: both references are dereferenced. -/
def serviceInvoke (srv : RpcServer V B W σ) (service : Option (ServiceInstance B))
    (request : Option (Request V)) : Handler V B W V :=
  match service, request with
  | some service, some request =>
    srv.reflectionInvoke service.target service.method request.parameters
  | _, _ => throw .nullPointerException

/-- The `try` block of `onRequest` up to `Object ret = ...`. -/
def serve (srv : RpcServer V B W σ) (recive : σ) : Handler V B W V := do
  let inBytes ← lift (readBody srv.io recive)
  let request ← srv.decodeRequest inBytes
  let sis ← lookup request
  srv.serviceInvoke sis request

def setData (ret : V) : Handler V B W Unit :=
  modify fun f => { f with resp := { f.resp with data := ret } }

/-- `resp.setMessage` of the `catch` block. -/
def errorMessage (e : Throwable) : JString :=
  utf16 "RpcServer got error" ++ e.name ++ utf16 " : " ++ orNull e.message

/-- The `catch (Exception e)` block. -/
def fail (e : Throwable) : Handler V B W Unit :=
  modify fun f => { f with resp := { f.resp with code := 1, message := some (errorMessage e) } }

/-- The statements of the `finally` block inside its own `try`. -/
def reply (srv : RpcServer V B W σ) (toResp : Bytes → Except Throwable Unit) :
    Handler V B W Unit := do
  let f ← get
  tell (.encoded f.resp)
  let outBytes ← lift (srv.encode f.resp)
  tell (.wrote outBytes)
  lift (toResp outBytes)

/-- The body of `onRequest` once `resp` has been created. -/
def handle (srv : RpcServer V B W σ) (recive : σ) (toResp : Bytes → Except Throwable Unit) :
    Handler V B W Unit :=
  andFinally
    (catching Throwable.isException (srv.serve recive >>= setData) fail)
    (catching Throwable.isIOException (srv.reply toResp) fun _ => pure ())

variable [JavaObject V]

/-- `handler.onRequest(recive, toResp)`. -/
def onRequest (srv : RpcServer V B W σ) (recive : σ) (toResp : Bytes → Except Throwable Unit) :
    Block Throwable (ServerState V B W) Unit :=
  inFrame RequestFrame.enter RequestFrame.toServerState (srv.handle recive toResp)

end RpcServer

namespace RpcServer

/-- How the `try` block ends: its outcome, the events on the way and the state of the machine. -/
inductive Exit (srv : RpcServer V B W σ) (services : Services B) (world : W) (recive : σ) :
    Except Throwable V → List (Event V B) → W → Prop
  | unread (e : Throwable) (hr : readBody srv.io recive = .error e) :
      Exit srv services world recive (.error e) [] world
  | undecoded (inBytes : Bytes) (e : Throwable) (hr : readBody srv.io recive = .ok inBytes)
      (hd : srv.decode inBytes = .error e) :
      Exit srv services world recive (.error e) [.decoded inBytes] world
  | nullRequest (inBytes : Bytes) (hr : readBody srv.io recive = .ok inBytes)
      (hd : srv.decode inBytes = .ok none) :
      Exit srv services world recive (.error .nullPointerException) [.decoded inBytes] world
  | nullDescriptor (inBytes : Bytes) (request : Request V)
      (hr : readBody srv.io recive = .ok inBytes) (hd : srv.decode inBytes = .ok (some request))
      (hs : request.serviceDescriptor = none) :
      Exit srv services world recive (.error .nullPointerException) [.decoded inBytes] world
  | unregistered (inBytes : Bytes) (request : Request V) (d : ServiceDescriptor)
      (hr : readBody srv.io recive = .ok inBytes) (hd : srv.decode inBytes = .ok (some request))
      (hs : request.serviceDescriptor = some d) (hg : get services d = none) :
      Exit srv services world recive (.error .nullPointerException) [.decoded inBytes] world
  | rejected (inBytes : Bytes) (request : Request V) (d : ServiceDescriptor)
      (sis : ServiceInstance B) (e : Throwable)
      (hr : readBody srv.io recive = .ok inBytes) (hd : srv.decode inBytes = .ok (some request))
      (hs : request.serviceDescriptor = some d) (hg : get services d = some sis)
      (ha : sis.method.arguments srv.classPath srv.runtime sis.target request.parameters =
        .error e) :
      Exit srv services world recive (.error (.illegalStateOf e)) [.decoded inBytes] world
  | ran (inBytes : Bytes) (request : Request V) (d : ServiceDescriptor)
      (sis : ServiceInstance B) (actual : List V) (r : Except Throwable V) (w : W)
      (hr : readBody srv.io recive = .ok inBytes) (hd : srv.decode inBytes = .ok (some request))
      (hs : request.serviceDescriptor = some d) (hg : get services d = some sis)
      (ha : sis.method.arguments srv.classPath srv.runtime sis.target request.parameters =
        .ok actual)
      (hx : srv.runtime.exec sis.target sis.method actual world = (r, w)) :
      Exit srv services world recive
        (r.mapError fun _ => .illegalStateOf .invocationTargetException)
        [.decoded inBytes, .ran sis.target sis.method actual] w

/-- The body decoded to a request whose descriptor is registered, and the method that the
registry names returned the value. -/
def Succeeds (srv : RpcServer V B W σ) (services : Services B) (world : W) (recive : σ)
    (v : V) : Prop :=
  ∃ inBytes request d sis actual, readBody srv.io recive = .ok inBytes ∧
    srv.decode inBytes = .ok (some request) ∧ request.serviceDescriptor = some d ∧
    get services d = some sis ∧
    sis.method.arguments srv.classPath srv.runtime sis.target request.parameters = .ok actual ∧
    (srv.runtime.exec sis.target sis.method actual world).1 = .ok v

section Exits

variable {srv : RpcServer V B W σ} {services : Services B} {world w : W} {recive : σ}
  {r : Except Throwable V} {evs : List (Event V B)} {v : V} {e : Throwable}

theorem exit_total (srv : RpcServer V B W σ) (services : Services B) (world : W) (recive : σ) :
    ∃ r evs w, Exit srv services world recive r evs w := by
  cases hr : readBody srv.io recive with
  | error e => exact ⟨_, _, _, .unread e hr⟩
  | ok inBytes =>
    cases hd : srv.decode inBytes with
    | error e => exact ⟨_, _, _, .undecoded inBytes e hr hd⟩
    | ok request =>
      rcases request with _ | request
      · exact ⟨_, _, _, .nullRequest inBytes hr hd⟩
      cases hs : request.serviceDescriptor with
      | none => exact ⟨_, _, _, .nullDescriptor inBytes request hr hd hs⟩
      | some d =>
        cases hg : get services d with
        | none => exact ⟨_, _, _, .unregistered inBytes request d hr hd hs hg⟩
        | some sis =>
          cases ha : sis.method.arguments srv.classPath srv.runtime sis.target
              request.parameters with
          | error e => exact ⟨_, _, _, .rejected inBytes request d sis e hr hd hs hg ha⟩
          | ok actual =>
            exact ⟨_, _, _, .ran inBytes request d sis actual _ _ hr hd hs hg ha rfl⟩

/-- What the `try` block has decoded it looks up in the registry as it is then. -/
theorem serve_of_decoded {f : RequestFrame V B W} {inBytes : Bytes} {request : Option (Request V)}
    (hr : readBody srv.io recive = .ok inBytes) (hd : srv.decode inBytes = .ok request) :
    srv.serve recive f = (lift (ServiceManager.lookup f.services request) >>= fun sis =>
      srv.serviceInvoke sis request) { f with log := f.log ++ [.decoded inBytes] } := by
  simp [serve, decodeRequest, tell, lookup, bind_run, hr, hd]

/-- The `try` block does what its exit says, and touches nothing else. -/
theorem serve_of_exit {f : RequestFrame V B W}
    (h : Exit srv f.services f.world recive r evs w) :
    srv.serve recive f = ended r { f with world := w, log := f.log ++ evs } := by
  cases h with
  | unread e hr => simp [serve, bind_run, hr]
  | undecoded inBytes e hr hd => simp [serve, decodeRequest, tell, bind_run, hr, hd]
  | nullRequest inBytes hr hd =>
    simp [serve, decodeRequest, tell, lookup, ServiceManager.lookup, bind_run, hr, hd]
  | nullDescriptor inBytes request hr hd hs =>
    simp [serve, decodeRequest, tell, lookup, ServiceManager.lookup, bind_run, hr, hd, hs]
  | unregistered inBytes request d hr hd hs hg =>
    simp [serve, decodeRequest, tell, lookup, ServiceManager.lookup, serviceInvoke, bind_run,
      hr, hd, hs, hg]
  | rejected inBytes request d sis e hr hd hs hg ha =>
    have he := Method.arguments_error ha
    simp [serve, decodeRequest, tell, lookup, ServiceManager.lookup, serviceInvoke,
      reflectionInvoke, catching, methodInvoke, bind_run, hr, hd, hs, hg, ha, he]
  | ran inBytes request d sis actual r w hr hd hs hg ha hx =>
    cases r <;>
      simp [serve, decodeRequest, tell, lookup, ServiceManager.lookup, serviceInvoke,
        reflectionInvoke, catching, methodInvoke, exec, bind_run, hr, hd, hs, hg, ha, hx,
        Except.mapError]

theorem exit_ok_iff : (∃ evs w, Exit srv services world recive (.ok v) evs w) ↔
    Succeeds srv services world recive v := by
  constructor
  · rintro ⟨evs, w, h⟩
    generalize hv : (Except.ok v : Except Throwable V) = r at h
    cases h with
    | ran inBytes request d sis actual r w hr hd hs hg ha hx =>
      refine ⟨inBytes, request, d, sis, actual, hr, hd, hs, hg, ha, ?_⟩
      rw [hx]
      cases r with
      | ok v' => simpa [Except.mapError] using hv.symm
      | error e => simp [Except.mapError] at hv
    | _ => simp at hv
  · rintro ⟨inBytes, request, d, sis, actual, hr, hd, hs, hg, ha, hx⟩
    exact ⟨_, _, .ran inBytes request d sis actual (.ok v) _ hr hd hs hg ha (Prod.ext hx rfl)⟩

/-- Every failure is an exception when those of reading and decoding are. -/
theorem exit_error_isException (h : Exit srv services world recive (.error e) evs w)
    (hread : ∀ e, readBody srv.io recive = .error e → e.isException = true)
    (hdecode : ∀ inBytes e, srv.decode inBytes = .error e → e.isException = true) :
    e.isException = true := by
  generalize hv : (Except.error e : Except Throwable V) = r at h
  cases h with
  | unread e' hr =>
    cases hv
    exact hread _ hr
  | undecoded inBytes e' hr hd =>
    cases hv
    exact hdecode _ _ hd
  | ran inBytes request d sis actual r w hr hd hs hg ha hx =>
    cases r with
    | ok v => simp [Except.mapError] at hv
    | error t =>
      cases hv
      rfl
  | _ =>
    cases hv
    rfl

/-- At most one method runs, and nothing is encoded or written before the reply. -/
theorem exit_events (h : Exit srv services world recive r evs w) :
    (evs.filterMap Event.run?).length ≤ 1 ∧ evs.filterMap Event.encoded? = [] ∧
      evs.filterMap Event.wrote? = [] := by
  cases h <;> simp [List.filterMap_cons, Event.run?, Event.encoded?, Event.wrote?]

/-- The decoder sees exactly what the reading step yields. -/
theorem exit_decoded (h : Exit srv services world recive r evs w) (bytes : Bytes) :
    evs.filterMap Event.decoded? = [bytes] ↔ readBody srv.io recive = .ok bytes := by
  cases h <;> simp_all [Event.decoded?]

end Exits

end RpcServer

end SpringDemo.Rpc

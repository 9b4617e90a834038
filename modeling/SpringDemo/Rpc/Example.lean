import SpringDemo.Java.Value
import SpringDemo.Rpc.Client
import SpringDemo.Rpc.Server

/-! The calculator service of the example, with its server and its client. -/
namespace SpringDemo.Rpc.Example

open Java

@[irreducible] def calcService : ClassName := platformClass "com.stream.gkrpc.example.CalcService"

/-- `int name(int a, int b)`, declared by the interface. -/
def calcMethod (name : String) : Method where
  declaringClass := calcService
  name := utf16 name
  parameterTypes := [.prim .int, .prim .int]
  returnType := .prim .int
  isPublic := true
  isStatic := false

/-- An interface that extends the calculator's and declares nothing of its own. -/
@[irreducible] def advancedCalcService : ClassName :=
  platformClass "com.stream.gkrpc.example.AdvancedCalcService"

theorem advancedCalcService_ne : advancedCalcService ≠ calcService := by
  intro h
  have hl : advancedCalcService.name.length ≠ calcService.name.length := by decide +kernel
  exact hl (by rw [h])

def add : Method := calcMethod "add"
def minus : Method := calcMethod "minus"

def classPath : ClassPath where
  getDeclaredMethods c := if c = calcService then [add, minus] else []
  getInterfaces c := if c = advancedCalcService then [calcService] else []
  isAccessible _ := true
  declaring {c m} h := by
    split at h
    · rename_i hc
      have hm : m = add ∨ m = minus := by simpa using h
      rcases hm with rfl | rfl <;> exact hc.symm
    · simp at h
  distinct {c m m'} h h' hs := by
    split at h
    · rw [if_pos (by assumption)] at h'
      have hm : m = add ∨ m = minus := by simpa using h
      have hm' : m' = add ∨ m' = minus := by simpa using h'
      have hne : add.name ≠ minus.name := by decide
      rcases hm with rfl | rfl <;> rcases hm' with rfl | rfl
      · rfl
      · exact absurd hs.1 hne
      · exact absurd hs.1.symm hne
      · rfl
    · simp at h

/-- The bean of the example has no state. -/
inductive CalcServiceImpl where
  | instance_
deriving DecidableEq

/-- Integer arithmetic of the machine. -/
def toInt (n : Int) : Value := .num .integer (n.bmod 4294967296)

def exec : Option CalcServiceImpl → Method → List Value → Unit → Except Throwable Value × Unit
  | some _, m, [.num .integer a, .num .integer b], w =>
    if m.name = add.name then (.ok (toInt (a + b)), w)
    else if m.name = minus.name then (.ok (toInt (a - b)), w)
    else (.error .nullPointerException, w)
  | _, _, _, w => (.error .nullPointerException, w)

/-- Arguments of the calculator are converted as for any `int` parameter. -/
def runtime : Runtime Value CalcServiceImpl Unit where
  coerce t v := if t = .prim .int then convert (.prim .int) v else none
  exec := exec

def ascii (s : String) : Bytes := s.toList.map fun c => c.toNat.toUInt8

def addRequest : Request Value where
  serviceDescriptor := some (.fromMethod calcService add)
  parameters := some [.num .integer 1, .num .integer 2]

@[irreducible] def addRequestText : Bytes :=
  ascii ("\x7b\"parameters\":[1,2],\"serviceDescriptor\":\x7b\"clazz\":" ++
    "\"com.stream.gkrpc.example.CalcService\",\"method\":\"add\"," ++
    "\"parameterTypes\":[\"int\",\"int\"],\"returnType\":\"int\"\x7d\x7d")

def sumResponse : Response Value := { (Response.new : Response Value) with data := .num .integer 3 }

@[irreducible] def sumResponseText : Bytes :=
  ascii "\x7b\"code\":0,\"data\":3,\"message\":\"ok\"\x7d"

/-- What the decoder throws on text that is no message of the example. -/
def jsonException : Throwable :=
  ⟨.runtime, utf16 "com.alibaba.fastjson.JSONException", some (utf16 "syntax error")⟩

def decodeRequest (bytes : Bytes) : Except Throwable (Option (Request Value)) :=
  if bytes = addRequestText then .ok (some addRequest) else .error jsonException

theorem decodeRequest_text : decodeRequest addRequestText = .ok (some addRequest) := by
  rw [decodeRequest, if_pos rfl]

theorem decodeRequest_error {bytes : Bytes} {e : Throwable}
    (h : decodeRequest bytes = .error e) : e = jsonException := by
  unfold decodeRequest at h
  split at h
  · cases h
  · exact (Except.error.inj h).symm

def encodeRequest (request : Request Value) : Except Throwable Bytes :=
  if request.serviceDescriptor = addRequest.serviceDescriptor then .ok addRequestText
  else .error jsonException

def encodeResponse (response : Response Value) : Except Throwable Bytes :=
  if response.code = 0 then .ok sumResponseText else .error jsonException

/-- An encoder that rejects every value a method returns, and accepts the answer to a failure. -/
def rejectData (response : Response Value) : Except Throwable Bytes :=
  if response.code = 0 then .error jsonException
  else .ok (ascii "\x7b\"code\":1,\"message\":\"RpcServer got error\"\x7d")

def decodeResponse (bytes : Bytes) : Except Throwable (Option (Response Value)) :=
  if bytes = sumResponseText then .ok (some sumResponse) else .error jsonException

/-- The server of the example around an encoder. -/
def serverWith (encode : Response Value → Except Throwable Bytes) :
    RpcServer Value CalcServiceImpl Unit TimedStream where
  classPath := classPath
  runtime := runtime
  io := TimedStream.blockingReader.io
  decode := decodeRequest
  encode := encode

abbrev server : RpcServer Value CalcServiceImpl Unit TimedStream := serverWith encodeResponse

/-- The server once its `main` has registered the calculator. -/
def serverState : ServerState Value CalcServiceImpl Unit where
  services := registered classPath [(calcService, some .instance_)]
  world := ()
  log := []

open RpcServer Lib.HashTable

theorem add_mem : add ∈ classPath.getDeclaredMethods calcService := by simp [classPath]

/-- The calculator's two methods are all that the example declares. -/
theorem mem_declared {c : ClassName} {m : Method} (h : m ∈ classPath.getDeclaredMethods c) :
    c = calcService := by
  by_contra hc
  simp [classPath, hc] at h

theorem serverState_get_add :
    get serverState.services (ServiceDescriptor.fromMethod calcService add) =
      some ⟨some .instance_, add⟩ := by
  have hp : add ∈ getPublicMethods classPath calcService := mem_getPublicMethods.mpr ⟨add_mem, rfl⟩
  exact get_register_of_mem hp

/-- Two numbers are added whatever they are. -/
theorem exec_add (a b : Int) :
    runtime.exec (some .instance_) add [.num .integer a, .num .integer b] () =
      (.ok (toInt (a + b)), ()) := by
  simp [runtime, exec]

theorem arguments_add (a b : Int) :
    add.arguments classPath runtime (some CalcServiceImpl.instance_)
      (some [.num .integer a, .num .integer b]) = .ok [.num .integer a, .num .integer b] := by
  refine (Method.arguments_eq_ok_iff rfl).mpr ?_
  simp [coerceAll, add, calcMethod, runtime, convert, Scalar.numClass]

/-- Whatever its encoder, the server adds the two numbers of the request. -/
theorem exit_add (encode : Response Value → Except Throwable Bytes) :
    Exit (serverWith encode) serverState.services () (Arrival.whole addRequestText).start
      (.ok (.num .integer 3))
      [.decoded addRequestText, .ran (some .instance_) add [.num .integer 1, .num .integer 2]]
      () := by
  refine .ran (r := .ok (.num .integer 3)) addRequestText addRequest
    (ServiceDescriptor.fromMethod calcService add) ⟨some CalcServiceImpl.instance_, add⟩
    [.num .integer 1, .num .integer 2] ()
    (Arrival.readBody_whole _ _) decodeRequest_text rfl serverState_get_add (arguments_add 1 2) ?_
  exact exec_add 1 2

/-- The invoker of the example over a network. -/
def invokerWith {τ : Type} (exchange : Option JString → Bytes →
    Lib.Exec.Block Throwable τ (HttpURLConnection TimedStream)) :
    RemoteInvoker Value τ TimedStream where
  clazz := calcService
  encode := encodeRequest
  decode := decodeResponse
  exchange := exchange
  io := TimedStream.blockingReader.io

/-- A network on which every exchange ends like this. -/
def answering (httpConn : HttpURLConnection TimedStream) : Option JString → Bytes →
    Lib.Exec.Block Throwable Unit (HttpURLConnection TimedStream) :=
  fun _ _ => pure httpConn

/-- The sum, all of it there when it is read. -/
def sumAnswer : HttpURLConnection TimedStream :=
  ⟨200, .ok (Arrival.whole sumResponseText).start, none⟩

/-- An internal error of the server, without a body. -/
def serverError : HttpURLConnection TimedStream :=
  ⟨500, .error ⟨.io, utf16 "java.io.IOException", none⟩, none⟩

/-- The server that a client is configured with when nothing else is said. -/
def defaultPeer : Peer := ⟨some (utf16 "127.0.0.1"), 3000⟩

def defaultClient : HttpTransportClient := .connect ⟨0, none⟩ defaultPeer

/-- The client as its constructor leaves it: one connection to the server. -/
def clientState {τ : Type} (network : τ) : ClientState τ where
  selector := RandomTransportSelector.new.init [defaultPeer] 1
  network := network
  decoded := []

theorem select_default {τ : Type} (network : τ) :
    (clientState network).selector.select 0 = .ok (defaultClient, ⟨[], 1⟩) := rfl

theorem encodeRequest_add : encodeRequest addRequest = .ok addRequestText := by
  rw [encodeRequest, if_pos rfl]

theorem decodeResponse_sum : decodeResponse sumResponseText = .ok (some sumResponse) := by
  rw [decodeResponse, if_pos rfl]

end SpringDemo.Rpc.Example

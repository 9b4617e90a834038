import SpringDemo.Java.Stream
import SpringDemo.Rpc.Selector

/-! A call of the proxy: a connection is borrowed, used and given back, and what came over it is
judged. -/
namespace SpringDemo.Rpc

open Java Lib.Exec

/-- What has become of an HTTP exchange when its status is known. -/
structure HttpURLConnection (σ : Type) where
  responseCode : Int
  inputStream : Except Throwable σ
  /-- null when the server sent no body with the error -/
  errorStream : Option σ

/-- The stream that `write` returns: which of the two it is depends on the status. -/
def HttpURLConnection.stream {σ : Type} (httpConn : HttpURLConnection σ) :
    Except Throwable (Option σ) :=
  if httpConn.responseCode = 200 then httpConn.inputStream.map some
  else .ok httpConn.errorStream

/-- The fields of a `RemoteInvoker`, with the network under its clients. -/
structure RemoteInvoker (V τ σ : Type) where
  clazz : ClassName
  encode : Request V → Except Throwable Bytes
  decode : Bytes → Except Throwable (Option (Response V))
  /-- everything from `new URL(url)` to `getResponseCode()` -/
  exchange : Option JString → Bytes → Block Throwable τ (HttpURLConnection σ)
  io : InputStream σ

/-- The selector, the rest of the world, and what `decoder.decode` was called on. -/
structure ClientState (τ : Type) where
  selector : RandomTransportSelector
  network : τ
  decoded : List Bytes

/-- The state inside one call of `invokeRemote`, with its locals. -/
structure CallFrame (V τ : Type) extends ClientState τ where
  client : Option HttpTransportClient
  response : Option (Response V)

variable {V τ σ : Type}

def CallFrame.enter (st : ClientState τ) : CallFrame V τ := ⟨st, none, none⟩

abbrev Call (V τ α : Type) := Block Throwable (CallFrame V τ) α

namespace RemoteInvoker

/-- `client.write(data)`. -/
def write (inv : RemoteInvoker V τ σ) (client : HttpTransportClient) (data : Bytes) :
    Block Throwable τ (Option σ) :=
  catching Throwable.isIOException
    (do
      let httpConn ← inv.exchange client.url data
      lift httpConn.stream)
    fun e => throw (.illegalStateOf e)

/-- `client = selector.select()`. -/
def selectClient (seed : Nat) : Call V τ HttpTransportClient := fun f =>
  match f.selector.select seed with
  | .error e => .error e f
  | .ok (client, selector) => .ok client { f with selector := selector, client := some client }

/-- `decoder.decode(inBytes, Response.class)`. -/
def decodeResponse (inv : RemoteInvoker V τ σ) (inBytes : Bytes) :
    Call V τ (Option (Response V)) := do
  modify fun f => { f with decoded := f.decoded ++ [inBytes] }
  lift (inv.decode inBytes)

/-- The `try` block of `invokeRemote`. -/
def callRemote (inv : RemoteInvoker V τ σ) (seed : Nat) (request : Request V) :
    Call V τ Unit := do
  let client ← selectClient seed
  let outBytes ← lift (inv.encode request)
  let revice ← onPart (fun f => f.network) (fun n f => { f with network := n })
    (inv.write client outBytes)
  match revice with
  | none => throw .nullPointerException
  | some revice =>
    let inBytes ← lift (readBody inv.io revice)
    let response ← inv.decodeResponse inBytes
    modify fun f => { f with response := response }

/-- The finalizer: what was borrowed is given back. -/
def releaseClient : Call V τ Unit :=
  modify fun f =>
    match f.client with
    | none => f
    | some client => { f with selector := f.selector.release client }

variable [JavaObject V]

/-- `response.setMessage` of the `catch` block, `e.getClass()` in its rendering. -/
def errorMessage (e : Throwable) : JString :=
  utf16 "RpcClient got error:" ++ (utf16 "class " ++ e.name) ++ utf16 " : " ++ orNull e.message

def errorResponse (e : Throwable) : Response V :=
  { (Response.new : Response V) with code := 1, message := some (errorMessage e) }

/-- `invokeRemote(request)`. -/
def invokeRemote (inv : RemoteInvoker V τ σ) (seed : Nat) (request : Request V) :
    Block Throwable (ClientState τ) (Option (Response V)) :=
  inFrame CallFrame.enter CallFrame.toClientState do
    andFinally
      (catching Throwable.isIOException (inv.callRemote seed request) fun e =>
        modify fun f => { f with response := some (errorResponse e) })
      releaseClient
    let f ← get
    pure f.response

/-- What `invoke` makes of the response, null included. -/
def judged (render : V → JString) : Option (Response V) → Except Throwable V
  | none => .error (.illegalStateException (utf16 "fail to invoke remote: null"))
  | some response =>
    if response.code ≠ 0 then
      .error (.illegalStateException
        (utf16 "fail to invoke remote: " ++ response.toString render))
    else .ok response.data

/-- The request that a call through the proxy becomes. -/
def requestOf (inv : RemoteInvoker V τ σ) (method : Method) (args : Option (List V)) :
    Request V :=
  ⟨some (.fromMethod inv.clazz method), args⟩

/-- `invoke(proxy, method, args)`; `render` is the `toString` of the data. -/
def invoke (inv : RemoteInvoker V τ σ) (render : V → JString) (seed : Nat) (method : Method)
    (args : Option (List V)) : Block Throwable (ClientState τ) V := do
  let response ← inv.invokeRemote seed (inv.requestOf method args)
  lift (judged render response)

end RemoteInvoker

end SpringDemo.Rpc

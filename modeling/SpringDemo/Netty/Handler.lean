import Mathlib.Logic.Function.Basic
import SpringDemo.Java.Nio
import SpringDemo.Library.Exec

/-! The WebSocket chat: one handler for each channel, and one group for all of them. -/
namespace SpringDemo.Netty

open Java Lib.Exec Lib.Utf8

/-- The frames that Netty decodes, one for each fragment of a message. -/
inductive WebSocketFrame where
  | text (finalFragment : Bool) (content : Bytes)
  | continuation (finalFragment : Bool) (content : Bytes)
  | binary (finalFragment : Bool) (content : Bytes)
  | ping (content : Bytes)
  | pong (content : Bytes)
  | close (content : Bytes)
deriving DecidableEq

structure FullHttpRequest where
  /-- `getDecoderResult().isSuccess()` -/
  isSuccess : Bool
  /-- `headers().get(name)` -/
  headers : String → Option String

structure HttpResponseStatus where
  code : Nat
  reasonPhrase : String
deriving DecidableEq

def HttpResponseStatus.toText (status : HttpResponseStatus) : Text :=
  (toString status.code ++ " " ++ status.reasonPhrase).toList

def BAD_REQUEST : HttpResponseStatus := ⟨400, "Bad Request"⟩

structure DefaultFullHttpResponse where
  status : HttpResponseStatus
  content : Bytes
deriving DecidableEq

/-- A handshaker, by what its handshake throws. -/
structure WebSocketServerHandshaker where
  handshake : FullHttpRequest → Except Throwable Unit

/-- What Netty and the clock contribute while one message is handled. -/
structure Env where
  /-- `new WebSocketServerHandshakerFactory(url, null, false).newHandshaker(req)` -/
  newHandshaker : String → FullHttpRequest → Option WebSocketServerHandshaker
  /-- `new Date().toString()` -/
  date : Text
  /-- what `channel.id()` is as a text -/
  id : Nat → Text
  /-- the order in which a group writes to its members -/
  order : List Nat → List Nat
  order_perm : ∀ group, (order group).Perm group

/-- What is done to the channels, in order. -/
inductive Event where
  | active (c : Nat)
  | inactive (c : Nat)
  /-- the channel was written this response -/
  | responded (c : Nat) (res : DefaultFullHttpResponse)
  /-- `sendUnsupportedWebSocketVersionResponse(channel)` -/
  | unsupportedVersion (c : Nat)
  /-- the handshake with the channel was completed -/
  | upgraded (c : Nat)
  /-- a text frame was given to the group for this request of the channel -/
  | broadcast (c : Nat) (request : Text) (tws : Text)
  /-- the channel was written a text frame -/
  | wrote (c : Nat) (tws : Text)
  /-- the channel was written a pong frame -/
  | pong (c : Nat) (content : Bytes)
  /-- `handshaker.close(channel, frame)` -/
  | closing (c : Nat) (content : Bytes)
  | flushed (c : Nat)
  /-- the stack trace was printed -/
  | caught (c : Nat) (cause : Throwable)
  /-- the channel was told to close -/
  | closed (c : Nat)
deriving DecidableEq

/-- Where a channel is in its life: which codec its pipeline holds. -/
inductive Stage where
  | unconnected
  | http
  | webSocket
  | inactive
deriving DecidableEq

/-- A channel, with the field of its handler. -/
structure Connection where
  stage : Stage
  handshaker : Option WebSocketServerHandshaker

structure ServerState where
  connections : Nat → Connection
  /-- `NettyConfig.group` -/
  group : List Nat
  log : List Event

/-- The state in which the server is bound to its port. -/
def ServerState.bound : ServerState := ⟨fun _ => ⟨.unconnected, none⟩, [], []⟩

def ServerState.setStage (s : ServerState) (c : Nat) (stage : Stage) : ServerState :=
  { s with connections := Function.update s.connections c { s.connections c with stage := stage } }

def ServerState.setHandshaker (s : ServerState) (c : Nat)
    (handshaker : Option WebSocketServerHandshaker) : ServerState :=
  { s with
    connections := Function.update s.connections c
      { s.connections c with handshaker := handshaker } }

def ServerState.tell (s : ServerState) (es : List Event) : ServerState :=
  { s with log := s.log ++ es }

abbrev Handler (α : Type) := Block Throwable ServerState α

def tell (e : Event) : Handler Unit := modify fun s => s.tell [e]

def channelActive (ctx : Nat) : Handler Unit := do
  modify fun s => { s with group := if ctx ∈ s.group then s.group else s.group ++ [ctx] }
  tell (.active ctx)

def channelInactive (ctx : Nat) : Handler Unit := do
  modify fun s => { s with group := s.group.filter (· ≠ ctx) }
  tell (.inactive ctx)

def channelReadComplete (ctx : Nat) : Handler Unit := tell (.flushed ctx)

def exceptionCaught (ctx : Nat) (cause : Throwable) : Handler Unit := do
  tell (.caught ctx cause)
  tell (.closed ctx)

/-- `NettyConfig.group.writeAndFlush(tws)`. -/
def writeAndFlush (env : Env) (tws : Text) : Handler Unit := do
  let s ← get
  (env.order s.group).forM fun c => tell (.wrote c tws)

/-- The message of a text frame: the date, the channel and what it says. -/
def answer (env : Env) (ctx : Nat) (request : Text) : Text :=
  env.date ++ env.id ctx ++ " ===>>> ".toList ++ request

def unsupportedMessage : Throwable :=
  ⟨.runtime, utf16 "java.lang.RuntimeException",
    some (utf16 "【com.lcz.netty.MyWebSocketHandler】不支持消息")⟩

/-- `handshaker.close(ctx.channel(), frame)`. -/
def closeHandshake (ctx : Nat) (content : Bytes) : Handler Unit := do
  let s ← get
  match (s.connections ctx).handshaker with
  | none => throw .nullPointerException
  | some _ => tell (.closing ctx content)

/-- A close frame goes on to the tests below its own. -/
def handWebsocketFrame (env : Env) (ctx : Nat) (frame : WebSocketFrame) : Handler Unit := do
  match frame with
  | .close content => closeHandshake ctx content
  | _ => pure ()
  match frame with
  | .ping content => tell (.pong ctx content)
  | .text _ content =>
    tell (.broadcast ctx (decode content) (answer env ctx (decode content)))
    writeAndFlush env (answer env ctx (decode content))
  | _ => throw unsupportedMessage

def sendHttpResponse (ctx : Nat) (res : DefaultFullHttpResponse) : Handler Unit := do
  if res.status.code ≠ 200 then
    tell (.responded ctx { res with content := res.content ++ encode res.status.toText })
    tell (.closed ctx)
  else tell (.responded ctx res)

def WEB_SOCKET_URL : String := "ws://localhost:8888/websocket"

def handHttpRequest (env : Env) (ctx : Nat) (req : FullHttpRequest) : Handler Unit := do
  if req.isSuccess = false ∨ req.headers "Upgrade" ≠ some "websocket" then
    sendHttpResponse ctx ⟨BAD_REQUEST, []⟩
  else
    let handshaker := env.newHandshaker WEB_SOCKET_URL req
    modify fun s => s.setHandshaker ctx handshaker
    match handshaker with
    | none => tell (.unsupportedVersion ctx)
    | some handshaker =>
      lift (handshaker.handshake req)
      modify fun s => s.setStage ctx .webSocket
      tell (.upgraded ctx)

/-- What the pipeline hands to the handler. -/
inductive Message where
  | request (req : FullHttpRequest)
  | frame (frame : WebSocketFrame)

def messageReceived (env : Env) (ctx : Nat) : Message → Handler Unit
  | .request req => handHttpRequest env ctx req
  | .frame frame => handWebsocketFrame env ctx frame

/-- Netty hands the exception of a handler's method to its `exceptionCaught`. -/
def invoke (ctx : Nat) (x : Handler Unit) : Handler Unit :=
  catching (fun _ => true) x (exceptionCaught ctx)

inductive Label where
  | active (c : Nat)
  | inactive (c : Nat)
  | message (c : Nat) (env : Env) (msg : Message)
  | readComplete (c : Nat)

/-- The codec that a channel's pipeline holds decodes such messages. -/
def Stage.decodes : Stage → Message → Prop
  | .http, .request _ => True
  | .webSocket, .frame _ => True
  | _, _ => False

def Stage.live : Stage → Bool
  | .http | .webSocket => true
  | _ => false

/-- One event of any of the channels. -/
inductive Step : ServerState → Label → ServerState → Prop
  | active (s : ServerState) (c : Nat) (hs : (s.connections c).stage = .unconnected) :
      Step s (.active c) (final (invoke c (channelActive c) (s.setStage c .http)))
  | inactive (s : ServerState) (c : Nat) (hs : (s.connections c).stage.live = true) :
      Step s (.inactive c) (final (invoke c (channelInactive c) (s.setStage c .inactive)))
  | message (s : ServerState) (c : Nat) (env : Env) (msg : Message)
      (hs : (s.connections c).stage.decodes msg) :
      Step s (.message c env msg) (final (invoke c (messageReceived env c msg) s))
  | readComplete (s : ServerState) (c : Nat) (hs : (s.connections c).stage.live = true) :
      Step s (.readComplete c) (final (invoke c (channelReadComplete c) s))

end SpringDemo.Netty

import SpringDemo.Java.Nio
import SpringDemo.Library.Exec

/-! The chat server's event loop: one thread that accepts, reads and broadcasts. -/
namespace SpringDemo.Nio

open Java Lib.Exec Lib.Utf8

/-- What the server's channels do, in order. -/
inductive Event where
  /-- `accept()` returned this channel -/
  | accepted (c : Nat)
  /-- a `read` on the channel returned these bytes, `none` for `-1` -/
  | read (c : Nat) (r : Option Bytes)
  /-- the reading loop left this text in `request`, maybe none -/
  | requested (c : Nat) (text : Text)
  /-- `boardCast` was called for the channel -/
  | boardCast (c : Nat) (text : Text)
  /-- `write` was called on the channel with this buffer, and the room that it found there -/
  | wrote (channel : Channel) (buffer : Bytes) (room : Except Throwable Nat)
deriving DecidableEq

structure SocketChannel where
  id : Nat
  isOpen : Bool
deriving DecidableEq

/-- A key of the current batch, with the operations it was found ready for. -/
structure SelectedKey where
  key : SelectionKey
  ready : Ops
deriving DecidableEq

structure ServerState where
  /-- `selector.keys()` -/
  keys : List SelectionKey
  /-- the part of `selector.selectedKeys()` that the iterator has still to visit -/
  selectedKeys : List SelectedKey
  /-- the accepted channels -/
  channels : List SocketChannel
  /-- the exception that ended `start()` -/
  thrown : Option Throwable
  log : List Event

/-- What the network does while one key is served. The room of a channel is how many bytes a
`write` to it can take; the order is the one in which `keys()` is iterated. -/
structure Net where
  /-- whether a connection is pending -/
  accept : Except Throwable Bool
  incoming : Nat → Incoming
  room : Channel → Except Throwable Nat
  order : List SelectionKey → List SelectionKey
  room_io : ∀ channel e, room channel = .error e → e.isIOException = true
  order_perm : ∀ keys, (order keys).Perm keys

abbrev Handler (α : Type) := Block Throwable ServerState α

def tell (e : Event) : Handler Unit := modify fun s => { s with log := s.log ++ [e] }

/-- `channel.write(buffer)`: as much of the buffer as there is room for. -/
def write (net : Net) (channel : Channel) (buffer : Bytes) : Handler Nat := do
  tell (.wrote channel buffer (net.room channel))
  lift ((net.room channel).map fun n => min n buffer.length)

/-- `channel.register(selector, ops)`. -/
def registerWith (channel : Channel) (ops : Ops) : Handler Unit :=
  modify fun s => { s with keys := register s.keys channel ops }

def greeting : Text := "你与聊天室李其他人都不是朋友关系，请注意隐私安全".toList

/-- `serverSocketChannel.accept()`: the next channel, or null. -/
def accept (net : Net) : Handler (Option Channel) := do
  let pending ← lift net.accept
  if pending then
    let s ← get
    let c := s.channels.length
    modify fun s => { s with channels := s.channels ++ [⟨c, true⟩] }
    tell (.accepted c)
    pure (some (.socket c))
  else pure none

def acceptHandler (net : Net) : Handler Unit := do
  let socketChannel ← accept net
  match socketChannel with
  | none => throw .nullPointerException
  | some socketChannel =>
    registerWith socketChannel OP_READ
    let _ ← write net socketChannel (encode greeting)

/-- The body of the loop over the keys: other channels than the source get the request, and what
one of them throws is printed. -/
def sendTo (net : Net) (sourceChannel : Channel) (request : Text) (key : SelectionKey) :
    Handler Unit :=
  match key.channel with
  | .serverSocket => pure ()
  | .socket c =>
    if Channel.socket c = sourceChannel then pure ()
    else
      catching Throwable.isIOException
        (do let _ ← write net (.socket c) (encode request))
        fun _ => pure ()

def boardCast (net : Net) (sourceChannel : Channel) (request : Text) : Handler Unit := do
  let s ← get
  (net.order s.keys).forM (sendTo net sourceChannel request)

def classCastException : Throwable :=
  ⟨.runtime, utf16 "java.lang.ClassCastException", none⟩

def readHandler (net : Net) (selectionKey : SelectionKey) : Handler Unit :=
  match selectionKey.channel with
  | .serverSocket => throw classCastException
  | .socket c => do
    let (request, ended) := readAll net.incoming
    request.reads.forM fun r => tell (.read c r)
    lift ended
    registerWith (.socket c) OP_READ
    tell (.requested c request.text)
    if 0 < request.text.length then
      tell (.boardCast c request.text)
      boardCast net (.socket c) request.text

/-- One round of the loop over the selected keys. -/
def serve (net : Net) (k : SelectedKey) : Handler Unit := do
  if k.ready.accept then acceptHandler net
  if k.ready.read then readHandler net k.key

/-- The state in which `start()` enters its loop. -/
def ServerState.listening : ServerState where
  keys := register [] .serverSocket OP_ACCEPT
  selectedKeys := []
  channels := []
  thrown := none
  log := []

/-- What one round leaves: an exception ends `start()`. -/
def ServerState.after : EStateM.Result Throwable ServerState Unit → ServerState
  | .ok _ s => s
  | .error e s => { s with thrown := some e }

inductive Label where
  | select (ready : List SelectedKey)
  | next (net : Net)

/-- The two loops of `start()`: a batch is selected when the iterator has reached the end of the
one before, and each key is taken out of it before it is served. -/
inductive Step : ServerState → Label → ServerState → Prop
  | select (s : ServerState) (ready : List SelectedKey) (ht : s.thrown = none)
      (he : s.selectedKeys = []) (hn : (ready.map SelectedKey.key).Nodup)
      (hk : ∀ k ∈ ready, k.key ∈ s.keys ∧ (k.ready.accept = true ∨ k.ready.read = true) ∧
        (k.ready.accept = true → k.key.interestOps.accept = true) ∧
        (k.ready.read = true → k.key.interestOps.read = true)) :
      Step s (.select ready) { s with selectedKeys := ready }
  | next (s : ServerState) (net : Net) (k : SelectedKey) (rest : List SelectedKey)
      (ht : s.thrown = none) (hs : s.selectedKeys = k :: rest) :
      Step s (.next net) (.after (serve net k { s with selectedKeys := rest }))

end SpringDemo.Nio

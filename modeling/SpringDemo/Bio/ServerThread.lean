import SpringDemo.Java.Reader
import SpringDemo.Library.Exec
import SpringDemo.Library.Runs

/-! A thread of the blocking server: it reads the lines of one client and answers each of them. -/
namespace SpringDemo.Bio

open Java Lib.Exec Lib.Lines Lib.Runs Lib.Utf8

/-- What `PrintWriter` makes of a text: the default charset of the machine. -/
abbrev Charset := Text → Bytes

/-- `run()` with its socket. -/
structure ServerThread where
  /-- what the client sends -/
  input : Pipe
  br : BufferedReader
  /-- `socket.isInputShutdown()` -/
  shutIn : Bool
  /-- what was written to the client -/
  output : Bytes
  /-- the resources have not been closed yet -/
  running : Bool
  /-- the lines on the console -/
  printed : List Text
  /-- the exception whose stack trace was printed -/
  caught : Option Throwable

def submitted (data : Text) : Text := "我是服务器，客户端提交的信息为：".toList ++ data

def response : Text := "服务器端响应成功".toList

/-- `Socket.shutdownInput` throws when it is called again. -/
def alreadyShutdown : Throwable :=
  ⟨.io, utf16 "java.net.SocketException", some (utf16 "Socket input is already shutdown")⟩

namespace ServerThread

/-- A thread that was given a new connection. -/
def accepted : ServerThread := ⟨.opened, .new, false, [], true, [], none⟩

/-- The bytes that the reader has got from the socket. -/
def received (s : ServerThread) : Bytes := s.input.written.take s.input.taken

/-- A read of the socket returns -1. -/
def atEnd (s : ServerThread) : Bool := s.shutIn || s.input.ended && s.input.waiting.isEmpty

/-- `br.readLine()`. -/
def readLine (s : ServerThread) : Option (Option Text × BufferedReader) := s.br.readLine s.atEnd

abbrev Handler (α : Type) := Block Throwable ServerThread α

def println (text : Text) : Handler Unit :=
  modify fun s => { s with printed := s.printed ++ [text] }

/-- `socket.shutdownInput()`, the system's call ending with `r`. -/
def shutdownInput (r : Except Throwable Unit) : Handler Unit := do
  let s ← get
  if s.shutIn then throw alreadyShutdown
  lift r
  modify fun s => { s with shutIn := true }

/-- `pw.write(text); pw.flush();` -/
def write (charset : Charset) (text : Text) : Handler Unit :=
  modify fun s => { s with output := s.output ++ charset text }

/-- The body of the loop. -/
def respond (charset : Charset) (r : Except Throwable Unit) (data : Text) : Handler Unit := do
  println (submitted data)
  shutdownInput r
  write charset response

/-- The `finally` block: each `close` closes the socket, or finds it closed. -/
def close (s : ServerThread) : ServerThread := { s with running := false }

/-- Once `readLine` has returned: another round of the loop, or its end. -/
def turn (charset : Charset) (r : Except Throwable Unit) (data : Option Text) (s : ServerThread) :
    ServerThread :=
  match data with
  | none => s.close
  | some data =>
    match respond charset r data s with
    | .ok _ s => s
    | .error e s => { s with caught := some e }.close

inductive Label where
  /-- the client sends -/
  | arrive (bs : Bytes)
  /-- the client sends no more -/
  | finish
  /-- a read of the socket returns so many bytes -/
  | fill (n : Nat)
  | readThrows (e : Throwable)
  | turn (r : Except Throwable Unit)

/-- The network fails. -/
def Label.fails : Label → Bool
  | readThrows _ | turn (.error _) => true
  | _ => false

/-- What the client does, and what the thread does. -/
inductive Step (charset : Charset) : ServerThread → Label → ServerThread → Prop
  | arrive (s : ServerThread) (bs : Bytes) (he : s.input.ended = false) :
      Step charset s (.arrive bs) { s with input := s.input.write bs }
  | finish (s : ServerThread) : Step charset s .finish { s with input := s.input.finish }
  | fill (s : ServerThread) (n : Nat) (hr : s.running = true) (hl : s.readLine = none)
      (hn : 0 < n) (hw : n ≤ s.input.waiting.length) :
      Step charset s (.fill n)
        { s with br := s.br.feed (s.input.waiting.take n), input := s.input.take n }
  | readThrows (s : ServerThread) (e : Throwable) (hr : s.running = true)
      (hl : s.readLine = none) (hio : e.isIOException = true) :
      Step charset s (.readThrows e) { s with caught := some e }.close
  | turn (s : ServerThread) (r : Except Throwable Unit) (data : Option Text) (br : BufferedReader)
      (hr : s.running = true) (hl : s.readLine = some (data, br))
      (hio : ∀ e, r = .error e → e.isIOException = true) :
      Step charset s (.turn r) ({ s with br := br }.turn charset r data)

variable {charset : Charset} {s t : ServerThread} {l : Label} {ls : List Label} {n : Nat}
  {data : Option Text} {br : BufferedReader}

theorem turn_first (h : s.shutIn = false) (br : BufferedReader) (text : Text) :
    { s with br := br }.turn charset (.ok ()) (some text) = { s with
      br := br
      printed := s.printed ++ [submitted text]
      shutIn := true
      output := s.output ++ charset response } := by
  simp [turn, respond, println, shutdownInput, write, bind_run, h]

theorem turn_first_fails (h : s.shutIn = false) (br : BufferedReader) (e : Throwable)
    (text : Text) : { s with br := br }.turn charset (.error e) (some text) =
      ServerThread.close { s with
        br := br
        printed := s.printed ++ [submitted text]
        caught := some e } := by
  simp [turn, respond, println, shutdownInput, bind_run, h]

/-- The second round ends the loop, whatever the system does. -/
theorem turn_again (h : s.shutIn = true) (br : BufferedReader) (r : Except Throwable Unit)
    (text : Text) : { s with br := br }.turn charset r (some text) =
      ServerThread.close { s with
        br := br
        printed := s.printed ++ [submitted text]
        caught := some alreadyShutdown } := by
  simp [turn, respond, println, shutdownInput, bind_run, h]

/-- A round leaves the input alone, and adds to the output. -/
theorem turn_frame (charset : Charset) (r : Except Throwable Unit) (data : Option Text)
    (s : ServerThread) : (s.turn charset r data).input = s.input ∧
      ∃ bs, (s.turn charset r data).output = s.output ++ bs := by
  cases data with
  | none => exact ⟨rfl, [], by simp [turn, close]⟩
  | some text =>
    cases hs : s.shutIn with
    | true =>
      have h : s.turn charset r (some text) = _ := turn_again hs s.br r text
      rw [h]
      exact ⟨rfl, [], by simp [close]⟩
    | false =>
      cases r with
      | ok u =>
        have h : s.turn charset (.ok ()) (some text) = _ := turn_first hs s.br text
        rw [h]
        exact ⟨rfl, _, rfl⟩
      | error e =>
        have h : s.turn charset (.error e) (some text) = _ := turn_first_fails hs s.br e text
        rw [h]
        exact ⟨rfl, [], by simp [close]⟩

end ServerThread

end SpringDemo.Bio

import SpringDemo.Bio.Answers

/-! The client of the blocking server, and a connection with both of its ends. -/
namespace SpringDemo.Bio

open Java Lib.Lines Lib.Runs Lib.Utf8

/-- Where `main` is. -/
inductive Phase where
  | connected
  | written
  | reading
  | closed
deriving DecidableEq

structure Client where
  phase : Phase
  /-- how much was read from the socket -/
  taken : Nat
  br : BufferedReader
  printed : List Text
  caught : Option Throwable

def request : Text := "用户名:jinxueling;密码：123".toList

def responded (data : Text) : Text := "我是客户端，服务器端响应的数据为：".toList ++ data

/-- A client, and the thread that serves it. -/
structure Connection where
  thread : ServerThread
  client : Client

namespace Connection

def opened : Connection := ⟨.accepted, ⟨.connected, 0, .new, [], none⟩⟩

/-- What the client can read: the server's output, until the server closes the socket. -/
def input (c : Connection) : Pipe := ⟨c.thread.output, !c.thread.running, c.client.taken⟩

def atEnd (c : Connection) : Bool := c.input.ended && c.input.waiting.isEmpty

/-- `br.readLine()` in the client. -/
def readLine (c : Connection) : Option (Option Text × BufferedReader) :=
  c.client.br.readLine c.atEnd

def setClient (c : Connection) (client : Client) : Connection := { c with client := client }

/-- The body of the client's loop, or the end of it. -/
def turn (data : Option Text) (br : BufferedReader) (client : Client) : Client :=
  match data with
  | none => { client with br := br, phase := .closed }
  | some data => { client with br := br, printed := client.printed ++ [responded data] }

inductive Label where
  | write
  | shutdownOutput (r : Except Throwable Unit)
  | fill (n : Nat)
  | readThrows (e : Throwable)
  | turn
  | thread (l : ServerThread.Label)

/-- The network fails on either side. -/
def Label.fails : Label → Bool
  | shutdownOutput (.error _) | readThrows _ => true
  | thread l => l.fails
  | _ => false

/-- What the thread does by itself, and not its client. -/
def internal : ServerThread.Label → Bool
  | .arrive _ | .finish => false
  | _ => true

/-- `Client.main` from its connection on, and the thread of the server, in any order. -/
inductive Step (charset : Charset) : Connection → Label → Connection → Prop
  | write (c : Connection) (hp : c.client.phase = .connected) :
      Step charset c .write
        ⟨{ c.thread with input := c.thread.input.write (charset request) },
          { c.client with phase := .written }⟩
  | shutdownOutput (c : Connection) (hp : c.client.phase = .written) :
      Step charset c (.shutdownOutput (.ok ()))
        ⟨{ c.thread with input := c.thread.input.finish }, { c.client with phase := .reading }⟩
  | shutdownThrows (c : Connection) (e : Throwable) (hp : c.client.phase = .written)
      (hio : e.isIOException = true) :
      Step charset c (.shutdownOutput (.error e))
        (c.setClient { c.client with phase := .closed, caught := some e })
  | fill (c : Connection) (n : Nat) (hp : c.client.phase = .reading) (hl : c.readLine = none)
      (hn : 0 < n) (hw : n ≤ c.input.waiting.length) :
      Step charset c (.fill n) (c.setClient { c.client with
        br := c.client.br.feed (c.input.waiting.take n), taken := c.client.taken + n })
  | readThrows (c : Connection) (e : Throwable) (hp : c.client.phase = .reading)
      (hl : c.readLine = none) (hio : e.isIOException = true) :
      Step charset c (.readThrows e)
        (c.setClient { c.client with phase := .closed, caught := some e })
  | turn (c : Connection) (data : Option Text) (br : BufferedReader)
      (hp : c.client.phase = .reading) (hl : c.readLine = some (data, br)) :
      Step charset c .turn (c.setClient (turn data br c.client))
  | thread (c : Connection) (l : ServerThread.Label) (t : ServerThread)
      (hl : internal l = true) (h : ServerThread.Step charset c.thread l t) :
      Step charset c (.thread l) { c with thread := t }

/-- A step at which the network does not fail. -/
def Quiet (charset : Charset) (c : Connection) (l : Label) (c' : Connection) : Prop :=
  Step charset c l c' ∧ l.fails = false

variable {charset : Charset} {c c' : Connection} {l : Label} {ls : List Label}

/-- What the client has got from the socket. -/
def received (c : Connection) : Bytes := c.thread.output.take c.client.taken

/-- Where the client stands towards what it sends. -/
def Sent (charset : Charset) (c : Connection) : Prop :=
  match c.client.phase with
  | .connected => c.thread.input.written = [] ∧ c.thread.input.ended = false
  | .written => c.thread.input.written = charset request ∧ c.thread.input.ended = false
  | _ => c.thread.input.written = charset request ∧ c.thread.input.ended = true

/-- The client has printed the first lines of what it has received. -/
def Heard (c : Connection) : Prop :=
  ∃ ls, c.client.printed = ls.map (fun l => responded (decode l)) ∧
    lines byteMarks c.received = ls ++ c.client.br.linesWith byteMarks [] ∧
    ((∀ more, lines byteMarks (c.received ++ more) =
        ls ++ c.client.br.linesWith byteMarks more) ∨ c.atEnd = true)

/-- What every state has that is reached without a failure. -/
structure Joined (charset : Charset) (c : Connection) : Prop where
  thread : ServerThread.Reached charset false c.thread ∧ c.thread.Behind
  sent : c.Sent charset
  behind : c.client.taken ≤ c.thread.output.length
  heard : c.Heard
  closed : c.client.phase = .closed → c.atEnd = true ∧ c.client.br.linesWith byteMarks [] = []

theorem joined_opened : Joined charset opened where
  thread := ⟨.reading rfl rfl rfl rfl rfl rfl, Nat.le_refl _⟩
  sent := ⟨rfl, rfl⟩
  behind := Nat.le_refl _
  heard := ⟨[], rfl, rfl, .inl fun _ => rfl⟩
  closed := nofun

/-- A step of the thread adds to its output while it runs, and touches nothing that the client has
sent. -/
theorem output_of_internal {s t : ServerThread} {l : ServerThread.Label}
    (h : ServerThread.Step charset s l t) (hl : internal l = true) :
    s.running = true ∧ (∃ bs, t.output = s.output ++ bs) ∧
      t.input.written = s.input.written ∧ t.input.ended = s.input.ended := by
  cases h with
  | arrive | finish => cases hl
  | fill n hr => exact ⟨hr, ⟨[], by simp⟩, rfl, rfl⟩
  | readThrows e hr => exact ⟨hr, ⟨[], by simp [ServerThread.close]⟩, rfl, rfl⟩
  | turn r data br hr hlr =>
    obtain ⟨hin, hout⟩ := ServerThread.turn_frame charset r data { s with br := br }
    exact ⟨hr, hout, by rw [hin], by rw [hin]⟩

theorem not_atEnd_of_running (h : c.thread.running = true) : c.atEnd = false := by
  simp [atEnd, input, h]

theorem joined_thread (hi : Joined charset c) {l : ServerThread.Label} {t : ServerThread}
    (hl : internal l = true) (hq : l.fails = false) (h : ServerThread.Step charset c.thread l t) :
    Joined charset { c with thread := t } := by
  obtain ⟨hr, ⟨bs, hout⟩, hw, he⟩ := output_of_internal h hl
  have hnot := not_atEnd_of_running hr
  have hrec : received { c with thread := t } = c.received := by
    rw [received, hout]
    exact List.take_append_of_le_length hi.behind
  refine ⟨?_, ?_, ?_, ?_, ?_⟩
  · have hreach := ServerThread.reached_step hi.thread h
    rwa [hq] at hreach
  · have hs := hi.sent
    unfold Sent at hs ⊢
    rw [hw, he]
    exact hs
  · rw [hout, List.length_append]
    exact hi.behind.trans (Nat.le_add_right _ _)
  · obtain ⟨ls, hp, hlines, hmore | hend⟩ := hi.heard
    · refine ⟨ls, hp, by rw [hrec]; exact hlines, .inl ?_⟩
      rw [hrec]
      exact hmore
    · rw [hnot] at hend
      cases hend
  · intro hp
    have hend := (hi.closed hp).1
    rw [hnot] at hend
    cases hend

theorem received_fill (c : Connection) (n : Nat) (br : BufferedReader) :
    (c.setClient { c.client with br := br, taken := c.client.taken + n }).received =
      c.received ++ c.input.waiting.take n := List.take_add

theorem joined_fill (hi : Joined charset c) (hp : c.client.phase = .reading)
    (hl : c.readLine = none) {n : Nat} (hw : n ≤ c.input.waiting.length) :
    Joined charset (c.setClient { c.client with
      br := c.client.br.feed (c.input.waiting.take n), taken := c.client.taken + n }) := by
  have hnot := (BufferedReader.readLine_eq_none_iff.mp hl).2
  obtain ⟨ls, hpr, -, hmore⟩ := hi.heard
  replace hmore := hmore.resolve_right (by simp [hnot])
  refine ⟨hi.thread, ?_, ?_, ⟨ls, hpr, ?_, .inl fun more => ?_⟩, ?_⟩
  · have hs := hi.sent
    unfold Sent at hs ⊢
    exact hs
  · have hb := hi.behind
    simp only [input, Pipe.waiting, List.length_drop] at hw
    simp only [setClient]
    omega
  · rw [received_fill, hmore]
    exact congrArg _ ((Reader.linesWith_feed _ _ _).trans (by rw [List.append_nil])).symm
  · rw [received_fill, List.append_assoc, hmore]
    exact congrArg _ (Reader.linesWith_feed _ _ _).symm
  · intro hc
    rw [show c.client.phase = .closed from hc] at hp
    cases hp

theorem joined_turn (hi : Joined charset c) (hp : c.client.phase = .reading)
    {data : Option Text} {br : BufferedReader} (hl : c.readLine = some (data, br)) :
    Joined charset (c.setClient (turn data br c.client)) := by
  obtain ⟨ls, hpr, hlines, hmore⟩ := hi.heard
  have hs := hi.sent
  unfold Sent at hs
  rw [hp] at hs
  cases data with
  | none =>
    obtain ⟨hnil, rfl, hend⟩ := BufferedReader.linesWith_of_null hl
    exact ⟨hi.thread, hs, hi.behind, ⟨ls, hpr, hlines.trans (by rw [hnil]; rfl), .inr hend⟩,
      fun _ => ⟨hend, rfl⟩⟩
  | some text =>
    obtain ⟨l, rfl, hline, hset⟩ := BufferedReader.linesWith_of_readLine hl
    refine ⟨hi.thread, ?_, hi.behind, ⟨ls ++ [l], ?_, ?_, ?_⟩, ?_⟩
    · unfold Sent
      simp only [setClient, turn, hp]
      exact hs
    · simp [setClient, turn, hpr]
    · refine hlines.trans ?_
      rw [hline]
      simp [setClient, turn]
    · rcases hmore with hmore | hend
      · rcases hset with hset | hend
        · refine .inl fun more => (hmore more).trans ?_
          rw [hset]
          simp [setClient, turn]
        · exact .inr hend
      · exact .inr hend
    · intro hc
      rw [show c.client.phase = .closed from hc] at hp
      cases hp

theorem joined_step (h : Quiet charset c l c') (hi : Joined charset c) : Joined charset c' := by
  obtain ⟨h, hq⟩ := h
  cases h with
  | write hp =>
    have hs := hi.sent
    unfold Sent at hs
    rw [hp] at hs
    have hreach := ServerThread.reached_step hi.thread (.arrive c.thread (charset request) hs.2)
    refine ⟨hreach, ?_, hi.behind, hi.heard, fun he => by cases he⟩
    exact ⟨by simp [Pipe.write, hs.1], hs.2⟩
  | shutdownOutput hp =>
    have hs := hi.sent
    unfold Sent at hs
    rw [hp] at hs
    have hreach := ServerThread.reached_step hi.thread (.finish c.thread)
    exact ⟨hreach, ⟨hs.1, rfl⟩, hi.behind, hi.heard, fun he => by cases he⟩
  | shutdownThrows | readThrows => cases hq
  | fill n hp hl hn hw => exact joined_fill hi hp hl hw
  | turn data br hp hl => exact joined_turn hi hp hl
  | thread l t hl h => exact joined_thread hi hl hq h

end Connection

end SpringDemo.Bio

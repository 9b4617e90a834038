import SpringDemo.Bio.Client

/-! The blocking server with all of its clients: every connection comes to its end, whatever the
order of the steps, and every client has then been answered. -/
namespace SpringDemo.Bio

open Java Lib.Lines Lib.Runs Lib.Utf8

namespace Connection

variable {charset : Charset} {c c' : Connection} {l : Label}

/-- What the client has still to do before it reads. -/
def Phase.work (charset : Charset) : Phase → Nat
  | .connected => 3 + 2 * (charset request).length
  | .written => 2
  | .reading => 1
  | .closed => 0

/-- What the thread has still to read, to return as lines and to answer. -/
def threadWork (charset : Charset) (s : ServerThread) : Nat :=
  if s.running then
    1 + 2 * s.input.waiting.length + s.br.unread.length +
      if s.shutIn then 0 else 2 * (charset response).length
  else 0

/-- What the client has still to read and to print. -/
def clientWork (c : Connection) : Nat :=
  if c.client.phase = .closed then 0
  else 2 * c.input.waiting.length + c.client.br.unread.length

/-- A measure of what is left to do on both sides. -/
def work (charset : Charset) (c : Connection) : Nat :=
  Phase.work charset c.client.phase + threadWork charset c.thread + c.clientWork

theorem length_waiting (p : Pipe) : p.waiting.length = p.written.length - p.taken :=
  List.length_drop

theorem threadWork_write (s : ServerThread) (hb : s.Behind) (bs : Bytes) :
    threadWork charset { s with input := s.input.write bs } ≤
      threadWork charset s + 2 * bs.length := by
  have hle : s.input.taken ≤ s.input.written.length := hb
  unfold threadWork
  simp only [length_waiting, Pipe.write, List.length_append]
  split <;> omega

/-- A step of the thread takes more work off it than it gives to its client. -/
theorem threadWork_lt {s t : ServerThread} {l : ServerThread.Label}
    (h : ServerThread.Step charset s l t) (hl : internal l = true) (hq : l.fails = false) :
    threadWork charset t + 2 * (t.output.length - s.output.length) < threadWork charset s := by
  cases h with
  | arrive | finish => cases hl
  | readThrows => cases hq
  | fill n hr hlr hn hw =>
    rw [length_waiting] at hw
    simp only [threadWork, hr, if_true, length_waiting, Pipe.take, Reader.feed,
      List.length_append, List.length_take]
    omega
  | turn r data br hr hlr =>
    cases data with
    | none =>
      simp only [ServerThread.turn, ServerThread.close, threadWork, hr, if_true, Nat.sub_self]
      simp
    | some text =>
      have hlt := BufferedReader.length_unread_lt hlr
      by_cases hs : s.shutIn = true
      · rw [ServerThread.turn_again hs]
        simp only [ServerThread.close, threadWork, hr, if_true, Nat.sub_self]
        simp
      · rw [Bool.not_eq_true] at hs
        cases r with
        | error e => cases hq
        | ok u =>
          rw [ServerThread.turn_first hs]
          simp only [threadWork, hr, hs, if_true, List.length_append]
          simp
          omega

theorem clientWork_thread (hb : c.client.taken ≤ c.thread.output.length) {t : ServerThread}
    {bs : Bytes} (ht : t.output = c.thread.output ++ bs) :
    clientWork { c with thread := t } ≤
      c.clientWork + 2 * (t.output.length - c.thread.output.length) := by
  unfold clientWork
  simp only [length_waiting, input, ht, List.length_append]
  split <;> omega

/-- Every step that does not fail brings the two ends nearer to their end. -/
theorem work_lt (h : Quiet charset c l c') (hi : Joined charset c) :
    work charset c' < work charset c := by
  obtain ⟨h, hq⟩ := h
  cases h with
  | write hp =>
    have hw : threadWork charset _ ≤ _ :=
      threadWork_write c.thread hi.thread.2 (charset request)
    have hc : clientWork ⟨{ c.thread with input := c.thread.input.write (charset request) },
        { c.client with phase := .written }⟩ = c.clientWork := by
      simp [clientWork, hp, input]
    simp only [work, hc, hp, Phase.work]
    omega
  | shutdownOutput hp =>
    have ht : threadWork charset { c.thread with input := c.thread.input.finish } =
        threadWork charset c.thread := rfl
    have hc : clientWork ⟨{ c.thread with input := c.thread.input.finish },
        { c.client with phase := .reading }⟩ = c.clientWork := by
      simp [clientWork, hp, input]
    simp only [work, ht, hc, hp, Phase.work]
    omega
  | shutdownThrows | readThrows => cases hq
  | fill n hp hl hn hw =>
    rw [length_waiting] at hw
    simp only [input] at hw
    simp only [work, clientWork, setClient, hp, input, length_waiting, Reader.feed,
      List.length_append, List.length_take, reduceCtorEq, if_false]
    omega
  | turn data br hp hl =>
    cases data with
    | none =>
      simp only [work, clientWork, setClient, turn, hp, Phase.work, if_true]
      omega
    | some text =>
      have hlt := BufferedReader.length_unread_lt hl
      simp only [work, clientWork, setClient, turn, hp, input, length_waiting, reduceCtorEq,
        if_false]
      omega
  | thread l t hl h =>
    obtain ⟨-, ⟨bs, ht⟩, -, -⟩ := output_of_internal h hl
    have hlt := threadWork_lt h hl hq
    have hle := clientWork_thread hi.behind ht
    simp only [work]
    omega

theorem atEnd_iff : c.atEnd = true ↔ c.thread.running = false ∧ c.input.waiting = [] := by
  simp [atEnd, input]

/-- A thread that runs can go on, when its client has sent everything. -/
theorem thread_goes_on (hi : Joined charset c) (hr : c.thread.running = true)
    (hp : c.client.phase = .reading) : ∃ l c', Quiet charset c l c' := by
  have hs := hi.sent
  unfold Sent at hs
  rw [hp] at hs
  cases hl : c.thread.readLine with
  | some p => exact ⟨_, _, .thread c (.turn (.ok ())) _ rfl (.turn _ _ p.1 p.2 hr hl nofun), rfl⟩
  | none =>
    have hnot := (BufferedReader.readLine_eq_none_iff.mp hl).2
    have hne : c.thread.input.waiting ≠ [] := by
      intro hn
      simp [ServerThread.atEnd, hn, hs.2] at hnot
    have hpos := List.length_pos_iff.mpr hne
    exact ⟨_, _, .thread c (.fill 1) _ rfl (.fill _ 1 hr hl (by decide) hpos), rfl⟩

/-- A client that has not come to its end can go on, or its thread can. -/
theorem client_goes_on (hi : Joined charset c) (hp : c.client.phase ≠ .closed) :
    ∃ l c', Quiet charset c l c' := by
  cases hph : c.client.phase with
  | connected => exact ⟨_, _, .write c hph, rfl⟩
  | written => exact ⟨_, _, .shutdownOutput c hph, rfl⟩
  | closed => exact absurd hph hp
  | reading =>
    cases hr : c.thread.running with
    | true => exact thread_goes_on hi hr hph
    | false =>
      cases hl : c.readLine with
      | some p => exact ⟨_, _, .turn c p.1 p.2 hph hl, rfl⟩
      | none =>
        have hnot := (BufferedReader.readLine_eq_none_iff.mp hl).2
        have hne : c.input.waiting ≠ [] := by
          intro hn
          rw [atEnd_iff.mpr ⟨hr, hn⟩] at hnot
          cases hnot
        have hpos := List.length_pos_iff.mpr hne
        exact ⟨_, _, .fill c 1 hph hl (by decide) hpos, rfl⟩

theorem request_plain : Plain textMarks request ∧ request ≠ [] := by
  decide

theorem response_plain : Plain textMarks response ∧ response ≠ [] := by
  decide

/-- The client was answered, and the thread has seen the request, both in one line. -/
structure Answered (c : Connection) : Prop where
  finished : c.client.phase = .closed ∧ c.thread.running = false
  client : c.client.printed = [responded response]
  thread : c.thread.printed = [submitted request]

theorem printed_of_heard (h : c.Heard) (hnil : c.client.br.linesWith byteMarks [] = []) :
    c.client.printed = (lines textMarks (decode c.received)).map responded := by
  obtain ⟨ls, hp, hlines, -⟩ := h
  rw [hnil, List.append_nil] at hlines
  rw [hp, BufferedReader.lines_decode, hlines, List.map_map]
  rfl

/-- The thread prints the request as one line. -/
theorem thread_printed (hi : Joined charset c) (hcs : decode (charset request) = request)
    (hr : c.thread.running = false)
    (hw : c.thread.input.written = charset request) : c.thread.printed = [submitted request] := by
  have hdone := hi.thread.1.done hr
  have hfirst := hdone.first
  rw [hw, hcs, lines_plain request_plain.1, if_neg request_plain.2] at hfirst
  have hplain : Plain byteMarks c.thread.received := by
    have hall := BufferedReader.plain_of_decode (charset request)
      (by rw [hcs]; exact request_plain.1)
    have hsub : ∀ b ∈ c.thread.received, b ∈ charset request := fun b hb =>
      hw ▸ List.mem_of_mem_take hb
    exact ⟨fun hb => hall.1 (hsub _ hb), fun hb => hall.2 (hsub _ hb)⟩
  have hp := hdone.printed
  rw [ServerThread.submittedLines_eq, lines_plain hplain] at hp
  by_cases hn : c.thread.received = []
  · simp [hp, hn] at hfirst
  · rw [if_neg hn] at hp
    simp only [List.take_succ_cons, List.take_nil, List.map_cons, List.map_nil] at hp
    rw [hp] at hfirst ⊢
    simpa using hfirst

theorem answered_of_closed (hi : Joined charset c)
    (hcs : decode (charset request) = request ∧ decode (charset response) = response)
    (hp : c.client.phase = .closed) : Answered c := by
  obtain ⟨hend, hnil⟩ := hi.closed hp
  obtain ⟨hr, hwait⟩ := atEnd_iff.mp hend
  have hs := hi.sent
  unfold Sent at hs
  rw [hp] at hs
  have hthread := thread_printed hi hcs.1 hr hs.1
  have hout := hi.thread.1.answer
  rw [hthread, if_neg (by simp)] at hout
  have hrec : c.received = charset response := by
    have happ : c.received ++ c.input.waiting = c.thread.output := List.take_append_drop _ _
    rw [hwait, List.append_nil] at happ
    rw [happ, hout]
  refine ⟨⟨hp, hr⟩, ?_, hthread⟩
  rw [printed_of_heard hi.heard hnil, hrec, hcs.2, lines_plain response_plain.1,
    if_neg response_plain.2]
  rfl

end Connection

structure Server where
  /-- `count`: how many connections `accept()` has returned -/
  count : Nat
  /-- what `start()` prints for them -/
  console : List Text
  /-- the clients that have connected, those first that are accepted first -/
  connections : List Connection
  /-- the exception that ended `start()` -/
  thrown : Option Throwable

namespace Server

def started : Server := ⟨0, [], [], none⟩

inductive Label where
  | connect
  | accept (address : Text)
  | acceptThrows (e : Throwable)
  | connection (i : Nat) (l : Connection.Label)

def Label.isThread : Connection.Label → Bool
  | .thread _ => true
  | _ => false

/-- What is printed for a connection. -/
def announced (count : Nat) (address : Text) : List Text :=
  ["服务器端被连接过的次数：".toList ++ (toString count).toList,
    "当前客户端IP为：".toList ++ address]

/-- The loop of `start()`, the clients and the threads. A client may be ahead of its `accept()`. -/
inductive Step (charset : Charset) : Server → Label → Server → Prop
  | connect (s : Server) :
      Step charset s .connect { s with connections := s.connections ++ [.opened] }
  | accept (s : Server) (address : Text) (ht : s.thrown = none)
      (hc : s.count < s.connections.length) :
      Step charset s (.accept address) { s with
        count := s.count + 1
        console := s.console ++ announced (s.count + 1) address }
  | acceptThrows (s : Server) (e : Throwable) (ht : s.thrown = none) :
      Step charset s (.acceptThrows e) { s with thrown := some e }
  | connection (s : Server) (i : Nat) (l : Connection.Label) (c c' : Connection)
      (hc : s.connections[i]? = some c) (ha : Label.isThread l = true → i < s.count)
      (h : Connection.Step charset c l c') :
      Step charset s (.connection i l) { s with connections := s.connections.set i c' }

variable {charset : Charset} {s t : Server} {l : Label} {ls : List Label} {i : Nat}
  {c : Connection}

def Label.address? : Label → Option Text
  | accept address => some address
  | _ => none

/-- Connections are counted and announced in the order in which they are accepted. -/
theorem announced_run (h : Run (Step charset) started ls s) :
    s.count = (ls.filterMap Label.address?).length ∧ s.count ≤ s.connections.length ∧
      s.console = ((ls.filterMap Label.address?).mapIdx fun i address =>
        announced (i + 1) address).flatten := by
  refine h.history (R := fun ls s => s.count = (ls.filterMap Label.address?).length ∧
    s.count ≤ s.connections.length ∧ s.console =
      ((ls.filterMap Label.address?).mapIdx fun i address => announced (i + 1) address).flatten)
    ?_ ⟨rfl, Nat.le_refl _, rfl⟩
  rintro ls s l t hs ⟨hcount, hle, hconsole⟩
  rw [List.filterMap_append]
  cases hs with
  | connect =>
    refine ⟨by simpa [Label.address?, List.filterMap_cons] using hcount, ?_,
      by simpa [Label.address?, List.filterMap_cons] using hconsole⟩
    rw [List.length_append]
    exact Nat.le_add_right_of_le hle
  | accept address ht hc =>
    refine ⟨by simp [Label.address?, hcount], hc, ?_⟩
    simp [Label.address?, hconsole, hcount, List.mapIdx_append]
  | acceptThrows e ht =>
    exact ⟨by simpa [Label.address?, List.filterMap_cons] using hcount, hle,
      by simpa [Label.address?, List.filterMap_cons] using hconsole⟩
  | connection i l c c' hc ha h =>
    refine ⟨by simpa [Label.address?, List.filterMap_cons] using hcount, ?_,
      by simpa [Label.address?, List.filterMap_cons] using hconsole⟩
    rw [List.length_set]
    exact hle

/-- The step of a connection. -/
def Label.of? (i : Nat) : Label → Option Connection.Label
  | connection j l => if j = i then some l else none
  | _ => none

/-- A connection lives by its own steps. -/
theorem connection_step (h : Step charset s l t)
    (hi : ∀ c, s.connections[i]? = some c →
      Run (Connection.Step charset) .opened (ls.filterMap (Label.of? i)) c)
    (hnew : s.connections[i]? = none → ls.filterMap (Label.of? i) = []) :
    (∀ c, t.connections[i]? = some c →
      Run (Connection.Step charset) .opened ((ls ++ [l]).filterMap (Label.of? i)) c) ∧
    (t.connections[i]? = none → (ls ++ [l]).filterMap (Label.of? i) = []) := by
  rw [List.filterMap_append]
  cases h with
  | connect =>
    have hnil : [Label.connect].filterMap (Label.of? i) = [] := rfl
    rw [hnil, List.append_nil]
    refine ⟨fun c hc => ?_, fun hn => hnew ?_⟩
    · by_cases hlt : i < s.connections.length
      · exact hi c (by rwa [List.getElem?_append_left hlt] at hc)
      · obtain rfl : i = s.connections.length := by
          have hb := (List.getElem?_eq_some_iff.mp hc).1
          rw [List.length_append, List.length_singleton] at hb
          omega
        rw [List.getElem?_concat_length] at hc
        cases hc
        rw [hnew (by simp)]
        exact .start
    · rw [List.getElem?_eq_none_iff, List.length_append] at hn
      exact List.getElem?_eq_none_iff.mpr (by omega)
  | accept address =>
    have hnil : [Label.accept address].filterMap (Label.of? i) = [] := rfl
    rw [hnil, List.append_nil]
    exact ⟨hi, hnew⟩
  | acceptThrows e =>
    have hnil : [Label.acceptThrows e].filterMap (Label.of? i) = [] := rfl
    rw [hnil, List.append_nil]
    exact ⟨hi, hnew⟩
  | connection j l c c' hc ha h =>
    by_cases hj : j = i
    · subst hj
      have hone : [Label.connection j l].filterMap (Label.of? j) = [l] := by simp [Label.of?]
      have hlt := (List.getElem?_eq_some_iff.mp hc).1
      rw [hone]
      refine ⟨fun c₁ hc₁ => ?_, fun hn => ?_⟩
      · rw [List.getElem?_set_self hlt] at hc₁
        cases hc₁
        exact (hi c hc).next h
      · rw [List.getElem?_set_self hlt] at hn
        cases hn
    · have hnil : [Label.connection j l].filterMap (Label.of? i) = [] := by simp [Label.of?, hj]
      rw [hnil, List.append_nil]
      simpa only [List.getElem?_set_ne hj] using ⟨hi, hnew⟩

theorem connection_run (h : Run (Step charset) started ls s) (hc : s.connections[i]? = some c) :
    Run (Connection.Step charset) .opened (ls.filterMap (Label.of? i)) c := by
  refine (h.history (R := fun ls s => (∀ c, s.connections[i]? = some c →
      Run (Connection.Step charset) .opened (ls.filterMap (Label.of? i)) c) ∧
    (s.connections[i]? = none → ls.filterMap (Label.of? i) = [])) ?_ ?_).1 c hc
  · exact fun ls s l t hs hi => connection_step hs hi.1 hi.2
  · exact ⟨by simp [started], fun _ => rfl⟩

/-- Where the network does not fail a connection, its steps are quiet. -/
theorem quiet_run {ls : List Connection.Label} (h : Run (Connection.Step charset) .opened ls c)
    (hq : ∀ l ∈ ls, l.fails = false) : Run (Connection.Quiet charset) .opened ls c := by
  induction h with
  | start => exact .start
  | next hr hs ih =>
    exact .next (ih fun l hl => hq l (List.mem_append_left _ hl)) ⟨hs, hq _ (by simp)⟩

/-- Every connection that the network does not fail ends, after a bounded number of steps, and
when it can go no further its client has printed the answer and its thread the request, each of
them once; what happens on other connections makes no difference. -/
theorem clients_answered (h : Run (Step charset) started ls s)
    (hcs : decode (charset request) = request ∧ decode (charset response) = response)
    (hc : s.connections[i]? = some c) (ha : i < s.count)
    (hq : ∀ l, .connection i l ∈ ls → l.fails = false) :
    (ls.filterMap (Label.of? i)).length ≤
        4 + 2 * (charset request).length + 2 * (charset response).length ∧
      ((∀ l t, Step charset s (.connection i l) t → l.fails = true) → c.Answered) := by
  have hquiet : ∀ l ∈ ls.filterMap (Label.of? i), l.fails = false := by
    intro l hl
    obtain ⟨l', hl', he⟩ := List.mem_filterMap.mp hl
    cases l' with
    | connection j l' =>
      by_cases hj : j = i
      · obtain rfl : l' = l := by simpa [Label.of?, hj] using he
        exact hq l' (hj ▸ hl')
      · simp [Label.of?, hj] at he
    | _ => cases he
  have hrun := quiet_run (connection_run h hc) hquiet
  obtain ⟨hjoined, hlen⟩ := hrun.length_add_le (P := Connection.Joined charset)
    (Connection.work charset)
    (fun c l c' hs hi => ⟨Connection.joined_step hs hi, Connection.work_lt hs hi⟩)
    Connection.joined_opened
  refine ⟨?_, fun hstuck => Connection.answered_of_closed hjoined hcs ?_⟩
  · have hstart : Connection.work charset .opened =
        4 + 2 * (charset request).length + 2 * (charset response).length := by
      simp [Connection.work, Connection.Phase.work, Connection.threadWork, Connection.clientWork,
        Connection.opened, ServerThread.accepted, Connection.input, Pipe.waiting, Pipe.opened,
        Reader.new]
      omega
    omega
  · by_contra hp
    obtain ⟨l, c', hs, hf⟩ := Connection.client_goes_on hjoined hp
    have hstep : Step charset s (.connection i l) _ := .connection s i l c c' hc (fun _ => ha) hs
    rw [hstuck l _ hstep] at hf
    cases hf

namespace Example

open Connection (atEnd_iff output_of_internal)

/-- A connection can always be brought to its end. -/
theorem ends_run (n : Nat) (hn : Connection.work charset c = n)
    (hi : Connection.Joined charset c) :
    ∃ ls c', Run (Connection.Quiet charset) c ls c' ∧ c'.client.phase = .closed := by
  induction n using Nat.strong_induction_on generalizing c with
  | _ n ih =>
    by_cases hp : c.client.phase = .closed
    · exact ⟨[], c, .start, hp⟩
    · obtain ⟨l, c₁, hs⟩ := Connection.client_goes_on hi hp
      obtain ⟨ls, c', hrun, hc'⟩ := ih _ (hn ▸ Connection.work_lt hs hi) rfl
        (Connection.joined_step hs hi)
      exact ⟨_, c', (Run.single hs).append hrun, hc'⟩

/-- The steps of a connection are steps of the server. -/
theorem connections_run {c' : Connection} {ls : List Connection.Label}
    (hc : s.connections = [c]) (ha : 0 < s.count)
    (h : Run (Connection.Quiet charset) c ls c') :
    Run (Step charset) s (ls.map (.connection 0)) { s with connections := [c'] } ∧
      ∀ l ∈ ls, l.fails = false := by
  induction h with
  | start =>
    rw [← hc]
    exact ⟨.start, nofun⟩
  | @next ls c₁ c₂ l _ hs ih =>
    refine ⟨?_, ?_⟩
    · rw [List.map_append]
      exact ih.1.next (.connection { s with connections := [c₁] } 0 l c₁ c₂ rfl (fun _ => ha) hs.1)
    · rintro l' hl'
      rcases List.mem_append.mp hl' with hl' | hl'
      · exact ih.2 l' hl'
      · exact List.mem_singleton.mp hl' ▸ hs.2

/-- A connection that has come to its end stays there. -/
theorem no_step_of_closed {c' : Connection} {l : Connection.Label}
    (hi : Connection.Joined charset c) (hp : c.client.phase = .closed) :
    ¬ Connection.Step charset c l c' := by
  intro h
  cases h with
  | thread l t hl h =>
    have hr := (output_of_internal h hl).1
    rw [(atEnd_iff.mp (hi.closed hp).1).1] at hr
    cases hr
  | write hp' | shutdownOutput hp' | shutdownThrows e hp' | fill n hp' | readThrows e hp'
  | turn data br hp' =>
    rw [hp] at hp'
    cases hp'

/-- The server with its first client. -/
def first : Server := ⟨1, announced 1 "127.0.0.1".toList, [.opened], none⟩

/-- One client, which comes to its end. -/
theorem clients_answered_one : ∃ ls s c, Run (Step encode) started ls s ∧
    s.connections = [c] ∧ c.client.printed = [responded response] ∧
      c.thread.printed = [submitted request] := by
  have hconnect : Step encode started .connect _ := .connect started
  have haccept : Run (Step encode) started _ first :=
    (Run.single hconnect).next (.accept _ "127.0.0.1".toList rfl (by decide))
  have hopened : Connection.Joined encode .opened := Connection.joined_opened
  obtain ⟨ls, c, hrun, hp⟩ := ends_run _ rfl hopened
  have hjoined : Connection.Joined encode c :=
    hrun.invariant (fun _ _ _ hs hi => Connection.joined_step hs hi) hopened
  obtain ⟨hrest, hquiet⟩ := connections_run (s := first) rfl (by decide) hrun
  have h := haccept.append hrest
  have hc : [c][0]? = some c := rfl
  have hanswered := (clients_answered h ⟨decode_encode _, decode_encode _⟩ hc Nat.one_pos
    (fun l hl => hquiet l (by simpa using hl))).2 ?_
  · exact ⟨_, _, c, h, rfl, hanswered.client, hanswered.thread⟩
  · intro l t hs
    cases hs with
    | connection _ _ c₁ c' hc₁ _ hs =>
      obtain rfl : c = c₁ := Option.some.inj hc₁
      exact absurd hs (no_step_of_closed hjoined hp)

end Example

end Server

end SpringDemo.Bio

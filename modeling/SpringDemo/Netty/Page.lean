import SpringDemo.Java.Reader
import SpringDemo.Netty.Group

/-! The page of a client, and the whole chat: the server, the pages, and the frames under way
between them. -/
namespace SpringDemo.Netty

open Java Lib.Lines Lib.Room Lib.Runs Lib.Utf8

inductive ReadyState where
  | connecting
  | opened
  | closed
deriving DecidableEq

inductive PageEvent where
  /-- the parser has come to the text area -/
  | parsed
  | opened
  | message (data : Text)
  | closed
deriving DecidableEq

structure Page where
  /-- whether there is a `window.WebSocket` -/
  webSocket : Bool
  /-- `socket.readyState` -/
  readyState : ReadyState
  /-- what was last put into `responseContent`, none before it is parsed -/
  ta : Option Text
  /-- what was given to `socket.send` -/
  sent : List Text
  alerts : List Text
  log : List PageEvent
deriving DecidableEq

namespace Page

def crlf : Text := ['\r', '\n']

/-- The script in the head of the page. -/
def load (webSocket : Bool) : Page :=
  ⟨webSocket, .connecting, none, [], if webSocket then [] else ["您的浏览器不支持WebSocket".toList], []⟩

/-- `ta.value`, as it is read. -/
def value (p : Page) : Option Text := p.ta.map (normalize textMarks)

def parsed (p : Page) : Page := { p with ta := some [], log := p.log ++ [.parsed] }

def banner : Text := "你当前的浏览器支持WebSocket,请进行后续操作".toList

/-- Without a text area the function throws, here as in those below. -/
def onopen (p : Page) : Page :=
  { p with
    readyState := .opened
    ta := p.ta.map fun _ => banner ++ crlf
    log := p.log ++ [.opened] }

def onmessage (p : Page) (data : Text) : Page :=
  { p with ta := p.value.map fun value => value ++ (data ++ crlf), log := p.log ++ [.message data] }

def onclose (p : Page) : Page :=
  { p with
    readyState := .closed
    ta := p.ta.map fun _ => "WebSocket连接已经关闭".toList ++ crlf
    log := p.log ++ [.closed] }

def send (p : Page) (message : Text) : Page :=
  if p.webSocket then
    if p.readyState = .opened then { p with sent := p.sent ++ [message] }
    else { p with alerts := p.alerts ++ ["WebSocket连接没有建立成功！！".toList] }
  else p

def message? : PageEvent → Option Text
  | .message data => some data
  | _ => none

/-- The data of the messages, in order. -/
def messages (p : Page) : List Text := p.log.filterMap message?

/-- What a message is in the text area. -/
def shown (data : Text) : Text := normalize textMarks data ++ ['\n']

theorem normalize_banner : normalize textMarks (banner ++ crlf) = banner ++ ['\n'] := by
  decide +kernel

variable {p : Page}

theorem messages_parsed (p : Page) : p.parsed.messages = p.messages := by
  simp [parsed, messages, message?]

theorem messages_onopen (p : Page) : p.onopen.messages = p.messages := by
  simp [onopen, messages, message?]

theorem messages_onmessage (p : Page) (data : Text) :
    (p.onmessage data).messages = p.messages ++ [data] := by
  simp [onmessage, messages, message?]

theorem messages_onclose (p : Page) : p.onclose.messages = p.messages := by
  simp [onclose, messages, message?]

theorem messages_send (p : Page) (message : Text) :
    (p.send message).messages = p.messages := by
  unfold send
  split_ifs <;> rfl

theorem messages_of_log {ms : List Text} (h : p.log = .parsed :: .opened :: ms.map .message) :
    p.messages = ms := by
  simp [messages, h, message?, List.filterMap_cons, List.filterMap_map, Function.comp_def]

/-- What was sent before stays sent. -/
theorem sent_send (p : Page) (message : Text) :
    p.sent ++ (p.send message).sent.drop p.sent.length = (p.send message).sent := by
  unfold send
  split_ifs <;> simp

/-- What stands in the text area is not changed by what comes behind it. -/
theorem value_onmessage {text : Text} (h : p.value = some text) (data : Text) :
    (p.onmessage data).value = some (text ++ shown data) := by
  obtain ⟨ta, hta, rfl⟩ := Option.map_eq_some_iff.mp h
  have hcr : textMarks.cr ∉ normalize textMarks ta := cr_not_mem_normalizeFrom false ta
  have hdata : normalize textMarks (data ++ crlf) = shown data :=
    normalizeFrom_append_crlf false data
  rw [value, onmessage, h, Option.map_some, Option.map_some, normalize_append_of_not_mem hcr, hdata]

/-- A page that has been parsed has its text area; if it had it when the connection was opened, it
shows the banner and every message since. -/
structure Shows (p : Page) : Prop where
  ta : .parsed ∈ p.log → p.ta ≠ none
  value : ∀ ms : List Text, p.log = .parsed :: .opened :: ms.map .message →
    p.value = some (banner ++ ['\n'] ++ ms.flatMap shown)

theorem last_of_open {log : List PageEvent} {e : PageEvent} {ms : List Text}
    (h : log ++ [e] = .parsed :: .opened :: ms.map .message) :
    (ms = [] ∧ log = [.parsed] ∧ e = .opened) ∨ ∃ ms' data, ms = ms' ++ [data] ∧
      log = .parsed :: .opened :: ms'.map .message ∧ e = .message data := by
  rcases List.eq_nil_or_concat ms with rfl | ⟨ms', data, rfl⟩
  · have h : log ++ [e] = [.parsed] ++ [.opened] := h
    obtain ⟨hlog, he⟩ := List.append_inj' h rfl
    exact .inl ⟨rfl, hlog, List.singleton_inj.mp he⟩
  · rw [List.concat_eq_append, List.map_append] at h
    have h : log ++ [e] = (.parsed :: .opened :: ms'.map .message) ++ [.message data] := h
    obtain ⟨hlog, he⟩ := List.append_inj' h rfl
    exact .inr ⟨ms', data, List.concat_eq_append, hlog, List.singleton_inj.mp he⟩

theorem shows_load (webSocket : Bool) : Shows (load webSocket) := ⟨nofun, nofun⟩

theorem shows_parsed : Shows p.parsed where
  ta _ := nofun
  value ms h := by
    rcases last_of_open h with ⟨-, -, he⟩ | ⟨_, _, -, -, he⟩ <;> cases he

theorem shows_onopen (h : Shows p) : Shows p.onopen where
  ta hp := by
    have hp : .parsed ∈ p.log := by simpa [onopen] using hp
    simpa [onopen] using h.ta hp
  value ms hlog := by
    rcases last_of_open hlog with ⟨rfl, hp, -⟩ | ⟨_, _, -, -, he⟩
    · obtain ⟨ta, hta⟩ := Option.ne_none_iff_exists'.mp (h.ta (by simp [hp]))
      simp only [onopen, value, hta, Option.map_some, normalize_banner]
      simp
    · cases he

theorem shows_onmessage (h : Shows p) (data : Text) : Shows (p.onmessage data) where
  ta hp := by
    have hp : .parsed ∈ p.log := by simpa [onmessage] using hp
    simpa [onmessage, value] using h.ta hp
  value ms hlog := by
    rcases last_of_open hlog with ⟨-, -, he⟩ | ⟨ms', data', rfl, hp, he⟩
    · cases he
    · cases he
      rw [value_onmessage (h.value ms' hp)]
      simp

theorem shows_onclose (h : Shows p) : Shows p.onclose where
  ta hp := by
    have hp : .parsed ∈ p.log := by simpa [onclose] using hp
    simpa [onclose] using h.ta hp
  value ms hlog := by
    rcases last_of_open hlog with ⟨-, -, he⟩ | ⟨_, _, -, -, he⟩ <;> cases he

theorem shows_send (h : Shows p) (message : Text) : Shows (p.send message) := by
  unfold send
  split_ifs
  · exact ⟨h.ta, h.value⟩
  · exact ⟨h.ta, h.value⟩
  · exact h

end Page

end SpringDemo.Netty

import SpringDemo.Bio.ServerThread

/-! What a thread of the blocking server has printed and answered, in every state that it reaches:
one answer, however many lines there are. -/
namespace SpringDemo.Bio.ServerThread

open Java Lib.Lines Lib.Runs Lib.Utf8

variable {charset : Charset} {s t : ServerThread} {l : Label} {ls : List Label} {line : Bytes}
  {q : Bool} {n : Nat}

/-- The line is the first one of the stream, whatever the client still sends. -/
def Settled (line : Bytes) (s : ServerThread) : Prop :=
  (∀ more, (lines byteMarks (s.received ++ more)).head? = some line) ∨
    s.input.ended = true ∧ s.input.waiting = [] ∧
      (lines byteMarks s.received).head? = some line

/-- Where a thread can be, with what it has printed and answered; `q` tells whether the network
has failed. -/
inductive Reached (charset : Charset) : Bool → ServerThread → Prop
  | reading {q : Bool} {s : ServerThread} (hr : s.running = true) (hs : s.shutIn = false)
      (hbr : s.br = ⟨s.received, false⟩) (hp : s.printed = []) (ho : s.output = [])
      (hc : s.caught = none) : Reached charset q s
  | answered {q : Bool} {s : ServerThread} {line : Bytes} (hr : s.running = true)
      (hs : s.shutIn = true)
      (hl : lines byteMarks s.received = line :: s.br.linesWith byteMarks [])
      (hp : s.printed = [submitted (decode line)]) (ho : s.output = charset response)
      (hf : s.Settled line) (hc : s.caught = none) : Reached charset q s
  | silent {q : Bool} {s : ServerThread} (hr : s.running = false) (he : s.input.ended = true)
      (hw : s.input.waiting = []) (hl : lines byteMarks s.received = []) (hp : s.printed = [])
      (ho : s.output = []) (hc : s.caught = none) : Reached charset q s
  | once {q : Bool} {s : ServerThread} {line : Bytes} (hr : s.running = false)
      (hl : lines byteMarks s.received = [line]) (hp : s.printed = [submitted (decode line)])
      (ho : s.output = charset response) (hf : s.Settled line) (hc : s.caught = none) :
      Reached charset q s
  | twice {q : Bool} {s : ServerThread} {line line' : Bytes} {rest : List Bytes}
      (hr : s.running = false) (hl : lines byteMarks s.received = line :: line' :: rest)
      (hp : s.printed = [submitted (decode line), submitted (decode line')])
      (ho : s.output = charset response) (hf : s.Settled line)
      (hc : s.caught = some alreadyShutdown) : Reached charset q s
  | broken {s : ServerThread} (hr : s.running = false)
      (hp : s.printed = [] ∨ ∃ line rest, lines byteMarks s.received = line :: rest ∧
        s.printed = [submitted (decode line)]) (ho : s.output = []) : Reached charset true s

/-- The reader never gets ahead of the client. -/
def Behind (s : ServerThread) : Prop := s.input.taken ≤ s.input.written.length

theorem received_append_waiting (s : ServerThread) :
    s.received ++ s.input.waiting = s.input.written := List.take_append_drop _ _

theorem Settled.head? (h : s.Settled line) :
    (lines byteMarks s.input.written).head? = some line := by
  rw [← received_append_waiting]
  rcases h with h | ⟨-, hw, h⟩
  · exact h _
  · rw [hw, List.append_nil, h]

theorem received_arrive (hb : s.Behind) (bs : Bytes) :
    ({ s with input := s.input.write bs } : ServerThread).received = s.received :=
  List.take_append_of_le_length hb

theorem received_fill (s : ServerThread) (n : Nat) (br : BufferedReader) :
    ({ s with br := br, input := s.input.take n } : ServerThread).received =
      s.received ++ s.input.waiting.take n := List.take_add

/-- A client that may still send changes nothing about a settled line. -/
theorem Settled.arrive (h : s.Settled line) (hb : s.Behind) (he : s.input.ended = false)
    (bs : Bytes) : Settled line { s with input := s.input.write bs } := by
  rcases h with h | ⟨he', -⟩
  · refine .inl fun more => ?_
    rw [received_arrive hb]
    exact h more
  · rw [he] at he'
    cases he'

theorem Settled.finish (h : s.Settled line) :
    Settled line { s with input := s.input.finish } := by
  rcases h with h | ⟨-, hw, hl⟩
  · exact .inl h
  · exact .inr ⟨rfl, hw, hl⟩

theorem reached_arrive (h : Reached charset q s) (hb : s.Behind) (he : s.input.ended = false)
    (bs : Bytes) : Reached charset q { s with input := s.input.write bs } := by
  have hrec := received_arrive hb bs
  cases h with
  | reading hr hs hbr hp ho hc => exact .reading hr hs (by rw [hrec]; exact hbr) hp ho hc
  | answered hr hs hl hp ho hf hc =>
    exact .answered hr hs (by rw [hrec]; exact hl) hp ho (hf.arrive hb he bs) hc
  | silent hr he' => simp [he] at he'
  | once hr hl hp ho hf hc => exact .once hr (by rw [hrec]; exact hl) hp ho (hf.arrive hb he bs) hc
  | twice hr hl hp ho hf hc =>
    exact .twice hr (by rw [hrec]; exact hl) hp ho (hf.arrive hb he bs) hc
  | broken hr hp ho => exact .broken hr (by rw [hrec]; exact hp) ho

theorem reached_finish (h : Reached charset q s) :
    Reached charset q { s with input := s.input.finish } := by
  cases h with
  | reading hr hs hbr hp ho hc => exact .reading hr hs hbr hp ho hc
  | answered hr hs hl hp ho hf hc => exact .answered hr hs hl hp ho hf.finish hc
  | silent hr he hw hl hp ho hc => exact .silent hr rfl hw hl hp ho hc
  | once hr hl hp ho hf hc => exact .once hr hl hp ho hf.finish hc
  | twice hr hl hp ho hf hc => exact .twice hr hl hp ho hf.finish hc
  | broken hr hp ho => exact .broken hr hp ho

theorem atEnd_of_shutIn (h : s.shutIn = true) : s.atEnd = true := by
  simp [atEnd, h]

theorem reached_fill (h : Reached charset q s) (hr : s.running = true) (hl : s.readLine = none) :
    Reached charset q { s with
      br := s.br.feed (s.input.waiting.take n)
      input := s.input.take n } := by
  cases h with
  | reading _ hs hbr hp ho hc =>
    refine .reading hr hs ?_ hp ho hc
    rw [received_fill, hbr]
    rfl
  | answered _ hs =>
    have he := (BufferedReader.readLine_eq_none_iff.mp hl).2
    rw [atEnd_of_shutIn hs] at he
    cases he
  | silent hr' | once hr' | twice hr' | broken hr' =>
    rw [hr] at hr'
    cases hr'

/-- One round of the loop, from the first line to the answer, or from the answer to the end. -/
theorem reached_turn (h : Reached charset q s) (hr : s.running = true) {data : Option Text}
    {br : BufferedReader} (hl : s.readLine = some (data, br)) (r : Except Throwable Unit) :
    Reached charset (q || (Label.turn r).fails) ({ s with br := br }.turn charset r data) := by
  cases h with
  | reading _ hs hbr hp ho hc =>
    have hwith : ∀ more, s.br.linesWith byteMarks more = lines byteMarks (s.received ++ more) := by
      rw [hbr]
      exact fun more => rfl
    cases data with
    | none =>
      obtain ⟨hnil, -, he⟩ := BufferedReader.linesWith_of_null hl
      rw [hwith, List.append_nil] at hnil
      have hew : s.input.ended = true ∧ s.input.waiting = [] := by simpa [atEnd, hs] using he
      exact .silent rfl hew.1 hew.2 hnil hp ho hc
    | some text =>
      obtain ⟨line, rfl, hline, hset⟩ := BufferedReader.linesWith_of_readLine hl
      rw [hwith, List.append_nil] at hline
      have hf : s.Settled line := by
        rcases hset with hall | he
        · refine .inl fun more => ?_
          rw [← hwith, hall]
          rfl
        · have hew : s.input.ended = true ∧ s.input.waiting = [] := by simpa [atEnd, hs] using he
          exact .inr ⟨hew.1, hew.2, by rw [hline]; rfl⟩
      cases r with
      | ok u =>
        rw [turn_first hs]
        exact .answered hr rfl hline (by rw [hp]; rfl) (by rw [ho]; rfl) hf hc
      | error e =>
        rw [turn_first_fails hs]
        simp only [Label.fails, Bool.or_true]
        exact .broken rfl (.inr ⟨line, _, hline, by rw [hp]; rfl⟩) ho
  | answered _ hs hl' hp ho hf hc =>
    cases data with
    | none =>
      rw [(BufferedReader.linesWith_of_null hl).1] at hl'
      exact .once rfl hl' hp ho hf hc
    | some text =>
      obtain ⟨line', rfl, hline, -⟩ := BufferedReader.linesWith_of_readLine hl
      rw [turn_again hs]
      exact .twice rfl (hl'.trans (congrArg _ hline)) (by rw [hp]; rfl) ho hf rfl
  | silent hr' | once hr' | twice hr' | broken hr' =>
    rw [hr] at hr'
    cases hr'

theorem reached_step (hi : Reached charset q s ∧ s.Behind) (h : Step charset s l t) :
    Reached charset (q || l.fails) t ∧ t.Behind := by
  obtain ⟨hreach, hb⟩ := hi
  cases h with
  | arrive bs he =>
    refine ⟨?_, ?_⟩
    · simpa [Label.fails] using reached_arrive hreach hb he bs
    · exact hb.trans (by simp [Pipe.write])
  | finish =>
    refine ⟨?_, hb⟩
    simpa [Label.fails] using reached_finish hreach
  | fill n hr hl hn hw =>
    refine ⟨?_, ?_⟩
    · simpa [Label.fails] using reached_fill hreach hr hl
    · simp only [Pipe.waiting, List.length_drop] at hw
      simp only [Behind, Pipe.take]
      omega
  | readThrows e hr hl hio =>
    refine ⟨?_, hb⟩
    cases hreach with
    | reading _ hs hbr hp ho hc =>
      simp only [Label.fails, Bool.or_true]
      exact .broken rfl (.inl hp) ho
    | answered _ hs =>
      have he := (BufferedReader.readLine_eq_none_iff.mp hl).2
      rw [atEnd_of_shutIn hs] at he
      cases he
    | silent hr' | once hr' | twice hr' | broken hr' =>
      rw [hr] at hr'
      cases hr'
  | turn r data br hr hl hio =>
    refine ⟨reached_turn hreach hr hl r, ?_⟩
    rw [Behind, (turn_frame charset r data _).1]
    exact hb

theorem reached_run (h : Run (Step charset) accepted ls s) :
    Reached charset (ls.any Label.fails) s ∧ s.Behind := by
  refine h.history (R := fun ls s => Reached charset (ls.any Label.fails) s ∧ s.Behind) ?_ ?_
  · intro ls s l t hs hi
    rw [List.any_append, List.any_cons, List.any_nil, Bool.or_false]
    exact reached_step hi hs
  · exact ⟨.reading rfl rfl rfl rfl rfl rfl, Nat.le_refl _⟩

/-- The first lines of the text that the thread has received, as it prints them. -/
def submittedLines (n : Nat) (s : ServerThread) : List Text :=
  ((lines textMarks (decode s.received)).take n).map submitted

theorem submittedLines_eq (n : Nat) (s : ServerThread) :
    s.submittedLines n =
      ((lines byteMarks s.received).take n).map fun l => submitted (decode l) := by
  rw [submittedLines, BufferedReader.lines_decode, ← List.map_take, List.map_map]
  rfl

/-- What has been printed are the first lines, two at the most. -/
theorem Reached.printed (h : Reached charset q s) : ∃ n ≤ 2, s.printed = s.submittedLines n := by
  cases h with
  | reading hr hs hbr hp ho hc => exact ⟨0, by omega, by simp [hp, submittedLines]⟩
  | answered hr hs hl hp ho hf hc => exact ⟨1, by omega, by simp [submittedLines_eq, hl, hp]⟩
  | silent hr he hw hl hp ho hc => exact ⟨0, by omega, by simp [hp, submittedLines]⟩
  | once hr hl hp ho hf hc => exact ⟨1, by omega, by simp [submittedLines_eq, hl, hp]⟩
  | twice hr hl hp ho hf hc => exact ⟨2, by omega, by simp [submittedLines_eq, hl, hp]⟩
  | broken hr hp ho =>
    rcases hp with hp | ⟨line, rest, hl, hp⟩
    · exact ⟨0, by omega, by simp [hp, submittedLines]⟩
    · exact ⟨1, by omega, by simp [submittedLines_eq, hl, hp]⟩

theorem Reached.output (h : Reached charset q s) :
    s.output = [] ∨ s.output = charset response ∧ s.printed ≠ [] := by
  cases h with
  | reading hr hs hbr hp ho | silent hr he hw hl hp ho | broken hr hp ho => exact .inl ho
  | answered hr hs hl hp ho | once hr hl hp ho | twice hr hl hp ho =>
    exact .inr ⟨ho, by simp [hp]⟩

/-- The thread has closed its socket, after the two lines that it could read or the one or none
that there was. -/
structure Done (charset : Charset) (s : ServerThread) : Prop where
  printed : s.printed = s.submittedLines 2
  first : s.printed.head? = (lines textMarks (decode s.input.written)).head?.map submitted
  caught : s.caught = if s.printed.length = 2 then some alreadyShutdown else none

theorem Reached.done (h : Reached charset false s) (hr : s.running = false) : Done charset s := by
  have hfirst : (lines textMarks (decode s.input.written)).head?.map submitted =
      (lines byteMarks s.input.written).head?.map fun l => submitted (decode l) := by
    rw [BufferedReader.lines_decode, List.head?_map, Option.map_map]
    rfl
  cases h with
  | reading hr' | answered hr' =>
    rw [hr] at hr'
    cases hr'
  | silent _ he hw hl hp ho hc =>
    refine ⟨by simp [submittedLines_eq, hl, hp], ?_, by simp [hp, hc]⟩
    rw [hfirst, ← received_append_waiting, hw, List.append_nil, hl, hp]
    rfl
  | once _ hl hp ho hf hc =>
    refine ⟨by simp [submittedLines_eq, hl, hp], ?_, by simp [hp, hc]⟩
    rw [hfirst, hf.head?, hp]
    rfl
  | twice _ hl hp ho hf hc =>
    refine ⟨by simp [submittedLines_eq, hl, hp], ?_, by simp [hp, hc]⟩
    rw [hfirst, hf.head?, hp]
    rfl

theorem Reached.answer (h : Reached charset false s) :
    s.output = if s.printed = [] then [] else charset response := by
  cases h with
  | reading hr hs hbr hp ho | silent hr he hw hl hp ho => simp [hp, ho]
  | answered hr hs hl hp ho | once hr hl hp ho | twice hr hl hp ho => simp [hp, ho]

/-- Whatever the client sends and however it arrives, the thread prints its first lines, two at the
most, and answers once if it prints any. Without a failure of the network it prints the first line
whole, and a second one only as far as it had been read with the first. -/
theorem answers_once (h : Run (Step charset) accepted ls s) :
    (∃ n ≤ 2, s.printed = s.submittedLines n) ∧
    (s.output = [] ∨ s.output = charset response ∧ s.printed ≠ []) ∧
    ((∀ l ∈ ls, l.fails = false) →
      (s.output = if s.printed = [] then [] else charset response) ∧
      (s.running = false → Done charset s)) := by
  have hreach := (reached_run h).1
  refine ⟨hreach.printed, hreach.output, fun hq => ?_⟩
  have hany : ls.any Label.fails = false := List.any_eq_false.mpr fun l hl => by simp [hq l hl]
  rw [hany] at hreach
  exact ⟨hreach.answer, hreach.done⟩

namespace Example

/-- Two lines in one packet, the second one without an end. -/
def packet : Bytes := [97, 10, 98]

theorem answers_packet_once : ∃ s,
    Run (Step encode) accepted [.arrive packet, .fill 3, .turn (.ok ()), .turn (.ok ())] s ∧
      s.output = encode response ∧ s.printed = s.submittedLines 2 := by
  have harrive : Step encode accepted (.arrive packet) _ := .arrive _ _ rfl
  have hfill := (Run.single harrive).next (.fill _ 3 rfl rfl (by decide) (by decide))
  have hfirst := hfill.next (.turn _ (.ok ()) (some (decode [97])) ⟨[98], false⟩ rfl rfl nofun)
  have h := hfirst.next (.turn _ (.ok ()) (some (decode [98])) .new rfl rfl nofun)
  have hanswer := (answers_once h).2.2 (by simp [Label.fails])
  refine ⟨_, h, ?_, (hanswer.2 rfl).printed⟩
  rw [hanswer.1]
  exact if_neg nofun

end Example

end SpringDemo.Bio.ServerThread

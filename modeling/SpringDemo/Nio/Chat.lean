import SpringDemo.Nio.Delivery
import SpringDemo.Nio.Text

/-! The whole chat: the server, any number of clients with their two threads, and the bytes under
way between them. -/
namespace SpringDemo.Nio

open Java Lib.Runs Lib.Utf8

/-- The server, and for each client its two threads and the two directions of its connection. -/
structure Chat where
  server : ServerState
  /-- the texts that `NioClient.start` has written, each with the room that its channel had -/
  typed : Nat → List (Text × Except Throwable Nat)
  handlers : Nat → ClientState
  /-- what a client's channel has taken and the server has not read -/
  up : Nat → Bytes
  /-- what the server's channel has taken and the client has not read -/
  down : Nat → Bytes

namespace Chat

def started : Chat :=
  ⟨.listening, fun _ => [], fun _ => .connected, fun _ => [], fun _ => []⟩

/-- The writes of a client, as bytes. -/
def writes (s : Chat) (c : Nat) : List (Bytes × Except Throwable Nat) :=
  (s.typed c).map fun w => (encode w.1, w.2)

/-- A read finds a part of what is under way, and the end of the stream only behind all of it. -/
def Finds (bs : Bytes) (incoming : Nat → Incoming) : Prop :=
  (∀ bs', incoming 0 = .ok (some bs') → bs' <+: bs) ∧ (incoming 0 = .ok none → bs = [])

inductive Label where
  | typed (c : Nat) (request : Text)
  | select (ready : List SelectedKey)
  | serve (net : Net)
  | receive (c : Nat) (incoming : Nat → Incoming)

variable (nickname : Nat → Text)

/-- What any of the threads does next. A client that could not write is no longer at its console. -/
inductive Step : Chat → Label → Chat → Prop
  | typed (s : Chat) (c : Nat) (request text : Text) (room : Except Throwable Nat)
      (ht : requests (nickname c) [request] = [text]) (hr : ∀ w ∈ s.typed c, ∃ n, w.2 = .ok n) :
      Step s (.typed c request) { s with
        typed := Function.update s.typed c (s.typed c ++ [(text, room)])
        up := Function.update s.up c (s.up c ++ taken (encode text, room)) }
  | select (s : Chat) (ready : List SelectedKey) (t : ServerState)
      (h : Nio.Step s.server (.select ready) t) : Step s (.select ready) { s with server := t }
  | serve (s : Chat) (net : Net) (t : ServerState) (es : List Event)
      (h : Nio.Step s.server (.next net) t) (hlog : t.log = s.server.log ++ es)
      (hn : ∀ c rest, s.server.selectedKeys = readable c :: rest → Finds (s.up c) net.incoming) :
      Step s (.serve net) { s with
        server := t
        up := fun c => (s.up c).drop (readsOf c es).flatten.length
        down := fun c => s.down c ++ takenBy (.socket c) es }
  | receive (s : Chat) (c : Nat) (incoming : Nat → Incoming) (t : ClientState)
      (es : List ClientEvent) (h : ClientState.Step (s.handlers c) incoming t)
      (hlog : t.log = (s.handlers c).log ++ es) (hf : Finds (s.down c) incoming) :
      Step s (.receive c incoming) { s with
        handlers := Function.update s.handlers c t
        down := Function.update s.down c
          ((s.down c).drop (ClientState.reads es).flatten.length) }

variable {nickname} {s t : Chat} {l : Label} {ls : List Label} {c d : Nat}

/-- What was written has been read or is under way. -/
structure Conserved (s : Chat) : Prop where
  server : Inv s.server
  handlers : ∀ c, (s.handlers c).keys = ClientState.connected.keys
  up : ∀ c, (readsOf c s.server.log).flatten ++ s.up c = (s.writes c).flatMap taken
  down : ∀ c, (ClientState.reads (s.handlers c).log).flatten ++ s.down c =
    takenBy (.socket c) s.server.log

theorem takenBy_append (channel : Channel) (log log' : List Event) :
    takenBy channel (log ++ log') = takenBy channel log ++ takenBy channel log' := by
  simp [takenBy]

theorem append_drop_of_prefix {r x w bs : Bytes} (hw : r ++ x = w) (hb : bs <+: x) :
    (r ++ bs) ++ x.drop bs.length = w := by
  obtain ⟨rest, rfl⟩ := hb
  rw [← hw, List.drop_left]
  simp

/-- What a round reads is a part of what was under way to the channel that it serves. -/
theorem reads_of_round {net : Net} {u v : ServerState} {k : SelectedKey}
    {rest : List SelectedKey} {es : List Event} {up : Nat → Bytes}
    (hk : u.selectedKeys = k :: rest) (hr : Round net { u with selectedKeys := rest } k v)
    (hlog : v.log = u.log ++ es)
    (hn : ∀ c rest, u.selectedKeys = readable c :: rest → Finds (up c) net.incoming) (d : Nat) :
    (readsOf d es).flatten <+: up d := by
  have hes : ∀ es', u.log ++ es' = u.log ++ es → es' = es := fun _ => List.append_cancel_left
  cases hr with
  | acceptThrows | acceptNull | readThrows =>
    obtain rfl := hes [] (by rw [List.append_nil]; exact hlog)
    exact List.nil_prefix
  | accepts =>
    obtain rfl := hes _ hlog
    simp [readsOf, readOf?, List.filterMap_cons]
  | silent c hc r hi hor =>
    obtain rfl := hes _ hlog
    have hnil : (readsOf d [.read c r, .requested c []]).flatten = [] := by
      rcases hor with rfl | rfl <;> by_cases hcd : c = d <;>
        simp [readsOf, readOf?, hcd, List.filterMap_cons]
    rw [hnil]
    exact List.nil_prefix
  | hears c hc bs hi hb =>
    obtain rfl := hes _ hlog
    rw [readsOf_hears]
    by_cases hcd : c = d
    · subst hcd
      rw [if_pos rfl]
      simpa using (List.take_prefix 1024 bs).trans ((hn c rest hk).1 bs hi)
    · rw [if_neg hcd]
      exact List.nil_prefix

/-- What a client reads is a part of what was under way to it. -/
theorem reads_of_receive {u v : ClientState} {incoming : Nat → Incoming} {es : List ClientEvent}
    {bs : Bytes} (hk : u.keys = ClientState.connected.keys) (h : ClientState.Step u incoming v)
    (hlog : v.log = u.log ++ es) (hf : Finds bs incoming) :
    (ClientState.reads es).flatten <+: bs := by
  have hes : ∀ es', u.log ++ es' = u.log ++ es → es' = es := fun _ => List.append_cancel_left
  rcases ClientState.step_cases hk h with ⟨e, -, rfl⟩ | ⟨r, -, hor, rfl⟩ | ⟨bs', hi, -, rfl⟩
  · obtain rfl := hes [] (by rw [List.append_nil]; exact hlog)
    exact List.nil_prefix
  · obtain rfl := hes _ hlog
    rcases hor with rfl | rfl <;>
      simp [ClientState.reads, ClientState.read?, List.filterMap_cons]
  · obtain rfl := hes _ hlog
    have hread : (ClientState.reads [.read (some (bs'.take 1024)), .read (some []),
        .println (decode (bs'.take 1024))]).flatten = bs'.take 1024 := by
      simp [ClientState.reads, ClientState.read?, List.filterMap_cons]
    rw [hread]
    exact (List.take_prefix 1024 bs').trans (hf.1 bs' hi)

theorem log_of_select {u v : ServerState} {ready : List SelectedKey}
    (h : Nio.Step u (.select ready) v) : v.log = u.log := by
  cases h
  rfl

theorem conserved_step (hi : Conserved s) (h : Step nickname s l t) : Conserved t := by
  cases h with
  | typed d request text room ht hr =>
    refine ⟨hi.server, hi.handlers, fun c => ?_, hi.down⟩
    by_cases hc : c = d
    · subst hc
      have hup := hi.up c
      simp only [writes, Function.update_self, List.map_append, List.flatMap_append] at hup ⊢
      rw [← List.append_assoc, hup]
      simp
    · simpa [writes, Function.update_of_ne hc] using hi.up c
  | select ready v h =>
    have hlog := log_of_select h
    exact ⟨inv_step hi.server h, hi.handlers, fun c => by rw [hlog]; exact hi.up c,
      fun c => by rw [hlog]; exact hi.down c⟩
  | serve net v es h hlog hn =>
    refine ⟨inv_step hi.server h, hi.handlers, fun c => ?_, fun c => ?_⟩
    · rcases Nio.step_cases hi.server h with ⟨_, hl, _⟩ | ⟨_, k, rest, hl, _, hk, hr⟩
      · cases hl
      cases hl
      rw [hlog, readsOf_append, List.flatten_append]
      exact append_drop_of_prefix (hi.up c) (reads_of_round hk hr hlog hn c)
    · rw [hlog, takenBy_append, ← hi.down, List.append_assoc]
  | receive d incoming v es h hlog hf =>
    refine ⟨hi.server, fun c => ?_, hi.up, fun c => ?_⟩
    · by_cases hc : c = d
      · subst hc
        simpa using ClientState.keys_step (hi.handlers c) h
      · simpa [Function.update_of_ne hc] using hi.handlers c
    · by_cases hc : c = d
      · subst hc
        simp only [Function.update_self]
        rw [hlog, ClientState.reads_append, List.flatten_append]
        exact append_drop_of_prefix (hi.down c) (reads_of_receive (hi.handlers c) h hlog hf)
      · simpa [Function.update_of_ne hc] using hi.down c

theorem conserved_run (h : Run (Step nickname) started ls s) : Conserved s :=
  h.invariant (fun _ _ _ hs hi => conserved_step hi hs)
    ⟨inv_listening, fun _ => rfl, fun _ => rfl, fun _ => rfl⟩

/-- The server of the chat runs by itself. -/
theorem server_run (h : Run (Step nickname) started ls s) :
    ∃ ls', Run Nio.Step .listening ls' s.server := by
  refine h.simulate Chat.server fun s l t hs => ?_
  cases hs with
  | select ready v h => exact ⟨_, .single h⟩
  | serve net v es h => exact ⟨_, .single h⟩
  | typed | receive => exact ⟨[], .start⟩

/-- So does the thread of each client that prints. -/
theorem handler_run (h : Run (Step nickname) started ls s) (c : Nat) :
    ∃ ls', Run ClientState.Step .connected ls' (s.handlers c) := by
  refine h.simulate (fun s => s.handlers c) fun s l t hs => ?_
  cases hs with
  | receive d incoming v es h =>
    by_cases hc : c = d
    · subst hc
      simpa using ⟨_, Run.single h⟩
    · simpa [Function.update_of_ne hc] using ⟨[], Run.start⟩
  | typed | select | serve => exact ⟨[], .start⟩

def requestedBy? (d : Nat) : Event → Option Text
  | .requested e text => if e = d then some text else none
  | _ => none

/-- What the server has taken from a client as requests, empty ones included. -/
def requestedBy (d : Nat) (log : List Event) : List Text := log.filterMap (requestedBy? d)

def requestedFrom? (c : Nat) : Event → Option Text
  | .requested d text => if d ≠ c then some text else none
  | _ => none

/-- What the server has taken from all clients but one. -/
def requestedFrom (c : Nat) (log : List Event) : List Text := log.filterMap (requestedFrom? c)

theorem requestedBy_append (d : Nat) (log log' : List Event) :
    requestedBy d (log ++ log') = requestedBy d log ++ requestedBy d log' := List.filterMap_append

theorem requestedBy_request (c d : Nat) (reads : List (Option Bytes)) (text : Text)
    (es : List Event) : requestedBy d (reads.map (.read c) ++ [.requested c text] ++ es) =
      (if c = d then [text] else []) ++ requestedBy d es := by
  have hreads : requestedBy d (reads.map (.read c)) = [] := by
    simp [requestedBy, requestedBy?]
  rw [requestedBy_append, requestedBy_append, hreads]
  by_cases hcd : c = d <;> simp [requestedBy, requestedBy?, hcd]

theorem boardCastsOf_request (c d : Nat) (reads : List (Option Bytes)) (text : Text)
    (es : List Event) :
    boardCastsOf d (reads.map (.read c) ++ [.requested c text] ++ es) = boardCastsOf d es := by
  simp [boardCastsOf, boardCastOf?, List.filterMap_cons]

/-- Every request is broadcast, the empty ones apart. -/
theorem flatten_requestedBy {u : ServerState} {ls : List Nio.Label}
    (h : Run Nio.Step .listening ls u) (d : Nat) :
    (requestedBy d u.log).flatten = (boardCastsOf d u.log).flatten := by
  have hcomposed := composed_run h
  generalize u.log = es at hcomposed
  induction hcomposed with
  | listening => rfl
  | accepted | wrote =>
    rw [requestedBy_append, boardCastsOf_append, List.flatten_append, List.flatten_append]
    exact congrArg (· ++ []) ‹_›
  | requested c reads _ ih =>
    rw [requestedBy_append, boardCastsOf_append, List.flatten_append, List.flatten_append, ih,
      requestedBy_request, boardCastsOf_request]
    by_cases htext : textOf reads = []
    · by_cases hcd : c = d <;> simp [htext, hcd, requestedBy, boardCastsOf]
    · by_cases hcd : c = d <;>
        simp [htext, hcd, requestedBy, requestedBy?, boardCastsOf, boardCastOf?,
          List.filterMap_cons]

theorem flatten_addressed (c : Nat) (log : List Event) :
    (log.filterMap (addressed c)).flatten = encode (requestedFrom c log).flatten := by
  induction log with
  | nil => rfl
  | cons e log ih =>
    cases e with
    | requested d text =>
      by_cases hd : d = c
      · simpa [addressed, requestedFrom, requestedFrom?, hd, List.filterMap_cons] using ih
      · by_cases ht : text = [] <;>
          simpa [addressed, requestedFrom, requestedFrom?, hd, ht, List.filterMap_cons] using ih
    | _ => simpa [addressed, requestedFrom, requestedFrom?, List.filterMap_cons] using ih

/-- What was read in whole characters, with what is still under way, is the text that was sent. -/
theorem text_of_whole {reads : List Bytes} {texts : List Text} {text : Text} {rest : Bytes}
    (hd : Decoded reads texts) (hr : ∀ bs ∈ reads, ∃ text', bs = encode text')
    (hin : reads.flatten ++ rest = encode text) : texts.flatten ++ decode rest = text := by
  rw [← encode_flatMap_decode hr, ← hd] at hin
  rw [← decode_encode_append, hin, decode_encode]

theorem flatMap_taken_of_fits {ws : List (Bytes × Except Throwable Nat)} (h : ∀ w ∈ ws, Fits w) :
    ws.flatMap taken = (ws.map Prod.fst).flatten := by
  induction ws with
  | nil => rfl
  | cons w ws ih =>
    obtain ⟨buffer, room⟩ := w
    obtain ⟨n, hn, hle⟩ := h _ List.mem_cons_self
    have hws := ih fun w hw => h w (List.mem_cons_of_mem _ hw)
    obtain rfl : room = .ok n := hn
    simp [taken, hws, List.take_of_length_le hle]

/-- Where no write is short and no read ends within a character, what a client has typed is what
the server has taken from it and what is under way; and what a client has seen, with what is under
way to it, is the greeting and everything that the server has taken from the others since, in the
server's order. -/
theorem console_to_console (h : Run (Step nickname) started ls s) :
    (∀ d, (∀ w ∈ s.writes d, Fits w) →
      (∀ bs ∈ readsOf d s.server.log, ∃ text, bs = encode text) →
      (requestedBy d s.server.log).flatten ++ decode (s.up d) =
        ((s.typed d).map Prod.fst).flatten) ∧
    ∀ c pre post, s.server.log = pre ++ .accepted c :: post →
      (∀ w ∈ writesOn (.socket c) s.server.log, Fits w) →
      (∀ bs ∈ ClientState.reads (s.handlers c).log, ∃ text, bs = encode text) →
      (ClientState.printed (s.handlers c).log).flatten ++ decode (s.down c) =
        greeting ++ (requestedFrom c post).flatten := by
  have hcon := conserved_run h
  obtain ⟨ls', hserver⟩ := server_run h
  refine ⟨fun d hfit hwhole => ?_, fun c pre post hlog hfit hwhole => ?_⟩
  · have hsent : (s.writes d).flatMap taken = encode ((s.typed d).map Prod.fst).flatten := by
      rw [flatMap_taken_of_fits hfit, encode_flatten, writes]
      simp [Function.comp_def]
    rw [flatten_requestedBy hserver]
    exact text_of_whole (Nio.decoded_run hserver d) hwhole ((hcon.up d).trans hsent)
  · obtain ⟨ls'', hhandler⟩ := handler_run h c
    have htaken : takenBy (.socket c) s.server.log =
        encode (greeting ++ (requestedFrom c post).flatten) := by
      have hw := writesTo_of_accepted (routed_run hserver) hlog
      rw [takenBy, flatMap_taken_of_fits hfit]
      rw [writesTo] at hw
      rw [hw, List.flatten_cons, flatten_addressed, encode_append]
    exact text_of_whole (ClientState.decoded_run hhandler) hwhole ((hcon.down c).trans htaken)

namespace Example

open Nio.Example

variable {net : Net} {k : SelectedKey} {u : ServerState} {es : List Event}

/-- The server selects one key and serves it. -/
theorem serves (h : Run (Step nickname) started ls s) (ht : s.server.thrown = none)
    (he : s.server.selectedKeys = []) (hk : k.key ∈ s.server.keys) (hready : k.Ready)
    (hr : Round net s.server k u) (hlog : u.log = s.server.log ++ es)
    (hn : ∀ c, k = readable c → Finds (s.up c) net.incoming) :
    Run (Step nickname) started (ls ++ [.select [k]] ++ [.serve net])
      ⟨u, s.typed, s.handlers, fun c => (s.up c).drop (readsOf c es).flatten.length,
        fun c => s.down c ++ takenBy (.socket c) es⟩ := by
  have hsel : Nio.Step s.server (.select [k]) { s.server with selectedKeys := [k] } := by
    refine .select s.server [k] ht he (by simp) fun k' hk' => ?_
    obtain rfl := List.mem_singleton.mp hk'
    exact ⟨hk, hready⟩
  have hnext : Nio.Step { s.server with selectedKeys := [k] } (.next net) u :=
    step_of_round (inv_step (conserved_run h).server hsel) ht rfl (he ▸ hr)
  refine .next (.next h (.select s [k] _ hsel)) (.serve _ net u es hnext hlog ?_)
  rintro c rest hc
  cases hc
  exact hn c rfl

def nicknames : Nat → Text := fun _ => "cc".toList

/-- Two clients come in, and the first one types a line. -/
theorem asked_run : ∃ ls s, Run (Step nicknames) started ls s ∧ s.server = gathered ∧
    s.typed 0 = [(line, .ok 4096)] ∧ s.handlers 1 = .connected := by
  have hone := serves (.start : Run (Step nicknames) started _ _) rfl rfl (by decide)
    acceptable_ready
    (.accepts (show (calm (.ok none)).accept = .ok true from rfl)) rfl nofun
  have htwo := serves hone rfl rfl (by decide) acceptable_ready
    (.accepts (show (calm (.ok none)).accept = .ok true from rfl)) rfl nofun
  exact ⟨_, _, .next htwo (.typed _ 0 "你".toList line (.ok 4096) requests_line
    (by simp [started])), rfl, rfl, rfl⟩

/-- The greeting and the line reach the second client in one read. -/
def both : Bytes := encode greeting ++ encode line

theorem both_take : both.take 1024 = both ∧ both ≠ [] := by
  decide +kernel

theorem whole_both : ∀ bs ∈ [both, []], ∃ text, bs = encode text := by
  intro bs hbs
  rcases List.mem_pair.mp hbs with rfl | rfl
  · exact ⟨greeting ++ line, (encode_append _ _).symm⟩
  · exact ⟨[], rfl⟩

theorem line_fits : Fits (encode line, .ok 4096) :=
  ⟨4096, rfl, by decide +kernel⟩

theorem greeting_fits : Fits (encode greeting, .ok 4096) :=
  ⟨4096, rfl, length_greeting_le⟩

theorem taken_line : taken (encode line, .ok 4096) = encode line :=
  (taken_eq_iff line_ne_nil.1).mpr line_fits

theorem taken_greeting : taken (encode greeting, .ok 4096) = encode greeting :=
  (taken_eq_iff encode_greeting_ne_nil).mpr greeting_fits

theorem finds_all (bs : Bytes) : Finds bs fun _ => .ok (some bs) := by
  simp [Finds]

/-- The server hears the line. -/
theorem heard_run : ∃ ls s, Run (Step nicknames) started ls s ∧
    s.typed 0 = [(line, .ok 4096)] ∧ s.handlers 1 = .connected ∧
    s.server.log = gathered.log ++ [.read 0 (some (encode line)), .read 0 (some []),
      .requested 0 line, .boardCast 0 line, .wrote (.socket 1) (encode line) (.ok 4096)] := by
  obtain ⟨ls, s, h, hs, hw, hc⟩ := asked_run
  have hup := (conserved_run h).up 0
  rw [hs, writes, hw] at hup
  replace hup : s.up 0 = encode line := by
    simpa [gathered, readsOf, readOf?, taken_line, List.filterMap_cons] using hup
  have hround : Round (calm (.ok (some (encode line)))) s.server (readable 0) _ :=
    .hears 0 (by rw [hs]; decide) (encode line) rfl line_ne_nil.1
  refine ⟨_, _, serves h (by rw [hs]; rfl) (by rw [hs]; rfl) (by rw [hs]; decide)
    (readable_ready 0) hround rfl ?_, ?_, hc, ?_⟩
  · rintro c hc
    cases hc
    rw [hup]
    exact finds_all _
  · exact hw
  · have hdecode : decode (encode line) = line := decode_encode _
    rw [hs, take_line.1, hdecode]
    rfl

/-- The second client sees it. -/
theorem seen_run : ∃ ls s, Run (Step nicknames) started ls s ∧
    s.typed 0 = [(line, .ok 4096)] ∧
    s.server.log = gathered.log ++ [.read 0 (some (encode line)), .read 0 (some []),
      .requested 0 line, .boardCast 0 line, .wrote (.socket 1) (encode line) (.ok 4096)] ∧
    ClientState.reads (s.handlers 1).log = [both, []] := by
  obtain ⟨ls, s, h, hw, hc, hlog⟩ := heard_run
  have hdown := (conserved_run h).down 1
  rw [hc, hlog] at hdown
  replace hdown : s.down 1 = both := by
    simpa [gathered, takenBy, writesOn, writeOn?, both, taken_line, taken_greeting,
      ClientState.reads, ClientState.connected, List.filterMap_cons] using hdown
  obtain ⟨t, ht⟩ : ∃ t, ClientState.Step (s.handlers 1) (fun _ => .ok (some both)) t := by
    rw [hc]
    exact ⟨_, .readable .connected _ ⟨.socket 0, OP_READ⟩ rfl (by decide) rfl⟩
  have hkeys := (conserved_run h).handlers 1
  obtain ⟨es, hes, hreads⟩ : ∃ es, t.log = (s.handlers 1).log ++ es ∧
      ClientState.reads es = [both, []] := by
    rcases ClientState.step_cases hkeys ht with ⟨e, he, _⟩ | ⟨r, hr, hor, _⟩ | ⟨bs, hbs, _, rfl⟩
    · cases he
    · cases hr
      simp [both_take] at hor
    · cases hbs
      refine ⟨_, rfl, ?_⟩
      rw [both_take.1]
      rfl
  refine ⟨_, _, .next h (.receive s 1 _ t es ht hes ?_), hw, hlog, ?_⟩
  · rw [hdown]
    exact finds_all _
  · simp only [Function.update_self]
    rw [hes, ClientState.reads_append, hreads, hc]
    rfl

theorem console_to_console_line : ∃ ls s, Run (Step nicknames) started ls s ∧
    (requestedBy 0 s.server.log).flatten ++ decode (s.up 0) = line ∧
    (ClientState.printed (s.handlers 1).log).flatten ++ decode (s.down 1) = greeting ++ line := by
  obtain ⟨ls, s, h, ht, hlog, hreads⟩ := seen_run
  refine ⟨ls, s, h, ?_, ?_⟩
  · have htyped : ((s.typed 0).map Prod.fst).flatten = line := by
      rw [ht]
      rfl
    rw [← htyped]
    refine (console_to_console h).1 0 ?_ ?_
    · rw [writes, ht]
      simpa using line_fits
    · have hreads0 : readsOf 0 s.server.log = [encode line, []] := by rw [hlog]; rfl
      rw [hreads0]
      exact whole_line
  · refine ((console_to_console h).2 1
      [.accepted 0, .wrote (.socket 0) (encode greeting) (.ok 4096)] _ hlog ?_ ?_).trans ?_
    · rw [hlog]
      simpa [gathered, writesOn, writeOn?, List.filterMap_cons] using ⟨greeting_fits, line_fits⟩
    · rw [hreads]
      exact whole_both
    · rfl

end Example

end Chat

end SpringDemo.Nio

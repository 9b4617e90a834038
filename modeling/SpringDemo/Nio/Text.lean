import SpringDemo.Nio.Client
import SpringDemo.Nio.Routing

/-! What becomes of the text on its way through the channels: each read is decoded by itself. -/
namespace SpringDemo.Nio

open Java Lib.Runs Lib.Utf8

variable {net : Net} {s t : ServerState} {l : Label} {ls : List Label} {k : SelectedKey} {c : Nat}

def readOf? (c : Nat) : Event → Option Bytes
  | .read d (some bs) => if d = c then some bs else none
  | _ => none

/-- What the reads of a channel have returned. -/
def readsOf (c : Nat) (log : List Event) : List Bytes := log.filterMap (readOf? c)

def boardCastOf? (c : Nat) : Event → Option Text
  | .boardCast d text => if d = c then some text else none
  | _ => none

/-- What was passed to `boardCast` for a channel. -/
def boardCastsOf (c : Nat) (log : List Event) : List Text := log.filterMap (boardCastOf? c)

theorem readsOf_append (c : Nat) (log log' : List Event) :
    readsOf c (log ++ log') = readsOf c log ++ readsOf c log' := List.filterMap_append

theorem boardCastsOf_append (c : Nat) (log log' : List Event) :
    boardCastsOf c (log ++ log') = boardCastsOf c log ++ boardCastsOf c log' :=
  List.filterMap_append

/-- What a round that hears something adds to the reads and to the broadcasts of a channel. -/
theorem readsOf_hears (net : Net) (keys : List SelectionKey) (c d : Nat) (bs : Bytes)
    (text : Text) : readsOf c ([.read d (some bs), .read d (some []), .requested d text,
      .boardCast d text] ++ broadcastTo net keys d text) = if d = c then [bs, []] else [] := by
  have hb : readsOf c (broadcastTo net keys d text) = [] := filterMap_broadcastTo _ fun _ _ _ => rfl
  rw [readsOf_append, hb]
  by_cases hdc : d = c <;> simp [readsOf, readOf?, hdc, List.filterMap_cons]

theorem boardCastsOf_hears (net : Net) (keys : List SelectionKey) (c d : Nat) (bs : Bytes)
    (text : Text) : boardCastsOf c ([.read d (some bs), .read d (some []), .requested d text,
      .boardCast d text] ++ broadcastTo net keys d text) = if d = c then [text] else [] := by
  have hb : boardCastsOf c (broadcastTo net keys d text) = [] :=
    filterMap_broadcastTo _ fun _ _ _ => rfl
  rw [boardCastsOf_append, hb]
  by_cases hdc : d = c <;> simp [boardCastsOf, boardCastOf?, hdc, List.filterMap_cons]

/-- The texts are the buffers, each decoded by itself. -/
def Decoded (reads : List Bytes) (texts : List Text) : Prop :=
  texts.flatten = reads.flatMap decode

theorem Decoded.append {reads reads' : List Bytes} {texts texts' : List Text}
    (h : Decoded reads texts) (h' : Decoded reads' texts') :
    Decoded (reads ++ reads') (texts ++ texts') := by
  rw [Decoded, List.flatten_append, List.flatMap_append, h, h']

theorem decoded_round {rest : List SelectedKey}
    (h : Decoded (readsOf c s.log) (boardCastsOf c s.log))
    (hr : Round net { s with selectedKeys := rest } k t) :
    Decoded (readsOf c t.log) (boardCastsOf c t.log) := by
  cases hr with
  | acceptThrows e ha => exact h
  | acceptNull ha => exact h
  | accepts ha =>
    rw [readsOf_append, boardCastsOf_append]
    exact h.append rfl
  | readThrows d hd e hi => exact h
  | silent d hd r hi hr =>
    rw [readsOf_append, boardCastsOf_append]
    refine h.append ?_
    rcases hr with rfl | rfl
    · rfl
    · by_cases hdc : d = c <;> simp [Decoded, readsOf, boardCastsOf, readOf?, boardCastOf?, hdc,
        List.filterMap_cons]
  | hears d hd bs hi hb =>
    rw [readsOf_append, boardCastsOf_append, readsOf_hears, boardCastsOf_hears]
    refine h.append ?_
    by_cases hdc : d = c <;> simp [Decoded, hdc]

theorem decoded_run (h : Run Step .listening ls s) (c : Nat) :
    Decoded (readsOf c s.log) (boardCastsOf c s.log) :=
  run_rule (Q := fun s => Decoded (readsOf c s.log) (boardCastsOf c s.log)) rfl
    (fun _ _ h => h) (fun _ _ _ _ _ _ h hr => decoded_round h hr) h

namespace ClientState

def read? : ClientEvent → Option Bytes
  | .read r => r
  | .println _ => none

def reads (log : List ClientEvent) : List Bytes := log.filterMap read?

def println? : ClientEvent → Option Text
  | .read _ => none
  | .println text => some text

def printed (log : List ClientEvent) : List Text := log.filterMap println?

theorem reads_append (log log' : List ClientEvent) :
    reads (log ++ log') = reads log ++ reads log' := List.filterMap_append

theorem printed_append (log log' : List ClientEvent) :
    printed (log ++ log') = printed log ++ printed log' := List.filterMap_append

theorem decoded_step {s t : ClientState} {incoming : Nat → Incoming}
    (hk : s.keys = connected.keys) (h : Decoded (reads s.log) (printed s.log))
    (hs : Step s incoming t) : Decoded (reads t.log) (printed t.log) := by
  rcases step_cases hk hs with ⟨e, _, rfl⟩ | ⟨r, _, hr, rfl⟩ | ⟨bs, _, _, rfl⟩
  · exact h
  · rw [reads_append, printed_append]
    refine h.append ?_
    rcases hr with rfl | rfl <;>
      simp [Decoded, reads, printed, read?, println?, List.filterMap_cons]
  · rw [reads_append, printed_append]
    refine h.append ?_
    simp [Decoded, reads, printed, read?, println?, List.filterMap_cons]

theorem decoded_run {s : ClientState} {ls : List (Nat → Incoming)}
    (h : Run Step connected ls s) : Decoded (reads s.log) (printed s.log) := by
  have h₀ : connected.keys = connected.keys ∧
      Decoded (reads connected.log) (printed connected.log) := ⟨rfl, rfl⟩
  exact (h.invariant (P := fun s => s.keys = connected.keys ∧
      Decoded (reads s.log) (printed s.log))
    (fun _ _ _ hs hi => ⟨keys_step hi.1 hs, decoded_step hi.1 hi.2 hs⟩) h₀).2

end ClientState

/-- A text that was cut into reads is put together again exactly when no read ends within a
character. -/
theorem Decoded.flatten_eq_iff {reads : List Bytes} {texts : List Text} (h : Decoded reads texts)
    {text : Text} (hin : reads.flatten = encode text) :
    texts.flatten = text ↔ ∀ bs ∈ reads, ∃ text', bs = encode text' := by
  rw [h, flatMap_decode_eq_iff hin]

/-- What a client sends is broadcast unchanged, and what the server sends is printed unchanged,
exactly when no read ends within a character. -/
theorem text_survives_iff (h : Run Step .listening ls s) {texts : List Text}
    (hin : (readsOf c s.log).flatten = (texts.map encode).flatten)
    {ls' : List (Nat → Incoming)} {s' : ClientState} (h' : Run ClientState.Step .connected ls' s')
    {text : Text} (hin' : (ClientState.reads s'.log).flatten = encode text) :
    ((boardCastsOf c s.log).flatten = texts.flatten ↔
      ∀ bs ∈ readsOf c s.log, ∃ text', bs = encode text') ∧
    ((ClientState.printed s'.log).flatten = text ↔
      ∀ bs ∈ ClientState.reads s'.log, ∃ text', bs = encode text') := by
  rw [← encode_flatten] at hin
  exact ⟨(decoded_run h c).flatten_eq_iff hin, (ClientState.decoded_run h').flatten_eq_iff hin'⟩

namespace Example

/-- A text, its bytes, and the same bytes cut in two. -/
def line : Text := "cc : 你".toList

def front : Bytes := (encode line).take 6

def rest : Bytes := (encode line).drop 6

theorem requests_line : requests "cc".toList ["你".toList] = [line] := by
  decide

theorem line_ne_nil : encode line ≠ [] ∧ front ≠ [] ∧ rest ≠ [] := by
  decide +kernel

theorem take_line : (encode line).take 1024 = encode line ∧ front.take 1024 = front ∧
    rest.take 1024 = rest := by
  decide +kernel

theorem whole_line : ∀ bs ∈ [encode line, []], ∃ text, bs = encode text := by
  intro bs hbs
  rcases List.mem_pair.mp hbs with rfl | rfl
  · exact ⟨line, rfl⟩
  · exact ⟨[], rfl⟩

/-- The server reads once more from a client. -/
theorem hears_more (h : Run Step .listening ls s) (ht : s.thrown = none)
    (he : s.selectedKeys = []) (hc : c < s.channels.length) {bs : Bytes} (hb : bs ≠ []) : ∃ t,
    Run Step .listening (ls ++ [.select [readable c], .next (calm (.ok (some bs)))]) t ∧
      t.thrown = none ∧ t.selectedKeys = [] ∧ t.channels = s.channels ∧
      readsOf c t.log = readsOf c s.log ++ [bs.take 1024, []] ∧
      boardCastsOf c t.log = boardCastsOf c s.log ++ [decode (bs.take 1024)] := by
  have hkey : (readable c).key ∈ s.keys := by
    rw [(inv_run h).keys]
    exact mem_watched.mpr (.inr ⟨c, hc, rfl⟩)
  have hmore := run_of_round (inv_run h) ht he hkey (readable_ready c)
    (.hears c hc bs (show (calm (.ok (some bs))).incoming 0 = _ from rfl) hb)
  refine ⟨_, h.append hmore, ht, he, rfl, ?_, ?_⟩
  · rw [readsOf_append, readsOf_hears, if_pos rfl]
  · rw [boardCastsOf_append, boardCastsOf_hears, if_pos rfl]

/-- One read has it all, at the server and at the client. -/
theorem text_survives_line :
    ∃ s, Run Step .listening
        (gathering ++ [.select [readable 0], .next (calm (.ok (some (encode line))))]) s ∧
      ∃ s', Run ClientState.Step .connected [fun _ => .ok (some (encode line))] s' ∧
        (boardCastsOf 0 s.log).flatten = (requests "cc".toList ["你".toList]).flatten ∧
        (ClientState.printed s'.log).flatten = line := by
  obtain ⟨s, h, _, _, _, hreads, _⟩ := hears_more gathered_run rfl rfl
    (show 0 < gathered.channels.length by decide) line_ne_nil.1
  rw [take_line.1] at hreads
  replace hreads : readsOf 0 s.log = [encode line, []] := hreads
  obtain ⟨s', hs'⟩ : ∃ s', ClientState.Step .connected (fun _ => .ok (some (encode line))) s' :=
    ⟨_, .readable .connected _ ⟨.socket 0, OP_READ⟩ rfl (by decide) rfl⟩
  have hreads' : ClientState.reads s'.log = [encode line, []] := by
    rcases ClientState.step_cases rfl hs' with ⟨e, he, _⟩ | ⟨r, hr, hor, _⟩ | ⟨bs, hbs, _, rfl⟩
    · cases he
    · cases hr
      simp [line_ne_nil.1] at hor
    · cases hbs
      rw [ClientState.reads_append, take_line.1]
      rfl
  have hin : (readsOf 0 s.log).flatten =
      ((requests "cc".toList ["你".toList]).map encode).flatten := by
    rw [hreads, requests_line]
    simp
  have hin' : (ClientState.reads s'.log).flatten = encode line := by
    rw [hreads']
    simp
  have hboth := text_survives_iff h hin (.single hs') hin'
  exact ⟨s, h, s', .single hs', hboth.1.mpr (hreads ▸ whole_line),
    hboth.2.mpr (hreads' ▸ whole_line)⟩

/-- Two reads cut the last character of the line. -/
theorem line_cut : ∃ s,
    Run Step .listening (gathering ++ [.select [readable 0], .next (calm (.ok (some front)))] ++
        [.select [readable 0], .next (calm (.ok (some rest)))]) s ∧
      (readsOf 0 s.log).flatten = ((requests "cc".toList ["你".toList]).map encode).flatten ∧
      (boardCastsOf 0 s.log).flatten ≠ (requests "cc".toList ["你".toList]).flatten := by
  obtain ⟨s, h, ht, he, hc, hreads, htexts⟩ := hears_more gathered_run rfl rfl
    (show 0 < gathered.channels.length by decide) line_ne_nil.2.1
  obtain ⟨t, h', _, _, _, hreads', htexts'⟩ := hears_more h ht he
    (show 0 < s.channels.length by rw [hc]; decide) line_ne_nil.2.2
  rw [hreads, take_line.2.1, take_line.2.2] at hreads'
  rw [htexts, take_line.2.1, take_line.2.2] at htexts'
  replace hreads' : readsOf 0 t.log = [front, [], rest, []] := hreads'
  replace htexts' : boardCastsOf 0 t.log = [decode front, decode rest] := htexts'
  have hflat : [front, rest].flatten = encode line := by decide +kernel
  refine ⟨t, h', ?_, ?_⟩
  · rw [hreads', requests_line]
    simpa using hflat
  · rw [htexts', requests_line]
    intro heq
    have hwhole := (flatMap_decode_eq_iff hflat).mp (by simpa using heq)
    obtain ⟨text, htext⟩ := hwhole rest (by simp)
    have hrest : rest = 0xBD :: [0xA0] := by decide +kernel
    rw [hrest] at htext
    exact absurd (isUTF8FirstByte_of_eq_encode htext) (by decide)

end Example

end SpringDemo.Nio

import SpringDemo.Library.Runs
import SpringDemo.Nio.Server

/-! Runs of the chat server: what one round of its loop can come to, and what every round
keeps. -/
namespace SpringDemo.Nio

open Java Lib.Exec Lib.Runs Lib.Utf8

/-- The keys once `n` connections have been accepted. -/
def watched (n : Nat) : List SelectionKey :=
  ⟨.serverSocket, OP_ACCEPT⟩ :: (List.range n).map fun c => ⟨.socket c, OP_READ⟩

def acceptable : SelectedKey := ⟨⟨.serverSocket, OP_ACCEPT⟩, OP_ACCEPT⟩

def readable (c : Nat) : SelectedKey := ⟨⟨.socket c, OP_READ⟩, OP_READ⟩

variable {net : Net} {s t t' : ServerState} {l : Label} {ls : List Label} {k : SelectedKey}
  {n c : Nat} {text : Text}

theorem watched_succ (n : Nat) : watched (n + 1) = watched n ++ [⟨.socket n, OP_READ⟩] := by
  simp [watched, List.range_succ]

theorem mem_watched {key : SelectionKey} : key ∈ watched n ↔
    key = ⟨.serverSocket, OP_ACCEPT⟩ ∨ ∃ c < n, key = ⟨.socket c, OP_READ⟩ := by
  simp [watched, eq_comm]

/-- A new channel gets a key of its own. -/
theorem register_new (n : Nat) : register (watched n) (.socket n) OP_READ = watched (n + 1) := by
  rw [watched_succ, register_of_not_mem]
  intro key hk
  rcases mem_watched.mp hk with rfl | ⟨c, hc, rfl⟩
  · simp
  · simpa using hc.ne

/-- A channel that is registered again after a read keeps the key that it has. -/
theorem register_again (hc : c < n) : register (watched n) (.socket c) OP_READ = watched n := by
  refine register_of_same (mem_watched.mpr (.inr ⟨c, hc, rfl⟩)) ?_
  intro key hk he
  rcases mem_watched.mp hk with rfl | ⟨d, hd, rfl⟩
  · cases he
  · rfl

/-- The operations that a key is selected for are among those that it was registered for. -/
def SelectedKey.Ready (k : SelectedKey) : Prop :=
  (k.ready.accept = true ∨ k.ready.read = true) ∧
    (k.ready.accept = true → k.key.interestOps.accept = true) ∧
    (k.ready.read = true → k.key.interestOps.read = true)

theorem ready_cases (hk : k.key ∈ watched n) (hr : k.Ready) :
    k = acceptable ∨ ∃ c < n, k = readable c := by
  obtain ⟨key, accept, read⟩ := k
  obtain ⟨hor, ha, hrd⟩ := hr
  rcases mem_watched.mp hk with rfl | ⟨c, hc, rfl⟩
  · cases read <;> simp_all [OP_ACCEPT, acceptable]
  · cases accept <;> simp_all [OP_READ, readable]

/-- What a broadcast writes to the channel of a key. -/
def toOther (net : Net) (c : Nat) (text : Text) (key : SelectionKey) : Option Event :=
  match key.channel with
  | .serverSocket => none
  | .socket d =>
    if d = c then none else some (.wrote (.socket d) (encode text) (net.room (.socket d)))

def broadcastTo (net : Net) (keys : List SelectionKey) (c : Nat) (text : Text) : List Event :=
  (net.order keys).filterMap (toOther net c text)

theorem write_run (net : Net) (channel : Channel) (buffer : Bytes) (s : ServerState) :
    write net channel buffer s = ended ((net.room channel).map fun n => min n buffer.length)
      { s with log := s.log ++ [.wrote channel buffer (net.room channel)] } := rfl

/-- One target's exception is printed and goes no further. -/
theorem sendTo_run (net : Net) (c : Nat) (text : Text) (key : SelectionKey) (s : ServerState) :
    sendTo net (.socket c) text key s =
      .ok () { s with log := s.log ++ (toOther net c text key).toList } := by
  unfold sendTo toOther
  cases key.channel with
  | serverSocket => simp
  | socket d =>
    by_cases hd : d = c
    · simp [hd]
    · cases hr : net.room (.socket d) with
      | ok n => simp [hd, catching, bind_run, write_run, hr, Except.map]
      | error e => simp [hd, catching, bind_run, write_run, hr, Except.map, net.room_io _ _ hr]

theorem logAll_run {α : Type} {body : α → Handler Unit} {es : α → List Event}
    (hb : ∀ a s, body a s = .ok () { s with log := s.log ++ es a }) (as : List α)
    (s : ServerState) : as.forM body s = .ok () { s with log := s.log ++ as.flatMap es } :=
  forM_tell (fun es s => { s with log := s.log ++ es }) (by simp) (by simp) hb as s

theorem boardCast_run (net : Net) (c : Nat) (text : Text) (s : ServerState) :
    boardCast net (.socket c) text s =
      .ok () { s with log := s.log ++ broadcastTo net s.keys c text } := by
  rw [boardCast, bind_ok (get_run s), logAll_run (sendTo_run net c text), broadcastTo,
    List.filterMap_eq_flatMap_toList]

theorem tellReads_run (c : Nat) (reads : List (Option Bytes)) (s : ServerState) :
    reads.forM (fun r => tell (.read c r)) s =
      .ok () { s with log := s.log ++ reads.map (.read c) } := by
  have hb : ∀ (r : Option Bytes) (s : ServerState),
      tell (.read c r) s = .ok () { s with log := s.log ++ [.read c r] } := fun _ _ => rfl
  rw [logAll_run hb, List.map_eq_flatMap]

/-- The exception that a write would end with. -/
def failure : Except Throwable Nat → Option Throwable
  | .ok _ => none
  | .error e => some e

/-- What a round over a key can come to, guards included. -/
inductive Round (net : Net) (s : ServerState) : SelectedKey → ServerState → Prop
  | acceptThrows (e : Throwable) (ha : net.accept = .error e) :
      Round net s acceptable { s with thrown := some e }
  | acceptNull (ha : net.accept = .ok false) :
      Round net s acceptable { s with thrown := some .nullPointerException }
  | accepts (ha : net.accept = .ok true) :
      Round net s acceptable { s with
        keys := watched (s.channels.length + 1)
        channels := s.channels ++ [⟨s.channels.length, true⟩]
        thrown := failure (net.room (.socket s.channels.length))
        log := s.log ++ [.accepted s.channels.length,
          .wrote (.socket s.channels.length) (encode greeting)
            (net.room (.socket s.channels.length))] }
  | readThrows (c : Nat) (hc : c < s.channels.length) (e : Throwable)
      (hi : net.incoming 0 = .error e) : Round net s (readable c) { s with thrown := some e }
  | silent (c : Nat) (hc : c < s.channels.length) (r : Option Bytes) (hi : net.incoming 0 = .ok r)
      (hr : r = none ∨ r = some []) :
      Round net s (readable c) { s with log := s.log ++ [.read c r, .requested c []] }
  | hears (c : Nat) (hc : c < s.channels.length) (bs : Bytes)
      (hi : net.incoming 0 = .ok (some bs)) (hb : bs ≠ []) :
      Round net s (readable c) { s with
        log := s.log ++ ([.read c (some (bs.take 1024)), .read c (some []),
          .requested c (decode (bs.take 1024)), .boardCast c (decode (bs.take 1024))] ++
            broadcastTo net s.keys c (decode (bs.take 1024))) }

/-- What every state of the loop has. -/
structure Inv (s : ServerState) : Prop where
  keys : s.keys = watched s.channels.length
  channels : ∀ c < s.channels.length, ⟨c, true⟩ ∈ s.channels
  selected : ∀ k ∈ s.selectedKeys, k.key ∈ s.keys ∧ k.Ready

/-- The new channel is registered before it is greeted. -/
theorem acceptHandler_run (hk : s.keys = watched s.channels.length) (ha : net.accept = .ok true) :
    acceptHandler net s = ended ((net.room (.socket s.channels.length)).map fun _ => ())
      { s with
        keys := watched (s.channels.length + 1)
        channels := s.channels ++ [⟨s.channels.length, true⟩]
        log := s.log ++ [.accepted s.channels.length,
          .wrote (.socket s.channels.length) (encode greeting)
            (net.room (.socket s.channels.length))] } := by
  cases hr : net.room (.socket s.channels.length) <;>
    simp [acceptHandler, accept, bind_run, map_run, ha, tell, registerWith, write_run, hr,
      Except.map, hk, register_new]

theorem acceptHandler_round (hk : s.keys = watched s.channels.length) (ht : s.thrown = none) :
    Round net s acceptable (.after (acceptHandler net s)) := by
  cases ha : net.accept with
  | error e =>
    have h : acceptHandler net s = .error e s := by simp [acceptHandler, accept, bind_run, ha]
    rw [h]
    exact .acceptThrows e ha
  | ok pending =>
    cases pending with
    | false =>
      have h : acceptHandler net s = .error .nullPointerException s := by
        simp [acceptHandler, accept, bind_run, ha]
      rw [h]
      exact .acceptNull ha
    | true =>
      have hround := Round.accepts (s := s) ha
      rw [acceptHandler_run hk ha]
      cases hr : net.room (.socket s.channels.length) <;>
        simpa [hr, failure, ServerState.after, Except.map, ht] using hround

theorem readHandler_run (hk : s.keys = watched s.channels.length) (hc : c < s.channels.length)
    {request : Reading} (hr : readAll net.incoming = (request, .ok ())) :
    readHandler net (readable c).key s =
      .ok () { s with
        log := s.log ++ (request.reads.map (.read c) ++ [.requested c request.text] ++
          if 0 < request.text.length then
            .boardCast c request.text :: broadcastTo net s.keys c request.text
          else []) } := by
  simp only [readHandler, readable, hr]
  rw [bind_ok (tellReads_run c request.reads s)]
  split <;>
    simp_all [bind_run, registerWith, tell, register_again, boardCast_run]

/-- A read that brings nothing leaves no request. -/
theorem readHandler_silent (hk : s.keys = watched s.channels.length) (hc : c < s.channels.length)
    {r : Option Bytes} (hi : net.incoming 0 = .ok r) (hr : r = none ∨ r = some []) :
    readHandler net (readable c).key s =
      .ok () { s with log := s.log ++ [.read c r, .requested c []] } := by
  have hall := readAll_eq net.incoming
  rw [hi] at hall
  rcases hr with rfl | rfl <;> exact readHandler_run hk hc hall

/-- What has been read is passed on, and the loop has found its buffer full. -/
theorem readHandler_hears (hk : s.keys = watched s.channels.length) (hc : c < s.channels.length)
    {bs : Bytes} (hi : net.incoming 0 = .ok (some bs)) (hb : bs ≠ []) :
    readHandler net (readable c).key s =
      .ok () { s with
        log := s.log ++ ([.read c (some (bs.take 1024)), .read c (some []),
          .requested c (decode (bs.take 1024)), .boardCast c (decode (bs.take 1024))] ++
            broadcastTo net s.keys c (decode (bs.take 1024))) } := by
  have hall := readAll_eq net.incoming
  rw [hi] at hall
  obtain ⟨b, bs, rfl⟩ := List.exists_cons_of_ne_nil hb
  have htext : 0 < (decode ((b :: bs).take 1024)).length := by
    rw [List.length_pos_iff, Ne, decode_eq_nil_iff]
    simp
  rw [readHandler_run hk hc hall, if_pos htext]
  rfl

theorem readHandler_round (hk : s.keys = watched s.channels.length)
    (hc : c < s.channels.length) :
    Round net s (readable c) (.after (readHandler net (readable c).key s)) := by
  cases hi : net.incoming 0 with
  | error e =>
    have hall := readAll_eq net.incoming
    rw [hi] at hall
    have h : readHandler net (readable c).key s = .error e s := by
      simp [readHandler, readable, hall, bind_run]
    rw [h]
    exact .readThrows c hc e hi
  | ok r =>
    rcases r with _ | _ | ⟨b, bs⟩
    · rw [readHandler_silent hk hc hi (.inl rfl)]
      exact .silent c hc none hi (.inl rfl)
    · rw [readHandler_silent hk hc hi (.inr rfl)]
      exact .silent c hc (some []) hi (.inr rfl)
    · rw [readHandler_hears hk hc hi (by simp)]
      exact .hears c hc (b :: bs) hi (by simp)

/-- A round serves its key in one of these ways. -/
theorem serve_round (hk : s.keys = watched s.channels.length) (ht : s.thrown = none)
    (hmem : k.key ∈ s.keys) (hr : k.Ready) : Round net s k (.after (serve net k s)) := by
  rw [hk] at hmem
  rcases ready_cases hmem hr with rfl | ⟨c, hc, rfl⟩
  · have h : serve net acceptable s = acceptHandler net s := by
      cases ha : acceptHandler net s <;> simp [serve, acceptable, OP_ACCEPT, ha]
    rw [h]
    exact acceptHandler_round hk ht
  · exact readHandler_round hk hc

/-- Everything that a step can do. -/
theorem step_cases (hi : Inv s) (h : Step s l t) :
    (∃ ready, l = .select ready ∧ s.thrown = none ∧ s.selectedKeys = [] ∧
      (∀ k ∈ ready, k.key ∈ s.keys ∧ k.Ready) ∧ t = { s with selectedKeys := ready }) ∨
    ∃ net k rest, l = .next net ∧ s.thrown = none ∧ s.selectedKeys = k :: rest ∧
      Round net { s with selectedKeys := rest } k t := by
  cases h with
  | select ready ht he hn hk => exact .inl ⟨ready, rfl, ht, he, hk, rfl⟩
  | next net k rest ht hs =>
    obtain ⟨hmem, hr⟩ := hi.selected k (by simp [hs])
    exact .inr ⟨net, k, rest, rfl, ht, hs, serve_round hi.keys ht hmem hr⟩

theorem round_of_next {rest : List SelectedKey} (hi : Inv s) (hs : s.selectedKeys = k :: rest)
    (h : Step s (.next net) t) : Round net { s with selectedKeys := rest } k t := by
  rcases step_cases hi h with ⟨_, hl, _⟩ | ⟨net', k', rest', hl, _, hs', hr⟩
  · cases hl
  · cases hl
    rw [hs] at hs'
    cases hs'
    exact hr

theorem round_unique (h : Round net s k t) (h' : Round net s k t') : t = t' := by
  cases h <;> cases h' <;> grind

/-- What a round can come to is a step of the loop. -/
theorem step_of_round {rest : List SelectedKey} (hi : Inv s) (ht : s.thrown = none)
    (hs : s.selectedKeys = k :: rest) (hr : Round net { s with selectedKeys := rest } k t) :
    Step s (.next net) t := by
  obtain ⟨hmem, hready⟩ := hi.selected k (by simp [hs])
  have hround : Round net { s with selectedKeys := rest } k _ := serve_round hi.keys ht hmem hready
  rw [round_unique hr hround]
  exact .next s net k rest ht hs

theorem inv_listening : Inv .listening where
  keys := rfl
  channels := nofun
  selected := nofun

theorem inv_round {rest : List SelectedKey} (hi : Inv s) (hs : s.selectedKeys = k :: rest)
    (h : Round net { s with selectedKeys := rest } k t) : Inv t := by
  have hrest : ∀ k ∈ rest, k.key ∈ s.keys ∧ k.Ready := fun k hk => hi.selected k (by simp [hs, hk])
  cases h with
  | accepts ha =>
    refine ⟨by simp, ?_, ?_⟩
    · intro c hc
      rcases Nat.lt_succ_iff_lt_or_eq.mp (by simpa using hc) with hlt | rfl
      · exact List.mem_append_left _ (hi.channels c hlt)
      · simp
    · intro k hk
      obtain ⟨hmem, hr⟩ := hrest k hk
      rw [hi.keys] at hmem
      exact ⟨by simp [watched_succ, hmem], hr⟩
  | _ => exact ⟨hi.keys, hi.channels, hrest⟩

theorem inv_step (hi : Inv s) (h : Step s l t) : Inv t := by
  rcases step_cases hi h with ⟨ready, _, _, _, hk, rfl⟩ | ⟨net, k, rest, _, _, hs, hr⟩
  · exact ⟨hi.keys, hi.channels, hk⟩
  · exact inv_round hi hs hr

theorem inv_run (h : Run Step .listening ls s) : Inv s :=
  h.invariant (fun _ _ _ hs hi => inv_step hi hs) inv_listening

/-- What every round preserves, whatever batch it is taken from, holds in every run. -/
theorem run_rule {Q : ServerState → Prop} (hlistening : Q .listening)
    (hselect : ∀ s ready, Q s → Q { s with selectedKeys := ready })
    (hround : ∀ net s k rest t, Inv s → Q s → Round net { s with selectedKeys := rest } k t → Q t)
    (h : Run Step .listening ls s) : Q s := by
  refine (h.invariant (P := fun s => Inv s ∧ Q s) ?_ ⟨inv_listening, hlistening⟩).2
  rintro s l t hs ⟨hi, hq⟩
  refine ⟨inv_step hi hs, ?_⟩
  rcases step_cases hi hs with ⟨ready, _, _, _, _, rfl⟩ | ⟨net, k, rest, _, _, _, hr⟩
  · exact hselect s ready hq
  · exact hround net s k rest t hi hq hr

/-- The loop can select any key that it watches, and serve it. -/
theorem run_of_round (hi : Inv s) (ht : s.thrown = none) (he : s.selectedKeys = [])
    (hk : k.key ∈ s.keys) (hready : k.Ready) (hr : Round net s k t) :
    Run Step s [.select [k], .next net] t := by
  have hs : Step s (.select [k]) { s with selectedKeys := [k] } := by
    refine .select s [k] ht he (by simp) ?_
    intro k' hk'
    obtain rfl := List.mem_singleton.mp hk'
    exact ⟨hk, hready⟩
  refine .next (.single hs) (step_of_round (inv_step hi hs) ht rfl ?_)
  rw [← he]
  exact hr

theorem acceptable_ready : acceptable.Ready := by
  simp [acceptable, SelectedKey.Ready, OP_ACCEPT]

theorem readable_ready (c : Nat) : (readable c).Ready := by
  simp [readable, SelectedKey.Ready, OP_READ]

end SpringDemo.Nio

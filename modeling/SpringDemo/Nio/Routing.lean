import SpringDemo.Library.Room
import SpringDemo.Nio.ServerRuns

/-! Who is sent what: the chat server keeps the rules of a room in which nobody hears himself. -/
namespace SpringDemo.Nio

open Java Lib.Exec Lib.Room Lib.Runs Lib.Utf8

/-- The calls of `write` on a channel, each with the room that it found. -/
def writeOn? (channel : Channel) : Event → Option (Bytes × Except Throwable Nat)
  | .wrote ch buffer room => if ch = channel then some (buffer, room) else none
  | _ => none

def writesOn (channel : Channel) (log : List Event) : List (Bytes × Except Throwable Nat) :=
  log.filterMap (writeOn? channel)

/-- The buffers on which `write` was called for a channel. -/
def writesTo (channel : Channel) (log : List Event) : List Bytes :=
  (writesOn channel log).map Prod.fst

def accepted? : Event → Option Nat
  | .accepted c => some c
  | _ => none

/-- What an event is to the room. -/
def act? : Event → Option (Act Nat Bytes)
  | .accepted c => some (.join c)
  | .requested c text => if text = [] then none else some (.say c (encode text))
  | _ => none

def acts (log : List Event) : List (Act Nat Bytes) := log.filterMap act?

/-- Who comes in is greeted, and who speaks is not heard by himself. -/
def chat : Rules Bytes := ⟨[encode greeting], false⟩

variable {net net' : Net} {s t t' : ServerState} {l : Label} {ls : List Label} {k : SelectedKey}
  {n c d : Nat} {text : Text} {channel : Channel} {log log' : List Event}

@[simp] theorem writesOn_nil : writesOn channel [] = [] := rfl

@[simp] theorem writesOn_append :
    writesOn channel (log ++ log') = writesOn channel log ++ writesOn channel log' := by
  simp [writesOn]

@[simp] theorem writesTo_append :
    writesTo channel (log ++ log') = writesTo channel log ++ writesTo channel log' := by
  simp [writesTo]

@[simp] theorem acts_append : acts (log ++ log') = acts log ++ acts log' := by
  simp [acts]

theorem writeOn?_toOther (net : Net) (c d : Nat) (text : Text) (key : SelectionKey) :
    (toOther net c text key).bind (writeOn? (.socket d)) =
      if key.channel = .socket d ∧ d ≠ c then some (encode text, net.room (.socket d))
      else none := by
  unfold toOther
  cases key.channel with
  | serverSocket => simp
  | socket e =>
    by_cases he : e = c
    · subst e
      simp [eq_comm]
    · by_cases hd : e = d
      · subst e
        simp [he, writeOn?]
      · simp [he, hd, writeOn?]

theorem filterMap_range_eq {α : Type*} (n d : Nat) (x : α) :
    ((List.range n).filterMap fun e => if e = d then some x else none) =
      if d < n then [x] else [] := by
  induction n with
  | zero => simp
  | succ n ih =>
    rw [List.range_succ, List.filterMap_append, ih]
    by_cases hd : n = d
    · simp [hd]
    · have hlt : d < n + 1 ↔ d < n := by omega
      simp [hd, hlt]

/-- Whatever the order of the keys, each other channel is written to once. -/
theorem writesOn_broadcastTo (net : Net) (n c : Nat) (text : Text) (d : Nat) :
    writesOn (.socket d) (broadcastTo net (watched n) c text) =
      if d < n ∧ d ≠ c then [(encode text, net.room (.socket d))] else [] := by
  have hperm := (net.order_perm (watched n)).filterMap
    fun key => (toOther net c text key).bind (writeOn? (.socket d))
  rw [writesOn, broadcastTo, List.filterMap_filterMap]
  simp only [writeOn?_toOther] at hperm ⊢
  by_cases hc : d = c
  · simp [hc]
  · have hw : (watched n).filterMap (fun key => if key.channel = .socket d ∧ d ≠ c then
        some (encode text, net.room (.socket d)) else none) =
          if d < n then [(encode text, net.room (.socket d))] else [] := by
      rw [watched, List.filterMap_cons_none (by simp), List.filterMap_map]
      simpa [hc, Function.comp_def] using
        filterMap_range_eq n d (encode text, net.room (.socket d))
    rw [hw] at hperm
    by_cases hd : d < n
    · simpa [hd, hc] using hperm
    · simpa [hd, hc] using hperm

theorem writesOn_broadcastTo_serverSocket (net : Net) (keys : List SelectionKey) (c : Nat)
    (text : Text) : writesOn .serverSocket (broadcastTo net keys c text) = [] := by
  rw [writesOn, broadcastTo, List.filterMap_filterMap, List.filterMap_eq_nil_iff]
  intro key _
  unfold toOther
  cases key.channel with
  | serverSocket => rfl
  | socket d => by_cases hd : d = c <;> simp [hd, writeOn?]

theorem mem_broadcastTo {e : Event} {keys : List SelectionKey}
    (h : e ∈ broadcastTo net keys c text) :
    ∃ d, d ≠ c ∧ e = .wrote (.socket d) (encode text) (net.room (.socket d)) := by
  obtain ⟨key, _, hk⟩ := List.mem_filterMap.mp h
  unfold toOther at hk
  cases hch : key.channel with
  | serverSocket => simp [hch] at hk
  | socket d =>
    by_cases hd : d = c
    · simp [hch, hd] at hk
    · simp only [hch, hd, if_false, Option.some.injEq] at hk
      exact ⟨d, hd, hk.symm⟩

/-- A broadcast only writes. -/
theorem filterMap_broadcastTo {α : Type} {f : Event → Option α} (keys : List SelectionKey)
    (hf : ∀ channel buffer room, f (.wrote channel buffer room) = none) :
    (broadcastTo net keys c text).filterMap f = [] := by
  rw [List.filterMap_eq_nil_iff]
  intro e he
  obtain ⟨d, _, rfl⟩ := mem_broadcastTo he
  exact hf _ _ _

theorem leave_not_mem_acts (c : Nat) (log : List Event) : .leave c ∉ acts log := by
  intro h
  obtain ⟨e, _, he⟩ := List.mem_filterMap.mp h
  cases e with
  | requested d text => by_cases ht : text = [] <;> simp [act?, ht] at he
  | _ => simp [act?] at he

theorem join_mem_acts_iff (c : Nat) (log : List Event) :
    .join c ∈ acts log ↔ c ∈ log.filterMap accepted? := by
  simp only [acts, List.mem_filterMap]
  refine exists_congr fun e => and_congr_right fun _ => ?_
  cases e with
  | requested d text => by_cases ht : text = [] <;> simp [act?, accepted?, ht]
  | _ => simp [act?, accepted?]

theorem mem_filterMap_accepted? (c : Nat) (log : List Event) :
    c ∈ log.filterMap accepted? ↔ .accepted c ∈ log := by
  rw [List.mem_filterMap]
  constructor
  · rintro ⟨e, he, hec⟩
    cases e with
    | accepted d =>
      cases hec
      exact he
    | _ => cases hec
  · exact fun he => ⟨_, he, rfl⟩

/-- The accepted channels have the numbers from zero on, and each channel was sent what its member
of the room hears. -/
structure Routed (s : ServerState) : Prop where
  ids : s.log.filterMap accepted? = List.range s.channels.length
  heard : ∀ c, writesTo (.socket c) s.log = heard chat c false (acts s.log)
  listening : writesTo .serverSocket s.log = []

theorem Routed.accepted_mem_iff (h : Routed s) : .accepted c ∈ s.log ↔ c < s.channels.length := by
  rw [← mem_filterMap_accepted?, h.ids, List.mem_range]

theorem Routed.present (h : Routed s) (c : Nat) :
    present c false (acts s.log) = decide (c < s.channels.length) := by
  rw [Bool.eq_iff_iff, present_iff_of_staying (leave_not_mem_acts c s.log), join_mem_acts_iff,
    h.ids]
  simp

theorem routed_listening : Routed .listening where
  ids := rfl
  heard _ := rfl
  listening := rfl

/-- What a round adds to the log keeps the channels in step with the room. -/
theorem Routed.append (h : Routed s) {es : List Event}
    (hids : s.log.filterMap accepted? ++ es.filterMap accepted? = List.range t.channels.length)
    (hlog : t.log = s.log ++ es)
    (hes : ∀ c, writesTo (.socket c) es =
      Lib.Room.heard chat c (decide (c < s.channels.length)) (acts es))
    (hl : writesTo .serverSocket es = []) : Routed t where
  ids := by rw [hlog, List.filterMap_append, hids]
  heard c := by rw [hlog, writesTo_append, acts_append, heard_append, h.heard, h.present, hes]
  listening := by rw [hlog, writesTo_append, h.listening, hl, List.append_nil]

theorem routed_round {rest : List SelectedKey} (hi : Inv s) (h : Routed s)
    (hr : Round net { s with selectedKeys := rest } k t) : Routed t := by
  cases hr with
  | acceptThrows e ha => exact ⟨h.ids, h.heard, h.listening⟩
  | acceptNull ha => exact ⟨h.ids, h.heard, h.listening⟩
  | accepts ha =>
    refine h.append ?_ rfl ?_ rfl
    · simp [h.ids, accepted?, List.range_succ, List.filterMap_cons]
    · intro c
      by_cases hc : s.channels.length = c <;>
        simp [writesTo, writesOn, writeOn?, acts, act?, Lib.Room.heard, hears, chat, hc,
          List.filterMap_cons]
  | readThrows c hc e hi' => exact ⟨h.ids, h.heard, h.listening⟩
  | silent c hc r hi' hr =>
    refine h.append ?_ rfl ?_ rfl
    · simp [h.ids, accepted?, List.filterMap_cons]
    · intro d
      simp [writesTo, writesOn, writeOn?, acts, act?, List.filterMap_cons]
  | hears c hc bs hi' hb =>
    have htext : decode (bs.take 1024) ≠ [] := by simpa using hb
    have hacts : acts (broadcastTo net s.keys c (decode (bs.take 1024))) = [] :=
      filterMap_broadcastTo _ fun _ _ _ => rfl
    refine h.append ?_ rfl ?_ ?_
    · rw [List.filterMap_append, filterMap_broadcastTo _ fun _ _ _ => rfl]
      simp [h.ids, accepted?, List.filterMap_cons]
    · intro d
      have hw := writesOn_broadcastTo net s.channels.length c (decode (bs.take 1024)) d
      rw [← hi.keys] at hw
      rw [writesTo_append, acts_append, hacts, writesTo, writesTo, hw]
      by_cases hd : d < s.channels.length ∧ d ≠ c
      · simp [writesOn, writeOn?, acts, act?, Lib.Room.heard, Lib.Room.hears, chat, hd, hd.2.symm,
          htext, List.filterMap_cons]
      · have hno : ¬ (d < s.channels.length ∧ c ≠ d) := fun h => hd ⟨h.1, h.2.symm⟩
        simp [writesOn, writeOn?, acts, act?, Lib.Room.heard, Lib.Room.hears, chat, hd, hno,
          htext, List.filterMap_cons]
    · rw [writesTo_append, writesTo, writesTo, writesOn_broadcastTo_serverSocket]
      rfl

theorem routed_run (h : Run Step .listening ls s) : Routed s :=
  run_rule routed_listening (fun _ _ h => ⟨h.ids, h.heard, h.listening⟩)
    (fun _ _ _ _ _ hi h hr => routed_round hi h hr) h

/-- What reaches a channel of an event after its greeting. -/
def addressed (c : Nat) : Event → Option Bytes
  | .requested d text => if d ≠ c ∧ text ≠ [] then some (encode text) else none
  | _ => none

theorem acts_filterMap_said (c : Nat) (log : List Event) :
    (acts log).filterMap (said chat c) = log.filterMap (addressed c) := by
  rw [acts, List.filterMap_filterMap]
  refine List.filterMap_congr fun e _ => ?_
  cases e with
  | requested d text => by_cases ht : text = [] <;> simp [act?, addressed, said, chat, ht]
  | _ => rfl

/-- The channel's share of the log, from its acceptance on. -/
theorem writesTo_of_accepted (h : Routed s) {pre post : List Event}
    (hlog : s.log = pre ++ .accepted c :: post) :
    writesTo (.socket c) s.log = encode greeting :: post.filterMap (addressed c) := by
  have hids := h.ids
  have hn := List.nodup_range (n := s.channels.length)
  rw [← hids, hlog, List.filterMap_append, List.filterMap_cons_some (by rfl),
    List.nodup_append] at hn
  obtain ⟨_, hpost, hpre⟩ := hn
  have hacts : acts s.log = acts pre ++ .join c :: acts post := by
    rw [hlog, acts_append]
    rfl
  rw [h.heard, hacts, heard_of_joined, acts_filterMap_said]
  · rfl
  · rw [join_mem_acts_iff]
    exact fun hc => hpre c hc c List.mem_cons_self rfl
  · rw [join_mem_acts_iff]
    exact (List.nodup_cons.mp hpost).1
  · exact leave_not_mem_acts c post

/-- A round over a client's key writes nothing to that client. -/
theorem writesTo_self (hr : Round net s (readable c) t) (hk : s.keys = watched s.channels.length) :
    writesTo (.socket c) t.log = writesTo (.socket c) s.log := by
  generalize hrc : readable c = k at hr
  cases hr with
  | accepts ha => cases hrc
  | silent d hd r hi hr => simp [writesTo, writesOn, writeOn?, List.filterMap_cons]
  | hears d hd bs hi hb =>
    cases hrc
    have hw := writesOn_broadcastTo net s.channels.length c (decode (bs.take 1024)) c
    rw [← hk] at hw
    rw [writesTo_append, writesTo_append, writesTo, writesTo, writesTo, hw]
    simp [writesOn, writeOn?, List.filterMap_cons]
  | _ => rfl

/-- The two networks differ in the room of one channel only. -/
structure SameBut (channel : Channel) (net net' : Net) : Prop where
  accept : net'.accept = net.accept
  incoming : net'.incoming = net.incoming
  order : net'.order = net.order
  room : ∀ ch, ch ≠ channel → net'.room ch = net.room ch

theorem writesOn_broadcastTo_same (hn : SameBut channel net net') (keys : List SelectionKey)
    (c : Nat) (text : Text) {ch : Channel} (hch : ch ≠ channel) :
    writesOn ch (broadcastTo net' keys c text) = writesOn ch (broadcastTo net keys c text) := by
  cases ch with
  | serverSocket => rw [writesOn_broadcastTo_serverSocket, writesOn_broadcastTo_serverSocket]
  | socket e =>
    simp only [writesOn, broadcastTo, List.filterMap_filterMap, writeOn?_toOther, hn.order,
      hn.room _ hch]

/-- How one target takes a broadcast makes no difference to anyone else. -/
theorem round_same (hn : SameBut channel net net') (hr : Round net s (readable c) t)
    (hr' : Round net' s (readable c) t') :
    t'.keys = t.keys ∧ t'.selectedKeys = t.selectedKeys ∧ t'.channels = t.channels ∧
      t'.thrown = t.thrown ∧ ∀ ch, ch ≠ channel → writesOn ch t'.log = writesOn ch t.log := by
  have hin := hn.incoming
  generalize hk : readable c = k at hr hr'
  cases hr with
  | acceptThrows | acceptNull | accepts => cases hk
  | readThrows d hd e hi => cases hr' <;> simp_all
  | silent d hd r hi hr => cases hr' <;> grind
  | hears d hd bs hi hb =>
    cases hr' with
    | hears _ _ bs' hi' hb' =>
      obtain rfl : bs = bs' := by simp_all
      refine ⟨rfl, rfl, rfl, rfl, fun ch hch => ?_⟩
      simp only [writesOn_append, writesOn_broadcastTo_same hn _ _ _ hch]
    | _ => grind

/-- The text that these reads make up, each decoded by itself. -/
def textOf (reads : List (Option Bytes)) : Text := reads.flatMap fun r => decode (r.getD [])

/-- A log in which every read belongs to a request, which stands right behind its reads, has their
text and is passed on unless it is empty. -/
inductive Composed : List Event → Prop
  | listening : Composed []
  | accepted {es : List Event} (c : Nat) (h : Composed es) : Composed (es ++ [.accepted c])
  | wrote {es : List Event} (channel : Channel) (buffer : Bytes) (room : Except Throwable Nat)
      (h : Composed es) : Composed (es ++ [.wrote channel buffer room])
  | requested {es : List Event} (c : Nat) (reads : List (Option Bytes)) (h : Composed es) :
      Composed (es ++ (reads.map (.read c) ++ [.requested c (textOf reads)] ++
        if textOf reads = [] then [] else [.boardCast c (textOf reads)]))

theorem Composed.append_wrote (h : Composed log)
    (hw : ∀ e ∈ log', ∃ channel buffer room, e = .wrote channel buffer room) :
    Composed (log ++ log') := by
  induction log' generalizing log with
  | nil => simpa using h
  | cons e es ih =>
    obtain ⟨⟨channel, buffer, room, rfl⟩, hes⟩ := List.forall_mem_cons.mp hw
    simpa using ih (h.wrote channel buffer room) hes

theorem composed_round {rest : List SelectedKey} (h : Composed s.log)
    (hr : Round net { s with selectedKeys := rest } k t) : Composed t.log := by
  cases hr with
  | acceptThrows | acceptNull | readThrows => exact h
  | accepts ha => simpa using (h.accepted s.channels.length).wrote _ _ _
  | silent c hc r hi hr =>
    have htext : textOf [r] = [] := by rcases hr with rfl | rfl <;> simp [textOf]
    simpa [htext] using h.requested c [r]
  | hears c hc bs hi hb =>
    have htext : textOf [some (bs.take 1024), some []] = decode (bs.take 1024) := by simp [textOf]
    have hne : decode (bs.take 1024) ≠ [] := by simpa using hb
    have hrequested := h.requested c [some (bs.take 1024), some []]
    rw [htext, if_neg hne] at hrequested
    refine List.append_assoc s.log _ _ ▸ hrequested.append_wrote fun e he => ?_
    obtain ⟨d, -, rfl⟩ := mem_broadcastTo he
    exact ⟨_, _, _, rfl⟩

/-- What a client is said to have requested is what was read from it. -/
theorem composed_run (h : Run Step .listening ls s) : Composed s.log :=
  run_rule (Q := fun s => Composed s.log) .listening (fun _ _ h => h)
    (fun _ _ _ _ _ _ h hr => composed_round h hr) h

/-- Every channel is written the greeting and then, once each and in their order, the texts of the
others; nothing is written to the listening channel, and no target's failure touches another. -/
theorem chat_routes (h : Run Step .listening ls s) :
    (∀ c pre post, s.log = pre ++ .accepted c :: post →
      writesTo (.socket c) s.log = encode greeting :: post.filterMap (addressed c)) ∧
    (∀ c, .accepted c ∉ s.log → writesTo (.socket c) s.log = []) ∧
    writesTo .serverSocket s.log = [] ∧
    (∀ c rest net t, s.selectedKeys = readable c :: rest → Step s (.next net) t →
      writesTo (.socket c) t.log = writesTo (.socket c) s.log) ∧
    ∀ c rest channel net net' t t', s.selectedKeys = readable c :: rest →
      SameBut channel net net' → Step s (.next net) t → Step s (.next net') t' →
      t'.keys = t.keys ∧ t'.selectedKeys = t.selectedKeys ∧ t'.channels = t.channels ∧
        t'.thrown = t.thrown ∧ ∀ ch, ch ≠ channel → writesOn ch t'.log = writesOn ch t.log := by
  have hi := inv_run h
  have hrouted := routed_run h
  refine ⟨fun c pre post => writesTo_of_accepted hrouted, ?_, hrouted.listening, ?_, ?_⟩
  · intro c hc
    rw [hrouted.heard, heard_of_outside]
    rwa [join_mem_acts_iff, mem_filterMap_accepted?]
  · intro c rest net t hs hstep
    have hself := writesTo_self (round_of_next hi hs hstep) hi.keys
    exact hself
  · intro c rest channel net net' t t' hs hn hstep hstep'
    exact round_same hn (round_of_next hi hs hstep) (round_of_next hi hs hstep')

namespace Example

/-- A network with a connection pending, some bytes to read and room for everything. -/
def calm (incoming : Incoming) : Net where
  accept := .ok true
  incoming _ := incoming
  room _ := .ok 4096
  order := id
  room_io := nofun
  order_perm _ := .refl _

/-- The state of the server when two clients have come in. -/
def gathered : ServerState where
  keys := watched 2
  selectedKeys := []
  channels := [⟨0, true⟩, ⟨1, true⟩]
  thrown := none
  log := [.accepted 0, .wrote (.socket 0) (encode greeting) (.ok 4096),
    .accepted 1, .wrote (.socket 1) (encode greeting) (.ok 4096)]

def gathering : List Label :=
  [.select [acceptable], .next (calm (.ok none)), .select [acceptable], .next (calm (.ok none))]

theorem gathered_run : Run Step .listening gathering gathered := by
  have hone := run_of_round inv_listening rfl rfl (by decide) acceptable_ready
    (.accepts (show (calm (.ok none)).accept = .ok true from rfl))
  have htwo := run_of_round (inv_run hone) rfl rfl (by decide) acceptable_ready
    (.accepts (show (calm (.ok none)).accept = .ok true from rfl))
  exact hone.append htwo

def hello : Bytes := encode "hello".toList

/-- The second client is sent the greeting and what the first one says. -/
theorem chat_routes_hello : ∃ s,
    Run Step .listening (gathering ++ [.select [readable 0], .next (calm (.ok (some hello)))]) s ∧
      writesTo (.socket 1) s.log = [encode greeting, hello] := by
  have hhello := run_of_round (inv_run gathered_run) rfl rfl (by decide) (readable_ready 0)
    (.hears 0 (by decide) hello (show (calm (.ok (some hello))).incoming 0 = _ from rfl)
      (by simp [hello]))
  have h := gathered_run.append hhello
  refine ⟨_, h, ?_⟩
  have htake : hello.take 1024 = hello := by decide
  have hdecode : decode hello = "hello".toList := decode_encode _
  have hb : (broadcastTo (calm (.ok (some hello))) gathered.keys 0 "hello".toList).filterMap
      (addressed 1) = [] := filterMap_broadcastTo _ fun _ _ _ => rfl
  rw [(chat_routes h).1 1 [.accepted 0, .wrote (.socket 0) (encode greeting) (.ok 4096)] _ rfl,
    htake, hdecode]
  simp only [List.append_eq, List.filterMap_append, hb]
  rfl

end Example

end SpringDemo.Nio

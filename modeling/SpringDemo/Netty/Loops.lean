import SpringDemo.Netty.Group

/-! The event loops: the handlers of channels on different loops run at the same time, and a text
frame takes one step for each member of the group. -/
namespace SpringDemo.Netty

open Java Lib.Room Lib.Runs Lib.Utf8

/-- A text frame given to the group. -/
structure Broadcast where
  channel : Nat
  tws : Text
  /-- the members of the group when it began -/
  started : List Nat
  /-- the length of the log when it began -/
  since : Nat

/-- How far a loop has come in `writeAndFlush` over the group. -/
structure Iteration where
  number : Nat
  broadcast : Broadcast
  /-- the channels that the iterator has returned -/
  written : List Nat

/-- A write that one loop has left to the loop of the channel. -/
structure Task where
  channel : Nat
  number : Nat
  tws : Text

structure Loops where
  server : ServerState
  /-- the broadcasts, in the order in which they began -/
  sent : List Broadcast
  /-- the broadcast that a loop is in -/
  running : Nat → Option Iteration
  /-- what is queued on a loop -/
  tasks : Nat → List Task
  /-- the numbers of the broadcasts that a channel was written, in order -/
  received : Nat → List Nat

/-- The channel in whose handler an event is served. -/
def Label.channel : Label → Nat
  | .active c | .inactive c | .message c _ _ | .readComplete c => c

/-- The same surroundings, with this order for the group. -/
def Env.ordered (env : Env) {group written : List Nat} (h : written.Perm group) : Env := { env with
  order := fun group' => if group' = group then written else group'
  order_perm := fun group' => by
    split
    · rename_i hg
      exact hg ▸ h
    · exact .refl _ }

namespace Broadcast

/-- The channel was in the group at some time since the broadcast began. -/
def Visits (b : Broadcast) (log : List Event) (d : Nat) : Prop :=
  d ∈ b.started ∨ .active d ∈ log.drop b.since

/-- The channel was in the group when the broadcast began, and is still. -/
def Stayed (b : Broadcast) (log : List Event) (d : Nat) : Prop :=
  d ∈ b.started ∧ .inactive d ∉ log

theorem Visits.append {b : Broadcast} {log : List Event} {d : Nat} (h : b.Visits log d)
    (es : List Event) : b.Visits (log ++ es) d := by
  rcases h with h | h
  · exact .inl h
  · rw [Visits, List.drop_append]
    exact .inr (List.mem_append_left _ h)

theorem Stayed.of_append {b : Broadcast} {log es : List Event} {d : Nat}
    (h : b.Stayed (log ++ es) d) : b.Stayed log d :=
  ⟨h.1, fun he => h.2 (List.mem_append_left _ he)⟩

end Broadcast

namespace Loops

/-- A closed channel is written nothing. -/
def deliver (s : Loops) (task : Task) : Loops :=
  if (s.server.connections task.channel).stage.live then
    { s with
      server := s.server.tell [.wrote task.channel task.tws]
      received := Function.update s.received task.channel
        (s.received task.channel ++ [task.number]) }
  else s

variable (loop : Nat → Nat)

/-- `channel.writeAndFlush`: within the channel's own loop it is done at once. -/
def submit (s : Loops) (ℓ : Nat) (task : Task) : Loops :=
  if loop task.channel = ℓ then s.deliver task
  else { s with
    tasks := Function.update s.tasks (loop task.channel)
      (s.tasks (loop task.channel) ++ [task]) }

def started : Loops := ⟨.bound, [], fun _ => none, fun _ => [], fun _ => []⟩

inductive Label where
  | handle (l : Netty.Label)
  | text (c : Nat) (env : Env) (fin : Bool) (content : Bytes)
  | next (ℓ d : Nat)
  | finish (ℓ : Nat)
  | task (ℓ : Nat)

/-- A loop runs one handler or task after the other. The iterator over the group returns each
channel that stays in it once, and may or may not return one that comes or goes meanwhile. -/
inductive Step : Loops → Label → Loops → Prop
  | handle (s : Loops) (l : Netty.Label) (t : ServerState) (hl : ¬ l.IsText)
      (hr : s.running (loop l.channel) = none) (h : Netty.Step s.server l t) :
      Step s (.handle l) { s with server := t }
  | text (s : Loops) (c : Nat) (env : Env) (fin : Bool) (content : Bytes)
      (hr : s.running (loop c) = none) (hs : (s.server.connections c).stage = .webSocket) :
      Step s (.text c env fin content) { s with
        server := s.server.tell [.broadcast c (decode content) (answer env c (decode content))]
        sent := s.sent ++
          [⟨c, answer env c (decode content), s.server.group, s.server.log.length⟩]
        running := Function.update s.running (loop c) (some ⟨s.sent.length,
          ⟨c, answer env c (decode content), s.server.group, s.server.log.length⟩, []⟩) }
  | next (s : Loops) (ℓ d : Nat) (it : Iteration) (hr : s.running ℓ = some it)
      (hv : it.broadcast.Visits s.server.log d) (hd : d ∉ it.written) :
      Step s (.next ℓ d) (submit loop { s with
        running := Function.update s.running ℓ (some { it with written := it.written ++ [d] }) }
        ℓ ⟨d, it.number, it.broadcast.tws⟩)
  | finish (s : Loops) (ℓ : Nat) (it : Iteration) (hr : s.running ℓ = some it)
      (hd : ∀ d, it.broadcast.Stayed s.server.log d → d ∈ it.written) :
      Step s (.finish ℓ) { s with running := Function.update s.running ℓ none }
  | task (s : Loops) (ℓ : Nat) (task : Task) (rest : List Task) (hr : s.running ℓ = none)
      (ht : s.tasks ℓ = task :: rest) :
      Step s (.task ℓ) (deliver { s with tasks := Function.update s.tasks ℓ rest } task)

variable {loop} {s t : Loops} {l : Label} {ls : List Label} {ℓ d : Nat} {task : Task}

@[simp] theorem sent_deliver : (s.deliver task).sent = s.sent := by
  unfold deliver
  split <;> rfl

@[simp] theorem running_deliver : (s.deliver task).running = s.running := by
  unfold deliver
  split <;> rfl

@[simp] theorem tasks_deliver : (s.deliver task).tasks = s.tasks := by
  unfold deliver
  split <;> rfl

@[simp] theorem connections_deliver :
    (s.deliver task).server.connections = s.server.connections := by
  unfold deliver
  split <;> rfl

@[simp] theorem group_deliver : (s.deliver task).server.group = s.server.group := by
  unfold deliver
  split <;> rfl

theorem log_deliver (s : Loops) (task : Task) :
    ∃ es, (s.deliver task).server.log = s.server.log ++ es ∧
      ∀ d, .active d ∉ es ∧ .inactive d ∉ es := by
  unfold deliver
  split
  · exact ⟨_, rfl, by simp⟩
  · exact ⟨[], by simp, by simp⟩

@[simp] theorem sent_submit : (submit loop s ℓ task).sent = s.sent := by
  unfold submit
  split <;> simp

@[simp] theorem running_submit : (submit loop s ℓ task).running = s.running := by
  unfold submit
  split <;> simp

@[simp] theorem connections_submit :
    (submit loop s ℓ task).server.connections = s.server.connections := by
  unfold submit
  split <;> simp

@[simp] theorem group_submit : (submit loop s ℓ task).server.group = s.server.group := by
  unfold submit
  split <;> simp

theorem log_submit (loop : Nat → Nat) (s : Loops) (ℓ : Nat) (task : Task) :
    ∃ es, (submit loop s ℓ task).server.log = s.server.log ++ es ∧
      ∀ d, .active d ∉ es ∧ .inactive d ∉ es := by
  unfold submit
  split
  · exact log_deliver s task
  · exact ⟨[], by simp, by simp⟩

/-- The log tells where each channel is in its life, and whoever is given a broadcast has come. -/
structure Lively (s : Loops) : Prop where
  inv : Inv s.server
  active : ∀ d, .active d ∈ s.server.log ↔ (s.server.connections d).stage ≠ .unconnected
  inactive : ∀ d, .inactive d ∈ s.server.log ↔ (s.server.connections d).stage = .inactive
  started : ∀ b ∈ s.sent, ∀ d ∈ b.started, .active d ∈ s.server.log

theorem lively_started : Lively started where
  inv := inv_bound
  active := by simp [started, ServerState.bound]
  inactive := by simp [started, ServerState.bound]
  started := nofun

theorem Lively.live (h : Lively s) {b : Broadcast} (hb : b ∈ s.sent)
    (hd : b.Stayed s.server.log d) : (s.server.connections d).stage.live = true := by
  have ha := (h.active d).mp (h.started b hb d hd.1)
  have hi := mt (h.inactive d).mpr hd.2
  cases hst : (s.server.connections d).stage <;> simp_all [Stage.live]

/-- An event at which nobody comes or goes. -/
theorem Lively.tell (h : Lively s) {es : List Event} (hi : Inv t.server)
    (hst : ∀ d, (t.server.connections d).stage = (s.server.connections d).stage ∨
      (s.server.connections d).stage = .http ∧ (t.server.connections d).stage = .webSocket)
    (hlog : t.server.log = s.server.log ++ es) (he : ∀ d, .active d ∉ es ∧ .inactive d ∉ es)
    (hs : ∀ b ∈ t.sent, b ∈ s.sent ∨ b.started = s.server.group) : Lively t where
  inv := hi
  active d := by
    rw [hlog, List.mem_append, or_iff_left (he d).1, h.active]
    rcases hst d with hd | ⟨hd, hd'⟩
    · rw [hd]
    · simp [hd, hd']
  inactive d := by
    rw [hlog, List.mem_append, or_iff_left (he d).2, h.inactive]
    rcases hst d with hd | ⟨hd, hd'⟩
    · rw [hd]
    · simp [hd, hd']
  started b hb d hd := by
    rw [hlog]
    refine List.mem_append_left _ ?_
    rcases hs b hb with hb | hb
    · exact h.started b hb d hd
    · rw [hb, h.inv.group] at hd
      rw [h.active]
      intro hst
      simp [hst, Stage.live] at hd

theorem inv_congr {u v : ServerState} (h : Inv u) (hc : v.connections = u.connections)
    (hg : v.group = u.group) : Inv v :=
  ⟨by rw [hc]; exact h.handshaker, by rw [hc, hg]; exact h.group, by rw [hg]; exact h.nodup⟩

theorem lively_handle (h : Lively s) {l : Netty.Label} {u : ServerState}
    (hr : Round s.server l u) : Lively { s with server := u } := by
  have hi := inv_round h.inv hr
  have hs : ∀ b ∈ s.sent, b ∈ s.sent ∨ b.started = s.server.group := fun b hb => .inl hb
  cases hr with
  | active c hc =>
    refine ⟨hi, fun d => ?_, fun d => ?_, fun b hb d hd => ?_⟩
    · by_cases hd : d = c <;> simp [hd, h.active]
    · by_cases hd : d = c <;> simp [hd, h.inactive, hc]
    · exact List.mem_append_left _ (h.started b hb d hd)
  | inactive c hc =>
    refine ⟨hi, fun d => ?_, fun d => ?_, fun b hb d hd => ?_⟩
    · by_cases hd : d = c
      · cases hst : (s.server.connections d).stage <;> simp_all [Stage.live, h.active]
      · simp [hd, h.active]
    · by_cases hd : d = c <;> simp [hd, h.inactive]
    · exact List.mem_append_left _ (h.started b hb d hd)
  | upgraded c env req hc =>
    refine h.tell hi (fun d => ?_) rfl (by simp) hs
    by_cases hd : d = c <;> simp [hd, hc]
  | frame c env frame =>
    exact h.tell hi (fun _ => .inl rfl) rfl (by cases frame <;> simp [answers]) hs
  | _ => exact h.tell hi (fun _ => .inl (by simp)) rfl (by simp) hs

theorem lively_step (hi : Lively s) (h : Step loop s l t) : Lively t := by
  cases h with
  | handle l u hl hr h => exact lively_handle hi (round_of_step hi.inv h)
  | text c env fin content hr hs =>
    refine hi.tell (inv_congr hi.inv rfl rfl) (fun _ => .inl rfl) rfl (by simp) fun b hb => ?_
    rcases List.mem_append.mp hb with hb | hb
    · exact .inl hb
    · rw [List.mem_singleton.mp hb]
      exact .inr rfl
  | next ℓ d it hr hv hd =>
    obtain ⟨es, hlog, he⟩ := log_submit loop _ ℓ ⟨d, it.number, it.broadcast.tws⟩
    exact hi.tell (inv_congr hi.inv (by simp) (by simp)) (fun _ => .inl (by simp)) hlog he
      fun b hb => .inl (by simpa using hb)
  | finish ℓ it hr hd => exact ⟨hi.inv, hi.active, hi.inactive, hi.started⟩
  | task ℓ task rest hr ht =>
    obtain ⟨es, hlog, he⟩ := log_deliver _ task
    exact hi.tell (inv_congr hi.inv (by simp) (by simp)) (fun _ => .inl (by simp)) hlog he
      fun b hb => .inl (by simpa using hb)

theorem log_of_round {u v : ServerState} {l : Netty.Label} (h : Round u l v) :
    ∃ es, v.log = u.log ++ es := by
  cases h <;> exact ⟨_, rfl⟩

/-- What is queued for a channel. -/
def pending (loop : Nat → Nat) (s : Loops) (d : Nat) : List Nat :=
  ((s.tasks (loop d)).filter fun task => task.channel = d).map Task.number

/-- What a channel was written, and then what is queued for it. -/
def got (loop : Nat → Nat) (s : Loops) (d : Nat) : List Nat := s.received d ++ s.pending loop d

/-- The loop on which a broadcast began. -/
def source (loop : Nat → Nat) (s : Loops) (n : Nat) : Option Nat :=
  s.sent[n]?.map fun b => loop b.channel

/-- The broadcasts are numbered, and a loop queues nothing on itself. -/
structure Numbered (loop : Nat → Nat) (s : Loops) : Prop where
  running : ∀ ℓ it, s.running ℓ = some it → s.sent[it.number]? = some it.broadcast ∧
    loop it.broadcast.channel = ℓ ∧ ∀ n, s.source loop n = some ℓ → n ≤ it.number
  tasks : ∀ ℓ, ∀ task ∈ s.tasks ℓ, loop task.channel = ℓ ∧ s.source loop task.number ≠ some ℓ ∧
    s.sent[task.number]?.map Broadcast.tws = some task.tws

theorem source_lt {n : Nat} (h : s.source loop n = some ℓ) : n < s.sent.length := by
  obtain ⟨b, hb, -⟩ := Option.map_eq_some_iff.mp h
  exact (List.getElem?_eq_some_iff.mp hb).1

theorem source_append {b : Broadcast} {n : Nat} (hn : n < s.sent.length)
    (ht : t.sent = s.sent ++ [b]) : t.source loop n = s.source loop n := by
  rw [source, source, ht, List.getElem?_append_left hn]

theorem source_concat {b : Broadcast} (ht : t.sent = s.sent ++ [b]) :
    t.source loop s.sent.length = some (loop b.channel) := by
  rw [source, ht, List.getElem?_concat_length]
  rfl

theorem Numbered.source_running (hi : Numbered loop s) {it : Iteration}
    (hr : s.running ℓ = some it) : s.source loop it.number = some ℓ := by
  obtain ⟨hb, hℓ, -⟩ := hi.running ℓ it hr
  rw [source, hb, ← hℓ]
  rfl

/-- A new broadcast has the next number. -/
theorem numbered_text (hi : Numbered loop s) {c : Nat} {u : ServerState} {b : Broadcast}
    (hc : b.channel = c) : Numbered loop { s with
      server := u
      sent := s.sent ++ [b]
      running := Function.update s.running (loop c) (some ⟨s.sent.length, b, []⟩) } := by
  refine ⟨fun ℓ it hit => ?_, fun ℓ task ht => ?_⟩
  · by_cases hℓ : ℓ = loop c
    · subst hℓ
      obtain rfl : _ = it := by simpa using hit
      refine ⟨by simp, congrArg loop hc, fun n hn => ?_⟩
      have hlt := source_lt hn
      simp only [List.length_append, List.length_singleton] at hlt
      exact Nat.lt_succ_iff.mp hlt
    · have hit : s.running ℓ = some it := by simpa [hℓ] using hit
      obtain ⟨hb, hloop, hle⟩ := hi.running ℓ it hit
      have hlt := source_lt (hi.source_running hit)
      refine ⟨by simpa [List.getElem?_append_left hlt] using hb, hloop, fun n hn => ?_⟩
      have hn' := source_lt hn
      simp only [List.length_append, List.length_singleton] at hn'
      rcases Nat.lt_succ_iff_lt_or_eq.mp hn' with hn' | rfl
      · exact hle n (by rwa [source_append hn' rfl] at hn)
      · rw [source_concat rfl, hc] at hn
        exact absurd (Option.some.inj hn).symm hℓ
  · obtain ⟨hloop, hsrc, htws⟩ := hi.tasks ℓ task ht
    obtain ⟨b', hb, -⟩ := Option.map_eq_some_iff.mp htws
    have hlt := (List.getElem?_eq_some_iff.mp hb).1
    rw [source_append hlt rfl]
    exact ⟨hloop, hsrc, by simpa [List.getElem?_append_left hlt] using htws⟩

/-- A loop goes on with its broadcast: it writes itself what is for its own channels. -/
theorem numbered_next (hi : Numbered loop s) {it : Iteration} (hr : s.running ℓ = some it)
    (d : Nat) : Numbered loop (submit loop { s with
      running := Function.update s.running ℓ (some { it with written := it.written ++ [d] }) }
      ℓ ⟨d, it.number, it.broadcast.tws⟩) := by
  have hsrc := hi.source_running hr
  obtain ⟨hrun, htasks⟩ := hi
  refine ⟨fun ℓ' it' hit => ?_, fun ℓ' task ht => ?_⟩
  · rw [running_submit] at hit
    simp only [sent_submit, source] at hrun ⊢
    by_cases hℓ : ℓ' = ℓ
    · subst hℓ
      obtain rfl : _ = it' := by simpa using hit
      exact hrun ℓ' it hr
    · exact hrun ℓ' it' (by simpa [hℓ] using hit)
  · have hb := (hrun ℓ it hr).1
    simp only [sent_submit, source] at htasks hsrc ⊢
    unfold submit at ht
    split at ht
    · exact htasks ℓ' task (by simpa using ht)
    · rename_i hd
      by_cases hℓ : ℓ' = loop d
      · subst hℓ
        have ht : task ∈ s.tasks (loop d) ∨ task = ⟨d, it.number, it.broadcast.tws⟩ := by
          simpa using ht
        rcases ht with ht | rfl
        · exact htasks _ task ht
        · refine ⟨rfl, ?_, by rw [hb]; rfl⟩
          rw [hsrc]
          exact fun h => hd (Option.some.inj h).symm
      · exact htasks ℓ' task (by simpa [hℓ] using ht)

theorem numbered_step (hi : Numbered loop s) (h : Step loop s l t) : Numbered loop t := by
  cases h with
  | handle l u hl hr h => exact ⟨hi.running, hi.tasks⟩
  | text c env fin content hr hs => exact numbered_text hi rfl
  | next ℓ d it hr hv hd => exact numbered_next hi hr d
  | finish ℓ it hr hd =>
    refine ⟨fun ℓ' it' hit => ?_, hi.tasks⟩
    by_cases hℓ : ℓ' = ℓ
    · simp [hℓ] at hit
    · exact hi.running ℓ' it' (by simpa [hℓ] using hit)
  | task ℓ task rest hr ht =>
    obtain ⟨hrun, htasks⟩ := hi
    refine ⟨fun ℓ' it' hit => ?_, fun ℓ' task' ht' => ?_⟩
    · rw [running_deliver] at hit
      simpa [source] using hrun ℓ' it' hit
    · simp only [sent_deliver, source, tasks_deliver] at htasks ht' ⊢
      by_cases hℓ : ℓ' = ℓ
      · subst hℓ
        have ht' : task' ∈ rest := by simpa using ht'
        exact htasks ℓ' task' (by rw [ht]; exact List.mem_cons_of_mem _ ht')
      · exact htasks ℓ' task' (by simpa [hℓ] using ht')

theorem received_deliver : (s.deliver task).received d = s.received d ++
    if d = task.channel ∧ (s.server.connections d).stage.live then [task.number] else [] := by
  unfold deliver
  by_cases hd : d = task.channel
  · subst hd
    split <;> simp_all
  · split <;> simp [hd]

theorem received_submit : (submit loop s ℓ task).received d = s.received d ++
    if loop task.channel = ℓ ∧ d = task.channel ∧ (s.server.connections d).stage.live then
      [task.number] else [] := by
  unfold submit
  split
  · rename_i hℓ
    simp [received_deliver, hℓ]
  · rename_i hℓ
    simp [hℓ]

theorem pending_submit : (submit loop s ℓ task).pending loop d = s.pending loop d ++
    if loop task.channel ≠ ℓ ∧ d = task.channel then [task.number] else [] := by
  unfold submit pending
  split
  · rename_i hℓ
    simp [hℓ]
  · rename_i hℓ
    by_cases hd : d = task.channel
    · subst hd
      simp [hℓ]
    · by_cases hl : loop d = loop task.channel
      · simp [hl, hd, Ne.symm hd]
      · simp [hd, hl]

theorem got_task {rest : List Task} (ht : s.tasks ℓ = task :: rest)
    (hloop : loop task.channel = ℓ) (d : Nat) :
    ((deliver { s with tasks := Function.update s.tasks ℓ rest } task).got loop d).Sublist
      (s.got loop d) ∧ ((s.server.connections d).stage.live = true →
        (deliver { s with tasks := Function.update s.tasks ℓ rest } task).got loop d =
          s.got loop d) := by
  subst hloop
  simp only [got, pending, received_deliver, tasks_deliver]
  by_cases hl : loop d = loop task.channel
  · by_cases hd : d = task.channel
    · subst hd
      by_cases hlive : (s.server.connections task.channel).stage.live = true
      · simp [ht, hlive]
      · simp [ht, hlive]
    · simp [hl, ht, hd, Ne.symm hd]
  · have hd : d ≠ task.channel := fun h => hl (h ▸ rfl)
    simp [hl, hd]

/-- A channel is told the broadcasts of each loop in their order, hence once each; and of those
that are over it has been told every one during which it stayed in the group. -/
structure Told (loop : Nat → Nat) (s : Loops) : Prop where
  order : ∀ d, (s.got loop d).Pairwise fun n m => s.source loop n = s.source loop m → n < m
  known : ∀ d, ∀ n ∈ s.got loop d, ∃ b, s.sent[n]? = some b ∧ b.Visits s.server.log d
  written : ∀ ℓ it, s.running ℓ = some it → ∀ d, it.number ∈ s.got loop d → d ∈ it.written
  complete : ∀ n b d, s.sent[n]? = some b → b.Stayed s.server.log d → n ∈ s.got loop d ∨
    ∃ it, s.running (loop b.channel) = some it ∧ it.number = n ∧ d ∉ it.written

theorem told_text (hi : Told loop s) {c : Nat} {u : ServerState} {b : Broadcast}
    (hr : s.running (loop c) = none) (hc : b.channel = c)
    (hlog : ∃ es, u.log = s.server.log ++ es) :
    Told loop { s with
      server := u
      sent := s.sent ++ [b]
      running := Function.update s.running (loop c) (some ⟨s.sent.length, b, []⟩) } := by
  obtain ⟨es, hlog⟩ := hlog
  have hlt : ∀ d, ∀ n ∈ s.got loop d, n < s.sent.length := by
    intro d n hn
    obtain ⟨b', hb, -⟩ := hi.known d n hn
    exact (List.getElem?_eq_some_iff.mp hb).1
  refine ⟨fun d => ?_, fun d n hn => ?_, fun ℓ it hit d hn => ?_, fun n b' d hb hd => ?_⟩
  · refine (hi.order d).imp_of_mem fun {n m} hn hm h hs => h ?_
    rwa [source_append (hlt d n hn) rfl, source_append (hlt d m hm) rfl] at hs
  · obtain ⟨b', hb, hv⟩ := hi.known d n hn
    refine ⟨b', ?_, ?_⟩
    · simpa [List.getElem?_append_left (hlt d n hn)] using hb
    · simpa only [hlog] using hv.append es
  · by_cases hℓ : ℓ = loop c
    · subst hℓ
      obtain rfl : _ = it := by simpa using hit
      exact absurd (hlt d _ hn) (Nat.lt_irrefl _)
    · exact hi.written ℓ it (by simpa [hℓ] using hit) d hn
  · rcases Nat.lt_or_ge n s.sent.length with hn | hn
    · have hb : s.sent[n]? = some b' := by simpa [List.getElem?_append_left hn] using hb
      simp only [hlog] at hd
      rcases hi.complete n b' d hb hd.of_append with h | ⟨it, hit, h⟩
      · exact .inl h
      · refine .inr ⟨it, ?_, h⟩
        have hne : loop b'.channel ≠ loop c := by
          intro he
          rw [he, hr] at hit
          cases hit
        simpa [hne] using hit
    · obtain ⟨hlen, he⟩ := List.getElem?_eq_some_iff.mp hb
      obtain rfl : n = s.sent.length := by
        simp only [List.length_append, List.length_singleton] at hlen
        omega
      obtain rfl : b = b' := by simpa using he
      exact .inr ⟨⟨s.sent.length, b, []⟩, by simp [hc], rfl, by simp⟩

theorem mem_got_submit {n : Nat} : n ∈ (submit loop s ℓ task).got loop d ↔ n ∈ s.got loop d ∨
    n = task.number ∧ d = task.channel ∧
      (loop d = ℓ → (s.server.connections d).stage.live = true) := by
  rw [got, received_submit, pending_submit, got]
  by_cases hd : d = task.channel
  · subst hd
    by_cases hℓ : loop task.channel = ℓ <;>
      by_cases hlive : (s.server.connections task.channel).stage.live = true <;>
      simp [hℓ, hlive, or_assoc, or_comm]
  · simp [hd]

/-- A new number comes behind those that a channel was written, and behind those queued for it
or, in the channel's own loop, in front of them. -/
theorem pairwise_submit {R : Nat → Nat → Prop} (h : (s.got loop d).Pairwise R)
    (hle : d = task.channel → ∀ n ∈ s.got loop d, R n task.number)
    (hown : d = task.channel → loop d = ℓ → ∀ n ∈ s.pending loop d, R task.number n) :
    ((submit loop s ℓ task).got loop d).Pairwise R := by
  rw [got, received_submit, pending_submit]
  rw [got] at h hle
  obtain ⟨hrec, hpend, hcross⟩ := List.pairwise_append.mp h
  by_cases hd : d = task.channel
  · subst hd
    have hle := hle rfl
    have hle' : ∀ n ∈ s.received task.channel, R n task.number := fun n hn => hle n (by simp [hn])
    by_cases hℓ : loop task.channel = ℓ
    · by_cases hlive : (s.server.connections task.channel).stage.live = true
      · simpa [hℓ, hlive, List.pairwise_append, List.pairwise_cons, hrec, hpend] using
          ⟨hown rfl hℓ, fun n hn => ⟨hle' n hn, hcross n hn⟩⟩
      · simpa [hℓ, hlive] using h
    · have hall : (s.received task.channel ++ s.pending loop task.channel ++
          [task.number]).Pairwise R :=
        List.pairwise_append.mpr ⟨h, List.pairwise_singleton _ _,
          fun n hn m hm => by rw [List.mem_singleton.mp hm]; exact hle n hn⟩
      simpa [hℓ] using hall
  · simpa [hd] using h

theorem told_next (hl : Lively s) (hn : Numbered loop s) (hi : Told loop s) {it : Iteration}
    (hr : s.running ℓ = some it) (hv : it.broadcast.Visits s.server.log d) (hd : d ∉ it.written) :
    Told loop (submit loop { s with
      running := Function.update s.running ℓ (some { it with written := it.written ++ [d] }) }
      ℓ ⟨d, it.number, it.broadcast.tws⟩) := by
  obtain ⟨es, hlog, -⟩ := log_submit loop { s with
    running := Function.update s.running ℓ (some { it with written := it.written ++ [d] }) } ℓ
    ⟨d, it.number, it.broadcast.tws⟩
  obtain ⟨hb, hloop, hle⟩ := hn.running ℓ it hr
  have hsrc := hn.source_running hr
  refine ⟨fun d' => ?_, fun d' n hn' => ?_, fun ℓ' it' hit d' hn' => ?_, fun n b d' hb' hs => ?_⟩
  · simp only [source, sent_submit]
    refine pairwise_submit (hi.order d') ?_ ?_
    · rintro rfl n hn' hs
      have hs : s.source loop n = some ℓ := hs.trans hsrc
      have hne : n ≠ it.number := fun he => hd (hi.written ℓ it hr d' (by rwa [← he]))
      exact lt_of_le_of_ne (hle n hs) hne
    · rintro rfl hℓ n hn' hs
      obtain ⟨task, htask, rfl⟩ := List.mem_map.mp hn'
      have htask := List.mem_of_mem_filter htask
      have hs : s.source loop task.number = some ℓ := hs.symm.trans hsrc
      exact absurd hs (hℓ ▸ (hn.tasks _ task htask).2.1)
  · rcases mem_got_submit.mp hn' with hn' | ⟨rfl, rfl, -⟩
    · obtain ⟨b, hb, hv⟩ := hi.known d' n hn'
      exact ⟨b, by simpa using hb, by rw [hlog]; exact hv.append es⟩
    · exact ⟨_, by simpa using hb, by rw [hlog]; exact hv.append es⟩
  · rw [running_submit] at hit
    by_cases hℓ : ℓ' = ℓ
    · subst hℓ
      obtain rfl : _ = it' := by simpa using hit
      rcases mem_got_submit.mp hn' with hn' | ⟨-, rfl, -⟩
      · exact List.mem_append_left _ (hi.written ℓ' it hr d' hn')
      · simp
    · have hit : s.running ℓ' = some it' := by simpa [hℓ] using hit
      rcases mem_got_submit.mp hn' with hn' | ⟨he, -, -⟩
      · exact hi.written ℓ' it' hit d' hn'
      · have hsrc' := hn.source_running hit
        rw [he, hsrc] at hsrc'
        exact absurd (Option.some.inj hsrc').symm hℓ
  · rw [sent_submit] at hb'
    rw [hlog] at hs
    have hs := hs.of_append
    rw [mem_got_submit, running_submit]
    rcases hi.complete n b d' hb' hs with h | ⟨it', hit, hnum, hw⟩
    · exact .inl (.inl h)
    · by_cases hℓ : loop b.channel = ℓ
      · obtain rfl : it = it' := by rw [hℓ, hr] at hit; exact Option.some.inj hit
        by_cases hdd : d' = d
        · exact .inl (.inr ⟨hnum.symm, hdd, fun _ => hl.live (List.mem_of_getElem? hb') hs⟩)
        · exact .inr ⟨{ it with written := it.written ++ [d] }, by simp [hℓ], hnum,
            by simp [hw, hdd]⟩
      · exact .inr ⟨it', by simpa [hℓ] using hit, hnum, hw⟩

theorem told_step (hl : Lively s) (hn : Numbered loop s) (hi : Told loop s)
    (h : Step loop s l t) : Told loop t := by
  cases h with
  | handle l u htext hr h =>
    obtain ⟨es, hlog⟩ := log_of_round (round_of_step hl.inv h)
    refine ⟨hi.order, fun d n hn => ?_, hi.written, fun n b d hb hd => ?_⟩
    · obtain ⟨b, hb, hv⟩ := hi.known d n hn
      exact ⟨b, hb, by simpa only [hlog] using hv.append es⟩
    · simp only [hlog] at hd
      exact hi.complete n b d hb hd.of_append
  | text c env fin content hr hs => exact told_text hi hr rfl ⟨_, rfl⟩
  | next ℓ d it hr hv hd => exact told_next hl hn hi hr hv hd
  | finish ℓ it hr hd =>
    refine ⟨hi.order, hi.known, fun ℓ' it' hit d hn => ?_, fun n b d hb hs => ?_⟩
    · by_cases hℓ : ℓ' = ℓ
      · simp [hℓ] at hit
      · exact hi.written ℓ' it' (by simpa [hℓ] using hit) d hn
    · rcases hi.complete n b d hb hs with h | ⟨it', hit, hnum, hw⟩
      · exact .inl h
      · by_cases hℓ : loop b.channel = ℓ
        · obtain rfl : it = it' := by rw [hℓ, hr] at hit; exact Option.some.inj hit
          have hb' := (hn.running ℓ it hr).1
          rw [hnum, hb] at hb'
          obtain rfl := Option.some.inj hb'
          exact absurd (hd d hs) hw
        · exact .inr ⟨it', by simpa [hℓ] using hit, hnum, hw⟩
  | task ℓ task rest hr ht =>
    have hloop := (hn.tasks ℓ task (by simp [ht])).1
    have hgot := got_task ht hloop
    obtain ⟨es, hlog, -⟩ := log_deliver { s with tasks := Function.update s.tasks ℓ rest } task
    refine ⟨fun d => ?_, fun d n hn' => ?_, fun ℓ' it' hit d hn' => ?_, fun n b d hb hs => ?_⟩
    · simpa [source] using (hi.order d).sublist (hgot d).1
    · obtain ⟨b, hb, hv⟩ := hi.known d n ((hgot d).1.subset hn')
      exact ⟨b, by simpa using hb, by rw [hlog]; exact hv.append es⟩
    · rw [running_deliver] at hit
      exact hi.written ℓ' it' hit d ((hgot d).1.subset hn')
    · rw [sent_deliver] at hb
      rw [hlog] at hs
      have hs := hs.of_append
      rw [(hgot d).2 (hl.live (List.mem_of_getElem? hb) hs), running_deliver]
      exact hi.complete n b d hb hs

/-- The text of a broadcast. -/
def text (s : Loops) (n : Nat) : Option Text := s.sent[n]?.map Broadcast.tws

theorem text_append {b : Broadcast} {n : Nat} (hn : n < s.sent.length)
    (ht : t.sent = s.sent ++ [b]) : t.text n = s.text n := by
  rw [text, text, ht, List.getElem?_append_left hn]

theorem writesTo_deliver : writesTo d (s.deliver task).server.log = writesTo d s.server.log ++
    if d = task.channel ∧ (s.server.connections d).stage.live then [task.tws] else [] := by
  unfold deliver
  by_cases hd : d = task.channel
  · subst hd
    split <;> simp_all [writesTo, writeTo?]
  · split <;> simp [hd, Ne.symm hd, writesTo, writeTo?]

/-- What is delivered is numbered as what it says. -/
theorem written_deliver (hw : (writesTo d s.server.log).map some = (s.received d).map s.text)
    (ht : s.text task.number = some task.tws) :
    (writesTo d (s.deliver task).server.log).map some =
      ((s.deliver task).received d).map (s.deliver task).text := by
  have htext : (s.deliver task).text = s.text := by
    funext n
    simp [text]
  rw [writesTo_deliver, received_deliver, htext, List.map_append, List.map_append, hw]
  split <;> simp [ht]

theorem written_step (hl : Lively s) (hn : Numbered loop s) (hi : Told loop s)
    (hw : ∀ d, (writesTo d s.server.log).map some = (s.received d).map s.text)
    (h : Step loop s l t) (d : Nat) :
    (writesTo d t.server.log).map some = (t.received d).map t.text := by
  cases h with
  | handle l u htext hr h =>
    rw [writesTo_round (round_of_step hl.inv h) htext]
    exact hw d
  | text c env fin content hr hs =>
    have hsame : writesTo d (s.server.log ++ [.broadcast c (decode content)
        (answer env c (decode content))]) = writesTo d s.server.log := by
      simp [writesTo, writeTo?]
    rw [ServerState.log_tell, hsame, hw]
    refine List.map_congr_left fun n hr => ?_
    obtain ⟨b, hb, -⟩ := hi.known d n (List.mem_append_left _ hr)
    exact (text_append (List.getElem?_eq_some_iff.mp hb).1 rfl).symm
  | next ℓ d' it hr hv hd =>
    have htext : s.text it.number = some it.broadcast.tws := by
      rw [text, (hn.running ℓ it hr).1]
      rfl
    unfold submit
    split
    · exact written_deliver (hw d) htext
    · exact hw d
  | finish => exact hw d
  | task ℓ task rest hr ht =>
    exact written_deliver (hw d) (hn.tasks ℓ task (by simp [ht])).2.2

/-- Everything that the steps keep. -/
structure Kept (loop : Nat → Nat) (s : Loops) : Prop where
  lively : Lively s
  numbered : Numbered loop s
  told : Told loop s
  written : ∀ d, (writesTo d s.server.log).map some = (s.received d).map s.text

theorem kept_started : Kept loop started where
  lively := lively_started
  numbered := ⟨nofun, nofun⟩
  told := ⟨fun _ => .nil, nofun, nofun, nofun⟩
  written _ := rfl

theorem kept_step (hi : Kept loop s) (h : Step loop s l t) : Kept loop t where
  lively := lively_step hi.lively h
  numbered := numbered_step hi.numbered h
  told := told_step hi.lively hi.numbered hi.told h
  written := written_step hi.lively hi.numbered hi.told hi.written h

theorem kept_run (h : Run (Step loop) started ls s) : Kept loop s :=
  h.invariant (fun _ _ _ hs hi => kept_step hi hs) kept_started

/-- However the channels are spread over the loops and these take their steps: what a channel is
written and what is queued for it are broadcasts that it was there for, each of them once and those
of one loop in their order; and once a broadcast is over, every channel that was there when it began
and has stayed is among those it reaches. -/
theorem frames_across_loops (h : Run (Step loop) started ls s) (d : Nat) :
    (writesTo d s.server.log).map some = (s.received d).map s.text ∧
    (s.got loop d).Nodup ∧
    ((s.got loop d).Pairwise fun n m => s.source loop n = s.source loop m → n < m) ∧
    (∀ n ∈ s.got loop d, ∃ b, s.sent[n]? = some b ∧ b.Visits s.server.log d) ∧
    ∀ n b, s.sent[n]? = some b → b.Stayed s.server.log d →
      (∀ it, s.running (loop b.channel) = some it → it.number ≠ n) → n ∈ s.got loop d := by
  have hi := (kept_run h).told
  refine ⟨(kept_run h).written d, ?_, hi.order d, hi.known d, fun n b hb hs hover => ?_⟩
  · exact (hi.order d).imp fun h he => absurd (h (by rw [he])) (by omega)
  · rcases hi.complete n b d hb hs with h | ⟨it, hit, hnum, -⟩
    · exact h
    · exact absurd hnum (hover it hit)

namespace Example

open Netty.Example

/-- Two channels have come and were upgraded; what the loops are in, what is queued on them, what
the channels have received, and the texts. -/
structure View (loop : Nat → Nat) (r : Nat → Option Iteration) (q : Nat → List Task)
    (v : Nat → List Nat) (ts : List Text) (s : Loops) : Prop where
  run : ∃ ls, Run (Step loop) started ls s
  group : s.server.group = [0, 1]
  stage : ∀ c ∈ [0, 1], (s.server.connections c).stage = .webSocket
  running : s.running = r
  tasks : s.tasks = q
  received : s.received = v
  texts : s.sent.map Broadcast.tws = ts

variable {r : Nat → Option Iteration} {q : Nat → List Task} {v : Nat → List Nat}
  {ts : List Text} {c : Nat} {it : Iteration} {rest : List Task}

theorem view_gathered (loop : Nat → Nat) :
    ∃ s, View loop (fun _ => none) (fun _ => []) (fun _ => []) [] s := by
  have handle : ∀ {ls s u} {l : Netty.Label}, Run (Step loop) started ls s →
      Round s.server l u → ¬ l.IsText → s.running (loop l.channel) = none →
      Run (Step loop) started (ls ++ [.handle l]) { s with server := u } := fun h hr hl hn =>
    h.next (.handle _ _ _ hl hn (step_of_round (kept_run h).lively.inv hr))
  have h₀ := handle .start (.active 0 rfl) nofun rfl
  have h₁ := handle h₀ (.active 1 rfl) nofun rfl
  have h₂ := handle h₁ (.upgraded 0 today upgrade rfl ⟨rfl, rfl⟩ ⟨fun _ => .ok ()⟩ rfl rfl)
    nofun rfl
  have h₃ := handle h₂ (.upgraded 1 today upgrade rfl ⟨rfl, rfl⟩ ⟨fun _ => .ok ()⟩ rfl rfl)
    nofun rfl
  exact ⟨_, ⟨_, h₃⟩, rfl, by simp [started, ServerState.bound], rfl, rfl, rfl, rfl⟩

theorem View.text (h : View loop r q v ts s) (hr : r (loop c) = none) (hc : c ∈ [0, 1])
    (text : Text) : ∃ t it, it.number = ts.length ∧ it.broadcast.started = [0, 1] ∧
      it.written = [] ∧
      View loop (Function.update r (loop c) (some it)) q v (ts ++ [answer today c text]) t := by
  obtain ⟨⟨ls, hrun⟩, hg, hst, rfl, rfl, rfl, rfl⟩ := h
  refine ⟨_, _, ?_, ?_, ?_, ⟨_, hrun.next (.text s c today true (encode text) hr (hst c hc))⟩, hg,
    hst, rfl, rfl, rfl, ?_⟩
  · simp
  · exact hg
  · rfl
  · simp [decode_encode]

theorem View.next (h : View loop r q v ts s) (hr : r ℓ = some it) (hd : d ∈ [0, 1])
    (hb : it.broadcast.started = [0, 1]) (hw : d ∉ it.written) : ∃ t,
    View loop (Function.update r ℓ (some { it with written := it.written ++ [d] }))
      (if loop d = ℓ then q
        else Function.update q (loop d) (q (loop d) ++ [⟨d, it.number, it.broadcast.tws⟩]))
      (if loop d = ℓ then Function.update v d (v d ++ [it.number]) else v) ts t := by
  obtain ⟨⟨ls, hrun⟩, hg, hst, rfl, rfl, rfl, rfl⟩ := h
  have hlive : (s.server.connections d).stage.live = true := by
    rw [hst d hd]
    rfl
  refine ⟨_, ⟨_, hrun.next (.next s ℓ d it hr (.inl (hb ▸ hd)) hw)⟩, by simpa using hg,
    by simpa using hst, by simp, ?_, ?_, by simp⟩
  · by_cases hℓ : loop d = ℓ <;> simp [submit, hℓ]
  · by_cases hℓ : loop d = ℓ <;> simp [submit, deliver, hlive, hℓ]

theorem View.finish (h : View loop r q v ts s) (hr : r ℓ = some it)
    (hb : it.broadcast.started = [0, 1]) (hw : ∀ d ∈ [0, 1], d ∈ it.written) :
    ∃ t, View loop (Function.update r ℓ none) q v ts t := by
  obtain ⟨⟨ls, hrun⟩, hg, hst, rfl, rfl, rfl, rfl⟩ := h
  exact ⟨_, ⟨_, hrun.next (.finish s ℓ it hr fun d hd => hw d (hb ▸ hd.1))⟩, hg, hst, rfl, rfl,
    rfl, rfl⟩

theorem View.dequeue (h : View loop r q v ts s) (hr : r ℓ = none) (hq : q ℓ = task :: rest)
    (hd : task.channel ∈ [0, 1]) : ∃ t, View loop r (Function.update q ℓ rest)
      (Function.update v task.channel (v task.channel ++ [task.number])) ts t := by
  obtain ⟨⟨ls, hrun⟩, hg, hst, rfl, rfl, rfl, rfl⟩ := h
  have hlive : (s.server.connections task.channel).stage.live = true := by
    rw [hst _ hd]
    rfl
  refine ⟨_, ⟨_, hrun.next (.task s ℓ task rest hr hq)⟩, by simpa using hg, by simpa using hst,
    by simp, by simp, ?_, by simp⟩
  simp [deliver, hlive]

/-- Two channels on loops of their own speak at the same time. -/
theorem crossed : ∃ s, (∃ ls, Run (Step id) started ls s) ∧ s.received 0 = [0, 1] ∧
    s.received 1 = [1, 0] ∧
      s.sent.map Broadcast.tws = [answer today 0 "a".toList, answer today 1 "b".toList] := by
  obtain ⟨s₀, h₀⟩ := view_gathered id
  obtain ⟨s₁, ⟨n₀, b₀, w₀⟩, rfl, hb₀, rfl, h₁⟩ := h₀.text (c := 0) rfl (by simp) "a".toList
  obtain ⟨s₂, ⟨n₁, b₁, w₁⟩, rfl, hb₁, rfl, h₂⟩ := h₁.text (c := 1) rfl (by simp) "b".toList
  obtain ⟨s₃, h₃⟩ := h₂.next (ℓ := 0) (d := 0) rfl (by simp) hb₀ (by simp)
  obtain ⟨s₄, h₄⟩ := h₃.next (ℓ := 1) (d := 1) rfl (by simp) hb₁ (by simp)
  obtain ⟨s₅, h₅⟩ := h₄.next (ℓ := 0) (d := 1) rfl (by simp) hb₀ (by simp)
  obtain ⟨s₆, h₆⟩ := h₅.next (ℓ := 1) (d := 0) rfl (by simp) hb₁ (by simp)
  obtain ⟨s₇, h₇⟩ := h₆.finish (ℓ := 0) rfl hb₀ (by simp)
  obtain ⟨s₈, h₈⟩ := h₇.finish (ℓ := 1) rfl hb₁ (by simp)
  obtain ⟨s₉, h₉⟩ := h₈.dequeue (ℓ := 0) rfl rfl (by simp)
  obtain ⟨s, h⟩ := h₉.dequeue (ℓ := 1) rfl rfl (by simp)
  exact ⟨s, h.run, by rw [h.received]; rfl, by rw [h.received]; rfl, h.texts⟩

/-- They are written the two texts in opposite orders. -/
theorem frames_across_two : ∃ s, (∃ ls, Run (Step id) started ls s) ∧
    writesTo 0 s.server.log = [answer today 0 "a".toList, answer today 1 "b".toList] ∧
    writesTo 1 s.server.log = [answer today 1 "b".toList, answer today 0 "a".toList] := by
  obtain ⟨s, ⟨ls, h⟩, h₀, h₁, ht⟩ := crossed
  have htext : ∀ n, s.text n = [answer today 0 "a".toList, answer today 1 "b".toList][n]? := by
    intro n
    rw [← ht, List.getElem?_map]
    rfl
  have hw₀ := (frames_across_loops h 0).1
  have hw₁ := (frames_across_loops h 1).1
  rw [h₀, List.map_cons, List.map_cons, htext, htext] at hw₀
  rw [h₁, List.map_cons, List.map_cons, htext, htext] at hw₁
  refine ⟨s, ⟨ls, h⟩, ?_, ?_⟩
  · exact List.map_injective_iff.mpr (Option.some_injective _) hw₀
  · exact List.map_injective_iff.mpr (Option.some_injective _) hw₁

end Example

end Loops

end SpringDemo.Netty

import SpringDemo.Netty.Page

/-! The whole chat: the server, a page for each channel, and the texts under way between them. -/
namespace SpringDemo.Netty

open Java Lib.Runs Lib.Utf8

structure Chat where
  server : ServerState
  pages : Nat → Page
  /-- what a page has sent and the server has not read -/
  up : Nat → List Text
  /-- what was written to an upgraded channel and its page has not been told -/
  down : Nat → List Text

namespace Chat

variable (webSocket : Nat → Bool)

def started : Chat := ⟨.bound, fun c => .load (webSocket c), fun _ => [], fun _ => []⟩

inductive Label where
  | serve (l : Netty.Label)
  | parsed (c : Nat)
  | opened (c : Nat)
  | message (c : Nat)
  | closed (c : Nat)
  | send (c : Nat) (message : Text)

/-- The pages send each text in one frame. What the server writes to a channel before its upgrade
is no message for the page. -/
inductive Step : Chat → Label → Chat → Prop
  | serve (s : Chat) (l : Netty.Label) (t : ServerState) (hl : ¬ l.IsText)
      (h : Netty.Step s.server l t) : Step s (.serve l) { s with server := t }
  | frame (s : Chat) (c : Nat) (env : Env) (text : Text) (rest : List Text) (t : ServerState)
      (es : List Event) (hu : s.up c = text :: rest)
      (h : Netty.Step s.server (.message c env (.frame (.text true (encode text)))) t)
      (hlog : t.log = s.server.log ++ es) :
      Step s (.serve (.message c env (.frame (.text true (encode text))))) { s with
        server := t
        up := Function.update s.up c rest
        down := fun d => s.down d ++
          if (s.server.connections d).stage = .webSocket then writesTo d es else [] }
  | parsed (s : Chat) (c : Nat) (hp : (s.pages c).ta = none) :
      Step s (.parsed c) { s with pages := Function.update s.pages c (s.pages c).parsed }
  | opened (s : Chat) (c : Nat) (hw : (s.pages c).webSocket = true)
      (hr : (s.pages c).readyState = .connecting) (hu : .upgraded c ∈ s.server.log) :
      Step s (.opened c) { s with pages := Function.update s.pages c (s.pages c).onopen }
  | message (s : Chat) (c : Nat) (data : Text) (rest : List Text)
      (hr : (s.pages c).readyState = .opened) (hd : s.down c = data :: rest) :
      Step s (.message c) { s with
        pages := Function.update s.pages c ((s.pages c).onmessage data)
        down := Function.update s.down c rest }
  | closed (s : Chat) (c : Nat) (hw : (s.pages c).webSocket = true)
      (hr : (s.pages c).readyState ≠ .closed) :
      Step s (.closed c) { s with pages := Function.update s.pages c (s.pages c).onclose }
  | send (s : Chat) (c : Nat) (message : Text) :
      Step s (.send c message) { s with
        pages := Function.update s.pages c ((s.pages c).send message)
        up := Function.update s.up c (s.up c ++
          ((s.pages c).send message).sent.drop (s.pages c).sent.length) }

variable {webSocket} {s t : Chat} {l : Label} {ls : List Label} {c d : Nat} {log es : List Event}

def request? (c : Nat) : Event → Option Text
  | .broadcast d request _ => if d = c then some request else none
  | _ => none

/-- What the server has read from a page. -/
def requestsOf (c : Nat) (log : List Event) : List Text := log.filterMap (request? c)

def broadcast? : Event → Option Text
  | .broadcast _ _ tws => some tws
  | _ => none

/-- What was given to the group. -/
def broadcasts (log : List Event) : List Text := log.filterMap broadcast?

/-- The log from the upgrade of a channel on. -/
def since (d : Nat) (log : List Event) : List Event := log.dropWhile fun e => e ≠ .upgraded d

theorem since_append_of_mem (h : .upgraded d ∈ log) : since d (log ++ es) = since d log ++ es := by
  induction log with
  | nil => cases h
  | cons e log ih =>
    by_cases he : e = .upgraded d
    · simp [since, he]
    · have hmem : .upgraded d ∈ log := by simpa [Ne.symm he] using h
      simpa [since, he] using ih hmem

theorem since_append_of_not_mem (h : .upgraded d ∉ log) : since d (log ++ es) = since d es := by
  induction log with
  | nil => rfl
  | cons e log ih =>
    simp only [List.mem_cons, not_or] at h
    simpa [since, Ne.symm h.1] using ih h.2

theorem since_of_not_mem (h : .upgraded d ∉ log) : since d log = [] := by
  have hd : since d (log ++ []) = since d [] := since_append_of_not_mem h
  rwa [List.append_nil] at hd

/-- Where nothing is written, there is nothing written since the upgrade either. -/
theorem filterMap_since {f : Event → Option Text} (h : es.filterMap f = []) :
    (since d (log ++ es)).filterMap f = (since d log).filterMap f := by
  have hes : (since d es).filterMap f = [] := by
    rw [List.filterMap_eq_nil_iff] at h ⊢
    exact fun e he => h e ((List.dropWhile_suffix _).subset he)
  by_cases hd : .upgraded d ∈ log
  · rw [since_append_of_mem hd, List.filterMap_append, h, List.append_nil]
  · rw [since_append_of_not_mem hd, hes, since_of_not_mem hd]
    rfl

/-- An event that is no text frame adds nothing of these to the log. -/
theorem quiet_round {u v : ServerState} {l : Netty.Label} (h : Round u l v) (hl : ¬ l.IsText) :
    ∃ es, v.log = u.log ++ es ∧ (∀ d, writesTo d es = []) ∧ (∀ c, requestsOf c es = []) ∧
      broadcasts es = [] := by
  cases h with
  | frame c env frame hs =>
    refine ⟨_, rfl, ?_, ?_, ?_⟩ <;> cases frame with
    | text fin content => exact absurd ⟨c, env, fin, content, rfl⟩ hl
    | _ => simp [answers, writesTo, writeTo?, requestsOf, request?, broadcasts, broadcast?]
  | _ => exact ⟨_, rfl, fun _ => rfl, fun _ => rfl, rfl⟩

theorem requestsOf_text (env : Env) (group : List Nat) (d : Nat) (fin : Bool) (content : Bytes) :
    requestsOf c (answers env group d (.text fin content)) =
      if d = c then [decode content] else [] := by
  have hm : requestsOf c
      ((env.order group).map (.wrote · (answer env d (decode content)))) = [] := by
    simp [requestsOf, request?, List.filterMap_map, Function.comp_def]
  rw [requestsOf] at hm
  by_cases hd : d = c <;> simp [answers, requestsOf, request?, hd, hm]

theorem broadcasts_text (env : Env) (group : List Nat) (d : Nat) (fin : Bool) (content : Bytes) :
    broadcasts (answers env group d (.text fin content)) = [answer env d (decode content)] := by
  simp [answers, broadcasts, broadcast?, List.filterMap_map, Function.comp_def]

/-- An upgraded channel has been told of its upgrade once, and is written every text from then on
until it becomes inactive. -/
structure Served (u : ServerState) : Prop where
  inv : Inv u
  grouped : Grouped u
  upgraded : ∀ d, .upgraded d ∈ u.log →
    (u.connections d).stage = .webSocket ∨ (u.connections d).stage = .inactive
  webSocket : ∀ d, (u.connections d).stage = .webSocket → .upgraded d ∈ u.log
  heard : ∀ d, .inactive d ∉ u.log → writesTo d (since d u.log) = broadcasts (since d u.log)
  answers : ∀ c request tws, .broadcast c request tws ∈ u.log → ∃ env, tws = answer env c request

theorem stages_round {u v : ServerState} {l : Netty.Label} (hi : Served u) (h : Round u l v)
    (d : Nat) : (.upgraded d ∈ v.log →
      (v.connections d).stage = .webSocket ∨ (v.connections d).stage = .inactive) ∧
    ((v.connections d).stage = .webSocket → .upgraded d ∈ v.log) := by
  have hu := hi.upgraded d
  have hw := hi.webSocket d
  cases h with
  | active c hs => by_cases hd : d = c <;> simp_all
  | inactive c hs => by_cases hd : d = c <;> simp_all
  | upgraded c env req hs => by_cases hd : d = c <;> simp_all
  | frame c env frame hs => cases frame <;> simpa [Netty.answers] using ⟨hu, hw⟩
  | _ => simpa using ⟨hu, hw⟩

theorem heard_round {u v : ServerState} {l : Netty.Label} (hi : Served u) (h : Round u l v)
    (hd : .inactive d ∉ v.log) : writesTo d (since d v.log) = broadcasts (since d v.log) := by
  by_cases hl : l.IsText
  · obtain ⟨c, env, fin, content, rfl⟩ := hl
    cases h with
    | frame c env frame hs =>
      have hd' : .inactive d ∉ u.log := fun he => hd (List.mem_append_left _ he)
      by_cases hup : .upgraded d ∈ u.log
      · have hst := (hi.upgraded d hup).resolve_right fun h => hd' ((hi.grouped.inactive d).mpr h)
        have hg : d ∈ u.group := (hi.inv.group d).mpr (by simp [hst, Stage.live])
        rw [ServerState.log_tell, since_append_of_mem hup, writesTo_append, hi.heard d hd',
          writesTo_text hi.inv, if_pos hg, broadcasts, broadcasts, List.filterMap_append]
        exact congrArg _ (broadcasts_text env u.group c fin content).symm
      · have hes : .upgraded d ∉ answers env u.group c (.text fin content) := by simp [answers]
        rw [ServerState.log_tell, since_append_of_not_mem hup, since_of_not_mem hes]
        rfl
  · obtain ⟨es, hlog, hw, -, hb⟩ := quiet_round h hl
    have hd' : .inactive d ∉ u.log := fun he => hd (hlog ▸ List.mem_append_left _ he)
    have hwrites : writesTo d (since d v.log) = writesTo d (since d u.log) :=
      hlog ▸ filterMap_since (hw d)
    have hbroadcasts : broadcasts (since d v.log) = broadcasts (since d u.log) :=
      hlog ▸ filterMap_since hb
    rw [hwrites, hbroadcasts, hi.heard d hd']

theorem answers_round {u v : ServerState} {l : Netty.Label} (hi : Served u) (h : Round u l v)
    {request tws : Text} (hb : .broadcast c request tws ∈ v.log) :
    ∃ env, tws = answer env c request := by
  by_cases hl : l.IsText
  · obtain ⟨c', env, fin, content, rfl⟩ := hl
    cases h with
    | frame c' env frame hs =>
      rcases List.mem_append.mp hb with hb | hb
      · exact hi.answers c request tws hb
      · simp only [Netty.answers, List.mem_cons, Event.broadcast.injEq, List.mem_map, reduceCtorEq,
          and_false, exists_false, or_false] at hb
        obtain ⟨rfl, rfl, rfl⟩ := hb
        exact ⟨env, rfl⟩
  · obtain ⟨es, hlog, -, -, hbs⟩ := quiet_round h hl
    rcases List.mem_append.mp (hlog ▸ hb) with hb | hb
    · exact hi.answers c request tws hb
    · have hnone := List.filterMap_eq_nil_iff.mp hbs _ hb
      cases hnone

theorem served_round {u v : ServerState} {l : Netty.Label} (hi : Served u) (h : Round u l v) :
    Served v where
  inv := inv_round hi.inv h
  grouped := grouped_round hi.inv hi.grouped h
  upgraded d := (stages_round hi h d).1
  webSocket d := (stages_round hi h d).2
  heard _ hd := heard_round hi h hd
  answers _ _ _ hb := answers_round hi h hb

theorem served_bound : Served .bound where
  inv := inv_bound
  grouped := grouped_bound
  upgraded := nofun
  webSocket := nofun
  heard _ _ := rfl
  answers := nofun

/-- What was sent has been read or is under way. -/
structure Conserved (s : Chat) : Prop where
  served : Served s.server
  shows : ∀ c, (s.pages c).Shows
  up : ∀ c, requestsOf c s.server.log ++ s.up c = (s.pages c).sent
  down : ∀ d, (s.pages d).messages ++ s.down d = writesTo d (since d s.server.log)

theorem conserved_serve (hi : Conserved s) {l : Netty.Label} {u : ServerState} (hl : ¬ l.IsText)
    (h : Round s.server l u) : Conserved { s with server := u } := by
  obtain ⟨es, hlog, hw, hr, -⟩ := quiet_round h hl
  refine ⟨served_round hi.served h, hi.shows, fun c => ?_, fun d => ?_⟩
  · have hsame : requestsOf c u.log = requestsOf c s.server.log := by
      rw [hlog, requestsOf, List.filterMap_append, ← requestsOf, ← requestsOf, hr, List.append_nil]
    rw [hsame]
    exact hi.up c
  · have hsame : writesTo d (since d u.log) = writesTo d (since d s.server.log) :=
      hlog ▸ filterMap_since (hw d)
    rw [hsame]
    exact hi.down d

theorem conserved_frame (hi : Conserved s) {env : Env} {text : Text} {rest : List Text}
    {u : ServerState} (hu : s.up c = text :: rest)
    (h : Round s.server (.message c env (.frame (.text true (encode text)))) u)
    (hlog : u.log = s.server.log ++ es) : Conserved { s with
      server := u
      up := Function.update s.up c rest
      down := fun d => s.down d ++
        if (s.server.connections d).stage = .webSocket then writesTo d es else [] } := by
  have hserved := served_round hi.served h
  cases h with
  | frame c env frame hs =>
    obtain rfl : _ = es := List.append_cancel_left hlog
    refine ⟨hserved, hi.shows, fun c' => ?_, fun d => ?_⟩
    · rw [ServerState.log_tell, requestsOf, List.filterMap_append, ← requestsOf, ← requestsOf,
        requestsOf_text, decode_encode, ← hi.up c']
      by_cases hc : c' = c
      · simp [hc, hu]
      · simp [hc, Ne.symm hc]
    · rw [ServerState.log_tell, ← List.append_assoc, hi.down d]
      by_cases hst : (s.server.connections d).stage = .webSocket
      · rw [if_pos hst, since_append_of_mem (hi.served.webSocket d hst), writesTo_append]
      · rw [if_neg hst, List.append_nil]
        by_cases hup : .upgraded d ∈ s.server.log
        · have hina := (hi.served.upgraded d hup).resolve_left hst
          have hg : d ∉ s.server.group := by simp [hi.served.inv.group, hina, Stage.live]
          have hes := writesTo_text hi.served.inv env c true (encode text) d
          rw [if_neg hg] at hes
          exact (filterMap_since hes).symm
        · have hes : .upgraded d ∉ answers env s.server.group c (.text true (encode text)) := by
            simp [answers]
          rw [since_append_of_not_mem hup, since_of_not_mem hes, since_of_not_mem hup]

theorem conserved_page (hi : Conserved s) {p : Page} {up down : List Text} (hp : p.Shows)
    (hup : requestsOf c s.server.log ++ up = p.sent)
    (hdown : p.messages ++ down = (s.pages c).messages ++ s.down c) : Conserved { s with
      pages := Function.update s.pages c p
      up := Function.update s.up c up
      down := Function.update s.down c down } := by
  refine ⟨hi.served, fun d => ?_, fun d => ?_, fun d => ?_⟩
  · by_cases hd : d = c
    · simpa [hd] using hp
    · simpa [hd] using hi.shows d
  · by_cases hd : d = c
    · simpa [hd] using hup
    · simpa [hd] using hi.up d
  · by_cases hd : d = c
    · simpa [hd] using hdown.trans (hi.down c)
    · simpa [hd] using hi.down d

theorem conserved_step (hi : Conserved s) (h : Step s l t) : Conserved t := by
  cases h with
  | serve l u hl h => exact conserved_serve hi hl (round_of_step hi.served.inv h)
  | frame c env text rest u es hu h hlog =>
    exact conserved_frame hi hu (round_of_step hi.served.inv h) hlog
  | parsed c hp =>
    simpa using conserved_page hi Page.shows_parsed (hi.up c)
      (congrArg (· ++ _) (Page.messages_parsed _))
  | opened c hw hr hu =>
    simpa using conserved_page hi (Page.shows_onopen (hi.shows c)) (hi.up c)
      (congrArg (· ++ _) (Page.messages_onopen _))
  | message c data rest hr hd =>
    have hdown : ((s.pages c).onmessage data).messages ++ rest =
        (s.pages c).messages ++ s.down c := by
      rw [Page.messages_onmessage, hd, List.append_assoc]
      rfl
    simpa using conserved_page hi (Page.shows_onmessage (hi.shows c) data) (hi.up c) hdown
  | closed c hw hr =>
    simpa using conserved_page hi (Page.shows_onclose (hi.shows c)) (hi.up c)
      (congrArg (· ++ _) (Page.messages_onclose _))
  | send c message =>
    have hup : requestsOf c s.server.log ++ (s.up c ++
        ((s.pages c).send message).sent.drop (s.pages c).sent.length) =
          ((s.pages c).send message).sent := by
      rw [← List.append_assoc, hi.up c]
      exact Page.sent_send _ message
    simpa using conserved_page hi (Page.shows_send (hi.shows c) message) hup
      (congrArg (· ++ _) (Page.messages_send _ message))

theorem conserved_run (h : Run (Step) (started webSocket) ls s) : Conserved s := by
  refine h.invariant (fun _ _ _ hs hi => conserved_step hi hs) ?_
  exact ⟨served_bound, fun c => Page.shows_load _, fun _ => rfl, fun _ => rfl⟩

/-- Every text that a page sends is read by the server once and in its order, or is still under
way to it; and what an upgraded channel's page has been told, with what is under way to it, is
everything that was given to the group since the upgrade, as long as the channel has not become
inactive. A page that had its text area when it was opened shows the banner and then each of these
in a line of its own. -/
theorem page_to_page (h : Run Step (started webSocket) ls s) :
    (∀ c, requestsOf c s.server.log ++ s.up c = (s.pages c).sent) ∧
    (∀ c request tws, .broadcast c request tws ∈ s.server.log → ∃ env, tws = answer env c request) ∧
    ∀ d, .inactive d ∉ s.server.log →
      (s.pages d).messages ++ s.down d = broadcasts (since d s.server.log) ∧
      ∀ ms : List Text, (s.pages d).log = .parsed :: .opened :: ms.map .message →
        ms ++ s.down d = broadcasts (since d s.server.log) ∧
        (s.pages d).value = some (Page.banner ++ ['\n'] ++ ms.flatMap Page.shown) := by
  have hi := conserved_run h
  refine ⟨hi.up, hi.served.answers, fun d hd => ?_⟩
  have hdown := (hi.down d).trans (hi.served.heard d hd)
  refine ⟨hdown, fun ms hlog => ⟨?_, (hi.shows d).value ms hlog⟩⟩
  rwa [Page.messages_of_log hlog] at hdown

namespace Example

open Netty.Example

def supporting : Nat → Bool := fun _ => true

theorem serves (h : Run Step (started supporting) ls s) {l : Netty.Label} {u : ServerState}
    (hr : Round s.server l u) (hl : ¬ l.IsText) :
    Run Step (started supporting) (ls ++ [.serve l]) { s with server := u } :=
  h.next (.serve s l u hl (step_of_round (conserved_run h).served.inv hr))

/-- A page whose channel was upgraded sends a text. -/
theorem sending_run : ∃ ls s, Run Step (started supporting) ls s ∧ s.up 0 = ["hello".toList] ∧
    (s.server.connections 0).stage = .webSocket ∧ .inactive 0 ∉ s.server.log ∧
    (s.pages 0).readyState = .opened ∧ (s.pages 0).log = [.parsed, .opened] ∧ s.down 0 = [] ∧
    s.server.group = [0] := by
  have h₀ := Run.single (Step.parsed (started supporting) 0 rfl)
  have h₁ := serves h₀ (.active 0 rfl) nofun
  have h₂ := serves h₁ (.upgraded 0 today upgrade rfl ⟨rfl, rfl⟩ ⟨fun _ => .ok ()⟩ rfl rfl) nofun
  have h₃ := h₂.next (.opened _ 0 rfl rfl (by simp))
  have h₄ := h₃.next (.send _ 0 "hello".toList)
  exact ⟨_, _, h₄, rfl, rfl, by simp [started, ServerState.bound], rfl, rfl, rfl, rfl⟩

/-- It is told the answer, and shows it behind the banner. -/
theorem page_to_page_hello : ∃ ls s, Run Step (started supporting) ls s ∧
    (s.pages 0).value = some (Page.banner ++ ['\n'] ++
      Page.shown (answer today 0 "hello".toList)) := by
  obtain ⟨ls, s, h, hu, hst, hd, hr, hlog, hdown, hg⟩ := sending_run
  have hround := Round.frame 0 today (.text true (encode "hello".toList)) hst
  have hframe := h.next (.frame s 0 today "hello".toList [] _ _ hu
    (step_of_round (conserved_run h).served.inv hround) rfl)
  have hw := writesTo_text (conserved_run h).served.inv today 0 true (encode "hello".toList) 0
  rw [hg, decode_encode, if_pos (List.mem_singleton_self 0), ← hg] at hw
  have hmessage := hframe.next (.message _ 0 (answer today 0 "hello".toList) [] hr
    (by simp only [hdown, if_pos hst, hw]; rfl))
  refine ⟨_, _, hmessage, ?_⟩
  have hshow := ((page_to_page hmessage).2.2 0 (by simp [hd, answers])).2
    [answer today 0 "hello".toList] (by simp [Page.onmessage, hlog])
  simpa using hshow.2

end Example

end Chat

end SpringDemo.Netty

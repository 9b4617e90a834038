import SpringDemo.Netty.Group

/-! What the frames of one connection come to: fragments, pings, pongs and the closing. -/
namespace SpringDemo.Netty

open Java Lib.Runs Lib.Utf8

variable {s s₀ t : ServerState} {l : Label} {ls ls₀ : List Label} {c : Nat}

/-- What the handler of a channel does for its frames. -/
inductive Effect where
  | broadcast (tws : Text)
  | pong (content : Bytes)
  | closing (content : Bytes)
  | caught (cause : Throwable)
  | closed
deriving DecidableEq

def effect? (c : Nat) : Event → Option Effect
  | .broadcast d _ tws => if d = c then some (.broadcast tws) else none
  | .pong d content => if d = c then some (.pong content) else none
  | .closing d content => if d = c then some (.closing content) else none
  | .caught d cause => if d = c then some (.caught cause) else none
  | .closed d => if d = c then some .closed else none
  | _ => none

def effectsOf (c : Nat) (log : List Event) : List Effect := log.filterMap (effect? c)

/-- What was done for the frames of a channel since an earlier state. -/
def since (c : Nat) (s₀ s : ServerState) : List Effect :=
  (effectsOf c s.log).drop (effectsOf c s₀.log).length

abbrev Handled := Env × WebSocketFrame

def handled? (c : Nat) : Label → Option Handled
  | .message d env (.frame frame) => if d = c then some (env, frame) else none
  | _ => none

/-- The frames of a channel among the events, in order, each with the surroundings in which it was
handled. -/
def handledOn (c : Nat) (ls : List Label) : List Handled := ls.filterMap (handled? c)

/-- What is done for one frame. -/
def effects (c : Nat) : Handled → List Effect
  | (env, .text _ content) => [.broadcast (answer env c (decode content))]
  | (_, .ping content) => [.pong content]
  | (_, .close content) => [.closing content, .caught unsupportedMessage, .closed]
  | _ => [.caught unsupportedMessage, .closed]

theorem effectsOf_append (c : Nat) (log log' : List Event) :
    effectsOf c (log ++ log') = effectsOf c log ++ effectsOf c log' := List.filterMap_append

theorem effectsOf_members (c : Nat) (members : List Nat) (tws : Text) :
    effectsOf c (members.map (.wrote · tws)) = [] := by
  simp [effectsOf, effect?, List.filterMap_map, Function.comp_def]

theorem effectsOf_answers (env : Env) (group : List Nat) (d : Nat) (frame : WebSocketFrame) :
    effectsOf c (answers env group d frame) = if d = c then effects c (env, frame) else [] := by
  cases frame with
  | text fin content =>
    have hm := effectsOf_members c (env.order group) (answer env d (decode content))
    rw [effectsOf] at hm
    by_cases hd : d = c
    · subst hd
      simp [answers, effects, effectsOf, effect?, hm]
    · simp [answers, effectsOf, effect?, hm, hd]
  | _ => by_cases hd : d = c <;>
      simp [answers, effects, effectsOf, effect?, hd]

/-- The channel has been upgraded, and may have become inactive since. -/
def Upgraded (s : ServerState) (c : Nat) : Prop :=
  (s.connections c).stage = .webSocket ∨ (s.connections c).stage = .inactive

theorem Upgraded.ne_of_http (hc : Upgraded s c) {d : Nat} (hs : (s.connections d).stage = .http) :
    d ≠ c := by
  rintro rfl
  simp [Upgraded, hs] at hc

theorem upgraded_round (hc : Upgraded s c) (hr : Round s l t) : Upgraded t c := by
  cases hr with
  | active d hs =>
    have hd : c ≠ d := by
      rintro rfl
      simp [Upgraded, hs] at hc
    simpa [Upgraded, hd] using hc
  | inactive d hs =>
    by_cases hd : c = d
    · simp [Upgraded, hd]
    · simpa [Upgraded, hd] using hc
  | upgraded d env req hs hr h hf he =>
    by_cases hd : c = d
    · simp [Upgraded, hd]
    · simpa [Upgraded, hd] using hc
  | _ => simpa [Upgraded] using hc

theorem effects_round (hc : Upgraded s c) (hr : Round s l t) :
    effectsOf c t.log = effectsOf c s.log ++ (handledOn c [l]).flatMap (effects c) := by
  cases hr with
  | frame d env frame hs =>
    rw [ServerState.log_tell, effectsOf_append, effectsOf_answers]
    by_cases hd : d = c <;> simp [handledOn, handled?, hd]
  | refused d env req hs hr =>
    simp [effectsOf, effect?, handledOn, handled?, hc.ne_of_http hs, List.filterMap_cons]
  | failed d env req hs hr h e hf he =>
    simp [effectsOf, effect?, handledOn, handled?, hc.ne_of_http hs, List.filterMap_cons]
  | _ => simp [effectsOf, effect?, handledOn, handled?, List.filterMap_cons]

/-- Whatever the other channels do, a channel's frames are handled one by one, and nothing else is
done on it. -/
theorem effects_run (hi : Inv s₀) (hc : (s₀.connections c).stage = .webSocket)
    (h : Run Step s₀ ls s) :
    effectsOf c s.log = effectsOf c s₀.log ++ (handledOn c ls).flatMap (effects c) := by
  have hall : Inv s ∧ Upgraded s c ∧
      effectsOf c s.log = effectsOf c s₀.log ++ (handledOn c ls).flatMap (effects c) := by
    induction h with
    | start => exact ⟨hi, .inl hc, by simp [handledOn]⟩
    | next _ hs ih =>
      obtain ⟨hi, hu, he⟩ := ih
      have hr := round_of_step hi hs
      refine ⟨inv_round hi hr, upgraded_round hu hr, ?_⟩
      rw [effects_round hu hr, he]
      simp [handledOn, List.filterMap_append]
  exact hall.2.2

theorem since_eq (h₀ : Run Step .bound ls₀ s₀) (hc : (s₀.connections c).stage = .webSocket)
    (h : Run Step s₀ ls s) : since c s₀ s = (handledOn c ls).flatMap (effects c) := by
  rw [since, effects_run (inv_run h₀) hc h, List.drop_left]

def broadcast? : Effect → Option Text
  | .broadcast tws => some tws
  | _ => none

def broadcasts (es : List Effect) : List Text := es.filterMap broadcast?

/-- The further fragments of a message, each after some pings. -/
def continued : List (List Bytes × Bytes) → List WebSocketFrame
  | [] => []
  | (pings, content) :: rest =>
    pings.map .ping ++ .continuation rest.isEmpty content :: continued rest

/-- A message in fragments: the first one is a text frame, and only the last one is final. -/
def fragments (first : Bytes) (rest : List (List Bytes × Bytes)) : List WebSocketFrame :=
  .text rest.isEmpty first :: continued rest

theorem exists_continuation {rest : List (List Bytes × Bytes)} (h : rest ≠ []) :
    ∃ fin content, .continuation fin content ∈ continued rest := by
  obtain ⟨⟨pings, content⟩, rest, rfl⟩ := List.exists_cons_of_ne_nil h
  exact ⟨rest.isEmpty, content, by simp [continued]⟩

/-- What is broadcast for the frames is the one message, and the connection is kept open. -/
structure OneMessage (c : Nat) (text : Text) (es : List Effect) : Prop where
  broadcast : ∃ env, broadcasts es = [answer env c text]
  isOpen : .closed ∉ es ∧ ∀ content, .closing content ∉ es

/-- A message that arrives in fragments is broadcast like one that arrives in one frame exactly when
it does arrive in one frame. -/
theorem fragments_invisible_iff (h₀ : Run Step .bound ls₀ s₀)
    (hc : (s₀.connections c).stage = .webSocket) (h : Run Step s₀ ls s) {text : Text}
    {first : Bytes} {rest : List (List Bytes × Bytes)}
    (hframes : (handledOn c ls).map Prod.snd = fragments first rest)
    (htext : first ++ (rest.map Prod.snd).flatten = encode text) :
    OneMessage c text (since c s₀ s) ↔ rest = [] := by
  rw [since_eq h₀ hc h]
  constructor
  · intro hone
    by_contra hrest
    obtain ⟨fin, content, hmem⟩ := exists_continuation hrest
    have hm : .continuation fin content ∈ (handledOn c ls).map Prod.snd := by
      rw [hframes]
      exact List.mem_cons_of_mem _ hmem
    obtain ⟨⟨env, frame⟩, hp, hf⟩ := List.mem_map.mp hm
    obtain rfl : frame = .continuation fin content := hf
    refine hone.isOpen.1 (List.mem_flatMap.mpr ⟨_, hp, ?_⟩)
    simp [effects]
  · rintro rfl
    obtain ⟨⟨env, frame⟩, hl, hf⟩ := List.map_eq_singleton_iff.mp hframes
    obtain rfl : frame = .text true first := hf
    obtain rfl : first = encode text := by simpa using htext
    rw [hl]
    exact ⟨⟨env, by simp [effects, broadcasts, broadcast?]⟩, by simp [effects]⟩

def pong? : Effect → Option Bytes
  | .pong content => some content
  | _ => none

def pongs (es : List Effect) : List Bytes := es.filterMap pong?

def closing? : Effect → Option Bytes
  | .closing content => some content
  | _ => none

def closings (es : List Effect) : List Bytes := es.filterMap closing?

namespace WebSocketFrame

/-- A frame that is no fragment, and no binary one. -/
def Complete : WebSocketFrame → Prop
  | .text fin _ => fin = true
  | .ping _ | .pong _ | .close _ => True
  | _ => False

def isClose : WebSocketFrame → Bool
  | .close _ => true
  | _ => false

def ping? : WebSocketFrame → Option Bytes
  | .ping content => some content
  | _ => none

def close? : WebSocketFrame → Option Bytes
  | .close content => some content
  | _ => none

/-- The frame is refused, whatever else is done for it. -/
def Refused : WebSocketFrame → Prop
  | .text _ _ | .ping _ => False
  | _ => True

end WebSocketFrame

/-- The message that a text frame is broadcast as. -/
def message? (c : Nat) : Handled → Option Text
  | (env, .text _ content) => some (answer env c (decode content))
  | _ => none

/-- The frames are served as they should be: nothing is thrown, the texts before the first close
frame are broadcast, every ping has its pong, and every close frame its closing handshake. -/
structure Served (c : Nat) (hs : List Handled) (es : List Effect) : Prop where
  quiet : ∀ cause, .caught cause ∉ es
  texts : broadcasts es = (hs.takeWhile fun h => !h.2.isClose).filterMap (message? c)
  pongs : pongs es = hs.filterMap fun h => h.2.ping?
  closings : closings es = hs.filterMap fun h => h.2.close?

theorem caught_of_refused {h : Handled} (hr : h.2.Refused) :
    .caught unsupportedMessage ∈ effects c h := by
  obtain ⟨env, frame⟩ := h
  cases frame with
  | text fin content => exact hr.elim
  | ping content => exact hr.elim
  | _ => simp [effects]

theorem served_of_accepted {hs : List Handled} (h : ∀ p ∈ hs, ¬ p.2.Refused) :
    Served c hs (hs.flatMap (effects c)) := by
  induction hs with
  | nil => exact ⟨by simp, rfl, rfl, rfl⟩
  | cons p hs ih =>
    obtain ⟨hq, ht, hp, hcl⟩ := ih fun p hp => h p (List.mem_cons_of_mem _ hp)
    have hnot := h p List.mem_cons_self
    obtain ⟨env, frame⟩ := p
    rw [List.flatMap_cons]
    cases frame with
    | text fin content =>
      refine ⟨by simpa [effects] using hq, ?_, hp, hcl⟩
      rw [List.takeWhile_cons_of_pos rfl]
      exact congrArg (answer env c (decode content) :: ·) ht
    | ping content =>
      exact ⟨by simpa [effects] using hq, ht, congrArg (content :: ·) hp, hcl⟩
    | _ => exact absurd trivial hnot

/-- The complete frames of a connection are served as they should be exactly when none of them is a
pong or closes the connection. -/
theorem frames_served_iff (h₀ : Run Step .bound ls₀ s₀)
    (hc : (s₀.connections c).stage = .webSocket) (h : Run Step s₀ ls s)
    (hcomplete : ∀ p ∈ handledOn c ls, p.2.Complete) :
    Served c (handledOn c ls) (since c s₀ s) ↔
      ∀ p ∈ handledOn c ls, ∀ content, p.2 ≠ .pong content ∧ p.2 ≠ .close content := by
  have hrefused : ∀ p ∈ handledOn c ls, (¬ p.2.Refused ↔
      ∀ content, p.2 ≠ .pong content ∧ p.2 ≠ .close content) := by
    intro p hp
    have hcomp := hcomplete p hp
    cases hf : p.2 <;> simp_all [WebSocketFrame.Refused, WebSocketFrame.Complete]
  rw [since_eq h₀ hc h]
  constructor
  · intro hs p hp
    rw [← hrefused p hp]
    intro hr
    exact hs.quiet _ (List.mem_flatMap.mpr ⟨p, hp, caught_of_refused hr⟩)
  · intro hall
    exact served_of_accepted fun p hp => (hrefused p hp).mpr (hall p hp)

namespace Example

/-- The frames of the first channel, all of them on one day. -/
def sending (frames : List WebSocketFrame) : List Label :=
  frames.map fun frame => .message 0 today (.frame frame)

theorem handledOn_sending (frames : List WebSocketFrame) :
    handledOn 0 (sending frames) = frames.map fun frame => (today, frame) := by
  simp [handledOn, sending, List.filterMap_map, Function.comp_def, handled?]

theorem sending_run (frames : List WebSocketFrame) {s₀ : ServerState} {ls₀ : List Label}
    (h₀ : Run Step .bound ls₀ s₀) (hc : (s₀.connections 0).stage = .webSocket) :
    ∃ s, Run Step s₀ (sending frames) s := by
  induction frames generalizing s₀ ls₀ with
  | nil => exact ⟨s₀, .start⟩
  | cons frame frames ih =>
    have hs := Run.single (step_of_round (inv_run h₀) (.frame 0 today frame hc))
    obtain ⟨s, h⟩ := ih (h₀.append hs) hc
    exact ⟨s, hs.append h⟩

/-- A message in one frame. -/
theorem fragments_invisible_hello : ∃ ls₀ s₀ s, Run Step .bound ls₀ s₀ ∧
    Run Step s₀ (sending (fragments (encode "hello".toList) [])) s ∧
    OneMessage 0 "hello".toList (since 0 s₀ s) := by
  obtain ⟨s₀, h₀, _, hc⟩ := joined_run
  obtain ⟨s, h⟩ := sending_run (fragments (encode "hello".toList) []) h₀ hc
  have hframes : (handledOn 0 (sending (fragments (encode "hello".toList) []))).map Prod.snd =
      fragments (encode "hello".toList) [] := by
    rw [handledOn_sending]
    rfl
  exact ⟨joining, s₀, s, h₀, h,
    (fragments_invisible_iff h₀ hc h hframes (List.append_nil _)).mpr rfl⟩

/-- The same message in two frames, with a ping between them: the first fragment is broadcast, and
the second one ends the connection. -/
theorem fragments_hello : ∃ ls₀ s₀ s, Run Step .bound ls₀ s₀ ∧
    Run Step s₀ (sending (fragments (encode "hel".toList) [([[1]], encode "lo".toList)])) s ∧
    encode "hel".toList ++ encode "lo".toList = encode "hello".toList ∧
    since 0 s₀ s = [.broadcast (answer today 0 "hel".toList), .pong [1],
      .caught unsupportedMessage, .closed] ∧
    ¬ OneMessage 0 "hello".toList (since 0 s₀ s) := by
  obtain ⟨s₀, h₀, _, hc⟩ := joined_run
  obtain ⟨s, h⟩ :=
    sending_run (fragments (encode "hel".toList) [([[1]], encode "lo".toList)]) h₀ hc
  have hsince : since 0 s₀ s = [.broadcast (answer today 0 "hel".toList), .pong [1],
      .caught unsupportedMessage, .closed] := by
    have hdecode := decode_encode "hel".toList
    rw [since_eq h₀ hc h, handledOn_sending]
    simp only [fragments, continued, effects, List.map_cons, List.map_append, List.flatMap_cons,
      List.flatMap_append, hdecode]
    rfl
  refine ⟨joining, s₀, s, h₀, h, rfl, hsince, ?_⟩
  intro hone
  rw [hsince] at hone
  exact hone.isOpen.1 (by simp)

/-- A text and two pings. -/
def calls : List WebSocketFrame := [.ping [1], .text true (encode "hello".toList), .ping [2]]

theorem frames_served_calls : ∃ ls₀ s₀ s, Run Step .bound ls₀ s₀ ∧
    Run Step s₀ (sending calls) s ∧
    Served 0 (calls.map fun frame => (today, frame)) (since 0 s₀ s) := by
  obtain ⟨s₀, h₀, _, hc⟩ := joined_run
  obtain ⟨s, h⟩ := sending_run calls h₀ hc
  have hserved := frames_served_iff h₀ hc h
  rw [handledOn_sending] at hserved
  refine ⟨joining, s₀, s, h₀, h, (hserved ?_).mpr ?_⟩
  · simp [calls, WebSocketFrame.Complete]
  · simp [calls]

/-- A text, and then the closing handshake: it is made, and the close frame is refused after it. -/
theorem close_refused : ∃ ls₀ s₀ s, Run Step .bound ls₀ s₀ ∧
    Run Step s₀ (sending [.text true (encode "hello".toList), .close []]) s ∧
    since 0 s₀ s = [.broadcast (answer today 0 "hello".toList), .closing [],
      .caught unsupportedMessage, .closed] ∧
    ¬ Served 0 ([.text true (encode "hello".toList), .close []].map fun frame => (today, frame))
      (since 0 s₀ s) := by
  obtain ⟨s₀, h₀, _, hc⟩ := joined_run
  obtain ⟨s, h⟩ := sending_run [.text true (encode "hello".toList), .close []] h₀ hc
  have hsince : since 0 s₀ s = [.broadcast (answer today 0 "hello".toList), .closing [],
      .caught unsupportedMessage, .closed] := by
    have hdecode := decode_encode "hello".toList
    rw [since_eq h₀ hc h, handledOn_sending]
    simp only [effects, List.map_cons, List.flatMap_cons, hdecode]
    rfl
  refine ⟨joining, s₀, s, h₀, h, hsince, ?_⟩
  intro hserved
  rw [hsince] at hserved
  exact hserved.quiet unsupportedMessage (by simp)

end Example

end SpringDemo.Netty

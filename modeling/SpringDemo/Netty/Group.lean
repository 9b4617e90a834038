import SpringDemo.Library.Room
import SpringDemo.Netty.HandlerRuns

/-! Who receives the text frames: the group is a room in which everybody hears himself too. -/
namespace SpringDemo.Netty

open Java Lib.Room Lib.Runs Lib.Utf8

variable {s t : ServerState} {l : Label} {ls : List Label} {c d : Nat} {tws : Text}

def writeTo? (d : Nat) : Event → Option Text
  | .wrote c tws => if c = d then some tws else none
  | _ => none

/-- The text frames that a channel was written. -/
def writesTo (d : Nat) (log : List Event) : List Text := log.filterMap (writeTo? d)

/-- What an event is to the room. -/
def act? : Event → Option (Act Nat Text)
  | .active c => some (.join c)
  | .inactive c => some (.leave c)
  | .broadcast c _ tws => some (.say c tws)
  | _ => none

def acts (log : List Event) : List (Act Nat Text) := log.filterMap act?

/-- Nobody is greeted, and who speaks hears himself. -/
def everybody : Rules Text := ⟨[], true⟩

theorem writesTo_append (d : Nat) (log log' : List Event) :
    writesTo d (log ++ log') = writesTo d log ++ writesTo d log' := List.filterMap_append

theorem acts_append (log log' : List Event) : acts (log ++ log') = acts log ++ acts log' :=
  List.filterMap_append

/-- Whatever its order, the group writes to each member once. -/
theorem writesTo_members {members : List Nat} (hn : members.Nodup) (d : Nat) (tws : Text) :
    writesTo d (members.map (.wrote · tws)) = if d ∈ members then [tws] else [] := by
  induction members with
  | nil => rfl
  | cons c members ih =>
    obtain ⟨hc, hn⟩ := List.nodup_cons.mp hn
    rw [writesTo, List.map_cons, List.filterMap_cons]
    by_cases hcd : c = d
    · subst hcd
      have ih := ih hn
      rw [if_neg hc, writesTo] at ih
      simp [writeTo?, ih]
    · have hdc : d ≠ c := Ne.symm hcd
      simpa [writeTo?, writesTo, hcd, hdc] using ih hn

theorem acts_members (members : List Nat) (tws : Text) :
    acts (members.map (.wrote · tws)) = [] := by
  simp [acts, act?, List.filterMap_map, Function.comp_def]

/-- The log tells where each channel is in its life, and each channel was written what its member
of the room hears. -/
structure Grouped (s : ServerState) : Prop where
  active : ∀ d, .active d ∈ s.log ↔ (s.connections d).stage ≠ .unconnected
  inactive : ∀ d, .inactive d ∈ s.log ↔ (s.connections d).stage = .inactive
  present : ∀ d, present d false (acts s.log) = (s.connections d).stage.live
  heard : ∀ d, writesTo d s.log = heard everybody d false (acts s.log)

theorem Grouped.live_iff (h : Grouped s) :
    (s.connections d).stage.live = true ↔ .active d ∈ s.log ∧ .inactive d ∉ s.log := by
  rw [h.active, h.inactive]
  cases (s.connections d).stage <;> simp [Stage.live]

theorem grouped_bound : Grouped .bound where
  active := by simp [ServerState.bound]
  inactive := by simp [ServerState.bound]
  present _ := rfl
  heard _ := rfl

/-- An event at which nobody comes or goes. -/
theorem Grouped.tell (h : Grouped s) {es : List Event}
    (hst : ∀ d, (t.connections d).stage = (s.connections d).stage ∨
      (s.connections d).stage = .http ∧ (t.connections d).stage = .webSocket)
    (hlog : t.log = s.log ++ es) (he : ∀ d, .active d ∉ es ∧ .inactive d ∉ es)
    (hp : ∀ d b, Lib.Room.present d b (acts es) = b)
    (hw : ∀ d, writesTo d es =
      Lib.Room.heard everybody d (s.connections d).stage.live (acts es)) : Grouped t where
  active d := by
    rw [hlog, List.mem_append, h.active, or_iff_left (he d).1]
    rcases hst d with hd | ⟨hd, hd'⟩
    · rw [hd]
    · simp [hd, hd']
  inactive d := by
    rw [hlog, List.mem_append, h.inactive, or_iff_left (he d).2]
    rcases hst d with hd | ⟨hd, hd'⟩
    · rw [hd]
    · simp [hd, hd']
  present d := by
    rw [hlog, acts_append, present_append, hp, h.present]
    rcases hst d with hd | ⟨hd, hd'⟩
    · rw [hd]
    · rw [hd, hd']
      rfl
  heard d := by rw [hlog, writesTo_append, acts_append, heard_append, h.heard, h.present, hw]

/-- An event at which nothing is said. -/
theorem Grouped.tell_silent (h : Grouped s) {es : List Event}
    (hst : ∀ d, (t.connections d).stage = (s.connections d).stage ∨
      (s.connections d).stage = .http ∧ (t.connections d).stage = .webSocket)
    (hlog : t.log = s.log ++ es) (ha : acts es = []) (hw : ∀ d, writesTo d es = []) :
    Grouped t := by
  refine h.tell hst hlog ?_ ?_ ?_
  · intro d
    rw [acts, List.filterMap_eq_nil_iff] at ha
    exact ⟨fun hm => by simpa [act?] using ha _ hm, fun hm => by simpa [act?] using ha _ hm⟩
  · intro d b
    rw [ha]
    rfl
  · intro d
    rw [ha, hw]
    rfl

theorem answers_silent (env : Env) (group : List Nat) (c : Nat) (frame : WebSocketFrame)
    (hf : ∀ fin content, frame ≠ .text fin content) :
    acts (answers env group c frame) = [] ∧ ∀ d, writesTo d (answers env group c frame) = [] := by
  cases frame with
  | text fin content => exact absurd rfl (hf fin content)
  | _ => exact ⟨rfl, fun d => rfl⟩

theorem acts_text (env : Env) (group : List Nat) (c : Nat) (fin : Bool) (content : Bytes) :
    acts (answers env group c (.text fin content)) =
      [.say c (answer env c (decode content))] := by
  simp only [answers, acts, List.filterMap_cons, act?]
  exact congrArg _ (acts_members _ _)

/-- A text frame is written to the members of the group, once each. -/
theorem writesTo_text (hi : Inv s) (env : Env) (c : Nat) (fin : Bool) (content : Bytes) (d : Nat) :
    writesTo d (answers env s.group c (.text fin content)) =
      if d ∈ s.group then [answer env c (decode content)] else [] := by
  have hn : (env.order s.group).Nodup := (env.order_perm s.group).nodup_iff.mpr hi.nodup
  have hw := writesTo_members hn d (answer env c (decode content))
  simp only [(env.order_perm s.group).mem_iff] at hw
  rw [← hw, answers, writesTo, List.filterMap_cons_none rfl]
  rfl

theorem grouped_active (h : Grouped s) (hs : (s.connections c).stage = .unconnected)
    {group : List Nat} :
    Grouped (ServerState.tell { s.setStage c .http with group := group } [.active c]) := by
  have ha : acts (s.log ++ [.active c]) = acts s.log ++ [.join c] := acts_append _ _
  refine ⟨fun d => ?_, fun d => ?_, fun d => ?_, fun d => ?_⟩
  · by_cases hd : d = c <;> simp [hd, h.active]
  · by_cases hd : d = c <;> simp [hd, h.inactive, hs]
  · rw [ServerState.log_tell, ServerState.log_setStage, ha, present_concat, h.present]
    by_cases hd : d = c
    · simp [hd, here, Stage.live]
    · simp [hd, here, Ne.symm hd]
  · rw [ServerState.log_tell, ServerState.log_setStage, ha, heard_concat, writesTo_append, h.heard]
    by_cases hd : c = d <;> simp [hears, everybody, writesTo, writeTo?, hd]

theorem grouped_inactive (h : Grouped s) (hs : (s.connections c).stage.live = true)
    {group : List Nat} :
    Grouped (ServerState.tell { s.setStage c .inactive with group := group } [.inactive c]) := by
  have ha : acts (s.log ++ [.inactive c]) = acts s.log ++ [.leave c] := acts_append _ _
  refine ⟨fun d => ?_, fun d => ?_, fun d => ?_, fun d => ?_⟩
  · by_cases hd : d = c
    · cases hst : (s.connections c).stage <;> simp_all [Stage.live, h.active]
    · simp [hd, h.active]
  · by_cases hd : d = c <;> simp [hd, h.inactive]
  · rw [ServerState.log_tell, ServerState.log_setStage, ha, present_concat, h.present]
    by_cases hd : d = c
    · simp [hd, here, Stage.live]
    · simp [hd, here, Ne.symm hd]
  · rw [ServerState.log_tell, ServerState.log_setStage, ha, heard_concat, writesTo_append, h.heard]
    simp [hears, writesTo, writeTo?]

theorem grouped_text (hi : Inv s) (h : Grouped s) (env : Env) (c : Nat) (fin : Bool)
    (content : Bytes) : Grouped (s.tell (answers env s.group c (.text fin content))) := by
  have ha := acts_text env s.group c fin content
  refine h.tell (fun d => .inl rfl) rfl (fun d => ?_) ?_ ?_
  · simp [answers]
  · intro d b
    rw [ha]
    rfl
  · intro d
    rw [ha, writesTo_text hi]
    simp [Lib.Room.heard, hears, everybody, hi.group]

theorem grouped_round (hi : Inv s) (h : Grouped s) (hr : Round s l t) : Grouped t := by
  cases hr with
  | active c hs => exact grouped_active h hs
  | inactive c hs => exact grouped_inactive h hs
  | frame c env frame hs =>
    by_cases hf : ∃ fin content, frame = .text fin content
    · obtain ⟨fin, content, rfl⟩ := hf
      exact grouped_text hi h env c fin content
    · have hq := answers_silent env s.group c frame (by simpa using hf)
      exact h.tell_silent (fun d => .inl rfl) rfl hq.1 hq.2
  | upgraded c env req hs hr e hf he =>
    refine h.tell_silent (fun d => ?_) rfl rfl fun d => rfl
    by_cases hd : d = c <;> simp [hd, hs]
  | refused c env req hs hr => exact h.tell_silent (fun d => .inl rfl) rfl rfl fun d => rfl
  | readComplete c hs => exact h.tell_silent (fun d => .inl rfl) rfl rfl fun d => rfl
  | _ => exact h.tell_silent (fun d => .inl (by simp)) rfl rfl fun d => rfl

theorem grouped_run (h : Run Step .bound ls s) : Grouped s :=
  (h.invariant (P := fun s => Inv s ∧ Grouped s)
    (fun _ _ _ hs hi => ⟨inv_step hi.1 hs, grouped_round hi.1 hi.2 (round_of_step hi.1 hs)⟩)
    ⟨inv_bound, grouped_bound⟩).2

/-- The event is a text frame of some channel. -/
def Label.IsText (l : Label) : Prop :=
  ∃ c env fin content, l = .message c env (.frame (.text fin content))

theorem writesTo_round (hr : Round s l t) (hl : ¬ l.IsText) (d : Nat) :
    writesTo d t.log = writesTo d s.log := by
  cases hr with
  | frame c env frame hs =>
    have hf : ∀ fin content, frame ≠ .text fin content := by
      rintro fin content rfl
      exact hl ⟨c, env, fin, content, rfl⟩
    rw [ServerState.log_tell, writesTo_append, (answers_silent env s.group c frame hf).2,
      List.append_nil]
  | _ => simp [writesTo, writeTo?]

theorem writesTo_text_round (hi : Inv s) (hg : Grouped s) {env : Env} {fin : Bool}
    {content : Bytes} (hr : Round s (.message c env (.frame (.text fin content))) t) (d : Nat) :
    writesTo d t.log = writesTo d s.log ++
      if .active d ∈ s.log ∧ .inactive d ∉ s.log then [answer env c (decode content)] else [] := by
  cases hr with
  | frame c env frame hs =>
    rw [ServerState.log_tell, writesTo_append, writesTo_text hi]
    simp only [hi.group, hg.live_iff]

/-- Every text frame is written once to each channel that is active at that time, whether or not it
was upgraded, and to nobody else. -/
theorem text_reaches_active (h : Run Step .bound ls s) :
    (∀ d, writesTo d s.log = heard everybody d false (acts s.log)) ∧
    (∀ c env fin content t, Step s (.message c env (.frame (.text fin content))) t →
      ∀ d, writesTo d t.log = writesTo d s.log ++
        if .active d ∈ s.log ∧ .inactive d ∉ s.log then [answer env c (decode content)]
        else []) ∧
    ∀ l t, Step s l t → ¬ l.IsText → ∀ d, writesTo d t.log = writesTo d s.log := by
  have hi := inv_run h
  have hg := grouped_run h
  refine ⟨hg.heard, ?_, ?_⟩
  · intro c env fin content t hs
    exact writesTo_text_round hi hg (round_of_step hi hs)
  · intro l t hs
    exact writesTo_round (round_of_step hi hs)

namespace Example

/-- A day on which every upgrade succeeds. -/
def today : Env where
  newHandshaker _ _ := some ⟨fun _ => .ok ()⟩
  date := "Tue Jan 18 16:50:00 CST 2022".toList
  id c := (toString c).toList
  order := id
  order_perm _ := .refl _

def upgrade : FullHttpRequest where
  isSuccess := true
  headers name := if name = "Upgrade" then some "websocket" else none

/-- Two channels have become active, and the first one was upgraded. -/
def joining : List Label := [.active 0, .active 1, .message 0 today (.request upgrade)]

theorem joined_run : ∃ s, Run Step .bound joining s ∧
    s.log = [.active 0, .active 1, .upgraded 0] ∧ (s.connections 0).stage = .webSocket := by
  have h₀ := Run.single (step_of_round inv_bound (.active 0 rfl))
  have h₁ := h₀.append (.single (step_of_round (inv_run h₀) (.active 1 rfl)))
  have h₂ := h₁.append (.single (step_of_round (inv_run h₁)
    (.upgraded 0 today upgrade rfl ⟨rfl, rfl⟩ ⟨fun _ => .ok ()⟩ rfl rfl)))
  exact ⟨_, h₂, rfl, rfl⟩

/-- What the first channel says. -/
def saying (text : String) : Label := .message 0 today (.frame (.text true (encode text.toList)))

theorem text_reaches_two : ∃ s, Run Step .bound (joining ++ [saying "hello"]) s ∧
    writesTo 0 s.log = [answer today 0 "hello".toList] ∧
    writesTo 1 s.log = [answer today 0 "hello".toList] := by
  obtain ⟨s, h, hlog, hst⟩ := joined_run
  have hs := step_of_round (inv_run h) (.frame 0 today (.text true (encode "hello".toList)) hst)
  have hreach := (text_reaches_active h).2.1 0 today true _ _ hs
  refine ⟨_, h.next hs, ?_, ?_⟩
  · rw [hreach, decode_encode, hlog]
    rfl
  · rw [hreach, decode_encode, hlog]
    rfl

/-- The second channel never asked for an upgrade. -/
theorem text_reaches_http : ∃ s, Run Step .bound (joining ++ [saying "hello"]) s ∧
    .upgraded 1 ∉ s.log ∧ writesTo 1 s.log = [answer today 0 "hello".toList] := by
  obtain ⟨s, h, hlog, hst⟩ := joined_run
  have hround := Round.frame 0 today (.text true (encode "hello".toList)) hst
  have hw := writesTo_text_round (inv_run h) (grouped_run h) hround 1
  refine ⟨_, h.next (step_of_round (inv_run h) hround), ?_, ?_⟩
  · simp [hlog, answers]
  · rw [hw, decode_encode, hlog]
    rfl

end Example

end SpringDemo.Netty

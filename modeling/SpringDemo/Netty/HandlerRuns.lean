import SpringDemo.Library.Runs
import SpringDemo.Netty.Handler

/-! Runs of the WebSocket server: what each event comes to, and who is in the group. -/
namespace SpringDemo.Netty

open Java Lib.Exec Lib.Runs Lib.Utf8

variable {s t : ServerState} {l : Label} {ls : List Label} {c d : Nat} {stage : Stage}
  {handshaker : Option WebSocketServerHandshaker} {es : List Event}

namespace ServerState

@[simp] theorem stage_setStage : ((s.setStage c stage).connections d).stage =
    if d = c then stage else (s.connections d).stage := by
  by_cases hd : d = c
  · simp [setStage, hd]
  · simp [setStage, hd]

@[simp] theorem handshaker_setStage :
    ((s.setStage c stage).connections d).handshaker = (s.connections d).handshaker := by
  by_cases hd : d = c
  · simp [setStage, hd]
  · simp [setStage, Function.update_of_ne hd]

@[simp] theorem group_setStage : (s.setStage c stage).group = s.group := rfl

@[simp] theorem log_setStage : (s.setStage c stage).log = s.log := rfl

@[simp] theorem stage_setHandshaker :
    ((s.setHandshaker c handshaker).connections d).stage = (s.connections d).stage := by
  by_cases hd : d = c
  · simp [setHandshaker, hd]
  · simp [setHandshaker, Function.update_of_ne hd]

@[simp] theorem handshaker_setHandshaker :
    ((s.setHandshaker c handshaker).connections d).handshaker =
      if d = c then handshaker else (s.connections d).handshaker := by
  by_cases hd : d = c
  · simp [setHandshaker, hd]
  · simp [setHandshaker, hd]

@[simp] theorem group_setHandshaker : (s.setHandshaker c handshaker).group = s.group := rfl

@[simp] theorem log_setHandshaker : (s.setHandshaker c handshaker).log = s.log := rfl

@[simp] theorem connections_tell : (s.tell es).connections = s.connections := rfl

@[simp] theorem group_tell : (s.tell es).group = s.group := rfl

@[simp] theorem log_tell : (s.tell es).log = s.log ++ es := rfl

@[simp] theorem tell_tell (es' : List Event) : (s.tell es).tell es' = s.tell (es ++ es') := by
  simp [tell]

end ServerState

/-- What a frame comes to: the close frame is refused as well, after its handshake. -/
def answers (env : Env) (group : List Nat) (c : Nat) : WebSocketFrame → List Event
  | .text _ content => .broadcast c (decode content) (answer env c (decode content)) ::
      (env.order group).map (.wrote · (answer env c (decode content)))
  | .ping content => [.pong c content]
  | .close content => [.closing c content, .caught c unsupportedMessage, .closed c]
  | _ => [.caught c unsupportedMessage, .closed c]

/-- The response to a request that is no upgrade. -/
def badRequest : DefaultFullHttpResponse := ⟨BAD_REQUEST, encode BAD_REQUEST.toText⟩

/-- The request asks for an upgrade. -/
def FullHttpRequest.Upgrades (req : FullHttpRequest) : Prop :=
  req.isSuccess = true ∧ req.headers "Upgrade" = some "websocket"

/-- Everything that an event can come to. -/
inductive Round (s : ServerState) : Label → ServerState → Prop
  | active (c : Nat) (hs : (s.connections c).stage = .unconnected) :
      Round s (.active c) (ServerState.tell { s.setStage c .http with
        group := if c ∈ s.group then s.group else s.group ++ [c] } [.active c])
  | inactive (c : Nat) (hs : (s.connections c).stage.live = true) :
      Round s (.inactive c) (ServerState.tell { s.setStage c .inactive with
        group := s.group.filter (· ≠ c) } [.inactive c])
  | refused (c : Nat) (env : Env) (req : FullHttpRequest) (hs : (s.connections c).stage = .http)
      (hr : ¬ req.Upgrades) :
      Round s (.message c env (.request req)) (s.tell [.responded c badRequest, .closed c])
  | unsupported (c : Nat) (env : Env) (req : FullHttpRequest)
      (hs : (s.connections c).stage = .http) (hr : req.Upgrades)
      (hf : env.newHandshaker WEB_SOCKET_URL req = none) :
      Round s (.message c env (.request req))
        ((s.setHandshaker c none).tell [.unsupportedVersion c])
  | failed (c : Nat) (env : Env) (req : FullHttpRequest) (hs : (s.connections c).stage = .http)
      (hr : req.Upgrades) (h : WebSocketServerHandshaker) (e : Throwable)
      (hf : env.newHandshaker WEB_SOCKET_URL req = some h) (he : h.handshake req = .error e) :
      Round s (.message c env (.request req))
        ((s.setHandshaker c (some h)).tell [.caught c e, .closed c])
  | upgraded (c : Nat) (env : Env) (req : FullHttpRequest)
      (hs : (s.connections c).stage = .http) (hr : req.Upgrades) (h : WebSocketServerHandshaker)
      (hf : env.newHandshaker WEB_SOCKET_URL req = some h) (he : h.handshake req = .ok ()) :
      Round s (.message c env (.request req))
        (((s.setHandshaker c (some h)).setStage c .webSocket).tell [.upgraded c])
  | frame (c : Nat) (env : Env) (frame : WebSocketFrame)
      (hs : (s.connections c).stage = .webSocket) :
      Round s (.message c env (.frame frame)) (s.tell (answers env s.group c frame))
  | readComplete (c : Nat) (hs : (s.connections c).stage.live = true) :
      Round s (.readComplete c) (s.tell [.flushed c])

/-- Whoever speaks frames has shaken hands, and the group has the channels that live. -/
structure Inv (s : ServerState) : Prop where
  handshaker : ∀ c, (s.connections c).stage = .webSocket → (s.connections c).handshaker ≠ none
  group : ∀ c, c ∈ s.group ↔ (s.connections c).stage.live = true
  nodup : s.group.Nodup

theorem tell_run (e : Event) (s : ServerState) : tell e s = .ok () (s.tell [e]) := rfl

theorem invoke_ok {x : Handler Unit} (hx : x s = .ok () t) : final (invoke c x s) = t := by
  rw [invoke, catching_ok hx]
  rfl

theorem invoke_error {x : Handler Unit} {e : Throwable} (hx : x s = .error e t) :
    final (invoke c x s) = t.tell [.caught c e, .closed c] := by
  rw [invoke, catching_caught hx rfl]
  simp [exceptionCaught, bind_run, tell_run]

theorem writeAndFlush_run (env : Env) (tws : Text) (s : ServerState) :
    writeAndFlush env tws s = .ok () (s.tell ((env.order s.group).map (.wrote · tws))) := by
  have hall := forM_tell (fun es s => s.tell es) (by simp [ServerState.tell]) (by simp)
    (fun c s => tell_run (.wrote c tws) s) (env.order s.group) s
  rw [writeAndFlush, bind_ok (get_run s), hall, List.map_eq_flatMap]

theorem frame_round (hi : Inv s) (env : Env) (frame : WebSocketFrame)
    (hs : (s.connections c).stage = .webSocket) :
    final (invoke c (handWebsocketFrame env c frame) s) = s.tell (answers env s.group c frame) := by
  cases frame with
  | text fin content =>
    refine invoke_ok ?_
    simp [handWebsocketFrame, bind_run, tell_run, writeAndFlush_run, answers]
  | ping content => exact invoke_ok rfl
  | close content =>
    have hc : closeHandshake c content s = .ok () (s.tell [.closing c content]) := by
      obtain ⟨h, hh⟩ := Option.ne_none_iff_exists'.mp (hi.handshaker c hs)
      simp [closeHandshake, bind_run, hh, tell_run]
    have hx : handWebsocketFrame env c (.close content) s =
        .error unsupportedMessage (s.tell [.closing c content]) := by
      rw [handWebsocketFrame, bind_ok hc]
      rfl
    rw [invoke_error hx]
    simp [answers]
  | _ => exact invoke_error rfl

theorem request_round (env : Env) (req : FullHttpRequest)
    (hs : (s.connections c).stage = .http) :
    Round s (.message c env (.request req)) (final (invoke c (handHttpRequest env c req) s)) := by
  by_cases hr : req.Upgrades
  · have hb : ¬ (req.isSuccess = false ∨ req.headers "Upgrade" ≠ some "websocket") := by
      simp [hr.1, hr.2]
    cases hf : env.newHandshaker WEB_SOCKET_URL req with
    | none =>
      have hx : handHttpRequest env c req s =
          .ok () ((s.setHandshaker c none).tell [.unsupportedVersion c]) := by
        rw [handHttpRequest, if_neg hb]
        simp [bind_run, hf, tell_run]
      rw [invoke_ok hx]
      exact .unsupported c env req hs hr hf
    | some h =>
      cases he : h.handshake req with
      | error e =>
        have hx : handHttpRequest env c req s = .error e (s.setHandshaker c (some h)) := by
          rw [handHttpRequest, if_neg hb]
          simp [bind_run, hf, he]
        rw [invoke_error hx]
        exact .failed c env req hs hr h e hf he
      | ok u =>
        have hx : handHttpRequest env c req s =
            .ok () (((s.setHandshaker c (some h)).setStage c .webSocket).tell [.upgraded c]) := by
          rw [handHttpRequest, if_neg hb]
          simp [bind_run, hf, he, tell_run]
        rw [invoke_ok hx]
        exact .upgraded c env req hs hr h hf he
  · have hb : req.isSuccess = false ∨ req.headers "Upgrade" ≠ some "websocket" := by
      rw [FullHttpRequest.Upgrades, not_and_or] at hr
      simpa using hr
    have hx : handHttpRequest env c req s =
        .ok () (s.tell [.responded c badRequest, .closed c]) := by
      rw [handHttpRequest, if_pos hb]
      simp [sendHttpResponse, badRequest, BAD_REQUEST, bind_run, tell_run]
    rw [invoke_ok hx]
    exact .refused c env req hs hr

/-- Each event comes to one of these. -/
theorem round_of_step (hi : Inv s) (h : Step s l t) : Round s l t := by
  cases h with
  | active c hs =>
    rw [invoke_ok (x := channelActive c) rfl]
    exact .active c hs
  | inactive c hs =>
    rw [invoke_ok (x := channelInactive c) rfl]
    exact .inactive c hs
  | message c env msg hs =>
    cases msg with
    | request req =>
      refine request_round env req ?_
      cases hst : (s.connections c).stage <;> simp_all [Stage.decodes]
    | frame frame =>
      have hst : (s.connections c).stage = .webSocket := by
        cases hst : (s.connections c).stage <;> simp_all [Stage.decodes]
      have hx := frame_round hi env frame hst
      rw [messageReceived, hx]
      exact .frame c env frame hst
  | readComplete c hs =>
    rw [invoke_ok (x := channelReadComplete c) rfl]
    exact .readComplete c hs

theorem round_unique {t' : ServerState} (h : Round s l t) (h' : Round s l t') : t = t' := by
  cases h <;> cases h' <;> simp_all

/-- Each of these is an event. -/
theorem step_of_round (hi : Inv s) (h : Round s l t) : Step s l t := by
  obtain ⟨t', ht'⟩ : ∃ t', Step s l t' := by
    cases h with
    | active c hs => exact ⟨_, .active s c hs⟩
    | inactive c hs => exact ⟨_, .inactive s c hs⟩
    | frame c env frame hs =>
      exact ⟨_, .message s c env (.frame frame) (by simp [hs, Stage.decodes])⟩
    | readComplete c hs => exact ⟨_, .readComplete s c hs⟩
    | _ => exact ⟨_, .message s _ _ (.request _) (by simp_all [Stage.decodes])⟩
  rw [round_unique h (round_of_step hi ht')]
  exact ht'

theorem inv_bound : Inv .bound where
  handshaker := nofun
  group := by simp [ServerState.bound, Stage.live]
  nodup := .nil

theorem inv_round (hi : Inv s) (h : Round s l t) : Inv t := by
  obtain ⟨hh, hg, hn⟩ := hi
  cases h with
  | active c hs =>
    have hc : c ∉ s.group := by simp [hg, hs, Stage.live]
    refine ⟨fun d => ?_, fun d => ?_, ?_⟩
    · by_cases hd : d = c
      · simp [hd]
      · simpa [hd] using hh d
    · by_cases hd : d = c
      · simp [hd, hc, Stage.live]
      · simpa [hd, hc] using hg d
    · simpa [hc, List.nodup_append] using ⟨hn, fun d hd hdc => hc (hdc ▸ hd)⟩
  | inactive c hs =>
    refine ⟨fun d => ?_, fun d => ?_, hn.filter _⟩
    · by_cases hd : d = c
      · simp [hd]
      · simpa [hd] using hh d
    · by_cases hd : d = c
      · simp [hd, Stage.live]
      · simpa [hd] using hg d
  | unsupported c env req hs hr hf =>
    refine ⟨fun d => ?_, fun d => by simpa using hg d, hn⟩
    by_cases hd : d = c
    · simp [hd, hs]
    · simpa [hd] using hh d
  | failed c env req hs hr h e hf he =>
    refine ⟨fun d => ?_, fun d => by simpa using hg d, hn⟩
    by_cases hd : d = c
    · simp [hd]
    · simpa [hd] using hh d
  | upgraded c env req hs hr h hf he =>
    refine ⟨fun d => ?_, fun d => ?_, hn⟩
    · by_cases hd : d = c
      · simp [hd]
      · simpa [hd] using hh d
    · by_cases hd : d = c
      · simp [hd, hg, hs, Stage.live]
      · simpa [hd] using hg d
  | _ => exact ⟨hh, hg, hn⟩

theorem inv_step (hi : Inv s) (h : Step s l t) : Inv t := inv_round hi (round_of_step hi h)

theorem inv_run (h : Run Step .bound ls s) : Inv s :=
  h.invariant (fun _ _ _ hs hi => inv_step hi hs) inv_bound

end SpringDemo.Netty

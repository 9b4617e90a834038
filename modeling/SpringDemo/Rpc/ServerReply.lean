import SpringDemo.Rpc.Example

/-! What a request is answered with: one response, its code, and when none is written. -/
namespace SpringDemo.Rpc

open Java Lib.Exec

namespace RpcServer

variable {V B W σ : Type} [JavaObject V]

/-- The response that the outcome of the `try` block leads to. -/
def answer : Except Throwable V → Response V
  | .ok v => { (Response.new : Response V) with data := v }
  | .error e =>
    if e.isException then
      { (Response.new : Response V) with code := 1, message := some (errorMessage e) }
    else Response.new

/-- How the `try` statement ends once its `catch` clause has had its turn. -/
def settled : Except Throwable V → Except Throwable Unit
  | .ok _ => .ok ()
  | .error e => if e.isException then .ok () else .error e

/-- The response as the `finally` block finds it. -/
def resulting (srv : RpcServer V B W σ) (st : ServerState V B W) (recive : σ) : Response V :=
  (final (catching Throwable.isException (srv.serve recive >>= setData) fail
    (RequestFrame.enter st))).resp

variable {srv : RpcServer V B W σ} {recive : σ} {toResp : Bytes → Except Throwable Unit}
  {st : ServerState V B W} {r : Except Throwable V} {evs : List (Event V B)} {w : W}
  {v : V} {e : Throwable} {bytes : Bytes}

/-- The `try` and `catch` blocks together. -/
theorem settle_of_exit (h : Exit srv st.services st.world recive r evs w) :
    catching Throwable.isException (srv.serve recive >>= setData) fail (RequestFrame.enter st) =
      ended (settled r)
        ⟨{ st with world := w, log := st.log ++ evs }, answer r⟩ := by
  have hs := serve_of_exit (f := (RequestFrame.enter st)) h
  cases r with
  | ok v =>
    rw [catching_ok (by rw [bind_ok (by simpa using hs)]; rfl)]
    rfl
  | error e =>
    have hb := bind_error (k := setData) (by simpa using hs)
    cases he : e.isException with
    | true =>
      rw [catching_caught hb he]
      simp [settled, answer, he, fail, RequestFrame.enter]
    | false =>
      rw [catching_passed hb he]
      simp [settled, answer, he, RequestFrame.enter]

theorem resulting_of_exit (h : Exit srv st.services st.world recive r evs w) :
    srv.resulting st recive = answer r := by
  rw [resulting, settle_of_exit h, final_ended]

/-- How the `finally` block ends, and what it logs. -/
def replied (srv : RpcServer V B W σ) (toResp : Bytes → Except Throwable Unit)
    (resp : Response V) : Except Throwable Unit × List (Event V B) :=
  match srv.encode resp with
  | .ok bytes => (ignoring Throwable.isIOException (toResp bytes), [.encoded resp, .wrote bytes])
  | .error e => (ignoring Throwable.isIOException (.error e), [.encoded resp])

omit [JavaObject V] in
theorem reply_run (f : RequestFrame V B W) :
    catching Throwable.isIOException (srv.reply toResp) (fun _ => pure ()) f =
      ended (srv.replied toResp f.resp).1
        { f with log := f.log ++ (srv.replied toResp f.resp).2 } := by
  unfold replied
  cases henc : srv.encode f.resp with
  | ok bytes =>
    have hx : srv.reply toResp f = ended (toResp bytes)
        { f with log := f.log ++ [.encoded f.resp, .wrote bytes] } := by
      simp [reply, tell, bind_run, henc]
    exact catching_ignore hx
  | error e =>
    have hx : srv.reply toResp f = ended (.error e)
        { f with log := f.log ++ [.encoded f.resp] } := by
      simp [reply, tell, bind_run, henc]
    exact catching_ignore hx

/-- The whole handler, by the outcomes of its `try` block and of its `finally` block. -/
theorem onRequest_of_exit (h : Exit srv st.services st.world recive r evs w) :
    srv.onRequest recive toResp st =
      ended ((srv.replied toResp (answer r)).1.bind fun _ => settled r)
        { st with
          world := w
          log := st.log ++ evs ++ (srv.replied toResp (answer r)).2 } := by
  have hh : srv.handle recive toResp (RequestFrame.enter st) = _ :=
    andFinally_ended (settle_of_exit h) (reply_run _)
  exact inFrame_ended hh

theorem onRequest_log (h : Exit srv st.services st.world recive r evs w) :
    (final (srv.onRequest recive toResp st)).log =
      st.log ++ (evs ++ (srv.replied toResp (answer r)).2) := by
  rw [onRequest_of_exit h, final_ended, List.append_assoc]

theorem onRequest_outcome (h : Exit srv st.services st.world recive r evs w) :
    outcome (srv.onRequest recive toResp st) =
      (srv.replied toResp (answer r)).1.bind fun _ => settled r := by
  rw [onRequest_of_exit h, outcome_ended]

omit [JavaObject V] in
/-- One response is encoded whatever happened, and written if the encoder accepts it. -/
theorem replied_events (srv : RpcServer V B W σ) (toResp : Bytes → Except Throwable Unit)
    (resp : Response V) :
    (srv.replied toResp resp).2.filterMap Event.encoded? = [resp] ∧
      (srv.replied toResp resp).2.filterMap Event.wrote? = (srv.encode resp).toOption.toList := by
  unfold replied
  cases srv.encode resp <;>
    simp [List.filterMap_cons, Event.encoded?, Event.wrote?, Except.toOption]

omit [JavaObject V] in
theorem replied_ok {resp : Response V} (hb : srv.encode resp = .ok bytes)
    (hw : ∀ e, toResp bytes = .error e → e.isIOException = true) :
    (srv.replied toResp resp).1 = .ok () := by
  simp only [replied, hb]
  cases hr : toResp bytes with
  | ok u => rfl
  | error e => simp [ignoring, hw e hr]

omit [JavaObject V] in
theorem settled_ok (hr : ∀ e, r = .error e → e.isException = true) : settled r = .ok () := by
  cases r with
  | ok v => rfl
  | error e => simp [settled, hr e rfl]

/-- The steps are functions of the request and of the state. -/
theorem exit_unique {services : Services B} {world w w' : W} {r r' : Except Throwable V}
    {evs evs' : List (Event V B)} (h : Exit srv services world recive r evs w)
    (h' : Exit srv services world recive r' evs' w') : r = r' := by
  have hs := serve_of_exit (f := RequestFrame.enter ⟨services, world, []⟩) h
  rw [serve_of_exit (f := RequestFrame.enter ⟨services, world, []⟩) h'] at hs
  simpa using (congrArg outcome hs).symm

/-- The `try` block ends with this failure. -/
def Fails (srv : RpcServer V B W σ) (services : Services B) (world : W) (recive : σ)
    (e : Throwable) : Prop :=
  ∃ evs w, Exit srv services world recive (.error e) evs w

theorem eq_ok_iff (h : Exit srv st.services st.world recive r evs w) :
    r = .ok v ↔ Succeeds srv st.services st.world recive v := by
  rw [← exit_ok_iff]
  constructor
  · rintro rfl
    exact ⟨evs, w, h⟩
  · rintro ⟨evs', w', h'⟩
    exact exit_unique h h'

theorem eq_error_iff (h : Exit srv st.services st.world recive r evs w) :
    r = .error e ↔ Fails srv st.services st.world recive e := by
  constructor
  · rintro rfl
    exact ⟨evs, w, h⟩
  · rintro ⟨evs', w', h'⟩
    exact exit_unique h h'

theorem answer_code (hr : ∀ e, r = .error e → e.isException = true) :
    (answer r).code = 0 ∧ (answer r).data = v ↔ r = .ok v := by
  cases r with
  | ok v' => simp [answer, Response.new]
  | error e => simp [answer, hr e rfl]

theorem answer_failed (hr : ∀ e, r = .error e → e.isException = true)
    (hno : ∀ v, r ≠ .ok v) : (answer r).code = 1 ∧ (answer r).data = JavaObject.null := by
  cases r with
  | ok v => exact absurd rfl (hno v)
  | error e => simp [answer, hr e rfl, Response.new]

/-- Whatever the steps do, one response goes out, and its code tells what became of the call. -/
theorem status_truthful (srv : RpcServer V B W σ) (st : ServerState V B W) (recive : σ)
    (toResp : Bytes → Except Throwable Unit)
    (hread : ∀ e, readBody srv.io recive = .error e → e.isException = true)
    (hdecode : ∀ inBytes e, srv.decode inBytes = .error e → e.isException = true)
    (hwrite : ∀ bytes e, toResp bytes = .error e → e.isIOException = true)
    (hencode : ∃ bytes, srv.encode (srv.resulting st recive) = .ok bytes) :
    outcome (srv.onRequest recive toResp st) = .ok () ∧
    ∃ evs resp bytes,
      (final (srv.onRequest recive toResp st)).log = st.log ++ evs ∧
      evs.filterMap Event.encoded? = [resp] ∧ evs.filterMap Event.wrote? = [bytes] ∧
      srv.encode resp = .ok bytes ∧
      (∀ v, resp.code = 0 ∧ resp.data = v ↔ Succeeds srv st.services st.world recive v) ∧
      ((¬ ∃ v, Succeeds srv st.services st.world recive v) →
        resp.code = 1 ∧ resp.data = JavaObject.null) := by
  obtain ⟨r, evs, w, h⟩ := exit_total srv st.services st.world recive
  obtain ⟨bytes, hb⟩ := hencode
  rw [resulting_of_exit h] at hb
  have hr : ∀ e, r = .error e → e.isException = true := by
    rintro e rfl
    exact exit_error_isException h hread hdecode
  obtain ⟨_, he, hw⟩ := exit_events h
  obtain ⟨hre, hrw⟩ := replied_events srv toResp (answer r)
  refine ⟨?_, evs ++ (srv.replied toResp (answer r)).2, answer r, bytes, onRequest_log h, ?_, ?_,
    hb, ?_, ?_⟩
  · rw [onRequest_outcome h, replied_ok hb (hwrite bytes), settled_ok hr]
    rfl
  · rw [List.filterMap_append, he, hre, List.nil_append]
  · rw [List.filterMap_append, hw, hrw, hb]
    rfl
  · intro v
    exact (answer_code hr).trans (eq_ok_iff h)
  · intro hno
    exact answer_failed hr fun v hv => hno ⟨v, (eq_ok_iff h).mp hv⟩

open Example in
theorem status_truthful_add :
    outcome (server.onRequest (Arrival.whole addRequestText).start (fun _ => .ok ())
      serverState) = .ok () :=
  (status_truthful server serverState (Arrival.whole addRequestText).start (fun _ => .ok ())
    (fun e he => by simp [Throwable.isException, Arrival.readBody_error he])
    (fun inBytes e he => by rw [decodeRequest_error he]; rfl)
    (fun _ _ he => by cases he)
    ⟨sumResponseText, by rw [resulting_of_exit (exit_add _)]; rfl⟩).1

/-- The handler returned and wrote one encoded response, one of code 1 when the encoder
rejects what the method returned. -/
def Answered (srv : RpcServer V B W σ) (st : ServerState V B W) (recive : σ)
    (toResp : Bytes → Except Throwable Unit) : Prop :=
  outcome (srv.onRequest recive toResp st) = .ok () ∧
  ∃ evs resp bytes, (final (srv.onRequest recive toResp st)).log = st.log ++ evs ∧
    evs.filterMap Event.wrote? = [bytes] ∧ srv.encode resp = .ok bytes ∧
    ∀ v e, Succeeds srv st.services st.world recive v →
      srv.encode { (Response.new : Response V) with data := v } = .error e → resp.code = 1

theorem answered_of_exit (h : Exit srv st.services st.world recive r evs w)
    (hw : ∀ bytes, toResp bytes = .ok ()) :
    Answered srv st recive toResp ↔
      (∃ bytes, srv.encode (answer r) = .ok bytes) ∧ settled r = .ok () := by
  have hre := (replied_events srv toResp (answer r)).2
  constructor
  · rintro ⟨hout, evs', resp, bytes, hlog, hwrote, _, _⟩
    rw [onRequest_log h, List.append_cancel_left_eq] at hlog
    rw [onRequest_outcome h] at hout
    rw [← hlog, List.filterMap_append, (exit_events h).2.2, hre, List.nil_append] at hwrote
    cases hb : srv.encode (answer r) with
    | error e => simp [hb, Except.toOption] at hwrote
    | ok bytes' =>
      refine ⟨⟨bytes', rfl⟩, ?_⟩
      rwa [replied_ok hb (by simp [hw])] at hout
  · rintro ⟨⟨bytes, hb⟩, hs⟩
    refine ⟨?_, _, answer r, bytes, onRequest_log h, ?_, hb, ?_⟩
    · rw [onRequest_outcome h, replied_ok hb (by simp [hw]), hs]
      rfl
    · rw [List.filterMap_append, (exit_events h).2.2, hre, hb]
      rfl
    · intro v e hv he
      obtain rfl := (eq_ok_iff h).mpr hv
      rw [answer, he] at hb
      cases hb

/-- A request is answered exactly when the encoder accepts what becomes of it and no step throws
an `Error`: only then does the `finally` block get to its write. -/
theorem answered_iff (srv : RpcServer V B W σ) (st : ServerState V B W) (recive : σ)
    (toResp : Bytes → Except Throwable Unit) (hw : ∀ bytes, toResp bytes = .ok ()) :
    Answered srv st recive toResp ↔
      (∀ v, Succeeds srv st.services st.world recive v →
        ∃ bytes, srv.encode { (Response.new : Response V) with data := v } = .ok bytes) ∧
      (∀ e, Fails srv st.services st.world recive e → e.isException = true ∧
        ∃ bytes, srv.encode ⟨1, some (errorMessage e), JavaObject.null⟩ = .ok bytes) := by
  obtain ⟨r, evs, w, h⟩ := exit_total srv st.services st.world recive
  rw [answered_of_exit h hw]
  simp only [← eq_ok_iff h, ← eq_error_iff h]
  cases r with
  | ok v => simp [answer, settled]
  | error e => cases he : e.isException <;> simp [answer, settled, he, Response.new]

open Example in
theorem answered_iff_add : Answered server serverState (Arrival.whole addRequestText).start
    (fun _ => .ok ()) := by
  refine (answered_iff server serverState (Arrival.whole addRequestText).start
    (fun _ => .ok ()) (fun _ => rfl)).mpr ⟨?_, ?_⟩
  · intro v hv
    exact ⟨sumResponseText, rfl⟩
  · intro e he
    exact absurd ((eq_error_iff (exit_add encodeResponse)).mpr he) (by simp)

open Example in
/-- The sum was computed, the encoder rejects it, and the handler ends with the encoder's
exception instead of an answer. -/
theorem encoder_failure_unanswered :
    Succeeds (serverWith rejectData) serverState.services serverState.world
        (Arrival.whole addRequestText).start (.num .integer 3) ∧
      ¬ Answered (serverWith rejectData) serverState (Arrival.whole addRequestText).start
        (fun _ => .ok ()) := by
  refine ⟨exit_ok_iff.mp ⟨_, _, exit_add _⟩, ?_⟩
  rw [answered_of_exit (exit_add _) fun _ => rfl]
  rintro ⟨⟨bytes, hb⟩, _⟩
  cases hb

end RpcServer

end SpringDemo.Rpc

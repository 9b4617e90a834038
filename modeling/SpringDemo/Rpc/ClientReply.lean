import SpringDemo.Rpc.Example

/-! What a call of the proxy comes to, whatever its steps do. -/
namespace SpringDemo.Rpc

open Java Lib.Exec

variable {V τ σ : Type}

/-- The raw outcome of the steps between `select` and `release`. -/
inductive Raw (V : Type) where
  /-- the exchange threw this, or the stream of its answer did -/
  | unsent (e : Throwable)
  /-- the encoder, the reading step or the decoder threw this -/
  | threw (e : Throwable)
  /-- there was an error answer and it had no body stream -/
  | noStream
  /-- an answer of this status was decoded to this response -/
  | decoded (status : Int) (response : Option (Response V))

namespace RemoteInvoker

/-- How the steps of a call over a connection end, with what was decoded and the state of
the network. -/
inductive Exit (inv : RemoteInvoker V τ σ) (url : Option JString) (request : Request V) (n : τ) :
    Raw V → List Bytes → τ → Prop
  | unencoded (e : Throwable) (he : inv.encode request = .error e) :
      Exit inv url request n (.threw e) [] n
  | unsent (outBytes : Bytes) (e : Throwable) (n' : τ) (he : inv.encode request = .ok outBytes)
      (hx : inv.exchange url outBytes n = .error e n') :
      Exit inv url request n (.unsent e) [] n'
  | noInput (outBytes : Bytes) (httpConn : HttpURLConnection σ) (e : Throwable) (n' : τ)
      (he : inv.encode request = .ok outBytes)
      (hx : inv.exchange url outBytes n = .ok httpConn n') (hs : httpConn.stream = .error e) :
      Exit inv url request n (.unsent e) [] n'
  | noStream (outBytes : Bytes) (httpConn : HttpURLConnection σ) (n' : τ)
      (he : inv.encode request = .ok outBytes)
      (hx : inv.exchange url outBytes n = .ok httpConn n') (hs : httpConn.stream = .ok none) :
      Exit inv url request n .noStream [] n'
  | unread (outBytes : Bytes) (httpConn : HttpURLConnection σ) (revice : σ) (e : Throwable)
      (n' : τ) (he : inv.encode request = .ok outBytes)
      (hx : inv.exchange url outBytes n = .ok httpConn n')
      (hs : httpConn.stream = .ok (some revice)) (hr : readBody inv.io revice = .error e) :
      Exit inv url request n (.threw e) [] n'
  | undecoded (outBytes : Bytes) (httpConn : HttpURLConnection σ) (revice : σ)
      (inBytes : Bytes) (e : Throwable) (n' : τ) (he : inv.encode request = .ok outBytes)
      (hx : inv.exchange url outBytes n = .ok httpConn n')
      (hs : httpConn.stream = .ok (some revice)) (hr : readBody inv.io revice = .ok inBytes)
      (hd : inv.decode inBytes = .error e) :
      Exit inv url request n (.threw e) [inBytes] n'
  | decoded (outBytes : Bytes) (httpConn : HttpURLConnection σ) (revice : σ)
      (inBytes : Bytes) (response : Option (Response V)) (n' : τ)
      (he : inv.encode request = .ok outBytes)
      (hx : inv.exchange url outBytes n = .ok httpConn n')
      (hs : httpConn.stream = .ok (some revice)) (hr : readBody inv.io revice = .ok inBytes)
      (hd : inv.decode inBytes = .ok response) :
      Exit inv url request n (.decoded httpConn.responseCode response) [inBytes] n'

variable {inv : RemoteInvoker V τ σ} {url : Option JString} {request : Request V} {n n' : τ}
  {raw : Raw V} {bs : List Bytes}

theorem exit_total (inv : RemoteInvoker V τ σ) (url : Option JString) (request : Request V)
    (n : τ) : ∃ raw bs n', Exit inv url request n raw bs n' := by
  cases he : inv.encode request with
  | error e => exact ⟨_, _, _, .unencoded e he⟩
  | ok outBytes =>
    cases hx : inv.exchange url outBytes n with
    | error e n' => exact ⟨_, _, _, .unsent outBytes e n' he hx⟩
    | ok httpConn n' =>
      cases hs : httpConn.stream with
      | error e => exact ⟨_, _, _, .noInput outBytes httpConn e n' he hx hs⟩
      | ok revice =>
        rcases revice with _ | revice
        · exact ⟨_, _, _, .noStream outBytes httpConn n' he hx hs⟩
        cases hr : readBody inv.io revice with
        | error e => exact ⟨_, _, _, .unread outBytes httpConn revice e n' he hx hs hr⟩
        | ok inBytes =>
          cases hd : inv.decode inBytes with
          | error e =>
            exact ⟨_, _, _, .undecoded outBytes httpConn revice inBytes e n' he hx hs hr hd⟩
          | ok response =>
            exact ⟨_, _, _, .decoded outBytes httpConn revice inBytes response n' he hx hs hr hd⟩

/-- What `write` makes of an exception. -/
def translated (e : Throwable) : Throwable := if e.isIOException then .illegalStateOf e else e

/-- `write` ends as its exchange does, or as the stream of its answer does. -/
theorem write_ended {client : HttpTransportClient} {data : Bytes}
    {r : Except Throwable (HttpURLConnection σ)}
    (hx : inv.exchange client.url data n = ended r n') :
    inv.write client data n = ended ((r.bind fun c => c.stream).mapError translated) n' := by
  cases r with
  | error e =>
    cases hio : e.isIOException <;>
      simp [write, catching, bind_run, hx, hio, Except.bind, Except.mapError, translated]
  | ok c =>
    cases hs : c.stream with
    | ok revice => simp [write, catching, bind_run, hx, hs, Except.bind, Except.mapError]
    | error e =>
      cases hio : e.isIOException <;>
        simp [write, catching, bind_run, hx, hs, hio, Except.bind, Except.mapError, translated]

variable [JavaObject V] {st : ClientState τ} {sel : RandomTransportSelector}
  {client : HttpTransportClient} {seed : Nat} {render : V → JString} {method : Method}
  {args : Option (List V)} {v : V} {e : Throwable}

@[simp] theorem isIOException_translated (e : Throwable) :
    (translated e).isIOException = false := by
  cases h : e.isIOException <;> simp [translated, h]

theorem isIllegalStateException_translated (e : Throwable) :
    (translated e).isIllegalStateException = true ↔
      e.isIOException = true ∨ e.isIllegalStateException = true := by
  cases h : e.isIOException <;> simp [translated, h]

/-- How the `try` block ends, before its `catch` clause. -/
def thrown : Raw V → Except Throwable (Option (Response V))
  | .unsent e => .error (translated e)
  | .threw e => .error e
  | .noStream => .error .nullPointerException
  | .decoded _ response => .ok response

omit [JavaObject V] in
theorem callRemote_of_exit (hsel : st.selector.select seed = .ok (client, sel))
    (h : Exit inv client.url request st.network raw bs n') :
    inv.callRemote seed request (CallFrame.enter st) =
      ended ((thrown raw).map fun _ => ())
        ⟨⟨sel, n', st.decoded ++ bs⟩, some client, (thrown raw).toOption.join⟩ := by
  have hsel' : selectClient seed (CallFrame.enter st : CallFrame V τ) =
      .ok client ⟨⟨sel, st.network, st.decoded⟩, some client, none⟩ := by
    simp [selectClient, CallFrame.enter, hsel]
  rw [callRemote, bind_ok hsel']
  cases h with
  | unencoded e he => simp [bind_run, he, thrown, Except.map, Except.toOption]
  | unsent outBytes e n' he hx =>
    simp [bind_run, he, onPart, write_ended (r := .error e) hx, thrown, Except.bind, Except.map,
      Except.mapError, Except.toOption]
  | noInput outBytes c e n' he hx hs =>
    simp [bind_run, he, onPart, write_ended (r := .ok c) hx, hs, thrown, Except.bind,
      Except.map, Except.mapError, Except.toOption]
  | noStream outBytes c n' he hx hs =>
    simp [bind_run, he, onPart, write_ended (r := .ok c) hx, hs, thrown, Except.bind,
      Except.map, Except.mapError, Except.toOption]
  | unread outBytes c revice e n' he hx hs hr =>
    simp [bind_run, he, onPart, write_ended (r := .ok c) hx, hs, hr, thrown, Except.bind,
      Except.map, Except.mapError, Except.toOption]
  | undecoded outBytes c revice inBytes e n' he hx hs hr hd =>
    simp [bind_run, he, onPart, write_ended (r := .ok c) hx, hs, hr, hd, decodeResponse, thrown,
      Except.bind, Except.map, Except.mapError, Except.toOption]
  | decoded outBytes c revice inBytes response n' he hx hs hr hd =>
    simp [bind_run, he, onPart, write_ended (r := .ok c) hx, hs, hr, hd, decodeResponse, thrown,
      Except.bind, Except.map, Except.mapError, Except.toOption]

/-- What `invokeRemote` makes of a raw outcome: an `IOException` that `write` has not translated
becomes a response. -/
def returned (raw : Raw V) : Except Throwable (Option (Response V)) :=
  match thrown raw with
  | .ok response => .ok response
  | .error e => if e.isIOException then .ok (some (errorResponse e)) else .error e

theorem invokeRemote_of_exit (hsel : st.selector.select seed = .ok (client, sel))
    (h : Exit inv client.url request st.network raw bs n') :
    inv.invokeRemote seed request st =
      ended (returned raw) ⟨sel.release client, n', st.decoded ++ bs⟩ := by
  have hx := callRemote_of_exit hsel h
  unfold invokeRemote returned
  cases ht : thrown raw with
  | ok response =>
    rw [ht] at hx
    simp [inFrame, bind_run, andFinally, catching, hx, releaseClient, Except.map,
      Except.toOption]
  | error e =>
    rw [ht] at hx
    cases hio : e.isIOException <;>
      simp [inFrame, bind_run, andFinally, catching, hx, hio, releaseClient, Except.map,
        Except.toOption]

/-- When nothing could be borrowed, nothing is given back. -/
theorem invokeRemote_of_select_error (hsel : st.selector.select seed = .error e)
    (hio : e.isIOException = false) : inv.invokeRemote seed request st = .error e st := by
  have hx : inv.callRemote seed request (CallFrame.enter st) = .error e (CallFrame.enter st) := by
    rw [callRemote]
    apply bind_error
    simp [selectClient, CallFrame.enter, hsel]
  have hr : releaseClient (CallFrame.enter st : CallFrame V τ) = .ok () (CallFrame.enter st) := rfl
  simp [invokeRemote, inFrame, bind_run, andFinally, catching, hx, hio, hr]
  rfl

/-- How a call over a connection ends for its caller. -/
def concluded (render : V → JString) (raw : Raw V) : Except Throwable V :=
  (returned raw).bind (judged render)

/-- A whole call of the proxy over a connection. -/
theorem invoke_of_exit (hsel : st.selector.select seed = .ok (client, sel))
    (h : Exit inv client.url (inv.requestOf method args) st.network raw bs n') :
    inv.invoke render seed method args st =
      ended (concluded render raw) ⟨sel.release client, n', st.decoded ++ bs⟩ := by
  have hx := invokeRemote_of_exit hsel h
  unfold invoke concluded
  cases hr : returned raw with
  | ok response =>
    rw [hr] at hx
    rw [bind_ok hx]
    rfl
  | error e =>
    rw [hr] at hx
    rw [bind_error hx]
    rfl

theorem invoke_outcome (hsel : st.selector.select seed = .ok (client, sel))
    (h : Exit inv client.url (inv.requestOf method args) st.network raw bs n') :
    outcome (inv.invoke render seed method args st) = concluded render raw := by
  rw [invoke_of_exit hsel h, outcome_ended]

omit [JavaObject V] in
/-- The steps are functions of the request and of the state. -/
theorem exit_unique {raw' : Raw V} {bs' : List Bytes} {n'' : τ}
    (h : Exit inv url request n raw bs n') (h' : Exit inv url request n raw' bs' n'') :
    raw = raw' := by
  cases h <;> cases h' <;> simp_all

/-- The steps of a call over the connection come to this. -/
def Comes (inv : RemoteInvoker V τ σ) (url : Option JString) (request : Request V) (n : τ)
    (raw : Raw V) : Prop :=
  ∃ bs n', Exit inv url request n raw bs n'

@[simp] theorem concluded_unsent (e : Throwable) :
    concluded render (.unsent e) = .error (translated e) := by
  simp [concluded, returned, thrown, Except.bind]

@[simp] theorem concluded_noStream :
    concluded render (.noStream : Raw V) = .error .nullPointerException := by
  simp [concluded, returned, thrown, Except.bind]

@[simp] theorem concluded_decoded (status : Int) (response : Option (Response V)) :
    concluded render (.decoded status response) = judged render response := rfl

/-- An `IOException` comes out as the failed test of its own response. -/
theorem concluded_threw (e : Throwable) :
    concluded render (.threw e : Raw V) =
      if e.isIOException then judged render (some (errorResponse e)) else .error e := by
  cases h : e.isIOException <;> simp [concluded, returned, thrown, Except.bind, h]

omit [JavaObject V] in
theorem judged_ok_iff {response : Option (Response V)} :
    judged render response = .ok v ↔ ∃ r, response = some r ∧ r.code = 0 ∧ r.data = v := by
  rcases response with _ | r
  · simp [judged]
  · by_cases hc : r.code = 0 <;> simp [judged, hc]

omit [JavaObject V] in
theorem judged_error {response : Option (Response V)} (h : judged render response = .error e) :
    e.isIllegalStateException = true := by
  rcases response with _ | r
  · cases h
    rfl
  · by_cases hc : r.code = 0
    · simp [judged, hc] at h
    · rw [judged, if_pos hc] at h
      cases h
      rfl

theorem concluded_ok_iff : concluded render raw = .ok v ↔
    ∃ status r, raw = .decoded status (some r) ∧ r.code = 0 ∧ r.data = v := by
  cases raw with
  | unsent e => simp
  | threw e =>
    rw [concluded_threw]
    split
    · rw [judged_ok_iff]
      simp [errorResponse]
    · simp
  | noStream => simp
  | decoded status response =>
    rw [concluded_decoded, judged_ok_iff]
    simp

theorem concluded_error_iff :
    (∀ e, concluded render raw = .error e → e.isIllegalStateException = true) ↔
      (∀ e, raw = .unsent e ∨ raw = .threw e →
        e.isIOException = true ∨ e.isIllegalStateException = true) ∧ raw ≠ .noStream := by
  cases raw with
  | unsent e => simp [isIllegalStateException_translated]
  | threw e =>
    rw [concluded_threw]
    cases hio : e.isIOException with
    | true =>
      simp only [if_true]
      exact iff_of_true (fun _ => judged_error) (by simp [hio])
    | false => simp [hio]
  | noStream => simp
  | decoded status response =>
    rw [concluded_decoded]
    exact iff_of_true (fun _ => judged_error) (by simp)

/-- A call over a borrowed connection returns what an answer of status 200 carries with code 0,
and otherwise throws an `IllegalStateException`. -/
def Reported (inv : RemoteInvoker V τ σ) (render : V → JString) (seed : Nat) (method : Method)
    (args : Option (List V)) (st : ClientState τ) (url : Option JString) : Prop :=
  (∀ v, outcome (inv.invoke render seed method args st) = .ok v ↔
    ∃ r, Comes inv url (inv.requestOf method args) st.network (.decoded 200 (some r)) ∧
      r.code = 0 ∧ r.data = v) ∧
  ∀ e, outcome (inv.invoke render seed method args st) = .error e →
    e.isIllegalStateException = true

/-- Failures are reported exactly when the steps throw nothing but what is translated, an error
answer has a body stream, and no error answer decodes to code 0. -/
theorem reported_iff (inv : RemoteInvoker V τ σ) (render : V → JString) (seed : Nat)
    (method : Method) (args : Option (List V)) (st : ClientState τ)
    (hsel : st.selector.select seed = .ok (client, sel)) :
    Reported inv render seed method args st client.url ↔
      (∀ e, Comes inv client.url (inv.requestOf method args) st.network (.unsent e) ∨
          Comes inv client.url (inv.requestOf method args) st.network (.threw e) →
        e.isIOException = true ∨ e.isIllegalStateException = true) ∧
      ¬ Comes inv client.url (inv.requestOf method args) st.network .noStream ∧
      ∀ status r, Comes inv client.url (inv.requestOf method args) st.network
          (.decoded status (some r)) → r.code = 0 → status = 200 := by
  obtain ⟨raw, bs, n', h⟩ := exit_total inv client.url (inv.requestOf method args) st.network
  have hc : ∀ raw', Comes inv client.url (inv.requestOf method args) st.network raw' ↔
      raw = raw' := by
    intro raw'
    constructor
    · rintro ⟨bs', n'', h'⟩
      exact exit_unique h h'
    · rintro rfl
      exact ⟨bs, n', h⟩
  simp only [Reported, hc, invoke_outcome hsel h]
  rw [concluded_error_iff]
  constructor
  · rintro ⟨hok, herr, hno⟩
    refine ⟨herr, hno, ?_⟩
    rintro status r rfl hr
    obtain ⟨r', he, _⟩ := (hok r.data).mp (concluded_ok_iff.mpr ⟨status, r, rfl, hr, rfl⟩)
    cases he
    rfl
  · rintro ⟨herr, hno, hstatus⟩
    refine ⟨?_, herr, hno⟩
    intro v
    rw [concluded_ok_iff]
    constructor
    · rintro ⟨status, r, he, hr, hv⟩
      obtain rfl := hstatus status r he hr
      exact ⟨r, he, hr, hv⟩
    · rintro ⟨r, he, hr, hv⟩
      exact ⟨200, r, he, hr, hv⟩

open Example in
/-- A sum that arrives with status 200 is reported as it should be. -/
theorem reported_sum :
    Reported (invokerWith (answering sumAnswer))
      (fun _ => []) 0 add addRequest.parameters (clientState ()) defaultClient.url := by
  have h : Exit (invokerWith (answering sumAnswer)) defaultClient.url addRequest ()
      (.decoded 200 (some sumResponse)) [sumResponseText] () :=
    .decoded addRequestText sumAnswer (Arrival.whole sumResponseText).start sumResponseText
      (some sumResponse) () encodeRequest_add rfl rfl (Arrival.readBody_whole _ _)
      decodeResponse_sum
  refine (reported_iff _ _ 0 add addRequest.parameters _ (select_default ())).mpr ⟨?_, ?_, ?_⟩
  · rintro e (⟨_, _, h'⟩ | ⟨_, _, h'⟩) <;> exact absurd (exit_unique h h') (by simp)
  · rintro ⟨_, _, h'⟩
    exact absurd (exit_unique h h') (by simp)
  · rintro status r ⟨_, _, h'⟩ _
    have he := exit_unique h h'
    simp only [Raw.decoded.injEq] at he
    exact he.1.symm

open Example in
/-- An error answer without a body: the null stream is dereferenced. -/
theorem error_answer_unreported :
    ¬ Reported (invokerWith (answering serverError)) (fun _ => []) 0 add addRequest.parameters
      (clientState ()) defaultClient.url := by
  have h : Exit (invokerWith (answering serverError)) defaultClient.url addRequest () .noStream
      [] () := .noStream addRequestText serverError () encodeRequest_add rfl rfl
  rintro ⟨_, hise⟩
  have hf := hise _ ((invoke_outcome (select_default ()) h).trans concluded_noStream)
  simp at hf

end RemoteInvoker

end SpringDemo.Rpc

import SpringDemo.Rpc.ClientReply
import SpringDemo.Rpc.ServerReply

/-! Message bodies that arrive over time, on their way to the decoders. -/
namespace SpringDemo.Rpc

open Java Lib.Exec

variable {V B W τ : Type} [JavaObject V] {reader : TimedStream.FullReader} {a : Arrival}

/-- The reading step of the handler throws nothing and the decoder is called once, on these
bytes. -/
def RpcServer.Passes (srv : RpcServer V B W TimedStream) (st : ServerState V B W)
    (recive : TimedStream) (toResp : Bytes → Except Throwable Unit) (bytes : Bytes) : Prop :=
  (∀ e, readBody srv.io recive ≠ .error e) ∧
  ∃ evs, (final (srv.onRequest recive toResp st)).log = st.log ++ evs ∧
    evs.filterMap Event.decoded? = [bytes]

/-- The same of a call of the proxy. -/
def RemoteInvoker.Passes (inv : RemoteInvoker V τ TimedStream) (seed : Nat)
    (request : Request V) (st : ClientState τ) (revice : TimedStream) (bytes : Bytes) : Prop :=
  (∀ e, readBody inv.io revice ≠ .error e) ∧
  (final (inv.invokeRemote seed request st)).decoded = st.decoded ++ [bytes]

omit [JavaObject V] in
/-- The reply decodes nothing. -/
theorem RpcServer.replied_decoded? (srv : RpcServer V B W TimedStream)
    (toResp : Bytes → Except Throwable Unit) (resp : Response V) :
    (srv.replied toResp resp).2.filterMap Event.decoded? = [] := by
  unfold replied
  cases srv.encode resp <;> simp [List.filterMap_cons, Event.decoded?]

theorem RpcServer.passes_iff (srv : RpcServer V B W TimedStream) (hs : srv.io = reader.io)
    (st : ServerState V B W) (a : Arrival) (toResp : Bytes → Except Throwable Unit) :
    srv.Passes st a.start toResp a.body ↔ a.arrived 0 = a.body.length := by
  obtain ⟨r, evs, w, h⟩ := exit_total srv st.services st.world a.start
  rw [← Arrival.readBody_eq_body_iff reader a, ← hs]
  constructor
  · rintro ⟨_, evs', hlog, hd⟩
    rw [onRequest_log h, List.append_cancel_left_eq] at hlog
    rw [← hlog, List.filterMap_append, replied_decoded?, List.append_nil] at hd
    exact (exit_decoded h a.body).mp hd
  · intro hb
    refine ⟨by simp [hb], _, onRequest_log h, ?_⟩
    rw [List.filterMap_append, replied_decoded?, List.append_nil]
    exact (exit_decoded h a.body).mpr hb

theorem RemoteInvoker.passes_iff {inv : RemoteInvoker V τ TimedStream} (hi : inv.io = reader.io)
    {st : ClientState τ} {seed : Nat} {request : Request V} {client : HttpTransportClient}
    {sel : RandomTransportSelector} {outBytes : Bytes} {n' : τ}
    {httpConn : HttpURLConnection TimedStream}
    (hsel : st.selector.select seed = .ok (client, sel))
    (henc : inv.encode request = .ok outBytes)
    (hx : inv.exchange client.url outBytes st.network = .ok httpConn n')
    (hst : httpConn.stream = .ok (some a.start)) :
    inv.Passes seed request st a.start a.body ↔ a.arrived 0 = a.body.length := by
  obtain ⟨raw, bs, n'', h⟩ := exit_total inv client.url request st.network
  rw [← Arrival.readBody_eq_body_iff reader a, ← hi, Passes, invokeRemote_of_exit hsel h,
    final_ended, List.append_cancel_left_eq]
  cases h <;> simp_all

/-- On both sides the decoder gets the whole body exactly when all of it has arrived at the first
`available()`. -/
theorem framing_iff (reader : TimedStream.FullReader) (a b : Arrival)
    (srv : RpcServer V B W TimedStream) (hs : srv.io = reader.io) (st : ServerState V B W)
    (toResp : Bytes → Except Throwable Unit)
    (inv : RemoteInvoker V τ TimedStream) (hi : inv.io = reader.io) (cst : ClientState τ)
    (seed : Nat) (request : Request V) {client : HttpTransportClient}
    {sel : RandomTransportSelector} {outBytes : Bytes} {n' : τ}
    {httpConn : HttpURLConnection TimedStream}
    (hsel : cst.selector.select seed = .ok (client, sel))
    (henc : inv.encode request = .ok outBytes)
    (hx : inv.exchange client.url outBytes cst.network = .ok httpConn n')
    (hst : httpConn.stream = .ok (some b.start)) :
    (srv.Passes st a.start toResp a.body ↔ a.arrived 0 = a.body.length) ∧
    (inv.Passes seed request cst b.start b.body ↔ b.arrived 0 = b.body.length) :=
  ⟨srv.passes_iff hs st a toResp, RemoteInvoker.passes_iff hi hsel henc hx hst⟩

namespace Example

theorem framing_whole :
    server.Passes serverState (Arrival.whole addRequestText).start (fun _ => .ok ())
        addRequestText ∧
      (invokerWith (answering sumAnswer)).Passes 0 addRequest (clientState ())
        (Arrival.whole sumResponseText).start sumResponseText := by
  have h := framing_iff TimedStream.blockingReader (Arrival.whole addRequestText)
    (Arrival.whole sumResponseText) server rfl serverState (fun _ => .ok ())
    (invokerWith (answering sumAnswer)) rfl (clientState ()) 0 addRequest (select_default ())
    encodeRequest_add rfl rfl
  exact ⟨h.1.mpr rfl, h.2.mpr rfl⟩

/-- A short body that arrives after the two calls of `available()`. -/
def lateRequest : Arrival where
  body := ascii "\x7b\x7d"
  arrived k := if k < 2 then 0 else 2
  grows i j hij := by
    by_cases hi : i < 2
    · simp [hi]
    · simp [hi, show ¬ j < 2 by omega]
  within k := by
    have hlen : (ascii "\x7b\x7d").length = 2 := by decide
    rw [hlen]
    split <;> omega

theorem late_request_cut :
    ¬ server.Passes serverState lateRequest.start (fun _ => .ok ()) lateRequest.body := by
  have h := @RpcServer.passes_iff _ _ _ _ TimedStream.blockingReader server rfl serverState
    lateRequest fun _ => .ok ()
  rw [h]
  decide

end Example

end SpringDemo.Rpc

import SpringDemo.Library.Slots
import SpringDemo.Rpc.Parts
import SpringDemo.Rpc.Registration

/-! One server that answers requests while services are being registered. -/
namespace SpringDemo.Rpc

open Java Lib.Exec Lib.HashTable Lib.Runs Lib.Slots ServiceDescriptor

variable {V B W σ : Type} [JavaObject V]

/-- What a live server does as if at once, with what a request comes to. -/
inductive LiveOp (σ : Type) where
  | put (i : Nat) (m : Method)
  | onRequest (recive : σ) (toResp : Bytes → Except Throwable Unit)
      (ends : Except Throwable Unit) (wrote : List Bytes)

/-- A method that a registration puts, or a whole request. -/
inductive Atomic (srv : RpcServer V B W σ) (calls : History B) :
    ServerState V B W → LiveOp σ → ServerState V B W → Prop
  | put (st : ServerState V B W) (i : Nat) (call : ClassName × Option B) (m : Method)
      (hi : calls[i]? = some call) (hm : m ∈ getPublicMethods srv.classPath call.1) :
      Atomic srv calls st (.put i m)
        { st with services := put st.services (fromMethod call.1 m) ⟨call.2, m⟩ }
  | onRequest (st : ServerState V B W) (recive : σ) (toResp : Bytes → Except Throwable Unit) :
      Atomic srv calls st (.onRequest recive toResp (outcome (srv.onRequest recive toResp st))
          (((final (srv.onRequest recive toResp st)).log.drop st.log.length).filterMap
            Event.wrote?))
        (final (srv.onRequest recive toResp st))

/-- How far a request has come. -/
inductive RequestStage (V B : Type) where
  | received
  /-- before `serviceInvoker.invoke` -/
  | found (sis : ServiceInstance B) (request : Request V)
  /-- the `try` block has ended -/
  | answered (r : Except Throwable V)

/-- What a request that has ended so comes to. -/
def RpcServer.replyOp (srv : RpcServer V B W σ) (q : σ × (Bytes → Except Throwable Unit))
    (r : Except Throwable V) : LiveOp σ :=
  .onRequest q.1 q.2 ((srv.replied q.2 (answer r)).1.bind fun _ => settled r)
    (srv.encode (answer r)).toOption.toList

def RequestStage.op? (srv : RpcServer V B W σ) (q : σ × (Bytes → Except Throwable Unit)) :
    RequestStage V B → Option (LiveOp σ)
  | .answered r => some (srv.replyOp q r)
  | _ => none

/-- A method of a registration, or a request by its number. -/
inductive Point where
  | put (i : Nat) (m : Method)
  | request (k : Nat)
deriving DecidableEq

namespace Point

def put? : Point → Option (Nat × Method)
  | put i m => some (i, m)
  | request _ => none

def request? : Point → Option Nat
  | put _ _ => none
  | request k => some k

end Point

/-- The registrations, the machine, and the requests as they came in. -/
structure LiveServer (V B W σ : Type) where
  registering : Registering B
  world : W
  requests : List ((σ × (Bytes → Except Throwable Unit)) × RequestStage V B)
  /-- the puts, and the requests that have come to their effect -/
  order : List Point

namespace LiveServer

inductive Label (σ : Type) where
  | put (i : Nat) (m : Method)
  | arrive (recive : σ) (toResp : Bytes → Except Throwable Unit)
  | look (k : Nat)
  | run (k : Nat)

def Label.put? : Label σ → Option (Nat × Method)
  | put i m => some (i, m)
  | _ => none

def setStage (s : LiveServer V B W σ) (k : Nat) (q : σ × (Bytes → Except Throwable Unit))
    (p : RequestStage V B) : LiveServer V B W σ := { s with requests := s.requests.set k (q, p) }

/-- Why nothing is run after such a lookup. -/
def missed? : Except Throwable (Option (ServiceInstance B) × Option (Request V)) →
    Option Throwable
  | .error e => some e
  | .ok (some _, some _) => none
  | .ok _ => some .nullPointerException

/-- Each put, each lookup and each run of a method is a step. -/
inductive Step (srv : RpcServer V B W σ) (calls : History B) :
    LiveServer V B W σ → Label σ → LiveServer V B W σ → Prop
  | put (s : LiveServer V B W σ) (i : Nat) (m : Method) (t : Registering B)
      (h : Registering.Step calls s.registering (i, m) t) :
      Step srv calls s (.put i m)
        { s with registering := t, order := s.order ++ [.put i m] }
  | arrive (s : LiveServer V B W σ) (recive : σ) (toResp : Bytes → Except Throwable Unit) :
      Step srv calls s (.arrive recive toResp)
        { s with requests := s.requests ++ [((recive, toResp), .received)] }
  | miss (s : LiveServer V B W σ) (k : Nat) (q : σ × (Bytes → Except Throwable Unit))
      (e : Throwable) (hk : s.requests[k]? = some (q, .received))
      (he : missed? (srv.look s.registering.services q.1) = some e) :
      Step srv calls s (.look k)
        { s.setStage k q (.answered (.error e)) with order := s.order ++ [.request k] }
  | look (s : LiveServer V B W σ) (k : Nat) (q : σ × (Bytes → Except Throwable Unit))
      (sis : ServiceInstance B) (request : Request V)
      (hk : s.requests[k]? = some (q, .received))
      (hl : srv.look s.registering.services q.1 = .ok (some sis, some request)) :
      Step srv calls s (.look k) (s.setStage k q (.found sis request))
  | run (s : LiveServer V B W σ) (k : Nat) (q : σ × (Bytes → Except Throwable Unit))
      (sis : ServiceInstance B) (request : Request V)
      (hk : s.requests[k]? = some (q, .found sis request)) :
      Step srv calls s (.run k)
        { s.setStage k q (.answered (srv.runOn (.ok (some sis, some request)) s.world).1) with
          world := (srv.runOn (.ok (some sis, some request)) s.world).2
          order := s.order ++ [.request k] }

/-- The calls of `register` begin on what those before them have left. -/
def start (cp : ClassPath) (hist calls : History B) (world : W) : LiveServer V B W σ :=
  ⟨.start cp hist calls, world, [], []⟩

/-- What the server has done, as if at once, at a point of the order. -/
def op? (srv : RpcServer V B W σ) (s : LiveServer V B W σ) : Point → Option (LiveOp σ)
  | .put i m => some (.put i m)
  | .request k => s.requests[k]?.bind fun request => request.2.op? srv request.1

/-- Each interface is registered with one bean. -/
def OneBean (hist : History B) : Prop :=
  ∀ call ∈ hist, ∀ call' ∈ hist, call.1 = call'.1 → call.2 = call'.2

variable {srv : RpcServer V B W σ} {hist calls : History B} {s t : LiveServer V B W σ}
  {l : Label σ} {ls : List (Label σ)} {world : W} {k : Nat}
  {q : σ × (Bytes → Except Throwable Unit)} {p p' : RequestStage V B} {services : Services B}
  {d : ServiceDescriptor} {sis : ServiceInstance B} {request : Request V} {e : Throwable}
  {recive : σ} {r : Except Throwable V}

/-- The puts are those of calls of `register` at the same time. -/
theorem registering_run (h : Run (Step srv calls) (start srv.classPath hist calls world) ls s) :
    Run (Registering.Step calls) (.start srv.classPath hist calls) (ls.filterMap Label.put?)
      s.registering := by
  refine h.history (R := fun ls s => Run (Registering.Step calls)
    (.start srv.classPath hist calls) (ls.filterMap Label.put?) s.registering) ?_ .start
  intro ls s l t hs hi
  rw [List.filterMap_append]
  cases hs with
  | put i m u hu => exact hi.next hu
  | arrive recive toResp => simpa [List.filterMap_cons, Label.put?] using hi
  | miss k q e hk he => simpa [List.filterMap_cons, Label.put?, setStage] using hi
  | look k q sis request hk hl => simpa [List.filterMap_cons, Label.put?, setStage] using hi
  | run k q sis request hk => simpa [List.filterMap_cons, Label.put?, setStage] using hi

omit [JavaObject V] in
theorem mem_of_latest {I : ClassName} {bean : Option B} (h : latest hist I = some bean) :
    (I, bean) ∈ hist := by
  rw [Registering.latest_eq_last] at h
  obtain ⟨call, hc, hb⟩ := Lib.LastWrite.exists_of_last h
  split at hb
  · rename_i hI
    cases hb
    exact hI ▸ hc
  · cases hb

omit [JavaObject V] in
/-- Whatever the registry holds has been registered. -/
theorem registered_of_get {puts : List (Nat × Method)} {reg : Registering B}
    (ht : Registering.Traced srv.classPath hist calls puts reg)
    (hg : get reg.services d = some sis) : ∃ call ∈ hist ++ calls, call.2 = sis.target ∧
      sis.method ∈ getPublicMethods srv.classPath call.1 ∧ d = fromMethod call.1 sis.method := by
  rw [ht.services] at hg
  cases hw : Lib.LastWrite.last (Registering.written calls d) puts with
  | none =>
    rw [hw, Option.none_or] at hg
    obtain ⟨I, hl, hm, hd⟩ := (get_registered_iff hist).mp hg
    exact ⟨_, List.mem_append_left _ (mem_of_latest hl), rfl, hm, hd⟩
  | some sis' =>
    rw [hw, Option.some_or] at hg
    cases hg
    obtain ⟨l, hl, hw⟩ := Lib.LastWrite.exists_of_last hw
    obtain ⟨call, hc, hw⟩ := Option.bind_eq_some_iff.mp hw
    split at hw
    · rename_i hd
      cases hw
      exact ⟨call, List.mem_append_right _ (List.mem_of_getElem? hc), rfl, ht.mem_methods hl hc, hd⟩
    · cases hw

omit [JavaObject V] in
/-- While each interface has one bean, what the registry holds stays. -/
theorem get_of_put {puts : List (Nat × Method)} {reg reg' : Registering B} {l : Nat × Method}
    (ht : Registering.Traced srv.classPath hist calls puts reg) (hone : OneBean (hist ++ calls))
    (hs : Registering.Step calls reg l reg') (hg : get reg.services d = some sis) :
    get reg'.services d = some sis := by
  cases hs with
  | put i call m hi hm =>
    by_cases hd : d = fromMethod call.1 m
    · obtain ⟨call', hc', hb, hm', hd'⟩ := registered_of_get ht hg
      have hc : call ∈ hist ++ calls := List.mem_append_right _ (List.mem_of_getElem? hi)
      have he : fromMethod call.1 m = fromMethod call'.1 sis.method := hd.symm.trans hd'
      have hI : call.1 = call'.1 := (fromMethod_eq_iff.mp he).1
      have hpub : m ∈ getPublicMethods srv.classPath call.1 :=
        (ht.todo i call hi m).mpr (.inl hm)
      rw [hI] at he hpub
      have hme : m = sis.method := fromMethod_injOn srv.classPath
        (mem_getPublicMethods.mp hpub).1 (mem_getPublicMethods.mp hm').1 he
      rw [get_put_of_eqv (eqv_iff.mpr hd), hone call hc call' hc' hI, hb, hme]
    · rwa [get_put_of_not_eqv (eqv_eq_false_iff.mpr hd)]

omit [JavaObject V] in
theorem look_eq_some_iff : srv.look services recive = .ok (some sis, some request) ↔
    ∃ inBytes d, readBody srv.io recive = .ok inBytes ∧ srv.decode inBytes = .ok (some request) ∧
      request.serviceDescriptor = some d ∧ get services d = some sis := by
  constructor
  · intro h
    cases hr : readBody srv.io recive with
    | error e => simp [RpcServer.look, hr, bind, Except.bind] at h
    | ok inBytes =>
      cases hd : srv.decode inBytes with
      | error e => simp [RpcServer.look, hr, hd, bind, Except.bind] at h
      | ok request' =>
        rcases request' with _ | request'
        · simp [RpcServer.look, hr, hd, bind, Except.bind, ServiceManager.lookup] at h
        · cases hs : request'.serviceDescriptor with
          | none => simp [RpcServer.look, hr, hd, hs, bind, Except.bind, ServiceManager.lookup] at h
          | some d =>
            rw [RpcServer.look_of_lookup hr hd hs] at h
            obtain ⟨hg, rfl⟩ : get services d = some sis ∧ request' = request := by simpa using h
            exact ⟨inBytes, d, rfl, hd, hs, hg⟩
  · rintro ⟨inBytes, d, hr, hd, hs, hg⟩
    rw [RpcServer.look_of_lookup hr hd hs, hg]

/-- A request that finds nothing to run leaves the machine alone. -/
theorem runOn_of_missed
    {found : Except Throwable (Option (ServiceInstance B) × Option (Request V))}
    (h : missed? found = some e) (world : W) :
    srv.runOn found world = (.error e, world) := by
  rcases found with e' | ⟨_ | sis, _ | request⟩ <;> cases h <;> rfl

/-- A request that is served in one piece. -/
theorem atomic_onRequest (srv : RpcServer V B W σ) (calls : History B)
    (q : σ × (Bytes → Except Throwable Unit)) (st : ServerState V B W) :
    ∃ st', Atomic srv calls st
        (srv.replyOp q (srv.runOn (srv.look st.services q.1) st.world).1) st' ∧
      st'.services = st.services ∧
      st'.world = (srv.runOn (srv.look st.services q.1) st.world).2 := by
  obtain ⟨evs, hexit⟩ := RpcServer.exit_of_parts srv st.services st.world q.1
  have h : Atomic srv calls st _ _ := .onRequest st q.1 q.2
  rw [RpcServer.onRequest_outcome hexit, RpcServer.onRequest_log hexit, List.drop_left,
    List.filterMap_append, (RpcServer.exit_events hexit).2.2, List.nil_append,
    (RpcServer.replied_events srv q.2 _).2] at h
  refine ⟨_, h, ?_, ?_⟩ <;> rw [RpcServer.onRequest_of_exit hexit, final_ended]

/-- A request that has found something would find it again. -/
def Found (srv : RpcServer V B W σ) (services : Services B) :
    (σ × (Bytes → Except Throwable Unit)) × RequestStage V B → Prop
  | (q, .found sis request) => srv.look services q.1 = .ok (some sis, some request)
  | _ => True

/-- The puts, and the requests that have come to their effect, are done one after the other in that
order. -/
structure Linear (srv : RpcServer V B W σ) (hist calls : History B) (world : W)
    (s : LiveServer V B W σ) : Prop where
  nodup : (s.order.filterMap Point.request?).Nodup
  mem : ∀ k, .request k ∈ s.order ↔ s.op? srv (.request k) ≠ none
  found : ∀ request ∈ s.requests, Found srv s.registering.services request
  sequential : ∃ st, Run (Atomic srv calls) ⟨registered srv.classPath hist, world, []⟩
    (s.order.filterMap (s.op? srv)) st ∧ st.services = s.registering.services ∧
      st.world = s.world

omit [JavaObject V] in
theorem look_of_put {puts : List (Nat × Method)} {reg reg' : Registering B} {l : Nat × Method}
    (ht : Registering.Traced srv.classPath hist calls puts reg) (hone : OneBean (hist ++ calls))
    (hs : Registering.Step calls reg l reg')
    (hl : srv.look reg.services recive = .ok (some sis, some request)) :
    srv.look reg'.services recive = .ok (some sis, some request) := by
  obtain ⟨inBytes, d, hr, hd, hdesc, hg⟩ := look_eq_some_iff.mp hl
  exact look_eq_some_iff.mpr ⟨inBytes, d, hr, hd, hdesc, get_of_put ht hone hs hg⟩

omit [JavaObject V] in
theorem found_of_put {puts : List (Nat × Method)} {reg reg' : Registering B} {l : Nat × Method}
    {request : (σ × (Bytes → Except Throwable Unit)) × RequestStage V B}
    (ht : Registering.Traced srv.classPath hist calls puts reg) (hone : OneBean (hist ++ calls))
    (hs : Registering.Step calls reg l reg') (hf : Found srv reg.services request) :
    Found srv reg'.services request := by
  obtain ⟨q, p⟩ := request
  cases p with
  | found sis request => exact look_of_put ht hone hs hf
  | received => trivial
  | answered r => trivial

theorem linear_put {puts : List (Nat × Method)} {i : Nat} {m : Method} {reg : Registering B}
    (hi : Linear srv hist calls world s)
    (ht : Registering.Traced srv.classPath hist calls puts s.registering)
    (hone : OneBean (hist ++ calls)) (h : Registering.Step calls s.registering (i, m) reg) :
    Linear srv hist calls world
      { s with registering := reg, order := s.order ++ [.put i m] } where
  nodup := by simpa [List.filterMap_cons, Point.request?] using hi.nodup
  mem k := by
    rw [List.mem_append, hi.mem k]
    simp [op?]
  found request hm := found_of_put ht hone h (hi.found request hm)
  sequential := by
    obtain ⟨st, hrun, hs, hw⟩ := hi.sequential
    cases h with
    | put i call m hc hm =>
      have hpub := (ht.todo i call hc m).mpr (.inl hm)
      have hput : Atomic srv calls st (.put i m) _ := .put st i call m hc hpub
      rw [List.filterMap_append]
      refine ⟨_, hrun.next hput, ?_, hw⟩
      rw [hs]

theorem linear_arrive (hi : Linear srv hist calls world s)
    (q : σ × (Bytes → Except Throwable Unit)) :
    Linear srv hist calls world { s with requests := s.requests ++ [(q, .received)] } := by
  have hop : ({ s with requests := s.requests ++ [(q, .received)] } : LiveServer V B W σ).op? srv =
      s.op? srv := by
    funext point
    cases point with
    | put i m => rfl
    | request k => exact bind_getElem?_concat rfl k
  refine ⟨hi.nodup, fun k => by rw [hop]; exact hi.mem k, ?_, ?_⟩
  · exact List.forall_mem_append.mpr ⟨hi.found, List.forall_mem_singleton.mpr trivial⟩
  · rw [hop]
    exact hi.sequential

theorem op?_setStage (hk : s.requests[k]? = some (q, p)) (point : Point) :
    (s.setStage k q p').op? srv point =
      if point = .request k then p'.op? srv q else s.op? srv point := by
  cases point with
  | put i m => rfl
  | request j =>
    refine (bind_getElem?_set _ hk _ j).trans ?_
    simp [op?]

theorem linear_look (hi : Linear srv hist calls world s)
    (hk : s.requests[k]? = some (q, .received))
    (hl : srv.look s.registering.services q.1 = .ok (some sis, some request)) :
    Linear srv hist calls world (s.setStage k q (.found sis request)) := by
  have hop : (s.setStage k q (.found sis request)).op? srv = s.op? srv := by
    funext point
    rw [op?_setStage hk]
    split
    · rename_i hpoint
      simp [hpoint, op?, hk, RequestStage.op?]
    · rfl
  refine ⟨hi.nodup, fun j => by rw [hop]; exact hi.mem j, forall_set hi.found hl, ?_⟩
  · rw [hop]
    exact hi.sequential

/-- The step at which a request comes to its effect: nothing can tell it from a request that is
served in one piece then. -/
theorem linear_effect (hi : Linear srv hist calls world s) (hk : s.requests[k]? = some (q, p))
    (hp : p.op? srv q = none) {r : Except Throwable V} {w : W}
    (hr : srv.runOn (srv.look s.registering.services q.1) s.world = (r, w)) :
    Linear srv hist calls world
      { s.setStage k q (.answered r) with world := w, order := s.order ++ [.request k] } := by
  have hop : ∀ point, (s.setStage k q (.answered r)).op? srv point =
      if point = .request k then some (srv.replyOp q r) else s.op? srv point :=
    op?_setStage hk
  have hnot : Point.request k ∉ s.order := by simp [hi.mem, op?, hk, hp]
  refine ⟨?_, fun j => ?_, forall_set hi.found trivial, ?_⟩
  · rw [List.filterMap_append]
    refine hi.nodup.append (List.nodup_singleton k) (List.disjoint_singleton.mpr fun hm => ?_)
    obtain ⟨point, hpoint, he⟩ := List.mem_filterMap.mp hm
    cases point with
    | put i m => cases he
    | request j =>
      cases he
      exact hnot hpoint
  · change _ ↔ (s.setStage k q (.answered r)).op? srv (.request j) ≠ none
    rw [List.mem_append, List.mem_singleton, hop, hi.mem j]
    by_cases hj : j = k <;> simp [hj]
  · obtain ⟨st, hrun, hs, hw⟩ := hi.sequential
    obtain ⟨st', hst, hs', hw'⟩ := atomic_onRequest srv calls q st
    rw [hs, hw, hr] at hst hw'
    change ∃ st, Run _ _ ((s.order ++ [Point.request k]).filterMap
      ((s.setStage k q (.answered r)).op? srv)) st ∧ _
    rw [filterMap_concat hnot (fun point hne => by rw [hop, if_neg hne]) (by rw [hop, if_pos rfl])]
    exact ⟨st', hrun.next hst, hs'.trans hs, hw'⟩

theorem linear_step {puts : List (Nat × Method)} (hi : Linear srv hist calls world s)
    (ht : Registering.Traced srv.classPath hist calls puts s.registering)
    (hone : OneBean (hist ++ calls)) (h : Step srv calls s l t) :
    Linear srv hist calls world t := by
  cases h with
  | put i m reg h => exact linear_put hi ht hone h
  | arrive recive toResp => exact linear_arrive hi (recive, toResp)
  | miss k q e hk he => exact linear_effect hi hk rfl (runOn_of_missed he s.world)
  | look k q sis request hk hl => exact linear_look hi hk hl
  | run k q sis request hk =>
    refine linear_effect hi hk rfl ?_
    rw [hi.found (q, .found sis request) (List.mem_of_getElem? hk)]

theorem linear_start : Linear srv hist calls world (start srv.classPath hist calls world) where
  nodup := .nil
  mem := by simp [start, op?]
  found := by simp [start]
  sequential := ⟨_, .start, rfl, rfl⟩

theorem order_step (h : Step srv calls s l t) : s.order <+: t.order := by
  cases h <;> first | exact List.prefix_rfl | exact List.prefix_append _ _

theorem puts_step (h : Step srv calls s l t) :
    t.order.filterMap Point.put? = s.order.filterMap Point.put? ++ l.put?.toList := by
  cases h <;> simp [List.filterMap_cons, setStage, Point.put?, Label.put?]

theorem puts_run (h : Run (Step srv calls) (start srv.classPath hist calls world) ls s) :
    s.order.filterMap Point.put? = ls.filterMap Label.put? := by
  refine h.history (R := fun ls s => s.order.filterMap Point.put? = ls.filterMap Label.put?) ?_ rfl
  intro ls s l t hs hi
  rw [puts_step hs, hi, List.filterMap_append]
  cases l <;> rfl

theorem linear_run (hone : OneBean (hist ++ calls))
    (h : Run (Step srv calls) (start srv.classPath hist calls world) ls s) :
    Linear srv hist calls world s := by
  induction h with
  | start => exact linear_start
  | next hr hs ih => exact linear_step ih (Registering.traced_run (registering_run hr)) hone hs

/-- While no interface is registered with two beans, requests and registrations at the same time
come to what some sequence of them comes to: every put and every request that has been answered
stands in that order once, the puts as they were done and each request between its arrival and its
answer, for the order only grows. -/
theorem live_linearizes (hone : OneBean (hist ++ calls))
    (h : Run (Step srv calls) (start srv.classPath hist calls world) ls s) :
    (∃ st, Run (Atomic srv calls) ⟨registered srv.classPath hist, world, []⟩
      (s.order.filterMap (s.op? srv)) st ∧ st.services = s.registering.services ∧
        st.world = s.world) ∧
    s.order.filterMap Point.put? = ls.filterMap Label.put? ∧
    (s.order.filterMap Point.request?).Nodup ∧
    (∀ k, .request k ∈ s.order ↔ s.op? srv (.request k) ≠ none) ∧
    ∀ ls' t, Run (Step srv calls) s ls' t → s.order <+: t.order := by
  have hi := linear_run hone h
  refine ⟨hi.sequential, puts_run h, hi.nodup, hi.mem, fun ls' t h' => ?_⟩
  exact h'.invariant (P := fun t => s.order <+: t.order)
    (fun _ _ _ hs hp => hp.trans (order_step hs)) List.prefix_rfl

omit [JavaObject V] in
/-- A method that has been put is held as it was put last. -/
theorem get_of_mem {puts : List (Nat × Method)} {reg : Registering B} {i : Nat}
    {call : ClassName × Option B} {m : Method}
    (ht : Registering.Traced srv.classPath hist calls puts reg) (hi : calls[i]? = some call)
    (hput : (i, m) ∈ puts) : ∃ j bean pre post, calls[j]? = some (call.1, bean) ∧
      get reg.services (fromMethod call.1 m) = some ⟨bean, m⟩ ∧ puts = pre ++ (j, m) :: post ∧
      (i, m) ∈ pre ++ [(j, m)] := by
  have hwritten : Registering.written calls (fromMethod call.1 m) (i, m) = some ⟨call.2, m⟩ := by
    simp [Registering.written, hi]
  have hne : Lib.LastWrite.last (Registering.written calls (fromMethod call.1 m)) puts ≠ none := by
    intro hnone
    cases hwritten.symm.trans (Lib.LastWrite.last_eq_none_iff.mp hnone _ hput)
  obtain ⟨sis, hsis⟩ := Option.ne_none_iff_exists'.mp hne
  obtain ⟨pre, ⟨j, m'⟩, post, rfl, hlast, hpost⟩ := Lib.LastWrite.split_of_last hsis
  obtain ⟨⟨I, bean⟩, hj, hlast⟩ := Option.bind_eq_some_iff.mp hlast
  split at hlast
  · rename_i he
    cases hlast
    obtain rfl : call.1 = I := (fromMethod_eq_iff.mp he).1
    have hm := mem_getPublicMethods.mp (ht.mem_methods hput hi)
    have hm' := mem_getPublicMethods.mp (ht.mem_methods (by simp) hj)
    obtain rfl : m = m' := fromMethod_injOn srv.classPath hm.1 hm'.1 he
    refine ⟨j, bean, pre, post, hj, by rw [ht.services, hsis, Option.some_or], rfl, ?_⟩
    rcases List.mem_append.mp hput with hpre | hmem
    · exact List.mem_append_left _ hpre
    · rcases List.mem_cons.mp hmem with hself | hmem
      · exact List.mem_append_right _ (List.mem_singleton.mpr hself)
      · cases hwritten.symm.trans (hpost _ hmem)
  · cases hlast

/-- Once a registration has returned, a request for one of its methods is served: by the bean of
that registration, or of one for the same interface that has put the method after it. -/
theorem returned_is_found {i : Nat} {call : ClassName × Option B} {m : Method} {inBytes : Bytes}
    {ls' : List (Label σ)} {u : LiveServer V B W σ}
    (h : Run (Step srv calls) (start srv.classPath hist calls world) ls s)
    (hi : calls[i]? = some call) (hret : s.registering.todo i = [])
    (hm : m ∈ getPublicMethods srv.classPath call.1) (h' : Run (Step srv calls) s ls' t)
    (hk : t.requests[k]? = some (q, .received)) (hr : readBody srv.io q.1 = .ok inBytes)
    (hd : srv.decode inBytes = .ok (some request))
    (hdesc : request.serviceDescriptor = some (fromMethod call.1 m))
    (hlook : Step srv calls t (.look k) u) :
    ∃ j bean pre post, calls[j]? = some (call.1, bean) ∧
      u.requests[k]? = some (q, .found ⟨bean, m⟩ request) ∧
      (ls ++ ls').filterMap Label.put? = pre ++ (j, m) :: post ∧ (i, m) ∈ pre ++ [(j, m)] := by
  have hput : (i, m) ∈ ls.filterMap Label.put? := by
    have htodo := ((Registering.traced_run (registering_run h)).todo i call hi m).mp hm
    rw [hret] at htodo
    exact htodo.resolve_left List.not_mem_nil
  have hmem : (i, m) ∈ (ls ++ ls').filterMap Label.put? := by
    rw [List.filterMap_append]
    exact List.mem_append_left _ hput
  obtain ⟨j, bean, pre, post, hj, hget, hputs, hlast⟩ :=
    get_of_mem (Registering.traced_run (registering_run (h.append h'))) hi hmem
  have hfound := look_eq_some_iff.mpr ⟨inBytes, _, hr, hd, hdesc, hget⟩
  refine ⟨j, bean, pre, post, hj, ?_, hputs, hlast⟩
  obtain ⟨hlt, -⟩ := List.getElem?_eq_some_iff.mp hk
  cases hlook with
  | miss k q' e hk' he =>
    obtain rfl : q = q' := by simpa using hk.symm.trans hk'
    rw [hfound] at he
    cases he
  | look k q' sis request' hk' hl =>
    obtain rfl : q = q' := by simpa using hk.symm.trans hk'
    obtain ⟨rfl, rfl⟩ : ⟨bean, m⟩ = sis ∧ request = request' := by simpa using hfound.symm.trans hl
    simp [setStage, hlt]

namespace Example

open Rpc.Example

/-- The registration of the calculator. -/
def calculator : History CalcServiceImpl := [(calcService, some .instance_)]

theorem oneBean_calculator : OneBean ([] ++ calculator) := by
  intro call hc call' hc' _
  rw [List.mem_singleton.mp hc, List.mem_singleton.mp hc']

abbrev sum : TimedStream × (Bytes → Except Throwable Unit) :=
  ((Arrival.whole addRequestText).start, fun _ => .ok ())

/-- A request for a sum comes in before its method is put. -/
theorem waiting_run : ∃ s : LiveServer Value CalcServiceImpl Unit TimedStream,
    Run (Step server calculator) (start classPath [] calculator ())
      [.arrive sum.1 sum.2, .put 0 add] s ∧ s.requests = [(sum, .received)] ∧
      s.registering.todo 0 = [minus] ∧ s.order = [.put 0 add] ∧
      get s.registering.services (fromMethod calcService add) = some ⟨some .instance_, add⟩ := by
  have htodo : (Registering.start classPath [] calculator).todo 0 = [add, minus] := by
    simp [Registering.start, calculator, getPublicMethods, classPath, add, minus, calcMethod]
  have harrive : Run (Step server calculator) (start classPath [] calculator ())
      [.arrive sum.1 sum.2] _ := .single (.arrive _ sum.1 sum.2)
  refine ⟨_, harrive.next (.put _ 0 add _ (.put _ 0 (calcService, some .instance_) add rfl ?_)),
    rfl, ?_, rfl, get_put_of_eqv (eqv_iff.mpr rfl) _ _⟩
  · exact htodo ▸ List.mem_cons_self
  · simp [start, htodo]

theorem look_sum {services : Services CalcServiceImpl}
    (h : get services (fromMethod calcService add) = some ⟨some .instance_, add⟩) :
    server.look services sum.1 = .ok (some ⟨some .instance_, add⟩, some addRequest) :=
  look_eq_some_iff.mpr ⟨addRequestText, _, Arrival.readBody_whole TimedStream.blockingReader _,
    decodeRequest_text, rfl, h⟩

/-- The request is answered before the registration has returned, and takes its place in between. -/
theorem live_linearizes_sum : ∃ ls s st,
    Run (Step server calculator) (start classPath [] calculator ()) ls s ∧
      s.registering.todo 0 = [minus] ∧
      Run (Atomic server calculator) ⟨registered classPath [], (), []⟩
        ([.put 0 add, .request 0].filterMap (s.op? server)) st := by
  obtain ⟨s, h, hreq, htodo, horder, hget⟩ := waiting_run
  have hk : s.requests[0]? = some (sum, .received) := by rw [hreq]; rfl
  have h₁ := h.next (.look s 0 sum _ addRequest hk (look_sum hget))
  have h₂ := h₁.next (.run _ 0 sum ⟨some .instance_, add⟩ addRequest (by simp [setStage, hreq]))
  obtain ⟨⟨st, hrun, -⟩, -⟩ := live_linearizes oneBean_calculator h₂
  refine ⟨_, _, st, h₂, htodo, ?_⟩
  simpa [horder, setStage] using hrun

theorem add_ne_minus : fromMethod calcService add ≠ fromMethod calcService minus := fun he =>
  absurd (fromMethod_eq_iff.mp he).2.1 (by decide)

/-- The other method is put, and the registration returns. -/
theorem returned_run : ∃ ls, ∃ s : LiveServer Value CalcServiceImpl Unit TimedStream,
    Run (Step server calculator) (start classPath [] calculator ()) ls s ∧
      s.requests = [(sum, .received)] ∧ s.registering.todo 0 = [] ∧
      get s.registering.services (fromMethod calcService add) = some ⟨some .instance_, add⟩ := by
  obtain ⟨s, h, hreq, htodo, -, hget⟩ := waiting_run
  have hput : Registering.Step calculator s.registering (0, minus) _ :=
    .put _ 0 (calcService, some .instance_) minus rfl (htodo ▸ List.mem_cons_self)
  refine ⟨_, _, h.next (.put s 0 minus _ hput), hreq, by simp [htodo], ?_⟩
  exact (get_put_of_not_eqv (eqv_eq_false_iff.mpr add_ne_minus) _ _).trans hget

/-- From then on the request finds the calculator. -/
theorem returned_is_found_sum : ∃ s u : LiveServer Value CalcServiceImpl Unit TimedStream,
    s.registering.todo 0 = [] ∧ Step server calculator s (.look 0) u ∧
      ∃ bean, u.requests[0]? = some (sum, .found ⟨bean, add⟩ addRequest) := by
  obtain ⟨ls, s, h, hreq, hret, hget⟩ := returned_run
  have hk : s.requests[0]? = some (sum, .received) := by rw [hreq]; rfl
  have hlook : Step server calculator s (.look 0) _ := .look s 0 sum _ addRequest hk (look_sum hget)
  obtain ⟨-, bean, -, -, -, hfound, -⟩ := returned_is_found h (i := 0) rfl hret
    (mem_getPublicMethods.mpr ⟨add_mem, rfl⟩) .start hk
    (Arrival.readBody_whole TimedStream.blockingReader _) decodeRequest_text rfl hlook
  exact ⟨s, _, hret, hlook, bean, hfound⟩

end Example

end LiveServer

end SpringDemo.Rpc

import Mathlib.Data.List.Forall2
import SpringDemo.Rpc.RemoteCall

/-! Typed arguments and results on their way through JSON text. -/
namespace SpringDemo.Rpc

open Java Lib.Exec

/-- The values that their JSON text alone determines: numbers of the class that the text suggests,
and no beans. -/
inductive Stable : Value → Prop
  | null : Stable .null
  | num (k : NumClass) (n : Int) (h : NumClass.ofText n = k) : Stable (.num k n)
  | bool (b : Bool) : Stable (.bool b)
  | str (s : JString) : Stable (.str s)
  | list (c : ListClass) (xs : List Value) (h : ∀ x ∈ xs, Stable x) : Stable (.list c xs)

variable {t : DeclaredType} {v : Value} {ts : List DeclaredType} {vs : List Value}

theorem stable_num_iff {k : NumClass} {n : Int} :
    Stable (.num k n) ↔ NumClass.ofText n = k := by
  constructor
  · rintro (_ | ⟨_, _, h⟩)
    exact h
  · exact .num k n

theorem stable_list_iff {c : ListClass} {xs : List Value} :
    Stable (.list c xs) ↔ ∀ x ∈ xs, Stable x := by
  constructor
  · rintro (_ | _ | _ | _ | ⟨_, _, h⟩)
    exact h
  · exact .list c xs

theorem not_stable_bean {c : BeanClass} {ws : List Value} : ¬ Stable (.bean c ws) := nofun

theorem equalsAll_map {f : Value → Value} {xs : List Value} :
    Value.equalsAll (xs.map f) xs = true ↔ ∀ x ∈ xs, (f x).equals x = true := by
  induction xs with
  | nil => simp [Value.equalsAll]
  | cons x xs ih => simp [Value.equalsAll, ih]

/-- What is read back equals the value exactly when the text determines it. -/
theorem reread_equals_iff (h : HasType t v) : v.reread.equals v = true ↔ Stable v := by
  induction h with
  | primBool b => simp [Value.equals, Stable.bool]
  | primNum s k n hk hn => simp [Value.equals, stable_num_iff]
  | boxNull s => simp [Value.equals, Stable.null]
  | boxBool b => simp [Value.equals, Stable.bool]
  | boxNum s k n hk hn => simp [Value.equals, stable_num_iff]
  | stringNull => simp [Value.equals, Stable.null]
  | string s => simp [Value.equals, Stable.str]
  | listNull t => simp [Value.equals, Stable.null]
  | list t c xs h ih =>
    rw [Value.reread_list, Value.equals, equalsAll_map, stable_list_iff]
    exact forall₂_congr ih
  | beanNull c ts => simp [Value.equals, Stable.null]
  | bean c ts ws hl h ih => simp [Value.equals, not_stable_bean]

/-- What is read back of such a value still has its type. -/
theorem hasType_reread (h : HasType t v) (hs : Stable v) : HasType t v.reread := by
  induction h with
  | primBool b => exact .primBool b
  | primNum s k n hk hn =>
    rw [Value.reread_num, stable_num_iff.mp hs]
    exact .primNum s k n hk hn
  | boxNull s => exact .boxNull s
  | boxBool b => exact .boxBool b
  | boxNum s k n hk hn =>
    rw [Value.reread_num, stable_num_iff.mp hs]
    exact .boxNum s k n hk hn
  | stringNull => exact .stringNull
  | string s => exact .string s
  | listNull t => exact .listNull t
  | list t c xs h ih =>
    rw [Value.reread_list]
    refine .list t _ _ ?_
    intro y hy
    obtain ⟨x, hx, rfl⟩ := List.mem_map.mp hy
    exact ih x hx (stable_list_iff.mp hs x hx)
  | beanNull c ts => exact .beanNull c ts
  | bean c ts ws hl h ih => exact absurd hs not_stable_bean

/-- A result arrives as an equal instance of its declared type exactly when its text determines
it. -/
theorem result_kept_iff (h : HasType t v) :
    HasType t v.reread ∧ v.reread.equals v = true ↔ Stable v := by
  rw [reread_equals_iff h]
  exact ⟨And.right, fun hs => ⟨hasType_reread h hs, hs⟩⟩

theorem ofText_of_fits {n : Int} (h : NumClass.integer.Fits n) : NumClass.ofText n = .integer :=
  if_pos h

theorem ofText_rank_le {n : Int} (h : NumClass.long.Fits n) :
    (NumClass.ofText n).rank ≤ NumClass.long.rank := by
  unfold NumClass.ofText
  split
  · decide
  · simp

theorem convert_num {s : Scalar} {k k' : NumClass} {n : Int} (hk : s.numClass = some k) :
    convert (.prim s) (.num k' n) = if k'.rank ≤ k.rank then some (.num k n) else none := by
  cases s <;> simp_all [convert, Scalar.numClass]

theorem convert_box_num {s : Scalar} {k k' : NumClass} {n : Int} (hk : s.numClass = some k) :
    convert (.box s) (.num k' n) = if k = k' then some (.num k' n) else none := by
  cases s <;> simp_all [convert, Scalar.numClass]

/-- A parameter arrives as an equal value exactly when it is declared `long`, to which every
number is widened, or its text determines it. -/
theorem parameter_kept_iff (h : HasType t v) :
    (∃ v', convert t v.reread = some v' ∧ v'.equals v = true) ↔ t = .prim .long ∨ Stable v := by
  cases h with
  | primBool b => simp [convert, Value.equals, Stable.bool]
  | primNum s k n hk hn =>
    rw [Value.reread_num, convert_num hk, stable_num_iff]
    cases s with
    | boolean => simp [Scalar.numClass] at hk
    | byte =>
      cases hk
      have ho := ofText_of_fits (n := n) (by simp only [NumClass.Fits] at hn ⊢; omega)
      simp [ho, NumClass.rank]
    | short =>
      cases hk
      have ho := ofText_of_fits (n := n) (by simp only [NumClass.Fits] at hn ⊢; omega)
      simp [ho, NumClass.rank]
    | int =>
      cases hk
      simp [ofText_of_fits hn, Value.equals]
    | long =>
      cases hk
      simp [ofText_rank_le hn, Value.equals]
  | boxNull s => simp [convert, Value.equals, Stable.null]
  | boxBool b => simp [convert, Value.equals, Stable.bool]
  | boxNum s k n hk hn =>
    rw [Value.reread_num, convert_box_num hk, stable_num_iff]
    by_cases ho : k = NumClass.ofText n
    · simp [← ho, Value.equals]
    · simp [ho, Ne.symm ho]
  | stringNull => simp [convert, Value.equals, Stable.null]
  | string s => simp [convert, Value.equals, Stable.str]
  | listNull t => simp [convert, Value.equals, Stable.null]
  | list t c xs h =>
    have hs := reread_equals_iff (HasType.list t c xs h)
    rw [Value.reread_list] at hs ⊢
    simp [convert, hs]
  | beanNull c ts => simp [convert, Value.equals, Stable.null]
  | bean c ts ws hl h => simp [convert, not_stable_bean]

/-- The arguments of a call arrive as equal values exactly when each of them does. -/
theorem parameters_kept_iff {coerce : JType → Value → Option Value}
    (hc : ∀ t ∈ ts, ∀ v, coerce t.erase v = convert t v) (h : List.Forall₂ HasType ts vs) :
    (∃ actual, coerceAll coerce (ts.map DeclaredType.erase) (vs.map Value.reread) = some actual ∧
      Value.equalsAll actual vs = true) ↔
    List.Forall₂ (fun t v => t = .prim .long ∨ Stable v) ts vs := by
  induction h with
  | nil => simp [coerceAll, Value.equalsAll]
  | @cons t v ts vs ht h ih =>
    have ih' := ih fun t ht => hc t (List.mem_cons_of_mem _ ht)
    rw [List.forall₂_cons, ← ih', ← parameter_kept_iff ht]
    simp only [List.map_cons, coerceAll, hc t List.mem_cons_self]
    cases convert t v.reread with
    | none => simp
    | some v' =>
      cases coerceAll coerce (ts.map DeclaredType.erase) (vs.map Value.reread) with
      | none => simp
      | some actual => simp [Value.equalsAll]

variable {B W : Type} {srv : RpcServer Value B W TimedStream}
  {inv : RemoteInvoker Value (ServerState Value B W) TimedStream}
  {st : ClientState (ServerState Value B W)} {m : Method} {bean : B} {args : Option (List Value)}
  {rt : DeclaredType}

/-- The arguments as the server's decoder hands them on. -/
def rereadArgs (args : Option (List Value)) : Option (List Value) :=
  args.map fun vs => vs.map Value.reread

theorem rereadArgs_getD (args : Option (List Value)) :
    (rereadArgs args).getD [] = (args.getD []).map Value.reread := by
  cases args <;> rfl

/-- The reflective call accepts the arguments as decoded and gets equal ones, and what the bean
returns comes back as an equal instance of the declared type. -/
def Keeps (srv : RpcServer Value B W TimedStream)
    (inv : RemoteInvoker Value (ServerState Value B W) TimedStream)
    (st : ClientState (ServerState Value B W)) (m : Method) (bean : B) (rt : DeclaredType)
    (args : Option (List Value)) (render : Value → JString) (seed : Nat) : Prop :=
  ∃ actual, m.arguments srv.classPath srv.runtime (some bean) (rereadArgs args) = .ok actual ∧
    Value.equalsAll actual (args.getD []) = true ∧
    ∀ v w, srv.runtime.exec (some bean) m actual st.network.world = (.ok v, w) →
      ∃ v', outcome (inv.invoke render seed m args st) = .ok v' ∧ HasType rt v' ∧
        v'.equals v = true

/-- A call whose arguments and results are read back from their text alone keeps them exactly when
that text determines each of them, or the argument is declared `long`. -/
theorem wire_keeps_iff (hcon : Connected srv inv st)
    (h : Served srv st.network inv.clazz m bean)
    (hts : m.parameterTypes = ts.map DeclaredType.erase)
    (hargs : List.Forall₂ HasType ts (args.getD []))
    (hcoerce : ∀ t ∈ ts, ∀ v, srv.runtime.coerce t.erase v = convert t v)
    (hreq : ∃ bytes, inv.encode (inv.requestOf m args) = .ok bytes ∧
      srv.decode bytes = .ok (some { inv.requestOf m args with parameters := rereadArgs args }))
    (hret : ∀ actual v w,
      m.arguments srv.classPath srv.runtime (some bean) (rereadArgs args) = .ok actual →
      srv.runtime.exec (some bean) m actual st.network.world = (.ok v, w) →
      HasType rt v ∧ ∃ bytes,
        srv.encode { (Response.new : Response Value) with data := v } = .ok bytes ∧
        inv.decode bytes =
          .ok (some { (Response.new : Response Value) with data := v.reread }))
    (render : Value → JString) (seed : Nat) :
    Keeps srv inv st m bean rt args render seed ↔
    List.Forall₂ (fun t v => t = .prim .long ∨ Stable v) ts (args.getD []) ∧
    ∀ actual v w,
      m.arguments srv.classPath srv.runtime (some bean) (rereadArgs args) = .ok actual →
      srv.runtime.exec (some bean) m actual st.network.world = (.ok v, w) → Stable v := by
  have hI : srv.classPath.isAccessible m.declaringClass = true := by
    rw [srv.classPath.declaring h.declared]
    exact h.accessible
  simp only [Keeps, Method.arguments_eq_ok_iff hI, rereadArgs_getD] at hret ⊢
  have hparams := parameters_kept_iff hcoerce hargs
  rw [← hts] at hparams
  obtain ⟨bytes, henc, hdec⟩ := hreq
  have hcall : ∀ actual v w,
      coerceAll srv.runtime.coerce m.parameterTypes ((args.getD []).map Value.reread) =
        some actual →
      srv.runtime.exec (some bean) m actual st.network.world = (.ok v, w) →
      outcome (inv.invoke render seed m args st) = .ok v.reread := by
    intro actual v w hc hrun
    obtain ⟨_, outBytes, hout, hdec'⟩ := hret actual v w hc hrun
    rw [← rereadArgs_getD] at hc
    obtain ⟨sel, _, hinv⟩ := invoke_of_served hcon h henc hdec rfl hc hrun hout hdec' render seed
    rw [hinv, outcome_ended]
    rfl
  rw [← hparams]
  constructor
  · rintro ⟨actual, hc, heq, hres⟩
    refine ⟨⟨actual, hc, heq⟩, ?_⟩
    intro actual' v w hc' hrun
    obtain rfl := Option.some.inj (hc.symm.trans hc')
    obtain ⟨v', ho, ht, he⟩ := hres v w hrun
    rw [hcall actual v w hc hrun] at ho
    cases ho
    exact (result_kept_iff (hret actual v w hc hrun).1).mp ⟨ht, he⟩
  · rintro ⟨⟨actual, hc, heq⟩, hres⟩
    refine ⟨actual, hc, heq, ?_⟩
    intro v w hrun
    have hs := hres actual v w hc hrun
    exact ⟨v.reread, hcall actual v w hc hrun,
      (result_kept_iff (hret actual v w hc hrun).1).mpr hs⟩

namespace Example

theorem hasType_int {n : Int} (hn : NumClass.integer.Fits n) :
    HasType (.prim .int) (.num .integer n) :=
  .primNum .int .integer n rfl hn

theorem stable_integer {n : Int} (hn : NumClass.integer.Fits n) : Stable (.num .integer n) :=
  .num .integer n (ofText_of_fits hn)

theorem received_add : add.arguments server.classPath server.runtime
    (some CalcServiceImpl.instance_) (rereadArgs addRequest.parameters) =
      .ok [.num .integer 1, .num .integer 2] := arguments_add 1 2

theorem sum_of_received {actual : List Value} {v : Value} {w : Unit}
    (ha : add.arguments server.classPath server.runtime (some CalcServiceImpl.instance_)
      (rereadArgs addRequest.parameters) = .ok actual)
    (hx : server.runtime.exec (some .instance_) add actual () = (.ok v, w)) :
    v = .num .integer 3 := by
  rw [received_add, Except.ok.injEq] at ha
  subst ha
  have he := (exec_add 1 2).symm.trans hx
  cases he
  rfl

/-- The calculator's numbers are all declared `int`. -/
theorem wire_keeps_add : ∃ v', outcome ((invokerWith (serving server)).invoke (fun _ => []) 0 add
    addRequest.parameters (clientState serverState)) = .ok v' ∧ HasType (.prim .int) v' ∧
      v'.equals (.num .integer 3) = true := by
  have hargs : List.Forall₂ HasType [.prim .int, .prim .int] (addRequest.parameters.getD []) :=
    .cons (hasType_int (by decide)) (.cons (hasType_int (by decide)) .nil)
  have hstable : List.Forall₂ (fun t v => t = DeclaredType.prim .long ∨ Stable v)
      [.prim .int, .prim .int] (addRequest.parameters.getD []) :=
    .cons (.inr (stable_integer (by decide))) (.cons (.inr (stable_integer (by decide))) .nil)
  have hcoerce : ∀ t ∈ [DeclaredType.prim .int, .prim .int], ∀ v,
      server.runtime.coerce t.erase v = convert t v := by
    simp [serverWith, Example.runtime, DeclaredType.erase, Scalar.prim]
  have hret : ∀ actual v w, add.arguments server.classPath server.runtime
        (some CalcServiceImpl.instance_) (rereadArgs addRequest.parameters) = .ok actual →
      server.runtime.exec (some .instance_) add actual () = (.ok v, w) →
      HasType (.prim .int) v ∧ ∃ bytes,
        server.encode { (Response.new : Response Value) with data := v } = .ok bytes ∧
        decodeResponse bytes =
          .ok (some { (Response.new : Response Value) with data := v.reread }) := by
    intro actual v w ha hx
    obtain rfl := sum_of_received ha hx
    exact ⟨hasType_int (by decide), sumResponseText, rfl, decodeResponse_sum⟩
  have h := wire_keeps_iff (connected_default encodeResponse) served_add rfl hargs hcoerce
    ⟨addRequestText, encodeRequest_add, decodeRequest_text⟩ hret (fun _ => []) 0
  obtain ⟨actual, ha, _, hres⟩ := h.mpr ⟨hstable, fun actual v w ha hx => by
    obtain rfl := sum_of_received ha hx
    exact stable_integer (by decide)⟩
  obtain rfl := Except.ok.inj (received_add.symm.trans ha)
  exact hres _ _ (exec_add 1 2)

/-- A service of another kind: its method takes and returns a `Long`. -/
@[irreducible] def clockService : ClassName :=
  platformClass "com.stream.gkrpc.example.ClockService"

def next : Method where
  declaringClass := clockService
  name := utf16 "next"
  parameterTypes := [.cls longClass]
  returnType := .cls longClass
  isPublic := true
  isStatic := false

def clockPath : ClassPath where
  getDeclaredMethods c := if c = clockService then [next] else []
  getInterfaces _ := []
  isAccessible _ := true
  declaring {c m} h := by
    split at h
    · rename_i hc
      obtain rfl := List.mem_singleton.mp h
      exact hc.symm
    · simp at h
  distinct {c m m'} h h' _ := by
    split at h
    · rw [if_pos (by assumption)] at h'
      rw [List.mem_singleton.mp h, List.mem_singleton.mp h']
    · simp at h

def clockRuntime : Runtime Value CalcServiceImpl Unit where
  coerce t v := if t = (DeclaredType.box .long).erase then convert (.box .long) v else none
  exec _ _ args w :=
    match args with
    | [.num .long n] => (.ok (.num .long ((n + 1).bmod 18446744073709551616)), w)
    | _ => (.error .nullPointerException, w)

/-- One `Long` that fits an `Integer`. -/
def now : Option (List Value) := some [.num .long 1]

/-- A server whose messages are all of this one call. -/
def clockServer : RpcServer Value CalcServiceImpl Unit TimedStream where
  classPath := clockPath
  runtime := clockRuntime
  io := TimedStream.blockingReader.io
  decode _ := .ok (some ⟨some (.fromMethod clockService next), rereadArgs now⟩)
  encode _ := .ok []

def clockInvoker :
    RemoteInvoker Value (ServerState Value CalcServiceImpl Unit) TimedStream where
  clazz := clockService
  encode _ := .ok []
  decode _ := .ok (some { (Response.new : Response Value) with code := 1 })
  exchange := serving clockServer
  io := TimedStream.blockingReader.io

def clockState : ServerState Value CalcServiceImpl Unit where
  services := registered clockPath [(clockService, some .instance_)]
  world := ()
  log := []

theorem served_next : Served clockServer clockState clockService next .instance_ where
  registered := ⟨[(clockService, some .instance_)], rfl, by simp [latest]⟩
  accessible := rfl
  declared := by simp [clockServer, clockPath]
  isPublic := rfl

/-- A `Long` that arrives as an `Integer` is no argument for the method: the call is well typed,
the messages and the reflection do what is relied on, and the argument is lost. -/
theorem boxed_long_lost :
    Connected clockServer clockInvoker (clientState clockState) ∧
    Served clockServer clockState clockService next .instance_ ∧
    List.Forall₂ HasType [.box .long] (now.getD []) ∧
    (∀ v, clockServer.runtime.coerce (DeclaredType.box .long).erase v = convert (.box .long) v) ∧
    (∃ bytes, clockInvoker.encode (clockInvoker.requestOf next now) = .ok bytes ∧
      clockServer.decode bytes =
        .ok (some { clockInvoker.requestOf next now with parameters := rereadArgs now })) ∧
    ¬ Keeps clockServer clockInvoker (clientState clockState) next .instance_ (.box .long) now
      (fun _ => []) 0 := by
  refine ⟨?_, served_next, ?_, fun v => ?_, ⟨[], rfl, rfl⟩, ?_⟩
  · exact ⟨⟨TimedStream.blockingReader, rfl⟩, ⟨TimedStream.blockingReader, rfl⟩,
      [defaultPeer], 1, by simp, fun _ _ => serving_delivers _ _, .rfl⟩
  · exact .cons (.boxNum .long .long 1 rfl (by decide)) .nil
  · simp [clockServer, clockRuntime]
  · rintro ⟨actual, ha, _, _⟩
    rw [Method.arguments_eq_ok_iff rfl] at ha
    simp [clockServer, clockRuntime, next, now, rereadArgs, coerceAll, convert, Scalar.numClass,
      DeclaredType.erase, ofText_of_fits (n := 1) (by decide)] at ha

end Example

end SpringDemo.Rpc

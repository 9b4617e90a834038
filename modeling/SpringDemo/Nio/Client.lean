import SpringDemo.Java.Nio
import SpringDemo.Library.Exec

/-! The chat client: one thread writes what is typed, the other prints what the server sends. -/
namespace SpringDemo.Nio

open Java Lib.Exec Lib.Utf8

/-- What `NioClient.start` writes for the lines of its console, one text at a time. -/
def requests (nickname : Text) (lines : List Text) : List Text :=
  (lines.filter fun request => 0 < request.length).map fun request =>
    nickname ++ " : ".toList ++ request

inductive ClientEvent where
  | read (r : Option Bytes)
  | println (text : Text)
deriving DecidableEq

structure ClientState where
  keys : List SelectionKey
  /-- the exception that ended `run()` -/
  thrown : Option Throwable
  log : List ClientEvent
deriving DecidableEq

namespace ClientState

abbrev Handler (α : Type) := Block Throwable ClientState α

def tell (e : ClientEvent) : Handler Unit := modify fun s => { s with log := s.log ++ [e] }

/-- The handler's thread with its one channel. -/
def connected : ClientState := ⟨register [] (.socket 0) OP_READ, none, []⟩

def readHander (incoming : Nat → Incoming) (selectionKey : SelectionKey) : Handler Unit := do
  let (response, ended) := readAll incoming
  response.reads.forM fun r => tell (.read r)
  lift ended
  modify fun s => { s with keys := register s.keys selectionKey.channel OP_READ }
  if 0 < response.text.length then
    tell (.println response.text)

def after : EStateM.Result Throwable ClientState Unit → ClientState
  | .ok _ s => s
  | .error e s => { s with thrown := some e }

/-- The loop of `run()`, one readable key after the other. -/
inductive Step : ClientState → (Nat → Incoming) → ClientState → Prop
  | readable (s : ClientState) (incoming : Nat → Incoming) (selectionKey : SelectionKey)
      (ht : s.thrown = none) (hk : selectionKey ∈ s.keys)
      (hr : selectionKey.interestOps.read = true) :
      Step s incoming (.after (readHander incoming selectionKey s))

variable {s t : ClientState} {incoming : Nat → Incoming}

theorem tellReads_run (reads : List (Option Bytes)) (s : ClientState) :
    reads.forM (fun r => tell (.read r)) s =
      .ok () { s with log := s.log ++ reads.map .read } := by
  have hb : ∀ (r : Option Bytes) (s : ClientState),
      tell (.read r) s = .ok () { s with log := s.log ++ [.read r] } := fun _ _ => rfl
  have hall := forM_tell (fun es s => { s with log := s.log ++ es }) (by simp) (by simp) hb reads s
  rwa [← List.map_eq_flatMap] at hall

theorem readHander_run (hk : s.keys = connected.keys) {response : Reading}
    (hr : readAll incoming = (response, .ok ())) :
    readHander incoming ⟨.socket 0, OP_READ⟩ s =
      .ok () { s with
        log := s.log ++ (response.reads.map .read ++
          if 0 < response.text.length then [.println response.text] else []) } := by
  have hreg : register connected.keys (.socket 0) OP_READ = connected.keys := rfl
  simp only [readHander, hr]
  rw [bind_ok (tellReads_run response.reads s)]
  split <;> simp_all [bind_run, tell]

theorem readHander_silent (hk : s.keys = connected.keys) {r : Option Bytes}
    (hi : incoming 0 = .ok r) (hr : r = none ∨ r = some []) :
    readHander incoming ⟨.socket 0, OP_READ⟩ s = .ok () { s with log := s.log ++ [.read r] } := by
  have hall := readAll_eq incoming
  rw [hi] at hall
  rcases hr with rfl | rfl <;> exact readHander_run hk hall

theorem readHander_hears (hk : s.keys = connected.keys) {bs : Bytes}
    (hi : incoming 0 = .ok (some bs)) (hb : bs ≠ []) :
    readHander incoming ⟨.socket 0, OP_READ⟩ s =
      .ok () { s with log := s.log ++ [.read (some (bs.take 1024)), .read (some []),
        .println (decode (bs.take 1024))] } := by
  have hall := readAll_eq incoming
  rw [hi] at hall
  obtain ⟨b, bs, rfl⟩ := List.exists_cons_of_ne_nil hb
  have htext : 0 < (decode ((b :: bs).take 1024)).length := by
    rw [List.length_pos_iff, Ne, decode_eq_nil_iff]
    simp
  rw [readHander_run hk hall, if_pos htext]
  rfl

/-- What a step can come to. -/
theorem step_cases (hk : s.keys = connected.keys) (h : Step s incoming t) :
    (∃ e, incoming 0 = .error e ∧ t = { s with thrown := some e }) ∨
    (∃ r, incoming 0 = .ok r ∧ (r = none ∨ r = some []) ∧
      t = { s with log := s.log ++ [.read r] }) ∨
    ∃ bs, incoming 0 = .ok (some bs) ∧ bs ≠ [] ∧
      t = { s with log := s.log ++ [.read (some (bs.take 1024)), .read (some []),
        .println (decode (bs.take 1024))] } := by
  cases h with
  | readable key ht hmem hr =>
    rw [hk] at hmem
    obtain rfl := List.mem_singleton.mp hmem
    cases hi : incoming 0 with
    | error e =>
      have hall := readAll_eq incoming
      rw [hi] at hall
      have h : readHander incoming ⟨.socket 0, OP_READ⟩ s = .error e s := by
        simp [readHander, hall, bind_run]
      exact .inl ⟨e, rfl, by rw [h]; rfl⟩
    | ok r =>
      rcases r with _ | _ | ⟨b, bs⟩
      · refine .inr (.inl ⟨none, rfl, .inl rfl, ?_⟩)
        rw [readHander_silent hk hi (.inl rfl)]
        rfl
      · refine .inr (.inl ⟨some [], rfl, .inr rfl, ?_⟩)
        rw [readHander_silent hk hi (.inr rfl)]
        rfl
      · refine .inr (.inr ⟨b :: bs, rfl, by simp, ?_⟩)
        rw [readHander_hears hk hi (by simp)]
        rfl

theorem keys_step (hk : s.keys = connected.keys) (h : Step s incoming t) :
    t.keys = connected.keys := by
  rcases step_cases hk h with ⟨e, _, rfl⟩ | ⟨r, _, _, rfl⟩ | ⟨bs, _, _, rfl⟩ <;> exact hk

end ClientState

end SpringDemo.Nio

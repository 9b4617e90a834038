import SpringDemo.Nio.Routing

/-! How much of what is written to a channel goes out: a short write is not made good. -/
namespace SpringDemo.Nio

open Java Lib.Runs Lib.Utf8

variable {s : ServerState} {ls : List Label} {c : Nat}

/-- What the channel takes of a buffer that is written to it. -/
def taken : Bytes × Except Throwable Nat → Bytes
  | (buffer, .ok n) => buffer.take n
  | (_, .error _) => []

/-- All the bytes that a channel has taken. -/
def takenBy (channel : Channel) (log : List Event) : Bytes := (writesOn channel log).flatMap taken

/-- The channel has room for the whole buffer. -/
def Fits (w : Bytes × Except Throwable Nat) : Prop := ∃ n, w.2 = .ok n ∧ w.1.length ≤ n

theorem length_taken_le (w : Bytes × Except Throwable Nat) : (taken w).length ≤ w.1.length := by
  obtain ⟨buffer, room⟩ := w
  cases room with
  | ok n =>
    simp only [taken, List.length_take]
    omega
  | error e => simp [taken]

/-- What is not empty is taken whole exactly when it fits. -/
theorem taken_eq_iff {w : Bytes × Except Throwable Nat} (hne : w.1 ≠ []) :
    taken w = w.1 ↔ Fits w := by
  obtain ⟨buffer, room⟩ := w
  cases room with
  | ok n => simp [taken, Fits]
  | error e => simp [taken, Fits, hne.symm]

theorem length_flatMap_taken_le (ws : List (Bytes × Except Throwable Nat)) :
    (ws.flatMap taken).length ≤ (ws.map Prod.fst).flatten.length := by
  induction ws with
  | nil => simp
  | cons w ws ih =>
    have hw := length_taken_le w
    simp only [List.flatMap_cons, List.map_cons, List.flatten_cons, List.length_append]
    omega

/-- The bytes that are taken are the buffers, one after the other, exactly when every buffer
fits: nothing that one write leaves is made good by the next. -/
theorem flatMap_taken_eq_iff {ws : List (Bytes × Except Throwable Nat)} (hne : ∀ w ∈ ws, w.1 ≠ []) :
    ws.flatMap taken = (ws.map Prod.fst).flatten ↔ ∀ w ∈ ws, Fits w := by
  induction ws with
  | nil => simp
  | cons w ws ih =>
    have hws := ih fun w hw => hne w (List.mem_cons_of_mem _ hw)
    rw [List.forall_mem_cons, ← hws, ← taken_eq_iff (hne w List.mem_cons_self)]
    constructor
    · intro h
      have hle := length_flatMap_taken_le ws
      have hlen := congrArg List.length h
      have hw := length_taken_le w
      simp only [List.flatMap_cons, List.map_cons, List.flatten_cons, List.length_append] at hlen h
      exact List.append_inj h (by omega)
    · rintro ⟨hw, hws⟩
      simp [hw, hws]

theorem mem_writesOn_iff {channel : Channel} {log : List Event}
    {w : Bytes × Except Throwable Nat} :
    w ∈ writesOn channel log ↔ .wrote channel w.1 w.2 ∈ log := by
  rw [writesOn, List.mem_filterMap]
  constructor
  · rintro ⟨e, he, hw⟩
    cases e with
    | wrote ch buffer room =>
      by_cases hch : ch = channel
      · simp only [writeOn?, hch, if_true, Option.some.injEq] at hw
        exact hw ▸ hch ▸ he
      · simp [writeOn?, hch] at hw
    | _ => cases hw
  · exact fun he => ⟨_, he, by simp [writeOn?]⟩

theorem encode_greeting_ne_nil : encode greeting ≠ [] :=
  mt encode_eq_nil_iff.mp (by decide +kernel)

/-- No empty buffer is ever written to a client. -/
theorem ne_nil_of_mem_writesTo (h : Routed s) {pre post : List Event}
    (hlog : s.log = pre ++ .accepted c :: post) {buffer : Bytes}
    (hb : buffer ∈ writesTo (.socket c) s.log) : buffer ≠ [] := by
  rw [writesTo_of_accepted h hlog] at hb
  rcases List.mem_cons.mp hb with hg | hb
  · rw [hg]
    exact encode_greeting_ne_nil
  · obtain ⟨e, _, he⟩ := List.mem_filterMap.mp hb
    cases e with
    | requested d text =>
      by_cases ht : d ≠ c ∧ text ≠ []
      · simp only [addressed, if_pos ht, Option.some.injEq] at he
        rw [← he, Ne, encode_eq_nil_iff]
        exact ht.2
      · simp [addressed, ht] at he
    | _ => cases he

/-- A client is delivered the greeting and all texts of the others whole exactly when its channel
has room for the whole buffer at every write. -/
theorem delivered_whole_iff (h : Run Step .listening ls s) {pre post : List Event}
    (hlog : s.log = pre ++ .accepted c :: post) :
    takenBy (.socket c) s.log = encode greeting ++ (post.filterMap (addressed c)).flatten ↔
      ∀ buffer room, .wrote (.socket c) buffer room ∈ s.log →
        ∃ n, room = .ok n ∧ buffer.length ≤ n := by
  have hrouted := routed_run h
  have hne : ∀ w ∈ writesOn (.socket c) s.log, w.1 ≠ [] := fun w hw =>
    ne_nil_of_mem_writesTo hrouted hlog (List.mem_map_of_mem hw)
  have hw := writesTo_of_accepted hrouted hlog
  rw [← List.flatten_cons, ← hw, takenBy, writesTo, flatMap_taken_eq_iff hne]
  constructor
  · intro hf buffer room he
    exact hf (buffer, room) (mem_writesOn_iff.mpr he)
  · intro hf w hw
    exact hf w.1 w.2 (mem_writesOn_iff.mp hw)

namespace Example

theorem length_greeting_le : (encode greeting).length ≤ 4096 := by
  decide +kernel

theorem delivered_whole_gathered : takenBy (.socket 0) gathered.log = encode greeting := by
  have h := delivered_whole_iff gathered_run (show gathered.log = [] ++ .accepted 0 :: _ from rfl)
  refine h.mpr fun buffer room he => ?_
  simp only [gathered, List.mem_cons, Event.wrote.injEq, Channel.socket.injEq, reduceCtorEq,
    List.not_mem_nil] at he
  obtain ⟨rfl, rfl⟩ : buffer = encode greeting ∧ room = .ok 4096 := by simpa using he
  exact ⟨4096, rfl, length_greeting_le⟩

/-- Every channel has room for three bytes only. -/
def slow (incoming : Incoming) : Net := { calm incoming with
  room := fun _ => .ok 3
  room_io := nofun }

/-- The second client is slow when the first one says something, and has room again later. -/
theorem hello_cut : ∃ s pre post,
    Run Step .listening (gathering ++ [.select [readable 0], .next (slow (.ok (some hello)))] ++
        [.select [readable 1], .next (calm (.ok (some [])))]) s ∧
      s.selectedKeys = [] ∧ s.log = pre ++ .accepted 1 :: post ∧
      takenBy (.socket 1) s.log = encode greeting ++ hello.take 3 ∧
      takenBy (.socket 1) s.log ≠ encode greeting ++ (post.filterMap (addressed 1)).flatten := by
  have hhello := run_of_round (inv_run gathered_run) rfl rfl (by decide) (readable_ready 0)
    (.hears 0 (by decide) hello (show (slow (.ok (some hello))).incoming 0 = _ from rfl)
      (by simp [hello]))
  have hrun := gathered_run.append hhello
  have hlater := run_of_round (inv_run hrun) rfl rfl (by decide) (readable_ready 1)
    (.silent 1 (by decide) (some []) (show (calm (.ok (some []))).incoming 0 = _ from rfl)
      (.inr rfl))
  have htake : hello.take 1024 = hello := by decide
  have hdecode : decode hello = "hello".toList := decode_encode _
  have hb : broadcastTo (slow (.ok (some hello))) gathered.keys 0 "hello".toList =
      [.wrote (.socket 1) hello (.ok 3)] := rfl
  rw [htake, hdecode, hb] at hrun hlater
  have hg : (encode greeting).take 4096 = encode greeting :=
    List.take_of_length_le length_greeting_le
  have htaken : takenBy (.socket 1) (gathered.log ++ ([.read 0 (some hello), .read 0 (some []),
      .requested 0 "hello".toList, .boardCast 0 "hello".toList] ++
        [.wrote (.socket 1) hello (.ok 3)]) ++ [.read 1 (some []), .requested 1 []]) =
      encode greeting ++ hello.take 3 := by
    simp [takenBy, gathered, writesOn, writeOn?, taken, hg, List.filterMap_cons]
  refine ⟨_, [.accepted 0, .wrote (.socket 0) (encode greeting) (.ok 4096)], _,
    hrun.append hlater, rfl, rfl, htaken, ?_⟩
  rw [htaken, Ne, List.append_cancel_left_eq]
  decide

end Example

end SpringDemo.Nio

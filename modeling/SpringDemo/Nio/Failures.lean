import SpringDemo.Nio.Routing

/-! What becomes of the chat when a channel fails, and when a client leaves. -/
namespace SpringDemo.Nio

open Java Lib.Runs Lib.Utf8

variable {net : Net} {s t : ServerState} {l : Label} {ls : List Label} {k : SelectedKey} {c : Nat}

/-- The channel that the step serves does not fail: a pending connection is there and takes its
greeting, and the first `read` throws nothing. -/
def Healthy (s : ServerState) : Label → Prop
  | .select _ => True
  | .next net => ∀ k rest, s.selectedKeys = k :: rest →
      (k.ready.accept = true → net.accept = .ok true ∧
        ∃ n, net.room (.socket s.channels.length) = .ok n) ∧
      (k.ready.read = true → ∃ r, net.incoming 0 = .ok r)

/-- The key that a step serves is the first of its batch. -/
theorem forall_served_iff {rest : List SelectedKey} {p : SelectedKey → Prop}
    (hs : s.selectedKeys = k :: rest) :
    (∀ k' rest', s.selectedKeys = k' :: rest' → p k') ↔ p k := by
  constructor
  · intro h
    exact h k rest hs
  · intro h k' rest' hs'
    rw [hs] at hs'
    cases hs'
    exact h

/-- A round ends the loop exactly when its channel fails. -/
theorem thrown_eq_none_iff {rest : List SelectedKey} (hs : s.selectedKeys = k :: rest)
    (ht : s.thrown = none) (hr : Round net { s with selectedKeys := rest } k t) :
    t.thrown = none ↔ Healthy s (.next net) := by
  rw [Healthy, forall_served_iff hs]
  cases hr with
  | acceptThrows e ha => simp [acceptable, OP_ACCEPT, ha]
  | acceptNull ha => simp [acceptable, OP_ACCEPT, ha]
  | accepts ha =>
    cases net.room (.socket s.channels.length) <;> simp [acceptable, OP_ACCEPT, ha, failure]
  | readThrows c hc e hi => simp [readable, OP_READ, hi]
  | silent c hc r hi hr => simp [readable, OP_READ, hi, ht]
  | hears c hc bs hi hb => simp [readable, OP_READ, hi, ht]

/-- The loop runs, everyone who came in is still registered, and what one of them sends next
reaches each of the others. -/
structure GoesOn (s : ServerState) : Prop where
  running : s.thrown = none
  registered : ∀ c, .accepted c ∈ s.log → ⟨.socket c, OP_READ⟩ ∈ s.keys
  talks : s.selectedKeys = [] → ∀ c, .accepted c ∈ s.log → ∀ net bs,
    net.incoming 0 = .ok (some bs) → bs ≠ [] →
      ∃ t, Run Step s [.select [readable c], .next net] t ∧ t.thrown = none ∧
        ∀ d, .accepted d ∈ s.log → d ≠ c →
          writesTo (.socket d) t.log =
            writesTo (.socket d) s.log ++ [encode (decode (bs.take 1024))]

/-- A step keeps the loop running exactly when the channel that it serves does not fail. -/
theorem step_running_iff (hi : Inv s) (hs : Step s l t) : t.thrown = none ↔ Healthy s l := by
  rcases step_cases hi hs with ⟨ready, rfl, ht, _, _, rfl⟩ | ⟨net, k, rest, rfl, ht, hk, hr⟩
  · exact iff_of_true ht trivial
  · exact thrown_eq_none_iff hk ht hr

theorem thrown_eq_none_of_step (hi : Inv s) (hs : Step s l t) : s.thrown = none := by
  rcases step_cases hi hs with ⟨_, _, ht, _⟩ | ⟨_, _, _, _, ht, _⟩ <;> exact ht

theorem running_iff (h : Run Step .listening ls s) :
    s.thrown = none ↔ Run (fun s l t => Step s l t ∧ Healthy s l) .listening ls s := by
  constructor
  · intro ht
    induction h with
    | start => exact .start
    | next hr hs ih =>
      have hi := inv_run hr
      exact .next (ih (thrown_eq_none_of_step hi hs)) ⟨hs, (step_running_iff hi hs).mp ht⟩
  · intro hh
    cases hh with
    | start => rfl
    | next hr hs =>
      have hi := inv_run (hr.mono fun _ _ _ h => h.1)
      exact (step_running_iff hi hs.1).mpr hs.2

theorem goesOn_of_running (h : Run Step .listening ls s) (ht : s.thrown = none) : GoesOn s where
  running := ht
  registered c hc := by
    rw [(inv_run h).keys]
    exact mem_watched.mpr (.inr ⟨c, (routed_run h).accepted_mem_iff.mp hc, rfl⟩)
  talks he c hc net bs hin hb := by
    have hi := inv_run h
    have hc := (routed_run h).accepted_mem_iff.mp hc
    have hkey : (readable c).key ∈ s.keys := by
      rw [hi.keys]
      exact mem_watched.mpr (.inr ⟨c, hc, rfl⟩)
    refine ⟨_, run_of_round hi ht he hkey (readable_ready c) (.hears c hc bs hin hb), ht, ?_⟩
    intro d hd hdc
    have hw := writesOn_broadcastTo net s.channels.length c (decode (bs.take 1024)) d
    rw [← hi.keys, if_pos ⟨(routed_run h).accepted_mem_iff.mp hd, hdc⟩] at hw
    rw [writesTo_append, writesTo_append, writesTo, writesTo, writesTo, hw]
    simp [writesOn, writeOn?, List.filterMap_cons]

/-- The chat goes on after a run exactly when no channel failed while it was served. -/
theorem goes_on_iff (h : Run Step .listening ls s) :
    GoesOn s ↔ Run (fun s l t => Step s l t ∧ Healthy s l) .listening ls s := by
  rw [← running_iff h]
  exact ⟨GoesOn.running, goesOn_of_running h⟩

namespace Example

theorem goes_on_gathered : GoesOn gathered :=
  (goes_on_iff gathered_run).mpr ((running_iff gathered_run).mp rfl)

def connectionReset : Throwable :=
  ⟨.io, utf16 "java.io.IOException", some (utf16 "Connection reset by peer")⟩

/-- One of two clients resets its connection. -/
theorem reset_ends_chat : ∃ s,
    Run Step .listening
        (gathering ++ [.select [readable 0], .next (calm (.error connectionReset))]) s ∧
      s.thrown = some connectionReset ∧ ¬ GoesOn s := by
  have hreset := run_of_round (inv_run gathered_run) rfl rfl (by decide) (readable_ready 0)
    (.readThrows 0 (by decide) connectionReset
      (show (calm (.error connectionReset)).incoming 0 = _ from rfl))
  refine ⟨_, gathered_run.append hreset, rfl, ?_⟩
  intro hg
  cases hg.running

end Example

/-- The channel is closed and the selector watches it no more. -/
def Gone (s : ServerState) (c : Nat) : Prop :=
  (∀ channel ∈ s.channels, channel.id = c → channel.isOpen = false) ∧
    ∀ key ∈ s.keys, key.channel ≠ .socket c

/-- Every channel that a `read` has seen the end of is gone. -/
def DepartedLeft (s : ServerState) : Prop := ∀ c, .read c none ∈ s.log → Gone s c

/-- The channel that the step reads has not come to its end. -/
def Stays (s : ServerState) : Label → Prop
  | .select _ => True
  | .next net => ∀ k rest, s.selectedKeys = k :: rest →
      k.ready.read = true → net.incoming 0 ≠ .ok none

/-- No `read` has seen the end of its channel. -/
def NoEnd (s : ServerState) : Prop := ∀ c, .read c none ∉ s.log

theorem noEnd_of_round {rest : List SelectedKey} (hs : s.selectedKeys = k :: rest)
    (hr : Round net { s with selectedKeys := rest } k t) :
    NoEnd t ↔ NoEnd s ∧ Stays s (.next net) := by
  rw [Stays, forall_served_iff hs]
  cases hr with
  | silent c hc r hi hr =>
    rcases hr with rfl | rfl
    · simp only [NoEnd, readable, OP_READ, hi]
      refine iff_of_false (fun h => h c (by simp)) (by simp)
    · simp [NoEnd, readable, OP_READ, hi]
  | hears c hc bs hi hb =>
    have hw : ∀ c' text, .read c' none ∉ broadcastTo net s.keys c text := by
      intro c' text h
      obtain ⟨d, _, he⟩ := mem_broadcastTo h
      cases he
    simp [NoEnd, readable, OP_READ, hi, hw]
  | readThrows c hc e hi => simp [NoEnd, readable, OP_READ, hi]
  | _ => simp [NoEnd, acceptable, OP_ACCEPT]

theorem noEnd_step (hi : Inv s) (hs : Step s l t) : NoEnd t ↔ NoEnd s ∧ Stays s l := by
  rcases step_cases hi hs with ⟨ready, rfl, _, _, _, rfl⟩ | ⟨net, k, rest, rfl, _, hk, hr⟩
  · exact (and_iff_left trivial).symm
  · exact noEnd_of_round hk hr

theorem noEnd_iff (h : Run Step .listening ls s) :
    NoEnd s ↔ Run (fun s l t => Step s l t ∧ Stays s l) .listening ls s := by
  constructor
  · intro hn
    induction h with
    | start => exact .start
    | next hr hs ih =>
      obtain ⟨hn, hst⟩ := (noEnd_step (inv_run hr) hs).mp hn
      exact .next (ih hn) ⟨hs, hst⟩
  · intro hr
    induction hr with
    | start => exact nofun
    | next hr hs ih =>
      have hrun : Run Step .listening _ _ := hr.mono fun _ _ _ h => h.1
      exact (noEnd_step (inv_run hrun) hs.1).mpr ⟨ih hrun, hs.2⟩

theorem read_lt_of_round {rest : List SelectedKey}
    (hs : ∀ c r, .read c r ∈ s.log → c < s.channels.length)
    (hr : Round net { s with selectedKeys := rest } k t) :
    ∀ c r, .read c r ∈ t.log → c < t.channels.length := by
  have hw : ∀ c' r c text, .read c' r ∉ broadcastTo net s.keys c text := by
    intro c' r c text h
    obtain ⟨d, _, he⟩ := mem_broadcastTo h
    cases he
  cases hr with
  | accepts ha =>
    intro c r hm
    have hlt := hs c r (by simpa using hm)
    simp only [List.length_append]
    omega
  | silent d hd r' hi hr =>
    intro c r hm
    rcases List.mem_append.mp hm with hm | hm
    · exact hs c r hm
    · simp only [List.mem_cons, Event.read.injEq, reduceCtorEq, List.not_mem_nil, or_false] at hm
      exact hm.1 ▸ hd
  | hears d hd bs hi hb =>
    intro c r hm
    rcases List.mem_append.mp hm with hm | hm
    · exact hs c r hm
    · simp only [List.mem_append, List.mem_cons, Event.read.injEq, reduceCtorEq, List.not_mem_nil,
        hw, or_false] at hm
      rcases hm with hm | hm <;> exact hm.1 ▸ hd
  | _ => exact hs

theorem read_lt (h : Run Step .listening ls s) :
    ∀ c r, .read c r ∈ s.log → c < s.channels.length :=
  run_rule (Q := fun s => ∀ c r, Event.read c r ∈ s.log → c < s.channels.length) nofun
    (fun _ _ h => h) (fun _ _ _ _ _ _ h hr => read_lt_of_round h hr) h

/-- A client that has left is still open and still watched, so that it is selected again at once
and every broadcast is written to it. -/
theorem departed_stays (h : Run Step .listening ls s) (hc : .read c none ∈ s.log) :
    ⟨c, true⟩ ∈ s.channels ∧ ⟨.socket c, OP_READ⟩ ∈ s.keys := by
  have hlt := read_lt h c none hc
  refine ⟨(inv_run h).channels c hlt, ?_⟩
  rw [(inv_run h).keys]
  exact mem_watched.mpr (.inr ⟨c, hlt, rfl⟩)

/-- The departed have left the chat exactly when there are none. -/
theorem departed_left_iff (h : Run Step .listening ls s) :
    DepartedLeft s ↔ Run (fun s l t => Step s l t ∧ Stays s l) .listening ls s := by
  rw [← noEnd_iff h]
  constructor
  · intro hd c hc
    have hkey := (departed_stays h hc).2
    exact (hd c hc).2 _ hkey rfl
  · intro hn c hc
    exact absurd hc (hn c)

namespace Example

theorem departed_left_gathered : DepartedLeft gathered :=
  (departed_left_iff gathered_run).mpr ((noEnd_iff gathered_run).mp (by intro c; simp [gathered]))

/-- One of two clients closes its connection. -/
theorem departed_client_watched : ∃ s,
    Run Step .listening (gathering ++ [.select [readable 0], .next (calm (.ok none))]) s ∧
      .read 0 none ∈ s.log ∧ ¬ DepartedLeft s := by
  have hleave := run_of_round (inv_run gathered_run) rfl rfl (by decide) (readable_ready 0)
    (.silent 0 (by decide) none (show (calm (.ok none)).incoming 0 = _ from rfl) (.inl rfl))
  have h := gathered_run.append hleave
  refine ⟨_, h, by simp, ?_⟩
  intro hd
  have hgone := hd 0 (by simp)
  exact hgone.2 _ (departed_stays h (by simp)).2 rfl

end Example

end SpringDemo.Nio

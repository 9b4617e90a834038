import SpringDemo.Netty.Loops

/-! One loop for all channels, against the server that serves one event after the other. -/
namespace SpringDemo.Netty

open Java Lib.Room Lib.Runs Lib.Utf8

namespace Loops

variable {loop : Nat → Nat} {s t : Loops} {l : Label} {ls : List Label} {ℓ d : Nat} {task : Task}

/-- The loop has given a text frame to a part of the group. -/
structure Midway (loop : Nat → Nat) (u : ServerState) (c : Nat) (env : Env) (content : Bytes)
    (it : Iteration) (s : Loops) : Prop where
  stage : (u.connections c).stage = .webSocket
  running : ∀ ℓ, s.running ℓ = if ℓ = loop c then some it else none
  broadcast : it.broadcast = ⟨c, answer env c (decode content), u.group, u.log.length⟩
  nodup : it.written.Nodup
  members : ∀ d ∈ it.written, d ∈ u.group
  server : s.server = u.tell (.broadcast c (decode content) (answer env c (decode content)) ::
    it.written.map (.wrote · (answer env c (decode content))))

/-- With one loop, the server is where a run of whole events has led it, or on its way through a
text frame. -/
def Whole (loop : Nat → Nat) (s : Loops) : Prop :=
  (∀ ℓ, s.tasks ℓ = []) ∧ ∃ ls u, Run Netty.Step .bound ls u ∧
    ((∀ ℓ, s.running ℓ = none) ∧ s.server = u ∨
      ∃ c env content it, Midway loop u c env content it s)

namespace Midway

variable {u : ServerState} {c : Nat} {env : Env} {content : Bytes} {it it' : Iteration}

theorem log_eq (h : Midway loop u c env content it s) : ∃ es, s.server.log = u.log ++ es ∧
    ∀ d, .active d ∉ es ∧ .inactive d ∉ es := by
  rw [h.server]
  exact ⟨_, rfl, by simp⟩

theorem iteration_eq (h : Midway loop u c env content it s) (hr : s.running ℓ = some it') :
    ℓ = loop c ∧ it' = it := by
  rw [h.running] at hr
  by_cases hℓ : ℓ = loop c
  · rw [if_pos hℓ] at hr
    exact ⟨hℓ, (Option.some.inj hr).symm⟩
  · rw [if_neg hℓ] at hr
    cases hr

theorem visits_iff (h : Midway loop u c env content it s) :
    it.broadcast.Visits s.server.log d ↔ d ∈ u.group := by
  obtain ⟨es, hlog, he⟩ := h.log_eq
  rw [Broadcast.Visits, h.broadcast, hlog]
  simp [(he d).1]

theorem stayed_iff (h : Midway loop u c env content it s) (hl : Lively s) (hu : Inv u) :
    it.broadcast.Stayed s.server.log d ↔ d ∈ u.group := by
  have hc : s.server.connections = u.connections := by rw [h.server]; rfl
  rw [Broadcast.Stayed, h.broadcast, hl.inactive, hc]
  refine and_iff_left_of_imp fun hd hst => ?_
  have hlive := (hu.group d).mp hd
  rw [hst] at hlive
  cases hlive

/-- When it is over, it was a whole event. -/
theorem step_of_finish (h : Midway loop u c env content it s) (hl : Lively s) (hu : Inv u)
    (hd : ∀ d, it.broadcast.Stayed s.server.log d → d ∈ it.written) :
    ∃ l, Netty.Step u l s.server := by
  have hperm : it.written.Perm u.group := by
    rw [List.perm_ext_iff_of_nodup h.nodup hu.nodup]
    exact fun d => ⟨h.members d, fun hg => hd d ((h.stayed_iff hl hu).mpr hg)⟩
  have hround := Round.frame c (env.ordered hperm) (.text true content) h.stage
  have hserver : s.server =
      u.tell (answers (env.ordered hperm) u.group c (.text true content)) := by
    rw [h.server]
    simp [answers, answer, Env.ordered]
  rw [hserver]
  exact ⟨_, step_of_round hu hround⟩

end Midway

theorem whole_step (hone : ∀ c d, loop c = loop d) (hl : Lively s) (hi : Whole loop s)
    (h : Step loop s l t) : Whole loop t := by
  obtain ⟨htasks, ls, u, hrun, hu⟩ := hi
  cases h with
  | handle l v htext hr h =>
    rcases hu with ⟨hidle, rfl⟩ | ⟨c, env, content, it, hmid⟩
    · exact ⟨htasks, _, v, hrun.next h, .inl ⟨hidle, rfl⟩⟩
    · rw [hone _ c, hmid.running, if_pos rfl] at hr
      cases hr
  | text c env fin content hr hs =>
    rcases hu with ⟨hidle, rfl⟩ | ⟨c', env', content', it, hmid⟩
    · refine ⟨htasks, ls, s.server, hrun, .inr ⟨c, env, content, ⟨s.sent.length,
        ⟨c, answer env c (decode content), s.server.group, s.server.log.length⟩, []⟩,
        hs, fun ℓ => ?_, rfl, .nil, nofun, rfl⟩⟩
      by_cases hℓ : ℓ = loop c
      · simp [hℓ]
      · simp [hℓ, hidle]
    · rw [hone c c', hmid.running, if_pos rfl] at hr
      cases hr
  | next ℓ d it hr hv hd =>
    rcases hu with ⟨hidle, -⟩ | ⟨c, env, content, it', hmid⟩
    · rw [hidle] at hr
      cases hr
    · obtain ⟨rfl, rfl⟩ := hmid.iteration_eq hr
      have hg := hmid.visits_iff.mp hv
      have hlive : (s.server.connections d).stage.live = true := by
        rw [hmid.server]
        exact ((inv_run hrun).group d).mp hg
      have hsub : ∀ s' : Loops, submit loop s' (loop c) ⟨d, it.number, it.broadcast.tws⟩ =
          s'.deliver ⟨d, it.number, it.broadcast.tws⟩ := fun s' => if_pos (hone d c)
      refine ⟨?_, ls, u, hrun, .inr ⟨c, env, content, { it with written := it.written ++ [d] },
        hmid.stage, fun ℓ => ?_, hmid.broadcast, ?_, ?_, ?_⟩⟩
      · intro ℓ
        rw [hsub, tasks_deliver]
        exact htasks ℓ
      · rw [hsub, running_deliver]
        by_cases hℓ : ℓ = loop c
        · simp [hℓ]
        · simp [hℓ, hmid.running]
      · have hne : ∀ d' ∈ it.written, d' ≠ d := fun d' hd' he => hd (by rwa [← he])
        simpa [List.nodup_append] using ⟨hmid.nodup, hne⟩
      · intro d' hd'
        rcases List.mem_append.mp hd' with hd' | hd'
        · exact hmid.members d' hd'
        · rwa [List.mem_singleton.mp hd']
      · rw [hsub, deliver, if_pos hlive, hmid.broadcast]
        simp [hmid.server]
  | finish ℓ it hr hd =>
    rcases hu with ⟨hidle, -⟩ | ⟨c, env, content, it', hmid⟩
    · rw [hidle] at hr
      cases hr
    · obtain ⟨rfl, rfl⟩ := hmid.iteration_eq hr
      obtain ⟨l, hs⟩ := hmid.step_of_finish hl (inv_run hrun) hd
      refine ⟨htasks, _, s.server, hrun.next hs, .inl ⟨fun ℓ => ?_, rfl⟩⟩
      by_cases hℓ : ℓ = loop c
      · simp [hℓ]
      · simp [hℓ, hmid.running]
  | task ℓ task rest hr ht =>
    rw [htasks] at ht
    cases ht

theorem whole_run (hone : ∀ c d, loop c = loop d) (h : Run (Step loop) started ls s) :
    Whole loop s := by
  refine (h.invariant (P := fun s => Kept loop s ∧ Whole loop s) ?_ ⟨kept_started, ?_⟩).2
  · rintro s l t hs ⟨hk, hw⟩
    exact ⟨kept_step hk hs, whole_step hone hk.lively hw hs⟩
  · exact ⟨fun _ => rfl, _, _, .start, .inl ⟨fun _ => rfl, rfl⟩⟩

/-- One loop for all channels serves whole events: between two of them the server stands where they
lead it one after the other, and every channel has been written what its member of the room
hears. -/
theorem one_loop_refines (hone : ∀ c d, loop c = loop d) (h : Run (Step loop) started ls s)
    (hr : ∀ ℓ, s.running ℓ = none) : (∃ ls', Run Netty.Step .bound ls' s.server) ∧
      ∀ d, s.pending loop d = [] ∧
        writesTo d s.server.log = heard everybody d false (acts s.server.log) := by
  obtain ⟨htasks, ls', u, hrun, ⟨-, rfl⟩ | ⟨c, env, content, it, hmid⟩⟩ := whole_run hone h
  · refine ⟨⟨ls', hrun⟩, fun d => ⟨?_, (grouped_run hrun).heard d⟩⟩
    rw [pending, htasks]
    rfl
  · have hbusy := hmid.running (loop c)
    rw [hr, if_pos rfl] at hbusy
    cases hbusy

namespace Example

open Netty.Example

/-- With one loop for both, the first one speaks. -/
theorem one_loop_two : ∃ s, (∃ ls, Run (Step fun _ => 0) started ls s) ∧ s.received 1 = [0] ∧
    ∃ ls', Run Netty.Step .bound ls' s.server := by
  obtain ⟨s₀, h₀⟩ := view_gathered fun _ => 0
  obtain ⟨s₁, ⟨n, b, w⟩, rfl, hb, rfl, h₁⟩ := h₀.text (c := 0) rfl (by simp) "a".toList
  obtain ⟨s₂, h₂⟩ := h₁.next (ℓ := 0) (d := 0) rfl (by simp) hb (by simp)
  obtain ⟨s₃, h₃⟩ := h₂.next (ℓ := 0) (d := 1) rfl (by simp) hb (by simp)
  obtain ⟨s, h⟩ := h₃.finish (ℓ := 0) rfl hb (by simp)
  obtain ⟨ls, hrun⟩ := h.run
  refine ⟨s, ⟨ls, hrun⟩, by rw [h.received]; rfl, (one_loop_refines (fun _ _ => rfl) hrun ?_).1⟩
  rw [h.running]
  intro ℓ
  by_cases hℓ : ℓ = 0 <;> simp [hℓ]

end Example

end Loops

end SpringDemo.Netty

import SpringDemo.Nio.Text

/-! How much of what waits one readable event handles. -/
namespace SpringDemo.Nio

open Java Lib.Runs Lib.Utf8

variable {net : Net} {s : ServerState} {ls : List Label} {c : Nat} {bs : Bytes}
  {incoming : Nat → Incoming}

/-- The bytes that reads have returned, one after the other. -/
def bytesOf (reads : List (Option Bytes)) : Bytes := (reads.filterMap id).flatten

/-- The bytes wait when the loop begins, and none arrive while it runs: each read finds what those
before it have left. -/
def Quiet (bs : Bytes) (incoming : Nat → Incoming) : Prop :=
  ∀ k, incoming k = .ok (some (bs.drop (bytesOf ((readAll incoming).1.reads.take k)).length))

theorem Quiet.first (h : Quiet bs incoming) : incoming 0 = .ok (some bs) := h 0

/-- The channel has given all that waited, and the whole text has been broadcast, once. -/
def BroadcastsAll (net : Net) (bs : Bytes) (c : Nat) (s : ServerState) : Prop :=
  ∃ t, readHandler net (readable c).key s = .ok () t ∧
    (readsOf c t.log).flatten = (readsOf c s.log).flatten ++ bs ∧
    ∀ d, boardCastsOf d t.log =
      boardCastsOf d s.log ++ if d = c ∧ bs ≠ [] then [decode bs] else []

/-- The channel has given all that waited, and the whole text has been printed in one piece. -/
def PrintsAll (incoming : Nat → Incoming) (bs : Bytes) (s : ClientState) : Prop :=
  ∃ t, ClientState.readHander incoming ⟨.socket 0, OP_READ⟩ s = .ok () t ∧
    (ClientState.reads t.log).flatten = (ClientState.reads s.log).flatten ++ bs ∧
    ClientState.printed t.log = ClientState.printed s.log ++ if bs ≠ [] then [decode bs] else []

theorem broadcastsAll_iff (hk : s.keys = watched s.channels.length) (hc : c < s.channels.length)
    (hi : net.incoming 0 = .ok (some bs)) : BroadcastsAll net bs c s ↔ bs.length ≤ 1024 := by
  by_cases hb : bs = []
  · subst hb
    refine ⟨fun _ => Nat.zero_le _, fun _ => ⟨_, readHandler_silent hk hc hi (.inr rfl), ?_, ?_⟩⟩
    · simp [readsOf, readOf?]
    · intro d
      simp [boardCastsOf, boardCastOf?]
  · have hrun := readHandler_hears hk hc hi hb
    rw [BroadcastsAll, ← List.take_eq_self_iff]
    constructor
    · rintro ⟨t, ht, hreads, -⟩
      obtain rfl := (EStateM.Result.ok.inj (hrun.symm.trans ht)).2
      rw [readsOf_append, readsOf_hears, if_pos rfl, List.flatten_append] at hreads
      simpa using List.append_cancel_left hreads
    · intro htake
      rw [htake] at hrun
      refine ⟨_, hrun, ?_, fun d => ?_⟩
      · rw [readsOf_append, readsOf_hears, if_pos rfl]
        simp
      · rw [boardCastsOf_append, boardCastsOf_hears]
        by_cases hd : d = c
        · simp [hd, hb]
        · simp [hd, Ne.symm hd]

theorem printsAll_iff {s : ClientState} (hk : s.keys = ClientState.connected.keys)
    (hi : incoming 0 = .ok (some bs)) : PrintsAll incoming bs s ↔ bs.length ≤ 1024 := by
  by_cases hb : bs = []
  · subst hb
    refine ⟨fun _ => Nat.zero_le _,
      fun _ => ⟨_, ClientState.readHander_silent hk hi (.inr rfl), ?_, ?_⟩⟩
    · simp [ClientState.reads, ClientState.read?]
    · simp [ClientState.printed, ClientState.println?]
  · have hrun := ClientState.readHander_hears hk hi hb
    rw [PrintsAll, ← List.take_eq_self_iff]
    constructor
    · rintro ⟨t, ht, hreads, -⟩
      obtain rfl := (EStateM.Result.ok.inj (hrun.symm.trans ht)).2
      rw [ClientState.reads_append, List.flatten_append] at hreads
      simpa [ClientState.reads, ClientState.read?, List.filterMap_cons] using
        List.append_cancel_left hreads
    · intro htake
      rw [htake] at hrun
      refine ⟨_, hrun, ?_, ?_⟩
      · rw [ClientState.reads_append]
        simp [ClientState.reads, ClientState.read?, List.filterMap_cons]
      · rw [ClientState.printed_append]
        simp [ClientState.printed, ClientState.println?, List.filterMap_cons, hb]

/-- One event handles everything that waits, on the server and on the client, exactly when no more
than a buffer's worth of bytes waits. -/
theorem one_event_iff (h : Run Step .listening ls s) (hc : c < s.channels.length)
    (hq : Quiet bs net.incoming) {ls' : List (Nat → Incoming)} {s' : ClientState}
    (h' : Run ClientState.Step .connected ls' s') (hq' : Quiet bs incoming) :
    (BroadcastsAll net bs c s ↔ bs.length ≤ 1024) ∧
      (PrintsAll incoming bs s' ↔ bs.length ≤ 1024) := by
  have hkeys : s'.keys = ClientState.connected.keys :=
    h'.invariant (P := fun s => s.keys = ClientState.connected.keys)
      (fun _ _ _ hs hk => ClientState.keys_step hk hs) rfl
  exact ⟨broadcastsAll_iff (inv_run h).keys hc hq.first, printsAll_iff hkeys hq'.first⟩

namespace Example

/-- Nothing more arrives; what the first read has no room for is there for the next one. -/
def standing (bs : Bytes) (k : Nat) : Incoming :=
  .ok (some (bs.drop (if k = 0 then 0 else 1024)))

theorem standing_quiet (bs : Bytes) : Quiet bs (standing bs) := by
  intro k
  have h0 : standing bs 0 = .ok (some bs) := rfl
  rcases bs with _ | ⟨b, bs⟩
  · simp [standing]
  · have hall := readAll_eq (standing (b :: bs))
    rw [h0] at hall
    rw [hall]
    rcases k with _ | k
    · rfl
    have hrest : bytesOf ([some []].take k) = [] := by
      cases k <;> simp [bytesOf]
    have htaken : bytesOf ([some ((b :: bs).take 1024), some []].take (k + 1)) =
        (b :: bs).take 1024 := by
      simpa [bytesOf] using hrest
    have hdrop : (b :: bs).drop ((b :: bs).take 1024).length = (b :: bs).drop 1024 := by
      rw [List.length_take, List.drop_eq_drop_iff]
      omega
    simp only [htaken, hdrop, standing, if_neg (Nat.succ_ne_zero k)]

def standingNet (bs : Bytes) : Net := { calm (.ok none) with
  incoming := standing bs
  room_io := nofun }

theorem one_event_hello : BroadcastsAll (standingNet hello) hello 0 gathered ∧
    PrintsAll (standing hello) hello .connected := by
  have hq : Quiet hello (standingNet hello).incoming := standing_quiet hello
  have h := one_event_iff gathered_run (show 0 < gathered.channels.length by decide) hq .start
    (standing_quiet hello)
  exact ⟨h.1.mpr (by decide), h.2.mpr (by decide)⟩

/-- One byte too many. -/
theorem one_event_cut : ∃ bs : Bytes, bs.length = 1025 ∧ Quiet bs (standing bs) ∧
    Run Step .listening gathering gathered ∧ ¬ BroadcastsAll (standingNet bs) bs 0 gathered ∧
      ¬ PrintsAll (standing bs) bs .connected := by
  refine ⟨List.replicate 1025 97, List.length_replicate, standing_quiet _, gathered_run,
    fun h => ?_, fun h => ?_⟩
  · have := (broadcastsAll_iff rfl (by decide) rfl).mp h
    rw [List.length_replicate] at this
    omega
  · have := (printsAll_iff rfl rfl).mp h
    rw [List.length_replicate] at this
    omega

end Example

end SpringDemo.Nio

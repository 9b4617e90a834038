import SpringDemo.Java.Nio
import SpringDemo.Library.Runs

/-! The reading loop, one evaluation of its condition at a time, against a stream that keeps
arriving. -/
namespace SpringDemo.Nio

open Java Lib.Runs Lib.Utf8

/-- The receiving end of a connection. -/
structure Socket where
  /-- what has arrived and has not been read -/
  waiting : Bytes
  closed : Bool
  broken : Option Throwable

/-- What a read finds now. -/
def Socket.incoming (s : Socket) : Incoming :=
  match s.broken with
  | some e => .error e
  | none => if s.waiting = [] ∧ s.closed = true then .ok none else .ok (some s.waiting)

/-- A channel over all calls that read it. -/
structure Reception where
  socket : Socket
  /-- the buffer of the call that is running -/
  byteBuffer : Option ByteBuffer
  /-- how many bytes `read` has returned -/
  returned : Nat
  /-- the ranges that have been handed to `decode` -/
  decoded : List Bytes

namespace Reception

def opened : Reception := ⟨⟨[], false, none⟩, none, 0, []⟩

/-- The loop is over, with or without an exception. -/
def leave (s : Reception) : Reception := { s with byteBuffer := none }

/-- `channel.read(byteBuffer) > 0`, and when it holds `flip` and `decode`. -/
def turn (s : Reception) (b : ByteBuffer) : Reception :=
  match Java.SocketChannel.read s.socket.incoming b with
  | .error _ => s.leave
  | .ok (n, b') =>
    if 0 < n then
      { socket := { s.socket with waiting := s.socket.waiting.drop n.toNat }
        byteBuffer := some b'.flip.drained
        returned := s.returned + n.toNat
        decoded := s.decoded ++ [b'.flip.content] }
    else s.leave

end Reception

/-- What the peer does, and what the loop does. -/
inductive ReadLabel where
  | arrive (bs : Bytes)
  | close
  | fail (e : Throwable)
  | enter
  | turn
deriving DecidableEq

/-- Bytes can arrive between any two evaluations. -/
inductive Reception.Step : Reception → ReadLabel → Reception → Prop
  | arrive (s : Reception) (bs : Bytes) (hc : s.socket.closed = false) :
      Step s (.arrive bs) { s with socket := { s.socket with waiting := s.socket.waiting ++ bs } }
  | close (s : Reception) : Step s .close { s with socket := { s.socket with closed := true } }
  | fail (s : Reception) (e : Throwable) :
      Step s (.fail e) { s with socket := { s.socket with broken := some e } }
  | enter (s : Reception) (hb : s.byteBuffer = none) :
      Step s .enter { s with byteBuffer := some (.allocate 1024) }
  | turn (s : Reception) (b : ByteBuffer) (hb : s.byteBuffer = some b) :
      Step s .turn (s.turn b)

variable {s t : Reception} {l : ReadLabel} {ls ls' : List ReadLabel} {b : ByteBuffer}

/-- The stream, as far as it has arrived. -/
def arrived (ls : List ReadLabel) : Bytes :=
  ls.flatMap fun
    | .arrive bs => bs
    | _ => []

/-- The buffer is empty, or there is no room in it. -/
def FreshOrFull (b : ByteBuffer) : Prop := b.position = 0 ∨ b.remaining = 0

theorem waiting_of_incoming {w : Socket} {bs : Bytes} (h : w.incoming = .ok (some bs)) :
    bs = w.waiting := by
  unfold Socket.incoming at h
  split at h
  · cases h
  · split at h <;> cases h
    rfl

theorem turn_of_full (hr : b.remaining = 0) : s.turn b = s.leave := by
  have hread : Java.SocketChannel.read s.socket.incoming b = .ok (0, b) := by
    simp [Java.SocketChannel.read, hr]
  rw [Reception.turn, hread]
  rfl

/-- What one evaluation can come to: the loop ends, or it takes from the stream what there is room
for and leaves no room. -/
theorem turn_cases (hb : FreshOrFull b) : s.turn b = s.leave ∨
    0 < b.remaining ∧ ∃ b', b'.remaining = 0 ∧ s.turn b =
      { socket := { s.socket with waiting := s.socket.waiting.drop b.remaining }
        byteBuffer := some b'
        returned := s.returned + (s.socket.waiting.take b.remaining).length
        decoded := s.decoded ++ [s.socket.waiting.take b.remaining] } := by
  by_cases hr : b.remaining = 0
  · exact .inl (turn_of_full hr)
  -- the buffer has room, so nothing stands before its position: what is flipped is what was read
  have hcontent := ByteBuffer.content_flip_put b s.socket.waiting
  rw [hb.resolve_right hr, List.take_zero, List.nil_append] at hcontent
  have hdrop : s.socket.waiting.drop (s.socket.waiting.take b.remaining).length =
      s.socket.waiting.drop b.remaining := by
    rw [List.length_take, List.drop_eq_drop_iff]
    omega
  unfold Reception.turn Java.SocketChannel.read
  rw [if_neg hr]
  cases hi : s.socket.incoming with
  | error e => exact .inl rfl
  | ok r =>
    rcases r with _ | bs
    · exact .inl rfl
    obtain rfl := waiting_of_incoming hi
    by_cases hn : (0 : Int) < (s.socket.waiting.take b.remaining).length
    · refine .inr ⟨Nat.pos_of_ne_zero hr, (b.put s.socket.waiting).flip.drained,
        ByteBuffer.remaining_drained _, ?_⟩
      simp only [if_pos hn, Int.toNat_natCast, hdrop, hcontent]
    · exact .inl (if_neg hn)

/-- The stream is what has been decoded and what still waits. -/
structure Conserved (ls : List ReadLabel) (s : Reception) : Prop where
  stream : arrived ls = s.decoded.flatten ++ s.socket.waiting
  returned : s.returned = s.decoded.flatten.length
  buffer : ∀ b, s.byteBuffer = some b → FreshOrFull b

theorem arrived_concat (ls : List ReadLabel) (l : ReadLabel) :
    arrived (ls ++ [l]) = arrived ls ++ arrived [l] := List.flatMap_append

/-- Everything but an arrival leaves the stream as it is. -/
theorem arrived_quiet (hl : arrived [l] = []) : arrived (ls ++ [l]) = arrived ls := by
  rw [arrived_concat, hl, List.append_nil]

theorem conserved_step (h : Conserved ls s) (hs : Reception.Step s l t) :
    Conserved (ls ++ [l]) t := by
  obtain ⟨hstream, hreturned, hbuffer⟩ := h
  cases hs with
  | arrive bs hc =>
    refine ⟨?_, hreturned, hbuffer⟩
    rw [arrived_concat, hstream, List.append_assoc]
    simp [arrived]
  | close => exact ⟨(arrived_quiet rfl).trans hstream, hreturned, hbuffer⟩
  | fail e => exact ⟨(arrived_quiet rfl).trans hstream, hreturned, hbuffer⟩
  | enter hb =>
    refine ⟨(arrived_quiet rfl).trans hstream, hreturned, fun b hb => ?_⟩
    obtain rfl := Option.some.inj hb
    exact .inl rfl
  | turn b hb =>
    have hls : arrived (ls ++ [.turn]) = s.decoded.flatten ++ s.socket.waiting :=
      (arrived_quiet rfl).trans hstream
    rcases turn_cases (s := s) (hbuffer b hb) with ht | ⟨-, b', hb', ht⟩
    · rw [ht]
      refine ⟨hls, hreturned, fun c hc => ?_⟩
      simp [Reception.leave] at hc
    · rw [ht]
      refine ⟨?_, ?_, fun c hc => ?_⟩
      · rw [hls, List.flatten_append, List.append_assoc]
        simp
      · rw [hreturned, List.flatten_append, List.length_append]
        simp
      · obtain rfl := Option.some.inj hc
        exact .inr hb'

theorem conserved_opened : Conserved [] .opened where
  stream := rfl
  returned := rfl
  buffer b hb := by simp [Reception.opened] at hb

theorem conserved_run (h : Run Reception.Step .opened ls s) : Conserved ls s :=
  h.history (R := Conserved) (fun _ _ _ _ hs hc => conserved_step hc hs) conserved_opened

/-- How often the condition can still be evaluated in the call that is running. -/
def Reception.left (s : Reception) : Nat :=
  s.byteBuffer.elim 0 fun b => if b.remaining = 0 then 1 else 2

theorem left_le_two (s : Reception) : s.left ≤ 2 := by
  unfold Reception.left
  cases s.byteBuffer with
  | none => simp
  | some b =>
    simp only [Option.elim_some]
    split <;> omega

/-- An evaluation brings the end nearer, whatever has arrived. -/
theorem left_turn (hb : s.byteBuffer = some b) (hf : FreshOrFull b) :
    (s.turn b).left < s.left := by
  have hs : s.left = if b.remaining = 0 then 1 else 2 := by simp [Reception.left, hb]
  rcases turn_cases (s := s) hf with ht | ⟨hr, b', hb', ht⟩
  · rw [ht, hs]
    simp only [Reception.left, Reception.leave, Option.elim_none]
    split <;> omega
  · rw [ht, hs, if_neg (Nat.ne_of_gt hr)]
    simp [Reception.left, hb']

theorem left_step (hf : ∀ b, s.byteBuffer = some b → FreshOrFull b) (hs : Reception.Step s l t)
    (hl : l ≠ .enter) : [l].count .turn + t.left ≤ s.left := by
  cases hs with
  | arrive bs hc => exact (Nat.zero_add _).le
  | close => exact (Nat.zero_add _).le
  | fail e => exact (Nat.zero_add _).le
  | enter hb => exact absurd rfl hl
  | turn b hb =>
    have := left_turn hb (hf b hb)
    simp only [List.count_singleton_self]
    omega

/-- From any state on a call evaluates its condition at most twice. -/
theorem left_run (h : Run Reception.Step .opened ls s) (h' : Run Reception.Step s ls' t)
    (hl : .enter ∉ ls') : ls'.count .turn + t.left ≤ s.left := by
  induction h' with
  | start => simp
  | @next ls' u t l hr hs ih =>
    rw [List.mem_append, not_or, List.mem_singleton] at hl
    have hfresh := (conserved_run (h.append hr)).buffer
    have hstep := left_step hfresh hs (Ne.symm hl.2)
    have hrest := ih hl.1
    rw [List.count_append]
    omega

/-- The loop ends and loses nothing: what has been handed to `decode` is the stream as far as it has
been read, what has not been read still waits, a call that is running can go on, and after at most
two evaluations of its condition it is over, whatever arrives meanwhile. -/
theorem reads_conserve (h : Run Reception.Step .opened ls s) :
    s.decoded.flatten = (arrived ls).take s.returned ∧
    s.socket.waiting = (arrived ls).drop s.returned ∧
    (∀ b, s.byteBuffer = some b → ∃ t, Reception.Step s .turn t) ∧
    ∀ ls' t, Run Reception.Step s ls' t → .enter ∉ ls' →
      ls'.count .turn ≤ 2 ∧ (ls'.count .turn = 2 → t.byteBuffer = none) := by
  have hc := conserved_run h
  refine ⟨?_, ?_, fun b hb => ⟨_, .turn s b hb⟩, fun ls' t h' hl => ?_⟩
  · rw [hc.stream, hc.returned, List.take_left]
  · rw [hc.stream, hc.returned, List.drop_left]
  · have hleft := left_run h h' hl
    have htwo := left_le_two s
    refine ⟨by omega, fun h2 => ?_⟩
    have hzero : t.left = 0 := by omega
    cases hb : t.byteBuffer with
    | none => rfl
    | some b =>
      simp only [Reception.left, hb, Option.elim_some] at hzero
      split at hzero <;> omega

/-- The ranges among the reads of a call, those that are decoded. -/
def handed (r : Reading) : List Bytes := (r.reads.filterMap id).filter fun bs => bs ≠ []

/-- Each range is decoded by itself. -/
theorem readAll_text (incoming : Nat → Incoming) :
    (readAll incoming).1.text = (handed (readAll incoming).1).flatMap decode := by
  rw [readAll_eq]
  split
  · rfl
  · rfl
  · rfl
  · rename_i bs hbs _
    have hne : bs ≠ [] := hbs
    simp [handed, hne]

/-- The first evaluation of a call hands over what `readAll` decodes for the stream as it is then;
a second one finds no room. -/
theorem turn_allocate (s : Reception) : (s.turn (.allocate 1024)).decoded =
    s.decoded ++ handed (readAll fun _ => s.socket.incoming).1 := by
  rw [readAll_eq]
  cases hi : s.socket.incoming with
  | error e => simp [Reception.turn, Java.SocketChannel.read, hi, Reception.leave, handed]
  | ok r =>
    rcases r with _ | _ | ⟨b, bs⟩
    · simp [Reception.turn, Java.SocketChannel.read, hi, Reception.leave, handed]
    · simp [Reception.turn, Java.SocketChannel.read, hi, Reception.leave, handed]
    · have hpos : (0 : Int) < ((b :: bs).take 1024).length := by simp
      have hcontent := ByteBuffer.content_flip_put_allocate 1024 (b :: bs)
      simp [Reception.turn, Java.SocketChannel.read, hi, handed, hcontent]

namespace Example

/-- Two bytes wait when a call begins, and a third arrives before it is over. -/
def late : List ReadLabel := [.arrive [72, 105], .enter, .turn, .arrive [33], .turn]

def begun : Reception :=
  { Reception.opened with
    socket := { Reception.opened.socket with waiting := [72, 105] }
    byteBuffer := some (.allocate 1024) }

theorem begun_run : Run Reception.Step .opened [.arrive [72, 105], .enter] begun :=
  (Run.single (.arrive .opened [72, 105] rfl)).next (.enter _ rfl)

theorem late_run : ∃ s, Run Reception.Step .opened late s ∧ s.decoded = [[72, 105]] ∧
    s.returned = 2 ∧ s.socket.waiting = [33] :=
  ⟨_, ((begun_run.next (.turn _ _ rfl)).next (.arrive _ [33] rfl)).next (.turn _ _ rfl),
    by decide +kernel, by decide +kernel, by decide +kernel⟩

/-- The third byte waits for the next call. -/
theorem reads_conserve_late : ∃ s, Run Reception.Step .opened late s ∧
    s.decoded.flatten = [72, 105, 33].take 2 ∧ s.socket.waiting = [72, 105, 33].drop 2 := by
  obtain ⟨s, hr, -, hreturned, -⟩ := late_run
  obtain ⟨hdecoded, hwaiting, -⟩ := reads_conserve hr
  rw [hreturned] at hdecoded hwaiting
  exact ⟨s, hr, hdecoded, hwaiting⟩

end Example

end SpringDemo.Nio

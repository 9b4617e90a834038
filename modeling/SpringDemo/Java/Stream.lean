import Mathlib.Data.List.TakeDrop
import Mathlib.Order.Monotone.Basic
import SpringDemo.Java.Lang

/-! Input streams whose bytes arrive over time, and the two lines with which both the server
and the client read a message body. -/
namespace SpringDemo.Java

/-- What the readers ask of a stream: its `available()`, and `IOUtils.readFully` on it, which
returns the buffer it was given as it leaves it. -/
structure InputStream (σ : Type) where
  available : σ → Except Throwable Nat × σ
  readFully : σ → (buffer : Bytes) → (offset length : Nat) → Except Throwable Bytes × σ

/-- `byte[] inBytes = new byte[s.available()]; readFully(s, inBytes, 0, s.available());` -/
def readBody {σ : Type} (io : InputStream σ) (s : σ) : Except Throwable Bytes :=
  match io.available s with
  | (.error e, _) => .error e
  | (.ok size, s) =>
    let inBytes := List.replicate size 0
    match io.available s with
    | (.error e, _) => .error e
    | (.ok length, s) => (io.readFully s inBytes 0 length).1

/-- A body and the schedule of its arrival: how many of its bytes have arrived when the stream
is called for the `k`-th time. -/
structure Arrival where
  body : Bytes
  arrived : Nat → Nat
  grows : Monotone arrived
  within : ∀ k, arrived k ≤ body.length

/-- A body on its way, with the number of bytes read and of calls made so far. -/
structure TimedStream extends Arrival where
  position : Nat
  clock : Nat

/-- The stream as the reader receives it. -/
def Arrival.start (a : Arrival) : TimedStream := ⟨a, 0, 0⟩

namespace TimedStream

/-- The bytes that have arrived and have not been read. -/
def available (s : TimedStream) : Except Throwable Nat × TimedStream :=
  (.ok (s.arrived s.clock - s.position), { s with clock := s.clock + 1 })

/-- `read` with room for `length` bytes: it waits for a byte when none is there, takes what has
arrived, and takes nothing only at the end of the body. -/
def read (s : TimedStream) (length : Nat) : Bytes × TimedStream :=
  let chunk := (s.body.drop s.position).take
    (min length (max 1 (s.arrived s.clock - s.position)))
  (chunk, { s with position := s.position + chunk.length, clock := s.clock + 1 })

/-- Reads of what is still missing, until nothing is missing or a read takes nothing. -/
def fill : Nat → TimedStream → Nat → Bytes × TimedStream
  | 0, s, _ => ([], s)
  | fuel + 1, s, remaining =>
    if remaining = 0 then ([], s)
    else
      let (chunk, s') := s.read remaining
      if chunk = [] then ([], s')
      else
        let (rest, s'') := fill fuel s' (remaining - chunk.length)
        (chunk ++ rest, s'')

/-- A `readFully` made of blocking reads into a bounds-checked buffer. -/
def fillBuffer (s : TimedStream) (buffer : Bytes) (offset length : Nat) :
    Except Throwable Bytes × TimedStream :=
  if buffer.length < offset + length then (.error .indexOutOfBoundsException, s)
  else
    let (bytes, s') := fill length s length
    if bytes.length < length then
      (.error ⟨.io, utf16 "java.io.EOFException", none⟩, s')
    else (.ok (buffer.take offset ++ bytes ++ buffer.drop (offset + length)), s')

/-- What is relied on of `IOUtils.readFully`: with room for them it reads the next `length`
bytes however late they arrive, and without room the read below it throws. -/
structure FullReader where
  readFully : TimedStream → Bytes → Nat → Nat → Except Throwable Bytes × TimedStream
  filled : ∀ s buffer offset length, offset + length ≤ buffer.length →
    s.position + length ≤ s.body.length →
    (readFully s buffer offset length).1 = .ok (buffer.take offset ++
      (s.body.drop s.position).take length ++ buffer.drop (offset + length))
  overrun : ∀ s buffer offset length, buffer.length < offset + length →
    s.position + length ≤ s.body.length →
    ∃ e, (readFully s buffer offset length).1 = .error e ∧ e.kind = .runtime

/-- The stream as the code sees it. -/
def FullReader.io (reader : FullReader) : InputStream TimedStream := ⟨available, reader.readFully⟩

@[simp] theorem read_body (s : TimedStream) (n : Nat) : (s.read n).2.body = s.body := rfl

theorem read_position (s : TimedStream) (n : Nat) :
    (s.read n).2.position = s.position + (s.read n).1.length := rfl

/-- A read takes a prefix of what is left. -/
theorem read_append_drop (s : TimedStream) (n : Nat) :
    (s.read n).1 ++ (s.body.drop s.position).drop (s.read n).1.length =
      s.body.drop s.position :=
  (List.prefix_iff_eq_append.mp (List.take_prefix _ _))

theorem read_length_le (s : TimedStream) (n : Nat) : (s.read n).1.length ≤ n := by
  simp only [read, List.length_take]
  omega

/-- A read with room takes something unless the body is at its end. -/
theorem read_eq_nil {s : TimedStream} {n : Nat} (hn : n ≠ 0) (h : (s.read n).1 = []) :
    s.body.drop s.position = [] := by
  have hl := congrArg List.length h
  simp only [read, List.length_take, List.length_nil] at hl
  apply List.eq_nil_of_length_eq_zero
  omega

/-- The loop takes the next bytes of the body in order, whatever the arrivals. -/
theorem fill_eq {fuel : Nat} {s : TimedStream} {n : Nat} (hn : n ≤ fuel) :
    (fill fuel s n).1 = (s.body.drop s.position).take n := by
  induction fuel generalizing s n with
  | zero =>
    have h0 : n = 0 := by omega
    simp [fill, h0]
  | succ fuel ih =>
    by_cases h0 : n = 0
    · simp [fill, h0]
    have hle := s.read_length_le n
    by_cases hc : (s.read n).1 = []
    · simp [fill, h0, hc, read_eq_nil h0 hc]
    have hpos := List.length_pos_iff.mpr hc
    have hrest := ih (s := (s.read n).2) (n := n - (s.read n).1.length) (by omega)
    rw [read_body, read_position, ← List.drop_drop] at hrest
    have hsplit : (s.body.drop s.position).take n = (s.read n).1 ++
        ((s.body.drop s.position).drop (s.read n).1.length).take (n - (s.read n).1.length) := by
      conv_lhs => rw [← s.read_append_drop n, List.take_append]
      rw [List.take_of_length_le hle]
    simp only [fill, h0, if_false, hc]
    rw [hsplit, ← hrest]

/-- Blocking reads in a loop are such a reader. -/
def blockingReader : FullReader where
  readFully := fillBuffer
  filled s buffer offset length hb hl := by
    have hfill := fill_eq (s := s) (le_refl length)
    have hlen : (fill length s length).1.length = length := by
      rw [hfill, List.length_take, List.length_drop]
      omega
    simp only [fillBuffer, Nat.not_lt.mpr hb, if_false, hlen, Nat.lt_irrefl]
    rw [hfill]
  overrun s buffer offset length hb _ :=
    ⟨.indexOutOfBoundsException, by simp [fillBuffer, hb], rfl⟩

end TimedStream

namespace Arrival

variable {reader : TimedStream.FullReader} {a : Arrival}

/-- Nothing arrives between the two calls of `available()`: the body read is what was there. -/
theorem readBody_of_same (he : a.arrived 1 = a.arrived 0) :
    readBody reader.io a.start = .ok (a.body.take (a.arrived 0)) := by
  have hfill := reader.filled { a.start with clock := 2 }
    (List.replicate (a.arrived 0) 0) 0 (a.arrived 0) (by simp)
    (by simpa [start] using a.within 0)
  simp only [readBody, TimedStream.FullReader.io, TimedStream.available, start, he,
    Nat.sub_zero, Nat.zero_add] at hfill ⊢
  rw [hfill]
  simp

/-- Something arrives between the two calls: the array is too small for the second count. -/
theorem readBody_of_grown (he : a.arrived 0 < a.arrived 1) :
    ∃ e, readBody reader.io a.start = .error e ∧ e.kind = .runtime := by
  obtain ⟨e, hover, hk⟩ := reader.overrun { a.start with clock := 2 }
    (List.replicate (a.arrived 0) 0) 0 (a.arrived 1) (by simpa using he)
    (by simpa [start] using a.within 1)
  refine ⟨e, ?_, hk⟩
  simpa [readBody, TimedStream.FullReader.io, TimedStream.available, start] using hover

/-- The reading step yields the whole body exactly when all of it has arrived at the first
`available()`. -/
theorem readBody_eq_body_iff (reader : TimedStream.FullReader) (a : Arrival) :
    readBody reader.io a.start = .ok a.body ↔ a.arrived 0 = a.body.length := by
  have hw := a.within 0
  have hw' := a.within 1
  rcases (a.grows (Nat.zero_le 1)).eq_or_lt with he | hlt
  · rw [readBody_of_same he.symm, Except.ok.injEq, List.take_eq_self_iff]
    omega
  · obtain ⟨e, he, _⟩ := @readBody_of_grown reader a hlt
    rw [he]
    simp only [reduceCtorEq, false_iff]
    omega

/-- The reading step throws runtime exceptions only. -/
theorem readBody_error {e : Throwable} (he : readBody reader.io a.start = .error e) :
    e.kind = .runtime := by
  rcases (a.grows (Nat.zero_le 1)).eq_or_lt with hs | hlt
  · simp [readBody_of_same hs.symm] at he
  · obtain ⟨e', he', hk⟩ := @readBody_of_grown reader a hlt
    rw [he', Except.error.injEq] at he
    exact he ▸ hk

/-- A body all of which is there from the start. -/
def whole (body : Bytes) : Arrival where
  body := body
  arrived := fun _ => body.length
  grows := monotone_const
  within := fun _ => le_rfl

theorem readBody_whole (reader : TimedStream.FullReader) (body : Bytes) :
    readBody reader.io (whole body).start = .ok body :=
  (readBody_eq_body_iff reader (whole body)).mpr rfl

end Arrival

end SpringDemo.Java

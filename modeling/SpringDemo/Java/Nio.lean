import SpringDemo.Java.Lang
import SpringDemo.Library.Utf8

/-! Buffers, channels and selection keys of `java.nio`, as far as the chat room uses them. -/
namespace SpringDemo.Java

open Lib.Utf8

/-- The well-formed strings, by their characters. A decoder makes no others. -/
abbrev Text := List Char

/-- A buffer's array with its two marks. -/
structure ByteBuffer where
  hb : Bytes
  position : Nat
  limit : Nat
  position_le : position ≤ limit
  limit_le : limit ≤ hb.length

namespace ByteBuffer

def allocate (capacity : Nat) : ByteBuffer where
  hb := List.replicate capacity 0
  position := 0
  limit := capacity
  position_le := Nat.zero_le _
  limit_le := by simp

def remaining (b : ByteBuffer) : Nat := b.limit - b.position

/-- The bytes between position and limit. -/
def content (b : ByteBuffer) : Bytes := (b.hb.take b.limit).drop b.position

/-- The bytes go in at the position, as many as there is room for. -/
def put (b : ByteBuffer) (bs : Bytes) : ByteBuffer where
  hb := b.hb.take b.position ++ bs.take b.remaining ++
    b.hb.drop (b.position + (bs.take b.remaining).length)
  position := b.position + (bs.take b.remaining).length
  limit := b.limit
  position_le := by
    have hp := b.position_le
    simp only [remaining, List.length_take]
    omega
  limit_le := by
    have hp := b.position_le
    have hl := b.limit_le
    simp only [List.length_append, List.length_take, List.length_drop, remaining]
    omega

def flip (b : ByteBuffer) : ByteBuffer where
  hb := b.hb
  position := 0
  limit := b.position
  position_le := Nat.zero_le _
  limit_le := le_trans b.position_le b.limit_le

/-- What reading a buffer to its end leaves. -/
def drained (b : ByteBuffer) : ByteBuffer where
  hb := b.hb
  position := b.limit
  limit := b.limit
  position_le := le_rfl
  limit_le := b.limit_le

@[simp] theorem remaining_drained (b : ByteBuffer) : b.drained.remaining = 0 := by
  simp [remaining, drained]

@[simp] theorem remaining_allocate (n : Nat) : (allocate n).remaining = n := rfl

/-- A flipped buffer holds what stood before its position, and what was put there. -/
theorem content_flip_put (b : ByteBuffer) (bs : Bytes) :
    (b.put bs).flip.content = b.hb.take b.position ++ bs.take b.remaining := by
  have hp : b.position ≤ b.hb.length := b.position_le.trans b.limit_le
  have hl : (b.hb.take b.position ++ bs.take b.remaining).length =
      b.position + (bs.take b.remaining).length := by
    rw [List.length_append, List.length_take, Nat.min_eq_left hp]
  simp only [content, flip, put, List.drop_zero]
  exact List.take_left' hl

/-- What was put into a fresh buffer is its content once it has been flipped. -/
theorem content_flip_put_allocate (n : Nat) (bs : Bytes) :
    ((allocate n).put bs).flip.content = bs.take n := by
  simp [content, flip, put, allocate, remaining]

end ByteBuffer

/-- What a non-blocking channel has for a read: an exception, the end of the stream, or the
bytes that have arrived, maybe none. -/
abbrev Incoming := Except Throwable (Option Bytes)

namespace SocketChannel

/-- `read(dst)`: the number of bytes put, or `-1`. A full buffer is returned without a look at
the stream. -/
def read (incoming : Incoming) (dst : ByteBuffer) : Except Throwable (Int × ByteBuffer) :=
  if dst.remaining = 0 then .ok (0, dst)
  else
    match incoming with
    | .error e => .error e
    | .ok none => .ok (-1, dst)
    | .ok (some bs) => .ok ((bs.take dst.remaining).length, dst.put bs)

theorem remaining_pos_of_read {incoming : Incoming} {dst dst' : ByteBuffer} {n : Int}
    (h : read incoming dst = .ok (n, dst')) (hn : 0 < n) : 0 < dst.remaining := by
  unfold read at h
  split at h
  · cases h
    exact absurd hn (lt_irrefl _)
  · omega

end SocketChannel

/-- What a reading loop has gathered: the `StringBuilder`, and what its calls of `read` returned,
`none` for `-1`. -/
structure Reading where
  text : Text
  reads : List (Option Bytes)
deriving DecidableEq

/-- `while (channel.read(buffer) > 0) { buffer.flip(); text.append(UTF_8.decode(buffer)); }`, from
the `k`-th call of `read` on. The loop ends because a decoded buffer is full until it is cleared. -/
def readLoop (incoming : Nat → Incoming) (k : Nat) (buffer : ByteBuffer) (r : Reading) :
    Reading × Except Throwable Unit :=
  match h : SocketChannel.read (incoming k) buffer with
  | .error e => (r, .error e)
  | .ok (n, buffer') =>
    if hn : 0 < n then
      readLoop incoming (k + 1) buffer'.flip.drained
        ⟨r.text ++ decode buffer'.flip.content, r.reads ++ [some buffer'.flip.content]⟩
    else (⟨r.text, r.reads ++ [if n < 0 then none else some []]⟩, .ok ())
termination_by buffer.remaining
decreasing_by
  rw [ByteBuffer.remaining_drained]
  exact SocketChannel.remaining_pos_of_read h hn

/-- The loop on its fresh buffer of 1024 bytes. -/
def readAll (incoming : Nat → Incoming) : Reading × Except Throwable Unit :=
  readLoop incoming 0 (.allocate 1024) ⟨[], []⟩

section Reads

variable {incoming : Nat → Incoming}

/-- A full buffer ends the loop. -/
theorem readLoop_drained (incoming : Nat → Incoming) (k : Nat) (b : ByteBuffer) (r : Reading) :
    readLoop incoming k b.drained r = (⟨r.text, r.reads ++ [some []]⟩, .ok ()) := by
  have hr : SocketChannel.read (incoming k) b.drained = .ok (0, b.drained) := by
    simp [SocketChannel.read]
  rw [readLoop]
  split
  · rename_i h
    rw [hr] at h
    cases h
  · rename_i h
    rw [hr] at h
    cases h
    rfl

/-- What one event's reading comes to: the loop looks at the stream once. -/
theorem readAll_eq (incoming : Nat → Incoming) : readAll incoming =
    match incoming 0 with
    | .error e => (⟨[], []⟩, .error e)
    | .ok none => (⟨[], [none]⟩, .ok ())
    | .ok (some []) => (⟨[], [some []]⟩, .ok ())
    | .ok (some bs) => (⟨decode (bs.take 1024), [some (bs.take 1024), some []]⟩, .ok ()) := by
  rw [readAll, readLoop]
  cases hi : incoming 0 with
  | error e => simp [SocketChannel.read]
  | ok r =>
    rcases r with _ | bs
    · simp [SocketChannel.read]
    rcases bs with _ | ⟨b, bs⟩
    · simp [SocketChannel.read]
    have hr : SocketChannel.read (.ok (some (b :: bs))) (.allocate 1024) =
        .ok (((b :: bs).take 1024).length, (ByteBuffer.allocate 1024).put (b :: bs)) := by
      simp [SocketChannel.read]
    split
    · rename_i h
      rw [hr] at h
      cases h
    · rename_i h
      rw [hr] at h
      cases h
      rw [dif_pos (by simp), readLoop_drained, ByteBuffer.content_flip_put_allocate]
      rfl

end Reads

/-- The channels that a selector may watch, the accepted ones by their number. -/
inductive Channel where
  | serverSocket
  | socket (id : Nat)
deriving DecidableEq

/-- A set of operations: the interest of a key, or what it is ready for. -/
structure Ops where
  accept : Bool
  read : Bool
deriving DecidableEq

def OP_ACCEPT : Ops := ⟨true, false⟩

def OP_READ : Ops := ⟨false, true⟩

structure SelectionKey where
  channel : Channel
  interestOps : Ops
deriving DecidableEq

/-- `channel.register(selector, ops)` on the keys of the selector: a channel that has a key keeps
it, with its interest replaced. -/
def register (keys : List SelectionKey) (channel : Channel) (ops : Ops) : List SelectionKey :=
  if ∃ key ∈ keys, key.channel = channel then
    keys.map fun key => if key.channel = channel then { key with interestOps := ops } else key
  else keys ++ [⟨channel, ops⟩]

theorem register_of_not_mem {keys : List SelectionKey} {channel : Channel} {ops : Ops}
    (h : ∀ key ∈ keys, key.channel ≠ channel) :
    register keys channel ops = keys ++ [⟨channel, ops⟩] :=
  if_neg fun ⟨key, hk, he⟩ => h key hk he

/-- Registering again for the same operations changes nothing. -/
theorem register_of_same {keys : List SelectionKey} {channel : Channel} {ops : Ops}
    (h : ⟨channel, ops⟩ ∈ keys)
    (hu : ∀ key ∈ keys, key.channel = channel → key.interestOps = ops) :
    register keys channel ops = keys := by
  rw [register, if_pos ⟨_, h, rfl⟩]
  refine (List.map_congr_left fun key hk => ?_).trans (List.map_id keys)
  by_cases hc : key.channel = channel
  · rw [if_pos hc, ← hu key hk hc]
    rfl
  · rw [if_neg hc]
    rfl

end SpringDemo.Java

import SpringDemo.Java.Nio
import SpringDemo.Library.Lines

/-! Streams of a blocking socket, and `new BufferedReader(new InputStreamReader(is, "UTF-8"))` on
one of them. -/
namespace SpringDemo.Java

open Lib.Lines Lib.Utf8

/-- One direction of a connection. -/
structure Pipe where
  /-- everything that was written to it -/
  written : Bytes
  /-- the writer has closed its end -/
  ended : Bool
  /-- how much of it was read -/
  taken : Nat
deriving DecidableEq

namespace Pipe

def opened : Pipe := ⟨[], false, 0⟩

/-- What was written and has not been read. -/
def waiting (p : Pipe) : Bytes := p.written.drop p.taken

def write (p : Pipe) (bs : Bytes) : Pipe := { p with written := p.written ++ bs }

def finish (p : Pipe) : Pipe := { p with ended := true }

def take (p : Pipe) (n : Nat) : Pipe := { p with taken := p.taken + n }

end Pipe

/-- `'\r'` and `'\n'`. -/
def textMarks : Marks Char := ⟨'\r', '\n', by decide⟩

/-- The marks as they stand in the stream. -/
def byteMarks : Marks UInt8 := ⟨0x0D, 0x0A, by decide⟩

/-- The reader keeps what it has read ahead as bytes: the end of a line is a byte of its own,
whatever stands before it, so that they are the lines of the decoded text. -/
abbrev BufferedReader := Reader UInt8

namespace BufferedReader

/-- The reader of the text. -/
def decoded (r : BufferedReader) : Reader Char := ⟨decode r.unread, r.skipLF⟩

variable {r r' : BufferedReader} {bs l : Bytes}

theorem decode_append_lf (bs rest : Bytes) :
    decode (bs ++ byteMarks.lf :: rest) = decode bs ++ textMarks.lf :: decode rest :=
  decode_append_encodeChar bs '\n' rest

theorem decode_append_cr (bs rest : Bytes) :
    decode (bs ++ byteMarks.cr :: rest) = decode bs ++ textMarks.cr :: decode rest :=
  decode_append_encodeChar bs '\r' rest

theorem plain_decode (h : Plain byteMarks bs) : Plain textMarks (decode bs) := by
  constructor
  · intro hm
    rcases mem_of_mem_decode hm with he | hall
    · exact absurd he (by decide)
    · exact h.1 (hall _ (by decide))
  · intro hm
    rcases mem_of_mem_decode hm with he | hall
    · exact absurd he (by decide)
    · exact h.2 (hall _ (by decide))

/-- A text without ends of lines has none in its bytes either. -/
theorem plain_of_decode (bs : List UInt8) (h : Plain textMarks (decode bs)) :
    Plain byteMarks bs := by
  constructor
  · intro hm
    obtain ⟨l, rest, rfl⟩ := List.append_of_mem hm
    rw [decode_append_cr] at h
    exact h.1 (by simp)
  · intro hm
    obtain ⟨l, rest, rfl⟩ := List.append_of_mem hm
    rw [decode_append_lf] at h
    exact h.2 (by simp)

theorem decode_lf_cons (bs : Bytes) :
    decode (byteMarks.lf :: bs) = textMarks.lf :: decode bs := by
  simpa using decode_append_lf [] bs

/-- A text begins with a line feed only when its bytes do. -/
theorem exists_decode_cons {b : UInt8} (hb : b ≠ byteMarks.lf) (bs : Bytes) :
    ∃ c t, decode (b :: bs) = c :: t ∧ c ≠ textMarks.lf := by
  refine ⟨_, _, decode_of_ne_nil (List.cons_ne_nil b bs), ?_⟩
  cases hd : (b :: bs).toByteArray.utf8DecodeChar? 0 with
  | none =>
    rw [front, hd]
    exact show replacement ≠ textMarks.lf by decide
  | some c =>
    obtain ⟨tail, ht⟩ := exists_of_utf8DecodeChar? hd
    rw [front, hd]
    rintro rfl
    exact hb (List.cons.inj ht).1

theorem pending_decoded (r : BufferedReader) :
    r.decoded.pending textMarks = decode (r.pending byteMarks) := by
  obtain ⟨_ | ⟨b, bs⟩, skipLF⟩ := r
  · simp [decoded, Reader.pending]
  by_cases hb : b = byteMarks.lf
  · subst hb
    cases skipLF <;> simp [decoded, Reader.pending, decode_lf_cons]
  · obtain ⟨c, t, hct, hc⟩ := exists_decode_cons hb bs
    simp [decoded, Reader.pending, hct, hb, hc]

/-- Cutting off a line and decoding it are the same in either order. -/
theorem line?_decoded (r : BufferedReader) : r.decoded.line? textMarks =
    (r.line? byteMarks).map fun p => (decode p.1, decoded p.2) := by
  rw [Reader.line?, pending_decoded, Reader.line?]
  cases h : cut byteMarks (r.pending byteMarks) with
  | none => exact cut_eq_none_iff.mpr (plain_decode (cut_eq_none_iff.mp h))
  | some p =>
    obtain ⟨l, r'⟩ := p
    obtain ⟨hl, ⟨hr, hs⟩ | ⟨hr, hs⟩⟩ := of_cut_eq_some h
    · rw [hr, decode_append_lf, cut_append_lf (plain_decode hl), Option.map_some, decoded, hs]
    · rw [hr, decode_append_cr, cut_append_cr (plain_decode hl), Option.map_some, decoded, hs]

theorem last?_decoded (r : BufferedReader) :
    r.decoded.last? textMarks = (r.last? byteMarks).map decode := by
  rw [Reader.last?, pending_decoded, Reader.last?]
  by_cases h : r.pending byteMarks = [] <;> simp [h]

/-- The lines of the text are the lines of the stream, each decoded by itself. -/
theorem linesWith_decoded (r : BufferedReader) :
    r.decoded.linesWith textMarks [] = (r.linesWith byteMarks []).map decode := by
  generalize hn : r.unread.length = n
  induction n using Nat.strong_induction_on generalizing r with
  | _ n ih =>
    have hline := line?_decoded r
    cases h : r.line? byteMarks with
    | none =>
      rw [h] at hline
      rw [Reader.linesWith_nil_of_line? hline, Reader.linesWith_nil_of_line? h, last?_decoded]
      cases r.last? byteMarks <;> rfl
    | some p =>
      obtain ⟨l, r'⟩ := p
      rw [h] at hline
      have hlt := Reader.length_unread_lt h
      rw [Reader.linesWith_of_line? hline, Reader.linesWith_of_line? h,
        ih _ (hn ▸ hlt) r' rfl, List.map_cons]

theorem lines_decode (bs : Bytes) :
    lines textMarks (decode bs) = (lines byteMarks bs).map decode := by
  have h := linesWith_decoded ⟨bs, false⟩
  simpa [Reader.linesWith, decoded, lines] using h

/-- `readLine()`, where a read of the stream returns -1 or does not: a line or null, with the
reader behind it; none while it has to wait for the stream. -/
def readLine (r : BufferedReader) (atEnd : Bool) : Option (Option Text × BufferedReader) :=
  match r.line? byteMarks with
  | some (l, r') => some (some (decode l), r')
  | none => if atEnd then some ((r.last? byteMarks).map decode, .new) else none

variable {atEnd : Bool} {data : Option Text}

/-- What `readLine` returns is the next line, the last one or null. -/
theorem readLine_cases (h : r.readLine atEnd = some (data, r')) :
    (∃ l, data = some (decode l) ∧ r.line? byteMarks = some (l, r')) ∨
    (r.line? byteMarks = none ∧ atEnd = true ∧ r' = .new ∧
      data = (r.last? byteMarks).map decode) := by
  unfold readLine at h
  split at h
  · rename_i l br' hl
    cases h
    exact .inl ⟨l, rfl, hl⟩
  · rename_i hl
    split at h
    · rename_i he
      cases h
      exact .inr ⟨hl, he, rfl, rfl⟩
    · cases h

theorem readLine_eq_none_iff :
    r.readLine atEnd = none ↔ r.line? byteMarks = none ∧ atEnd = false := by
  unfold readLine
  split
  · rename_i hl
    simp [hl]
  · rename_i hl
    cases atEnd <;> simp [hl]

/-- The line that was returned, with those that are left when nothing more comes. -/
theorem linesWith_of_readLine {text : Text} (h : r.readLine atEnd = some (some text, r')) :
    ∃ l, text = decode l ∧ r.linesWith byteMarks [] = l :: r'.linesWith byteMarks [] ∧
      ((∀ more, r.linesWith byteMarks more = l :: r'.linesWith byteMarks more) ∨
        atEnd = true) := by
  rcases readLine_cases h with ⟨l, hd, hl⟩ | ⟨hl, he, rfl, hd⟩
  · have hall := Reader.linesWith_of_line? hl
    exact ⟨l, Option.some.inj hd, hall [], .inl hall⟩
  · obtain ⟨l, hlast, rfl⟩ := Option.map_eq_some_iff.mp hd.symm
    refine ⟨l, rfl, ?_, .inr he⟩
    rw [Reader.linesWith_nil_of_line? hl, hlast]
    rfl

theorem linesWith_of_null (h : r.readLine atEnd = some (none, r')) :
    r.linesWith byteMarks [] = [] ∧ r' = .new ∧ atEnd = true := by
  rcases readLine_cases h with ⟨l, hd, hl⟩ | ⟨hl, he, rfl, hd⟩
  · cases hd
  · rw [Reader.linesWith_nil_of_line? hl, Option.map_eq_none_iff.mp hd.symm]
    exact ⟨rfl, rfl, he⟩

/-- A line takes something out of the reader. -/
theorem length_unread_lt {text : Text} (h : r.readLine atEnd = some (some text, r')) :
    r'.unread.length < r.unread.length := by
  rcases readLine_cases h with ⟨l, -, hl⟩ | ⟨-, -, rfl, hd⟩
  · exact Reader.length_unread_lt hl
  · obtain ⟨l, hlast, -⟩ := Option.map_eq_some_iff.mp hd.symm
    have hle := r.length_pending_le (M := byteMarks)
    have hne : r.pending byteMarks ≠ [] := fun hn => by simp [Reader.last?, hn] at hlast
    have hpos := List.length_pos_iff.mpr hne
    simp only [Reader.new, List.length_nil]
    omega

end BufferedReader

end SpringDemo.Java

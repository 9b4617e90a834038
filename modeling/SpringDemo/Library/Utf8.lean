import Mathlib.Algebra.Order.BigOperators.Group.List
import Mathlib.Algebra.Order.Ring.Nat

/-! UTF-8 text, and a decoder that takes one buffer at a time and replaces what is malformed or
incomplete in it. -/
namespace Lib.Utf8

def encode (t : List Char) : List UInt8 := t.flatMap String.utf8EncodeChar

/-- U+FFFD. -/
def replacement : Char := '\uFFFD'

def isContinuation (b : UInt8) : Bool := b &&& 0xC0 == 0x80

/-- The second byte may follow the first one at the front of three or four bytes. Surrogates are
refused later, with all of their three bytes. -/
def follows (b₁ b₂ : UInt8) : Bool :=
  isContinuation b₂ && 0xE0 ≤ b₁ && b₁ ≤ 0xF4 && (b₁ != 0xE0 || 0xA0 ≤ b₂) &&
    (b₁ != 0xF0 || 0x90 ≤ b₂) && (b₁ != 0xF4 || b₂ ≤ 0x8F)

/-- How many bytes one replacement stands for, at a front that is no character. -/
def malformedLength : List UInt8 → Nat
  | b₁ :: b₂ :: bs =>
    if follows b₁ b₂ then
      match bs with
      | b₃ :: _ => if isContinuation b₃ then 3 else 2
      | [] => 2
    else 1
  | _ => 1

/-- The character at the front, or its replacement, and the bytes that it takes. -/
def front (bs : List UInt8) : Char × Nat :=
  match bs.toByteArray.utf8DecodeChar? 0 with
  | some c => (c, c.utf8Size)
  | none => (replacement, malformedLength bs)

theorem malformedLength_pos (bs : List UInt8) : 0 < malformedLength bs := by
  unfold malformedLength
  split
  · split
    · split
      · split <;> omega
      · omega
    · omega
  · omega

theorem front_pos (bs : List UInt8) : 0 < (front bs).2 := by
  unfold front
  split
  · exact Char.utf8Size_pos _
  · exact malformedLength_pos bs

def decode : List UInt8 → List Char
  | [] => []
  | b :: bs => (front (b :: bs)).1 :: decode ((b :: bs).drop (front (b :: bs)).2)
termination_by bs => bs.length
decreasing_by
  have h := front_pos (b :: bs)
  simp only [List.length_drop, List.length_cons]
  omega

variable {bs s : List UInt8} {t : List Char} {c : Char} {segs : List (List UInt8)}

@[simp] theorem encode_nil : encode [] = [] := rfl

@[simp] theorem encode_cons (c : Char) (t : List Char) :
    encode (c :: t) = String.utf8EncodeChar c ++ encode t := rfl

@[simp] theorem encode_append (t t' : List Char) : encode (t ++ t') = encode t ++ encode t' := by
  simp [encode]

theorem encode_flatten (ts : List (List Char)) : encode ts.flatten = (ts.map encode).flatten := by
  induction ts with
  | nil => rfl
  | cons t ts ih => simp [ih]

@[simp] theorem encode_eq_nil_iff : encode t = [] ↔ t = [] := by
  cases t <;> simp

@[simp] theorem decode_nil : decode [] = [] := by
  rw [decode]

theorem decode_of_ne_nil (h : bs ≠ []) :
    decode bs = (front bs).1 :: decode (bs.drop (front bs).2) := by
  obtain ⟨b, bs, rfl⟩ := List.exists_cons_of_ne_nil h
  rw [decode]

@[simp] theorem decode_eq_nil_iff : decode bs = [] ↔ bs = [] := by
  by_cases h : bs = []
  · simp [h]
  · simp [decode_of_ne_nil h, h]

theorem front_encodeChar (c : Char) (bs : List UInt8) :
    front (String.utf8EncodeChar c ++ bs) = (c, c.utf8Size) := by
  rw [front, List.toByteArray_append, ByteArray.utf8DecodeChar?_utf8EncodeChar_append]

theorem decode_encode_append (t : List Char) (bs : List UInt8) :
    decode (encode t ++ bs) = t ++ decode bs := by
  induction t with
  | nil => rfl
  | cons c t ih =>
    have hne : String.utf8EncodeChar c ++ (encode t ++ bs) ≠ [] := by simp
    rw [encode_cons, List.append_assoc, decode_of_ne_nil hne, front_encodeChar,
      ← String.length_utf8EncodeChar, List.drop_left, ih]
    rfl

@[simp] theorem decode_encode (t : List Char) : decode (encode t) = t := by
  simpa using decode_encode_append t []

theorem encode_injective : Function.Injective encode := fun t t' h => by
  rw [← decode_encode t, h, decode_encode]

-- A character that two buffers share costs each of them at least one replacement, and the
-- characters of a text are counted by the bytes that begin one.

/-- The bytes that begin a character. -/
def leads (bs : List UInt8) : Nat := bs.countP fun b => b.IsUTF8FirstByte

@[simp] theorem leads_append (bs bs' : List UInt8) : leads (bs ++ bs') = leads bs + leads bs' :=
  List.countP_append

theorem leads_eq_zero_iff : leads bs = 0 ↔ ∀ b ∈ bs, ¬ b.IsUTF8FirstByte := by
  simp [leads]

theorem leads_flatten (segs : List (List UInt8)) :
    leads segs.flatten = (segs.map leads).sum := by
  induction segs with
  | nil => rfl
  | cons s segs ih => simp [ih]

theorem not_lead_of_isContinuation {b : UInt8} (h : isContinuation b = true) :
    ¬ b.IsUTF8FirstByte := by
  have hall : ∀ n : Fin 256, isContinuation (.ofNat n.val) = true →
      ¬ (UInt8.ofNat n.val).IsUTF8FirstByte := by decide +kernel
  have hb := hall ⟨b.toNat, b.toNat_lt⟩
  simpa using hb (by simpa using h)

theorem encodeChar_eq_cons (c : Char) :
    ∃ b bs, String.utf8EncodeChar c = b :: bs ∧ b.IsUTF8FirstByte ∧ leads bs = 0 := by
  obtain ⟨b, bs, he⟩ := List.exists_cons_of_ne_nil (show String.utf8EncodeChar c ≠ [] by simp)
  refine ⟨b, bs, he, ?_, leads_eq_zero_iff.mpr ?_⟩
  · have h := @UInt8.isUTF8FirstByte_getElem_utf8EncodeChar c 0 (by simp [c.utf8Size_pos])
    simpa [he] using h
  · intro b' hb'
    obtain ⟨i, hi, rfl⟩ := List.getElem_of_mem hb'
    have h := @UInt8.isUTF8FirstByte_getElem_utf8EncodeChar c (i + 1) (by simp [he, hi])
    simpa [he] using h

/-- Text begins with a byte that begins a character. -/
theorem isUTF8FirstByte_of_eq_encode {b : UInt8} (h : b :: bs = encode t) :
    b.IsUTF8FirstByte := by
  rcases t with _ | ⟨c, t⟩
  · cases h
  · obtain ⟨b', bs', he, hb', _⟩ := encodeChar_eq_cons c
    rw [encode_cons, he, List.cons_append, List.cons.injEq] at h
    exact h.1 ▸ hb'

theorem leads_encodeChar (c : Char) : leads (String.utf8EncodeChar c) = 1 := by
  obtain ⟨b, bs, he, hb, hbs⟩ := encodeChar_eq_cons c
  simp only [leads] at hbs
  simp [he, leads, hb, hbs]

@[simp] theorem leads_encode (t : List Char) : leads (encode t) = t.length := by
  induction t with
  | nil => rfl
  | cons c t ih => simp [ih, leads_encodeChar, Nat.add_comm]

theorem exists_of_utf8DecodeChar? (h : bs.toByteArray.utf8DecodeChar? 0 = some c) :
    ∃ rest, bs = String.utf8EncodeChar c ++ rest := by
  obtain ⟨l, hl⟩ := ByteArray.exists_of_utf8DecodeChar?_eq_some h
  refine ⟨l.data.toList, ?_⟩
  have hd := congrArg (fun b => b.data.toList) hl
  simpa using hd

theorem leads_tail_take_malformed (b : UInt8) (bs : List UInt8) :
    leads ((b :: bs).take (malformedLength (b :: bs))).tail = 0 := by
  rcases bs with _ | ⟨b₂, bs⟩
  · simp [malformedLength, leads]
  by_cases hf : follows b b₂ = true
  · have h₂ : isContinuation b₂ = true := by simp_all [follows]
    have hl₂ := not_lead_of_isContinuation h₂
    rcases bs with _ | ⟨b₃, bs⟩
    · simp [malformedLength, hf, leads, hl₂]
    by_cases h₃ : isContinuation b₃ = true
    · simp [malformedLength, hf, h₃, leads, hl₂, not_lead_of_isContinuation h₃]
    · simp [malformedLength, hf, h₃, leads, hl₂]
  · simp [malformedLength, hf, leads]

/-- The bytes that the front takes are one character's, or as many as one could have had: only the
first of them can begin a character. -/
theorem leads_tail_take_front (b : UInt8) (bs : List UInt8) :
    leads ((b :: bs).take (front (b :: bs)).2).tail = 0 := by
  unfold front
  split
  · rename_i c hc
    obtain ⟨rest, hr⟩ := exists_of_utf8DecodeChar? hc
    obtain ⟨b', bs', he, _, hbs'⟩ := encodeChar_eq_cons c
    rw [hr, ← String.length_utf8EncodeChar, List.take_left, he]
    exact hbs'
  · exact leads_tail_take_malformed b bs

theorem leads_take_front (b : UInt8) (bs : List UInt8) :
    leads ((b :: bs).take (front (b :: bs)).2) = if b.IsUTF8FirstByte then 1 else 0 := by
  have ht := leads_tail_take_front b bs
  obtain ⟨n, hn⟩ := Nat.exists_eq_succ_of_ne_zero (Nat.ne_of_gt (front_pos (b :: bs)))
  rw [hn, List.take_succ_cons, List.tail_cons] at ht
  rw [hn, List.take_succ_cons, leads, List.countP_cons]
  rw [leads] at ht
  simp [ht]

/-- Each character that begins in a buffer is decoded to one character of its own, and so is
what the buffer begins with when that is the end of another. -/
theorem leads_le_length_decode (bs : List UInt8) :
    leads bs ≤ (decode bs).length ∧
      ∀ b bs', bs = b :: bs' → ¬ b.IsUTF8FirstByte → leads bs < (decode bs).length := by
  induction bs using decode.induct with
  | case1 => simp [leads]
  | case2 b bs ih =>
    have hd := leads_take_front b bs
    have hs : leads (b :: bs) = leads ((b :: bs).take (front (b :: bs)).2) +
        leads ((b :: bs).drop (front (b :: bs)).2) := by
      rw [← leads_append, List.take_append_drop]
    rw [decode, List.length_cons]
    constructor
    · split at hd <;> omega
    · rintro _ _ ⟨⟩ hb
      rw [if_neg hb] at hd
      omega

/-- What is read at a character's beginning and ends before another's is whole. -/
theorem exists_of_append_eq_encode {rest : List UInt8} (h : s ++ rest = encode t)
    (hr : ∀ b bs, rest = b :: bs → b.IsUTF8FirstByte) :
    ∃ t₁ t₂, s = encode t₁ ∧ rest = encode t₂ := by
  induction t generalizing s with
  | nil =>
    obtain ⟨rfl, rfl⟩ := List.append_eq_nil_iff.mp h
    exact ⟨[], [], rfl, rfl⟩
  | cons c t ih =>
    rcases s with _ | ⟨b, s⟩
    · exact ⟨[], c :: t, rfl, h⟩
    rw [encode_cons, List.append_eq_append_iff] at h
    rcases h with ⟨as, hc, hrest⟩ | ⟨s', hs, hrest⟩
    · obtain ⟨b', bs', he, _, hbs'⟩ := encodeChar_eq_cons c
      rcases as with _ | ⟨a, as⟩
      · exact ⟨[c], t, by simpa using hc.symm, hrest⟩
      · rw [he, List.cons_append, List.cons.injEq] at hc
        have ha := leads_eq_zero_iff.mp hbs' a (by simp [hc.2])
        exact absurd (hr a _ hrest) ha
    · obtain ⟨t₁, t₂, h₁, h₂⟩ := ih hrest.symm
      exact ⟨c :: t₁, t₂, by rw [hs, h₁, encode_cons], h₂⟩

/-- No buffer begins in the middle of a character. -/
def Aligned (segs : List (List UInt8)) : Prop :=
  ∀ s ∈ segs, ∀ b bs, s = b :: bs → b.IsUTF8FirstByte

theorem first_of_flatten_eq_cons {b : UInt8} (ha : Aligned segs) (h : segs.flatten = b :: bs) :
    b.IsUTF8FirstByte := by
  induction segs with
  | nil => cases h
  | cons s segs ih =>
    rcases s with _ | ⟨b', s⟩
    · exact ih (fun s hs => ha s (by simp [hs])) (by simpa using h)
    · simp only [List.flatten_cons, List.cons_append, List.cons.injEq] at h
      exact h.1 ▸ ha _ List.mem_cons_self b' s rfl

theorem whole_of_aligned (h : segs.flatten = encode t) (ha : Aligned segs) :
    ∀ s ∈ segs, ∃ t', s = encode t' := by
  induction segs generalizing t with
  | nil => simp
  | cons s segs ih =>
    have hrest : Aligned segs := fun s hs => ha s (by simp [hs])
    obtain ⟨t₁, t₂, h₁, h₂⟩ := exists_of_append_eq_encode (by simpa using h)
      fun b bs hb => first_of_flatten_eq_cons hrest hb
    intro s' hs'
    rcases List.mem_cons.mp hs' with rfl | hs'
    · exact ⟨t₁, h₁⟩
    · exact ih h₂ hrest s' hs'

theorem aligned_of_flatMap_decode (h : segs.flatten = encode t) (hd : segs.flatMap decode = t) :
    Aligned segs := by
  intro s hs b bs hb
  by_contra hlead
  have hlt := List.sum_lt_sum leads (fun s => (decode s).length)
    (fun s _ => (leads_le_length_decode s).1)
    ⟨s, hs, (leads_le_length_decode s).2 b bs hb hlead⟩
  rw [← leads_flatten, h, leads_encode, ← List.length_flatMap, hd] at hlt
  exact absurd hlt (lt_irrefl _)

/-- The buffers decode to the text that they carry exactly when each of them carries whole
characters only. -/
theorem flatMap_decode_eq_iff (h : segs.flatten = encode t) :
    segs.flatMap decode = t ↔ ∀ s ∈ segs, ∃ t', s = encode t' := by
  constructor
  · intro hd
    exact whole_of_aligned h (aligned_of_flatMap_decode h hd)
  · intro hw
    have hs : segs = (segs.map decode).map encode := by
      rw [List.map_map]
      refine (List.map_id segs).symm.trans (List.map_congr_left fun s hs => ?_)
      obtain ⟨t', rfl⟩ := hw s hs
      simp
    rw [hs, ← encode_flatten] at h
    rw [List.flatMap_def]
    exact encode_injective h

/-- Buffers of whole characters are put together again by their texts. -/
theorem encode_flatMap_decode (hw : ∀ s ∈ segs, ∃ t', s = encode t') :
    encode (segs.flatMap decode) = segs.flatten := by
  induction segs with
  | nil => rfl
  | cons s segs ih =>
    obtain ⟨t', rfl⟩ := hw s List.mem_cons_self
    simp [ih fun s hs => hw s (List.mem_cons_of_mem _ hs)]

-- A byte that begins a character ends whatever stands before it, a character or not.
variable {b : UInt8} {rest : List UInt8}

theorem isContinuation_eq_false_of_first (h : b.IsUTF8FirstByte) : isContinuation b = false := by
  cases hc : isContinuation b with
  | false => rfl
  | true => exact absurd h (not_lead_of_isContinuation hc)

theorem malformedLength_append_first (hb : b.IsUTF8FirstByte) (hne : bs ≠ [])
    (rest : List UInt8) :
    malformedLength (bs ++ b :: rest) = malformedLength bs ∧ malformedLength bs ≤ bs.length := by
  have hc := isContinuation_eq_false_of_first hb
  rcases bs with _ | ⟨b₁, _ | ⟨b₂, _ | ⟨b₃, bs⟩⟩⟩
  · exact absurd rfl hne
  · simp [malformedLength, follows, hc]
  · by_cases hf : follows b₁ b₂ = true <;> simp [malformedLength, hf, hc]
  · by_cases hf : follows b₁ b₂ = true <;> by_cases h₃ : isContinuation b₃ = true <;>
      simp [malformedLength, hf, h₃]

/-- A character that begins in the bytes does not reach beyond a byte that begins another. -/
theorem exists_of_append_first (hb : b.IsUTF8FirstByte) (hne : bs ≠ []) {tail : List UInt8}
    (h : bs ++ b :: rest = String.utf8EncodeChar c ++ tail) :
    ∃ bs', bs = String.utf8EncodeChar c ++ bs' := by
  rcases List.append_eq_append_iff.mp h with ⟨as, hc, hrest⟩ | ⟨bs', hbs, -⟩
  · rcases as with _ | ⟨a, as⟩
    · exact ⟨[], by simpa using hc.symm⟩
    · obtain ⟨b₀, bs₀, he, -, hl⟩ := encodeChar_eq_cons c
      obtain ⟨b₁, bs₁, rfl⟩ := List.exists_cons_of_ne_nil hne
      rw [he, List.cons_append, List.cons.injEq] at hc
      obtain rfl : b = a := (List.cons.inj hrest).1
      exact absurd hb (leads_eq_zero_iff.mp hl b (by simp [hc.2]))
  · exact ⟨bs', hbs⟩

theorem front_append_first (hb : b.IsUTF8FirstByte) (hne : bs ≠ []) (rest : List UInt8) :
    front (bs ++ b :: rest) = front bs ∧ (front bs).2 ≤ bs.length := by
  cases hd : bs.toByteArray.utf8DecodeChar? 0 with
  | some c =>
    obtain ⟨bs', rfl⟩ := exists_of_utf8DecodeChar? hd
    rw [List.append_assoc, front_encodeChar, front_encodeChar]
    simp
  | none =>
    have hn : (bs ++ b :: rest).toByteArray.utf8DecodeChar? 0 = none := by
      cases hd' : (bs ++ b :: rest).toByteArray.utf8DecodeChar? 0 with
      | none => rfl
      | some c =>
        obtain ⟨tail, ht⟩ := exists_of_utf8DecodeChar? hd'
        obtain ⟨bs', rfl⟩ := exists_of_append_first hb hne ht
        rw [List.toByteArray_append, ByteArray.utf8DecodeChar?_utf8EncodeChar_append] at hd
        cases hd
    obtain ⟨hm, hle⟩ := malformedLength_append_first hb hne rest
    simp only [front, hd, hn, hm]
    exact ⟨trivial, hle⟩

theorem decode_append_first (hb : b.IsUTF8FirstByte) (bs rest : List UInt8) :
    decode (bs ++ b :: rest) = decode bs ++ decode (b :: rest) := by
  induction bs using decode.induct with
  | case1 => simp
  | case2 b₁ bs ih =>
    obtain ⟨hf, hle⟩ := front_append_first hb (List.cons_ne_nil b₁ bs) rest
    rw [decode_of_ne_nil (by simp), hf, List.drop_append_of_le_length hle, ih,
      decode_of_ne_nil (List.cons_ne_nil b₁ bs)]
    rfl

/-- Every character stands for itself, whatever stands before it. -/
theorem decode_append_encodeChar (bs : List UInt8) (c : Char) (rest : List UInt8) :
    decode (bs ++ (String.utf8EncodeChar c ++ rest)) = decode bs ++ c :: decode rest := by
  obtain ⟨b, cs, he, hb, -⟩ := encodeChar_eq_cons c
  have hc : decode (String.utf8EncodeChar c ++ rest) = c :: decode rest := by
    simpa using decode_encode_append [c] rest
  rw [← hc, he, List.cons_append, decode_append_first hb]

/-- What is decoded was there, or replaces something. -/
theorem mem_of_mem_decode (h : c ∈ decode bs) :
    c = replacement ∨ ∀ b ∈ String.utf8EncodeChar c, b ∈ bs := by
  induction bs using decode.induct with
  | case1 => simp at h
  | case2 b bs ih =>
    rw [decode, List.mem_cons] at h
    rcases h with h | h
    · cases hd : (b :: bs).toByteArray.utf8DecodeChar? 0 with
      | none => exact .inl (by simpa [front, hd] using h)
      | some c' =>
        obtain ⟨tail, ht⟩ := exists_of_utf8DecodeChar? hd
        obtain rfl : c = c' := by simpa [front, hd] using h
        exact .inr fun b' hb' => ht ▸ List.mem_append_left _ hb'
    · rcases ih h with h | h
      · exact .inl h
      · exact .inr fun b' hb' => List.mem_of_mem_drop (h b' hb')

end Lib.Utf8

import SpringDemo.Library.Text

/-! Java strings, their hash codes, and throwables, as far as the services use them. -/
namespace SpringDemo.Java

open Lib.Text

/-- A Java string is a sequence of UTF-16 code units, well formed or not. -/
abbrev JString := List UInt16

/-- The code units of a string literal. -/
def utf16 (s : String) : JString :=
  s.toList.flatMap fun c =>
    if c.toNat < 0x10000 then [c.toNat.toUInt16]
    else [(0xD800 + (c.toNat - 0x10000) / 0x400).toUInt16,
          (0xDC00 + (c.toNat - 0x10000) % 0x400).toUInt16]

/-- `String.hashCode`: `31 * h + c` in 32-bit arithmetic. -/
def hashCode (s : JString) : UInt32 := s.foldl (fun h c => 31 * h + c.toUInt32) 0

/-- What `+` and `String.valueOf` make of a reference that may be null. -/
def orNull : Option JString → JString
  | none => utf16 "null"
  | some s => s

/-- The elements separated by a comma and a blank. -/
def commaSeparated : List JString → JString
  | [] => []
  | [x] => x
  | x :: y :: xs => x ++ utf16 ", " ++ commaSeparated (y :: xs)

/-- `Arrays.toString` of a string array. -/
def arraysToString : Option (List (Option JString)) → JString
  | none => utf16 "null"
  | some xs => utf16 "[" ++ commaSeparated (xs.map orNull) ++ utf16 "]"

/-- `Integer.toString`. -/
def intToString (n : Int) : JString := utf16 (toString n)

theorem toNat_toUInt16_of_mem_numeral {n : Int} {c : Char} (hc : c ∈ (toString n).toList) :
    c.toNat.toUInt16.toNat = c.toNat :=
  UInt16.toNat_ofNat_of_lt' (Nat.lt_trans (toNat_lt_of_mem_numeral hc) (by decide))

/-- A numeral takes one unit for each of its characters. -/
theorem intToString_eq (n : Int) :
    intToString n = (toString n).toList.map fun c => c.toNat.toUInt16 := by
  unfold intToString utf16
  rw [List.map_eq_flatMap]
  refine List.flatMap_congr fun c hc => ?_
  have hlt := toNat_lt_of_mem_numeral hc
  rw [if_pos (by omega)]

theorem colon_notMem_intToString (n : Int) : 58 ∉ intToString n := by
  rw [intToString_eq, List.mem_map]
  rintro ⟨c, hc, he⟩
  have hn := congrArg UInt16.toNat he
  rw [toNat_toUInt16_of_mem_numeral hc] at hn
  exact Nat.ne_of_lt (toNat_lt_of_mem_numeral hc) hn

theorem intToString_injective {n n' : Int} (h : intToString n = intToString n') : n = n' := by
  have hread : ∀ n, (intToString n).map (fun u => Char.ofNat u.toNat) = (toString n).toList := by
    intro n
    rw [intToString_eq, List.map_map]
    refine (List.map_congr_left fun c hc => ?_).trans (List.map_id _)
    simp [toNat_toUInt16_of_mem_numeral hc]
  apply numeral_injective
  rw [← hread, h, hread]

/-- Where a throwable stands in the class hierarchy, as finely as the `catch` clauses
and the callers distinguish it. -/
inductive Kind where
  /-- `IOException` and its subclasses -/
  | io
  /-- the other checked exceptions -/
  | checked
  /-- `IllegalStateException` and its subclasses -/
  | illegalState
  /-- the other runtime exceptions -/
  | runtime
  /-- `Error` and its subclasses -/
  | error
deriving DecidableEq, Repr

structure Throwable where
  kind : Kind
  name : JString
  message : Option JString
deriving DecidableEq

namespace Throwable

/-- Caught by `catch (Exception e)`. -/
def isException (t : Throwable) : Bool := t.kind != .error

/-- Caught by `catch (IOException e)`. -/
def isIOException (t : Throwable) : Bool := t.kind == .io

def isIllegalStateException (t : Throwable) : Bool := t.kind == .illegalState

/-- `Throwable.toString`. -/
def toString (t : Throwable) : JString :=
  match t.message with
  | none => t.name
  | some m => t.name ++ utf16 ": " ++ m

def illegalStateException (message : JString) : Throwable :=
  ⟨.illegalState, utf16 "java.lang.IllegalStateException", some message⟩

/-- `new IllegalStateException(e)`: the message is the cause's own rendering. -/
def illegalStateOf (e : Throwable) : Throwable := illegalStateException e.toString

def nullPointerException : Throwable :=
  ⟨.runtime, utf16 "java.lang.NullPointerException", none⟩

def illegalArgumentException (message : String) : Throwable :=
  ⟨.runtime, utf16 "java.lang.IllegalArgumentException", some (utf16 message)⟩

def illegalAccessException : Throwable :=
  ⟨.checked, utf16 "java.lang.IllegalAccessException", none⟩

/-- What `Method.invoke` throws in place of whatever the method threw. -/
def invocationTargetException : Throwable :=
  ⟨.checked, utf16 "java.lang.reflect.InvocationTargetException", none⟩

def indexOutOfBoundsException : Throwable :=
  ⟨.runtime, utf16 "java.lang.IndexOutOfBoundsException", none⟩

@[simp] theorem isIOException_illegalStateOf (e : Throwable) :
    (illegalStateOf e).isIOException = false := rfl

@[simp] theorem isIOException_nullPointerException :
    nullPointerException.isIOException = false := rfl

@[simp] theorem isIllegalStateException_nullPointerException :
    nullPointerException.isIllegalStateException = false := rfl

@[simp] theorem isException_invocationTargetException :
    invocationTargetException.isException = true := rfl

@[simp] theorem isIllegalStateException_illegalStateOf (e : Throwable) :
    (illegalStateOf e).isIllegalStateException = true := rfl

end Throwable

/-- The type of references to arbitrary objects, with the null reference. -/
class JavaObject (V : Type) where
  null : V

/-- An octet sequence as `byte[]` carries it. -/
abbrev Bytes := List UInt8

end SpringDemo.Java

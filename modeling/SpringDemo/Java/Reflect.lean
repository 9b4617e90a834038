import SpringDemo.Java.Lang
import SpringDemo.Library.Exec

/-! Classes and methods as `java.lang.reflect` shows them. -/
namespace SpringDemo.Java

open Lib.Exec

/-- The predefined types that `Class` represents. -/
inductive Prim where
  | boolean | byte | char | short | int | long | float | double | void
deriving DecidableEq, Repr

namespace Prim

def keyword : Prim → JString
  | boolean => utf16 "boolean"
  | byte => utf16 "byte"
  | char => utf16 "char"
  | short => utf16 "short"
  | int => utf16 "int"
  | long => utf16 "long"
  | float => utf16 "float"
  | double => utf16 "double"
  | void => utf16 "void"

/-- The letter that stands for the type in the name of an array class. -/
def letter : Prim → UInt16
  | boolean => 90
  | byte => 66
  | char => 67
  | short => 83
  | int => 73
  | long => 74
  | float => 70
  | double => 68
  | void => 86

theorem letter_injective {p q : Prim} (h : p.letter = q.letter) : p = q := by
  cases p <;> cases q <;> first | rfl | exact absurd h (by decide)

theorem keyword_injective {p q : Prim} (h : p.keyword = q.keyword) : p = q := by
  cases p <;> cases q <;> first | rfl | exact absurd h (by decide)

/-- No keyword starts with the bracket that starts the name of an array class. -/
theorem keyword_head (p : Prim) : p.keyword.head? ≠ some 91 := by
  cases p <;> decide

end Prim

/-- The binary name of a class or interface: no bracket occurs in it and it is no keyword. -/
structure ClassName where
  name : JString
  noBracket : 91 ∉ name
  notKeyword : ∀ p : Prim, name ≠ p.keyword
deriving DecidableEq

@[ext] theorem ClassName.ext {c d : ClassName} (h : c.name = d.name) : c = d := by
  cases c
  cases d
  cases h
  rfl

inductive JType where
  | prim (p : Prim)
  | cls (c : ClassName)
  | array (elem : JType)
deriving DecidableEq

namespace JType

/-- How a type is written inside the name of an array class. -/
def code : JType → JString
  | prim p => [p.letter]
  | cls c => 76 :: (c.name ++ [59])
  | array t => 91 :: t.code

/-- `Class.getName`. -/
def getName : JType → JString
  | prim p => p.keyword
  | cls c => c.name
  | array t => 91 :: t.code

theorem letter_ne_code (p : Prim) : p.letter ≠ 76 ∧ p.letter ≠ 91 := by
  cases p <;> decide

theorem code_injective {t u : JType} (h : t.code = u.code) : t = u := by
  induction t generalizing u with
  | prim p =>
    cases u with
    | prim q => exact congrArg prim (Prim.letter_injective (by simpa [code] using h))
    | cls c => simp [code] at h
    | array u => exact absurd (List.cons.inj h).1 (letter_ne_code p).2
  | cls c =>
    cases u with
    | prim q => simp [code] at h
    | cls d => exact congrArg cls (ClassName.ext (by simpa [code] using h))
    | array u => simp [code] at h
  | array t ih =>
    cases u with
    | prim q => exact absurd (List.cons.inj h).1.symm (letter_ne_code q).2
    | cls d => simp [code] at h
    | array u => exact congrArg array (ih (List.cons.inj h).2)

/-- The name determines the type, arrays of every dimension included. -/
theorem getName_injective {t u : JType} (h : t.getName = u.getName) : t = u := by
  cases t with
  | prim p =>
    cases u with
    | prim q => exact congrArg prim (Prim.keyword_injective h)
    | cls c => exact absurd h.symm (c.notKeyword p)
    | array u => exact absurd (by rw [show p.keyword = _ from h]; rfl) p.keyword_head
  | cls c =>
    cases u with
    | prim q => exact absurd h (c.notKeyword q)
    | cls d => exact congrArg cls (ClassName.ext h)
    | array u =>
      refine absurd ?_ c.noBracket
      rw [show c.name = _ from h]
      exact List.mem_cons_self
  | array t =>
    cases u with
    | prim q => exact absurd (by rw [← show _ = q.keyword from h]; rfl) q.keyword_head
    | cls d =>
      refine absurd ?_ d.noBracket
      rw [← show _ = d.name from h]
      exact List.mem_cons_self
    | array u => exact congrArg array (code_injective (List.cons.inj h).2)

end JType

/-- A `java.lang.reflect.Method`. -/
structure Method where
  declaringClass : ClassName
  name : JString
  parameterTypes : List JType
  returnType : JType
  isPublic : Bool
  isStatic : Bool
deriving DecidableEq

/-- What tells two methods of one class apart. -/
def Method.SameSignature (m m' : Method) : Prop :=
  m.name = m'.name ∧ m.parameterTypes = m'.parameterTypes ∧ m.returnType = m'.returnType

instance (m m' : Method) : Decidable (m.SameSignature m') := by
  unfold Method.SameSignature
  infer_instance

/-- The loaded interfaces, each under its class name, with what the JVM guarantees about them. -/
structure ClassPath where
  getDeclaredMethods : ClassName → List Method
  /-- the direct super-interfaces -/
  getInterfaces : ClassName → List ClassName
  /-- whether `ReflectionUtils` may call the interface's public methods: a public interface -/
  isAccessible : ClassName → Bool
  declaring : ∀ {c m}, m ∈ getDeclaredMethods c → m.declaringClass = c
  distinct : ∀ {c m m'}, m ∈ getDeclaredMethods c → m' ∈ getDeclaredMethods c →
    m.SameSignature m' → m = m'

/-- The virtual machine underneath `Method.invoke`: how an argument is converted to a
declared type (by unboxing and widening, or not at all), and what running a method does. -/
structure Runtime (V B W : Type) where
  coerce : JType → V → Option V
  exec : Option B → Method → List V → W → Except Throwable V × W

variable {V B W : Type}

/-- Every argument converted to its declared type. -/
def coerceAll (coerce : JType → V → Option V) : List JType → List V → Option (List V)
  | [], [] => some []
  | t :: ts, v :: vs =>
    match coerce t v, coerceAll coerce ts vs with
    | some v', some vs' => some (v' :: vs')
    | _, _ => none
  | _, _ => none

theorem coerceAll_length_eq {coerce : JType → V → Option V} {ts : List JType} {vs vs' : List V}
    (h : coerceAll coerce ts vs = some vs') : vs.length = ts.length := by
  induction ts generalizing vs vs' with
  | nil => cases vs <;> simp_all [coerceAll]
  | cons t ts ih =>
    cases vs with
    | nil => simp [coerceAll] at h
    | cons v vs =>
      simp only [coerceAll] at h
      split at h
      · rename_i hs
        simpa using ih hs
      · simp at h

/-- The checks and conversions `Method.invoke` makes before it runs the method. -/
def Method.arguments (cp : ClassPath) (rt : Runtime V B W) (m : Method) (obj : Option B)
    (args : Option (List V)) : Except Throwable (List V) :=
  if cp.isAccessible m.declaringClass = false then .error .illegalAccessException
  else if m.isStatic = false ∧ obj.isNone then .error .nullPointerException
  else if (args.getD []).length ≠ m.parameterTypes.length then
    .error (.illegalArgumentException "wrong number of arguments")
  else
    match coerceAll rt.coerce m.parameterTypes (args.getD []) with
    | none => .error (.illegalArgumentException "argument type mismatch")
    | some actual => .ok actual

/-- Nothing that stops a call before the method runs is an `Error`. -/
theorem Method.arguments_error {cp : ClassPath} {rt : Runtime V B W} {m : Method}
    {obj : Option B} {args : Option (List V)} {e : Throwable}
    (h : m.arguments cp rt obj args = .error e) : e.isException = true := by
  unfold Method.arguments at h
  split at h
  · cases h; rfl
  split at h
  · cases h; rfl
  split at h
  · cases h; rfl
  split at h
  · cases h; rfl
  · cases h

/-- A method of an accessible interface, called on an object, takes the arguments that
convert. -/
theorem Method.arguments_eq_ok_iff {cp : ClassPath} {rt : Runtime V B W} {m : Method} {b : B}
    {args : Option (List V)} {actual : List V}
    (hp : cp.isAccessible m.declaringClass = true) :
    m.arguments cp rt (some b) args = .ok actual ↔
      coerceAll rt.coerce m.parameterTypes (args.getD []) = some actual := by
  cases hc : coerceAll rt.coerce m.parameterTypes (args.getD []) with
  | some actual' => simp [Method.arguments, hp, coerceAll_length_eq hc, hc]
  | none =>
    by_cases hl : (args.getD []).length = m.parameterTypes.length <;>
      simp [Method.arguments, hp, hl, hc]

end SpringDemo.Java

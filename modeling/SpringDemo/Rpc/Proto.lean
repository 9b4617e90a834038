import Mathlib.Data.List.Basic
import SpringDemo.Java.Reflect
import SpringDemo.Library.HashTable

/-! The messages of the protocol and the descriptor that names a remote method. -/
namespace SpringDemo.Rpc

open Java Lib.HashTable

/-- Class, method, return type and parameter types, each as text that may be null. -/
structure ServiceDescriptor where
  clazz : Option JString
  method : Option JString
  returnType : Option JString
  parameterTypes : Option (List (Option JString))
deriving DecidableEq

namespace ServiceDescriptor

/-- `ServiceDescriptor.from(clazz, method)`. -/
def fromMethod (clazz : ClassName) (method : Method) : ServiceDescriptor where
  clazz := some clazz.name
  method := some method.name
  returnType := some method.returnType.getName
  parameterTypes := some (method.parameterTypes.map fun t => some t.getName)

def toString (d : ServiceDescriptor) : JString :=
  utf16 "clazz=" ++ orNull d.clazz ++ utf16 ",method=" ++ orNull d.method ++
    utf16 "，returnType=" ++ orNull d.returnType ++ utf16 ",parameterTypes=" ++
    arraysToString d.parameterTypes

/-- The hash goes through the rendering, the array included. -/
def hashCode (d : ServiceDescriptor) : UInt32 := Java.hashCode d.toString

/-- The comparison goes field by field, and element by element through the array. -/
def equals (d d' : ServiceDescriptor) : Bool :=
  d.clazz == d'.clazz && d.method == d'.method && d.returnType == d'.returnType &&
    d.parameterTypes == d'.parameterTypes

@[simp] theorem equals_iff {d d' : ServiceDescriptor} : d.equals d' = true ↔ d = d' := by
  cases d
  cases d'
  simp [equals, and_assoc]

instance : Keyed ServiceDescriptor where
  hash := hashCode
  eqv := equals

@[simp] theorem eqv_iff {d d' : ServiceDescriptor} : Keyed.eqv d d' = true ↔ d = d' := equals_iff

@[simp] theorem eqv_eq_false_iff {d d' : ServiceDescriptor} :
    Keyed.eqv d d' = false ↔ d ≠ d' := by
  rw [← Bool.not_eq_true, eqv_iff]

/-- The hand-written pair keeps its contract: equal descriptors render alike. -/
instance : LawfulKeyed ServiceDescriptor where
  refl _ := eqv_iff.mpr rfl
  symm h := eqv_iff.mpr (eqv_iff.mp h).symm
  trans h h' := eqv_iff.mpr ((eqv_iff.mp h).trans (eqv_iff.mp h'))
  hash_eq h := congrArg hashCode (eqv_iff.mp h)

/-- The descriptor determines the interface and everything that tells two methods of one
interface apart. -/
theorem fromMethod_eq_iff {c c' : ClassName} {m m' : Method} :
    fromMethod c m = fromMethod c' m' ↔ c = c' ∧ m.SameSignature m' := by
  constructor
  · intro h
    simp only [fromMethod, mk.injEq, Option.some.injEq] at h
    obtain ⟨hc, hm, hr, hp⟩ := h
    have hinj : Function.Injective fun t : JType => some t.getName := fun _ _ he =>
      JType.getName_injective (Option.some.inj he)
    exact ⟨ClassName.ext hc, hm, List.map_injective_iff.mpr hinj hp, JType.getName_injective hr⟩
  · rintro ⟨rfl, hm, hp, hr⟩
    simp [fromMethod, hm, hp, hr]

/-- Two declared methods of one interface never share a descriptor. -/
theorem fromMethod_injOn (cp : ClassPath) {c : ClassName} {m m' : Method}
    (hm : m ∈ cp.getDeclaredMethods c) (hm' : m' ∈ cp.getDeclaredMethods c)
    (h : fromMethod c m = fromMethod c m') : m = m' :=
  cp.distinct hm hm' (fromMethod_eq_iff.mp h).2

end ServiceDescriptor

structure Request (V : Type) where
  serviceDescriptor : Option ServiceDescriptor
  /-- null for a method without parameters -/
  parameters : Option (List V)
deriving DecidableEq

structure Response (V : Type) where
  code : Int
  message : Option JString
  data : V
deriving DecidableEq

namespace Response

variable {V : Type}

/-- `new Response()`. -/
def new [JavaObject V] : Response V := ⟨0, some (utf16 "ok"), JavaObject.null⟩

/-- The rendering that `@Data` generates, with the data's own `toString`. -/
def toString (render : V → JString) (r : Response V) : JString :=
  utf16 "Response(code=" ++ intToString r.code ++ utf16 ", message=" ++ orNull r.message ++
    utf16 ", data=" ++ render r.data ++ utf16 ")"

end Response

/-- An endpoint of the network. -/
structure Peer where
  host : Option JString
  port : Int
deriving DecidableEq

end SpringDemo.Rpc

import Mathlib.Logic.Relation
import SpringDemo.Rpc.Example

/-! Which methods a proxy forwards, and which of them the server knows. -/
namespace SpringDemo.Rpc

open Java Lib.HashTable ServiceDescriptor

variable {V B : Type} {cp : ClassPath} {I J : ClassName} {m : Method} {hist : History B}
  {bean : Option B}

/-- A super-interface at any depth, the interface itself included. -/
def Extends (cp : ClassPath) : ClassName → ClassName → Prop :=
  Relation.ReflTransGen fun I J => J ∈ cp.getInterfaces I

/-- An instance method as an interface declares it. -/
structure DeclaredInstance (cp : ClassPath) (m : Method) : Prop where
  declared : m ∈ cp.getDeclaredMethods m.declaringClass
  isPublic : m.isPublic = true
  notStatic : m.isStatic = false

/-- What `getProxy(I)` forwards: the instance methods that the interface declares or inherits,
less those that an interface on the way redeclares. -/
structure Forwards (cp : ClassPath) (I : ClassName) (m : Method) : Prop where
  inherited : Extends cp I m.declaringClass
  instance_ : DeclaredInstance cp m
  notOverridden : ∀ m', Extends cp I m'.declaringClass →
    Extends cp m'.declaringClass m.declaringClass → DeclaredInstance cp m' →
    m.SameSignature m' → m' = m

/-- The server resolves a call of a forwarded method to that method exactly when the
interface declares the method itself. -/
theorem lookup_forwarded_iff (cp : ClassPath) (hist : History B)
    (hb : latest hist I = some bean) (hm : Forwards cp I m) (parameters : Option (List V)) :
    ServiceManager.lookup (registered cp hist)
        (some ⟨some (.fromMethod I m), parameters⟩) = .ok (some ⟨bean, m⟩) ↔
      m.declaringClass = I := by
  simp only [ServiceManager.lookup, Except.ok.injEq]
  rw [get_registered_iff]
  constructor
  · rintro ⟨J, _, hmem, he⟩
    obtain rfl := (fromMethod_eq_iff.mp he).1
    exact cp.declaring (mem_getPublicMethods.mp hmem).1
  · rintro rfl
    exact ⟨_, hb, mem_getPublicMethods.mpr ⟨hm.instance_.declared, hm.instance_.isPublic⟩, rfl⟩

namespace Example

theorem forwards_add (h : Extends classPath I calcService) : Forwards classPath I add := by
  refine ⟨h, ⟨add_mem, rfl, rfl⟩, ?_⟩
  intro m' _ _ hm' hsig
  exact (classPath.distinct add_mem (mem_declared hm'.declared ▸ hm'.declared) hsig).symm

theorem lookup_forwarded_add :
    ServiceManager.lookup serverState.services (some addRequest) =
      .ok (some ⟨some .instance_, add⟩) :=
  (lookup_forwarded_iff classPath [(calcService, some CalcServiceImpl.instance_)]
    (by simp [latest]) (forwards_add .refl) _).mpr rfl

/-- The proxy of an interface that only extends the calculator's forwards `add`, which no
registration of that interface makes known. -/
theorem inherited_method_unknown :
    Forwards classPath advancedCalcService add ∧
    ServiceManager.lookup
      (registered classPath [(advancedCalcService, some CalcServiceImpl.instance_)])
      (some ⟨some (.fromMethod advancedCalcService add), addRequest.parameters⟩) = .ok none := by
  have hext : Extends classPath advancedCalcService calcService :=
    .single (by simp [classPath])
  refine ⟨forwards_add hext, ?_⟩
  simp only [ServiceManager.lookup, Except.ok.injEq]
  rw [get_registered_eq_none_iff]
  rintro sis ⟨J, hb, hm, he⟩
  obtain rfl := (fromMethod_eq_iff.mp he).1
  exact advancedCalcService_ne (mem_declared (mem_getPublicMethods.mp hm).1)

end Example

end SpringDemo.Rpc

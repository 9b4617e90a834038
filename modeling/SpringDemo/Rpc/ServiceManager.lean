import SpringDemo.Rpc.Proto

/-! The registry: which method of which object answers to a descriptor, over whole histories
of registrations. -/
namespace SpringDemo.Rpc

open Java Lib.HashTable

variable {V B : Type}

structure ServiceInstance (B : Type) where
  /-- the object that serves; a null reference may have been registered -/
  target : Option B
  method : Method
deriving DecidableEq

abbrev Services (B : Type) := Table ServiceDescriptor (ServiceInstance B)

/-- `ReflectionUtils.getPublicMethods`. -/
def getPublicMethods (cp : ClassPath) (clazz : ClassName) : List Method :=
  (cp.getDeclaredMethods clazz).filter fun m => m.isPublic

namespace ServiceManager

def register (cp : ClassPath) (services : Services B) (interfaceClass : ClassName)
    (bean : Option B) : Services B :=
  putAll (ServiceDescriptor.fromMethod interfaceClass) (fun m => ⟨bean, m⟩) services
    (getPublicMethods cp interfaceClass)

/-- The request and its descriptor are dereferenced, so a null among them throws. -/
def lookup (services : Services B) (request : Option (Request V)) :
    Except Throwable (Option (ServiceInstance B)) :=
  match request with
  | none => .error .nullPointerException
  | some request =>
    match request.serviceDescriptor with
    | none => .error .nullPointerException
    | some sdp => .ok (get services sdp)

end ServiceManager

open ServiceManager ServiceDescriptor

variable {cp : ClassPath} {services : Services B} {I : ClassName} {bean : Option B} {m : Method}
  {d : ServiceDescriptor}

theorem mem_getPublicMethods :
    m ∈ getPublicMethods cp I ↔ m ∈ cp.getDeclaredMethods I ∧ m.isPublic = true := by
  simp [getPublicMethods]

/-- Registration serves every public method of the interface by the bean. -/
theorem get_register_of_mem (hm : m ∈ getPublicMethods cp I) :
    get (register cp services I bean) (fromMethod I m) = some ⟨bean, m⟩ := by
  refine get_putAll_of_mem services hm (eqv_iff.mpr rfl) ?_
  intro m' hm' he
  have h := fromMethod_injOn cp (mem_getPublicMethods.mp hm).1 (mem_getPublicMethods.mp hm').1
    (eqv_iff.mp he)
  rw [h]

/-- Registration leaves every other descriptor as it was. -/
theorem get_register_of_not_mem (hd : ∀ m ∈ getPublicMethods cp I, d ≠ fromMethod I m) :
    get (register cp services I bean) d = get services d :=
  get_putAll_of_not_mem services fun m hm => eqv_eq_false_iff.mpr (hd m hm)

/-- The registrations of a run, the oldest first. -/
abbrev History (B : Type) := List (ClassName × Option B)

/-- The registry that the registrations of a history leave. -/
def registered (cp : ClassPath) (hist : History B) : Services B :=
  hist.foldl (fun services r => register cp services r.1 r.2) []

/-- The bean of the latest registration of an interface. -/
def latest : History B → ClassName → Option (Option B)
  | [], _ => none
  | r :: hist, I => (latest hist I).or (if r.1 = I then some r.2 else none)

@[simp] theorem registered_nil : registered cp ([] : History B) = [] := rfl

theorem registered_append (hist : History B) (I : ClassName) (bean : Option B) :
    registered cp (hist ++ [(I, bean)]) = register cp (registered cp hist) I bean := by
  simp [registered]

theorem latest_append (hist : History B) (I J : ClassName) (bean : Option B) :
    latest (hist ++ [(I, bean)]) J = if I = J then some bean else latest hist J := by
  induction hist with
  | nil => simp [latest]
  | cons r hist ih =>
    rw [List.cons_append, latest, ih, latest]
    split <;> simp

/-- An interface has a latest bean exactly when it was registered. -/
theorem latest_isSome_iff {hist : History B} :
    (latest hist I).isSome = true ↔ ∃ bean, (I, bean) ∈ hist := by
  induction hist with
  | nil => simp [latest]
  | cons r hist ih =>
    obtain ⟨J, b⟩ := r
    rw [latest, Option.isSome_or, Bool.or_eq_true, ih]
    by_cases hJ : J = I
    · subst J
      simp only [if_true, Option.isSome_some, or_true, true_iff]
      exact ⟨b, List.mem_cons_self⟩
    · simp [hJ, Ne.symm hJ]

/-- What the registry ought to hold: the public methods of the registered interfaces, each on
the latest bean of its interface. -/
def Serves (cp : ClassPath) (hist : History B) (d : ServiceDescriptor)
    (sis : ServiceInstance B) : Prop :=
  ∃ I, latest hist I = some sis.target ∧ sis.method ∈ getPublicMethods cp I ∧
    d = fromMethod I sis.method

/-- A registration changes the specification for its own interface and for no other. -/
theorem serves_append {hist : History B} {sis : ServiceInstance B} :
    Serves cp (hist ++ [(I, bean)]) d sis ↔
      (sis.target = bean ∧ sis.method ∈ getPublicMethods cp I ∧ d = fromMethod I sis.method) ∨
      ((∀ m ∈ getPublicMethods cp I, d ≠ fromMethod I m) ∧ Serves cp hist d sis) := by
  constructor
  · rintro ⟨J, hl, hm, hd⟩
    rw [latest_append] at hl
    by_cases hJ : I = J
    · subst J
      rw [if_pos rfl] at hl
      exact Or.inl ⟨(Option.some.inj hl).symm, hm, hd⟩
    · rw [if_neg hJ] at hl
      refine Or.inr ⟨?_, J, hl, hm, hd⟩
      intro m _ he
      exact hJ (fromMethod_eq_iff.mp (he.symm.trans hd)).1
  · rintro (⟨rfl, hm, hd⟩ | ⟨hno, J, hl, hm, hd⟩)
    · exact ⟨I, by simp [latest_append], hm, hd⟩
    · have hJ : I ≠ J := by
        rintro rfl
        exact hno _ hm hd
      exact ⟨J, by simp [latest_append, hJ, hl], hm, hd⟩

/-- The table refines the specification over every history. -/
theorem get_registered_iff (hist : History B) {sis : ServiceInstance B} :
    get (registered cp hist) d = some sis ↔ Serves cp hist d sis := by
  induction hist using List.reverseRecOn with
  | nil => simp [Serves, latest]
  | append_singleton hist r ih =>
    obtain ⟨I, bean⟩ := r
    rw [registered_append, serves_append]
    by_cases hd : ∃ m ∈ getPublicMethods cp I, d = fromMethod I m
    · obtain ⟨m, hm, rfl⟩ := hd
      rw [get_register_of_mem hm]
      constructor
      · rintro ⟨⟩
        exact Or.inl ⟨rfl, hm, rfl⟩
      · rintro (⟨rfl, hm', he⟩ | ⟨hno, _⟩)
        · rw [fromMethod_injOn cp (mem_getPublicMethods.mp hm).1
            (mem_getPublicMethods.mp hm').1 he]
        · exact absurd rfl (hno m hm)
    · simp only [not_exists, not_and] at hd
      rw [get_register_of_not_mem hd, ih]
      constructor
      · exact fun h => Or.inr ⟨hd, h⟩
      · rintro (⟨_, hm, he⟩ | ⟨_, h⟩)
        · exact absurd he (hd _ hm)
        · exact h

theorem get_registered_eq_none_iff (hist : History B) :
    get (registered cp hist) d = none ↔ ∀ sis, ¬ Serves cp hist d sis := by
  simp only [← get_registered_iff]
  exact Option.eq_none_iff_forall_ne_some

end SpringDemo.Rpc

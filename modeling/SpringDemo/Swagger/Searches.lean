import SpringDemo.Swagger.Controller

/-! What the searches answer, and the field that two of them compare differently. -/
namespace SpringDemo.Swagger

open Java Lib.Exec

/-- No field is null. -/
structure Fields.Complete (f : Fields) : Prop where
  name : f.name.isSome = true
  cls : f.cls.isSome = true
  country : f.country.isSome = true

instance (f : Fields) : Decidable f.Complete :=
  decidable_of_iff (f.name.isSome = true ∧ f.cls.isSome = true ∧ f.country.isSome = true)
    ⟨fun h => ⟨h.1, h.2.1, h.2.2⟩, fun h => ⟨h.name, h.cls, h.country⟩⟩

theorem newStudent_complete (name cls country : JString) :
    (newStudent name cls country).Complete := ⟨rfl, rfl, rfl⟩

/-- Every stored student has its three fields. -/
def Sound (students : List Student) : Prop := ∀ x ∈ students, x.toFields.Complete

variable (cm : CaseMapping)

/-- A field is set to the value, in upper or lower case. -/
def isIgnoringCase (field : Option JString) (value : JString) : Bool :=
  field.any fun f => equalsIgnoreCase cm f value

namespace Student

def named (name : JString) (x : Student) : Bool := isIgnoringCase cm x.name name

def inCountry (country : JString) (x : Student) : Bool := isIgnoringCase cm x.country country

def inClass (cls : JString) (x : Student) : Bool := isIgnoringCase cm x.cls cls

/-- Has the name and the class, both up to case. -/
def namedInClass (name cls : JString) (x : Student) : Bool := x.inClass cm cls && x.named cm name

/-- What `getStudentByNameAndCls` asks: the name up to case, the class as it is spelled. -/
def nameAndCls (name cls : JString) (x : Student) : Bool := x.cls == some cls && x.named cm name

end Student

variable {cm} {students : List Student} {x : Student} {name cls country : JString}

theorem fieldEqualsIgnoreCase_ok {field : Option JString} (h : field.isSome = true)
    (value : JString) :
    fieldEqualsIgnoreCase cm field value = .ok (isIgnoringCase cm field value) := by
  obtain ⟨f, rfl⟩ := Option.isSome_iff_exists.mp h
  rfl

theorem isSome_of_fieldEqualsIgnoreCase {field : Option JString} {value : JString} {b : Bool}
    (h : fieldEqualsIgnoreCase cm field value = .ok b) : field.isSome = true := by
  cases field with
  | none => cases h
  | some f => rfl

theorem findStudent_ok (h : Sound students) (name : JString) :
    findStudent cm students name = .ok (students.find? (Student.named cm name)) :=
  findFirst_ok fun x hx => fieldEqualsIgnoreCase_ok (h x hx).name name

theorem getStudentByCountry_ok (h : Sound students) (country : JString) :
    getStudentByCountry cm students country =
      .ok (students.filter (Student.inCountry cm country)) :=
  collect_ok fun x hx => fieldEqualsIgnoreCase_ok (h x hx).country country

theorem getStudentByClass_ok (h : Sound students) (cls : JString) :
    getStudentByClass cm students cls = .ok (students.filter (Student.inClass cm cls)) :=
  collect_ok fun x hx => fieldEqualsIgnoreCase_ok (h x hx).cls cls

/-- The first element that is kept, or the exception of `get(0)`. -/
theorem getFirst_filter (p : Student → Bool) (students : List Student) :
    getFirst (students.filter p) = (students.find? p).elim (.error indexOutOfBounds) .ok := by
  rw [← List.head?_filter]
  cases students.filter p <;> rfl

theorem getStudentByName_ok (h : Sound students) (name : JString) :
    getStudentByName cm students name =
      (students.find? (Student.named cm name)).elim (.error indexOutOfBounds) .ok := by
  have hc : collect (fun x => fieldEqualsIgnoreCase cm x.name name) students =
      .ok (students.filter (Student.named cm name)) :=
    collect_ok fun x hx => fieldEqualsIgnoreCase_ok (h x hx).name name
  rw [getStudentByName, hc, ← getFirst_filter]
  rfl

theorem getStudentByNameAndCls_ok (h : Sound students) (name cls : JString) :
    getStudentByNameAndCls cm students name cls =
      (students.find? (Student.nameAndCls cm name cls)).elim (.error indexOutOfBounds) .ok := by
  have hc : collect (fun x => do
      let sameCls ← fieldEquals x.cls cls
      if sameCls then fieldEqualsIgnoreCase cm x.name name else pure false) students =
        .ok (students.filter (Student.nameAndCls cm name cls)) := by
    refine collect_ok fun x hx => ?_
    obtain ⟨c, hcls⟩ := Option.isSome_iff_exists.mp (h x hx).cls
    rw [fieldEqualsIgnoreCase_ok (h x hx).name, Student.nameAndCls, hcls]
    by_cases hs : c = cls <;>
      simp [fieldEquals, hs, bind, Except.bind, pure, Except.pure, Student.named]
  rw [getStudentByNameAndCls, hc, ← getFirst_filter]
  rfl

/-- `getStudentByNameAndCls` returns the first of the students of `getStudentByClass` that has the
name, and a student exactly when there is one. -/
def ClassFiltersAgree (cm : CaseMapping) (students : List Student) (name cls : JString) : Prop :=
  ∃ inClass, getStudentByClass cm students cls = .ok inClass ∧
    ((∃ x, getStudentByNameAndCls cm students name cls = .ok x) ↔
      ∃ y ∈ inClass, y.named cm name = true) ∧
    ∀ x, getStudentByNameAndCls cm students name cls = .ok x →
      inClass.find? (Student.named cm name) = some x

theorem getStudentByNameAndCls_eq_ok_iff (h : Sound students) :
    getStudentByNameAndCls cm students name cls = .ok x ↔
      students.find? (Student.nameAndCls cm name cls) = some x := by
  rw [getStudentByNameAndCls_ok h]
  cases students.find? (Student.nameAndCls cm name cls) <;> simp

/-- A class that is spelled alike is the class up to case. -/
theorem nameAndCls_iff : x.nameAndCls cm name cls = true ↔
    x.cls = some cls ∧ x.namedInClass cm name cls = true := by
  rw [Student.nameAndCls, Student.namedInClass, Bool.and_eq_true, Bool.and_eq_true, beq_iff_eq]
  constructor
  · rintro ⟨hc, hn⟩
    refine ⟨hc, ?_, hn⟩
    rw [Student.inClass, hc]
    exact equalsIgnoreCase_refl cls
  · rintro ⟨hc, -, hn⟩
    exact ⟨hc, hn⟩

/-- The first element for which one predicate holds is the first for any narrower one that holds
of it. -/
theorem find?_narrow {α : Type} {p q : α → Bool} {xs : List α} {a : α}
    (hqp : ∀ b, q b = true → p b = true) (h : xs.find? p = some a) (ha : q a = true) :
    xs.find? q = some a := by
  obtain ⟨-, before, after, rfl, hb⟩ := List.find?_eq_some_iff_append.mp h
  refine List.find?_eq_some_iff_append.mpr ⟨ha, before, after, rfl, fun b hbm => ?_⟩
  have hp := hb b hbm
  cases hq : q b with
  | false => rfl
  | true => simp [hqp b hq] at hp

/-- When the first student with the name and the class up to case has the class as it is spelled,
both ways of looking begin with the same student. -/
theorem find?_nameAndCls_iff
    (hall : ∀ x, students.find? (Student.namedInClass cm name cls) = some x → x.cls = some cls) :
    students.find? (Student.nameAndCls cm name cls) = some x ↔
      students.find? (Student.namedInClass cm name cls) = some x := by
  have hnarrow : ∀ y, students.find? (Student.namedInClass cm name cls) = some y →
      students.find? (Student.nameAndCls cm name cls) = some y := fun y hy =>
    find?_narrow (fun b hb => (nameAndCls_iff.mp hb).2) hy
      (nameAndCls_iff.mpr ⟨hall y hy, List.find?_some hy⟩)
  refine ⟨fun hx => ?_, hnarrow x⟩
  have hxc := (nameAndCls_iff.mp (List.find?_some hx)).2
  obtain ⟨y, hy⟩ := Option.isSome_iff_exists.mp
    (List.find?_isSome.mpr ⟨x, List.mem_of_find?_eq_some hx, hxc⟩)
  rwa [Option.some.inj ((hnarrow y hy).symm.trans hx)] at hy

/-- The two searches agree on a class exactly when the first student that has the name and the
class up to case has the class in the very spelling that was asked for. -/
theorem class_filters_agree_iff (h : Sound students) (name cls : JString) :
    ClassFiltersAgree cm students name cls ↔
      ∀ x, students.find? (Student.namedInClass cm name cls) = some x →
        x.cls = some cls := by
  have hfirst : (students.filter (Student.inClass cm cls)).find? (Student.named cm name) =
      students.find? (Student.namedInClass cm name cls) := by
    rw [List.find?_filter]
    congr
    funext x
    simp [Student.namedInClass]
  constructor
  · rintro ⟨inClass, hc, hiff, hx⟩ x hf
    rw [getStudentByClass_ok h, Except.ok.injEq] at hc
    subst hc
    rw [← hfirst] at hf
    obtain ⟨z, hz⟩ := hiff.mpr ⟨x, List.mem_of_find?_eq_some hf, List.find?_some hf⟩
    obtain rfl : z = x := Option.some.inj ((hx z hz).symm.trans hf)
    rw [getStudentByNameAndCls_eq_ok_iff h] at hz
    exact (nameAndCls_iff.mp (List.find?_some hz)).1
  · intro hall
    have hreturned : ∀ x, getStudentByNameAndCls cm students name cls = .ok x ↔
        students.find? (Student.namedInClass cm name cls) = some x := fun x =>
      (getStudentByNameAndCls_eq_ok_iff h).trans (find?_nameAndCls_iff hall)
    refine ⟨_, getStudentByClass_ok h cls, ?_, fun x hx => hfirst.trans ((hreturned x).mp hx)⟩
    simp only [hreturned, ← hfirst, ← Option.isSome_iff_exists, List.find?_isSome]

theorem initial_sound : Sound Swagger2RestController.initial.students := by
  unfold Sound
  decide

namespace Example

open Swagger2RestController CaseMapping

def sajal : Student := ⟨newStudent (utf16 "Sajal") (utf16 "IV") (utf16 "India"), 0⟩

/-- With the class as it is stored both searches know the student. -/
theorem class_filters_agree_sajal :
    ClassFiltersAgree basicLatin initial.students (utf16 "sajal") (utf16 "IV") := by
  refine (class_filters_agree_iff initial_sound _ _).mpr fun x hx => ?_
  have hs : initial.students.find?
      (Student.namedInClass basicLatin (utf16 "sajal") (utf16 "IV")) = some sajal := rfl
  obtain rfl := Option.some.inj (hs.symm.trans hx)
  rfl

/-- In lower case only one of them does. -/
theorem class_filters_differ_sajal :
    ¬ ClassFiltersAgree basicLatin initial.students (utf16 "Sajal") (utf16 "iv") := by
  rintro ⟨inClass, hc, hiff, -⟩
  obtain rfl : [sajal] = inClass := Except.ok.inj hc
  obtain ⟨x, hx⟩ := hiff.mpr ⟨sajal, List.mem_singleton_self _, by decide⟩
  exact absurd hx nofun

end Example

end SpringDemo.Swagger

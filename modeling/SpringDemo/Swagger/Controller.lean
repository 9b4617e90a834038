import SpringDemo.Java.Util
import SpringDemo.Library.Exec
import Mathlib.Data.List.Nodup

/-! The student service: one list, which its requests search and change. -/
namespace SpringDemo.Swagger

open Java Lib.Exec

/-- The fields of a `Student`; one that was never set is null. -/
structure Fields where
  name : Option JString
  cls : Option JString
  country : Option JString
deriving DecidableEq

/-- A `Student` object. The class has no `equals`: a student equals itself and no other. -/
structure Student extends Fields where
  identity : Nat
deriving DecidableEq

/-- The fields that the constructor sets. -/
def newStudent (name cls country : JString) : Fields := ⟨some name, some cls, some country⟩

/-- The controller, with the number of students that have been created. -/
structure Swagger2RestController where
  students : List Student
  created : Nat
  identity_lt : ∀ x ∈ students, x.identity < created
  nodup : (students.map Student.identity).Nodup

namespace Swagger2RestController

/-- `students.add(student)` for a student just created. -/
def add (s : Swagger2RestController) (f : Fields) : Swagger2RestController where
  students := s.students ++ [⟨f, s.created⟩]
  created := s.created + 1
  identity_lt := by
    intro x hx
    rcases List.mem_append.mp hx with hx | hx
    · exact Nat.lt_succ_of_lt (s.identity_lt x hx)
    · rw [List.mem_singleton.mp hx]
      exact Nat.lt_succ_self _
  nodup := by
    rw [List.map_append, List.map_singleton]
    refine s.nodup.append (List.nodup_singleton _) ?_
    rw [List.disjoint_singleton]
    intro h
    obtain ⟨x, hx, he⟩ := List.mem_map.mp h
    exact Nat.ne_of_lt (s.identity_lt x hx) he

/-- `students.remove(o)`: the first element that equals `o`; none is null. -/
def remove (s : Swagger2RestController) (o : Option Student) : Swagger2RestController where
  students := s.students.eraseP fun x => o.any fun y => x.identity = y.identity
  created := s.created
  identity_lt := fun x hx => s.identity_lt x (List.eraseP_sublist.subset hx)
  nodup := (List.eraseP_sublist.map _).nodup s.nodup

def empty : Swagger2RestController := ⟨[], 0, by simp, by simp⟩

/-- The list as the controller's initializer fills it. -/
def initial : Swagger2RestController :=
  (((empty.add (newStudent (utf16 "Sajal") (utf16 "IV") (utf16 "India"))).add
    (newStudent (utf16 "Lokesh") (utf16 "V") (utf16 "India"))).add
    (newStudent (utf16 "Kajal") (utf16 "III") (utf16 "USA"))).add
    (newStudent (utf16 "Sukesh") (utf16 "VI") (utf16 "USA"))

end Swagger2RestController

/-- `field.equalsIgnoreCase(value)` for what a getter returned. -/
def fieldEqualsIgnoreCase (cm : CaseMapping) (field : Option JString) (value : JString) :
    Except Throwable Bool :=
  match field with
  | none => .error .nullPointerException
  | some f => .ok (equalsIgnoreCase cm f value)

/-- `field.equals(value)` for what a getter returned. -/
def fieldEquals (field : Option JString) (value : JString) : Except Throwable Bool :=
  match field with
  | none => .error .nullPointerException
  | some f => .ok (f == value)

variable (cm : CaseMapping) (students : List Student)

def getStudentByName (name : JString) : Except Throwable Student := do
  let found ← collect (fun x => fieldEqualsIgnoreCase cm x.name name) students
  getFirst found

def getStudentByCountry (country : JString) : Except Throwable (List Student) :=
  collect (fun x => fieldEqualsIgnoreCase cm x.country country) students

def getStudentByClass (cls : JString) : Except Throwable (List Student) :=
  collect (fun x => fieldEqualsIgnoreCase cm x.cls cls) students

def getStudentByNameAndCls (name cls : JString) : Except Throwable Student := do
  let found ← collect (fun x => do
    let sameCls ← fieldEquals x.cls cls
    if sameCls then fieldEqualsIgnoreCase cm x.name name else pure false) students
  getFirst found

/-- The loop of `delStudentByName`. -/
def findStudent (name : JString) : Except Throwable (Option Student) :=
  findFirst (fun x => fieldEqualsIgnoreCase cm x.name name) students

abbrev Handler (α : Type) := Block Throwable Swagger2RestController α

def addStudent (student : Fields) : Handler Bool := do
  modify fun s => s.add student
  pure true

def addStudentV2 (name cls country : JString) : Handler Bool :=
  addStudent (newStudent name cls country)

def delStudentByName (name : JString) : Handler (Option Student) := do
  let s ← get
  let tempStudent ← lift (findStudent cm s.students name)
  modify fun s => s.remove tempStudent
  pure tempStudent

/-- The requests that change the list, and the searches. The body of an `addStudent` is any object;
what it leaves out is not set. -/
inductive Request where
  | addStudent (student : Fields)
  | addStudentV2 (name cls country : JString)
  | delStudentByName (name : JString)
  | getStudents
  | getStudentByName (name : JString)
  | getStudentByCountry (country : JString)
  | getStudentByClass (cls : JString)
  | getStudentByNameAndCls (name cls : JString)
deriving DecidableEq

/-- What a request is answered with. -/
inductive Answer where
  | done (b : Bool)
  | student (x : Option Student)
  | students (xs : List Student)
deriving DecidableEq

/-- A search looks at the list and leaves it. -/
def search {α : Type} (find : List Student → Except Throwable α) (answer : α → Answer) :
    Handler Answer := do
  let s ← get
  let found ← lift (find s.students)
  pure (answer found)

def serve : Request → Handler Answer
  | .addStudent student => .done <$> addStudent student
  | .addStudentV2 name cls country => .done <$> addStudentV2 name cls country
  | .delStudentByName name => .student <$> delStudentByName cm name
  | .getStudents => search (fun students => .ok students) .students
  | .getStudentByName name =>
    search (fun students => getStudentByName cm students name) fun x => .student (some x)
  | .getStudentByCountry country =>
    search (fun students => getStudentByCountry cm students country) .students
  | .getStudentByClass cls =>
    search (fun students => getStudentByClass cm students cls) .students
  | .getStudentByNameAndCls name cls =>
    search (fun students => getStudentByNameAndCls cm students name cls) fun x =>
      .student (some x)

/-- A request with what it was answered. -/
structure Exchange where
  request : Request
  answer : Except Throwable Answer

/-- One request after the other. -/
inductive Step : Swagger2RestController → Exchange → Swagger2RestController → Prop
  | serve (s : Swagger2RestController) (r : Request) :
      Step s ⟨r, outcome (serve cm r s)⟩ (final (serve cm r s))

variable {cm} {s t : Swagger2RestController} {e : Exchange} {name : JString}

@[simp] theorem remove_none : s.remove none = s := by
  cases s
  simp [Swagger2RestController.remove, List.eraseP_of_forall_not]

/-- The student that an addition adds. -/
def Request.added? : Request → Option Fields
  | .addStudent student => some student
  | .addStudentV2 name cls country => some (newStudent name cls country)
  | _ => none

def Request.deletes? : Request → Option JString
  | .delStudentByName name => some name
  | _ => none

theorem search_final {α : Type} (find : List Student → Except Throwable α) (answer : α → Answer)
    (s : Swagger2RestController) : final (search find answer s) = s := by
  cases h : find s.students <;> simp [search, bind_run, map_run, h]

theorem delStudentByName_run (cm : CaseMapping) (name : JString) (s : Swagger2RestController) :
    delStudentByName cm name s = match findStudent cm s.students name with
      | .ok o => .ok o (s.remove o)
      | .error err => .error err s := by
  cases h : findStudent cm s.students name <;> simp [delStudentByName, bind_run, map_run, h]

/-- Everything that a request can do: add a student, delete one that its search found, or nothing,
because it throws or only searches. -/
theorem step_cases (h : Step cm s e t) :
    (∃ f, e.request.added? = some f ∧ e.answer = .ok (.done true) ∧ t = s.add f) ∨
    (∃ name o, e.request = .delStudentByName name ∧ findStudent cm s.students name = .ok o ∧
      e.answer = .ok (.student o) ∧ t = s.remove o) ∨
    (∃ name err, e.request = .delStudentByName name ∧
      findStudent cm s.students name = .error err ∧ e.answer = .error err ∧ t = s) ∨
    (e.request.added? = none ∧ e.request.deletes? = none ∧ t = s) := by
  cases h with
  | serve r =>
    cases r with
    | addStudent f => exact .inl ⟨f, rfl, rfl, rfl⟩
    | addStudentV2 name cls country => exact .inl ⟨_, rfl, rfl, rfl⟩
    | delStudentByName name =>
      have hr := delStudentByName_run cm name s
      cases hf : findStudent cm s.students name with
      | ok o =>
        rw [hf] at hr
        exact .inr (.inl ⟨name, o, rfl, hf, by simp [serve, map_run, hr],
          by simp [serve, map_run, hr]⟩)
      | error err =>
        rw [hf] at hr
        exact .inr (.inr (.inl ⟨name, err, rfl, hf, by simp [serve, map_run, hr],
          by simp [serve, map_run, hr]⟩))
    | getStudents => exact .inr (.inr (.inr ⟨rfl, rfl, search_final ..⟩))
    | getStudentByName name =>
      exact .inr (.inr (.inr ⟨rfl, rfl, by simp [serve, search_final]⟩))
    | getStudentByCountry country => exact .inr (.inr (.inr ⟨rfl, rfl, search_final ..⟩))
    | getStudentByClass cls => exact .inr (.inr (.inr ⟨rfl, rfl, search_final ..⟩))
    | getStudentByNameAndCls name cls =>
      exact .inr (.inr (.inr ⟨rfl, rfl, by simp [serve, search_final]⟩))

end SpringDemo.Swagger

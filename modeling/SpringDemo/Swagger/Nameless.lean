import SpringDemo.Swagger.Accounts

/-! A stored student without a name: what the requests after it can still do. -/
namespace SpringDemo.Swagger

open Java Lib.Exec Lib.Runs Swagger2RestController

section Throws

variable {α : Type} {p : α → Except Throwable Bool} {e : Throwable} {xs ys : List α} {x : α}

/-- A search ends before the element that makes it throw, or it throws. -/
theorem findFirst_of_throws (hx : p x = .error e) (hp : ∀ y e', p y = .error e' → e' = e) :
    (∃ y ∈ xs, findFirst p (xs ++ x :: ys) = .ok (some y)) ∨
      findFirst p (xs ++ x :: ys) = .error e := by
  induction xs with
  | nil =>
    right
    simp [findFirst, hx, bind, Except.bind]
  | cons y xs ih =>
    cases hy : p y with
    | error e' =>
      right
      simp [findFirst, hy, hp y e' hy, bind, Except.bind]
    | ok b =>
      cases b with
      | true =>
        refine .inl ⟨y, List.mem_cons_self, ?_⟩
        simp [findFirst, hy, bind, Except.bind, pure, Except.pure]
      | false =>
        have hrest : findFirst p (y :: xs ++ x :: ys) = findFirst p (xs ++ x :: ys) := by
          simp [findFirst, hy, bind, Except.bind]
        rw [hrest]
        rcases ih with ⟨z, hz, hfound⟩ | hthrows
        · exact .inl ⟨z, List.mem_cons_of_mem _ hz, hfound⟩
        · exact .inr hthrows

/-- A filter asks every element. -/
theorem collect_of_throws (hx : p x = .error e) (hp : ∀ y e', p y = .error e' → e' = e) :
    collect p (xs ++ x :: ys) = .error e := by
  induction xs with
  | nil => simp [collect, hx, bind, Except.bind]
  | cons y xs ih =>
    rw [List.cons_append, collect, ih]
    cases hy : p y with
    | error e' => simp [hp y e' hy, bind, Except.bind]
    | ok b => rfl

end Throws

variable {cm : CaseMapping} {s t : Swagger2RestController} {e : Exchange} {es : List Exchange}
  {x : Student} {before after : List Student}

theorem fieldEqualsIgnoreCase_error {field : Option JString} {value : JString} {err : Throwable}
    (h : fieldEqualsIgnoreCase cm field value = .error err) : err = .nullPointerException := by
  cases field with
  | none => exact (Except.error.inj h).symm
  | some f => cases h

/-- A deletion comes to a student ahead of the nameless one, or throws at this one. -/
theorem findStudent_nameless (cm : CaseMapping) (before after : List Student) (hx : x.name = none)
    (name : JString) :
    (∃ y ∈ before, findStudent cm (before ++ x :: after) name = .ok (some y)) ∨
      findStudent cm (before ++ x :: after) name = .error .nullPointerException :=
  findFirst_of_throws (by rw [hx, fieldEqualsIgnoreCase]) fun _ _ => fieldEqualsIgnoreCase_error

theorem getStudentByName_nameless (hx : x.name = none) (name : JString) :
    getStudentByName cm (before ++ x :: after) name = .error .nullPointerException := by
  rw [getStudentByName, collect_of_throws (by rw [hx, fieldEqualsIgnoreCase])
    fun _ _ => fieldEqualsIgnoreCase_error]
  rfl

/-- The nameless student has kept its place and everyone behind it; who was added has come behind,
and who was deleted stood ahead. -/
structure Keeps (before : List Student) (x : Student) (after : List Student) (es : List Exchange)
    (before' added : List Student) (s : Swagger2RestController) : Prop where
  students : s.students = before' ++ x :: (after ++ added)
  sublist : before'.Sublist before
  added : added.map Student.toFields = additions es
  deleted : before'.length + (deletions es).length = before.length

variable {before' added : List Student}

theorem keeps_same (hi : Keeps before x after es before' added s) (ha : e.request.added? = none)
    (hd : e.deleted? = none) : Keeps before x after (es ++ [e]) before' added s where
  students := hi.students
  sublist := hi.sublist
  added := by simpa [additions_concat, ha] using hi.added
  deleted := by simpa [deletions_concat, hd] using hi.deleted

theorem keeps_delete {y : Student} (hi : Keeps before x after es before' added s)
    (hy : y ∈ before') {name : JString} (hr : e.request = .delStudentByName name)
    (he : e.answer = .ok (.student (some y))) :
    Keeps before x after (es ++ [e]) (before'.eraseP fun z => z.identity = y.identity) added
      (s.remove (some y)) where
  students := by
    have herase := List.eraseP_append_left (p := fun z : Student => z.identity = y.identity)
      (decide_eq_true rfl) (x :: (after ++ added)) hy
    rw [← hi.students] at herase
    exact herase
  sublist := List.eraseP_sublist.trans hi.sublist
  added := by simpa [additions_concat, hr, Request.added?] using hi.added
  deleted := by
    have hlen := List.length_eraseP_add_one (p := fun z : Student => z.identity = y.identity) hy
      (decide_eq_true rfl)
    have hd : e.deleted? = some y := by rw [Exchange.deleted?, hr, he]
    rw [deletions_concat, hd, ← hi.deleted, List.length_append, Option.toList_some,
      List.length_singleton]
    omega

theorem keeps_step (hx : x.name = none) (hi : Keeps before x after es before' added s)
    (h : Step cm s e t) :
    ∃ before'' added', Keeps before x after (es ++ [e]) before'' added' t := by
  rcases step_cases h with ⟨f, ha, -, rfl⟩ | ⟨name, o, hr, hf, he, rfl⟩ |
    ⟨name, err, hr, -, he, rfl⟩ | ⟨ha, hd, rfl⟩
  · have hd := deleted?_of_not_deletes (deletes?_of_adds ha)
    refine ⟨before', added ++ [⟨f, s.created⟩], ?_, hi.sublist, ?_, ?_⟩
    · simp [Swagger2RestController.add, hi.students]
    · simp [additions_concat, ha, hi.added]
    · simpa [deletions_concat, hd] using hi.deleted
  · rw [hi.students] at hf
    rcases findStudent_nameless cm before' (after ++ added) hx name with ⟨y, hy, hok⟩ | herr
    · obtain rfl : some y = o := Except.ok.inj (hok.symm.trans hf)
      exact ⟨_, added, keeps_delete hi hy hr he⟩
    · rw [herr] at hf
      cases hf
  · exact ⟨before', added, keeps_same hi (by rw [hr]; rfl) (by rw [Exchange.deleted?, hr, he])⟩
  · exact ⟨before', added, keeps_same hi ha (deleted?_of_not_deletes hd)⟩

/-- Once a student without a name is stored, it stays for good, and so does everyone behind it and
everyone who is added later; the search by name always throws, and a deletion throws or takes one of
those ahead, of whom there are ever fewer. -/
theorem nameless_stays (hx : x.name = none) (hs : s.students = before ++ x :: after)
    (h : Run (Step cm) s es t) : ∃ before' added, t.students = before' ++ x :: (after ++ added) ∧
      before'.Sublist before ∧ added.map Student.toFields = additions es ∧
      before'.length + (deletions es).length = before.length ∧
      (∀ name, getStudentByName cm t.students name = .error .nullPointerException) ∧
      ∀ name, (∃ y ∈ before', delStudentByName cm name t = .ok (some y) (t.remove (some y))) ∨
        delStudentByName cm name t = .error .nullPointerException t := by
  have h₀ : Keeps before x after [] before [] s := ⟨by simpa using hs, .refl _, rfl, rfl⟩
  obtain ⟨before', added, hk⟩ := h.history
    (R := fun es t => ∃ before' added, Keeps before x after es before' added t)
    (fun _ _ _ _ hs ⟨_, _, hi⟩ => keeps_step hx hi hs) ⟨before, [], h₀⟩
  refine ⟨before', added, hk.students, hk.sublist, hk.added, hk.deleted, fun name => ?_,
    fun name => ?_⟩
  · rw [hk.students]
    exact getStudentByName_nameless hx name
  · rw [delStudentByName_run, hk.students]
    rcases findStudent_nameless cm before' (after ++ added) hx name with ⟨y, hy, hok⟩ | herr
    · rw [hok]
      exact .inl ⟨y, hy, rfl⟩
    · rw [herr]
      exact .inr rfl

namespace Example

open CaseMapping

/-- A student of whom only the class is known. -/
def unknown : Fields := ⟨none, some (utf16 "V"), none⟩

/-- Lokesh stands ahead of the unknown student, and can still be deleted. -/
theorem nameless_stays_unknown : ∃ es t, Run (Step basicLatin) (initial.add unknown) es t ∧
    ∃ before added, t.students = before ++ ⟨unknown, 4⟩ :: ([] ++ added) ∧
      before.length + 1 = 4 := by
  have h := Run.single
    (.serve (initial.add unknown) (.delStudentByName (utf16 "lokesh")) : Step basicLatin _ _ _)
  have hs : (initial.add unknown).students = initial.students ++ ⟨unknown, 4⟩ :: [] := rfl
  obtain ⟨before, added, ht, -, -, hd, -⟩ := nameless_stays rfl hs h
  exact ⟨_, _, h, before, added, ht, hd⟩

end Example

end SpringDemo.Swagger

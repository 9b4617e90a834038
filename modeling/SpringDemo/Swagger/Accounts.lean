import SpringDemo.Library.Runs
import SpringDemo.Swagger.Searches
import Mathlib.Data.List.Count

/-! The student list after any run of requests, against what was added and what was deleted. -/
namespace SpringDemo.Swagger

open Java Lib.Exec Lib.Runs Swagger2RestController

variable {cm : CaseMapping} {s t : Swagger2RestController} {e : Exchange} {es : List Exchange}
  {x : Student} {name : JString}

/-- An addition brings all three fields. -/
def Request.Complete (r : Request) : Prop := ∀ f ∈ r.added?, f.Complete

/-- The student that a deletion returned. -/
def Exchange.deleted? (e : Exchange) : Option Student :=
  match e.request, e.answer with
  | .delStudentByName _, .ok (.student o) => o
  | _, _ => none

/-- A deletion of the name, in whatever case, that returned a student. -/
def Exchange.deletes (cm : CaseMapping) (name : JString) (e : Exchange) : Bool :=
  match e.request with
  | .delStudentByName n => equalsIgnoreCase cm n name && e.deleted?.isSome
  | _ => false

/-- The fields of the students that the requests have added. -/
def additions (es : List Exchange) : List Fields := es.filterMap fun e => e.request.added?

/-- The students that the deletions have returned. -/
def deletions (es : List Exchange) : List Student := es.filterMap Exchange.deleted?

/-- All students that there have been, in the order in which they were added. -/
def everAdded (es : List Exchange) : List Student :=
  (initial.students.map Student.toFields ++ additions es).mapIdx fun i f => ⟨f, i⟩

/-- Those of them that no deletion has returned. -/
def survivors (es : List Exchange) : List Student :=
  (everAdded es).filter fun x => x ∉ deletions es

theorem additions_concat (es : List Exchange) (e : Exchange) :
    additions (es ++ [e]) = additions es ++ e.request.added?.toList := by
  cases h : e.request.added? <;> simp [additions, h]

theorem deletions_concat (es : List Exchange) (e : Exchange) :
    deletions (es ++ [e]) = deletions es ++ e.deleted?.toList := by
  cases h : e.deleted? <;> simp [deletions, h]

theorem everAdded_of_adds (es : List Exchange) {f : Fields} (h : e.request.added? = some f) :
    everAdded (es ++ [e]) = everAdded es ++ [⟨f, (everAdded es).length⟩] := by
  rw [everAdded, additions_concat, h, Option.toList_some, ← List.append_assoc, List.mapIdx_concat]
  simp [everAdded]

theorem everAdded_of_not_adds (es : List Exchange) (h : e.request.added? = none) :
    everAdded (es ++ [e]) = everAdded es := by
  rw [everAdded, additions_concat, h, Option.toList_none, List.append_nil, everAdded]

/-- The list without the student, which stood behind students of other names. -/
def RemovedFrom (cm : CaseMapping) (name : JString) (x : Student) (xs ys : List Student) : Prop :=
  ∃ before after, xs = before ++ x :: after ∧ (∀ y ∈ before, y.named cm name = false) ∧
    ys = before ++ after

/-- Elements with distinct keys: erasing by the key of one takes out that one. -/
theorem eraseP_key {α κ : Type} [DecidableEq κ] {key : α → κ} {before after : List α} {a : α}
    (h : ((before ++ a :: after).map key).Nodup) :
    (before ++ a :: after).eraseP (fun b => key b = key a) = before ++ after := by
  have hb : ∀ b ∈ before, ¬ decide (key b = key a) = true := by
    intro b hb he
    rw [List.map_append, List.nodup_append] at h
    exact h.2.2 _ (List.mem_map_of_mem hb) (key a) (by simp) (of_decide_eq_true he)
  rw [List.eraseP_append_right _ hb, List.eraseP_cons_of_pos (by simp)]

theorem remove_of_split {before after : List Student} (h : s.students = before ++ x :: after) :
    (s.remove (some x)).students = before ++ after := by
  have hn := s.nodup
  rw [h] at hn
  have he := eraseP_key hn
  rw [← h] at he
  exact he

/-- What was removed is told apart by its identity. -/
theorem remove_eq_filter (hx : x ∈ s.students) :
    (s.remove (some x)).students = s.students.filter fun y => y ≠ x := by
  obtain ⟨before, after, h⟩ := List.append_of_mem hx
  have hn : (before ++ x :: after).Nodup := h ▸ (s.nodup.of_map _)
  rw [remove_of_split h, h]
  rw [List.nodup_append, List.nodup_cons] at hn
  obtain ⟨-, ⟨ha, -⟩, hb⟩ := hn
  have hbefore : before.filter (fun y => y ≠ x) = before :=
    List.filter_eq_self.mpr fun y hy => by simpa using hb y hy x (by simp)
  have hafter : after.filter (fun y => y ≠ x) = after :=
    List.filter_eq_self.mpr fun y hy => by simpa using fun he : y = x => ha (he ▸ hy)
  simp only [List.filter_append, List.filter_cons, hbefore, hafter]
  simp

/-- A deletion takes the first student of the name, the one that the search by name returns, and
returns it. Where there is none it returns null and takes nothing. -/
def DeletesExactly (cm : CaseMapping) (name : JString) (s : Swagger2RestController) : Prop :=
  (∃ x t, delStudentByName cm name s = .ok (some x) t ∧ x.named cm name = true ∧
    getStudentByName cm s.students name = .ok x ∧ RemovedFrom cm name x s.students t.students) ∨
  (delStudentByName cm name s = .ok none s ∧ ∀ x ∈ s.students, x.named cm name = false)

theorem removed_of_find? (h : s.students.find? (Student.named cm name) = some x) :
    RemovedFrom cm name x s.students (s.remove (some x)).students := by
  obtain ⟨-, before, after, hs, hb⟩ := List.find?_eq_some_iff_append.mp h
  exact ⟨before, after, hs, fun y hy => by simpa using hb y hy, remove_of_split hs⟩

theorem deletes_exactly (cm : CaseMapping) (hs : Sound s.students) (name : JString) :
    DeletesExactly cm name s := by
  have hd := delStudentByName_run cm name s
  have hg : getStudentByName cm s.students name = _ := getStudentByName_ok hs name
  rw [findStudent_ok hs] at hd
  cases hf : s.students.find? (Student.named cm name) with
  | none =>
    rw [hf] at hd
    refine .inr ⟨by simpa using hd, fun x hx => ?_⟩
    simpa using List.find?_eq_none.mp hf x hx
  | some x =>
    rw [hf] at hd hg
    exact .inl ⟨x, _, hd, List.find?_some hf, hg, removed_of_find? hf⟩

/-- What a run leaves, in terms of its requests and answers. -/
structure Accounts (cm : CaseMapping) (es : List Exchange) (s : Swagger2RestController) : Prop where
  sound : Sound s.students
  created : s.created = (everAdded es).length
  students : s.students = survivors es
  deleted_lt : ∀ x ∈ deletions es, x.identity < s.created
  count : ∀ name, s.students.countP (Student.named cm name) + es.countP (Exchange.deletes cm name) =
    (everAdded es).countP (Student.named cm name)

theorem deleted?_of_not_deletes (h : e.request.deletes? = none) : e.deleted? = none := by
  obtain ⟨r, a⟩ := e
  cases r <;> simp_all [Request.deletes?, Exchange.deleted?]

theorem deletes?_of_adds {f : Fields} (h : e.request.added? = some f) :
    e.request.deletes? = none := by
  obtain ⟨r, a⟩ := e
  cases r <;> simp_all [Request.deletes?, Request.added?]

theorem deletes_of_deleted? (h : e.deleted? = none) (name : JString) :
    e.deletes cm name = false := by
  obtain ⟨r, a⟩ := e
  cases r <;> simp_all [Exchange.deletes]

theorem accounts_initial : Accounts cm [] initial where
  sound := initial_sound
  created := rfl
  students := rfl
  deleted_lt := by simp [deletions]
  count := fun name => rfl

/-- An exchange that neither adds nor returns a deleted student. -/
theorem accounts_same (h : Accounts cm es s) (ha : e.request.added? = none)
    (hd : e.deleted? = none) : Accounts cm (es ++ [e]) s := by
  have hdel : deletions (es ++ [e]) = deletions es := by simp [deletions_concat, hd]
  have hadd : everAdded (es ++ [e]) = everAdded es := everAdded_of_not_adds es ha
  refine ⟨h.sound, ?_, ?_, ?_, fun name => ?_⟩
  · rw [hadd, h.created]
  · rw [survivors, hadd, hdel, h.students, survivors]
  · rw [hdel]
    exact h.deleted_lt
  · rw [hadd, List.countP_append, ← h.count name]
    simp [deletes_of_deleted? hd]

theorem accounts_add (h : Accounts cm es s) {f : Fields} (hf : f.Complete)
    (ha : e.request.added? = some f) : Accounts cm (es ++ [e]) (s.add f) := by
  have hd := deleted?_of_not_deletes (deletes?_of_adds ha)
  have hdel : deletions (es ++ [e]) = deletions es := by simp [deletions_concat, hd]
  have hadd := everAdded_of_adds es ha
  rw [← h.created] at hadd
  have hnew : (⟨f, s.created⟩ : Student) ∉ deletions es := fun hm =>
    Nat.lt_irrefl _ (h.deleted_lt _ hm)
  refine ⟨?_, ?_, ?_, ?_, fun name => ?_⟩
  · intro x hx
    rcases List.mem_append.mp hx with hx | hx
    · exact h.sound x hx
    · rw [List.mem_singleton.mp hx]
      exact hf
  · rw [hadd, List.length_append, ← h.created]
    rfl
  · rw [survivors, hadd, hdel, List.filter_append, ← survivors, ← h.students]
    simp [add, hnew]
  · rw [hdel]
    exact fun x hx => Nat.lt_succ_of_lt (h.deleted_lt x hx)
  · rw [hadd, List.countP_append, List.countP_append, ← h.count name, add, List.countP_append]
    simp [deletes_of_deleted? hd]
    omega

/-- The two names of a deletion and of an account are compared with the stored one alike. -/
theorem named_congr {n : JString} (h : x.named cm n = true) (name : JString) :
    x.named cm name = equalsIgnoreCase cm n name := by
  obtain ⟨⟨_ | f, cls, country⟩, i⟩ := x
  · cases h
  · exact equalsIgnoreCase_congr h name

theorem accounts_delete (h : Accounts cm es s) {n : JString}
    (hr : e.request = .delStudentByName n) (he : e.answer = .ok (.student (some x)))
    (hf : s.students.find? (Student.named cm n) = some x) :
    Accounts cm (es ++ [e]) (s.remove (some x)) := by
  obtain ⟨r, a⟩ := e
  obtain rfl : r = .delStudentByName n := hr
  obtain rfl : a = .ok (.student (some x)) := he
  have hx := List.mem_of_find?_eq_some hf
  have hn := List.find?_some hf
  have hadd := everAdded_of_not_adds es
    (e := ⟨.delStudentByName n, .ok (.student (some x))⟩) rfl
  have hdel : deletions (es ++ [⟨.delStudentByName n, .ok (.student (some x))⟩]) =
      deletions es ++ [x] := deletions_concat ..
  refine ⟨?_, ?_, ?_, ?_, fun name => ?_⟩
  · intro y hy
    exact h.sound y (List.eraseP_sublist.subset hy)
  · rw [hadd, ← h.created]
    rfl
  · rw [remove_eq_filter hx, survivors, hadd, hdel, h.students, survivors, List.filter_filter]
    refine List.filter_congr fun y _ => ?_
    simp [List.mem_append, and_comm]
  · rw [hdel]
    intro y hy
    rcases List.mem_append.mp hy with hy | hy
    · exact h.deleted_lt y hy
    · rw [List.mem_singleton.mp hy]
      exact s.identity_lt x hx
  · -- the student stood once in the list, and counts for a name as the deletion does
    obtain ⟨before, after, hs, -, ht⟩ := removed_of_find? hf
    rw [hadd, ← h.count name, ht, hs]
    simp only [List.countP_append, List.countP_cons, List.countP_nil, Exchange.deletes,
      Exchange.deleted?, Option.isSome_some, Bool.and_true, named_congr hn name]
    omega

theorem accounts_step (h : Accounts cm es s) (hs : Step cm s e t) (hc : e.request.Complete) :
    Accounts cm (es ++ [e]) t := by
  rcases step_cases hs with ⟨f, ha, -, rfl⟩ | ⟨n, o, hr, hf, he, rfl⟩ | ⟨n, err, hr, hf, -, rfl⟩ |
    ⟨ha, hd, rfl⟩
  · exact accounts_add h (hc f ha) ha
  · rw [findStudent_ok h.sound, Except.ok.injEq] at hf
    cases o with
    | none =>
      rw [remove_none]
      exact accounts_same h (by rw [hr]; rfl) (by rw [Exchange.deleted?, hr, he])
    | some x => exact accounts_delete h hr he hf
  · rw [findStudent_ok h.sound] at hf
    cases hf
  · exact accounts_same h ha (deleted?_of_not_deletes hd)

theorem accounts_run (h : Run (Step cm) initial es s) (hc : ∀ e ∈ es, e.request.Complete) :
    Accounts cm es s := by
  refine h.history (R := fun es s => (∀ e ∈ es, e.request.Complete) → Accounts cm es s) ?_
    (fun _ => accounts_initial) hc
  intro es s e t hs ih hc
  exact accounts_step (ih fun e he => hc e (List.mem_append_left _ he)) hs (hc e (by simp))

/-- An addition of the name, in whatever case. -/
def Exchange.adds (cm : CaseMapping) (name : JString) (e : Exchange) : Bool :=
  e.request.added?.any fun f => isIgnoringCase cm f.name name

theorem map_toFields_everAdded (es : List Exchange) : (everAdded es).map Student.toFields =
    initial.students.map Student.toFields ++ additions es := by
  simp [everAdded, List.mapIdx_eq_zipIdx_map, Function.comp_def]

theorem countP_everAdded (es : List Exchange) (name : JString) :
    (everAdded es).countP (Student.named cm name) =
      initial.students.countP (Student.named cm name) + es.countP (Exchange.adds cm name) := by
  have hfields : ∀ xs : List Student, xs.countP (Student.named cm name) =
      (xs.map Student.toFields).countP fun f => isIgnoringCase cm f.name name := by
    intro xs
    rw [List.countP_map]
    rfl
  rw [hfields, hfields, map_toFields_everAdded, List.countP_append, additions,
    List.countP_filterMap]
  congr 1
  refine List.countP_congr fun e _ => ?_
  cases h : e.request.added? <;> simp [Exchange.adds, h]

/-- The list keeps exact accounts: of every name as many students are stored as there were at
first, and were added, less those that deletions returned; a deletion takes exactly the student it
returns; those left stand in the order of their addition, and the searches by country and by class
return those of them that match. -/
theorem store_accounts (h : Run (Step cm) initial es s) (hc : ∀ e ∈ es, e.request.Complete) :
    (∀ name, s.students.countP (Student.named cm name) + es.countP (Exchange.deletes cm name) =
      initial.students.countP (Student.named cm name) + es.countP (Exchange.adds cm name)) ∧
    (∀ name, DeletesExactly cm name s) ∧
    s.students = survivors es ∧
    (∀ country, getStudentByCountry cm s.students country =
      .ok ((survivors es).filter (Student.inCountry cm country))) ∧
    ∀ cls, getStudentByClass cm s.students cls =
      .ok ((survivors es).filter (Student.inClass cm cls)) := by
  have ha := accounts_run h hc
  refine ⟨fun name => ?_, deletes_exactly cm ha.sound, ha.students, fun country => ?_,
    fun cls => ?_⟩
  · rw [← countP_everAdded, ha.count]
  · rw [getStudentByCountry_ok ha.sound, ha.students]
  · rw [getStudentByClass_ok ha.sound, ha.students]

/-- No search by country, search by class or deletion throws. -/
structure Answers (cm : CaseMapping) (s : Swagger2RestController) : Prop where
  byCountry : ∀ country, ∃ xs, getStudentByCountry cm s.students country = .ok xs
  byClass : ∀ cls, ∃ xs, getStudentByClass cm s.students cls = .ok xs
  deletion : ∀ name, ∃ o t, delStudentByName cm name s = .ok o t

theorem answers_of_sound (h : Sound s.students) : Answers cm s where
  byCountry country := ⟨_, getStudentByCountry_ok h country⟩
  byClass cls := ⟨_, getStudentByClass_ok h cls⟩
  deletion name := by
    rcases deletes_exactly cm h name with ⟨x, t, hd, -⟩ | ⟨hd, -⟩
    · exact ⟨_, _, hd⟩
    · exact ⟨_, _, hd⟩

theorem exists_longer (xs : List Student) :
    ∃ n, ∀ x ∈ xs, ∀ f ∈ x.name, f.length < n := by
  induction xs with
  | nil => exact ⟨0, by simp⟩
  | cons x xs ih =>
    obtain ⟨n, hn⟩ := ih
    refine ⟨n + (x.name.elim 0 List.length) + 1, fun y hy f hf => ?_⟩
    rcases List.mem_cons.mp hy with rfl | hy
    · rw [Option.mem_def] at hf
      simp only [hf, Option.elim_some]
      omega
    · have := hn y hy f hf
      omega

/-- There is always a name that no stored student has. -/
theorem exists_unnamed (cm : CaseMapping) (xs : List Student) :
    ∃ name, ∀ x ∈ xs, x.named cm name = false := by
  obtain ⟨n, hn⟩ := exists_longer xs
  refine ⟨List.replicate n 0, fun x hx => ?_⟩
  rw [Student.named, isIgnoringCase, Option.any_eq_false]
  intro f hf
  have hlt := hn x hx f hf
  refine Bool.eq_false_iff.mpr fun he => ?_
  have hl := length_eq_of_equalsIgnoreCase he
  rw [List.length_replicate] at hl
  omega

theorem sound_of_answers (h : Answers cm s) : Sound s.students := by
  intro x hx
  obtain ⟨xs, hxs⟩ := h.byCountry []
  obtain ⟨ys, hys⟩ := h.byClass []
  obtain ⟨_, hcountry⟩ := of_collect_ok hxs x hx
  obtain ⟨_, hcls⟩ := of_collect_ok hys x hx
  obtain ⟨name, hn⟩ := exists_unnamed cm s.students
  obtain ⟨o, t, ht⟩ := h.deletion name
  rw [delStudentByName_run] at ht
  obtain ⟨o', ho⟩ : ∃ o', findStudent cm s.students name = .ok o' := by
    cases hf : findStudent cm s.students name with
    | ok o' => exact ⟨o', rfl⟩
    | error err => simp [hf] at ht
  have hnot : ∀ y ∈ s.students, fieldEqualsIgnoreCase cm y.name name ≠ .ok true := by
    intro y hy he
    have hny := hn y hy
    rw [fieldEqualsIgnoreCase_ok (isSome_of_fieldEqualsIgnoreCase he)] at he
    exact absurd (Except.ok.inj he) (by simpa [Student.named] using hny)
  obtain ⟨_, hname⟩ := of_findFirst_ok ho hnot x hx
  exact ⟨isSome_of_fieldEqualsIgnoreCase hname, isSome_of_fieldEqualsIgnoreCase hcls,
    isSome_of_fieldEqualsIgnoreCase hcountry⟩

/-- One missing field of one student is enough for some request to throw. -/
theorem answers_iff_sound : Answers cm s ↔ Sound s.students :=
  ⟨sound_of_answers, answers_of_sound⟩

theorem complete_of_body {r : Request} (h : ∀ f, r = .addStudent f → f.Complete) : r.Complete := by
  intro f hf
  cases r with
  | addStudent g =>
    obtain rfl : g = f := Option.some.inj hf
    exact h g rfl
  | addStudentV2 name cls country =>
    obtain rfl : newStudent name cls country = f := Option.some.inj hf
    exact newStudent_complete name cls country
  | _ => cases hf

/-- No request poisons the list exactly when no body of an `addStudent` leaves out a field: then,
and only then, every state of the run has all fields of all students and answers everything. -/
theorem store_healthy_iff (h : Run (Step cm) initial es s) :
    (∀ pre post t, es = pre ++ post → Run (Step cm) initial pre t →
        Sound t.students ∧ Answers cm t) ↔
      ∀ e ∈ es, ∀ f, e.request = .addStudent f → f.Complete := by
  constructor
  · rintro hall e he f hf
    obtain ⟨pre, post, rfl⟩ := List.append_of_mem he
    rw [List.append_cons] at h
    obtain ⟨t, ht, -⟩ := h.split
    obtain ⟨u, -, hs⟩ := ht.of_concat
    have hsound := (hall _ _ t (List.append_cons ..) ht).1
    obtain ⟨r, a⟩ := e
    obtain rfl : r = .addStudent f := hf
    cases hs
    exact hsound ⟨f, u.created⟩ (List.mem_append_right _ (List.mem_singleton_self _))
  · rintro hc pre post t rfl ht
    have hsound := (accounts_run ht fun e he =>
      complete_of_body (hc e (List.mem_append_left _ he))).sound
    exact ⟨hsound, answers_iff_sound.mpr hsound⟩

namespace Example

open CaseMapping

def anna : Student := ⟨newStudent (utf16 "Anna") (utf16 "V") (utf16 "Italy"), 4⟩

/-- Anna is added, and deleted again by her name in other letters. -/
def passing : List Exchange :=
  [⟨.addStudent anna.toFields, .ok (.done true)⟩,
    ⟨.delStudentByName (utf16 "ANNA"), .ok (.student (some anna))⟩]

def passed : Swagger2RestController := (initial.add anna.toFields).remove (some anna)

theorem passing_run : Run (Step basicLatin) initial passing passed :=
  (Run.single (.serve initial (.addStudent anna.toFields))).next
    (.serve (initial.add anna.toFields) (.delStudentByName (utf16 "ANNA")))

theorem passing_complete : ∀ e ∈ passing, e.request.Complete := by
  have h : anna.Complete := newStudent_complete ..
  simp [passing, Request.Complete, Request.added?, h]

theorem store_accounts_passed : passed.students = survivors passing ∧
    passed.students.countP (Student.named basicLatin (utf16 "anna")) + 1 = 0 + 1 ∧
    DeletesExactly basicLatin (utf16 "anna") passed := by
  obtain ⟨hcount, hdel, hsurv, -⟩ := store_accounts passing_run passing_complete
  exact ⟨hsurv, hcount (utf16 "anna"), hdel (utf16 "anna")⟩

theorem store_healthy_passed : Sound passed.students ∧ Answers basicLatin passed := by
  refine (store_healthy_iff passing_run).mpr ?_ _ [] _ (List.append_nil _).symm passing_run
  rintro e he f hf
  exact passing_complete e he f (by rw [hf]; rfl)

/-- The body of the request has a name and a class only. -/
def stateless : Fields := ⟨some (utf16 "Nemo"), some (utf16 "V"), none⟩

/-- After one such request the search by country throws for a country that has nothing to do
with it. -/
theorem store_poisoned : ∃ es s, Run (Step basicLatin) initial es s ∧ ¬ Sound s.students ∧
    getStudentByCountry basicLatin s.students (utf16 "India") = .error .nullPointerException := by
  refine ⟨_, _, Run.single (.serve initial (.addStudent stateless)), fun h => ?_, rfl⟩
  have hc := (h ⟨stateless, 4⟩ (List.mem_append_right _ (List.mem_singleton_self _))).country
  cases hc

end Example

end SpringDemo.Swagger

import Mathlib.Data.List.Dedup
import SpringDemo.Library.Slots
import SpringDemo.Swagger.Accounts

/-! Requests at the same time. Each call of a method of the list or of its iterator is a step, so
that a deletion takes several. -/
namespace SpringDemo.Swagger

open Java Lib.Exec Lib.Runs Lib.Slots Swagger2RestController

/-- How far a request has come. -/
inductive Progress where
  | received
  /-- before `hasNext` of the iterator with these fields -/
  | looping (cursor expectedModCount : Nat)
  /-- before `next` -/
  | advancing (cursor expectedModCount : Nat)
  /-- before `students.remove(tempStudent)` -/
  | removing (tempStudent : Option Student)
  | returned (answer : Except Throwable Answer)

/-- The list with its count of modifications, and the requests as they came. -/
structure Serving where
  controller : Swagger2RestController
  modCount : Nat
  requests : List (Request × Progress)
  /-- the students that were ever in the list -/
  added : List Student

namespace Serving

def concurrentModificationException : Throwable :=
  ⟨.runtime, utf16 "java.util.ConcurrentModificationException", none⟩

def noSuchElementException : Throwable :=
  ⟨.runtime, utf16 "java.util.NoSuchElementException", none⟩

/-- `iterator.next()` and the comparison with its name. -/
def next (cm : CaseMapping) (s : Serving) (name : JString) (cursor expectedModCount : Nat) :
    Progress :=
  if s.modCount ≠ expectedModCount then .returned (.error concurrentModificationException)
  else match s.controller.students[cursor]? with
    | none => .returned (.error noSuchElementException)
    | some student =>
      match fieldEqualsIgnoreCase cm student.name name with
      | .error e => .returned (.error e)
      | .ok true => .removing (some student)
      | .ok false => .looping (cursor + 1) expectedModCount

def setProgress (s : Serving) (k : Nat) (r : Request) (p : Progress) : Serving :=
  { s with requests := s.requests.set k (r, p) }

/-- A request that is served by one call: only an addition modifies the list. -/
def serve (cm : CaseMapping) (s : Serving) (r : Request) : Serving := { s with
  controller := final (Swagger.serve cm r s.controller)
  modCount := s.modCount + r.added?.toList.length
  added := s.added ++ r.added?.toList.map fun f => ⟨f, s.controller.created⟩ }

/-- `students.remove(tempStudent)`, a modification only if the student is there. -/
def remove (s : Serving) (tempStudent : Option Student) : Serving := { s with
  controller := s.controller.remove tempStudent
  modCount := if tempStudent.any (· ∈ s.controller.students) then s.modCount + 1 else s.modCount }

def start : Serving := ⟨initial, 4, [], initial.students⟩

inductive Label where
  | receive (r : Request)
  | serve (k : Nat)
  | iterator (k : Nat)
  | hasNext (k : Nat)
  | next (k : Nat)
  | remove (k : Nat)

/-- Additions and searches call one method of the list. -/
inductive Step (cm : CaseMapping) : Serving → Label → Serving → Prop
  | receive (s : Serving) (r : Request) :
      Step cm s (.receive r) { s with requests := s.requests ++ [(r, .received)] }
  | serve (s : Serving) (k : Nat) (r : Request) (hk : s.requests[k]? = some (r, .received))
      (hr : r.deletes? = none) :
      Step cm s (.serve k) ((s.serve cm r).setProgress k r
        (.returned (outcome (Swagger.serve cm r s.controller))))
  | iterator (s : Serving) (k : Nat) (name : JString)
      (hk : s.requests[k]? = some (.delStudentByName name, .received)) :
      Step cm s (.iterator k) (s.setProgress k (.delStudentByName name) (.looping 0 s.modCount))
  | hasNext (s : Serving) (k : Nat) (name : JString) (cursor expectedModCount : Nat)
      (hk : s.requests[k]? = some (.delStudentByName name, .looping cursor expectedModCount))
      (hc : cursor ≠ s.controller.students.length) :
      Step cm s (.hasNext k)
        (s.setProgress k (.delStudentByName name) (.advancing cursor expectedModCount))
  | ends (s : Serving) (k : Nat) (name : JString) (cursor expectedModCount : Nat)
      (hk : s.requests[k]? = some (.delStudentByName name, .looping cursor expectedModCount))
      (hc : cursor = s.controller.students.length) :
      Step cm s (.hasNext k) (s.setProgress k (.delStudentByName name) (.removing none))
  | next (s : Serving) (k : Nat) (name : JString) (cursor expectedModCount : Nat)
      (hk : s.requests[k]? = some (.delStudentByName name, .advancing cursor expectedModCount)) :
      Step cm s (.next k)
        (s.setProgress k (.delStudentByName name) (s.next cm name cursor expectedModCount))
  | remove (s : Serving) (k : Nat) (name : JString) (tempStudent : Option Student)
      (hk : s.requests[k]? = some (.delStudentByName name, .removing tempStudent)) :
      Step cm s (.remove k) ((s.remove tempStudent).setProgress k (.delStudentByName name)
        (.returned (.ok (.student tempStudent))))

/-- The student that a deletion has returned. -/
def deleted? (request : Request × Progress) : Option Student :=
  match request with
  | (.delStudentByName _, .returned (.ok (.student tempStudent))) => tempStudent
  | _ => none

/-- The students that deletions have returned, one of two deletions as often as both. -/
def deleted (s : Serving) : List Student := s.requests.filterMap deleted?

variable {cm : CaseMapping} {s t : Serving} {l : Label} {ls : List Label} {k : Nat} {r : Request}
  {p p' : Progress} {name : JString} {cursor expectedModCount : Nat} {x : Student}

theorem mem_deleted_setProgress (hk : s.requests[k]? = some (r, p)) (hp : deleted? (r, p) = none)
    (p' : Progress) :
    x ∈ (s.setProgress k r p').deleted ↔ deleted? (r, p') = some x ∨ x ∈ s.deleted := by
  have h := (filterMap_set_perm deleted? hk (r, p')).mem_iff (a := x)
  rw [hp] at h
  simpa [deleted, setProgress] using h

/-- The iterator has passed no student of the name, as long as the list is the one it began on. -/
def Passed (cm : CaseMapping) (s : Serving) (name : JString) (cursor expectedModCount : Nat) :
    Prop :=
  expectedModCount ≤ s.modCount ∧ (expectedModCount = s.modCount →
    ∀ x ∈ s.controller.students.take cursor, x.named cm name = false)

/-- A student that a deletion takes was added and has the name. -/
def Taken (cm : CaseMapping) (s : Serving) (name : JString) (o : Option Student) : Prop :=
  ∀ x ∈ o, x ∈ s.added ∧ x.named cm name = true

/-- What a deletion holds fits the list. -/
def Fits (cm : CaseMapping) (s : Serving) : Request × Progress → Prop
  | (.delStudentByName name, .looping cursor expectedModCount) =>
    Passed cm s name cursor expectedModCount
  | (.delStudentByName name, .advancing cursor expectedModCount) =>
    Passed cm s name cursor expectedModCount
  | (.delStudentByName name, .removing o) => Taken cm s name o
  | (.delStudentByName name, .returned (.ok (.student o))) => Taken cm s name o
  | _ => True

theorem fits_mono {request : Request × Progress} (hf : Fits cm s request)
    (hadd : s.added ⊆ t.added) (h : s.modCount < t.modCount ∨
      t.modCount = s.modCount ∧ t.controller.students = s.controller.students) :
    Fits cm t request := by
  have hpassed : ∀ {name cursor expectedModCount}, Passed cm s name cursor expectedModCount →
      Passed cm t name cursor expectedModCount := by
    rintro name cursor expectedModCount ⟨hle, hp⟩
    rcases h with h | ⟨hm, hs⟩
    · exact ⟨by omega, fun he => by omega⟩
    · rw [Passed, hm, hs]
      exact ⟨hle, hp⟩
  have htaken : ∀ {name o}, Taken cm s name o → Taken cm t name o := fun ht x hx =>
    ⟨hadd (ht x hx).1, (ht x hx).2⟩
  obtain ⟨r, p⟩ := request
  cases r with
  | delStudentByName name =>
    cases p with
    | looping cursor expectedModCount => exact hpassed hf
    | advancing cursor expectedModCount => exact hpassed hf
    | removing o => exact htaken hf
    | received => trivial
    | returned answer =>
      rcases answer with e | (b | o | xs)
      · trivial
      · trivial
      · exact htaken hf
      · trivial
  | _ => trivial

/-- What is stored is what was added less what deletions have returned. -/
structure Kept (cm : CaseMapping) (s : Serving) : Prop where
  nodup : (s.added.map Student.identity).Nodup
  identity_lt : ∀ x ∈ s.added, x.identity < s.controller.created
  students : s.controller.students = s.added.filter fun x => x ∉ s.deleted
  fits : ∀ request ∈ s.requests, Fits cm s request

theorem Kept.taken (hi : Kept cm s) (hx : x ∈ s.deleted) :
    ∃ name, (.delStudentByName name, .returned (.ok (.student (some x)))) ∈ s.requests ∧
      x ∈ s.added ∧ x.named cm name = true := by
  obtain ⟨⟨r, p⟩, hm, hd⟩ := List.mem_filterMap.mp hx
  have hf := hi.fits _ hm
  unfold deleted? at hd
  split at hd
  · rename_i name o he
    cases he
    subst hd
    exact ⟨name, hm, hf x rfl⟩
  · cases hd

theorem kept_start : Kept cm start where
  nodup := by decide
  identity_lt := by decide
  students := rfl
  fits := nofun

/-- A step that leaves the list alone. -/
theorem kept_setProgress (hi : Kept cm s) (hk : s.requests[k]? = some (r, p))
    (hp : deleted? (r, p) = none) (hp' : deleted? (r, p') = none) (hf : Fits cm s (r, p')) :
    Kept cm (s.setProgress k r p') := by
  refine ⟨hi.nodup, hi.identity_lt, ?_, ?_⟩
  · refine hi.students.trans (List.filter_congr fun x _ => ?_)
    simp [mem_deleted_setProgress hk hp, hp']
  · exact forall_set (fun request hm => fits_mono (hi.fits request hm) (fun _ h => h)
      (.inr ⟨rfl, rfl⟩)) (fits_mono hf (fun _ h => h) (.inr ⟨rfl, rfl⟩))

theorem deleted?_received (r : Request) : deleted? (r, .received) = none := by
  cases r <;> rfl

theorem kept_receive (hi : Kept cm s) (r : Request) :
    Kept cm { s with requests := s.requests ++ [(r, .received)] } := by
  have hd : deleted { s with requests := s.requests ++ [(r, .received)] } = s.deleted := by
    simp [deleted, deleted?_received]
  refine ⟨hi.nodup, hi.identity_lt, by rw [hd]; exact hi.students, fun request hm => ?_⟩
  suffices hf : Fits cm s request from fits_mono hf (fun _ h => h) (.inr ⟨rfl, rfl⟩)
  rcases List.mem_append.mp hm with hm | hm
  · exact hi.fits request hm
  · rw [List.mem_singleton.mp hm]
    cases r <;> trivial

theorem fits_of_not_deletes (hr : r.deletes? = none) (p : Progress) : Fits cm s (r, p) := by
  cases r <;> trivial

theorem deleted?_of_not_deletes (hr : r.deletes? = none) (p : Progress) :
    deleted? (r, p) = none := by
  cases r <;> first | rfl | cases hr

/-- What is added now is told apart from all that was added before. -/
theorem kept_add (hi : Kept cm s) (f : Fields) :
    Kept cm { s with
      controller := s.controller.add f
      modCount := s.modCount + 1
      added := s.added ++ [⟨f, s.controller.created⟩] } := by
  have hlt : ∀ x ∈ s.added ++ [⟨f, s.controller.created⟩],
      x.identity < s.controller.created + 1 := by
    intro x hx
    rcases List.mem_append.mp hx with hx | hx
    · exact Nat.lt_succ_of_lt (hi.identity_lt x hx)
    · rw [List.mem_singleton.mp hx]
      exact Nat.lt_succ_self _
  have hnew : (⟨f, s.controller.created⟩ : Student) ∉ s.deleted := fun hm => by
    obtain ⟨name, -, ha, -⟩ := hi.taken hm
    exact Nat.lt_irrefl _ (hi.identity_lt _ ha)
  refine ⟨?_, hlt, ?_, fun request hm => ?_⟩
  · rw [List.map_append, List.map_singleton]
    refine hi.nodup.append (List.nodup_singleton _) (List.disjoint_singleton.mpr fun hm => ?_)
    obtain ⟨x, hx, he⟩ := List.mem_map.mp hm
    exact Nat.ne_of_lt (hi.identity_lt x hx) he
  · have hd : ∀ {c m a}, deleted ⟨c, m, s.requests, a⟩ = s.deleted := rfl
    rw [List.filter_append, hd, ← hi.students]
    simp [Swagger2RestController.add, hnew]
  · exact fits_mono (hi.fits request hm) (List.subset_append_left ..) (.inl (Nat.lt_succ_self _))

/-- An addition, or a search. -/
theorem kept_serve (hi : Kept cm s) (hr : r.deletes? = none) : Kept cm (s.serve cm r) := by
  have hserve : Swagger.Step cm s.controller _ _ := .serve s.controller r
  unfold serve
  rcases step_cases hserve with ⟨f, ha, -, ht⟩ | ⟨name, o, rfl, -⟩ | ⟨name, err, rfl, -⟩ |
    ⟨ha, -, ht⟩
  · rw [ht, ha]
    exact kept_add hi f
  · cases hr
  · cases hr
  · rw [ht, ha, Option.toList_none, List.map_nil, List.append_nil]
    exact hi

theorem students_subset (hi : Kept cm s) : s.controller.students ⊆ s.added := by
  rw [hi.students]
  exact List.filter_subset_self _

theorem named_of_fieldEqualsIgnoreCase {b : Bool}
    (h : fieldEqualsIgnoreCase cm x.name name = .ok b) : x.named cm name = b := by
  rw [fieldEqualsIgnoreCase_ok (isSome_of_fieldEqualsIgnoreCase h)] at h
  exact Except.ok.inj h

theorem fits_next (hi : Kept cm s) (hp : Passed cm s name cursor expectedModCount) :
    Fits cm s (.delStudentByName name, s.next cm name cursor expectedModCount) := by
  unfold next
  split
  · trivial
  split
  · trivial
  rename_i student hs
  split
  · trivial
  · rename_i hn
    intro x hx
    obtain rfl : student = x := Option.some.inj hx
    exact ⟨students_subset hi (List.mem_of_getElem? hs), named_of_fieldEqualsIgnoreCase hn⟩
  · rename_i hn
    refine ⟨hp.1, fun he x hx => ?_⟩
    rw [List.take_add_one, hs, List.mem_append] at hx
    rcases hx with hx | hx
    · exact hp.2 he x hx
    · rw [List.mem_singleton.mp hx]
      exact named_of_fieldEqualsIgnoreCase hn

theorem deleted?_next :
    deleted? (.delStudentByName name, s.next cm name cursor expectedModCount) = none := by
  unfold next
  split
  · rfl
  split
  · rfl
  split <;> rfl

/-- Of two students that were added none has the identity of the other. -/
theorem eq_of_identity (hi : Kept cm s) {y : Student} (hx : x ∈ s.added) (hy : y ∈ s.added)
    (h : y.identity = x.identity) : y = x := List.inj_on_of_nodup_map hi.nodup hy hx h

/-- A student that another deletion has taken meanwhile is not in the list to be removed. -/
theorem students_remove (hi : Kept cm s) (hx : x ∈ s.added) :
    (s.controller.remove (some x)).students = s.controller.students.filter fun y => y ≠ x := by
  by_cases hm : x ∈ s.controller.students
  · exact remove_eq_filter hm
  · have hnot : ∀ y ∈ s.controller.students, y ≠ x := fun y hy he => hm (he ▸ hy)
    have hid : ∀ y ∈ s.controller.students,
        ¬ (Option.any (fun z => decide (y.identity = z.identity)) (some x)) = true := by
      intro y hy he
      exact hnot y hy (eq_of_identity hi hx (students_subset hi hy) (by simpa using he))
    exact (List.eraseP_of_forall_not hid).trans
      (List.filter_eq_self.mpr fun y hy => decide_eq_true (hnot y hy)).symm

/-- The list is told apart by its count of modifications. -/
theorem modCount_remove (hi : Kept cm s) (hx : x ∈ s.added) :
    s.modCount < (s.remove (some x)).modCount ∨ (s.remove (some x)).modCount = s.modCount ∧
      (s.remove (some x)).controller.students = s.controller.students := by
  have hstudents : (s.remove (some x)).controller.students = _ := students_remove hi hx
  by_cases hm : x ∈ s.controller.students
  · simp [remove, hm]
  · rw [hstudents]
    have hnot : ∀ y ∈ s.controller.students, y ≠ x := fun y hy he => hm (he ▸ hy)
    simpa [remove, hm] using hnot

theorem kept_remove (hi : Kept cm s) {tempStudent : Option Student}
    (hk : s.requests[k]? = some (.delStudentByName name, .removing tempStudent)) :
    Kept cm ((s.remove tempStudent).setProgress k (.delStudentByName name)
      (.returned (.ok (.student tempStudent)))) := by
  have htaken : Taken cm s name tempStudent := hi.fits _ (List.mem_of_getElem? hk)
  cases tempStudent with
  | none =>
    have hsame : s.remove none = s := by simp [remove]
    rw [hsame]
    exact kept_setProgress hi hk rfl rfl htaken
  | some x =>
    have hx := (htaken x rfl).1
    have hfits : ∀ {request}, Fits cm s request → Fits cm (s.remove (some x)) request :=
      fun hf => fits_mono hf (fun _ h => h) (modCount_remove hi hx)
    refine ⟨hi.nodup, hi.identity_lt, ?_, ?_⟩
    · have hd : ∀ y, y ∈ deleted ((s.remove (some x)).setProgress k (.delStudentByName name)
          (.returned (.ok (.student (some x))))) ↔ y = x ∨ y ∈ s.deleted := fun y =>
        (mem_deleted_setProgress (s := s) hk rfl _).trans
          (or_congr_left (by simp [deleted?, eq_comm]))
      refine (students_remove hi hx).trans ?_
      rw [hi.students, List.filter_filter]
      refine List.filter_congr fun y _ => ?_
      simp [hd]
    · have htaken' : Taken cm (s.remove (some x)) name (some x) :=
        hfits (show Fits cm s (.delStudentByName name, .removing (some x)) from htaken)
      exact forall_set (fun request hm => hfits (hi.fits request hm)) htaken'

theorem kept_step (hi : Kept cm s) (h : Step cm s l t) : Kept cm t := by
  cases h with
  | receive r => exact kept_receive hi r
  | serve k r hk hr =>
    exact kept_setProgress (kept_serve hi hr) hk (deleted?_received r)
      (deleted?_of_not_deletes hr _) (fits_of_not_deletes hr _)
  | iterator k name hk => exact kept_setProgress hi hk rfl rfl ⟨Nat.le_refl _, fun _ => nofun⟩
  | hasNext k name cursor expectedModCount hk hc =>
    have hp : Passed cm s name cursor expectedModCount := hi.fits _ (List.mem_of_getElem? hk)
    exact kept_setProgress hi hk rfl rfl hp
  | ends k name cursor expectedModCount hk hc => exact kept_setProgress hi hk rfl rfl nofun
  | next k name cursor expectedModCount hk =>
    have hp : Passed cm s name cursor expectedModCount := hi.fits _ (List.mem_of_getElem? hk)
    exact kept_setProgress hi hk rfl deleted?_next (fits_next hi hp)
  | remove k name tempStudent hk => exact kept_remove hi hk

theorem kept_run (h : Run (Step cm) start ls s) : Kept cm s :=
  h.invariant (fun _ _ _ hs hi => kept_step hi hs) kept_start

/-- The student that an addition has added. -/
def added? (request : Request × Progress) : Option Fields :=
  match request with
  | (r, .returned _) => r.added?
  | _ => none

/-- The list has been added what its additions were sent, whatever their order. -/
def Complete (s : Serving) : Prop :=
  (s.added.map Student.toFields).Perm
    (initial.students.map Student.toFields ++ s.requests.filterMap added?)

theorem complete_start : Complete start := .refl _

theorem complete_setProgress (hi : Complete s) (hk : s.requests[k]? = some (r, p))
    (hp : added? (r, p') = added? (r, p)) : Complete (s.setProgress k r p') := by
  have hperm := filterMap_set_perm added? hk (r, p')
  rw [hp] at hperm
  exact hi.trans (((List.perm_append_left_iff _).mp hperm).symm.append_left _)

theorem complete_serve (hi : Complete s) (hk : s.requests[k]? = some (r, .received))
    (answer : Except Throwable Answer) :
    Complete ((s.serve cm r).setProgress k r (.returned answer)) := by
  have hperm : ((s.requests.set k (r, .returned answer)).filterMap added?).Perm
      (r.added?.toList ++ s.requests.filterMap added?) := filterMap_set_perm added? hk _
  have hadded : (s.serve cm r).added.map Student.toFields =
      s.added.map Student.toFields ++ r.added?.toList := by
    rw [serve, List.map_append, List.map_map]
    congr 1
    exact List.map_id _
  refine (List.Perm.of_eq hadded).trans ((hi.append_right _).trans ?_)
  rw [List.append_assoc]
  exact (List.perm_append_comm.trans hperm.symm).append_left _

theorem added?_delete (name : JString) (p : Progress) :
    added? (.delStudentByName name, p) = none := by
  cases p <;> rfl

theorem complete_step (hi : Complete s) (h : Step cm s l t) : Complete t := by
  cases h with
  | receive r => simpa [Complete, added?, List.filterMap_cons] using hi
  | serve k r hk hr => exact complete_serve hi hk _
  | iterator k name hk => exact complete_setProgress hi hk rfl
  | hasNext k name cursor expectedModCount hk hc => exact complete_setProgress hi hk rfl
  | ends k name cursor expectedModCount hk hc => exact complete_setProgress hi hk rfl
  | next k name cursor expectedModCount hk =>
    exact complete_setProgress hi hk ((added?_delete ..).trans (added?_delete ..).symm)
  | remove k name tempStudent hk =>
    have hi' : Complete (s.remove tempStudent) := hi
    exact complete_setProgress hi' hk rfl

/-- However the steps of requests follow on one another, what is stored are the students that were
added, in that order, without those that deletions have returned. Two deletions may return the same
student: of each name as many are stored as were added, less those that were returned, each counted
once. -/
theorem concurrent_accounts (h : Run (Step cm) start ls s) :
    s.controller.students = s.added.filter (fun x => x ∉ s.deleted) ∧
    (s.added.map Student.toFields).Perm
      (initial.students.map Student.toFields ++ s.requests.filterMap added?) ∧
    (∀ x ∈ s.deleted, x ∈ s.added ∧ ∃ name, x.named cm name = true ∧
      (.delStudentByName name, .returned (.ok (.student (some x)))) ∈ s.requests) ∧
    ∀ name, s.controller.students.countP (Student.named cm name) +
      s.deleted.dedup.countP (Student.named cm name) = s.added.countP (Student.named cm name) := by
  have hi := kept_run h
  refine ⟨hi.students, h.invariant (P := Complete) (fun _ _ _ hs hc => complete_step hc hs)
    complete_start, fun x hx => ?_, fun name => ?_⟩
  · obtain ⟨name, hm, ha, hn⟩ := hi.taken hx
    exact ⟨ha, name, hn, hm⟩
  · have hnodup : s.added.Nodup := hi.nodup.of_map _
    have hperm : s.deleted.dedup.Perm (s.added.filter fun x => x ∈ s.deleted) := by
      refine (List.perm_ext_iff_of_nodup s.deleted.nodup_dedup (hnodup.filter _)).mpr fun x => ?_
      have ha : x ∈ s.deleted → x ∈ s.added := fun hx =>
        have ⟨_, _, ha, _⟩ := hi.taken hx
        ha
      simpa using ha
    rw [hperm.countP_eq, hi.students, Nat.add_comm,
      List.countP_eq_countP_filter_add s.added _ fun x => decide (x ∈ s.deleted)]
    simp

theorem find?_of_passed (hp : Passed cm s name cursor expectedModCount)
    (hn : s.next cm name cursor expectedModCount = .removing (some x)) :
    s.controller.students.find? (Student.named cm name) = some x := by
  unfold next at hn
  split at hn
  · cases hn
  rename_i hm
  split at hn
  · cases hn
  rename_i student hs
  split at hn
  · cases hn
  · rename_i heq
    obtain rfl : student = x := by simpa using hn
    have hm : expectedModCount = s.modCount := (not_not.mp hm).symm
    obtain ⟨hlt, hget⟩ := List.getElem?_eq_some_iff.mp hs
    refine List.find?_eq_some_iff_append.mpr ⟨named_of_fieldEqualsIgnoreCase heq,
      s.controller.students.take cursor, s.controller.students.drop (cursor + 1), ?_,
      fun y hy => by simp [hp.2 hm y hy]⟩
    rw [← hget, List.getElem_cons_drop, List.take_append_drop]
  · cases hn

/-- A deletion that goes on to take a student has found it to be the first of the name in the list
as it is then. One that goes on to take none has found none of the name, or the list has been
modified since it began. -/
theorem deletion_fails_fast (h : Run (Step cm) start ls s) :
    (∀ k name cursor expectedModCount x t,
      s.requests[k]? = some (.delStudentByName name, .advancing cursor expectedModCount) →
      Step cm s (.next k) t →
      t.requests[k]? = some (.delStudentByName name, .removing (some x)) →
      s.controller.students.find? (Student.named cm name) = some x) ∧
    ∀ k name cursor expectedModCount t,
      s.requests[k]? = some (.delStudentByName name, .looping cursor expectedModCount) →
      Step cm s (.hasNext k) t →
      t.requests[k]? = some (.delStudentByName name, .removing none) →
      (∀ x ∈ s.controller.students, x.named cm name = false) ∨ expectedModCount < s.modCount := by
  have hi := kept_run h
  constructor
  · intro k name cursor expectedModCount x t hk ht hx
    have hp : Passed cm s name cursor expectedModCount := hi.fits _ (List.mem_of_getElem? hk)
    obtain ⟨hlt, -⟩ := List.getElem?_eq_some_iff.mp hk
    cases ht with
    | next k name' cursor' expectedModCount' hk' =>
      obtain ⟨rfl, rfl, rfl⟩ : name = name' ∧ cursor = cursor' ∧
        expectedModCount = expectedModCount' := by simpa [hk] using hk'
      exact find?_of_passed hp (by simpa [setProgress, hlt] using hx)
  · intro k name cursor expectedModCount t hk ht hx
    have hp : Passed cm s name cursor expectedModCount := hi.fits _ (List.mem_of_getElem? hk)
    obtain ⟨hlt, -⟩ := List.getElem?_eq_some_iff.mp hk
    cases ht with
    | hasNext k name' cursor' expectedModCount' hk' hc => simp [setProgress, hlt] at hx
    | ends k name' cursor' expectedModCount' hk' hc =>
      obtain ⟨rfl, rfl, rfl⟩ : name = name' ∧ cursor = cursor' ∧
        expectedModCount = expectedModCount' := by simpa [hk] using hk'
      rcases Nat.lt_or_ge expectedModCount s.modCount with hlt | hge
      · exact .inr hlt
      · refine .inl fun x hx => hp.2 (Nat.le_antisymm hp.1 hge) x ?_
        rwa [hc, List.take_length]

namespace Example

open CaseMapping Swagger.Example

def upper : JString := utf16 "SAJAL"

def lower : JString := utf16 "sajal"

/-- Two deletions have found the same student. -/
theorem found_run : ∃ ls, Run (Step basicLatin) start ls ⟨initial, 4,
    [(.delStudentByName upper, .removing (some sajal)),
      (.delStudentByName lower, .advancing 0 4)], initial.students⟩ := by
  have h₀ : Run (Step basicLatin) start _ _ := .single (.receive _ (.delStudentByName upper))
  have h₁ := h₀.next (.receive _ (.delStudentByName lower))
  have h₂ := h₁.next (.iterator _ 0 upper rfl)
  have h₃ := h₂.next (.iterator _ 1 lower rfl)
  have h₄ := h₃.next (.hasNext _ 0 upper 0 4 rfl (by decide))
  have h₅ := h₄.next (.hasNext _ 1 lower 0 4 rfl (by decide))
  exact ⟨_, h₅.next (.next _ 0 upper 0 4 rfl)⟩

/-- The second of them finds him in the list that both began on. -/
theorem fails_fast_found :
    initial.students.find? (Student.named basicLatin lower) = some sajal := by
  obtain ⟨ls, h⟩ := found_run
  exact (deletion_fails_fast h).1 1 lower 0 4 sajal _ rfl (.next _ 1 lower 0 4 rfl) rfl

/-- Both return him, and one student is gone. -/
theorem accounts_found : ∃ ls s, Run (Step basicLatin) start ls s ∧ s.deleted = [sajal, sajal] ∧
    s.controller.students = initial.students.filter (· ∉ [sajal, sajal]) := by
  obtain ⟨ls, h⟩ := found_run
  have h₁ := h.next (.next _ 1 lower 0 4 rfl)
  have h₂ := h₁.next (.remove _ 0 upper (some sajal) rfl)
  have h₃ := h₂.next (.remove _ 1 lower (some sajal) rfl)
  exact ⟨_, _, h₃, rfl, (concurrent_accounts h₃).1⟩

end Example

end Serving

end SpringDemo.Swagger

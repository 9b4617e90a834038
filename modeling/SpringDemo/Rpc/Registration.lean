import Mathlib.Data.List.Range
import SpringDemo.Library.LastWrite
import SpringDemo.Library.Runs
import SpringDemo.Rpc.Example

/-! Calls of `register` at the same time: each `put` is atomic, a call is not. -/
namespace SpringDemo.Rpc

open Java Lib.HashTable Lib.LastWrite Lib.Runs ServiceManager ServiceDescriptor

variable {B : Type}

/-- The table, and for each call the methods that its loop has still to visit. -/
structure Registering (B : Type) where
  services : Services B
  todo : Nat → List Method

namespace Registering

/-- The calls begin on what the registrations before them have left. -/
def start (cp : ClassPath) (hist calls : History B) : Registering B where
  services := registered cp hist
  todo i := (calls[i]?).elim [] fun call => getPublicMethods cp call.1

/-- One call puts one of its methods. -/
inductive Step (calls : History B) : Registering B → Nat × Method → Registering B → Prop
  | put (s : Registering B) (i : Nat) (call : ClassName × Option B) (m : Method)
      (hi : calls[i]? = some call) (hm : m ∈ s.todo i) :
      Step calls s (i, m)
        ⟨put s.services (fromMethod call.1 m) ⟨call.2, m⟩,
          Function.update s.todo i ((s.todo i).erase m)⟩

/-- All calls have returned. -/
def Finished (s : Registering B) : Prop := ∀ i, s.todo i = []

/-- The table is what the same calls leave one after the other, in some order. -/
def Sequential (cp : ClassPath) (hist calls : History B) (services : Services B) : Prop :=
  ∃ order, order.Perm calls ∧
    ∀ d, get services d = get (registered cp (hist ++ order)) d

/-- The calls for one interface register the same bean, or have one method to register. -/
def Compatible (cp : ClassPath) (calls : History B) : Prop :=
  ∀ I, (∀ call ∈ calls, ∀ call' ∈ calls, call.1 = I → call'.1 = I → call.2 = call'.2) ∨
    ∀ m ∈ getPublicMethods cp I, ∀ m' ∈ getPublicMethods cp I, m = m'

variable {cp : ClassPath} {hist calls order : History B} {s t : Registering B}
  {ls : List (Nat × Method)} {l : Nat × Method} {i : Nat} {call : ClassName × Option B} {m : Method}
  {I : ClassName} {d : ServiceDescriptor}

/-- What a step writes for a descriptor, if anything. -/
def written (calls : History B) (d : ServiceDescriptor) (l : Nat × Method) :
    Option (ServiceInstance B) :=
  calls[l.1]?.bind fun call => if d = fromMethod call.1 l.2 then some ⟨call.2, l.2⟩ else none

/-- The bean of a call, if it is for the interface. -/
def beanFor (calls : History B) (I : ClassName) (i : Nat) : Option (Option B) :=
  calls[i]?.bind fun call => if call.1 = I then some call.2 else none

/-- What the steps up to a state have done. -/
structure Traced (cp : ClassPath) (hist calls : History B) (ls : List (Nat × Method))
    (s : Registering B) : Prop where
  services : ∀ d, get s.services d = (last (written calls d) ls).or (get (registered cp hist) d)
  inRange : ∀ l ∈ ls, ∃ call, calls[l.1]? = some call
  todo : ∀ i call, calls[i]? = some call → ∀ m,
    m ∈ getPublicMethods cp call.1 ↔ m ∈ s.todo i ∨ (i, m) ∈ ls

theorem traced_step (h : Traced cp hist calls ls s) (hs : Step calls s l t) :
    Traced cp hist calls (ls ++ [l]) t := by
  cases hs with
  | put i call m hi hm =>
    refine ⟨fun d => ?_, ?_, fun j call' hj m' => ?_⟩
    · rw [last_concat]
      by_cases hd : d = fromMethod call.1 m
      · rw [get_put_of_eqv (eqv_iff.mpr hd)]
        simp [written, hi, hd]
      · rw [get_put_of_not_eqv (eqv_eq_false_iff.mpr hd), h.services]
        simp [written, hi, hd]
    · intro l hl
      rcases List.mem_append.mp hl with hl | hl
      · exact h.inRange l hl
      · exact ⟨call, List.mem_singleton.mp hl ▸ hi⟩
    · rw [h.todo j call' hj]
      by_cases hji : j = i
      · subst hji
        by_cases hm' : m' = m
        · simp [hm', hm]
        · simp [hm', List.mem_erase_of_ne]
      · simp [hji]

theorem traced_run (h : Run (Step calls) (start cp hist calls) ls s) :
    Traced cp hist calls ls s :=
  h.history (fun _ _ _ _ hs ht => traced_step ht hs)
    ⟨fun _ => rfl, by simp, fun i call hi m => by simp [start, hi]⟩

theorem Traced.mem_methods (h : Traced cp hist calls ls s) (hl : l ∈ ls)
    (hc : calls[l.1]? = some call) : l.2 ∈ getPublicMethods cp call.1 :=
  (h.todo l.1 call hc l.2).mpr (.inr hl)

theorem mem_of_finished (h : Traced cp hist calls ls s) (hf : Finished s)
    (hi : calls[i]? = some call) : (i, m) ∈ ls ↔ m ∈ getPublicMethods cp call.1 := by
  rw [h.todo i call hi, hf i]
  simp

/-- The calls that had nothing to do, and then the others as they wrote last. -/
def lastOrder (calls : History B) (ls : List (Nat × Method)) : List Nat :=
  ((List.range calls.length).filter fun i => i ∉ ls.map Prod.fst) ++ (ls.map Prod.fst).dedup

theorem lastOrder_perm (h : ∀ l ∈ ls, ∃ call, calls[l.1]? = some call) :
    (lastOrder calls ls).Perm (List.range calls.length) := by
  refine (List.perm_ext_iff_of_nodup ?_ List.nodup_range).mpr fun i => ?_
  · refine List.Nodup.append (List.nodup_range.filter _) (List.nodup_dedup _) ?_
    intro i hi hd
    simp only [List.mem_filter, decide_eq_true_eq] at hi
    exact hi.2 (List.mem_dedup.mp hd)
  · simp only [lastOrder, List.mem_append, List.mem_filter, decide_eq_true_eq, List.mem_dedup]
    constructor
    · rintro (hi | hi)
      · exact hi.1
      · obtain ⟨l, hl, rfl⟩ := List.mem_map.mp hi
        obtain ⟨call, hc⟩ := h l hl
        exact List.mem_range.mpr (List.getElem?_eq_some_iff.mp hc).1
    · intro hi
      by_cases hl : i ∈ ls.map Prod.fst
      · exact .inr hl
      · exact .inl ⟨hi, hl⟩

theorem filterMap_range_getElem? (calls : History B) :
    (List.range calls.length).filterMap (calls[·]?) = calls := by
  induction calls using List.reverseRecOn with
  | nil => rfl
  | append_singleton calls call ih =>
    have hleft : ∀ i ∈ List.range calls.length, (calls ++ [call])[i]? = calls[i]? := fun i hi =>
      List.getElem?_append_left (List.mem_range.mp hi)
    rw [List.length_append, List.length_singleton, List.range_succ, List.filterMap_append,
      List.filterMap_congr hleft, ih]
    simp

/-- The calls themselves, in the order of their last steps. -/
def serialized (calls : History B) (ls : List (Nat × Method)) : History B :=
  (lastOrder calls ls).filterMap (calls[·]?)

theorem serialized_perm (h : ∀ l ∈ ls, ∃ call, calls[l.1]? = some call) :
    (serialized calls ls).Perm calls := by
  have hp := (lastOrder_perm h).filterMap (calls[·]?)
  rwa [filterMap_range_getElem?] at hp

theorem latest_eq_last (hist : History B) (I : ClassName) :
    latest hist I = last (fun call => if call.1 = I then some call.2 else none) hist := by
  induction hist with
  | nil => rfl
  | cons call hist ih => rw [latest, last_cons, ih]

/-- Who registers an interface last in that order is who makes the last step for it. -/
theorem latest_serialized (hl : ∃ l ∈ ls, beanFor calls I l.1 ≠ none) :
    latest (serialized calls ls) I = last (fun l => beanFor calls I l.1) ls := by
  rw [latest_eq_last, serialized, last_filterMap, lastOrder, last_append]
  have hd : last (beanFor calls I) (ls.map Prod.fst).dedup =
      last (fun l => beanFor calls I l.1) ls := by
    rw [last_dedup, last_map]
  have hne : last (fun l => beanFor calls I l.1) ls ≠ none := by
    obtain ⟨l, hl, hb⟩ := hl
    exact fun hnone => hb (last_eq_none_iff.mp hnone l hl)
  obtain ⟨b, hb⟩ := Option.ne_none_iff_exists'.mp hne
  change (last (beanFor calls I) _).or (last (beanFor calls I) _) = _
  rw [hd, hb]
  rfl

theorem beanFor_eq_some_iff {b : Option B} :
    beanFor calls I i = some b ↔ ∃ call, calls[i]? = some call ∧ call.1 = I ∧ call.2 = b := by
  cases hc : calls[i]? <;> simp [beanFor, hc]

/-- A step writes for a method of the interface when its call is for the interface and it visits
that method. -/
theorem written_eq (h : Traced cp hist calls ls s) (hm : m ∈ getPublicMethods cp I) (hl : l ∈ ls) :
    written calls (fromMethod I m) l =
      if l.2 = m then (beanFor calls I l.1).map fun bean => ⟨bean, m⟩ else none := by
  obtain ⟨call, hc⟩ := h.inRange l hl
  have hpub := h.mem_methods hl hc
  by_cases hI : call.1 = I
  · have hd : fromMethod I m = fromMethod call.1 l.2 ↔ l.2 = m := by
      rw [hI] at hpub ⊢
      constructor
      · intro he
        exact (fromMethod_injOn cp (mem_getPublicMethods.mp hm).1
          (mem_getPublicMethods.mp hpub).1 he).symm
      · rintro rfl
        rfl
    by_cases hlm : l.2 = m
    · simp [written, beanFor, hc, hI, hlm]
    · rw [hI] at hd
      simp [written, hc, hI, hd, hlm]
  · have hd : fromMethod I m ≠ fromMethod call.1 l.2 := fun he =>
      hI (fromMethod_eq_iff.mp he).1.symm
    simp [written, beanFor, hc, hI, hd]

/-- When the calls for an interface share their bean, it is the last one of every method. -/
theorem last_written_of_same_bean (h : Traced cp hist calls ls s) (hf : Finished s)
    (hbean : ∀ call ∈ calls, ∀ call' ∈ calls, call.1 = I → call'.1 = I → call.2 = call'.2)
    (hm : m ∈ getPublicMethods cp I) : last (written calls (fromMethod I m)) ls =
      (last (fun l => beanFor calls I l.1) ls).map fun bean => ⟨bean, m⟩ := by
  cases hb : last (fun l => beanFor calls I l.1) ls with
  | none =>
    rw [last_eq_none_iff] at hb
    refine last_eq_none_iff.mpr fun l hl => ?_
    rw [written_eq h hm hl, hb l hl]
    simp
  | some b =>
    obtain ⟨l, hl, hlb⟩ := exists_of_last hb
    obtain ⟨call, hc, hI, rfl⟩ := beanFor_eq_some_iff.mp hlb
    have hmem : (l.1, m) ∈ ls := (mem_of_finished h hf hc).mpr (hI ▸ hm)
    have hsome : last (written calls (fromMethod I m)) ls ≠ none := by
      intro hnone
      have hw := last_eq_none_iff.mp hnone _ hmem
      rw [written_eq h hm hmem, if_pos rfl, hlb] at hw
      cases hw
    obtain ⟨sis, hsis⟩ := Option.ne_none_iff_exists'.mp hsome
    obtain ⟨l', hl', hw⟩ := exists_of_last hsis
    rw [written_eq h hm hl'] at hw
    split at hw
    · obtain ⟨b', hb', rfl⟩ := Option.map_eq_some_iff.mp hw
      obtain ⟨call', hc', hI', rfl⟩ := beanFor_eq_some_iff.mp hb'
      rw [hsis, hbean call' (List.mem_of_getElem? hc') call (List.mem_of_getElem? hc) hI' hI]
      rfl
    · cases hw

/-- When an interface has one method, each of its calls writes that one. -/
theorem last_written_of_one_method (h : Traced cp hist calls ls s)
    (hone : ∀ m ∈ getPublicMethods cp I, ∀ m' ∈ getPublicMethods cp I, m = m')
    (hm : m ∈ getPublicMethods cp I) : last (written calls (fromMethod I m)) ls =
      (last (fun l => beanFor calls I l.1) ls).map fun bean => ⟨bean, m⟩ := by
  rw [map_last]
  refine last_congr fun l hl => ?_
  rw [written_eq h hm hl]
  split
  · rfl
  · rename_i hlm
    cases hb : beanFor calls I l.1 with
    | none => rfl
    | some b =>
      obtain ⟨call, hc, hI, rfl⟩ := beanFor_eq_some_iff.mp hb
      exact absurd (hone _ (hI ▸ h.mem_methods hl hc) m hm) hlm

/-- When the calls are compatible, the last bean for a method of an interface is the last bean for
the interface. -/
theorem last_written (h : Traced cp hist calls ls s) (hf : Finished s) (hcomp : Compatible cp calls)
    (hm : m ∈ getPublicMethods cp I) : last (written calls (fromMethod I m)) ls =
      (last (fun l => beanFor calls I l.1) ls).map fun bean => ⟨bean, m⟩ := by
  rcases hcomp I with hbean | hone
  · exact last_written_of_same_bean h hf hbean hm
  · exact last_written_of_one_method h hone hm

theorem latest_append_history (hist hist' : History B) (I : ClassName) :
    latest (hist ++ hist') I = (latest hist' I).or (latest hist I) := by
  rw [latest_eq_last, last_append, ← latest_eq_last, ← latest_eq_last]

/-- Registrations leave alone what none of them is for. -/
theorem get_registered_append (hist hist' : History B)
    (hd : ∀ call ∈ hist', ∀ m ∈ getPublicMethods cp call.1, d ≠ fromMethod call.1 m) :
    get (registered cp (hist ++ hist')) d = get (registered cp hist) d := by
  induction hist' using List.reverseRecOn with
  | nil => rw [List.append_nil]
  | append_singleton hist' call ih =>
    rw [← List.append_assoc, registered_append, get_register_of_not_mem (hd call (by simp))]
    exact ih fun call' hc => hd call' (by simp [hc])

/-- An interface that is registered has the bean of the last step for it. -/
theorem exists_latest (h : Traced cp hist calls ls s) (hf : Finished s) (hcall : call ∈ calls)
    (hm : m ∈ getPublicMethods cp call.1) :
    ∃ b, last (fun l => beanFor calls call.1 l.1) ls = some b ∧
      latest (serialized calls ls) call.1 = some b := by
  obtain ⟨i, hi⟩ := List.mem_iff_getElem?.mp hcall
  have hmem : (i, m) ∈ ls := (mem_of_finished h hf hi).mpr hm
  have hbean : beanFor calls call.1 i ≠ none := by
    simp [beanFor_eq_some_iff.mpr ⟨call, hi, rfl, rfl⟩]
  have hlast : last (fun l => beanFor calls call.1 l.1) ls ≠ none := fun hnone =>
    hbean (last_eq_none_iff.mp hnone _ hmem)
  obtain ⟨b, hb⟩ := Option.ne_none_iff_exists'.mp hlast
  exact ⟨b, hb, (latest_serialized ⟨_, hmem, hbean⟩).trans hb⟩

theorem sequential_of_compatible (h : Run (Step calls) (start cp hist calls) ls s)
    (hf : Finished s) (hcomp : Compatible cp calls) : Sequential cp hist calls s.services := by
  have ht := traced_run h
  have hperm := serialized_perm ht.inRange
  refine ⟨serialized calls ls, hperm, fun d => ?_⟩
  rw [ht.services]
  by_cases hd : ∃ call ∈ calls, ∃ m ∈ getPublicMethods cp call.1, d = fromMethod call.1 m
  · obtain ⟨call, hcall, m, hm, rfl⟩ := hd
    obtain ⟨b, hb, hlatest⟩ := exists_latest ht hf hcall hm
    rw [last_written ht hf hcomp hm, hb]
    refine ((get_registered_iff _).mpr ⟨call.1, ?_, hm, rfl⟩).symm
    rw [latest_append_history, hlatest]
    rfl
  · have hnot : ∀ call ∈ calls, ∀ m ∈ getPublicMethods cp call.1, d ≠ fromMethod call.1 m :=
      fun call hc m hm he => hd ⟨call, hc, m, hm, he⟩
    rw [get_registered_append hist _ fun call hc => hnot call (hperm.mem_iff.mp hc)]
    have hnone : last (written calls d) ls = none := by
      refine last_eq_none_iff.mpr fun l hl => ?_
      obtain ⟨call, hc⟩ := ht.inRange l hl
      simp [written, hc, hnot call (List.mem_of_getElem? hc) l.2 (ht.mem_methods hl hc)]
    rw [hnone]
    rfl

/-- A call goes on with some of its methods, while the others wait. -/
theorem puts_run (hi : calls[i]? = some call) (ms rest : List Method) (s : Registering B)
    (h : (ms ++ rest).Perm (s.todo i)) : ∃ left, rest.Perm left ∧
      Run (Step calls) s (ms.map fun m => (i, m))
        ⟨putAll (fromMethod call.1) (fun m => ⟨call.2, m⟩) s.services ms,
          Function.update s.todo i left⟩ := by
  induction ms generalizing s with
  | nil =>
    refine ⟨s.todo i, h, ?_⟩
    rw [Function.update_eq_self]
    exact .start
  | cons m ms ih =>
    obtain ⟨hm, hp⟩ := List.cons_perm_iff_perm_erase.mp h
    obtain ⟨left, hl, hrun⟩ := ih
      ⟨put s.services (fromMethod call.1 m) ⟨call.2, m⟩,
        Function.update s.todo i ((s.todo i).erase m)⟩ (by simpa using hp)
    refine ⟨left, hl, ?_⟩
    rw [Function.update_idem] at hrun
    exact (Run.single (.put s i call m hi hm)).append hrun

/-- Some calls return, while the others wait. -/
theorem return_run (is : List Nat) (s : Registering B)
    (h : ∀ i ∈ is, ∃ call, calls[i]? = some call) : ∃ ls t, Run (Step calls) s ls t ∧
      ∀ j, t.todo j = if j ∈ is then [] else s.todo j := by
  induction is generalizing s with
  | nil => exact ⟨[], s, .start, by simp⟩
  | cons i is ih =>
    obtain ⟨call, hi⟩ := h i List.mem_cons_self
    obtain ⟨left, hl, hrun⟩ := puts_run hi (s.todo i) [] s (by simp)
    obtain rfl := List.nil_perm.mp hl
    obtain ⟨ls, t, hrest, ht⟩ := ih _ fun j hj => h j (List.mem_cons_of_mem _ hj)
    refine ⟨_, t, hrun.append hrest, fun j => ?_⟩
    rw [ht]
    by_cases hji : j = i
    · simp [hji]
    · simp [hji]

/-- Two calls for one interface with several methods can end in a table with a bean of each. -/
theorem mixed_run (hist : History B) {j : Nat} {bean bean' : Option B} {m' : Method}
    (hi : calls[i]? = some (I, bean)) (hj : calls[j]? = some (I, bean')) (hij : i ≠ j)
    (hm : m ∈ getPublicMethods cp I) (hm' : m' ∈ getPublicMethods cp I) (hne : m ≠ m') :
    ∃ ls s, Run (Step calls) (start cp hist calls) ls s ∧ Finished s ∧
      get s.services (fromMethod I m) = some ⟨bean, m⟩ ∧
      get s.services (fromMethod I m') = some ⟨bean', m'⟩ := by
  have hstart : ∀ k call, calls[k]? = some call →
      (start cp hist calls).todo k = getPublicMethods cp call.1 := by
    intro k call hk
    simp [start, hk]
  -- the first call waits with its last method while all others come and go
  obtain ⟨left, hleft, hfirst⟩ := puts_run hi ((getPublicMethods cp I).erase m) [m]
    (start cp hist calls) (by
      rw [hstart i _ hi]
      exact (List.perm_append_singleton _ _).trans (List.perm_cons_erase hm).symm)
  obtain rfl := List.singleton_perm.mp hleft
  obtain ⟨waiting, hw, hfirst⟩ : ∃ t : Registering B,
      t.todo = Function.update (start cp hist calls).todo i [m] ∧
        Run (Step calls) (start cp hist calls) _ t := ⟨_, rfl, hfirst⟩
  have hcall : ∀ k ∈ (List.range calls.length).filter fun k => k ≠ i ∧ k ≠ j,
      ∃ call, calls[k]? = some call := fun k hk =>
    ⟨_, List.getElem?_eq_getElem (List.mem_range.mp (List.mem_of_mem_filter hk))⟩
  obtain ⟨ls, s, hothers, hs⟩ := return_run _ waiting hcall
  rw [hw] at hs
  have hsi : s.todo i = [m] := by simp [hs]
  have hsj : s.todo j = getPublicMethods cp I := by
    simpa [hs, hij.symm] using hstart j _ hj
  have hsk : ∀ k, k ≠ i → k ≠ j → s.todo k = [] := by
    intro k hki hkj
    by_cases hk : k < calls.length
    · simp [hs, hk, hki, hkj]
    · simp [hs, hk, hki, start]
  -- the second call registers all of its methods, and the first one its last
  obtain ⟨left, hleft, hsecond⟩ := puts_run hj (getPublicMethods cp I) [] s (by simp [hsj])
  obtain rfl := List.nil_perm.mp hleft
  have hlast := Step.put ⟨register cp s.services I bean', Function.update s.todo j []⟩ i (I, bean) m
    hi (by simp [hij, hsi])
  refine ⟨_, _, ((hfirst.append hothers).append hsecond).next hlast, ?_, ?_, ?_⟩
  · intro k
    by_cases hki : k = i
    · simp [hki, hij, hsi]
    · by_cases hkj : k = j
      · simp [hkj, hij.symm]
      · simpa [hki, hkj] using hsk k hki hkj
  · exact get_put_of_eqv (eqv_iff.mpr rfl) _ _
  · have hd : fromMethod I m' ≠ fromMethod I m := fun he =>
      hne (fromMethod_injOn cp (mem_getPublicMethods.mp hm').1
        (mem_getPublicMethods.mp hm).1 he).symm
    exact (get_put_of_not_eqv (eqv_eq_false_iff.mpr hd) _ _).trans (get_register_of_mem hm')

/-- No order of the calls serves two methods of one interface by different beans. -/
theorem not_sequential_of_mixed {services : Services B} {bean bean' : Option B} {m' : Method}
    (h : get services (fromMethod I m) = some ⟨bean, m⟩)
    (h' : get services (fromMethod I m') = some ⟨bean', m'⟩) (hne : bean ≠ bean') :
    ¬ Sequential cp hist calls services := by
  rintro ⟨order, _, heq⟩
  obtain ⟨J, hl, _, hd⟩ := (get_registered_iff _).mp ((heq _).symm.trans h)
  obtain ⟨J', hl', _, hd'⟩ := (get_registered_iff _).mp ((heq _).symm.trans h')
  obtain ⟨rfl, _⟩ := fromMethod_eq_iff.mp hd
  obtain ⟨rfl, _⟩ := fromMethod_eq_iff.mp hd'
  exact hne (Option.some.inj (hl.symm.trans hl'))

/-- Whatever the interleaving, concurrent calls leave what some sequence of them leaves, exactly
when no two of them register different beans for one interface of several methods. -/
theorem sequential_iff (cp : ClassPath) (hist calls : History B) :
    (∀ ls s, Run (Step calls) (start cp hist calls) ls s → Finished s →
      Sequential cp hist calls s.services) ↔ Compatible cp calls := by
  constructor
  · intro hall I
    by_contra hnot
    simp only [not_or, not_forall] at hnot
    obtain ⟨⟨call, hc, call', hc', hI, hI', hbean⟩, m, hm, m', hm', hne⟩ := hnot
    obtain ⟨i, hi⟩ := List.mem_iff_getElem?.mp hc
    obtain ⟨j, hj⟩ := List.mem_iff_getElem?.mp hc'
    have hij : i ≠ j := by
      rintro rfl
      exact hbean (congrArg Prod.snd (Option.some.inj (hi.symm.trans hj)))
    obtain ⟨ls, s, h, hf, hget, hget'⟩ := mixed_run hist
      (hi.trans (congrArg some (Prod.ext hI rfl))) (hj.trans (congrArg some (Prod.ext hI' rfl)))
      hij hm hm' hne
    exact not_sequential_of_mixed hget hget' hbean (hall ls s h hf)
  · intro hcomp ls s h hf
    exact sequential_of_compatible h hf hcomp

open Example in
/-- Two beans for the calculator. -/
def calculators : History Nat := [(calcService, some 1), (calcService, some 2)]

open Example in
/-- Registered at the same time, one of them adds and the other one subtracts. -/
theorem calculators_mixed : ∃ ls s,
    Run (Step calculators) (start classPath [] calculators) ls s ∧ Finished s ∧
      get s.services (fromMethod calcService add) = some ⟨some 1, add⟩ ∧
      get s.services (fromMethod calcService minus) = some ⟨some 2, minus⟩ ∧
      ¬ Sequential classPath [] calculators s.services := by
  have hadd : add ∈ getPublicMethods classPath calcService :=
    mem_getPublicMethods.mpr ⟨add_mem, rfl⟩
  have hminus : minus ∈ getPublicMethods classPath calcService :=
    mem_getPublicMethods.mpr ⟨by simp [classPath], rfl⟩
  have hne : add ≠ minus := fun he => absurd (congrArg Method.name he) (by decide)
  have hone : calculators[0]? = some (calcService, some 1) := rfl
  have htwo : calculators[1]? = some (calcService, some 2) := rfl
  obtain ⟨ls, s, h, hf, hget, hget'⟩ :=
    mixed_run [] hone htwo (by decide) hadd hminus hne
  exact ⟨ls, s, h, hf, hget, hget', not_sequential_of_mixed hget hget' (by decide)⟩

end Registering

end SpringDemo.Rpc

import SpringDemo.Blog.Search
import SpringDemo.Library.LastWrite
import SpringDemo.Library.Runs

/-! The search page: its fields, the requests on their way, and the callbacks that write the
fields. -/
namespace SpringDemo.Blog

open Java Lib.Runs Lib.LastWrite

/-- What the page asks of the server. -/
inductive Request where
  | getBlogs
  | search (type : JString) (keyword : Text)
deriving DecidableEq

variable {B D : Type}

/-- The data of a response: a list of blogs, or what a search found and how long it took. -/
inductive Response (B D : Type) where
  | blogs (data : List B)
  | found (list : List B) (duration : D)
deriving DecidableEq

namespace Response

def list : Response B D → List B
  | .blogs data => data
  | .found list _ => list

def duration? : Response B D → Option D
  | .blogs _ => none
  | .found _ duration => some duration

end Response

/-- The page, with its requests by number and those that have not been answered. -/
structure Page (B D : Type) where
  blogList : List B
  keyword : Text
  /-- none while the field is empty -/
  duration : Option D
  requests : List Request
  waiting : List Nat
deriving DecidableEq

namespace Page

def send (s : Page B D) (r : Request) : Page B D :=
  { s with requests := s.requests ++ [r], waiting := s.waiting ++ [s.requests.length] }

def getBlogs (s : Page B D) : Page B D := s.send .getBlogs

def searchWithMysql (s : Page B D) : Page B D := s.send (.search (utf16 "mysql") s.keyword)

def searchWithEs (s : Page B D) : Page B D := s.send (.search (utf16 "es") s.keyword)

/-- The callbacks: that of `getBlogs` writes the list, those of the searches write both fields. -/
def callback (s : Page B D) : Response B D → Page B D
  | .blogs data => { s with blogList := data }
  | .found list duration => { s with blogList := list, duration := some duration }

/-- The page as `created` leaves it. -/
def created : Page B D := getBlogs ⟨[], [], none, [], []⟩

end Page

/-- Each request is answered with what its callback reads. -/
def Request.AnsweredBy : Request → Response B D → Prop
  | .getBlogs, .blogs _ => True
  | .search .., .found .. => True
  | _, _ => False

inductive Label (B D : Type) where
  /-- the user edits the keyword -/
  | input (keyword : Text)
  | searchWithMysql
  | searchWithEs
  /-- the response to a request arrives -/
  | arrive (i : Nat) (r : Response B D)
deriving DecidableEq

/-- A response can arrive at any time, once and after its request. A request that is rejected runs
no callback: it changes nothing and stays unanswered, so it is no step. -/
inductive Page.Step : Page B D → Label B D → Page B D → Prop
  | input (s : Page B D) (keyword : Text) : Step s (.input keyword) { s with keyword := keyword }
  | searchWithMysql (s : Page B D) : Step s .searchWithMysql s.searchWithMysql
  | searchWithEs (s : Page B D) : Step s .searchWithEs s.searchWithEs
  | arrive (s : Page B D) (i : Nat) (r : Response B D) (q : Request) (hi : i ∈ s.waiting)
      (hq : s.requests[i]? = some q) (hr : q.AnsweredBy r) :
      Step s (.arrive i r) (callback { s with waiting := s.waiting.erase i } r)

variable {s t : Page B D} {l : Label B D} {ls : List (Label B D)} {i : Nat} {r : Response B D}

/-- What a search of the page is answered with always has a list and a duration. -/
theorem search_answer {E : Type} {db : Database} {table : Table} {cm : CaseMapping}
    {esBlogs : Option Text → Except Throwable (List E)} {millis : Nat} {type : JString}
    {keyword : Text} {reply : Reply E} (ht : type = utf16 "mysql" ∨ type = utf16 "es")
    (h : search db table cm esBlogs millis ⟨some type, some keyword⟩ = .ok reply) :
    ∃ list, reply = .map list millis := by
  by_cases hm : equalsIgnoreCase cm type (utf16 "mysql") = true
  · rw [search_mysql esBlogs millis hm] at h
    exact ⟨_, (Except.ok.inj h).symm⟩
  · rcases ht with rfl | rfl
    · exact absurd (equalsIgnoreCase_refl _) hm
    · cases he : esBlogs (some keyword) with
      | error e => simp [search, hm, equalsIgnoreCase_refl, he, bind, Except.bind] at h
      | ok content =>
        refine ⟨.es content, Except.ok.inj (h.symm.trans ?_)⟩
        simp [search, hm, equalsIgnoreCase_refl, he, bind, Except.bind, pure, Except.pure]

def arrival? : Label B D → Option (Nat × Response B D)
  | .arrive i r => some (i, r)
  | _ => none

/-- The request whose response writes `blogList`. -/
def listWriter? (l : Label B D) : Option Nat := (arrival? l).map Prod.fst

/-- The request whose response writes `duration`. -/
def durationWriter? (l : Label B D) : Option Nat :=
  (arrival? l).bind fun a => a.2.duration?.map fun _ => a.1

/-- What a run has made of the page. -/
structure Shown (ls : List (Label B D)) (s : Page B D) : Prop where
  blogList : s.blogList = ((last arrival? ls).map fun a => a.2.list).getD []
  duration : s.duration = last (fun l => (arrival? l).bind fun a => a.2.duration?) ls
  numbered : (ls.filterMap listWriter? ++ s.waiting).Perm (List.range s.requests.length)
  searches : ∀ i q, s.requests[i]? = some q → 0 < i → q ≠ .getBlogs
  answered : ∀ i r, .arrive i r ∈ ls → ∃ q, s.requests[i]? = some q ∧ q.AnsweredBy r

theorem shown_created : Shown [] (Page.created : Page B D) where
  blogList := rfl
  duration := rfl
  numbered := .refl _
  searches := by
    intro i q hq hi
    have : i < 1 := (List.getElem?_eq_some_iff.mp hq).1
    omega
  answered := by simp

/-- A label that brings no response leaves what is shown. -/
theorem shown_quiet (h : Shown ls s) (hl : arrival? l = none) : Shown (ls ++ [l]) s where
  blogList := by
    rw [last_concat, hl]
    exact h.blogList
  duration := by
    rw [last_concat, hl]
    exact h.duration
  numbered := by
    have hw : (ls ++ [l]).filterMap listWriter? = ls.filterMap listWriter? := by
      simp [listWriter?, hl]
    rw [hw]
    exact h.numbered
  searches := h.searches
  answered := by
    intro i r hm
    rcases List.mem_append.mp hm with hm | hm
    · exact h.answered i r hm
    · rw [← List.mem_singleton.mp hm] at hl
      cases hl

theorem shown_send (h : Shown ls s) {q : Request} (hq : q ≠ .getBlogs) : Shown ls (s.send q) where
  blogList := h.blogList
  duration := h.duration
  numbered := by
    rw [Page.send, ← List.append_assoc, List.length_append, List.length_singleton,
      List.range_succ]
    exact h.numbered.append_right _
  searches := by
    intro i q' hq' hi
    rw [Page.send, List.getElem?_append] at hq'
    split at hq'
    · exact h.searches i q' hq' hi
    · rw [List.mem_singleton.mp (List.mem_of_getElem? hq')]
      exact hq
  answered := by
    intro i r hm
    obtain ⟨q', hq', ha⟩ := h.answered i r hm
    exact ⟨q', (List.getElem?_append_left (List.getElem?_eq_some_iff.mp hq').1).trans hq', ha⟩

/-- A callback writes what came with its response. -/
theorem shown_arrive (h : Shown ls s) {q : Request} (hi : i ∈ s.waiting)
    (hq : s.requests[i]? = some q) (hr : q.AnsweredBy r) :
    Shown (ls ++ [.arrive i r]) (Page.callback { s with waiting := s.waiting.erase i } r) where
  blogList := by
    rw [last_concat]
    cases r <;> rfl
  duration := by
    rw [last_concat]
    cases r with
    | blogs data => exact h.duration
    | found list duration => rfl
  numbered := by
    have hw : (ls ++ [Label.arrive i r]).filterMap listWriter? =
        ls.filterMap listWriter? ++ [i] := by simp [listWriter?, arrival?]
    have hp : ((ls.filterMap listWriter? ++ [i]) ++ s.waiting.erase i).Perm
        (List.range s.requests.length) := by
      rw [List.append_assoc, List.singleton_append]
      exact ((List.perm_cons_erase hi).symm.append_left _).trans h.numbered
    rw [hw]
    cases r <;> exact hp
  searches := by
    cases r <;> exact h.searches
  answered := by
    have hall : ∀ j r', .arrive j r' ∈ ls ++ [.arrive i r] →
        ∃ q, s.requests[j]? = some q ∧ q.AnsweredBy r' := by
      intro j r' hm
      rcases List.mem_append.mp hm with hm | hm
      · exact h.answered j r' hm
      · cases List.mem_singleton.mp hm
        exact ⟨q, hq, hr⟩
    cases r <;> exact hall

theorem shown_step (h : Shown ls s) (hs : Page.Step s l t) : Shown (ls ++ [l]) t := by
  cases hs with
  | input keyword =>
    exact shown_quiet ⟨h.blogList, h.duration, h.numbered, h.searches, h.answered⟩ rfl
  | searchWithMysql => exact shown_quiet (shown_send h nofun) rfl
  | searchWithEs => exact shown_quiet (shown_send h nofun) rfl
  | arrive i r q hi hq hr => exact shown_arrive h hi hq hr

theorem shown_run (h : Run Page.Step .created ls s) : Shown ls s :=
  h.history (R := Shown) (fun _ _ _ _ hs hi => shown_step hi hs) shown_created

/-- No response takes the place of the response to a later request. -/
def NeverReplaced (writer? : Label B D → Option Nat) (ls : List (Label B D)) : Prop :=
  ∀ pre l post, ls = pre ++ l :: post →
    ∀ j i, last writer? pre = some j → writer? l = some i → j ≤ i

/-- When everything has been answered the page shows what the last search found, and on the way to
there no field goes back to an earlier request. -/
structure ShowsLatest (ls : List (Label B D)) (s : Page B D) : Prop where
  latest : s.waiting = [] → ∀ n, s.requests.length = n + 1 → 0 < n →
    ∃ list duration, .arrive n (.found list duration) ∈ ls ∧
      s.blogList = list ∧ s.duration = some duration
  list : NeverReplaced listWriter? ls
  duration : NeverReplaced durationWriter? ls

theorem listWriter?_of_durationWriter? (h : durationWriter? l = some i) :
    listWriter? l = some i := by
  cases l with
  | arrive j r => cases r <;> simp_all [durationWriter?, listWriter?, arrival?, Response.duration?]
  | _ => cases h

/-- What writes the duration also writes the list. -/
theorem durationWriters_sublist (ls : List (Label B D)) :
    (ls.filterMap durationWriter?).Sublist (ls.filterMap listWriter?) := by
  induction ls with
  | nil => exact .slnil
  | cons l ls ih =>
    cases hd : durationWriter? l with
    | none =>
      rw [List.filterMap_cons_none hd]
      cases hl : listWriter? l with
      | none => rwa [List.filterMap_cons_none hl]
      | some i =>
        rw [List.filterMap_cons_some hl]
        exact ih.cons i
    | some i =>
      rw [List.filterMap_cons_some hd,
        List.filterMap_cons_some (listWriter?_of_durationWriter? hd)]
      exact ih.cons_cons i

/-- The responses come in the order of their requests. -/
def InOrder (ls : List (Label B D)) : Prop := (ls.filterMap listWriter?).Pairwise (· < ·)

theorem latest_of_inOrder (h : Shown ls s) (ho : InOrder ls) (hw : s.waiting = []) {n : Nat}
    (hn : s.requests.length = n + 1) (hpos : 0 < n) :
    ∃ list duration, .arrive n (.found list duration) ∈ ls ∧
      s.blogList = list ∧ s.duration = some duration := by
  have hp := h.numbered
  rw [hw, List.append_nil, hn] at hp
  -- all numbers have arrived, in order: the last of them is that of the last search
  have horder : ls.filterMap listWriter? = List.range (n + 1) :=
    hp.eq_of_pairwise (fun a b _ _ hab hba => absurd (hab.trans hba) (lt_irrefl a)) ho
      List.pairwise_lt_range
  have hlast : last listWriter? ls = some n := by
    rw [last_eq_getLast?, horder, List.getLast?_range]
    rfl
  obtain ⟨⟨i, r⟩, hr, rfl⟩ := Option.map_eq_some_iff.mp ((map_last Prod.fst ls).trans hlast)
  obtain ⟨l, hl, hlr⟩ := exists_of_last hr
  obtain rfl : l = .arrive i r := by
    cases l <;> simp_all [arrival?]
  obtain ⟨q, hq, ha⟩ := h.answered i r hl
  cases r with
  | blogs data =>
    cases q with
    | getBlogs => exact absurd rfl (h.searches i _ hq hpos)
    | search type keyword => exact ha.elim
  | found list duration =>
    refine ⟨list, duration, hl, ?_, ?_⟩
    · rw [h.blogList, hr]
      rfl
    · rw [h.duration]
      exact last_bind hr rfl

/-- The page shows the latest search, on the way and in the end, exactly when the responses arrive
in the order in which their requests were sent. -/
theorem shows_latest_iff (h : Run Page.Step .created ls s) : ShowsLatest ls s ↔ InOrder ls := by
  have hs := shown_run h
  have hnodup : (ls.filterMap listWriter?).Nodup :=
    (List.nodup_append.mp (hs.numbered.nodup_iff.mpr List.nodup_range)).1
  constructor
  · intro hl
    refine ((pairwise_iff_last.mpr hl.list).and hnodup).imp fun hab => ?_
    exact lt_of_le_of_ne hab.1 hab.2
  · intro ho
    refine ⟨fun hw n hn hpos => latest_of_inOrder hs ho hw hn hpos, ?_, ?_⟩
    · exact pairwise_iff_last.mp (ho.imp le_of_lt)
    · exact pairwise_iff_last.mp ((ho.sublist (durationWriters_sublist ls)).imp le_of_lt)

namespace Example

/-- Two searches, the first on the slower store, and the order in which their responses arrive. -/
def twoSearches (first second : Nat × Response Nat Nat) : List (Label Nat Nat) :=
  [.input ['a'], .searchWithMysql, .searchWithEs, .arrive 0 (.blogs [7, 8]),
    .arrive first.1 first.2, .arrive second.1 second.2]

def overtaken : List (Label Nat Nat) := twoSearches (2, .found [2] 20) (1, .found [1] 300)

def inTurn : List (Label Nat Nat) := twoSearches (1, .found [1] 300) (2, .found [2] 20)

def answered (list : List Nat) (duration : Nat) : Page Nat Nat where
  blogList := list
  keyword := ['a']
  duration := some duration
  requests := [.getBlogs, .search (utf16 "mysql") ['a'], .search (utf16 "es") ['a']]
  waiting := []

/-- Both searches are on their way, and the first list is there. -/
def searching : Page Nat Nat where
  blogList := [7, 8]
  keyword := ['a']
  duration := none
  requests := [.getBlogs, .search (utf16 "mysql") ['a'], .search (utf16 "es") ['a']]
  waiting := [1, 2]

theorem searching_run : Run Page.Step .created
    [.input ['a'], .searchWithMysql, .searchWithEs, .arrive 0 (.blogs [7, 8])] searching :=
  (((Run.single (.input _ ['a'])).next (.searchWithMysql _)).next (.searchWithEs _)).next
    (.arrive _ 0 (.blogs [7, 8]) .getBlogs (by decide) rfl trivial)

theorem twoSearches_run {i j : Nat} {list list' : List Nat} {d d' : Nat}
    (h : (i = 1 ∧ j = 2) ∨ (i = 2 ∧ j = 1)) :
    Run Page.Step .created (twoSearches (i, .found list d) (j, .found list' d'))
      (answered list' d') := by
  rcases h with ⟨rfl, rfl⟩ | ⟨rfl, rfl⟩
  · exact (searching_run.next
      (.arrive _ 1 (.found list d) _ (by simp [searching]) rfl trivial)).next
      (.arrive _ 2 (.found list' d') _ (List.mem_singleton_self _) rfl trivial)
  · exact (searching_run.next
      (.arrive _ 2 (.found list d) _ (by simp [searching]) rfl trivial)).next
      (.arrive _ 1 (.found list' d') _ (List.mem_singleton_self _) rfl trivial)

theorem shows_latest_inTurn : ShowsLatest inTurn (answered [2] 20) := by
  refine (shows_latest_iff (twoSearches_run (.inl ⟨rfl, rfl⟩))).mpr ?_
  unfold InOrder
  decide

/-- The page ends with what the first search found. -/
theorem shows_overtaken : Run Page.Step .created overtaken (answered [1] 300) ∧
    ¬ ShowsLatest overtaken (answered [1] 300) := by
  refine ⟨twoSearches_run (.inr ⟨rfl, rfl⟩), fun h => ?_⟩
  obtain ⟨list, duration, hm, hl, -⟩ := h.latest rfl 2 rfl (by decide)
  obtain rfl : [1] = list := hl
  simp [overtaken, twoSearches] at hm

end Example

end SpringDemo.Blog

import Mathlib.Data.List.Find
import Mathlib.Data.List.TakeWhile
import SpringDemo.Blog.Page

/-! The links of the search page, and the page of one blog that a link opens. -/
namespace SpringDemo.Blog

open Java Lib.Runs

/-- `window.location.search` of an address that needs no escapes. -/
def locationSearch (address : Text) : Text :=
  match (address.takeWhile (· ≠ '#')).dropWhile (· ≠ '?') with
  | [_] => []
  | search => search

/-- What the script has read out of the query; what it has not found is `false`. -/
inductive QueryValue where
  | string (value : Text)
  | undefined
  | notFound
deriving DecidableEq

/-- The value as `+` appends it to a string. -/
def QueryValue.toText : QueryValue → Text
  | string value => value
  | undefined => "undefined".toList
  | notFound => "false".toList

@[simp] theorem toText_string (value : Text) : (QueryValue.string value).toText = value := rfl

def getQueryVariable (search name : Text) : QueryValue :=
  let query := search.drop 1
  let vars := query.splitOn '&'
  match vars.find? fun v => (v.splitOn '=')[0]? = some name with
  | none => .notFound
  | some v =>
    match (v.splitOn '=')[1]? with
    | none => .undefined
    | some value => .string value

/-- A query as its pairs are written. -/
def render (params : List (Text × Text)) : Text :=
  ['&'].intercalate (params.map fun p => p.1 ++ '=' :: p.2)

/-- Does not end a name, a value or the query. -/
def Separated (t : Text) : Prop := ∀ c ∈ t, c ≠ '&' ∧ c ≠ '=' ∧ c ≠ '#'

variable {params : List (Text × Text)} {n v : Text}

theorem splitOn_pair (hn : Separated n) (hv : Separated v) :
    (n ++ '=' :: v).splitOn '=' = [n, v] := by
  rw [List.splitOn_append_cons_self_of_not_mem fun h => (hn _ h).2.1 rfl,
    List.splitOn_eq_singleton fun h => (hv _ h).2.1 rfl]

/-- The pairs that were written are read back, the first of a name before the others. -/
theorem getQueryVariable_render (hp : ∀ p ∈ params, Separated p.1 ∧ Separated p.2)
    (hne : params ≠ []) (name : Text) : getQueryVariable ('?' :: render params) name =
      ((params.find? fun p => p.1 = name).map Prod.snd).elim .notFound .string := by
  have hsplit : (render params).splitOn '&' = params.map fun p => p.1 ++ '=' :: p.2 := by
    refine List.splitOn_intercalate '&' (fun l hl => ?_) (by simpa using hne)
    obtain ⟨p, hpm, rfl⟩ := List.mem_map.mp hl
    obtain ⟨hn, hv⟩ := hp p hpm
    rw [List.mem_append, List.mem_cons]
    rintro (h | h | h)
    · exact (hn _ h).1 rfl
    · exact absurd h (by decide)
    · exact (hv _ h).1 rfl
  have hfind : (params.map fun p => p.1 ++ '=' :: p.2).find?
      (fun v => (v.splitOn '=')[0]? = some name) =
      (params.find? fun p => p.1 = name).map fun p => p.1 ++ '=' :: p.2 := by
    rw [List.find?_map]
    congr 1
    refine List.find?_congr fun p hpm => ?_
    simp [splitOn_pair (hp p hpm).1 (hp p hpm).2]
  simp only [getQueryVariable, List.drop_one, List.tail_cons, hsplit, hfind]
  cases hf : params.find? fun p => p.1 = name with
  | none => rfl
  | some p =>
    obtain ⟨hn, hv⟩ := hp p (List.mem_of_find?_eq_some hf)
    simp [splitOn_pair hn hv]

/-- A document of the search index. -/
structure EsBlog where
  id : Option Int
  title : Option Text
  author : Option Text
  content : Option Text
  createTime : Option Int
  updateTime : Option Int
deriving DecidableEq

def decimal (n : Int) : Text := (toString n).toList

/-- A value of the column `id`. -/
def IsInteger (n : Int) : Prop := -2147483648 ≤ n ∧ n ≤ 2147483647

/-- What the libraries do for the two pages. -/
structure Libraries where
  /-- the text behind `/blog/` as the `Integer` that is bound to `id`, unless it is refused -/
  toInteger : Text → Option Int
  toInteger_decimal : ∀ n, IsInteger n → toInteger (decimal n) = some n
  formatDate : Int → Text
  /-- the HTML of a text, unless it throws; a null text always throws -/
  marked : Text → Option Text

variable (db : Database) (table : Table) (lib : Libraries)

def queryAll : List MySqlBlog := db.orderByCreateTimeDesc table.rows

def findById (id : Int) : Option MySqlBlog := table.rows.find? fun e => e.id = id

/-- What `Optional.get` throws. -/
def noSuchElementException : Throwable :=
  ⟨.runtime, utf16 "java.util.NoSuchElementException", some (utf16 "No value present")⟩

/-- `GET /blog/{id}`. -/
def blog (id : Int) : Except Throwable MySqlBlog :=
  match findById table id with
  | none => .error noSuchElementException
  | some e => .ok e

/-- The data of the page; a field of the response may be null. -/
structure Article where
  title : Option Text
  author : Option Text
  createTime : Option Text
  content : Text
deriving DecidableEq

namespace Article

def blank : Article := ⟨some [], some [], some [], []⟩

/-- The callback. It writes the content last, and not at all when `marked` throws. -/
def received (a : Article) (e : MySqlBlog) : Article where
  title := e.title
  author := e.author
  createTime := e.createTime.map lib.formatDate
  content := (e.content.bind lib.marked).getD a.content

/-- The page at an address, once its request has been answered or refused. -/
def created (address : Text) : Article :=
  let id := getQueryVariable (locationSearch address) "id".toList
  match lib.toInteger id.toText with
  | none => blank
  | some id =>
    match blog table id with
    | .error _ => blank
    | .ok e => blank.received lib e

end Article

/-- What the search page lists. -/
inductive Listed where
  | mysql (e : MySqlBlog)
  | es (e : EsBlog)
deriving DecidableEq

/-- `'blog.html?id='+blog.id`. -/
def Listed.href : Listed → Text
  | mysql e => "blog.html?id=".toList ++ decimal e.id
  | es e => "blog.html?id=".toList ++ (e.id.map decimal).getD "null".toList

theorem href_mysql (e : MySqlBlog) :
    (Listed.mysql e).href = "blog.html?id=".toList ++ decimal e.id := rfl

theorem href_es {e : EsBlog} {id : Int} (h : e.id = some id) :
    (Listed.es e).href = "blog.html?id=".toList ++ decimal id := by
  have hid : (e.id.map decimal).getD "null".toList = decimal id := by simp [h]
  exact congrArg ("blog.html?id=".toList ++ ·) hid

def Blogs.listed : Blogs EsBlog → List Listed
  | .mysql list => list.map .mysql
  | .es list => list.map .es

/-- The answers of the server. What a search on the index finds is left to the index. -/
inductive Serves (cm : CaseMapping) : Request → Response Listed Nat → Prop
  | blogs : Serves cm .getBlogs (.blogs ((queryAll db table).map .mysql))
  | found (esBlogs : Option Text → Except Throwable (List EsBlog)) (type : JString)
      (keyword : Text) (list : Blogs EsBlog) (millis : Nat)
      (h : search db table cm esBlogs millis ⟨some type, some keyword⟩ = .ok (.map list millis)) :
      Serves cm (.search type keyword) (.found list.listed millis)

/-- A step of the search page, every response being an answer of the server. -/
inductive Site (cm : CaseMapping) : Page Listed Nat → Label Listed Nat → Page Listed Nat → Prop
  | step (s : Page Listed Nat) (l : Label Listed Nat) (t : Page Listed Nat)
      (hs : Page.Step s l t)
      (hr : ∀ i r q, l = .arrive i r → s.requests[i]? = some q → Serves db table cm q r) :
      Site cm s l t

variable {db table lib} {cm : CaseMapping} {e : MySqlBlog} {id : Int}

theorem findById_eq_some_iff : findById table id = some e ↔ e ∈ table.rows ∧ e.id = id := by
  constructor
  · intro h
    exact ⟨List.mem_of_find?_eq_some h, by simpa using List.find?_some h⟩
  · rintro ⟨hm, rfl⟩
    obtain ⟨f, hf⟩ : ∃ f, findById table e.id = some f :=
      Option.isSome_iff_exists.mp (List.find?_isSome.mpr ⟨e, hm, decide_eq_true rfl⟩)
    have hid : f.id = e.id := by simpa using List.find?_some hf
    rw [hf, List.inj_on_of_nodup_map table.nodup (List.mem_of_find?_eq_some hf) hm hid]

theorem mem_decimal {n : Int} {c : Char} (h : c ∈ decimal n) : c = '-' ∨ c.isDigit = true :=
  Lib.Text.mem_numeral h

theorem decimal_separated (n : Int) : Separated (decimal n) := by
  intro c hc
  rcases mem_decimal hc with rfl | h
  · decide
  · refine ⟨?_, ?_, ?_⟩ <;> (rintro rfl; exact absurd h (by decide))

/-- The query is what stands behind the first question mark. -/
theorem locationSearch_append {path query : Text} (hp : ∀ c ∈ path, c ≠ '?' ∧ c ≠ '#')
    (hq : ∀ c ∈ query, c ≠ '#') (hne : query ≠ []) :
    locationSearch (path ++ '?' :: query) = '?' :: query := by
  have hall : ∀ c ∈ path ++ '?' :: query, decide (c ≠ '#') = true := by
    intro c hc
    rcases List.mem_append.mp hc with hc | hc
    · exact decide_eq_true (hp c hc).2
    · rcases List.mem_cons.mp hc with rfl | hc
      · rfl
      · exact decide_eq_true (hq c hc)
  have hpath : ∀ c ∈ path, decide (c ≠ '?') = true := fun c hc => decide_eq_true (hp c hc).1
  rw [locationSearch, List.takeWhile_eq_self_iff.mpr hall, List.dropWhile_append_of_pos hpath]
  cases query with
  | nil => exact absurd rfl hne
  | cons c query => rfl

theorem href_eq (t : Text) :
    "blog.html?id=".toList ++ t = "blog.html".toList ++ '?' :: render [("id".toList, t)] := by
  have hlit : "blog.html?id=".toList = "blog.html".toList ++ '?' :: "id".toList ++ ['='] := rfl
  rw [hlit]
  simp [render]

theorem id_separated : Separated "id".toList := by simp [Separated]

theorem locationSearch_href {t : Text} (ht : Separated t) :
    locationSearch ("blog.html?id=".toList ++ t) = '?' :: render [("id".toList, t)] := by
  have hpath : ∀ c ∈ "blog.html".toList, c ≠ '?' ∧ c ≠ '#' := by simp
  rw [href_eq]
  refine locationSearch_append hpath (fun c hc => ?_) (by simp [render])
  rcases List.mem_append.mp (by simpa [render] using hc : c ∈ "id".toList ++ '=' :: t) with hc | hc
  · exact (id_separated c hc).2.2
  · rcases List.mem_cons.mp hc with rfl | hc
    · decide
    · exact (ht c hc).2.2

/-- The page that the link of an id opens. -/
theorem created_href (hid : IsInteger id) :
    Article.created table lib ("blog.html?id=".toList ++ decimal id) =
      (findById table id).elim .blank (Article.blank.received lib) := by
  have hpair : ∀ p ∈ [("id".toList, decimal id)], Separated p.1 ∧ Separated p.2 :=
    List.forall_mem_singleton.mpr ⟨id_separated, decimal_separated id⟩
  have hq : getQueryVariable (locationSearch ("blog.html?id=".toList ++ decimal id)) "id".toList =
      .string (decimal id) := by
    rw [locationSearch_href (decimal_separated id),
      getQueryVariable_render hpair (List.cons_ne_nil _ _), List.find?_cons_of_pos (by simp)]
    rfl
  have hid := lib.toInteger_decimal id hid
  simp only [Article.created, hq, toText_string, hid, blog]
  cases findById table id <;> rfl

/-- What is listed out of the database is in it. -/
def Stored (table : Table) (s : Page Listed Nat) : Prop :=
  ∀ e, .mysql e ∈ s.blogList → e ∈ table.rows

/-- A list out of the database is what the query found. -/
theorem eq_queryBlogs_of_search {esBlogs : Option Text → Except Throwable (List EsBlog)}
    {millis duration : Nat} {type : JString} {keyword : Text} {list : List MySqlBlog}
    (h : search db table cm esBlogs millis ⟨some type, some keyword⟩ =
      .ok (.map (.mysql list) duration)) : list = queryBlogs db table (some keyword) := by
  by_cases hm : equalsIgnoreCase cm type (utf16 "mysql") = true
  · rw [search_mysql esBlogs millis hm] at h
    cases h
    rfl
  · by_cases he : equalsIgnoreCase cm type (utf16 "es") = true
    · cases hes : esBlogs (some keyword) with
      | error e => simp [search, hm, he, hes, bind, Except.bind] at h
      | ok content => simp [search, hm, he, hes, bind, Except.bind, pure, Except.pure] at h
    · simp [search, hm, he] at h

theorem mem_of_serves {q : Request} {r : Response Listed Nat} (h : Serves db table cm q r)
    (he : .mysql e ∈ r.list) : e ∈ table.rows := by
  cases h with
  | blogs =>
    obtain ⟨f, hf, hef⟩ := List.mem_map.mp he
    cases hef
    exact (db.perm _).mem_iff.mp hf
  | found esBlogs type keyword list millis h =>
    cases list with
    | es list =>
      obtain ⟨f, -, hef⟩ := List.mem_map.mp he
      cases hef
    | mysql list =>
      obtain ⟨f, hf, hef⟩ := List.mem_map.mp he
      cases hef
      rw [eq_queryBlogs_of_search h, mem_queryBlogs] at hf
      exact hf.1

theorem stored_step {s t : Page Listed Nat} {l : Label Listed Nat} (hi : Stored table s)
    (h : Site db table cm s l t) : Stored table t := by
  obtain ⟨hs, hr⟩ := h
  cases hs with
  | input keyword => exact hi
  | searchWithMysql => exact hi
  | searchWithEs => exact hi
  | arrive i r q hi' hq ha =>
    intro e he
    refine mem_of_serves (hr i r q rfl hq) ?_
    cases r <;> exact he

/-- Whatever the user searches for and in whatever order the answers arrive: every link that is
listed out of the database opens the very blog it stands for, and one out of the index opens the
blog with its id, or a blank page when there is none. -/
theorem links_open {s : Page Listed Nat} {ls : List (Label Listed Nat)}
    (h : Run (Site db table cm) .created ls s) (hids : ∀ e ∈ table.rows, IsInteger e.id) :
    (∀ e, .mysql e ∈ s.blogList → e ∈ table.rows ∧
      Article.created table lib (Listed.mysql e).href = Article.blank.received lib e) ∧
    ∀ e id, .es e ∈ s.blogList → e.id = some id → IsInteger id →
      Article.created table lib (Listed.es e).href =
        (findById table id).elim .blank (Article.blank.received lib) := by
  have hstored := h.invariant (P := Stored table) (fun _ _ _ hs hi => stored_step hi hs)
    fun _ he => absurd he List.not_mem_nil
  refine ⟨fun e he => ?_, fun e id _ hid hi => ?_⟩
  · have hm := hstored e he
    refine ⟨hm, ?_⟩
    rw [href_mysql, created_href (hids e hm), findById_eq_some_iff.mpr ⟨hm, rfl⟩]
    rfl
  · rw [href_es hid, created_href hi]

namespace Example

/-- The number that digits stand for, with a minus before them or none. -/
def parse : Text → Int
  | '-' :: ds => -Nat.ofDigitChars 10 ds 0
  | ds => Nat.ofDigitChars 10 ds 0

theorem parse_decimal (n : Int) : parse (decimal n) = n := by
  cases n with
  | ofNat m =>
    rw [decimal, Lib.Text.toList_ofNat]
    unfold parse
    split
    · rename_i ds h
      exact absurd h (Lib.Text.toDigits_ne_minus ds)
    · rw [Nat.ofDigitChars_ten_toDigits]
      rfl
  | negSucc m =>
    rw [decimal, Lib.Text.toList_negSucc, parse, Nat.ofDigitChars_ten_toDigits]
    rfl

/-- Numbers as they are printed, and texts that are their own HTML. -/
def plain : Libraries where
  toInteger t := if t.all fun c => c == '-' || c.isDigit then some (parse t) else none
  toInteger_decimal n _ := by
    rw [if_pos, parse_decimal]
    refine List.all_eq_true.mpr fun c hc => ?_
    rcases mem_decimal hc with rfl | hd
    · rfl
    · rw [hd, Bool.or_true]
  formatDate := decimal
  marked := some

def greeting : MySqlBlog :=
  ⟨7, some "Hello".toList, none, some "It works.".toList, some 0, none⟩

theorem listed_run : Run (Site stable (.single greeting) .basicLatin) .created
    [.arrive 0 (.blogs [.mysql greeting])] ⟨[.mysql greeting], [], none, [.getBlogs], []⟩ := by
  refine .single (.step _ _ _ (.arrive _ 0 _ .getBlogs (List.mem_singleton_self _) rfl trivial) ?_)
  rintro i r q he hq
  cases he
  obtain rfl : Request.getBlogs = q := Option.some.inj hq
  have hall : queryAll stable (.single greeting) = [greeting] := by
    simp [queryAll, stable, Table.single]
  have hb : Serves stable (.single greeting) .basicLatin .getBlogs (.blogs _) := .blogs
  rwa [hall] at hb

/-- The first list has a link to the only blog, and this opens it. -/
theorem links_open_greeting : Article.created (.single greeting) plain "blog.html?id=7".toList =
    ⟨some "Hello".toList, none, some "0".toList, "It works.".toList⟩ := by
  have hids : ∀ e ∈ (Table.single greeting).rows, IsInteger e.id :=
    List.forall_mem_singleton.mpr (by unfold IsInteger; decide)
  exact ((links_open listed_run hids).1 greeting (List.mem_singleton_self _)).2

end Example

end SpringDemo.Blog

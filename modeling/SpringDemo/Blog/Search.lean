import SpringDemo.Java.Util
import SpringDemo.Library.Like
import Mathlib.Data.List.Nodup

/-! The blog search: the query on the database, and the request that runs it. -/
namespace SpringDemo.Blog

open Java Lib.Like

/-- Strings as the database stores them, by their characters. -/
abbrev Text := List Char

/-- A row of `t_blog`. Every column but the key may be null; a time is in milliseconds. -/
structure MySqlBlog where
  id : Int
  title : Option Text
  author : Option Text
  content : Option Text
  createTime : Option Int
  updateTime : Option Int
deriving DecidableEq

/-- The table, with its primary key. -/
structure Table where
  rows : List MySqlBlog
  nodup : (rows.map MySqlBlog.id).Nodup

/-- May stand before the other under `order by createTime desc`, which puts null last. -/
def createTimeDesc (e f : MySqlBlog) : Bool :=
  match e.createTime, f.createTime with
  | _, none => true
  | none, some _ => false
  | some t, some u => u ≤ t

/-- How the database orders a selection; what comes first of rows of one time is left to it. -/
structure Database where
  orderByCreateTimeDesc : List MySqlBlog → List MySqlBlog
  perm : ∀ rows, (orderByCreateTimeDesc rows).Perm rows
  sorted : ∀ rows, (orderByCreateTimeDesc rows).Pairwise fun e f => createTimeDesc e f

/-- The wildcards of `LIKE`. -/
def wildcards : Wildcards Char where
  run := '%'
  one := '_'
  escape := '\\'
  run_ne_escape := by decide
  run_ne_one := by decide

/-- `column like pattern`; null when either is null. -/
def columnLike (column pattern : Option Text) : Option Bool := do
  let text ← column
  let pattern ← pattern
  pure (like (wildcards.parts pattern) text)

/-- `concat('%', keyword, '%')`; null when the keyword is. -/
def containing (keyword : Option Text) : Option Text :=
  keyword.map fun k => '%' :: (k ++ ['%'])

/-- The `where` clause, which selects a row when one of its conditions is true. -/
def selects (keyword : Option Text) (e : MySqlBlog) : Bool :=
  columnLike e.title (containing keyword) == some true ||
    columnLike e.content (containing keyword) == some true

variable (db : Database) (table : Table)

def queryBlogs (keyword : Option Text) : List MySqlBlog :=
  db.orderByCreateTimeDesc (table.rows.filter (selects keyword))

/-- The body of a search request. -/
structure Param where
  type : Option JString
  keyword : Option Text

/-- The list of a reply, from the one store or from the other. -/
inductive Blogs (E : Type) where
  | mysql (list : List MySqlBlog)
  | es (list : List E)

inductive Reply (E : Type) where
  | map (list : Blogs E) (duration : Nat)
  | text (message : JString)

variable {E : Type}

/-- `POST /search`, with what the search index answers and with the time that the watch measures. -/
def search (cm : CaseMapping) (esBlogs : Option Text → Except Throwable (List E))
    (totalTimeMillis : Nat) (param : Param) : Except Throwable (Reply E) :=
  match param.type with
  | none => .error .nullPointerException
  | some type =>
    if equalsIgnoreCase cm type (utf16 "mysql") then
      .ok (.map (.mysql (queryBlogs db table param.keyword)) totalTimeMillis)
    else if equalsIgnoreCase cm type (utf16 "es") then do
      let content ← esBlogs param.keyword
      pure (.map (.es content) totalTimeMillis)
    else .ok (.text (utf16 ">>> 不知道 <<<"))

/-- The keyword stands in the title or in the content, character for character. -/
def MySqlBlog.Contains (keyword : Text) (e : MySqlBlog) : Prop :=
  (∃ t ∈ e.title, keyword <:+: t) ∨ ∃ t ∈ e.content, keyword <:+: t

/-- The blogs that contain the keyword, each once, the latest first. -/
structure FindsSubstring (keyword : Text) (table : Table) (list : List MySqlBlog) : Prop where
  mem : ∀ e, e ∈ list ↔ e ∈ table.rows ∧ e.Contains keyword
  nodup : list.Nodup
  sorted : list.Pairwise fun e f => createTimeDesc e f

variable {db table} {cm : CaseMapping} {keyword : Text} {e : MySqlBlog}

theorem mem_queryBlogs {keyword : Option Text} :
    e ∈ queryBlogs db table keyword ↔ e ∈ table.rows ∧ selects keyword e = true := by
  rw [queryBlogs, (db.perm _).mem_iff, List.mem_filter]

theorem queryBlogs_nodup (keyword : Option Text) : (queryBlogs db table keyword).Nodup :=
  (db.perm _).nodup_iff.mpr ((List.Nodup.of_map _ table.nodup).filter _)

theorem queryBlogs_sorted (keyword : Option Text) :
    (queryBlogs db table keyword).Pairwise fun e f => createTimeDesc e f := db.sorted _

/-- The column is not null and is what the pattern stands for. -/
theorem columnLike_eq_true {column : Option Text} {keyword : Text} :
    columnLike column (containing (some keyword)) = some true ↔
      ∃ t ∈ column, like (wildcards.parts ('%' :: (keyword ++ ['%']))) t = true := by
  cases column <;> simp [columnLike, containing]

theorem selects_iff : selects (some keyword) e = true ↔
    (∃ t ∈ e.title, like (wildcards.parts ('%' :: (keyword ++ ['%']))) t = true) ∨
      ∃ t ∈ e.content, like (wildcards.parts ('%' :: (keyword ++ ['%']))) t = true := by
  rw [selects, Bool.or_eq_true, beq_iff_eq, beq_iff_eq, columnLike_eq_true, columnLike_eq_true]

/-- A blog of which nothing but the title is known. -/
def titled (title : Text) : MySqlBlog := ⟨1, some title, none, none, none, none⟩

/-- A table of one row. -/
def Table.single (e : MySqlBlog) : Table := ⟨[e], List.nodup_singleton _⟩

/-- The query selects as a substring search would, in every table, when it does so for every
title. -/
theorem finds_substring_iff_like : (∀ table, FindsSubstring keyword table
      (queryBlogs db table (some keyword))) ↔
    ∀ t, like (wildcards.parts ('%' :: (keyword ++ ['%']))) t = true ↔ keyword <:+: t := by
  constructor
  · intro h t
    have hm := (h (.single (titled t))).mem (titled t)
    rw [mem_queryBlogs, selects_iff] at hm
    simpa [Table.single, titled, MySqlBlog.Contains] using hm
  · intro h table
    refine ⟨fun e => ?_, queryBlogs_nodup _, queryBlogs_sorted _⟩
    rw [mem_queryBlogs, selects_iff]
    simp only [h, MySqlBlog.Contains]

theorem search_mysql (esBlogs : Option Text → Except Throwable (List E)) (millis : Nat)
    {type : JString} (h : equalsIgnoreCase cm type (utf16 "mysql") = true)
    (keyword : Option Text) : search db table cm esBlogs millis ⟨some type, keyword⟩ =
      .ok (.map (.mysql (queryBlogs db table keyword)) millis) := by
  simp [search, h]

/-- The database search is a substring search exactly for the keywords without `%`, without `_` and
without a backslash. -/
theorem substring_search_iff (db : Database) (cm : CaseMapping)
    (esBlogs : Option Text → Except Throwable (List E)) (millis : Nat) (keyword : Text) :
    (∀ table, FindsSubstring keyword table (queryBlogs db table (some keyword)) ∧
      ∀ type, equalsIgnoreCase cm type (utf16 "mysql") = true → ∃ list,
        search db table cm esBlogs millis ⟨some type, some keyword⟩ =
          .ok (.map (.mysql list) millis) ∧ FindsSubstring keyword table list) ↔
      ∀ c ∈ keyword, c ≠ '%' ∧ c ≠ '_' ∧ c ≠ '\\' := by
  have hplain : (∀ table, FindsSubstring keyword table (queryBlogs db table (some keyword))) ↔
      wildcards.Plain keyword :=
    finds_substring_iff_like.trans (like_infix_iff_plain wildcards keyword)
  constructor
  · intro h
    exact hplain.mp fun table => (h table).1
  · intro h table
    have hfinds := hplain.mpr h table
    exact ⟨hfinds, fun type ht => ⟨_, search_mysql esBlogs millis ht _, hfinds⟩⟩

namespace Example

/-- The order of a stable sort. -/
def stable : Database where
  orderByCreateTimeDesc rows := rows.mergeSort createTimeDesc
  perm rows := List.mergeSort_perm rows _
  sorted rows := by
    refine List.pairwise_mergeSort (fun e f g hef hfg => ?_) (fun e f => ?_) rows
    · unfold createTimeDesc at *
      grind
    · unfold createTimeDesc
      grind

/-- A blog on the number 1000 is found for a percentage. -/
theorem percentage_found : ∃ table,
    ¬ FindsSubstring "100%".toList table (queryBlogs stable table (some "100%".toList)) := by
  refine ⟨.single (titled "1000".toList), fun h => ?_⟩
  have hm := (h.mem (titled "1000".toList)).mp
    (mem_queryBlogs.mpr ⟨List.mem_singleton_self _, by decide⟩)
  rcases hm.2 with ⟨t, ht, hk⟩ | ⟨t, ht, -⟩
  · obtain rfl : "1000".toList = t := Option.some.inj ht
    exact absurd hk (by decide)
  · cases ht

end Example

end SpringDemo.Blog

import MessagesApp.Service.Pagination
import Mathlib.Data.List.MinMax

/-!
# `has_more`

The flag says whether the page is full, `len(resultado) == limit` (`API.py` 204 and 229). A full
page may be the last one, and behind the first query, which orders by `created_at` alone, so may a
message of the same `created_at` that the page already has. What the flag says is right where
neither happens.

There are two ways to read the flag: that a live message comes after the last item of the page
(`Beyond`), and that following the cursor gives a page with something in it (`Followed`). `Exact`
asks for both. For rows with a `created_at` the two come to the same (`rank_lt_iff_key_lt`); a row
without one has no cursor, so that a full page that ends with it is not followed.

`MoreKnown` is the exact condition, on the table, the limit and the cursor. Behind a cursor it is
that the messages below it are not as many as the limit (`exact_before`). Without one the order of
ties is the database's choice, and the flag has to be right in every order: so the boundary of the
first page is looked at (`exact_of_known`, `known_of_exact`), the second by putting the least
message of the boundary's time last.

The pages are those of the database. One that comes from the cache has the flag by the same line,
of a list that may be shorter than the thread; that is the subject of `CacheAgreement`.
-/

set_option autoImplicit false

namespace MessagesApp.Api

open Py Lib

/-- `(created_at, id)` of an item, where `ORDER BY … DESC` puts NULL above every time. The order a
client sees in a page. -/
def MessageOut.rank (m : MessageOut) : WithTop DateTime ×ₗ UUID :=
  toLex (match m.createdAt with
    | some d => (d.naive : WithTop DateTime)
    | none => ⊤, m.id)

/-- `list_messages` on the database path, with or without a cursor. -/
def listDb (V : Pydantic) (bindError : ParsedDateTime → String) (t : Table) (l : List Row)
    (thread : UUID) (limit : Nat) : Option String → Option Reply
  | none => listFirst V t l thread limit
  | some cursor => some (listBefore V bindError t thread limit cursor)

/-- A live message of the thread comes after the last item of the page. There is more, whether or
not the cursor leads to it. -/
def Beyond (t : Table) (thread : UUID) (p : Page) : Prop :=
  ∃ m, p.items.getLast? = some m ∧ ∃ r ∈ t.live thread, (messageOf r).rank < m.rank

/-- Following the page's cursor on the same table gives a page that is not empty. A page without a
cursor is not followed. -/
def Followed (V : Pydantic) (bindError : ParsedDateTime → String) (t : Table) (thread : UUID)
    (limit : Nat) (p : Page) : Prop :=
  ∃ cursor p', p.nextCursor = some cursor ∧
    listBefore V bindError t thread limit cursor = .page p' ∧ p'.items ≠ []

/-- The flag of one page: it says both that there is more and that the next page has some of it. -/
def Exact (V : Pydantic) (bindError : ParsedDateTime → String) (t : Table) (thread : UUID)
    (limit : Nat) (p : Page) : Prop :=
  (p.hasMore = true ↔ Beyond t thread p) ∧
  (p.hasMore = true ↔ Followed V bindError t thread limit p)

/-- In every order the first query may choose, the flag of the answer is exact. -/
def HasMoreExact (V : Pydantic) (bindError : ParsedDateTime → String) (t : Table) (thread : UUID)
    (limit : Nat) (cursor : Option String) : Prop :=
  ∀ l p, Sql.DescOrder t thread l → listDb V bindError t l thread limit cursor = some (.page p) →
    Exact V bindError t thread limit p

/-- Where the number of messages tells whether there is more. Without a cursor: the thread fits in
less than a page and its last `created_at` is of one message only, or some message is older than
the oldest `created_at` of a full page, which is not NULL. With one: the messages below it are not
as many as the limit. -/
def MoreKnown (t : Table) (thread : UUID) (limit : Nat) : Option String → Prop
  | none =>
      (t.live thread).length < limit ∧ BoundaryAlone t thread limit ∨
      ∃ b : DateTime, boundary t thread limit = some (b : WithTop DateTime) ∧
        ∃ r ∈ t.live thread, r.createdKey < (b : WithTop DateTime)
  | some cursor => ∀ ts mid, parseCursor cursor = some (⟨ts, none⟩, mid) →
      ((t.live thread).filter fun r => decide (r.key < Key.of ts mid)).length ≠ limit

/-! ## The order of the items -/

variable {V : Pydantic} {bindError : ParsedDateTime → String} {t : Table} {thread : UUID}
  {limit : Nat} {lib : JsonLib} {rows : List Row}

theorem rank_messageOf (r : Row) : (messageOf r).rank = toLex (r.createdKey, r.id) := by
  unfold MessageOut.rank messageOf Row.createdKey
  cases r.createdAt <;> rfl

theorem rank_lt {a b : Row} : (messageOf a).rank < (messageOf b).rank ↔
    a.createdKey < b.createdKey ∨ a.createdKey = b.createdKey ∧ a.id < b.id := by
  rw [rank_messageOf, rank_messageOf, Prod.Lex.toLex_lt_toLex]

/-- The order of the items is the one the next query cuts by. -/
theorem rank_lt_iff_key_lt {a b : Row} {c : DateTime} (hb : b.createdAt = some c) :
    (messageOf a).rank < (messageOf b).rank ↔ a.key < Key.of c b.id := by
  rw [rank_lt]
  unfold Row.createdKey Row.key
  rw [hb]
  cases ha : a.createdAt with
  | none => simp
  | some d => simp [Key.of_lt]

/-- What is beyond a page of rows is what lies below its last one. -/
theorem beyond_rowsPage {a : Row} (ha : rows.getLast? = some a) :
    Beyond t thread (rowsPage lib rows limit) ↔
      ∃ r ∈ t.live thread, (messageOf r).rank < (messageOf a).rank := by
  unfold Beyond
  rw [rowsPage_items, List.getLast?_map, ha]
  constructor
  · rintro ⟨m, hm, h⟩
    cases hm
    exact h
  · intro h
    exact ⟨_, rfl, h⟩

/-- Behind a cursor there is a page where something lies below it. -/
theorem page_ne_nil {a : Row} {c : DateTime} (hlimit : 0 < limit) (hc : a.createdAt = some c) :
    Keyset.page Row.key (Key.of c a.id) limit (t.live thread) ≠ [] ↔
      ∃ r ∈ t.live thread, (messageOf r).rank < (messageOf a).rank := by
  constructor
  · intro h
    obtain ⟨r, hr⟩ := List.exists_mem_of_ne_nil _ h
    obtain ⟨hrl, hrk⟩ := Keyset.mem_of_mem_page hr
    exact ⟨r, hrl, (rank_lt_iff_key_lt hc).mpr hrk⟩
  · rintro ⟨r, hrl, hrk⟩ h
    have hu : r ∈ Keyset.under Row.key (Key.of c a.id) (t.live thread) :=
      Keyset.mem_under.mpr ⟨hrl, (rank_lt_iff_key_lt hc).mp hrk⟩
    rw [← Keyset.page_eq_under (by rw [h]; exact hlimit), h] at hu
    cases hu

/-- A page of rows that ends with `a` is followed by what comes after `a`, where `a` has a
`created_at` to make a cursor of. -/
theorem followed_rowsPage {a : Row} (hlimit : 0 < limit) (ha : rows.getLast? = some a) :
    Followed V bindError t thread limit (rowsPage .orjson rows limit) ↔
      a.createdAt ≠ none ∧ ∃ r ∈ t.live thread, (messageOf r).rank < (messageOf a).rank := by
  unfold Followed
  cases hc : a.createdAt with
  | none =>
    have hcur : (rowsPage .orjson rows limit).nextCursor = none := by simp [rowsPage, ha, hc]
    rw [hcur]
    simp
  | some c =>
    rw [rowsPage_nextCursor ha hc, ← page_ne_nil hlimit hc]
    constructor
    · rintro ⟨cursor, p', hcur, hp, hne⟩
      cases hcur
      rw [listBefore_cursorOf, Reply.page.injEq] at hp
      subst hp
      exact ⟨by simp, fun h => hne (rowsPage_items_eq_nil.mpr h)⟩
    · rintro ⟨-, h⟩
      exact ⟨_, _, rfl, listBefore_cursorOf, fun hn => h (rowsPage_items_eq_nil.mp hn)⟩

/-- A page of rows that ends with `a` is exact where it is full just when something comes after `a`,
and a full one has a cursor. -/
theorem exact_rowsPage {a : Row} (hlimit : 0 < limit) (ha : rows.getLast? = some a) :
    Exact V bindError t thread limit (rowsPage .orjson rows limit) ↔
      (rows.length = limit ↔
        ∃ r ∈ t.live thread, (messageOf r).rank < (messageOf a).rank) ∧
      (rows.length = limit → a.createdAt ≠ none) := by
  have hmore : (rowsPage .orjson rows limit).hasMore = true ↔ rows.length = limit := beq_iff_eq
  unfold Exact
  rw [beyond_rowsPage ha, followed_rowsPage hlimit ha, hmore]
  refine and_congr_right fun h => ?_
  rw [h]
  exact iff_and_self

/-- An empty page is right. -/
theorem exact_empty (hlimit : 0 < limit) :
    Exact V bindError t thread limit (rowsPage .orjson [] limit) := by
  have hmore : (rowsPage .orjson [] limit).hasMore ≠ true := by
    intro h
    exact absurd (beq_iff_eq.mp h) (by simp; omega)
  refine ⟨iff_of_false hmore ?_, iff_of_false hmore ?_⟩
  · rintro ⟨m, hm, -⟩
    cases hm
  · rintro ⟨cursor, p', hcur, -⟩
    cases hcur

/-! ## Behind a cursor -/

/-- Behind a cursor the flag is right but for one number of messages below it: as many as the limit,
which make a full page that is the last. -/
theorem exact_before {cursor : String} {ts : DateTime} {mid : UUID} (hlimit : 0 < limit)
    (hc : parseCursor cursor = some (⟨ts, none⟩, mid)) :
    HasMoreExact V bindError t thread limit (some cursor) ↔
      ((t.live thread).filter fun r => decide (r.key < Key.of ts mid)).length ≠ limit := by
  have hdist := t.live_distinct thread (Key.of ts mid)
  have hlen : (Keyset.under Row.key (Key.of ts mid) (t.live thread)).length =
      ((t.live thread).filter fun r => decide (r.key < Key.of ts mid)).length :=
    (Keyset.under_perm _ _).length_eq
  have hone : HasMoreExact V bindError t thread limit (some cursor) ↔
      Exact V bindError t thread limit
        (rowsPage .orjson (Keyset.page Row.key (Key.of ts mid) limit (t.live thread)) limit) := by
    constructor
    · intro h
      obtain ⟨l, hl⟩ := Sql.exists_descOrder t thread
      exact h l _ hl (congrArg some (listBefore_eq hc))
    · intro h l p _ hp
      rw [listDb, listBefore_eq hc] at hp
      cases hp
      exact h
  rw [hone]
  cases ha : (Keyset.page Row.key (Key.of ts mid) limit (t.live thread)).getLast? with
  | none =>
    have hnil := List.getLast?_eq_none_iff.mp ha
    have hunder : Keyset.under Row.key (Key.of ts mid) (t.live thread) = [] := by
      rw [← Keyset.page_eq_under (by rw [hnil]; exact hlimit), hnil]
    rw [hnil]
    refine iff_of_true (exact_empty hlimit) ?_
    rw [← hlen, hunder, List.length_nil]
    omega
  | some a =>
    obtain ⟨c, hca, hkey⟩ := key_of_mem_page (List.mem_of_getLast? ha)
    have hsome : a.createdAt ≠ none := by
      rw [hca]
      simp
    have hrest : (Keyset.page Row.key (Key.of c a.id) limit (t.live thread)).length =
        min limit ((Keyset.under Row.key (Key.of ts mid) (t.live thread)).length - limit) := by
      rw [← hkey, Keyset.page, Keyset.under_last hdist ha, List.length_take, List.length_drop]
    rw [exact_rowsPage hlimit ha, ← page_ne_nil hlimit hca, ← List.length_pos_iff, hrest, ← hlen,
      Keyset.page, List.length_take]
    constructor
    · rintro ⟨h, -⟩
      omega
    · intro h
      exact ⟨by omega, fun _ => hsome⟩

/-! ## The first page -/

/-- The last message of the first page may be any of the boundary's `created_at`, by exchanging two
of them. -/
theorem last_of_boundary {l : List Row} {a y : Row} (hl : Sql.DescOrder t thread l)
    (ha : (l.take limit).getLast? = some a) (hy : y ∈ t.live thread)
    (hya : y.createdKey = a.createdKey) :
    ∃ l', Sql.DescOrder t thread l' ∧ (l'.take limit).getLast? = some y :=
  Keyset.Ordered.exchange_last hl t.live_nodup ha hy hya

/-- Of the messages of the boundary's `created_at` one has the least id. -/
theorem exists_least {a : Row} (ha : a ∈ t.live thread) :
    ∃ y ∈ t.live thread, y.createdKey = a.createdKey ∧
      ∀ x ∈ t.live thread, x.createdKey = a.createdKey → y.id ≤ x.id := by
  have hne : ((t.live thread).filter fun r => decide (r.createdKey = a.createdKey)) ≠ [] :=
    List.ne_nil_of_mem (List.mem_filter.mpr ⟨ha, by simp⟩)
  obtain ⟨y, hy⟩ := Option.ne_none_iff_exists'.mp fun h => hne (List.argmin_eq_none (f := Row.id).mp h)
  obtain ⟨hyl, hya⟩ := List.mem_filter.mp (List.argmin_mem hy)
  refine ⟨y, hyl, of_decide_eq_true hya, fun x hx hxa => ?_⟩
  exact List.le_of_mem_argmin (List.mem_filter.mpr ⟨hx, decide_eq_true hxa⟩) hy

/-- Nothing comes after the least message of the boundary's `created_at` unless it is older. -/
theorem beyond_least {y : Row} (hle : ∀ x ∈ t.live thread, x.createdKey = y.createdKey → y.id ≤ x.id) :
    (∃ r ∈ t.live thread, (messageOf r).rank < (messageOf y).rank) ↔
      ∃ r ∈ t.live thread, r.createdKey < y.createdKey := by
  refine exists_congr fun r => and_congr_right fun hr => ?_
  rw [rank_lt]
  constructor
  · rintro (h | ⟨he, hid⟩)
    · exact h
    · exact absurd hid (not_lt_of_ge (hle r hr he))
  · exact Or.inl

/-- A thread that fits in less than a page has nothing older than its last message. -/
theorem not_older {l : List Row} {a : Row} (hl : Sql.DescOrder t thread l)
    (hlen : (t.live thread).length < limit) (ha : (l.take limit).getLast? = some a) :
    ∀ r ∈ t.live thread, a.createdKey ≤ r.createdKey := by
  rw [List.take_of_length_le (by rw [hl.1.length_eq]; omega)] at ha
  obtain ⟨ys, rfl⟩ := List.getLast?_eq_some_iff.mp ha
  intro r hr
  have hmem := hl.mem.mpr hr
  rw [List.mem_append, List.mem_singleton] at hmem
  rcases hmem with hr | rfl
  · exact (List.pairwise_append.mp hl.2).2.2 r hr a (by simp)
  · exact le_refl _

/-- Without a cursor the answers are the first pages of all the orders there are. -/
theorem hasMoreExact_none (hlimit : validLimit limit) :
    HasMoreExact V bindError t thread limit none ↔ ∀ l, Sql.DescOrder t thread l →
      Exact V bindError t thread limit (rowsPage .orjson (l.take limit) limit) := by
  constructor
  · intro h l hl
    exact h l _ hl (listFirst_eq hl hlimit)
  · intro h l p hl hp
    rw [listDb, listFirst_eq hl hlimit] at hp
    cases hp
    exact h l hl

/-- The flag of a first page that ends with `a`. -/
theorem exact_first {l : List Row} {a : Row} (hlimit : 0 < limit) (hl : Sql.DescOrder t thread l)
    (ha : (l.take limit).getLast? = some a) :
    Exact V bindError t thread limit (rowsPage .orjson (l.take limit) limit) ↔
      (limit ≤ (t.live thread).length ↔
        ∃ r ∈ t.live thread, (messageOf r).rank < (messageOf a).rank) ∧
      (limit ≤ (t.live thread).length → a.createdAt ≠ none) := by
  rw [exact_rowsPage hlimit ha, List.length_take, hl.1.length_eq, min_eq_left_iff]

theorem mem_of_last {l : List Row} {a : Row} (hl : Sql.DescOrder t thread l)
    (ha : (l.take limit).getLast? = some a) : a ∈ t.live thread :=
  hl.mem.mp (List.mem_of_mem_take (List.mem_of_getLast? ha))

theorem createdAt_of_createdKey {a : Row} {b : DateTime} (h : a.createdKey = (b : WithTop DateTime)) :
    a.createdAt = some b := by
  unfold Row.createdKey at h
  cases hc : a.createdAt with
  | none =>
    rw [hc] at h
    exact absurd h WithTop.top_ne_coe
  | some c =>
    rw [hc] at h
    rw [WithTop.coe_inj.mp h]

/-- The first page is right where the number of messages tells. -/
theorem exact_of_known (hlimit : validLimit limit) (h : MoreKnown t thread limit none) :
    HasMoreExact V bindError t thread limit none := by
  rw [hasMoreExact_none hlimit]
  intro l hl
  cases ha : (l.take limit).getLast? with
  | none =>
    rw [List.getLast?_eq_none_iff.mp ha]
    exact exact_empty hlimit.1
  | some a =>
    have hal := mem_of_last hl ha
    have hb : boundary t thread limit = some a.createdKey := by
      rw [boundary_eq hl, ha, Option.map_some]
    rw [exact_first hlimit.1 hl ha]
    rcases h with ⟨hlen, halone⟩ | ⟨b, hbb, r, hr, hrb⟩
    · -- the page is the whole thread, and nothing shares its last `created_at`
      have honly := (length_filter_createdKey hal).mp (halone _ hb)
      refine ⟨iff_of_false (by omega) ?_, by omega⟩
      rintro ⟨r, hr, hlt⟩
      rcases rank_lt.mp hlt with hlt | ⟨he, hid⟩
      · exact absurd hlt (not_lt_of_ge (not_older hl hlen ha r hr))
      · rw [honly r hr he] at hid
        exact absurd hid (lt_irrefl _)
    · rw [hb, Option.some.injEq] at hbb
      have hc := createdAt_of_createdKey hbb
      rw [← hbb] at hrb
      have hfull : limit ≤ (t.live thread).length := by
        by_contra hlen
        exact absurd hrb (not_lt_of_ge (not_older hl (by omega) ha r hr))
      refine ⟨iff_of_true hfull ⟨r, hr, rank_lt.mpr (Or.inl hrb)⟩, fun _ => ?_⟩
      rw [hc]
      simp

/-- And only there: in other orders the page would end with another message of its last
`created_at`, and what comes after the least of them is older. -/
theorem known_of_exact (hlimit : validLimit limit)
    (h : HasMoreExact V bindError t thread limit none) : MoreKnown t thread limit none := by
  rw [hasMoreExact_none hlimit] at h
  obtain ⟨l, hl⟩ := Sql.exists_descOrder t thread
  by_cases hlen : (t.live thread).length < limit
  · refine Or.inl ⟨hlen, fun b hb => ?_⟩
    rw [boundary_eq hl, Option.map_eq_some_iff] at hb
    obtain ⟨a, ha, rfl⟩ := hb
    have hal := mem_of_last hl ha
    have hleast : ∀ x ∈ t.live thread, x.createdKey = a.createdKey →
        ∀ y ∈ t.live thread, y.createdKey = x.createdKey → x.id ≤ y.id := by
      intro x hx hxa y hy hyx
      obtain ⟨l', hl', ha'⟩ := last_of_boundary hl ha hx hxa
      have hexact := ((exact_first hlimit.1 hl' ha').mp (h l' hl')).1
      by_contra hid
      have hfull := hexact.mpr ⟨y, hy, rank_lt.mpr (Or.inr ⟨hyx, not_le.mp hid⟩)⟩
      omega
    refine (length_filter_createdKey hal).mpr fun x hx hxa => ?_
    have hid : x.id = a.id :=
      le_antisymm (hleast x hx hxa a hal hxa.symm) (hleast a hal rfl x hx hxa)
    exact Table.eq_of_id (Table.mem_live.mp hx).1 (Table.mem_live.mp hal).1 hid
  · have hfull : limit ≤ (t.live thread).length := not_lt.mp hlen
    have hpos := hlimit.1
    obtain ⟨a, ha⟩ : ∃ a, (l.take limit).getLast? = some a := by
      refine Option.ne_none_iff_exists'.mp fun hnone => ?_
      have hnil := congrArg List.length (List.getLast?_eq_none_iff.mp hnone)
      rw [List.length_take, hl.1.length_eq, List.length_nil] at hnil
      omega
    obtain ⟨y, hy, hya, hmin⟩ := exists_least (mem_of_last hl ha)
    obtain ⟨l', hl', ha'⟩ := last_of_boundary hl ha hy hya
    obtain ⟨hexact, hsome⟩ := (exact_first hlimit.1 hl' ha').mp (h l' hl')
    obtain ⟨b, hb⟩ := Option.ne_none_iff_exists'.mp (hsome hfull)
    have hkey : y.createdKey = (b : WithTop DateTime) := by
      unfold Row.createdKey
      rw [hb]
    refine Or.inr ⟨b, by rw [boundary_eq hl', ha', Option.map_some, hkey], ?_⟩
    rw [← hkey]
    exact (beyond_least fun x hx hxy => hmin x hx (hxy.trans hya)).mp (hexact.mp hfull)

/-- **The flag is right, in every order the database may choose, exactly where the number of
messages tells.** With a cursor and without, for every table and every limit the API accepts. -/
theorem hasMoreExact_iff (hlimit : validLimit limit) (cursor : Option String) :
    HasMoreExact V bindError t thread limit cursor ↔ MoreKnown t thread limit cursor := by
  cases cursor with
  | none => exact ⟨known_of_exact hlimit, exact_of_known hlimit⟩
  | some cursor =>
    by_cases hc : ∃ ts mid, parseCursor cursor = some (⟨ts, none⟩, mid)
    · obtain ⟨ts, mid, hc⟩ := hc
      rw [exact_before hlimit.1 hc, MoreKnown]
      constructor
      · intro h ts' mid' hc'
        rw [hc] at hc'
        cases hc'
        exact h
      · intro h
        exact h ts mid hc
    · -- no page is answered, so there is no flag
      refine iff_of_true (fun l p _ hp => ?_) fun ts mid hc' => absurd ⟨ts, mid, hc'⟩ hc
      exact absurd (parseCursor_of_page (Option.some.inj hp)) hc

/-- Three messages, two of them behind the cursor of the newest. -/
theorem hasMoreExact_three : MoreKnown Sample.threeMessages Sample.thread 2 none ∧
    HasMoreExact Pydantic.python (fun _ => "") Sample.threeMessages Sample.thread 2 none := by
  have hknown : MoreKnown Sample.threeMessages Sample.thread 2 none :=
    Or.inr ⟨Sample.minute 1, by decide, Sample.row, by decide, by decide⟩
  exact ⟨hknown, (hasMoreExact_iff ⟨by decide, by decide⟩ none).mpr hknown⟩

/-- A thread of one message, and pages of one: the flag says that there is more. -/
theorem hasMore_full_page : ∃ p, listDb Pydantic.python (fun _ => "") Sample.table
      Sample.table.rows Sample.thread 1 none = some (.page p) ∧ p.hasMore = true ∧
    ¬ Beyond Sample.table Sample.thread p ∧
    ¬ HasMoreExact Pydantic.python (fun _ => "") Sample.table Sample.thread 1 none := by
  have hl : Sql.DescOrder Sample.table Sample.thread Sample.table.rows := by decide
  have hp := listFirst_eq (V := Pydantic.python) hl ⟨le_refl 1, by decide⟩
  have hbeyond : ¬ Beyond Sample.table Sample.thread
      (rowsPage .orjson (Sample.table.rows.take 1) 1) := by
    rw [beyond_rowsPage (a := Sample.row) rfl]
    decide
  refine ⟨_, hp, rfl, hbeyond, fun h => ?_⟩
  exact hbeyond ((h _ _ hl hp).1.mp rfl)

end MessagesApp.Api

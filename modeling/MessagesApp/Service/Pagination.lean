import MessagesApp.Service.Listing

/-!
# Reading a whole thread page by page

The first page comes from a query that orders by `created_at` alone, the next ones from a query
that cuts by `(created_at, id)` (`messages.py` 153–169). The two agree where the last message of
the first page is the only one of its `created_at`. Where it shares it, the database may put
another of them last, and the walk then reads some of them twice, or not at all.

`FullWalk` is the requests a client makes who follows `next_cursor` from the first page until a
page is empty, on a table that stands still. `WalkComplete` quantifies over the orders the first
query may choose: a walk that is right by luck is not. `walkComplete_iff` is the exact condition,
`BoundaryAlone`, which looks at the table alone.

Behind the first page a walk is one of the keyset library (`follow_of_walk`, `walk_of_follow`), so
what it reads is the first page and everything below its last message (`fullWalk_items`). That is
the thread once if the boundary is alone. If it is not, exchanging the last message of the first
page with another of its `created_at` changes how many lie below it, while a complete walk would
read the same number in both orders.

A row without a `created_at`, which the service cannot make, has no cursor, and the theorem is
about threads without one. Writes between the pages are the subject of `KeysetWalk`.
-/

set_option autoImplicit false

namespace MessagesApp.Api

open Py Lib

/-- The requests that follow `next_cursor` from `cursor`, until a page is empty. The last page is
among them. -/
inductive Follow (V : Pydantic) (bindError : ParsedDateTime → String) (t : Table) (thread : UUID)
    (limit : Nat) : String → List Page → Prop
  | stop {cursor : String} {p : Page} :
      listBefore V bindError t thread limit cursor = .page p → p.items = [] →
      Follow V bindError t thread limit cursor [p]
  | next {cursor cursor' : String} {p : Page} {pages : List Page} :
      listBefore V bindError t thread limit cursor = .page p → p.items ≠ [] →
      p.nextCursor = some cursor' → Follow V bindError t thread limit cursor' pages →
      Follow V bindError t thread limit cursor (p :: pages)

/-- The whole walk, when the first query orders the rows as `l`: the first page, and then its
cursor. -/
inductive FullWalk (V : Pydantic) (bindError : ParsedDateTime → String) (t : Table)
    (thread : UUID) (limit : Nat) (l : List Row) : List Page → Prop
  | empty {p : Page} :
      listFirst V t l thread limit = some (.page p) → p.items = [] →
      FullWalk V bindError t thread limit l [p]
  | follow {p : Page} {cursor : String} {pages : List Page} :
      listFirst V t l thread limit = some (.page p) → p.items ≠ [] →
      p.nextCursor = some cursor → Follow V bindError t thread limit cursor pages →
      FullWalk V bindError t thread limit l (p :: pages)

/-- In every order the first query may choose, a walk ends, and every walk reads each live message
of the thread exactly once. -/
def WalkComplete (V : Pydantic) (bindError : ParsedDateTime → String) (t : Table)
    (thread : UUID) (limit : Nat) : Prop :=
  ∀ l, Sql.DescOrder t thread l →
    (∃ pages, FullWalk V bindError t thread limit l pages) ∧
    ∀ pages, FullWalk V bindError t thread limit l pages →
      (pages.flatMap Page.items).Perm ((t.live thread).map messageOf)

/-! ## Following cursors -/

variable {V : Pydantic} {bindError : ParsedDateTime → String} {t : Table} {thread : UUID}
  {limit : Nat} {c : DateTime} {i : UUID}

theorem listBefore_cursorOf : listBefore V bindError t thread limit (cursorOf .orjson c i) =
    .page (rowsPage .orjson (Keyset.page Row.key (Key.of c i) limit (t.live thread)) limit) :=
  listBefore_eq (parseCursor_cursorOf .orjson c i)

/-- Rows below a cursor have a key of two parts. -/
theorem key_of_mem_page {k : Key} {rows : List Row} {r : Row}
    (hr : r ∈ Keyset.page Row.key k limit rows) :
    ∃ ts, r.createdAt = some ts ∧ r.key = Key.of ts r.id :=
  Row.key_of_lt (Keyset.mem_of_mem_page hr).2

/-- Following cursors is walking by keys. -/
theorem follow_of_walk {k : Key} {rows : List (List Row)}
    (h : Keyset.Walk Row.key limit (t.live thread) k rows) (hk : k = Key.of c i) :
    ∃ pages, Follow V bindError t thread limit (cursorOf .orjson c i) pages := by
  induction h generalizing c i with
  | stop hempty =>
    subst hk
    refine ⟨_, .stop listBefore_cursorOf ?_⟩
    rw [hempty]
    rfl
  | next ha hw ih =>
    subst hk
    obtain ⟨ts, hts, hkey⟩ := key_of_mem_page (List.mem_of_getLast? ha)
    obtain ⟨pages, hp⟩ := ih hkey
    refine ⟨_, .next listBefore_cursorOf ?_ (rowsPage_nextCursor ha hts) hp⟩
    rw [Ne, rowsPage_items_eq_nil]
    intro hnil
    rw [hnil] at ha
    cases ha

/-- And what was followed is a walk by keys, whose rows are the items of the pages. -/
theorem walk_of_follow {cursor : String} {pages : List Page}
    (h : Follow V bindError t thread limit cursor pages) (hc : cursor = cursorOf .orjson c i) :
    ∃ rows, Keyset.Walk Row.key limit (t.live thread) (Key.of c i) rows ∧
      pages.flatMap Page.items = rows.flatten.map messageOf := by
  induction h generalizing c i with
  | stop hp hempty =>
    subst hc
    rw [listBefore_cursorOf, Reply.page.injEq] at hp
    subst hp
    rw [rowsPage_items_eq_nil] at hempty
    exact ⟨[], .stop hempty, by simp [hempty]⟩
  | next hp hne hcur _ ih =>
    subst hc
    rw [listBefore_cursorOf, Reply.page.injEq] at hp
    subst hp
    rw [Ne, rowsPage_items_eq_nil] at hne
    obtain ⟨r, hr⟩ := Option.ne_none_iff_exists'.mp fun h => hne (List.getLast?_eq_none_iff.mp h)
    obtain ⟨ts, hts, hkey⟩ := key_of_mem_page (List.mem_of_getLast? hr)
    rw [rowsPage_nextCursor hr hts, Option.some.injEq] at hcur
    obtain ⟨rows, hw, hflat⟩ := ih hcur.symm
    refine ⟨_, .next hr (hkey ▸ hw), ?_⟩
    simp [hflat]

/-! ## The first page -/

/-- The `created_at` of the last message of the first page: the same in every order, as the times
alone are sorted. -/
def boundary (t : Table) (thread : UUID) (limit : Nat) : Option (WithTop DateTime) :=
  ((Keyset.sortDesc (fun c => c) ((t.live thread).map Row.createdKey)).take limit).getLast?

/-- That message, where there is one, is the only live one of its `created_at`. -/
def BoundaryAlone (t : Table) (thread : UUID) (limit : Nat) : Prop :=
  ∀ b, boundary t thread limit = some b →
    ((t.live thread).filter fun r => decide (r.createdKey = b)).length = 1

theorem boundary_eq {l : List Row} (hl : Sql.DescOrder t thread l) :
    boundary t thread limit = (l.take limit).getLast?.map Row.createdKey := by
  have hsorted : Keyset.sortDesc (fun c => c) ((t.live thread).map Row.createdKey) =
      l.map Row.createdKey := by
    refine ((Keyset.sortDesc_perm _).trans (hl.1.map _).symm).eq_of_pairwise
      (fun a b _ _ hab hba => le_antisymm hba hab) (Keyset.sortDesc_sorted _) ?_
    rw [List.pairwise_map]
    exact hl.2
  rw [boundary, hsorted, ← List.map_take, List.getLast?_map]

/-- A later `created_at` is a greater key. -/
theorem key_lt_of_createdKey_lt (x y : Row) (h : x.createdKey < y.createdKey) : x.key < y.key := by
  unfold Row.createdKey at h
  unfold Row.key
  cases hx : x.createdAt with
  | none =>
    rw [hx] at h
    exact absurd h (not_lt_of_ge le_top)
  | some cx =>
    cases hy : y.createdAt with
    | none => exact WithTop.coe_lt_top _
    | some cy =>
      rw [hx, hy] at h
      exact Key.of_lt.mpr (Or.inl (WithTop.coe_lt_coe.mp h))

theorem key_inj (hcreated : ∀ r ∈ t.live thread, r.createdAt ≠ none) :
    ∀ x ∈ t.live thread, ∀ y ∈ t.live thread, x.key = y.key → x = y := by
  intro x hx y hy hxy
  obtain ⟨c, hc⟩ := Option.ne_none_iff_exists'.mp (hcreated x hx)
  have hlt : x.key < ⊤ := by
    unfold Row.key
    rw [hc]
    exact WithTop.coe_lt_top _
  exact Table.eq_of_id (Table.mem_live.mp hx).1 (Table.mem_live.mp hy).1 (Row.id_eq_of_key hlt hxy)

/-- What the walk reads when the first page ends with `a`: the page, and everything below `a`. The
page is cut from the order `l`, and the rest from the order of the keys. -/
theorem fullWalk_items {l : List Row} {a : Row} (hl : Sql.DescOrder t thread l)
    (hlimit : validLimit limit) (hcreated : ∀ r ∈ t.live thread, r.createdAt ≠ none)
    (ha : (l.take limit).getLast? = some a) {pages : List Page}
    (h : FullWalk V bindError t thread limit l pages) :
    pages.flatMap Page.items =
      (l.take limit ++ Keyset.under Row.key a.key (t.live thread)).map messageOf := by
  have hal : a ∈ t.live thread := hl.mem.mp (List.mem_of_mem_take (List.mem_of_getLast? ha))
  obtain ⟨ts, hts⟩ := Option.ne_none_iff_exists'.mp (hcreated a hal)
  have hkey : a.key = Key.of ts a.id := by
    unfold Row.key
    rw [hts]
  cases h with
  | empty hp hempty =>
    rw [listFirst_eq hl hlimit, Option.some.injEq, Reply.page.injEq] at hp
    subst hp
    rw [rowsPage_items_eq_nil] at hempty
    rw [hempty] at ha
    cases ha
  | follow hp hne hcur hf =>
    rw [listFirst_eq hl hlimit, Option.some.injEq, Reply.page.injEq] at hp
    subst hp
    rw [rowsPage_nextCursor ha hts, Option.some.injEq] at hcur
    obtain ⟨rows, hw, hflat⟩ := walk_of_follow hf hcur.symm
    rw [List.flatMap_cons, hflat, rowsPage_items, List.map_append, hkey,
      hw.flatten (t.live_distinct thread _) hlimit.1]

theorem fullWalk_items_of_empty {l : List Row} (hl : Sql.DescOrder t thread l)
    (hlimit : validLimit limit) {pages : List Page}
    (h : FullWalk V bindError t thread limit l pages) (hempty : t.live thread = []) :
    pages.flatMap Page.items = [] := by
  have hnil : l = [] := by
    have hlen := hl.1.length_eq
    rw [hempty] at hlen
    exact List.eq_nil_of_length_eq_zero hlen
  subst hnil
  cases h with
  | empty hp hitems => simp [hitems]
  | follow hp hne _ _ =>
    rw [listFirst_eq hl hlimit, Option.some.injEq, Reply.page.injEq] at hp
    subst hp
    exact absurd (by simp) hne

/-- A message is alone with its `created_at` when it is the only one the table finds with it. -/
theorem length_filter_createdKey {a : Row} (ha : a ∈ t.live thread) :
    ((t.live thread).filter fun r => decide (r.createdKey = a.createdKey)).length = 1 ↔
      ∀ x ∈ t.live thread, x.createdKey = a.createdKey → x = a := by
  have hmem : ∀ x, x ∈ ((t.live thread).filter fun r => decide (r.createdKey = a.createdKey)) ↔
      x ∈ t.live thread ∧ x.createdKey = a.createdKey := by
    intro x
    rw [List.mem_filter, decide_eq_true_eq]
  constructor
  · intro h x hx hxa
    obtain ⟨z, hz⟩ := List.length_eq_one_iff.mp h
    rw [hz] at hmem
    have hxz := (hmem x).mpr ⟨hx, hxa⟩
    have haz := (hmem a).mpr ⟨ha, rfl⟩
    rw [List.mem_singleton] at hxz haz
    rw [hxz, haz]
  · intro h
    have hperm : ((t.live thread).filter fun r => decide (r.createdKey = a.createdKey)).Perm [a] := by
      refine (List.perm_ext_iff_of_nodup (t.live_nodup.filter _) (List.nodup_singleton a)).mpr ?_
      intro x
      rw [hmem, List.mem_singleton]
      constructor
      · intro hx
        exact h x hx.1 hx.2
      · intro hx
        rw [hx]
        exact ⟨ha, rfl⟩
    exact hperm.length_eq

theorem exists_fullWalk {l : List Row} (hl : Sql.DescOrder t thread l)
    (hlimit : validLimit limit) (hcreated : ∀ r ∈ t.live thread, r.createdAt ≠ none) :
    ∃ pages, FullWalk V bindError t thread limit l pages := by
  cases ha : (l.take limit).getLast? with
  | none =>
    have hnil := List.getLast?_eq_none_iff.mp ha
    exact ⟨_, .empty (listFirst_eq hl hlimit) (rowsPage_items_eq_nil.mpr hnil)⟩
  | some a =>
    have hal : a ∈ t.live thread := hl.mem.mp (List.mem_of_mem_take (List.mem_of_getLast? ha))
    obtain ⟨ts, hts⟩ := Option.ne_none_iff_exists'.mp (hcreated a hal)
    obtain ⟨rows, hw⟩ := Keyset.Walk.total hlimit.1 (t.live_distinct thread (Key.of ts a.id))
    obtain ⟨pages, hp⟩ := follow_of_walk (V := V) hw rfl
    refine ⟨_, .follow (listFirst_eq hl hlimit) ?_ (rowsPage_nextCursor ha hts) hp⟩
    rw [Ne, rowsPage_items_eq_nil]
    intro hnil
    rw [hnil] at ha
    cases ha

/-- **A walk reads the whole thread once, whatever order the database chooses, exactly where the
last message of the first page shares its `created_at` with no other.** Both directions are about
every table and every limit the API accepts. -/
theorem walkComplete_iff (hlimit : validLimit limit)
    (hcreated : ∀ r ∈ t.live thread, r.createdAt ≠ none) :
    WalkComplete V bindError t thread limit ↔ BoundaryAlone t thread limit := by
  constructor
  · intro h b hb
    obtain ⟨l, hl⟩ := Sql.exists_descOrder t thread
    rw [boundary_eq hl, Option.map_eq_some_iff] at hb
    obtain ⟨a, ha, rfl⟩ := hb
    have hal : a ∈ t.live thread := hl.mem.mp (List.mem_of_mem_take (List.mem_of_getLast? ha))
    -- in every order the walk is as long as the thread
    have hcount : ∀ l' a', Keyset.Ordered Row.createdKey (t.live thread) l' →
        (l'.take limit).getLast? = some a' →
        ((t.live thread).filter fun r => decide (r.key < a'.key)).length =
          (t.live thread).length - limit := by
      intro l' a' hl' ha'
      obtain ⟨⟨pages, hp⟩, hall⟩ := h l' hl'
      have hperm := (hall pages hp).length_eq
      rw [fullWalk_items hl' hlimit hcreated ha' hp, List.length_map, List.length_map,
        List.length_append, (Keyset.under_perm _ _).length_eq, List.length_take,
        hl'.1.length_eq] at hperm
      omega
    have halone := Keyset.Ordered.last_alone hl t.live_nodup (key_inj hcreated) hcount ha
    exact (length_filter_createdKey hal).mpr halone
  · intro h l hl
    refine ⟨exists_fullWalk hl hlimit hcreated, fun pages hp => ?_⟩
    cases ha : (l.take limit).getLast? with
    | none =>
      have hlen : (l.take limit).length = 0 := by rw [List.getLast?_eq_none_iff.mp ha]; rfl
      have hpos := hlimit.1
      rw [List.length_take, hl.1.length_eq] at hlen
      have hlive : t.live thread = [] := List.eq_nil_of_length_eq_zero (by omega)
      rw [hlive, fullWalk_items_of_empty hl hlimit hp hlive]
      exact List.Perm.nil
    | some a =>
      have hal : a ∈ t.live thread := hl.mem.mp (List.mem_of_mem_take (List.mem_of_getLast? ha))
      have hb := h a.createdKey (by rw [boundary_eq hl, ha, Option.map_some])
      have hrest := Keyset.Ordered.filter_lt_last hl t.live_nodup key_lt_of_createdKey_lt ha
        ((length_filter_createdKey hal).mp hb)
      rw [fullWalk_items hl hlimit hcreated ha hp]
      refine List.Perm.map _ ?_
      have hunder : (Keyset.under Row.key a.key (t.live thread)).Perm (l.drop limit) := by
        rw [← hrest]
        exact (Keyset.under_perm _ _).trans (hl.1.symm.filter _)
      have hall := hunder.append_left (l.take limit)
      rw [List.take_append_drop] at hall
      exact hall.trans hl.1

theorem walkComplete_sample : BoundaryAlone Sample.table Sample.thread 50 ∧
    WalkComplete Pydantic.python (fun _ => "") Sample.table Sample.thread 50 := by
  have hb : BoundaryAlone Sample.table Sample.thread 50 := by
    intro b hb
    have hrow : boundary Sample.table Sample.thread 50 = some Sample.row.createdKey := by decide
    rw [hrow, Option.some.injEq] at hb
    subst hb
    decide
  exact ⟨hb, (walkComplete_iff ⟨by decide, by decide⟩ (by decide)).mpr hb⟩

/-- Two messages created at the same microsecond. -/
def tied : Table :=
  ⟨[Sample.row, { Sample.row with id := Sample.uuid 4 }], by decide⟩

/-- A page of one that ends with the lower id: the other message is on no page. -/
theorem walk_loses_message : validLimit 1 ∧
    (∀ r ∈ tied.live Sample.thread, r.createdAt ≠ none) ∧
    ¬ WalkComplete Pydantic.python (fun _ => "") tied Sample.thread 1 := by
  have hlimit : validLimit 1 := ⟨by decide, by decide⟩
  refine ⟨hlimit, by decide, fun h => ?_⟩
  have hl : Sql.DescOrder tied Sample.thread tied.rows := by decide
  have hempty : Keyset.page Row.key (Key.of (Sample.minute 0) Sample.message) 1
      (tied.live Sample.thread) = [] := by decide
  have hwalk : FullWalk Pydantic.python (fun _ => "") tied Sample.thread 1 tied.rows _ := .follow
    (listFirst_eq hl hlimit) (by simp [tied]) (rowsPage_nextCursor (r := Sample.row) rfl rfl)
    (.stop listBefore_cursorOf (rowsPage_items_eq_nil.mpr hempty))
  have hperm := ((h _ hl).2 _ hwalk).length_eq
  revert hperm
  decide

end MessagesApp.Api

import MessagesApp.Db.Schema
import MessagesApp.Lib.Keyset

/-!
# The statements the service runs

`db/sqlc/messages.py`: one definition for each constant `Controller.py` uses, with the
parameters `:p1 … :pN` in their order. `now` is the statement's `NOW()` and `newId` what
`gen_random_uuid()` gives; `COALESCE(p, e)` is `p.or e`. An `UPDATE … RETURNING` gives the row
it wrote, or nothing where no row matched.

Each statement is a function from a table to a table and what it returns, so that it is atomic by
its type: on an autocommitting connection a statement is a transaction of its own, and what may
come between two statements is a matter of `Controller`. Locks are left out for the same reason.
The row lock of `FOR UPDATE` is released when the `SELECT` ends, before any other statement of the
function runs, and makes no difference to what is reachable.

The two list queries differ in their `ORDER BY`. `…Before` orders by `(created_at, id)`, which
determines its answer. `…First` orders by `created_at` alone: among rows with equal `created_at`
the database may choose any order, so what it may return is a predicate, `DescOrder`, and the order
is an argument. With distinct times there is one order only (`DescOrder.unique`).
-/

set_option autoImplicit false

namespace MessagesApp

open Py Lib

namespace Table

/-- `WHERE thread_id = … AND deleted_at IS NULL`: the messages of a thread that a list shows, in the
order of the table. -/
def live (t : Table) (thread : UUID) : List Row :=
  t.rows.filter fun r => r.threadId = thread ∧ r.deletedAt = none

variable {t t' : Table} {r x : Row} {thread : UUID}

@[simp] theorem mem_live : r ∈ t.live thread ↔
    r ∈ t.rows ∧ r.threadId = thread ∧ r.deletedAt = none := by
  simp [live]

theorem rows_nodup (t : Table) : t.rows.Nodup := List.Nodup.of_map _ t.primaryKey

theorem live_nodup : (t.live thread).Nodup := t.rows_nodup.filter _

theorem live_insert_of_ne (h : t.insert r = some t') (hr : r.threadId ≠ thread) :
    t'.live thread = t.live thread := by
  obtain ⟨-, hrows⟩ := insert_eq_some h
  simp [live, hrows, hr]

theorem live_set_of_ne (h : t.byId r.id = some x) (hx : x.threadId ≠ thread)
    (hr : r.threadId ≠ thread) : (t.set r).live thread = t.live thread := by
  have hid : ∀ y ∈ t.rows, y.id = r.id → y.threadId ≠ thread := by
    intro y hy hyr
    obtain ⟨hxm, hxr⟩ := byId_eq_some.mp h
    rw [eq_of_id hy hxm (hyr.trans hxr.symm)]
    exact hx
  unfold live
  rw [rows_set]
  generalize t.rows = rows at hid
  induction rows with
  | nil => rfl
  | cons y rows ih =>
    have ih := ih fun z hz => hid z (List.mem_cons_of_mem _ hz)
    rw [List.map_cons]
    by_cases hy : y.id = r.id
    · have hyt := hid y List.mem_cons_self hy
      rw [if_pos hy, List.filter_cons_of_neg (by simp [hr]), List.filter_cons_of_neg (by simp [hyt])]
      exact ih
    · rw [if_neg hy, List.filter_cons, List.filter_cons, ih]

/-- Below any cursor the rows of a thread have distinct keys: the id is part of the key. This is
what makes the keyset library apply to the table. -/
theorem live_distinct (t : Table) (thread : UUID) (k : Key) :
    Keyset.Distinct Row.key k (t.live thread) := by
  have hids : (t.live thread).Pairwise fun a b => a.id ≠ b.id :=
    List.Pairwise.sublist List.filter_sublist (List.pairwise_map.mp t.primaryKey)
  unfold Keyset.Distinct
  refine (List.Pairwise.sublist List.filter_sublist hids).imp_of_mem fun ha _ hab he => ?_
  rw [List.mem_filter, decide_eq_true_eq] at ha
  exact hab (Row.id_eq_of_key ha.2 he)

end Table

namespace Sql

/-- The row `CREATE_MESSAGE` inserts: a missing content is the empty text, and the times are the
statement's own where none are given, which is always. -/
def insertedRow (now : DateTime) (newId : UUID) (p1 p2 : UUID) (p3 : Option MsgType)
    (p4 : Option String) (p5 : Option (List String)) (p6 p7 : Option DateTime) : Row where
  id := newId
  threadId := p1
  userId := p2
  type := p3
  content := p4.or (some "")
  paths := p5
  createdAt := p6.or (some now)
  updatedAt := p7.or (some now)
  -- not among the inserted columns, and without a default
  deletedAt := none

/-- `CREATE_MESSAGE`; `none` is the duplicate-key error. -/
def createMessage (t : Table) (now : DateTime) (newId : UUID) (p1 p2 : UUID)
    (p3 : Option MsgType) (p4 : Option String) (p5 : Option (List String))
    (p6 p7 : Option DateTime) : Option (Table × Row) :=
  let row := insertedRow now newId p1 p2 p3 p4 p5 p6 p7
  (t.insert row).map fun t' => (t', row)

/-- `GET_MESSAGE_BY_ID_FOR_UPDATE`: the row of any thread, deleted or not. The row lock ends with
the statement's own transaction. -/
def getMessageByIdForUpdate (t : Table) (p1 : UUID) : Option Row := t.byId p1

/-- What `UPDATE_MESSAGE_CONTENT_AND_PATHS` makes of a row. A parameter that is NULL leaves its
column as it was, and `updated_at` is the time of the statement. -/
def updatedRow (now : DateTime) (p2 : Option String) (p3 : Option (List String))
    (p4 : Option DateTime) (r : Row) : Row :=
  { r with
    content := p2.or r.content
    paths := p3.or r.paths
    updatedAt := p4.or (some now) }

/-- `UPDATE_MESSAGE_CONTENT_AND_PATHS`, by the id alone: neither the thread nor `deleted_at` is in
its `WHERE`. -/
def updateMessageContentAndPaths (t : Table) (now : DateTime) (p1 : UUID) (p2 : Option String)
    (p3 : Option (List String)) (p4 : Option DateTime) : Table × Option Row :=
  match t.byId p1 with
  | none => (t, none)
  | some r => (t.set (updatedRow now p2 p3 p4 r), some (updatedRow now p2 p3 p4 r))

/-- What `SOFT_DELETE_MESSAGE` makes of a row. -/
def softDeletedRow (now : DateTime) (p2 : Option DateTime) (r : Row) : Row :=
  { r with deletedAt := p2.or (some now), updatedAt := some now }

/-- `SOFT_DELETE_MESSAGE`, which matches only a row that is not deleted; so of two, one gets a
row. -/
def softDeleteMessage (t : Table) (now : DateTime) (p1 : UUID) (p2 : Option DateTime) :
    Table × Option Row :=
  match t.byId p1 with
  | none => (t, none)
  | some r =>
      if r.deletedAt = none then (t.set (softDeletedRow now p2 r), some (softDeletedRow now p2 r))
      else (t, none)

/-- `l` is the thread's live rows in an order that `ORDER BY created_at DESC` allows. Rows with one
`created_at` may stand in any order, and in another at the next query. -/
def DescOrder (t : Table) (thread : UUID) (l : List Row) : Prop :=
  l.Perm (t.live thread) ∧ l.Pairwise fun a b => b.createdKey ≤ a.createdKey

instance (t : Table) (thread : UUID) (l : List Row) : Decidable (DescOrder t thread l) := by
  unfold DescOrder
  infer_instance

/-- `LIST_THREAD_MESSAGES_NOT_DELETED_DESC_FIRST` when the database orders the rows as `l`; `none`
where the `ORDER BY` does not allow that order. -/
def listThreadMessagesNotDeletedDescFirst (t : Table) (l : List Row) (p1 : UUID) (p2 : Nat) :
    Option (List Row) :=
  if DescOrder t p1 l then some (l.take p2) else none

/-- `LIST_THREAD_MESSAGES_NOT_DELETED_DESC_BEFORE`: the page of the keyset library, below the key
`(p2, p3)`. -/
def listThreadMessagesNotDeletedDescBefore (t : Table) (p1 : UUID) (p2 : DateTime) (p3 : UUID)
    (p4 : Nat) : List Row :=
  Keyset.page Row.key (Key.of p2 p3) p4 (t.live p1)

theorem DescOrder.mem {t : Table} {thread : UUID} {l : List Row} (h : DescOrder t thread l)
    {r : Row} : r ∈ l ↔ r ∈ t.live thread := h.1.mem_iff

theorem exists_descOrder (t : Table) (thread : UUID) : ∃ l, DescOrder t thread l :=
  ⟨Keyset.sortDesc Row.createdKey (t.live thread), Keyset.sortDesc_perm _,
    Keyset.sortDesc_sorted _⟩

theorem descOrder_congr {t t' : Table} {thread : UUID} (h : t'.live thread = t.live thread)
    {l : List Row} : DescOrder t' thread l ↔ DescOrder t thread l := by
  unfold DescOrder
  rw [h]

/-- Rows of a thread whose `created_at` values are distinct, and so are determined by them. -/
def DistinctCreated (t : Table) (thread : UUID) : Prop :=
  ∀ a ∈ t.rows, ∀ b ∈ t.rows, a.threadId = thread → b.threadId = thread →
    a.createdAt = b.createdAt → a = b

instance (t : Table) (thread : UUID) : Decidable (DistinctCreated t thread) := by
  unfold DistinctCreated
  infer_instance

/-- With distinct `created_at` values the first page is determined too. -/
theorem DescOrder.unique {t : Table} {thread : UUID} {l l' : List Row}
    (hd : DistinctCreated t thread) (h : DescOrder t thread l) (h' : DescOrder t thread l') :
    l = l' := by
  refine (h.1.trans h'.1.symm).eq_of_pairwise (fun a b ha hb hab hba => ?_) h.2 h'.2
  obtain ⟨ham, hat, -⟩ := Table.mem_live.mp (h.mem.mp ha)
  obtain ⟨hbm, hbt, -⟩ := Table.mem_live.mp (h'.mem.mp hb)
  exact hd a ham b hbm hat hbt (Row.createdAt_eq_of_createdKey (le_antisymm hba hab))

end Sql

end MessagesApp

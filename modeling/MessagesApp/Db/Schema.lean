import MessagesApp.Py.Datetime
import MessagesApp.Py.Uuid
import Mathlib.Data.List.Nodup
import Mathlib.Data.Prod.Lex
import Mathlib.Order.WithBot

/-!
# The `messages` table

`000001_init_schema.up.sql` and `000002_add_default_uuid.up.sql`: the columns with their
nullability, and a table as a list of rows (in the order they were inserted) that carries its
primary key. Statements change a table in two ways only, `insert` and `set`, and every fact about
a statement is derived from the lemmas about these two: what a row is found under an id afterwards
(`byId_insert`, `byId_set`), and which rows there are (`insert_eq_some`, `mem_set`).

That ids are distinct is a field of `Table`. `insert` refuses a row whose id is taken, as the
primary key does, and `set` keeps the ids as they are; so no invariant about ids has to be carried
through a run.

The keys of the two orders are here because they are facts of a row: `createdKey`, by which the
first page is ordered, and `key`, by which the pages behind a cursor are. Left out are indexes, the
extensions, and the limit of `text` to what PostgreSQL can store, which a NUL character is not.
-/

set_option autoImplicit false

namespace MessagesApp

open Py

/-- `CREATE TYPE "type" AS ENUM`, and `models.Type`. -/
inductive MsgType
  | text
  | audio
  | file
deriving DecidableEq

def MsgType.value : MsgType → String
  | .text => "text"
  | .audio => "audio"
  | .file => "file"

/-- A row of `messages`. `paths` is `jsonb`; the service only ever writes lists of strings. -/
structure Row where
  id : UUID
  threadId : UUID
  userId : UUID
  type : Option MsgType
  content : Option String
  paths : Option (List String)
  createdAt : Option DateTime
  updatedAt : Option DateTime
  deletedAt : Option DateTime
deriving DecidableEq

/-- The value `ORDER BY created_at DESC` sorts by: NULL comes first. A row that the service has
written has a `created_at`, but the column may be NULL. -/
def Row.createdKey (r : Row) : WithTop DateTime :=
  match r.createdAt with
  | some c => (c : WithTop DateTime)
  | none => ⊤

theorem Row.createdAt_eq_of_createdKey {a b : Row} (h : a.createdKey = b.createdKey) :
    a.createdAt = b.createdAt := by
  unfold Row.createdKey at h
  cases ha : a.createdAt <;> cases hb : b.createdAt <;> rw [ha, hb] at h
  · exact absurd h.symm (WithTop.coe_ne_top)
  · exact absurd h (WithTop.coe_ne_top)
  · rw [WithTop.coe_inj.mp h]

/-- A `(created_at, id)` pair, compared field by field. -/
abbrev Key := WithTop (DateTime ×ₗ UUID)

def Key.of (createdAt : DateTime) (id : UUID) : Key :=
  ((toLex (createdAt, id) : DateTime ×ₗ UUID) : Key)

/-- `(created_at, id)`. A NULL `created_at` makes every comparison with it NULL, which a `WHERE`
takes for false; here it lies above every pair, and so below no cursor. -/
def Row.key (r : Row) : Key :=
  match r.createdAt with
  | some c => Key.of c r.id
  | none => ⊤

theorem Key.of_lt {c c' : DateTime} {i i' : UUID} :
    Key.of c i < Key.of c' i' ↔ c < c' ∨ c = c' ∧ i < i' := by
  simp only [Key.of, WithTop.coe_lt_coe, Prod.Lex.toLex_lt_toLex]

theorem Row.key_of_lt {r : Row} {k : Key} (h : r.key < k) :
    ∃ c, r.createdAt = some c ∧ r.key = Key.of c r.id := by
  unfold Row.key at h ⊢
  cases hc : r.createdAt with
  | none =>
    rw [hc] at h
    exact absurd h (not_lt_of_ge le_top)
  | some c => exact ⟨c, rfl, rfl⟩

/-- Rows that share a key with a row below some cursor share its id. -/
theorem Row.id_eq_of_key {r r' : Row} {k : Key} (h : r.key < k) (he : r.key = r'.key) :
    r.id = r'.id := by
  obtain ⟨c, -, hk⟩ := Row.key_of_lt h
  obtain ⟨c', -, hk'⟩ := Row.key_of_lt (he ▸ h)
  rw [hk, hk', Key.of, Key.of, WithTop.coe_inj, toLex_inj, Prod.mk.injEq] at he
  exact he.2

/-- The rows in the order in which they were inserted, with no id twice. -/
structure Table where
  rows : List Row
  primaryKey : (rows.map Row.id).Nodup

namespace Table

theorem ext {t t' : Table} (h : t.rows = t'.rows) : t = t' := by
  cases t
  cases t'
  cases h
  rfl

instance : DecidableEq Table := fun t t' =>
  decidable_of_iff (t.rows = t'.rows) ⟨ext, fun h => by rw [h]⟩

def empty : Table := ⟨[], List.nodup_nil⟩

/-- The row with this primary key. -/
def byId (t : Table) (id : UUID) : Option Row := t.rows.find? fun r => r.id = id

/-- A row added at the end; refused where its id is taken, which is the duplicate-key error. -/
def insert (t : Table) (r : Row) : Option Table :=
  if h : r.id ∈ t.rows.map Row.id then none
  else some ⟨t.rows ++ [r], by
    rw [List.map_append, List.map_singleton]
    exact List.nodup_append.mpr ⟨t.primaryKey, List.nodup_singleton _, fun a ha b hb hab =>
      h (by rw [← List.mem_singleton.mp hb, ← hab]; exact ha)⟩⟩

/-- `r` in the place of the row with its id. -/
def setRows (rows : List Row) (r : Row) : List Row :=
  rows.map fun x => if x.id = r.id then r else x

theorem setRows_ids (rows : List Row) (r : Row) :
    (setRows rows r).map Row.id = rows.map Row.id := by
  unfold setRows
  rw [List.map_map]
  refine List.map_congr_left fun x _ => ?_
  simp only [Function.comp]
  split
  · rename_i h
    exact h.symm
  · rfl

def set (t : Table) (r : Row) : Table :=
  ⟨setRows t.rows r, by rw [setRows_ids]; exact t.primaryKey⟩

/-! ## Lookup -/

variable {t t' : Table} {r x : Row} {id : UUID}

theorem byId_eq_some : t.byId id = some r ↔ r ∈ t.rows ∧ r.id = id := by
  constructor
  · intro h
    exact ⟨List.mem_of_find?_eq_some h, by simpa using List.find?_some h⟩
  · rintro ⟨hr, rfl⟩
    obtain ⟨x, hx⟩ : ∃ x, t.byId r.id = some x :=
      Option.isSome_iff_exists.mp (List.find?_isSome.mpr ⟨r, hr, by simp⟩)
    have hxm := List.mem_of_find?_eq_some hx
    have hxid : x.id = r.id := by simpa using List.find?_some hx
    rw [hx, List.inj_on_of_nodup_map t.primaryKey hxm hr hxid]

theorem byId_eq_none : t.byId id = none ↔ id ∉ t.rows.map Row.id := by
  simp [byId, List.find?_eq_none]

theorem mem_iff_byId : r ∈ t.rows ↔ t.byId r.id = some r := by
  simp [byId_eq_some]

theorem byId_id (h : t.byId id = some r) : r.id = id := (byId_eq_some.mp h).2

theorem eq_of_id (hr : r ∈ t.rows) (hx : x ∈ t.rows) (h : r.id = x.id) : r = x :=
  List.inj_on_of_nodup_map t.primaryKey hr hx h

theorem insert_eq_some (h : t.insert r = some t') :
    t.byId r.id = none ∧ t'.rows = t.rows ++ [r] := by
  unfold insert at h
  split at h
  · cases h
  · rename_i hid
    cases h
    exact ⟨byId_eq_none.mpr hid, rfl⟩

/-- What is under an id when a row was inserted: that row under its own, and what was there under
any other. -/
theorem byId_insert (h : t.insert r = some t') (id : UUID) :
    t'.byId id = if id = r.id then some r else t.byId id := by
  obtain ⟨hnone, hrows⟩ := insert_eq_some h
  unfold byId at hnone ⊢
  rw [hrows, List.find?_append]
  split
  · rename_i hid
    subst hid
    simp [hnone]
  · rename_i hid
    simp [Ne.symm hid]

theorem rows_set (t : Table) (r : Row) :
    (t.set r).rows = t.rows.map fun x => if x.id = r.id then r else x := rfl

theorem mem_set (h : t.byId r.id = some x) {y : Row} :
    y ∈ (t.set r).rows ↔ y = r ∨ y ∈ t.rows ∧ y.id ≠ r.id := by
  rw [rows_set, List.mem_map]
  constructor
  · rintro ⟨z, hz, rfl⟩
    split
    · exact Or.inl rfl
    · rename_i hne
      exact Or.inr ⟨hz, hne⟩
  · rintro (rfl | ⟨hy, hne⟩)
    · obtain ⟨hx, hid⟩ := byId_eq_some.mp h
      exact ⟨x, hx, if_pos hid⟩
    · exact ⟨y, hy, if_neg hne⟩

/-- What is under an id when a row took the place of the one with its id. With `byId_insert`, all
that later proofs use of a statement. -/
theorem byId_set (h : t.byId r.id = some x) (id : UUID) :
    (t.set r).byId id = if id = r.id then some r else t.byId id := by
  split
  · rename_i hid
    rw [hid, byId_eq_some]
    exact ⟨(mem_set h).mpr (Or.inl rfl), rfl⟩
  · rename_i hid
    cases hy : t.byId id with
    | none =>
      have hids : (t.set r).rows.map Row.id = t.rows.map Row.id := setRows_ids _ _
      rw [byId_eq_none, hids, ← byId_eq_none]
      exact hy
    | some y =>
      obtain ⟨hmem, rfl⟩ := byId_eq_some.mp hy
      exact byId_eq_some.mpr ⟨(mem_set h).mpr (Or.inr ⟨hmem, hid⟩), rfl⟩

end Table

/-! ## A small table

Values for the concrete runs of the other files. -/

namespace Sample

def uuid (n : Nat) : UUID := ⟨n % 10, by omega⟩

def thread : UUID := uuid 1

def message : UUID := uuid 2

def user : UUID := uuid 3

def minute (n : Nat) : DateTime :=
  ⟨2025, 10, 1, 12, n % 60, 0, 0, by
    refine ⟨by omega, by omega, by omega, by omega, by omega, by decide, by omega, ?_, ?_, ?_⟩
      <;> omega⟩

def row : Row := ⟨message, thread, user, some .text, some "hola", none, some (minute 0),
  some (minute 0), none⟩

def table : Table := ⟨[row], by simp⟩

def threeMessages : Table :=
  ⟨[row, { row with id := uuid 4, createdAt := some (minute 1) },
    { row with id := uuid 5, createdAt := some (minute 2) }], by decide⟩

end Sample

end MessagesApp

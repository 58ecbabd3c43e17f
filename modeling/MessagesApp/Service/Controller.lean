import MessagesApp.Db.Queries
import MessagesApp.Lib.Linearize

/-!
# `Controller.py`: the three writes, statement by statement

Each call runs its statements on a connection in autocommit: the check (`SELECT … FOR UPDATE`) and
the write are two transactions, and other calls' statements may fall between them. `statement` is
one statement of a call together with the code around it (`Controller.py` 32–154); `service` is the
interleaving of any number of calls, as an instance of `Lib.Service`.

There is no transaction around the two statements: `pool.acquire()` gives a connection and opens
none. So the row lock that the comment of line 93 speaks of is gone before the write, and a delete
may come between the two statements of an update.

`Did` says once what a statement can have done, in five cases: a create inserts, a check refuses or
passes, a write finds its row no longer as it needs it, or writes it. Every invariant of the table
is a case analysis over it, and none looks at `statement` again. `SameIdentity` is what all of them
leave alone: a row keeps its id, thread, user, type and creation time, and is never removed.

A statement that raises does not change the table, so it is no step here; what a call answers then
is in `Atomicity`. Left out as well is `_as_uuid`, since the arguments are UUIDs already.
-/

set_option autoImplicit false

namespace MessagesApp.Controller

open Py Lib

/-- A call and its arguments. `UpdateMessage` takes a type and does not use it, and no call but
`CreateMessage` uses its user. -/
inductive Call
  | createMessage (thread user : UUID) (content : Option String) (typeM : Option MsgType)
      (path : Option (List String))
  | updateMessage (thread message user : UUID) (content : Option String)
      (typeM : Option MsgType) (path : Option (List String))
  | deleteMessage (thread message user : UUID)
deriving DecidableEq

def Call.thread : Call → UUID
  | .createMessage thread .. => thread
  | .updateMessage thread .. => thread
  | .deleteMessage thread .. => thread

def Call.message? : Call → Option UUID
  | .createMessage .. => none
  | .updateMessage _ message .. => some message
  | .deleteMessage _ message _ => some message

/-- The exception for a statement that gave no row, or a row that fails the check. -/
def Call.noRow : Call → String
  | .createMessage .. => "No row returned when creating message"
  | .updateMessage .. => "No row returned when updating message"
  | .deleteMessage .. => "No row returned when deleting message"

/-- Where a call stands: before its first statement, or after a check that passed. What the check
has read is not kept, as the source does not look at it again. -/
inductive Pc
  | begin
  | checked
deriving DecidableEq

/-- What the database server supplies to a statement: its `NOW()`, and an id for a row that is
inserted. -/
structure Supplied where
  now : DateTime
  newId : UUID

/-- `(resultado, error)`: a row, or the text of the exception. -/
abbrev Result := Except String Row

/-- The next statement of a call, and the code up to the one after it. `none` is a statement that
cannot be: a create whose new id is taken, and a second statement of a create. -/
def statement (c : Call) (pc : Pc) (x : Supplied) (t : Table) :
    Option (Table × Progress Pc Result) :=
  match c, pc with
  | .createMessage thread user content typeM path, .begin =>
      (Sql.createMessage t x.now x.newId thread user typeM content path none none).map
        fun (t', row) => (t', .answered (.ok row))
  | .createMessage .., .checked => none
  | .updateMessage thread message _ content _ path, pc =>
      match pc with
      | .begin =>
          match Sql.getMessageByIdForUpdate t message with
          | none => some (t, .answered (.error c.noRow))
          | some current =>
              if current.threadId ≠ thread then some (t, .answered (.error c.noRow))
              else some (t, .running .checked)
      | .checked =>
          match Sql.updateMessageContentAndPaths t x.now message content path none with
          | (t', none) => some (t', .answered (.error c.noRow))
          | (t', some row) => some (t', .answered (.ok row))
  | .deleteMessage thread message _, pc =>
      match pc with
      | .begin =>
          match Sql.getMessageByIdForUpdate t message with
          | none => some (t, .answered (.error c.noRow))
          | some current =>
              if current.threadId ≠ thread ∨ current.deletedAt ≠ none then
                some (t, .answered (.error c.noRow))
              else some (t, .running .checked)
      | .checked =>
          match Sql.softDeleteMessage t x.now message none with
          | (t', none) => some (t', .answered (.error c.noRow))
          | (t', some row) => some (t', .answered (.ok row))

/-- Any number of calls, interleaved statement by statement. Each statement is atomic, as it is a
transaction of its own. -/
def service : Service Table Call Pc Supplied Result where
  start := .begin
  step := statement

abbrev State := Service.State Table Call Pc Result
abbrev Event := Service.Event Call Supplied
abbrev Step := Transition State Event

/-! ## What a statement does -/

/-- The check of an update or a delete passes on this row: it is in the thread of the path, and for
a delete it is live. The user is not asked for. -/
def Call.passes : Call → Row → Prop
  | .createMessage .., _ => False
  | .updateMessage thread .., r => r.threadId = thread
  | .deleteMessage thread .., r => r.threadId = thread ∧ r.deletedAt = none

theorem Call.passes.thread {c : Call} {r : Row} (h : c.passes r) : r.threadId = c.thread := by
  cases c with
  | createMessage => exact h.elim
  | updateMessage => exact h
  | deleteMessage => exact h.1

/-- The row a write leaves in the place of `r`; a create has none to replace. An update writes what
it was given and `updated_at`, a delete the two times. -/
def Call.written (c : Call) (now : DateTime) (r : Row) : Row :=
  match c with
  | .createMessage .. => r
  | .updateMessage _ _ _ content _ path => Sql.updatedRow now content path none r
  | .deleteMessage .. => Sql.softDeletedRow now none r

/-- The row a create inserts. -/
def Call.created (thread user : UUID) (content : Option String) (typeM : Option MsgType)
    (path : Option (List String)) (x : Supplied) : Row :=
  Sql.insertedRow x.now x.newId thread user typeM content path none none

/-- A row a write may replace: the `UPDATE` of a delete asks for a live one again, that of an update
for nothing but the id. -/
def Call.replaces : Call → Row → Prop
  | .createMessage .., _ => False
  | .updateMessage .., _ => True
  | .deleteMessage .., r => r.deletedAt = none

/-- Everything a statement can do. With the arguments and the tables before and after, so that a
proof by cases has all it needs. -/
inductive Did (x : Supplied) (t : Table) : Call → Pc → Table → Progress Pc Result → Prop
  | created {thread user : UUID} {content : Option String} {typeM : Option MsgType}
      {path : Option (List String)} {t' : Table} :
      t.insert (Call.created thread user content typeM path x) = some t' →
      Did x t (.createMessage thread user content typeM path) .begin t'
        (.answered (.ok (Call.created thread user content typeM path x)))
  | refused {c : Call} {m : UUID} :
      c.message? = some m → (∀ r, t.byId m = some r → ¬ c.passes r) →
      Did x t c .begin t (.answered (.error c.noRow))
  | passed {c : Call} {m : UUID} {r : Row} :
      c.message? = some m → t.byId m = some r → c.passes r →
      Did x t c .begin t (.running .checked)
  | lost {c : Call} {m : UUID} :
      c.message? = some m → (∀ r, t.byId m = some r → ¬ c.replaces r) →
      Did x t c .checked t (.answered (.error c.noRow))
  | wrote {c : Call} {m : UUID} {r : Row} :
      c.message? = some m → t.byId m = some r → c.replaces r →
      Did x t c .checked (t.set (c.written x.now r)) (.answered (.ok (c.written x.now r)))

theorem statement_did {c : Call} {pc : Pc} {x : Supplied} {t t' : Table}
    {g : Progress Pc Result} (h : statement c pc x t = some (t', g)) : Did x t c pc t' g := by
  cases c with
  | createMessage thread user content typeM path =>
    cases pc with
    | begin =>
      simp only [statement, Sql.createMessage, Option.map_map, Option.map_eq_some_iff] at h
      obtain ⟨t₁, hins, he⟩ := h
      obtain ⟨rfl, rfl⟩ := Prod.mk.inj he
      exact .created hins
    | checked => simp [statement] at h
  | updateMessage thread message user content typeM path =>
    cases pc with
    | begin =>
      simp only [statement, Sql.getMessageByIdForUpdate] at h
      split at h
      · rename_i hnone
        obtain ⟨rfl, rfl⟩ := Prod.mk.inj (Option.some.inj h)
        exact .refused rfl fun r hr => by simp [hnone] at hr
      · rename_i cur hcur
        split at h
        · rename_i hne
          obtain ⟨rfl, rfl⟩ := Prod.mk.inj (Option.some.inj h)
          refine .refused rfl fun r hr hp => hne ?_
          rw [hcur] at hr
          cases hr
          exact hp
        · rename_i heq
          obtain ⟨rfl, rfl⟩ := Prod.mk.inj (Option.some.inj h)
          exact .passed rfl hcur (not_not.mp heq)
    | checked =>
      simp only [statement, Sql.updateMessageContentAndPaths] at h
      cases hcur : t.byId message with
      | none =>
        simp only [hcur] at h
        obtain ⟨rfl, rfl⟩ := Prod.mk.inj (Option.some.inj h)
        exact .lost rfl fun r hr => by simp [hcur] at hr
      | some cur =>
        simp only [hcur] at h
        obtain ⟨rfl, rfl⟩ := Prod.mk.inj (Option.some.inj h)
        exact .wrote (c := .updateMessage thread message user content typeM path) rfl hcur trivial
  | deleteMessage thread message user =>
    cases pc with
    | begin =>
      simp only [statement, Sql.getMessageByIdForUpdate] at h
      split at h
      · rename_i hnone
        obtain ⟨rfl, rfl⟩ := Prod.mk.inj (Option.some.inj h)
        exact .refused rfl fun r hr => by simp [hnone] at hr
      · rename_i cur hcur
        split at h
        · rename_i hne
          obtain ⟨rfl, rfl⟩ := Prod.mk.inj (Option.some.inj h)
          refine .refused rfl fun r hr hp => ?_
          rw [hcur] at hr
          cases hr
          rcases hne with hne | hne
          · exact hne hp.1
          · exact hne hp.2
        · rename_i hok
          obtain ⟨rfl, rfl⟩ := Prod.mk.inj (Option.some.inj h)
          simp only [not_or, not_not] at hok
          exact .passed rfl hcur hok
    | checked =>
      simp only [statement, Sql.softDeleteMessage] at h
      cases hcur : t.byId message with
      | none =>
        simp only [hcur] at h
        obtain ⟨rfl, rfl⟩ := Prod.mk.inj (Option.some.inj h)
        exact .lost rfl fun r hr => by simp [hcur] at hr
      | some cur =>
        simp only [hcur] at h
        split at h
        · rename_i t₁ heq
          split at heq
          · cases heq
          · rename_i hdel
            obtain ⟨rfl, -⟩ := Prod.mk.inj heq
            obtain ⟨rfl, rfl⟩ := Prod.mk.inj (Option.some.inj h)
            refine .lost rfl fun r hr hp => hdel ?_
            rw [hcur] at hr
            cases hr
            exact hp
        · rename_i t₁ row heq
          split at heq
          · rename_i hdel
            obtain ⟨rfl, hrow⟩ := Prod.mk.inj heq
            cases hrow
            obtain ⟨rfl, rfl⟩ := Prod.mk.inj (Option.some.inj h)
            exact .wrote (c := .deleteMessage thread message user) rfl hcur hdel
          · cases heq

/-! ## What a statement leaves alone -/

/-- Columns that no statement changes once a row is there. So a key that was read once means the
same row later. -/
structure SameIdentity (r r' : Row) : Prop where
  id : r'.id = r.id
  threadId : r'.threadId = r.threadId
  userId : r'.userId = r.userId
  type : r'.type = r.type
  createdAt : r'.createdAt = r.createdAt

theorem SameIdentity.refl (r : Row) : SameIdentity r r := ⟨rfl, rfl, rfl, rfl, rfl⟩

theorem SameIdentity.trans {r₁ r₂ r₃ : Row} (h : SameIdentity r₁ r₂) (h' : SameIdentity r₂ r₃) :
    SameIdentity r₁ r₃ :=
  ⟨h'.id.trans h.id, h'.threadId.trans h.threadId, h'.userId.trans h.userId,
    h'.type.trans h.type, h'.createdAt.trans h.createdAt⟩

theorem SameIdentity.key {r r' : Row} (h : SameIdentity r r') : r'.key = r.key := by
  unfold Row.key
  rw [h.createdAt, h.id]

theorem Call.written_identity (c : Call) (now : DateTime) (r : Row) :
    SameIdentity r (c.written now r) := by
  cases c <;> exact ⟨rfl, rfl, rfl, rfl, rfl⟩

@[simp] theorem Call.written_id (c : Call) (now : DateTime) (r : Row) :
    (c.written now r).id = r.id := (c.written_identity now r).id

end MessagesApp.Controller

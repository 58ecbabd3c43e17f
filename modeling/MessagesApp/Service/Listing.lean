import MessagesApp.Service.Api

/-!
# `list_messages` without a cache

The two queries behind a list and the answers made of them (`Controller.py` 165–221, `API.py`
205–232). Without a cursor `ListMessages` runs the `…First` query; with one, `ListMessagesBefore`
runs the `…Before` query below it. The handler passes its limit to the first as a text, which
`ListMessages` reads again, and to the second as the number.

A request is one whole step here: the cursor is read, the statement is run on one table, and the
answer is made. That is enough for a walk over pages while the table may change between them, as
no page is made of two statements. With the cache there are several `await`s, which `Handlers`
has; `Cached` and `Uncached` relate the two.

`listFirst_eq` and `listBefore_eq` are all that is used of the definitions later: the page is the
beginning of the live rows in the order the database chose, or the keyset page below the cursor.
A request whose limit is out of bounds is answered 422 by FastAPI and is left out.
-/

set_option autoImplicit false

namespace MessagesApp.Controller

open Py

def CHUNK_CANT : Int := 50

/-- The limit `ListMessages` takes from its filter; a filter that is no number leaves the default.
The handler always passes `1` and a number. -/
def listLimit (typeM : Option Int) (filtro : Option String) : Int :=
  match typeM, filtro with
  | some 1, some f => match Py.int f.toList with
      | some n => max 1 n
      | none => CHUNK_CANT
  | _, _ => CHUNK_CANT

/-- `ListMessages`, when the database orders the thread's rows as `l`. -/
def listMessages (t : Table) (l : List Row) (thread : UUID) (typeM : Option Int)
    (filtro : Option String) : Option (List Row) :=
  Sql.listThreadMessagesNotDeletedDescFirst t l thread (listLimit typeM filtro).toNat

/-- `ListMessagesBefore`. asyncpg refuses an aware datetime for a `timestamp` column, with a text of
its own, before the statement is sent. -/
def listMessagesBefore (bindError : ParsedDateTime → String) (t : Table) (thread : UUID)
    (createdAt : ParsedDateTime) (messageId : UUID) (limit : Nat) : Except String (List Row) :=
  match createdAt.offset with
  | none => .ok (Sql.listThreadMessagesNotDeletedDescBefore t thread createdAt.naive messageId limit)
  | some _ => .error (bindError createdAt)

end MessagesApp.Controller

namespace MessagesApp.Api

open Py

/-- The bounds of `limit` in the query string, which FastAPI has checked before the handler runs. -/
def validLimit (limit : Nat) : Prop := 1 ≤ limit ∧ limit ≤ 200

/-- What a request is answered; `raised` is an exception that leaves the handler, for which the
server answers a 500 without a detail. -/
inductive Reply
  | page (p : Page)
  | message (status : Nat) (m : MessageOut)
  | noContent
  | http (e : HttpError)
  | raised
deriving DecidableEq

/-- The answer made of a list of rows. A row that is no message raises out of the handler. -/
def answer (V : Pydantic) (rows : List Value) (limit : Nat) : Reply :=
  match pageOf V rows limit with
  | some p => .page p
  | none => .raised

/-- The cursor of a request. One that is given and is empty or does not parse is refused: the empty
text is false where it is parsed, and not `None` where that is asked. -/
def requestCursor : Option String → Except HttpError (Option (ParsedDateTime × UUID))
  | none => .ok none
  | some "" => .error ⟨400, "Invalid cursor"⟩
  | some cur => match parseCursor cur with
      | some before => .ok (some before)
      | none => .error ⟨400, "Invalid cursor"⟩

/-- The list without a cursor, of rows ordered as `l`. -/
def listFirst (V : Pydantic) (t : Table) (l : List Row) (thread : UUID) (limit : Nat) :
    Option Reply :=
  (Controller.listMessages t l thread (some 1) (some (toString limit))).map fun rows =>
    answer V (rows.map toValue) limit

/-- The list behind a cursor. -/
def listBefore (V : Pydantic) (bindError : ParsedDateTime → String) (t : Table) (thread : UUID)
    (limit : Nat) (cursor : String) : Reply :=
  match requestCursor (some cursor) with
  | .error e => .http e
  | .ok none => .raised
  | .ok (some (ts, mid)) =>
      match Controller.listMessagesBefore bindError t thread ts mid limit with
      | .error e => .http (mapErrorToHttp e)
      | .ok rows => answer V (rows.map toValue) limit

/-! ## Their answers -/

theorem answer_toValue (V : Pydantic) (rows : List Row) (limit : Nat) :
    answer V (rows.map toValue) limit = .page (rowsPage .orjson rows limit) := by
  rw [answer, pageOf_toValue]

theorem answer_json (V : Pydantic) (lib : JsonLib) (rows : List Row) (limit : Nat) :
    answer V (rows.map fun r => jsonify lib (toValue r)) limit = .page (rowsPage lib rows limit) := by
  rw [answer, pageOf_json]

/-- `int(str(limit))` for the limits there are. -/
private theorem int_toString (n : Fin 201) : Py.int (toString n.val).toList = some (n.val : Int) := by
  revert n
  decide +kernel

theorem listLimit_toString {limit : Nat} (h : validLimit limit) :
    (Controller.listLimit (some 1) (some (toString limit))).toNat = limit := by
  have hint : Py.int (toString limit).toList = some (limit : Int) :=
    int_toString ⟨limit, by have := h.2; omega⟩
  have hpos := h.1
  simp only [Controller.listLimit, hint]
  omega

/-- **The first page** is the beginning of the thread's live rows in the order the database chose,
as many as the limit says. -/
theorem listFirst_eq {V : Pydantic} {t : Table} {l : List Row} {thread : UUID} {limit : Nat}
    (hl : Sql.DescOrder t thread l) (h : validLimit limit) :
    listFirst V t l thread limit = some (.page (rowsPage .orjson (l.take limit) limit)) := by
  unfold listFirst Controller.listMessages Sql.listThreadMessagesNotDeletedDescFirst
  rw [if_pos hl, Option.map_some, listLimit_toString h, answer_toValue]

/-- A cursor is read whole or refused; the empty one does not parse either. -/
theorem requestCursor_some (cursor : String) : requestCursor (some cursor) =
    match parseCursor cursor with
    | some before => .ok (some before)
    | none => .error ⟨400, "Invalid cursor"⟩ := by
  by_cases hempty : cursor = ""
  · subst hempty
    rfl
  · simp [requestCursor]

/-- **A page behind a cursor** is the page of the keys below it. The cursor is a naive time and an
id. -/
theorem listBefore_eq {V : Pydantic} {bindError : ParsedDateTime → String} {t : Table}
    {thread : UUID} {limit : Nat} {cursor : String} {ts : DateTime} {mid : UUID}
    (hc : parseCursor cursor = some (⟨ts, none⟩, mid)) :
    listBefore V bindError t thread limit cursor =
      .page (rowsPage .orjson (Lib.Keyset.page Row.key (Key.of ts mid) limit (t.live thread)) limit) := by
  unfold listBefore
  rw [requestCursor_some, hc]
  exact answer_toValue V _ limit

/-- And there is no page behind any other. -/
theorem parseCursor_of_page {V : Pydantic} {bindError : ParsedDateTime → String} {t : Table}
    {thread : UUID} {limit : Nat} {cursor : String} {p : Page}
    (h : listBefore V bindError t thread limit cursor = .page p) :
    ∃ ts mid, parseCursor cursor = some (⟨ts, none⟩, mid) := by
  unfold listBefore at h
  rw [requestCursor_some] at h
  cases hc : parseCursor cursor with
  | none =>
    rw [hc] at h
    cases h
  | some before =>
    obtain ⟨⟨ts, offset⟩, mid⟩ := before
    rw [hc] at h
    cases offset with
    | none => exact ⟨ts, mid, rfl⟩
    | some offset => cases h

end MessagesApp.Api

import MessagesApp.Service.OneList

/-!
# Cursors

A cursor goes out with a page and comes back in a query string. `_parse_cursor` reads what
`_make_cursor` wrote, whether the row came from the database or from the cache. It also reads
what nobody wrote: a timestamp with an offset from UTC, which asyncpg then refuses to bind
(`Controller.py` 205–219), so that the answer is a 500 where a 400 was meant.

`cursor_round_trip` is the first half, for every time and id and both JSON libraries. The cursor of
a page from the cache is written from the text that JSON has for the time, which under `json` has a
blank where `isoformat` has a `T`; both are read.

`cursor_answered_iff` is the second. `start` refuses a cursor that does not parse, and a parsed one
is read whole (`start_cursor`). Then the offset decides: without one the answer is a page
(`await_naive`), with one it is what asyncpg raises (`await_aware`). What it raises is a parameter,
and whatever its text, the answer is not a page and not the 400.

A plus sign in a query string is a blank when it arrives, unless it was quoted; the cursor here is
the text that the handler gets.
-/

set_option autoImplicit false

namespace MessagesApp.Handlers

open Py Lib Api Cache Controller

/-! ## What was written -/

/-- **Decoding undoes encoding**, of a row from the database and of the row that `_loads` makes of
what `_dumps` wrote. -/
theorem cursor_round_trip (cfg : Settings) (r : Row) (ts : DateTime) :
    (makeCursor (rowDict { r with createdAt := some ts })).bind parseCursor =
      some (⟨ts, none⟩, r.id) ∧
    ∃ d, loads (dumps cfg (toValue { r with createdAt := some ts })) = some (.dict d) ∧
      (makeCursor d).bind parseCursor = some (⟨ts, none⟩, r.id) := by
  constructor
  · have hcur : makeCursor (rowDict { r with createdAt := some ts }) =
        some (cursorOf .orjson ts r.id) := makeCursor_rowDict _
    rw [hcur, Option.bind_some, parseCursor_cursorOf]
  · have hcur : makeCursor (jsonifyDict cfg.lib (rowDict { r with createdAt := some ts })) =
        some (cursorOf cfg.lib ts r.id) := makeCursor_json cfg.lib _
    refine ⟨jsonifyDict cfg.lib (rowDict { r with createdAt := some ts }), ?_, ?_⟩
    · rw [toValue, dumps, jsonify, loads]
    · rw [hcur, Option.bind_some, parseCursor_cursorOf]

/-! ## What was made up -/

variable {E : Env} {thread : UUID} {limit : Nat}

/-- The cursor is a timestamp with an offset from UTC and a UUID. A `Z` is an offset; so is one of
zero minutes. -/
def Aware (cursor : String) : Prop :=
  ∃ time id t offset mid, splitOnce '|' cursor.toList = some (time, id) ∧
    fromisoformat time = some ⟨t, some offset⟩ ∧ UUID.parse id = some mid

theorem parseCursor_eq_some {cursor : String} {ts : ParsedDateTime} {mid : UUID} :
    parseCursor cursor = some (ts, mid) ↔ ∃ time id, splitOnce '|' cursor.toList = some (time, id) ∧
      fromisoformat time = some ts ∧ UUID.parse id = some mid := by
  unfold parseCursor
  cases splitOnce '|' cursor.toList with
  | none => simp
  | some parts =>
    obtain ⟨time, id⟩ := parts
    simp [Option.bind_eq_some_iff]

theorem aware_iff {cursor : String} :
    Aware cursor ↔ ∃ t offset mid, parseCursor cursor = some (⟨t, some offset⟩, mid) := by
  simp only [parseCursor_eq_some]
  constructor
  · rintro ⟨time, id, t, offset, mid, h⟩
    exact ⟨t, offset, mid, time, id, h⟩
  · rintro ⟨t, offset, mid, time, id, h⟩
    exact ⟨time, id, t, offset, mid, h⟩

/-- A cursor is refused before anything is asked of the database, or read whole. The handler does
nothing else with it. -/
theorem start_cursor (E : Env) (thread : UUID) (limit : Nat) (cursor : String) :
    parseCursor cursor = none ∧
        start E (.list thread limit (some cursor)) = .answered (.http ⟨400, "Invalid cursor"⟩) ∨
      ∃ ts mid, parseCursor cursor = some (ts, mid) ∧
        start E (.list thread limit (some cursor)) = .select (some (ts, mid)) := by
  have hcur := requestCursor_some cursor
  cases hparse : parseCursor cursor with
  | none =>
    rw [hparse] at hcur
    exact Or.inl ⟨rfl, by simp only [start, hcur]⟩
  | some before =>
    rw [hparse] at hcur
    exact Or.inr ⟨before.1, before.2, rfl, by simp only [start, hcur]⟩

/-- Behind a cursor without an offset comes a page, of the rows below it at that moment. -/
theorem await_naive {ts : DateTime} {mid : UUID} {cursor : String} (m : Moment thread) :
    await E (.list thread limit (some cursor)) (.select (some (⟨ts, none⟩, mid))) m =
      .answered (.page (rowsPage .orjson
        (Sql.listThreadMessagesNotDeletedDescBefore m.table thread ts mid limit) limit)) := by
  rw [← answer_toValue E.V]
  rfl

/-- Behind one with an offset, what asyncpg raises, which is mapped as any exception of the
controller. -/
theorem await_aware {ts : DateTime} {offset : UtcOffset} {mid : UUID} {cursor : String}
    (m : Moment thread) :
    await E (.list thread limit (some cursor)) (.select (some (⟨ts, some offset⟩, mid))) m =
      .answered (.http (mapErrorToHttp (E.bindError ⟨ts, some offset⟩))) := rfl

/-- **A cursor is answered 400 at once, or with a page, unless its timestamp has an offset.** For
every text that may stand in the query string. -/
theorem cursor_answered_iff (cursor : String) (m : Moment thread) :
    (start E (.list thread limit (some cursor)) = .answered (.http ⟨400, "Invalid cursor"⟩) ∨
      ∃ p, served E (.list thread limit (some cursor)) [m] = .answered (.page p)) ↔
    ¬ Aware cursor := by
  rw [aware_iff]
  rcases start_cursor E thread limit cursor with
    ⟨hparse, hstart⟩ | ⟨⟨ts, offset⟩, mid, hparse, hstart⟩
  · exact ⟨fun _ => by simp [hparse], fun _ => Or.inl hstart⟩
  · have hserved : served E (.list thread limit (some cursor)) [m] =
        await E (.list thread limit (some cursor)) (.select (some (⟨ts, offset⟩, mid))) m := by
      rw [← hstart]
      rfl
    rw [hstart, hserved, hparse]
    cases offset with
    | none => simp [await_naive]
    | some offset => simp [await_aware]

theorem sample_order : Sql.DescOrder Sample.table Sample.thread [Sample.row] := by decide

/-- A moment at the table of one message. -/
def atSample : Moment Sample.thread where
  table := Sample.table
  redis := fun _ => none
  outcome := .done
  order := [Sample.row]
  sorted := sample_order

/-- A timestamp in UTC, with its `Z`. -/
def utcCursor : String := "2025-10-01T12:00:00Z|00000000-0000-0000-0000-000000000001"

/-- The database refuses it, and the answer is 500. -/
theorem cursor_server_error :
    served sampleEnv (.list Sample.thread 50 (some utcCursor)) [atSample] =
        .answered (.http ⟨500, "can't subtract offset-naive and offset-aware datetimes"⟩) ∧
      ¬ (start sampleEnv (.list Sample.thread 50 (some utcCursor)) =
          .answered (.http ⟨400, "Invalid cursor"⟩) ∨
        ∃ p, served sampleEnv (.list Sample.thread 50 (some utcCursor)) [atSample] =
          .answered (.page p)) := by
  have hserved : served sampleEnv (.list Sample.thread 50 (some utcCursor)) [atSample] =
      .answered (.http ⟨500, "can't subtract offset-naive and offset-aware datetimes"⟩) := rfl
  obtain ⟨before, hstart⟩ : ∃ before,
      start sampleEnv (.list Sample.thread 50 (some utcCursor)) = .select before := ⟨_, rfl⟩
  refine ⟨hserved, ?_⟩
  rw [hserved, hstart]
  simp

end MessagesApp.Handlers

import MessagesApp.Service.Uncached
import Mathlib.Data.List.DropRight

/-!
# The conversation of a thread

What the clients of the service can know of a thread is which requests were made and what they
were answered. `after` makes the conversation of these: a create puts its message at the end, an
update writes over a text, a delete takes a message out, and what is refused changes nothing. The
table holds the same conversation in the order of its rows; and where `NOW()` goes up from create
to create, the first page is its end.

This is the abstract thread, with no table, no keys and no time in it. `Ran` is what a request alone
does to the table, by its answer, and `lines_ran` is the step of the refinement: the rows of the
thread change as the conversation does. A sequential history of whole requests is then the fold of
`after` (`lines_sequential`).

Time comes in only for the order of a page. The rows of a thread are in the order of their creation,
and the query orders by `created_at`; `Chronological` says that the two agree, which a clock that
goes up keeps (`chronological_of_run`), and `first_page` that a page is then the end of the
conversation, newest first.

A line has the fields that a reader of the page sees. Types and paths are left out, since the web
interface shows neither.
-/

set_option autoImplicit false

namespace MessagesApp.Conversation

open Py Lib Api Handlers
open Controller hiding State Event Step step_cases

/-- A message as its readers see it: who wrote it, its text, and when it was created. -/
structure Line where
  id : UUID
  user : UUID
  texto : Option String
  createdAt : Option ParsedDateTime
deriving DecidableEq

abbrev Entry := Service.Entry Request Input Reply

/-- The line under an update of `message` with this content. -/
def Line.edited (message : UUID) (content : Option String) (l : Line) : Line :=
  if l.id = message then { l with texto := content.or l.texto } else l

/-- The conversation of `thread` behind a request and its answer. It goes by what the request asked
for and what it was told, and never by the table. -/
def after (thread : UUID) (ls : List Line) (e : Entry) : List Line :=
  match e.call, e.result with
  | .write (.createMessage thread' user content _ _), .message _ m =>
      if thread' = thread then ls ++ [⟨m.id, user, content.or (some ""), m.createdAt⟩] else ls
  | .write (.updateMessage _ message _ content _ _), .message .. =>
      ls.map (Line.edited message content)
  | .write (.deleteMessage _ message _), .noContent => ls.filter fun l => l.id ≠ message
  | _, _ => ls

/-- The conversation behind a history. -/
def said (thread : UUID) (ls : List Line) (order : List Entry) : List Line :=
  order.foldl (after thread) ls

def Line.of (m : MessageOut) : Line := ⟨m.id, m.userId, m.content, m.createdAt⟩

/-- The conversation that a table holds. -/
def lines (t : Table) (thread : UUID) : List Line :=
  (t.live thread).map fun r => Line.of (messageOf r)

theorem said_append (thread : UUID) (ls : List Line) (order order' : List Entry) :
    said thread ls (order ++ order') = said thread (said thread ls order) order' :=
  List.foldl_append

variable {E : Env} {t t' : Table} {thread : UUID} {row w : Row}

/-! ## The live rows -/

theorem live_insert (h : t.insert row = some t') (hthread : row.threadId = thread)
    (hlive : row.deletedAt = none) : t'.live thread = t.live thread ++ [row] := by
  obtain ⟨-, hrows⟩ := Table.insert_eq_some h
  unfold Table.live
  rw [hrows, List.filter_append, List.filter_cons_of_pos (by simp [hthread, hlive])]
  rfl

/-- The live rows where one is written over, -/
theorem live_rewritten (h : row ∈ t.rows) (hw : SameIdentity row w)
    (hdel : w.deletedAt = row.deletedAt) :
    (t.set w).live thread = (t.live thread).map fun x => if x.id = w.id then w else x := by
  unfold Table.live
  rw [Table.rows_set, List.filter_map]
  refine congrArg _ (List.filter_congr fun x hx => ?_)
  by_cases hid : x.id = w.id
  · have hrow : x = row := Table.eq_of_id hx h (hid.trans hw.id)
    subst hrow
    simp [hid, hdel, hw.threadId]
  · simp [hid]

/-- and where one is deleted. -/
theorem live_withdrawn (hdel : w.deletedAt ≠ none) :
    (t.set w).live thread = (t.live thread).filter fun x => x.id ≠ w.id := by
  unfold Table.live
  rw [Table.rows_set, List.filter_map, List.filter_filter]
  have hkeep : ∀ x ∈ t.rows, (decide (x.id ≠ w.id) &&
      decide (x.threadId = thread ∧ x.deletedAt = none)) =
      ((fun r : Row => decide (r.threadId = thread ∧ r.deletedAt = none)) ∘
        fun x => if x.id = w.id then w else x) x := by
    intro x hx
    by_cases hid : x.id = w.id
    · simp [hid, hdel]
    · simp [hid]
  rw [← List.filter_congr hkeep]
  refine (List.map_congr_left fun x hx => ?_).trans (List.map_id _)
  have hid := (Bool.and_eq_true_iff.mp (List.mem_filter.mp hx).2).1
  exact if_neg (of_decide_eq_true hid)

/-! ## One request alone -/

theorem messageReply_eq (V : Pydantic) (status : Nat) (row : Row) :
    writeReply.messageReply V status row = .message status (messageOf row) := by
  unfold writeReply.messageReply
  rw [toMessageOut_toValue]

/-- What a request alone does, by its answer. A list does nothing, a create inserts its row, a write
is refused or leaves its row. -/
inductive Ran (E : Env) (t : Table) : Request → Input → Table → Reply → Prop
  | listed {thread : UUID} {limit : Nat} {cursor : Option String} {x : Input} {reply : Reply} :
      (api E).step (.list thread limit cursor) .begin x t = some (t, .answered reply) →
      Ran E t (.list thread limit cursor) x t reply
  | created {thread user : UUID} {content : Option String} {typeM : Option MsgType}
      {path : Option (List String)} {y : Supplied} {t' : Table} :
      t.insert (Call.created thread user content typeM path y) = some t' →
      Ran E t (.write (.createMessage thread user content typeM path)) (.db y) t'
        (.message 201 (messageOf (Call.created thread user content typeM path y)))
  | refused {c : Call} {m : UUID} {y : Supplied} {e : HttpError} :
      c.message? = some m → Ran E t (.write c) (.db y) t (.http e)
  | wrote {c : Call} {m : UUID} {y : Supplied} {row : Row} :
      c.message? = some m → t.byId m = some row → c.passes row → c.replaces row →
      Ran E t (.write c) (.db y) (t.set (c.written y.now row))
        (writeReply E.V c (c.written y.now row))

theorem ran_checked {r : Request} {x : Input} {reply : Reply} {m : UUID} {c : Call}
    (h : Service.Alone (api E) r x .checked t t' reply) (hr : r = .write c)
    (hm : c.message? = some m) (hrow : t.byId m = some row) (hpass : c.passes row) :
    Ran E t r x t' reply := by
  subst hr
  cases h with
  | last hst =>
    rcases api_cases hst with ⟨c', y, g, hc, rfl, hdid, hg⟩ | ⟨_, _, _, _, hc, -⟩
    · cases hc
      cases statement_did hdid with
      | lost hm' hlost =>
        cases hg
        exact .refused hm
      | wrote hm' hrow' hrep =>
        cases hg
        cases hm.symm.trans hm'
        cases hrow.symm.trans hrow'
        exact .wrote hm hrow hpass hrep
    · cases hc
  | more hst hrest =>
    rcases api_cases hst with ⟨c', y, g, hc, rfl, hdid, hg⟩ | ⟨_, _, _, _, hc, -⟩
    · cases hc
      cases statement_did hdid with
      | lost => cases hg
      | wrote => cases hg
    · cases hc

theorem ran_of_alone {r : Request} {x : Input} {reply : Reply}
    (h : Service.Alone (api E) r x (api E).start t t' reply) : Ran E t r x t' reply := by
  have hbegin : (api E).start = .begin := rfl
  rw [hbegin] at h
  cases h with
  | last hst =>
    rcases api_cases hst with ⟨c, y, g, rfl, rfl, hdid, hg⟩ | ⟨_, _, _, _, rfl, -, rfl, hg⟩
    · cases statement_did hdid with
      | created hins =>
        cases hg
        simp only [replyOf, writeReply, messageReply_eq]
        exact .created hins
      | refused hm hno =>
        cases hg
        exact .refused hm
      | passed => cases hg
    · exact .listed hst
  | more hst hrest =>
    rcases api_cases hst with ⟨c, y, g, rfl, rfl, hdid, hg⟩ | ⟨_, _, _, _, -, -, -, hg⟩
    · cases statement_did hdid with
      | created => cases hg
      | refused => cases hg
      | passed hm hrow hpass =>
        cases hg
        exact ran_checked hrest rfl hm hrow hpass
    · cases hg

/-! ## The conversation of the table -/

/-- **A request changes the conversation of the table as its answer says.** By what the request did:
the rows of the thread are appended to, written over, filtered, or left alone. -/
theorem lines_ran {r : Request} {x : Input} {reply : Reply} (h : Ran E t r x t' reply) (i : Nat) :
    lines t' thread = after thread (lines t thread) ⟨i, r, x, reply⟩ := by
  cases h with
  | listed => rfl
  | @created thread' user content typeM path y t' hins =>
    unfold after lines
    by_cases hthread : thread' = thread
    · rw [live_insert hins hthread rfl, List.map_append]
      simp only [hthread, if_true]
      rfl
    · rw [Table.live_insert_of_ne hins hthread]
      simp only [hthread, if_false]
  | @refused c m y e => cases c <;> rfl
  | @wrote c m y row hm hrow hpass hrep =>
    obtain ⟨hmem, hid⟩ := Table.byId_eq_some.mp hrow
    have hw := c.written_identity y.now row
    cases c with
    | createMessage => cases hm
    | updateMessage thread' message user content typeM path =>
      cases hm
      simp only [writeReply, messageReply_eq, after]
      unfold lines
      rw [live_rewritten hmem hw rfl, List.map_map, List.map_map]
      refine List.map_congr_left fun z hz => ?_
      simp only [Function.comp, Line.edited, Call.written_id, hid]
      by_cases hzm : z.id = m
      · have hz' : z = row := Table.eq_of_id (Table.mem_live.mp hz).1 hmem (hzm.trans hid.symm)
        subst hz'
        have hline : (Line.of (messageOf z)).id = m := hzm
        rw [if_pos hline, if_pos hzm]
        rfl
      · have hline : (Line.of (messageOf z)).id ≠ m := hzm
        rw [if_neg hline, if_neg hzm]
    | deleteMessage thread' message user =>
      cases hm
      simp only [writeReply, after]
      unfold lines
      rw [live_withdrawn (by simp [Call.written, Sql.softDeletedRow]), List.filter_map]
      rw [Call.written_id, hid]
      rfl

/-- **The table holds the conversation of its history**, from whatever conversation it began
with. -/
theorem lines_sequential {o : Table} {order : List Entry}
    (h : Service.Sequential (api E) o order t) :
    lines t thread = said thread (lines o thread) order := by
  induction h with
  | nil => rfl
  | @snoc order m o' e _ ha ih =>
    rw [said_append, ← ih]
    exact lines_ran (ran_of_alone ha) e.id

/-! ## Time -/

/-- When the messages of a thread were created, those that are deleted too. -/
def times (t : Table) (thread : UUID) : List (Option DateTime) :=
  (t.rows.filter fun r => r.threadId = thread).map Row.createdAt

/-- The rows of a thread were created one after the other: their times rise in the order of the
table, those of deleted messages too. -/
def Chronological (t : Table) (thread : UUID) : Prop :=
  ∃ ts : List DateTime, times t thread = ts.map some ∧ ts.Pairwise (· < ·)

/-- `NOW()` of a create is later than all messages of its thread. It is what two creates in one
microsecond would break. -/
def Ticking (thread : UUID) (t : Step) : Prop :=
  ∀ i x user content typeM path phase, t.event = .step i (.db x) →
    t.pre.reqs i = some (.write (.createMessage thread user content typeM path), phase) →
    ∀ c, some c ∈ times t.pre.table thread → c < x.now

theorem times_insert (h : t.insert row = some t') : times t' thread =
    times t thread ++ if row.threadId = thread then [row.createdAt] else [] := by
  obtain ⟨-, hrows⟩ := Table.insert_eq_some h
  unfold times
  rw [hrows, List.filter_append, List.map_append]
  by_cases hthread : row.threadId = thread
  · rw [if_pos hthread, List.filter_cons_of_pos (by simp [hthread])]
    rfl
  · rw [if_neg hthread, List.filter_cons_of_neg (by simp [hthread])]
    rfl

theorem times_set (h : row ∈ t.rows) (hw : SameIdentity row w) :
    times (t.set w) thread = times t thread := by
  have hsame : ∀ x ∈ t.rows, x.id = w.id → x = row := fun x hx hid =>
    Table.eq_of_id hx h (hid.trans hw.id)
  unfold times
  rw [Table.rows_set, List.filter_map, List.map_map]
  have hkeep : ∀ x ∈ t.rows, ((fun r : Row => decide (r.threadId = thread)) ∘
      fun x => if x.id = w.id then w else x) x = decide (x.threadId = thread) := by
    intro x hx
    by_cases hid : x.id = w.id
    · have hrow := hsame x hx hid
      subst hrow
      simp [hid, hw.threadId]
    · simp [hid]
  rw [List.filter_congr hkeep]
  refine List.map_congr_left fun x hx => ?_
  by_cases hid : x.id = w.id
  · show (if x.id = w.id then w else x).createdAt = x.createdAt
    rw [if_pos hid, hw.createdAt, hsame x (List.mem_filter.mp hx).1 hid]
  · simp [hid]

theorem Chronological.restrict (h : Chronological t' thread)
    (hp : times t thread <+: times t' thread) : Chronological t thread := by
  obtain ⟨ts, hts, hlt⟩ := h
  rw [hts] at hp
  obtain ⟨ts', hp', hts'⟩ := List.prefix_map_iff.mp hp
  exact ⟨ts', hts', hlt.sublist hp'.sublist⟩

theorem times_ran {r : Request} {x : Input} {reply : Reply} (h : Ran E t r x t' reply) :
    times t thread <+: times t' thread := by
  cases h with
  | listed => exact List.prefix_rfl
  | refused => exact List.prefix_rfl
  | created hins =>
    rw [times_insert hins]
    exact List.prefix_append _ _
  | @wrote c m y row hm hrow hpass hrep =>
    have hsame : times (t.set (c.written y.now row)) thread = times t thread :=
      times_set (Table.byId_eq_some.mp hrow).1 (c.written_identity y.now row)
    exact hsame ▸ List.prefix_rfl

/-- The table is chronological in the middle of a history if it is at its end. -/
theorem chronological_cut {order : List Entry}
    (h : Service.Sequential (api E) t order t') (ht : Chronological t' thread) :
    Chronological t thread := by
  refine ht.restrict (h.relates (R := fun t t' => times t thread <+: times t' thread) ?_ ?_ ?_)
  · exact fun _ => List.prefix_rfl
  · exact fun hab hbc => hab.trans hbc
  · exact fun _ _ _ _ _ ha => times_ran (ran_of_alone ha)

theorem chronological_step {s s' : State} {e : Event} (h : Chronological s.table thread)
    (he : next E s e = some s') (htick : Ticking thread ⟨s, e, s'⟩) :
    Chronological s'.table thread := by
  rcases step_cases he with ⟨i, r, rfl, -, -, rfl⟩ |
    ⟨i, input, r, phase, t, redis, phase', rfl, hr, hres, rfl⟩ | ⟨key, rfl, rfl⟩
  · exact h
  · cases hres with
    | @ran c pc x t' g hdid =>
      cases hdid with
      | @created thread' user content typeM path t' hins =>
        unfold Chronological
        rw [times_insert hins]
        by_cases hthread : thread' = thread
        · subst hthread
          obtain ⟨ts, hts, hlt⟩ := h
          have hnow : ∀ c ∈ ts, c < x.now := fun c hc =>
            htick i x user content typeM path _ rfl hr c (by
              rw [hts]
              exact List.mem_map_of_mem hc)
          refine ⟨ts ++ [x.now], ?_, ?_⟩
          · rw [hts, List.map_append]
            simp [Call.created, Sql.insertedRow]
          · refine List.pairwise_append.mpr ⟨hlt, List.pairwise_singleton _ _, fun c hc d hd => ?_⟩
            rw [List.mem_singleton.mp hd]
            exact hnow c hc
        · have hrow : (Call.created thread' user content typeM path x).threadId ≠ thread := hthread
          rw [if_neg hrow, List.append_nil]
          exact h
      | refused => exact h
      | passed => exact h
      | lost => exact h
      | @wrote c m row hm hrow hrep =>
        unfold Chronological
        rw [times_set (Table.byId_eq_some.mp hrow).1 (c.written_identity x.now row)]
        exact h
    | got => exact h
    | touched => exact h
    | selected => exact h
    | selectedBefore => exact h
    | stored => exact h
    | published => exact h
    | invalidated => exact h
  · exact h

theorem chronological_of_run {o : Table} {tr : List Step} {s : State}
    (h : Run (next E) (State.init o) tr s) (ho : Chronological o thread)
    (htick : ∀ t ∈ tr, Ticking thread t) : Chronological s.table thread := by
  refine h.historyInv (C := Ticking thread) (I := fun _ s => Chronological s.table thread) ho ?_ htick
  exact fun _ _ _ _ _ hm he hC => chronological_step hm he hC

/-! ## The first page -/

/-- The rows of a thread, with their times going up. -/
theorem Chronological.rising (h : Chronological t thread) :
    (t.rows.filter fun r => r.threadId = thread).Pairwise fun a b => a.createdKey < b.createdKey := by
  obtain ⟨ts, hts, hlt⟩ := h
  have hcreated : (times t thread).Pairwise fun a b =>
      ∃ c d, a = some c ∧ b = some d ∧ c < d := by
    rw [hts]
    exact List.pairwise_map.mpr (hlt.imp fun hcd => ⟨_, _, rfl, rfl, hcd⟩)
  refine (List.pairwise_map.mp hcreated).imp ?_
  rintro a b ⟨c, d, ha, hb, hcd⟩
  unfold Row.createdKey
  rw [ha, hb]
  exact WithTop.coe_lt_coe.mpr hcd

theorem Chronological.dated (h : Chronological t thread) (hrow : row ∈ t.live thread) :
    ∃ c, row.createdAt = some c := by
  obtain ⟨ts, hts, -⟩ := h
  obtain ⟨hmem, hthread, -⟩ := Table.mem_live.mp hrow
  have htime : row.createdAt ∈ times t thread :=
    List.mem_map_of_mem (List.mem_filter.mpr ⟨hmem, decide_eq_true hthread⟩)
  rw [hts] at htime
  obtain ⟨c, -, hc⟩ := List.mem_map.mp htime
  exact ⟨c, hc.symm⟩

theorem Chronological.distinct (h : Chronological t thread) : Sql.DistinctCreated t thread := by
  intro a ha b hb hat hbt hab
  have hkeys : ((t.rows.filter fun r => r.threadId = thread).map Row.createdKey).Nodup :=
    List.pairwise_map.mpr (h.rising.imp ne_of_lt)
  refine List.inj_on_of_nodup_map hkeys ?_ ?_ ?_
  · exact List.mem_filter.mpr ⟨ha, decide_eq_true hat⟩
  · exact List.mem_filter.mpr ⟨hb, decide_eq_true hbt⟩
  · unfold Row.createdKey
    rw [hab]

/-- Newest first is the order of the rows backwards, where their times rise; so there is one order
only. -/
theorem descOrder_reverse {l : List Row} (h : Chronological t thread)
    (hl : Sql.DescOrder t thread l) : l = (t.live thread).reverse := by
  have hlive : (t.live thread).Sublist (t.rows.filter fun r => r.threadId = thread) := by
    have hfilter : t.live thread =
        (t.rows.filter fun r => r.threadId = thread).filter fun r => r.deletedAt = none := by
      unfold Table.live
      rw [List.filter_filter]
      exact List.filter_congr fun r _ => by simp [Bool.and_comm]
    rw [hfilter]
    exact List.filter_sublist
  have hdesc : (t.live thread).reverse.Pairwise fun a b => b.createdKey ≤ a.createdKey :=
    List.pairwise_reverse.mpr ((h.rising.sublist hlive).imp le_of_lt)
  exact hl.unique h.distinct ⟨List.reverse_perm _, hdesc⟩

/-- **The first page is the end of the conversation**, newest first: as many of its last lines as
the limit says. -/
theorem first_page {limit : Nat} {x : Input} {reply : Reply} (hlimit : validLimit limit)
    (h : Ran E t (.list thread limit none) x t' reply) (ht : Chronological t thread) :
    ∃ rows, reply = .page (rowsPage .orjson rows limit) ∧
      (∀ r ∈ rows, r ∈ t.live thread) ∧
      rows.reverse.map (fun r => Line.of (messageOf r)) = (lines t thread).rtake limit := by
  cases h with
  | listed hst =>
    cases x with
    | rows l =>
      obtain ⟨q, hq, heq⟩ := Option.map_eq_some_iff.mp hst
      cases heq
      have hl : Sql.DescOrder t thread l := by
        by_contra hno
        simp [listFirst, Controller.listMessages, Sql.listThreadMessagesNotDeletedDescFirst, hno] at hq
      rw [listFirst_eq hl hlimit, Option.some.injEq] at hq
      have hrev := descOrder_reverse ht hl
      refine ⟨l.take limit, hq.symm, fun r hr => hl.mem.mp (List.mem_of_mem_take hr), ?_⟩
      rw [hrev, List.rtake_eq_reverse_take_reverse]
      unfold lines
      rw [← List.map_reverse, ← List.map_take, List.map_reverse]
    | redis => cases hst
    | db => cases hst
    | published => cases hst

end MessagesApp.Conversation

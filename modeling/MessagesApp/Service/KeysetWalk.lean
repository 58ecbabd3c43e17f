import MessagesApp.Service.Linearizable
import MessagesApp.Service.Pagination

/-!
# Walking a thread while it changes

One client follows cursors while others create, update and delete. Each page is a `SELECT` on the
table as it is by then, and the table may be another one at each page; but no write changes a
row's `created_at` or its id, so the key below which the next page is cut means the same in all of
them. The walk is then a `Keyset.Visit` of the snapshots its pages came from.

`walkStep` interleaves the two: a step of the other clients' calls, statement by statement, or the
walk's next request, which is answered from the table of its moment. The walk begins at a cursor,
and not at a first page, whose order may be another one (`Pagination`).

`Visited` is what a run keeps: the rows read so far, the snapshots they came from, and the key the
walk has come to. From it and the library follow the three things a client wants: the items fall
strictly, none comes twice, and a message that was there before the first page and is not deleted
until the walk stops is among them. A message that is created on the way, or deleted, may or may
not be.

The order of the items is the query's, so that an item's content is that of the moment of its
page. The cache plays no part, as a request with a cursor does not look at it.
-/

set_option autoImplicit false

namespace MessagesApp.Api

open Py Lib Controller

/-- The service, and how far the walk has come: the cursor of its next request, and the pages it has
got. -/
structure WalkState where
  svc : Controller.State
  cursor : String
  pages : List Page
  /-- The last page said `has_more = False`, or was empty. -/
  stopped : Bool

/-- A step of some other client's call, or the walk's next request. -/
inductive WalkEvent
  | client (e : Controller.Event)
  | fetch

/-- What the walk does with the answer to a request. It stops at a page that says that there is no
more, and at an empty one; any other answer ends the run here. -/
def turnPage (s : WalkState) : Reply → Option WalkState
  | .page p => some { s with
      cursor := p.nextCursor.getD s.cursor
      pages := s.pages ++ [p]
      stopped := !p.hasMore || p.items.isEmpty }
  | _ => none

/-- A statement of another client's call, or the next request of the walk, as long as it has not
stopped. -/
def walkStep (V : Pydantic) (bindError : ParsedDateTime → String) (thread : UUID) (limit : Nat)
    (s : WalkState) : WalkEvent → Option WalkState
  | .client e => (service.next s.svc e).map fun svc => { s with svc }
  | .fetch =>
      if s.stopped then none
      else turnPage s (listBefore V bindError s.svc.obj thread limit s.cursor)

/-- Nothing has been read, and calls on the table `o` are still to come. -/
def WalkState.init (o : Table) (cursor : String) : WalkState :=
  ⟨Service.State.init o, cursor, [], false⟩

abbrev WalkRun := List (Transition WalkState WalkEvent)

def MessageOut.key (m : MessageOut) : Key :=
  match m.createdAt with
  | some ⟨t, none⟩ => Key.of t m.id
  | _ => ⊤

@[simp] theorem key_messageOf (r : Row) : (messageOf r).key = r.key := by
  unfold MessageOut.key messageOf Row.key
  cases r.createdAt <;> rfl

def WalkState.items (s : WalkState) : List MessageOut := s.pages.flatMap Page.items

/-! ## The steps -/

variable {V : Pydantic} {bindError : ParsedDateTime → String} {thread : UUID} {limit : Nat}
  {o : Table} {start : String} {ts : DateTime} {mid : UUID} {s s' : WalkState} {tr : WalkRun}

theorem clients_run (h : Run (walkStep V bindError thread limit) s tr s') :
    ∃ tr', Run service.next s.svc tr' s'.svc := by
  induction h with
  | nil => exact ⟨[], .nil⟩
  | @snoc _ m s' e _ he ih =>
    obtain ⟨tr', h'⟩ := ih
    cases e with
    | client e =>
      obtain ⟨svc, hsvc, rfl⟩ := Option.map_eq_some_iff.mp he
      exact ⟨_, h'.snoc hsvc⟩
    | fetch =>
      simp only [walkStep] at he
      split at he
      · cases he
      · unfold turnPage at he
        split at he
        · cases he
          exact ⟨tr', h'⟩
        · cases he

theorem row_kept (h : Run (walkStep V bindError thread limit) s tr s') {id : UUID} {r : Row}
    (hr : s.svc.obj.byId id = some r) :
    ∃ r', s'.svc.obj.byId id = some r' ∧ SameIdentity r r' := by
  obtain ⟨tr', h'⟩ := clients_run h
  obtain ⟨r', hr', hsame, -⟩ := row_stays h' hr
  exact ⟨r', hr', hsame⟩

/-- The thread at the time of a request of the walk. -/
def Fetched (thread : UUID) (tr : WalkRun) (xs : List Row) : Prop :=
  ∃ t ∈ tr, t.event = .fetch ∧ t.pre.stopped = false ∧ xs = t.pre.svc.obj.live thread

theorem Fetched.append {xs : List Row} {tr' : WalkRun} (h : Fetched thread tr xs) :
    Fetched thread (tr ++ tr') xs := by
  obtain ⟨t, ht, hrest⟩ := h
  exact ⟨t, List.mem_append_left _ ht, hrest⟩

/-- How far the walk has come, in terms of keys: what it has read is a visit of the snapshots behind
its pages, and it has come to `d`. -/
structure Visited (thread : UUID) (limit : Nat) (k₀ : Key) (tr : WalkRun) (s : WalkState)
    (snaps rows : List (List Row)) (d : Key) : Prop where
  visit : Keyset.Visit Row.key limit k₀ snaps rows d
  items : s.items = rows.flatten.map messageOf
  snaps : ∀ xs ∈ snaps, Fetched thread tr xs
  /-- What has been read is still there, with the key it had. -/
  known : ∀ x ∈ rows.flatten, ∃ r, s.svc.obj.byId x.id = some r ∧ r.key = x.key
  cursor : s.stopped = false → ∃ c i, parseCursor s.cursor = some (⟨c, none⟩, i) ∧ d = Key.of c i
  /-- The walk stops where nothing was left below the last page. -/
  stop : s.stopped = true → ∃ xs, Fetched thread tr xs ∧ Keyset.under Row.key d xs = []
  unread : s.pages = [] → ∀ t ∈ tr, t.event ≠ .fetch

/-- A write of others leaves the visit as it is: a row that was read is there still, under the key
it had. -/
theorem Visited.client {k₀ d : Key} {snaps rows : List (List Row)} {e : Controller.Event}
    (h : Visited thread limit k₀ tr s snaps rows d)
    (he : walkStep V bindError thread limit s (.client e) = some s') :
    Visited thread limit k₀ (tr ++ [⟨s, .client e, s'⟩]) s' snaps rows d := by
  have hrun : Run (walkStep V bindError thread limit) s [⟨s, .client e, s'⟩] s' := .snoc .nil he
  obtain ⟨svc, hsvc, rfl⟩ := Option.map_eq_some_iff.mp he
  refine ⟨h.visit, h.items, fun xs hxs => (h.snaps xs hxs).append, fun x hx => ?_, h.cursor,
    fun hs => ?_, fun hp t ht => ?_⟩
  · obtain ⟨r, hr, hk⟩ := h.known x hx
    obtain ⟨r', hr', hsame⟩ := row_kept hrun hr
    exact ⟨r', hr', hsame.key.trans hk⟩
  · obtain ⟨xs, hxs, hnil⟩ := h.stop hs
    exact ⟨xs, hxs.append, hnil⟩
  · rcases List.mem_append.mp ht with ht | ht
    · exact h.unread hp t ht
    · rw [List.mem_singleton] at ht
      subst ht
      intro hev
      cases hev

/-- A request is answered with the page of the keys below the cursor. -/
theorem fetch_cases {c : DateTime} {i : UUID} (hc : parseCursor s.cursor = some (⟨c, none⟩, i))
    (he : walkStep V bindError thread limit s .fetch = some s') :
    s.stopped = false ∧ turnPage s (.page (rowsPage .orjson
      (Keyset.page Row.key (Key.of c i) limit (s.svc.obj.live thread)) limit)) = some s' := by
  simp only [walkStep] at he
  split at he
  · cases he
  · rename_i hs
    rw [listBefore_eq hc] at he
    exact ⟨by simpa using hs, he⟩

/-- A request adds a page to the visit, cut from the table as it is now below the key that the walk
has come to. -/
theorem Visited.fetch (hlimit : validLimit limit) {k₀ d : Key} {snaps rows : List (List Row)}
    (h : Visited thread limit k₀ tr s snaps rows d)
    (he : walkStep V bindError thread limit s .fetch = some s') :
    ∃ snaps' rows' d', Visited thread limit k₀ (tr ++ [⟨s, .fetch, s'⟩]) s' snaps' rows' d' := by
  have hs : s.stopped = false := by
    by_contra hs
    simp [walkStep, hs] at he
  obtain ⟨c, i, hc, rfl⟩ := h.cursor hs
  obtain ⟨-, hturn⟩ := fetch_cases hc he
  have hd := s.svc.obj.live_distinct thread (Key.of c i)
  have hnew : Fetched thread (tr ++ [⟨s, .fetch, s'⟩]) (s.svc.obj.live thread) :=
    ⟨_, List.mem_append_right _ (List.mem_singleton_self _), rfl, hs, rfl⟩
  have hunread : s'.pages = [] → ∀ t ∈ tr ++ [⟨s, WalkEvent.fetch, s'⟩], t.event ≠ .fetch := by
    intro hp
    simp only [turnPage, Option.some.injEq] at hturn
    subst hturn
    simp at hp
  simp only [turnPage, Option.some.injEq] at hturn
  generalize hpage : Keyset.page Row.key (Key.of c i) limit (s.svc.obj.live thread) = p at hturn
  have hitems : s'.items = s.items ++ p.map messageOf := by
    subst hturn
    simp [WalkState.items]
  have hsvc : s'.svc = s.svc := by rw [← hturn]
  have hstopped : s'.stopped = (p.length != limit || p.isEmpty) := by
    rw [← hturn]
    show (!(p.length == limit) || (p.map messageOf).isEmpty) = _
    rw [List.isEmpty_map]
    rfl
  cases ha : p.getLast? with
  | none =>
    -- an empty page: nothing lies below the cursor
    have hnil : p = [] := List.getLast?_eq_none_iff.mp ha
    have hunder : Keyset.under Row.key (Key.of c i) (s.svc.obj.live thread) = [] := by
      have hlen : (Keyset.page Row.key (Key.of c i) limit (s.svc.obj.live thread)).length < limit := by
        rw [hpage, hnil]
        exact hlimit.1
      rw [← Keyset.page_eq_under hlen, hpage, hnil]
    refine ⟨snaps, rows, Key.of c i, h.visit, ?_, fun xs hxs => (h.snaps xs hxs).append, ?_, ?_,
      fun _ => ⟨_, hnew, hunder⟩, hunread⟩
    · rw [hitems, h.items, hnil]
      simp
    · rw [hsvc]
      exact h.known
    · intro hfalse
      rw [hstopped, hnil] at hfalse
      simp at hfalse
  | some a =>
    have hap : a ∈ Keyset.page Row.key (Key.of c i) limit (s.svc.obj.live thread) :=
      hpage ▸ List.mem_of_getLast? ha
    obtain ⟨ts, hts, hkey⟩ := key_of_mem_page hap
    refine ⟨_, _, _, .page _ a h.visit hd (by rw [hpage]; exact ha), ?_, ?_, ?_, ?_, ?_, hunread⟩
    · rw [hitems, h.items, hpage, List.flatten_append, List.flatten_singleton, List.map_append]
    · intro xs hxs
      rcases List.mem_append.mp hxs with hxs | hxs
      · exact (h.snaps xs hxs).append
      · rw [List.mem_singleton.mp hxs]
        exact hnew
    · intro x hx
      rw [hsvc]
      rw [List.flatten_append, List.flatten_singleton, List.mem_append] at hx
      rcases hx with hx | hx
      · exact h.known x hx
      · have hlive := Table.mem_live.mp (Keyset.mem_of_mem_page hx).1
        exact ⟨x, Table.mem_iff_byId.mp hlive.1, rfl⟩
    · intro _
      refine ⟨ts, a.id, ?_, hkey⟩
      rw [← hturn]
      show parseCursor ((rowsPage .orjson p limit).nextCursor.getD s.cursor) = _
      rw [rowsPage_nextCursor ha hts]
      exact parseCursor_cursorOf .orjson ts a.id
    · intro hstop
      -- a page that is not full: below its last row nothing is left
      refine ⟨_, hnew, ?_⟩
      rw [Keyset.under_last hd (by rw [hpage]; exact ha), List.drop_eq_nil_iff]
      have hne : p.isEmpty = false := by
        cases p with
        | nil => cases ha
        | cons => rfl
      rw [hstopped, hne, Bool.or_false, bne_iff_ne] at hstop
      have hle : p.length ≤ limit := by
        rw [← hpage]
        exact List.length_take_le ..
      have hshort : (Keyset.page Row.key (Key.of c i) limit (s.svc.obj.live thread)).length < limit := by
        rw [hpage]
        exact lt_of_le_of_ne hle hstop
      rw [← Keyset.page_eq_under hshort]
      exact hshort.le

/-- **Every run of the walk is a visit.** By induction on the run, with the two lemmas above for its
steps. -/
theorem visited_of_run (hlimit : validLimit limit)
    (hstart : parseCursor start = some (⟨ts, none⟩, mid))
    (h : Run (walkStep V bindError thread limit) (WalkState.init o start) tr s) :
    ∃ snaps rows d, Visited thread limit (Key.of ts mid) tr s snaps rows d := by
  refine h.historyInv (C := fun _ => True) (I := fun tr s => ∃ snaps rows d,
    Visited thread limit (Key.of ts mid) tr s snaps rows d) ?_ ?_ fun _ _ => trivial
  · refine ⟨[], [], Key.of ts mid, .start, rfl, by simp, by simp, fun _ => ⟨ts, mid, hstart, rfl⟩,
      fun hs => ?_, by simp⟩
    cases hs
  · intro tr m e s' _ hm he _
    obtain ⟨snaps, rows, d, hm⟩ := hm
    cases e with
    | client e => exact ⟨snaps, rows, d, hm.client he⟩
    | fetch => exact hm.fetch hlimit he

/-! ## What a walk returns -/

/-- What is claimed of a walk from `k₀`, in a state it has come to: it is answered, it does not
repeat, and it does not skip what stays. -/
structure WalkStable (V : Pydantic) (bindError : ParsedDateTime → String) (thread : UUID)
    (limit : Nat) (o : Table) (start : String) (k₀ : Key) (tr : WalkRun) (s : WalkState) : Prop where
  /-- The next request is answered with a page. -/
  answered : s.stopped = false → ∃ p, listBefore V bindError s.svc.obj thread limit s.cursor = .page p
  /-- The pages fall strictly, one after the other, -/
  descending : s.items.Pairwise fun a b => b.key < a.key
  /-- so no message is returned twice. -/
  once : (s.items.map MessageOut.id).Nodup
  /-- A message that was there before the first page, below the start, and was not deleted until
  the walk stopped, has been returned. -/
  complete : s.stopped = true → ∀ tr₁ tr₂ m, tr = tr₁ ++ tr₂ →
    Run (walkStep V bindError thread limit) (WalkState.init o start) tr₁ m → m.pages = [] →
    ∀ r ∈ m.svc.obj.live thread, r.key < k₀ →
    (∀ t ∈ tr₂, t.pre.stopped = false →
      ∀ r', t.pre.svc.obj.byId r.id = some r' → r'.deletedAt = none) →
    r.id ∈ s.items.map MessageOut.id

/-- A row that is live at every request of the walk is in every snapshot, under its key. -/
theorem in_snapshots {k₀ : Key} {tr₁ tr₂ : WalkRun} {m : WalkState} {snaps rows : List (List Row)}
    {d : Key} (h : Run (walkStep V bindError thread limit) m tr₂ s)
    (hm : Visited thread limit k₀ tr₁ m snaps rows d) (hpages : m.pages = []) {r : Row}
    (hr : r ∈ m.svc.obj.live thread)
    (hlive : ∀ t ∈ tr₂, t.pre.stopped = false →
      ∀ r', t.pre.svc.obj.byId r.id = some r' → r'.deletedAt = none)
    {xs : List Row} (hxs : Fetched thread (tr₁ ++ tr₂) xs) :
    ∃ x ∈ xs, x.id = r.id ∧ x.key = r.key := by
  obtain ⟨t, ht, hev, hstop, rfl⟩ := hxs
  rcases List.mem_append.mp ht with ht | ht
  · exact absurd hev (hm.unread hpages t ht)
  · obtain ⟨a, b, rfl⟩ := List.append_of_mem ht
    obtain ⟨ha, -, -⟩ := h.cut
    obtain ⟨hrows, hthread, -⟩ := Table.mem_live.mp hr
    obtain ⟨r', hr', hsame⟩ := row_kept ha (Table.mem_iff_byId.mp hrows)
    refine ⟨r', Table.mem_live.mpr ⟨?_, hsame.threadId.trans hthread, ?_⟩, hsame.id, hsame.key⟩
    · exact (Table.byId_eq_some.mp hr').1
    · exact hlive t ht hstop r' hr'

/-- **A walk by cursors is stable under concurrent writes.** Whatever the others do between its
requests, by what `Keyset.Visit` gives for snapshots that change. -/
theorem walk_stable (hlimit : validLimit limit)
    (hstart : parseCursor start = some (⟨ts, none⟩, mid))
    (h : Run (walkStep V bindError thread limit) (WalkState.init o start) tr s) :
    WalkStable V bindError thread limit o start (Key.of ts mid) tr s := by
  obtain ⟨snaps, rows, d, hv⟩ := visited_of_run hlimit hstart h
  obtain ⟨hdle, hdesc, hrange⟩ := hv.visit.strictDesc
  refine ⟨fun hs => ?_, ?_, ?_, ?_⟩
  · obtain ⟨c, i, hc, -⟩ := hv.cursor hs
    exact ⟨_, listBefore_eq hc⟩
  · rw [hv.items, List.pairwise_map]
    exact hdesc.imp fun hab => by rw [key_messageOf, key_messageOf]; exact hab
  · rw [hv.items, List.map_map, List.Nodup, List.pairwise_map]
    refine hdesc.imp_of_mem fun {x y} hx hy hlt hid => ?_
    -- the same id is the same row, with the same key
    obtain ⟨r, hr, hrk⟩ := hv.known x hx
    obtain ⟨r', hr', hrk'⟩ := hv.known y hy
    rw [show x.id = y.id from hid, hr', Option.some.injEq] at hr
    rw [← hrk, ← hrk', hr] at hlt
    exact lt_irrefl _ hlt
  · intro hstop tr₁ tr₂ m htr h₁ hpages r hr hk hlive
    subst htr
    obtain ⟨m', h₁', h₂⟩ := h.split
    have hmm : m = m' := h₁.state_unique h₁'
    subst hmm
    obtain ⟨snaps₁, rows₁, d₁, hv₁⟩ := visited_of_run hlimit hstart h₁
    have hin : ∀ xs, Fetched thread (tr₁ ++ tr₂) xs → ∃ x ∈ xs, x.id = r.id ∧ x.key = r.key :=
      fun _ => in_snapshots h₂ hv₁ hpages hr hlive
    rcases hv.visit.covers hk fun xs hxs => by
        obtain ⟨x, hx, -, hxk⟩ := hin xs (hv.snaps xs hxs)
        exact ⟨x, hx, hxk⟩ with hlt | ⟨x, hx, hxk⟩
    · -- it would still be below the last page, where nothing was left
      obtain ⟨xs, hxs, hnil⟩ := hv.stop hstop
      obtain ⟨x, hx, -, hxk⟩ := hin xs hxs
      have hmem : x ∈ Keyset.under Row.key d xs := Keyset.mem_under.mpr ⟨hx, by rw [hxk]; exact hlt⟩
      rw [hnil] at hmem
      cases hmem
    · have hid : x.id = r.id := (Row.id_eq_of_key (by rw [hxk]; exact hk) hxk)
      rw [hv.items, List.map_map]
      exact List.mem_map.mpr ⟨x, hx, hid⟩

/-- Pages of one message; the second message is deleted after the first page. -/
def walkOverDelete : List WalkEvent :=
  [.fetch, .client (.invoke 0 (.deleteMessage Sample.thread (Sample.uuid 4) Sample.user)),
    .client (.step 0 ⟨Sample.minute 3, Sample.message⟩),
    .client (.step 0 ⟨Sample.minute 3, Sample.message⟩), .fetch, .fetch]

theorem walk_stable_overDelete : ∃ tr s, tr.map Transition.event = walkOverDelete ∧
    WalkStable Pydantic.python (fun _ => "") Sample.thread 1 Sample.threeMessages
      (cursorOf .orjson (Sample.minute 59) Sample.user) (Key.of (Sample.minute 59) Sample.user)
      tr s ∧
    s.stopped = true ∧ s.items.map MessageOut.id = [Sample.uuid 5, Sample.message] := by
  have hrun : ((exec (walkStep Pydantic.python (fun _ => "") Sample.thread 1)
      (WalkState.init Sample.threeMessages (cursorOf .orjson (Sample.minute 59) Sample.user))
      walkOverDelete).map fun s => (s.stopped, s.items.map MessageOut.id)) =
        some (true, [Sample.uuid 5, Sample.message]) := by
    decide +kernel
  obtain ⟨s, hs, hend⟩ := Option.map_eq_some_iff.mp hrun
  obtain ⟨htr, h⟩ := Run.of_exec hs
  obtain ⟨hstop, hids⟩ := Prod.mk.inj hend
  exact ⟨_, s, htr, walk_stable ⟨by decide, by decide⟩ (parseCursor_cursorOf .orjson _ _) h, hstop,
    hids⟩

end MessagesApp.Api

import MessagesApp.Tools.Seed
import MessagesApp.Py.Value

/-!
# `consume_messages.py`

The workers read the first page of a thread, and now and then the page behind it (64–129). The
counters are changed behind each page, in one piece, so that between two pages of one item they are
a read ahead of the items that are done: the invariant counts these reads (`ahead`), one for each
worker that waits for a second page, and is over when nothing is unfinished.

What every page keeps is `Balanced`: the totals are the sums of their parts, and the codes add up to
the requests. It needs nothing of the schedule. The invariant of a run (`Inv`) adds how the reads
stand to the items, and `report_of_run` reads the report off both. The queue and the workers are
`Lib.WorkPool`, as in `Seed`.

`getPage` follows `_get_page` in what it takes for a failure: anything raised on the way, so also
JSON that is no object or whose `items` have no length. The cursor of the first page is `None` in
both branches of the source, and whether a second page is read is a draw of `random`, which a wait
brings along. How long a wait takes, the limit and the printing are left out.
-/

set_option autoImplicit false

namespace MessagesApp.Tools.Consume

open Lib Py WorkPool

/-! ## `_get_page` -/

/-- What `await client.get(...)` comes to; a response without JSON has none. -/
inductive Reply
  | response (statusCode : Nat) (json : Option Value)
  | exception

/-- What `_get_page` returns. -/
structure Page where
  success : Bool
  code : Nat
  got : Nat
  nextCursor : Value
  elapsed : ℚ

/-- The `except` of `_get_page`. -/
def Page.failed : Page := ⟨false, 599, 0, .none, 0⟩

/-- `_get_page` (64–81). `items` that count as false are none; other ones must have a length, be it
a text or an object. -/
def getPage (reply : Reply) (elapsed : ℚ) : Page :=
  match reply with
  | .exception => .failed
  | .response code json =>
      if code ≠ 200 then ⟨false, code, 0, .none, elapsed⟩
      else match json with
        | some (.dict data) =>
            let items := if (get data "items").truthy then get data "items" else .list []
            match items.len? with
            | some got => ⟨true, code, got, get data "next_cursor", elapsed⟩
            | none => .failed
        | _ => .failed

/-! ## `_worker` -/

/-- The lists of one number that the workers share, and the two statistics. -/
structure Counters where
  ok : Nat
  fail : Nat
  codeCounts : OrderedDict String Nat
  itemsCount : Nat
  latStats : LatencyStats
  okInitial : Nat
  okFollow : Nat
  failInitial : Nat
  failFollow : Nat
  reqTotal : Nat

def Counters.init : Counters := ⟨0, 0, .empty, 0, .init 2048, 0, 0, 0, 0, 0⟩

/-- One wait for a page: what it comes to and when, what `random.randrange` would give, and
whether `random.random() < 0.3` behind it. -/
structure Wait where
  reply : Reply
  elapsed : ℚ
  draw : Nat
  follow : Bool

/-- Which page a worker waits for. -/
inductive Phase
  | initial (threadId : String)
  | follow (threadId : String) (cursor : Value)

/-- The counters that every page changes. A latency of 0 is not recorded, which is that of an
exception. -/
def Counters.page (c : Counters) (p : Page) (draw : Nat) : Counters :=
  { c with
    reqTotal := c.reqTotal + 1
    codeCounts := c.codeCounts.count (toString p.code)
    ok := if p.success then c.ok + 1 else c.ok
    fail := if p.success then c.fail else c.fail + 1
    itemsCount := if p.success then c.itemsCount + p.got else c.itemsCount
    latStats := if p.success ∧ p.elapsed ≠ 0 then c.latStats.add p.elapsed draw else c.latStats }

def Counters.initialPage (c : Counters) (p : Page) (draw : Nat) : Counters :=
  { c.page p draw with
    okInitial := if p.success then c.okInitial + 1 else c.okInitial
    failInitial := if p.success then c.failInitial else c.failInitial + 1 }

def Counters.followPage (c : Counters) (p : Page) (draw : Nat) : Counters :=
  { c.page p draw with
    okFollow := if p.success then c.okFollow + 1 else c.okFollow
    failFollow := if p.success then c.failFollow else c.failFollow + 1 }

/-- The items are thread ids. The cursor of the first page is `None` either way; the second page is
read with the cursor of the first, if it has one. -/
def job : Job String Phase Counters Wait where
  start threadId := .initial threadId
  next c phase w :=
    let p := getPage w.reply w.elapsed
    match phase with
    | .initial threadId =>
        if p.success ∧ w.follow ∧ p.nextCursor.truthy then
          some (c.initialPage p w.draw, some (.follow threadId p.nextCursor))
        else some (c.initialPage p w.draw, none)
    | .follow _ _ => some (c.followPage p w.draw, none)

abbrev State (W : Nat) := WorkPool.State (Fin W) String Phase Counters Wait

/-! ## Counters -/

/-- What every page keeps. -/
structure Balanced (c : Counters) : Prop where
  ok : c.ok = c.okInitial + c.okFollow
  fail : c.fail = c.failInitial + c.failFollow
  requests : c.reqTotal = c.ok + c.fail
  codes : c.codeCounts.total = c.reqTotal

theorem balanced_init : Balanced Counters.init := ⟨rfl, rfl, rfl, rfl⟩

theorem Balanced.initialPage {c : Counters} (h : Balanced c) (p : Page) (draw : Nat) :
    Balanced (c.initialPage p draw) ∧ (c.initialPage p draw).okInitial +
      (c.initialPage p draw).failInitial = c.okInitial + c.failInitial + 1 := by
  obtain ⟨hok, hfail, hreq, hcodes⟩ := h
  have htotal := OrderedDict.total_count c.codeCounts (toString p.code)
  cases hs : p.success with
  | true =>
    refine ⟨⟨?_, ?_, ?_, ?_⟩, ?_⟩ <;>
      simp only [Counters.initialPage, Counters.page, hs, if_true] <;> omega
  | false =>
    refine ⟨⟨?_, ?_, ?_, ?_⟩, ?_⟩ <;>
      simp only [Counters.initialPage, Counters.page, hs, Bool.false_eq_true, if_false] <;> omega

theorem Balanced.followPage {c : Counters} (h : Balanced c) (p : Page) (draw : Nat) :
    Balanced (c.followPage p draw) ∧ (c.followPage p draw).okInitial +
      (c.followPage p draw).failInitial = c.okInitial + c.failInitial := by
  obtain ⟨hok, hfail, hreq, hcodes⟩ := h
  have htotal := OrderedDict.total_count c.codeCounts (toString p.code)
  cases hs : p.success with
  | true =>
    refine ⟨⟨?_, ?_, ?_, ?_⟩, rfl⟩ <;>
      simp only [Counters.followPage, Counters.page, hs, if_true] <;> omega
  | false =>
    refine ⟨⟨?_, ?_, ?_, ?_⟩, rfl⟩ <;>
      simp only [Counters.followPage, Counters.page, hs, Bool.false_eq_true, if_false] <;> omega

/-- A worker that waits for a second page has counted its item already. -/
def ahead : Worker String Phase Wait → Nat
  | .idle => 0
  | .busy _ _ (.initial _) => 0
  | .busy _ _ (.follow _ _) => 1
  | .stopped => 0

/-- The counters are balanced, and the first pages that were read are those of the items that are
done and of the workers that are ahead. -/
structure Inv {W : Nat} (s : State W) : Prop where
  balanced : Balanced s.shared
  reads : s.shared.okInitial + s.shared.failInitial =
    s.finished.length + ∑ w, ahead (s.workers w)

theorem inv_init {W : Nat} (items : List String) :
    Inv (WorkPool.State.init items Counters.init : State W) :=
  ⟨balanced_init, by simp [WorkPool.State.init, Counters.init, ahead]⟩

theorem inv_step {W : Nat} {s s' : State W} {e : Event (Fin W) Wait} (h : Inv s)
    (hstep : WorkPool.step job s e = some s') : Inv s' := by
  obtain ⟨hbalanced, hreads⟩ := h
  rcases step_cases hstep with ⟨w, queue, hw, -, rfl⟩ | ⟨w, item, queue, hw, -, rfl⟩ |
    ⟨w, item, waits, phase, o, shared, phase', hw, hnext, rfl⟩ |
    ⟨w, item, waits, phase, o, shared, hw, hnext, rfl⟩
  · have hahead : _ + 0 = _ + 0 := sum_update ahead hw .stopped
    exact ⟨hbalanced, by simp only; omega⟩
  · have hahead : _ + 0 = _ + 0 := sum_update ahead hw (.busy item [] (job.start item))
    exact ⟨hbalanced, by simp only; omega⟩
  · cases phase with
    | initial threadId =>
      simp only [job] at hnext
      split at hnext
      · cases hnext
        obtain ⟨hb, hcount⟩ := hbalanced.initialPage (getPage o.reply o.elapsed) o.draw
        have hahead : _ + 0 = _ + 1 := sum_update ahead hw (.busy item (waits ++ [o])
          (.follow threadId (getPage o.reply o.elapsed).nextCursor))
        exact ⟨hb, by simp only; omega⟩
      · cases hnext
    | follow threadId cursor => cases hnext
  · cases phase with
    | initial threadId =>
      simp only [job] at hnext
      split at hnext
      · cases hnext
      · cases hnext
        obtain ⟨hb, hcount⟩ := hbalanced.initialPage (getPage o.reply o.elapsed) o.draw
        have hahead : _ + 0 = _ + 0 := sum_update ahead hw .idle
        refine ⟨hb, ?_⟩
        simp only [List.length_append, List.length_singleton]
        omega
    | follow threadId cursor =>
      cases hnext
      obtain ⟨hb, hcount⟩ := hbalanced.followPage (getPage o.reply o.elapsed) o.draw
      have hahead : _ + 1 = _ + 0 := sum_update ahead hw .idle
      refine ⟨hb, ?_⟩
      simp only [List.length_append, List.length_singleton]
      omega

/-! ## When `run` finishes -/

/-- What `run` reports of the reads of `items`. -/
structure Report (items : List String) (c : Counters) : Prop where
  reads : c.okInitial + c.failInitial = items.length
  ok : c.ok = c.okInitial + c.okFollow
  fail : c.fail = c.failInitial + c.failFollow
  requests : c.reqTotal = c.ok + c.fail
  codes : c.codeCounts.total = c.reqTotal

/-- **The report is right in every run that finishes**, whatever the schedule and the answers: when
nothing is unfinished no worker is ahead. -/
theorem report_of_run {W : Nat} {items : List String} {s : State W}
    {tr : List (Transition (State W) (Event (Fin W) Wait))}
    (h : Run (WorkPool.step job) (WorkPool.State.init items Counters.init) tr s)
    (hjoin : s.unfinished = 0) : Report items s.shared := by
  have hinv : Inv s := h.inv (inv_init items) fun _ _ _ hi hstep => inv_step hi hstep
  obtain ⟨honce, hidle⟩ := (conserved_of_run h).joined hjoin
  have hahead : ∑ w, ahead (s.workers w) = 0 := by
    refine Finset.sum_eq_zero fun w _ => ?_
    have hw := hidle w
    cases hs : s.workers w with
    | busy item waits phase => rw [hs] at hw; cases hw
    | idle => rfl
    | stopped => rfl
  have hlen : s.finished.length = items.length := by
    rw [← honce.length_eq, List.length_map]
  have hreads := hinv.reads
  rw [hahead, hlen] at hreads
  exact ⟨hreads, hinv.balanced.ok, hinv.balanced.fail, hinv.balanced.requests, hinv.balanced.codes⟩

/-- **Until it finishes, some worker can go on.** -/
theorem progress_of_run {W : Nat} [Nonempty (Fin W)] {items : List String} {s : State W}
    {tr : List (Transition (State W) (Event (Fin W) Wait))}
    (h : Run (WorkPool.step job) (WorkPool.State.init items Counters.init) tr s)
    (hjoin : s.unfinished ≠ 0) : ∃ e s', WorkPool.step job s e = some s' := by
  refine (conserved_of_run h).progress hjoin fun c phase => ⟨⟨.exception, 0, 0, false⟩, ?_⟩
  cases phase with
  | initial threadId => exact ⟨_, rfl⟩
  | follow threadId cursor => exact ⟨_, rfl⟩

end MessagesApp.Tools.Consume

/-! ## Both tools -/

namespace MessagesApp.Tools

open Lib Py WorkPool

/-- **What the tools report is right in every run that finishes**, for all numbers of workers, all
items, all schedules and all answers. A run is one of `Lib.WorkPool`, from the queue with its items
and sentinels on. -/
theorem accounting_conserved (W : Nat) :
    (∀ (items : List Seed.Item) (tr : List (Transition (Seed.State W) (Event (Fin W) Seed.Wait)))
      (s : Seed.State W),
      Run (WorkPool.step Seed.job) (WorkPool.State.init items Seed.Counters.init) tr s →
        s.unfinished = 0 → Seed.Report items s.finished s.shared) ∧
    (∀ (items : List String)
      (tr : List (Transition (Consume.State W) (Event (Fin W) Consume.Wait)))
      (s : Consume.State W),
      Run (WorkPool.step Consume.job) (WorkPool.State.init items Consume.Counters.init) tr s →
        s.unfinished = 0 → Consume.Report items s.shared) :=
  ⟨fun _ _ _ h hjoin => Seed.report_of_run h hjoin,
    fun _ _ _ h hjoin => Consume.report_of_run h hjoin⟩

def twoItems : List Seed.Item := [⟨0, "t", "u"⟩, ⟨1, "v", "u"⟩]

/-- The first message is created at its second attempt, the other is refused meanwhile. -/
def twoPosts : List (Event (Fin 2) Seed.Wait) :=
  [.get 0, .get 1, .resume 0 ⟨.response 503, 1, 0⟩, .resume 1 ⟨.response 400, 1, 0⟩,
    .resume 0 ⟨.slept, 1, 0⟩, .get 1, .resume 0 ⟨.response 201, 2, 0⟩, .get 0]

/-- A page with a page behind it, which fails. -/
def twoPages : List (Event (Fin 2) Consume.Wait) :=
  [.get 0, .get 1,
    .resume 0 ⟨.response 200 (some (.dict [("items", .list [.none]), ("next_cursor", .str "c")])),
      1, 0, true⟩,
    .resume 0 ⟨.exception, 0, 0, false⟩, .get 0]

/-- Both runs finish: one item created and one given up, and one page read with its next one
missed. -/
theorem accounting_conserved_two :
    (∃ tr, ∃ s : Seed.State 2,
      Run (WorkPool.step Seed.job) (WorkPool.State.init twoItems Seed.Counters.init) tr s ∧
      tr.map Transition.event = twoPosts ∧ s.unfinished = 0 ∧
      Seed.Report twoItems s.finished s.shared ∧ s.shared.ok = 1 ∧ s.shared.fail = 1 ∧
      s.shared.attemptsSum = 3) ∧
    ∃ tr, ∃ s : Consume.State 2,
      Run (WorkPool.step Consume.job) (WorkPool.State.init ["t"] Consume.Counters.init) tr s ∧
      tr.map Transition.event = twoPages ∧ s.unfinished = 0 ∧
      Consume.Report ["t"] s.shared ∧ s.shared.reqTotal = 2 ∧ s.shared.ok = 1 := by
  have hposts : exec (WorkPool.step Seed.job)
      (WorkPool.State.init twoItems Seed.Counters.init : Seed.State 2) twoPosts = some _ := rfl
  have hpages : exec (WorkPool.step Consume.job)
      (WorkPool.State.init ["t"] Consume.Counters.init : Consume.State 2) twoPages = some _ := rfl
  obtain ⟨hseed, hconsume⟩ := accounting_conserved 2
  obtain ⟨hseedEvents, hseedRun⟩ := Run.of_exec hposts
  obtain ⟨hconsumeEvents, hconsumeRun⟩ := Run.of_exec hpages
  exact ⟨⟨_, _, hseedRun, hseedEvents, rfl, hseed _ _ _ hseedRun rfl, rfl, rfl, rfl⟩,
    ⟨_, _, hconsumeRun, hconsumeEvents, rfl, hconsume _ _ _ hconsumeRun rfl, rfl, rfl⟩⟩

end MessagesApp.Tools

import MessagesApp.Lib.WorkPool
import MessagesApp.Lib.OrderedDict
import MessagesApp.Tools.LatencyStats

/-!
# `seed_messages.py`

The workers post the messages of a queue, each with up to five attempts, and count what came of them
(82–135). All counters are changed in one piece behind the last attempt of a message, with no
`await` in between; between the attempts the others run. So a schedule is an interleaving of the
waits, and the state has the shared counters and where each worker waits: that is `Lib.WorkPool`, of
which `job` is the instance. The queue, the sentinels behind it and `q.join()` are the library's.

`_post_with_retry` is a step from one wait to the next or to the result (`postWithRetry`), with the
number of attempts in its phase. What a worker knows at a wait is that number (`Tried`), and what a
result says is how many attempts there were and whether the last one was a 201 (`Truthful`),
whatever the answers were. The counters count the items that are done, together with their waits
(`Accounted`); an item that is under way has not been counted at all. Both are the invariant of a
run (`Inv`), and the report is read off it when nothing is left (`report_of_run`).

The delays and the printing are left out, and so is the request before the run that nothing is made
of. An answer may be any status and any exception, at any time.
-/

set_option autoImplicit false

namespace MessagesApp.Tools.Seed

open Lib WorkPool

/-! ## `_post_with_retry` -/

/-- What `await client.post(...)` or `await asyncio.sleep(...)` comes to. -/
inductive Await
  | response (statusCode : Nat)
  | exception
  | slept

/-- One wait: its outcome, `time.perf_counter() - start` behind it, and what `random.randrange`
would give. -/
structure Wait where
  what : Await
  elapsed : ℚ
  draw : Nat

/-- Where `_post_with_retry` waits, with `tried`: for an answer, or between two attempts. -/
inductive Phase
  | posting (tried : Nat)
  | sleeping (tried : Nat)

/-- What `_post_with_retry` returns, the time apart. -/
structure Result where
  success : Bool
  code : Nat
  tries : Nat

/-- The default of `attempts`. -/
def attempts : Nat := 5

/-- From one wait to the next, or to the result (82–100). Behind the last attempt it still sleeps,
and then gives up with the code 599. -/
def postWithRetry : Phase → Await → Option (Phase ⊕ Result)
  | .posting tried, .response code =>
      if code = 201 then some (.inr ⟨true, code, tried⟩)
      else if code ∈ [429, 500, 502, 503, 504] then some (.inl (.sleeping tried))
      else some (.inr ⟨false, code, tried⟩)
  | .posting tried, .exception => some (.inl (.sleeping tried))
  | .sleeping tried, .slept =>
      if tried < attempts then some (.inl (.posting (tried + 1)))
      else some (.inr ⟨false, 599, tried⟩)
  | _, _ => none

/-! ## `_worker` -/

/-- An item of the queue. -/
structure Item where
  threadIdx : Nat
  threadId : String
  userId : String
deriving DecidableEq

/-- The lists of one number that the workers share, and the two statistics. -/
structure Counters where
  ok : Nat
  fail : Nat
  codeCounts : OrderedDict String Nat
  latStats : LatencyStats
  attemptsSum : Nat
  attemptsMax : Nat
  attemptsMulti : Nat

def Counters.init : Counters := ⟨0, 0, .empty, .init 2048, 0, 1, 0⟩

/-- What `_worker` does with a result (123–135), in one piece. -/
def Counters.record (c : Counters) (r : Result) (elapsed : ℚ) (draw : Nat) : Counters where
  ok := if r.success then c.ok + 1 else c.ok
  fail := if r.success then c.fail else c.fail + 1
  codeCounts := c.codeCounts.count (toString r.code)
  latStats := c.latStats.add elapsed draw
  attemptsSum := c.attemptsSum + r.tries
  attemptsMax := if c.attemptsMax < r.tries then r.tries else c.attemptsMax
  attemptsMulti := if 1 < r.tries then c.attemptsMulti + 1 else c.attemptsMulti

/-- A worker on an item: its attempts, and the counters behind the last one. -/
def job : Job Item Phase Counters Wait where
  start _ := .posting 1
  next c phase w := match postWithRetry phase w.what with
    | none => none
    | some (.inl phase') => some (c, some phase')
    | some (.inr r) => some (c.record r w.elapsed w.draw, none)

abbrev State (W : Nat) := WorkPool.State (Fin W) Item Phase Counters Wait

/-! ## Attempts -/

def Await.isPost : Await → Bool
  | .response _ => true
  | .exception => true
  | .slept => false

/-- The attempts among the waits of an item. -/
def posts (waits : List Wait) : Nat := waits.countP fun w => w.what.isPost

theorem posts_snoc (waits : List Wait) (w : Wait) :
    posts (waits ++ [w]) = posts waits + if w.what.isPost then 1 else 0 := by
  unfold posts
  rw [List.countP_append, List.countP_singleton]

/-- `tried` counts the attempts, the one that is under way included. -/
def Tried (waits : List Wait) : Phase → Prop
  | .posting tried => tried = posts waits + 1 ∧ tried ≤ attempts
  | .sleeping tried => tried = posts waits ∧ 1 ≤ tried ∧ tried ≤ attempts

/-- A result tells the attempts, which are one to five, and succeeds with 201 only. -/
structure Truthful (waits : List Wait) (r : Result) : Prop where
  tries : r.tries = posts waits
  one : 1 ≤ r.tries
  five : r.tries ≤ attempts
  created : r.success = true ↔ r.code = 201

/-- Behind the waits so far there is another attempt or sleep, or a result. -/
def After (waits : List Wait) : Phase ⊕ Result → Prop
  | .inl phase => Tried waits phase
  | .inr r => Truthful waits r

/-- Behind a wait the count is still right, or the result is; by the cases of the source. -/
theorem postWithRetry_spec {phase : Phase} {waits : List Wait} {w : Wait} {next : Phase ⊕ Result}
    (ht : Tried waits phase) (h : postWithRetry phase w.what = some next) :
    After (waits ++ [w]) next := by
  have hposts := posts_snoc waits w
  cases phase with
  | posting tried =>
    obtain ⟨htried, hle⟩ := ht
    cases hw : w.what with
    | response code =>
      rw [hw] at h hposts
      have hone : posts (waits ++ [w]) = tried := by
        rw [hposts, htried]
        rfl
      simp only [postWithRetry] at h
      split at h
      · rename_i hcode
        cases h
        exact ⟨hone.symm, by simp only; omega, hle, iff_of_true rfl hcode⟩
      · rename_i hcode
        split at h
        · cases h
          exact ⟨hone.symm, by omega, hle⟩
        · cases h
          exact ⟨hone.symm, by simp only; omega, hle, iff_of_false (by simp) hcode⟩
    | exception =>
      rw [hw] at h hposts
      have hone : posts (waits ++ [w]) = tried := by
        rw [hposts, htried]
        rfl
      cases h
      exact ⟨hone.symm, by omega, hle⟩
    | slept =>
      rw [hw] at h
      cases h
  | sleeping tried =>
    obtain ⟨htried, hpos, hle⟩ := ht
    cases hw : w.what with
    | response code =>
      rw [hw] at h
      cases h
    | exception =>
      rw [hw] at h
      cases h
    | slept =>
      rw [hw] at h hposts
      have hsame : posts (waits ++ [w]) = tried := by
        rw [hposts, htried]
        rfl
      simp only [postWithRetry] at h
      split at h
      · rename_i hlt
        cases h
        exact ⟨by rw [hsame], hlt⟩
      · cases h
        exact ⟨hsame.symm, hpos, hle, iff_of_false (by simp) (by simp)⟩

/-! ## Counters -/

/-- The counters count the items that are done, each with the waits that it took. -/
structure Accounted (c : Counters) (done : List (Item × List Wait)) : Prop where
  total : c.ok + c.fail = done.length
  codes : c.codeCounts.total = done.length
  created : (c.codeCounts.get? "201").getD 0 = c.ok
  latencies : c.latStats.n = done.length
  sum : c.attemptsSum = (done.map fun x => posts x.2).sum
  multi : c.attemptsMulti = done.countP fun x => 1 < posts x.2
  each : ∀ x ∈ done, 1 ≤ posts x.2 ∧ posts x.2 ≤ attempts

theorem toString_eq_201 {code : Nat} : "201" = toString code ↔ code = 201 := by
  constructor
  · intro h
    have hdigits : Nat.toDigits 10 201 = Nat.toDigits 10 code := by
      have hlist := congrArg String.toList (show Nat.repr 201 = Nat.repr code from h)
      rwa [Nat.toList_repr, Nat.toList_repr] at hlist
    have hvalue := congrArg (fun l => Nat.ofDigitChars 10 l 0) hdigits
    simp only [Nat.ofDigitChars_ten_toDigits] at hvalue
    exact hvalue.symm
  · rintro rfl
    rfl

theorem Accounted.record {c : Counters} {done : List (Item × List Wait)} (h : Accounted c done)
    {waits : List Wait} {r : Result} (hr : Truthful waits r) (item : Item) (elapsed : ℚ)
    (draw : Nat) : Accounted (c.record r elapsed draw) (done ++ [(item, waits)]) := by
  have hlen : (done ++ [(item, waits)]).length = done.length + 1 := by simp
  refine ⟨?_, ?_, ?_, ?_, ?_, ?_, ?_⟩
  · have htotal := h.total
    rw [hlen]
    simp only [Counters.record]
    split <;> omega
  · rw [hlen, ← h.codes]
    exact OrderedDict.total_count _ _
  · have hcreated := h.created
    simp only [Counters.record]
    rw [OrderedDict.get?_count, hcreated]
    cases hs : r.success with
    | true => simp [toString_eq_201.mpr (hr.created.mp hs)]
    | false =>
      have hcode : ¬ "201" = toString r.code := by
        intro hc
        have hsuccess := hr.created.mpr (toString_eq_201.mp hc)
        rw [hs] at hsuccess
        cases hsuccess
      rw [if_neg hcode]
      simp
  · rw [hlen, ← h.latencies]
    rfl
  · rw [List.map_append, List.sum_append, ← h.sum, List.map_singleton, List.sum_singleton,
      ← hr.tries]
    rfl
  · rw [List.countP_append, ← h.multi, List.countP_singleton]
    simp only [Counters.record, hr.tries, decide_eq_true_eq]
    split <;> simp
  · intro x hx
    rcases List.mem_append.mp hx with hx | hx
    · exact h.each x hx
    · rw [List.mem_singleton.mp hx]
      simp only
      rw [← hr.tries]
      exact ⟨hr.one, hr.five⟩

/-- The counters count the items that are done, and every worker knows its attempts. It holds
between any two waits, whoever goes on next. -/
structure Inv {W : Nat} (s : State W) : Prop where
  accounted : Accounted s.shared s.finished
  tried : ∀ w item waits phase, s.workers w = .busy item waits phase → Tried waits phase

theorem inv_init {W : Nat} (items : List Item) :
    Inv (WorkPool.State.init items Counters.init : State W) where
  accounted := ⟨rfl, rfl, rfl, rfl, rfl, rfl, by simp [WorkPool.State.init]⟩
  tried w item waits phase h := by cases h

theorem inv_step {W : Nat} {s s' : State W} {e : Event (Fin W) Wait} (h : Inv s)
    (hstep : WorkPool.step job s e = some s') : Inv s' := by
  -- a worker that is busy afterwards was so before, or is the one that went on
  have hupdate : ∀ (w : Fin W) (x : Worker Item Phase Wait),
      (∀ item waits phase, x = .busy item waits phase → Tried waits phase) →
      ∀ v item waits phase, Function.update s.workers w x v = .busy item waits phase →
        Tried waits phase := by
    intro w x hx v item waits phase hv
    by_cases hvw : v = w
    · subst hvw
      rw [Function.update_self] at hv
      exact hx item waits phase hv
    · rw [Function.update_of_ne hvw] at hv
      exact h.tried v item waits phase hv
  rcases step_cases hstep with ⟨w, queue, -, -, rfl⟩ | ⟨w, item, queue, -, -, rfl⟩ |
    ⟨w, item, waits, phase, o, shared, phase', hw, hnext, rfl⟩ |
    ⟨w, item, waits, phase, o, shared, hw, hnext, rfl⟩
  · exact ⟨h.accounted, hupdate w _ fun _ _ _ hx => by cases hx⟩
  · refine ⟨h.accounted, hupdate w _ fun _ _ _ hx => ?_⟩
    cases hx
    exact ⟨rfl, by decide⟩
  · have ht := h.tried w item waits phase hw
    simp only [job] at hnext
    split at hnext
    · cases hnext
    · rename_i phase'' hretry
      cases hnext
      refine ⟨h.accounted, hupdate w _ fun _ _ _ hx => ?_⟩
      cases hx
      exact postWithRetry_spec ht hretry
    · cases hnext
  · have ht := h.tried w item waits phase hw
    simp only [job] at hnext
    split at hnext
    · cases hnext
    · cases hnext
    · rename_i r hretry
      cases hnext
      refine ⟨?_, hupdate w _ fun _ _ _ hx => by cases hx⟩
      exact h.accounted.record (postWithRetry_spec ht hretry) item o.elapsed o.draw

/-! ## When `run` finishes -/

/-- What `run` reports of `items`; `done` are the items as they were done, with their waits. Each
item was done once, and the sums are over all of them. -/
structure Report (items : List Item) (done : List (Item × List Wait)) (c : Counters) : Prop where
  once : (done.map Prod.fst).Perm items
  total : c.ok + c.fail = items.length
  codes : c.codeCounts.total = c.ok + c.fail
  latencies : c.latStats.n = c.ok + c.fail
  created : (c.codeCounts.get? "201").getD 0 = c.ok
  multi : c.attemptsMulti = done.countP fun x => 1 < posts x.2
  least : c.ok + c.fail ≤ c.attemptsSum
  most : c.attemptsSum ≤ 5 * (c.ok + c.fail)

theorem sum_posts_bounds {done : List (Item × List Wait)}
    (h : ∀ x ∈ done, 1 ≤ posts x.2 ∧ posts x.2 ≤ attempts) :
    done.length ≤ (done.map fun x => posts x.2).sum ∧
      (done.map fun x => posts x.2).sum ≤ 5 * done.length := by
  induction done with
  | nil => simp
  | cons x done ih =>
    obtain ⟨hone, hfive⟩ := h x List.mem_cons_self
    obtain ⟨hlow, hhigh⟩ := ih fun y hy => h y (List.mem_cons_of_mem x hy)
    simp only [List.map_cons, List.sum_cons, List.length_cons]
    unfold attempts at hfive
    omega

/-- **The report is right in every run that finishes**, whatever the schedule and the answers: for
any number of workers, when nothing is unfinished any more. -/
theorem report_of_run {W : Nat} {items : List Item} {s : State W}
    {tr : List (Transition (State W) (Event (Fin W) Wait))}
    (h : Run (WorkPool.step job) (WorkPool.State.init items Counters.init) tr s)
    (hjoin : s.unfinished = 0) : Report items s.finished s.shared := by
  have hinv : Inv s := h.inv (inv_init items) fun _ _ _ hi hstep => inv_step hi hstep
  obtain ⟨honce, -⟩ := (conserved_of_run h).joined hjoin
  have hlen : s.finished.length = items.length := by
    rw [← honce.length_eq, List.length_map]
  obtain ⟨hlow, hhigh⟩ := sum_posts_bounds hinv.accounted.each
  have htotal := hinv.accounted.total
  have hsum := hinv.accounted.sum
  exact ⟨honce, htotal.trans hlen, hinv.accounted.codes.trans htotal.symm,
    hinv.accounted.latencies.trans htotal.symm, hinv.accounted.created, hinv.accounted.multi,
    by omega, by omega⟩

/-- **Until it finishes, some worker can go on**, so that no schedule gets stuck before the
report. -/
theorem progress_of_run {W : Nat} [Nonempty (Fin W)] {items : List Item} {s : State W}
    {tr : List (Transition (State W) (Event (Fin W) Wait))}
    (h : Run (WorkPool.step job) (WorkPool.State.init items Counters.init) tr s)
    (hjoin : s.unfinished ≠ 0) : ∃ e s', WorkPool.step job s e = some s' := by
  refine (conserved_of_run h).progress hjoin fun c phase => ?_
  cases phase with
  | posting tried => exact ⟨⟨.exception, 0, 0⟩, _, rfl⟩
  | sleeping tried =>
    refine ⟨⟨.slept, 0, 0⟩, ?_⟩
    simp only [job, postWithRetry]
    split
    · rename_i hx
      split at hx <;> cases hx
    · exact ⟨_, rfl⟩
    · exact ⟨_, rfl⟩

end MessagesApp.Tools.Seed

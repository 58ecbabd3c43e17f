import MessagesApp.Lib.Run
import MessagesApp.Py.Text

/-!
# `core/views.py`: the session and its views

What the web interface knows between two requests is in Django's session, one for all the tabs of
a browser. A request reads it whole when it first asks for a key, and writes it back whole behind
the view, if the view set a key and did not end in a 500. Requests of several tabs may run at
once, and what one of them writes back is its own copy, however old. So the state has the session
and the copies of the requests that are not answered yet, and an interleaving is a list of loads
and answers.

The composer of `mensajes.html` posts a text and files, and no thread: the view takes the thread
from the session it reads. Here are the views as far as that thread goes: `main` (91–162), `hilos`
(195–237), which keep dicts and what was chosen in the session, and `mensajes` (335–443), which
looks the thread up and posts to it. `mod_chat` and `mod_hilos` write nothing to the session.

A dict is a function here, and an upstream service always answers; where the order of a dict, the
other answers and the pages matter, the views are those of `Interfaz.Pages`, and `PlainPages`
connects the two. What one request does is said once, in `Viewed`, with no user and no `KeyError`
in it, so that the invariants of a session are a case analysis over it (`copies_step`).
-/

set_option autoImplicit false

namespace MessagesApp.Interfaz

open Py Lib

/-- A dict of the session, from names to ids. -/
abbrev Dict := String → Option String

/-- `{name: id for …}`, of pairs of a name and an id; the last of a name stays, hence the
reversal. -/
def dictOf (l : List (String × String)) : Dict := fun name => l.reverse.lookup name

/-- `s.strip()`, which an id goes through before it is asked for. -/
def stripped (s : String) : String :=
  String.ofList ((s.toList.dropWhile isSpace).reverse.dropWhile isSpace).reverse

/-- The keys these views use. A name that is absent and one that is `None` are one here: looking
either up raises. -/
structure Session where
  userId : Option String
  user : Option String
  canalesAll : Option Dict
  canalesMios : Option Dict
  chatActual : Option String
  hilosAll : Option Dict
  hiloActual : Option String

/-- What the upstream services answer to a request; each request uses what it asks for. -/
structure Upstream where
  /-- `GetChats` and `GetChatsMiosFiltrados`: names and ids. -/
  chats : List (String × String)
  mios : List (String × String)
  /-- `GetHilosAPI`: ids and titles. -/
  hilos : List (String × String)
  /-- The id in the answer of `enviar_mensaje`. -/
  mensajeId : String

/-- What a tab can send. A post of a composer has the page it is from, which the view never sees. -/
inductive Request
  /-- `main`, asked for its data -/
  | main
  | mainPost (newChat chat : Option String)
  | hilos
  | hilosPost (action hilo : Option String)
  | mensajes
  /-- the composer of the page that the request `page` rendered -/
  | mensajesPost (page : Nat) (mensaje : Option String) (archivos : List String)
deriving DecidableEq

/-- A call of `mensajes` to an upstream service. -/
inductive Call
  | enviarMensaje (threadId userId contenido : String)
  | subirArchivo (messageId threadId archivo : String)
deriving DecidableEq

def Call.threadId : Call → String
  | .enviarMensaje threadId .. => threadId
  | .subirArchivo _ threadId _ => threadId

/-- What comes of a view: the session to write back, if it set a key; its calls; and the thread
of the page of messages it rendered. -/
structure Outcome where
  save : Option Session
  calls : List Call
  page : Option String

/-- A redirection, or a page that is not of messages. -/
def Outcome.nothing : Outcome := ⟨none, [], none⟩

def Outcome.saved (c : Session) : Outcome := ⟨some c, [], none⟩

/-- `str(session["hilos_all"][session["hilo_actual"]]).strip()` (341); `none` is the `KeyError`. -/
def threadId (c : Session) : Option String := do
  let hilos ← c.hilosAll
  let hilo ← c.hiloActual
  let id ← hilos hilo
  some (stripped id)

/-- `hilos` up to its two methods (200–215), which is the same for a GET and for every action;
`none` is a `KeyError`. -/
def listHilos (c : Session) (u : Upstream) : Option Session := do
  let canales ← c.canalesAll
  let chat ← c.chatActual
  let _ ← canales chat
  let _ ← c.canalesMios
  let _ ← c.user
  some { c with hilosAll := some (dictOf (u.hilos.map Prod.swap)) }

/-- The calls of a post of the composer (343–369): the text, and then each file under the id of the
message, if the service gave one. -/
def composerCalls (threadId userId : String) (mensaje : Option String) (archivos : List String)
    (mensajeId : String) : List Call :=
  match mensaje with
  | none => []
  | some texto =>
      if texto = "" then []
      else .enviarMensaje threadId userId texto ::
        if mensajeId = "" then [] else archivos.map (.subirArchivo mensajeId threadId ·)

/-- The actions on the channel's participants, which choose no thread. -/
def onParticipants (action : Option String) : Bool :=
  action == some "add_user" || action == some "remove_user"

/-- A view, on the session it read; `none` is a 500, and no session is saved behind it. A user id
that is absent or empty is redirected to the login before anything is read. -/
def view (r : Request) (c : Session) (u : Upstream) : Option Outcome :=
  match c.userId with
  | none => some .nothing
  | some userId =>
      if userId = "" then some .nothing
      else match r with
        | .main => some (.saved { c with
            canalesAll := some (dictOf u.chats), canalesMios := some (dictOf u.mios) })
        | .mainPost newChat chat =>
            if newChat = some "1" then some .nothing
            else some (.saved { c with chatActual := chat })
        | .hilos => (listHilos c u).map .saved
        | .hilosPost action hilo =>
            (listHilos c u).map fun c =>
              if onParticipants action then .saved c else .saved { c with hiloActual := hilo }
        | .mensajes => (threadId c).map fun id => ⟨none, [], some id⟩
        | .mensajesPost _ mensaje archivos =>
            (threadId c).map fun id =>
              ⟨none, composerCalls id userId mensaje archivos u.mensajeId, none⟩

/-- Everything a view can do, by what it keeps and calls. What it needed in the session to do so is
left out, so this is more than `view` does; `viewed` says that it is no less. -/
inductive Viewed (c : Session) (u : Upstream) : Request → Outcome → Prop
  /-- a redirection, or a 500 -/
  | nothing {r : Request} : Viewed c u r .nothing
  | main : Viewed c u .main (.saved { c with
      canalesAll := some (dictOf u.chats), canalesMios := some (dictOf u.mios) })
  | chat {newChat chat : Option String} :
      Viewed c u (.mainPost newChat chat) (.saved { c with chatActual := chat })
  | listed : Viewed c u .hilos (.saved { c with
      hilosAll := some (dictOf (u.hilos.map Prod.swap)) })
  | participants {action hilo : Option String} : onParticipants action = true →
      Viewed c u (.hilosPost action hilo) (.saved { c with
        hilosAll := some (dictOf (u.hilos.map Prod.swap)) })
  | chosen {action hilo : Option String} : onParticipants action = false →
      Viewed c u (.hilosPost action hilo) (.saved { c with
        hilosAll := some (dictOf (u.hilos.map Prod.swap)), hiloActual := hilo })
  | page {id : String} : threadId c = some id → Viewed c u .mensajes ⟨none, [], some id⟩
  | posted {page : Nat} {mensaje : Option String} {archivos : List String} {id userId : String} :
      threadId c = some id →
      Viewed c u (.mensajesPost page mensaje archivos)
        ⟨none, composerCalls id userId mensaje archivos u.mensajeId, none⟩

theorem listHilos_eq_some {c c' : Session} {u : Upstream} (h : listHilos c u = some c') :
    c' = { c with hilosAll := some (dictOf (u.hilos.map Prod.swap)) } := by
  simp only [listHilos, Option.bind_eq_bind, Option.bind_eq_some_iff, Option.some.injEq] at h
  obtain ⟨_, -, _, -, _, -, _, -, _, -, rfl⟩ := h
  rfl

theorem viewed (r : Request) (c : Session) (u : Upstream) :
    Viewed c u r ((view r c u).getD .nothing) := by
  cases hv : view r c u with
  | none => exact .nothing
  | some o =>
    rw [Option.getD_some]
    unfold view at hv
    split at hv
    · cases hv
      exact .nothing
    · rename_i userId _
      split at hv
      · cases hv
        exact .nothing
      · cases r with
        | main =>
          cases hv
          exact .main
        | mainPost newChat chat =>
          dsimp only at hv
          split at hv
          · cases hv
            exact .nothing
          · cases hv
            exact .chat
        | hilos =>
          obtain ⟨c', hc', rfl⟩ := Option.map_eq_some_iff.mp hv
          rw [listHilos_eq_some hc']
          exact .listed
        | hilosPost action hilo =>
          obtain ⟨c', hc', rfl⟩ := Option.map_eq_some_iff.mp hv
          rw [listHilos_eq_some hc']
          split
          · rename_i hon
            exact .participants hon
          · rename_i hon
            exact .chosen (Bool.not_eq_true _ ▸ hon)
        | mensajes =>
          obtain ⟨id, hid, rfl⟩ := Option.map_eq_some_iff.mp hv
          exact .page hid
        | mensajesPost page mensaje archivos =>
          obtain ⟨id, hid, rfl⟩ := Option.map_eq_some_iff.mp hv
          exact .posted hid

/-- A composer's post with a thread in the session: its calls, and nothing else. -/
theorem view_mensajesPost {c : Session} {u : Upstream} {userId id : String} {page : Nat}
    {mensaje : Option String} {archivos : List String} (hu : c.userId = some userId)
    (hne : userId ≠ "") (hid : threadId c = some id) :
    view (.mensajesPost page mensaje archivos) c u =
      some ⟨none, composerCalls id userId mensaje archivos u.mensajeId, none⟩ := by
  unfold view
  rw [hu]
  simp only [if_neg hne, hid, Option.map_some]

/-- A page of messages is of the thread of the session, and for a user. -/
theorem view_mensajes {c : Session} {u : Upstream} {id : String}
    (h : ((view .mensajes c u).getD .nothing).page = some id) :
    threadId c = some id ∧ ∃ userId, c.userId = some userId ∧ userId ≠ "" := by
  unfold view at h
  split at h
  · cases h
  · rename_i userId hu
    split at h
    · cases h
    · rename_i hne
      cases ht : threadId c with
      | none =>
        rw [ht] at h
        cases h
      | some id' =>
        rw [ht] at h
        exact ⟨h, userId, hu, hne⟩

/-! ## Any number of tabs -/

/-- How far a request is. -/
inductive Phase
  /-- with the session it read -/
  | loaded (c : Session)
  /-- with the thread of the page, if it was one of messages -/
  | answered (page : Option String)

structure State where
  session : Session
  reqs : Nat → Option (Request × Phase)
  /-- The upstream calls, each with its request. -/
  calls : List (Nat × Call)

inductive Event
  /-- A request reads the session. -/
  | load (i : Nat) (r : Request)
  /-- Its upstream services have answered, and it writes the session back. -/
  | answer (i : Nat) (u : Upstream)

def State.init (c : Session) : State := ⟨c, fun _ => none, []⟩

/-- The thread of the page of messages that the request `page` rendered. -/
def renderedFor (s : State) (page : Nat) : Option String :=
  match s.reqs page with
  | some (.mensajes, .answered id) => id
  | _ => none

/-- A composer is posted from a page that was rendered. -/
def posted (s : State) : Request → Bool
  | .mensajesPost page .. => (renderedFor s page).isSome
  | _ => true

/-- One step. The session is read at `load` and replaced at `answer`, by a copy that may be older
than what other requests have written in between. -/
def next (s : State) : Event → Option State
  | .load i r =>
      if (s.reqs i).isNone && posted s r then
        some { s with reqs := Function.update s.reqs i (some (r, .loaded s.session)) }
      else none
  | .answer i u =>
      match s.reqs i with
      | some (r, .loaded c) =>
          let o := (view r c u).getD .nothing
          some ⟨o.save.getD s.session, Function.update s.reqs i (some (r, .answered o.page)),
            s.calls ++ o.calls.map (i, ·)⟩
      | _ => none

abbrev Step := Transition State Event

variable {s s' : State} {e : Event}

theorem next_cases (h : next s e = some s') :
    (∃ i r, e = .load i r ∧ s.reqs i = none ∧
      s' = { s with reqs := Function.update s.reqs i (some (r, .loaded s.session)) }) ∨
    ∃ i u r c o, e = .answer i u ∧ s.reqs i = some (r, .loaded c) ∧
      (view r c u).getD .nothing = o ∧
      s' = ⟨o.save.getD s.session, Function.update s.reqs i (some (r, .answered o.page)),
        s.calls ++ o.calls.map (i, ·)⟩ := by
  cases e with
  | load i r =>
    simp only [next] at h
    split at h
    · rename_i hi
      simp only [Bool.and_eq_true, Option.isNone_iff_eq_none] at hi
      exact Or.inl ⟨i, r, rfl, hi.1, (Option.some.inj h).symm⟩
    · cases h
  | answer i u =>
    simp only [next] at h
    split at h
    · rename_i r c hr
      exact Or.inr ⟨i, u, r, c, _, rfl, hr, rfl, (Option.some.inj h).symm⟩
    · cases h

/-- A request that has read the session keeps its copy until it is answered. -/
theorem loaded_of_run {i : Nat} {r : Request} {c : Session} {tr : List Step}
    (h : Run next s tr s') (hi : s.reqs i = some (r, .loaded c)) :
    s'.reqs i = some (r, .loaded c) ∨
      ∃ u, s'.reqs i = some (r, .answered ((view r c u).getD .nothing).page) := by
  refine h.inv (I := fun s => s.reqs i = some (r, .loaded c) ∨
    ∃ u, s.reqs i = some (r, .answered ((view r c u).getD .nothing).page)) (Or.inl hi) ?_
  intro m e m' hm he
  rcases next_cases he with ⟨j, r', -, hj, rfl⟩ | ⟨j, u, r', c', o, -, hj, rfl, rfl⟩
  · have hne : i ≠ j := by
      intro hij
      subst hij
      rcases hm with hm | ⟨u, hm⟩
      · rw [hj] at hm
        cases hm
      · rw [hj] at hm
        cases hm
    simp only [Function.update_of_ne hne]
    exact hm
  · by_cases hij : i = j
    · subst hij
      rcases hm with hm | ⟨u', hm⟩
      · rw [hj] at hm
        cases hm
        simp only [Function.update_self]
        exact Or.inr ⟨u, rfl⟩
      · rw [hj] at hm
        cases hm
    · simp only [Function.update_of_ne hij]
      exact hm

/-- What holds of the session and of the copies of some requests, and of what these requests write
back, holds of both again. The form in which the invariants of a session are proved: `K` are the
requests whose copies matter, and only what one of those saves has to be looked at. -/
theorem copies_step {P Q : Session → Prop} {K : Nat → Prop} (hPQ : ∀ c, P c → Q c)
    (hsession : P s.session)
    (hcopies : ∀ i r c, K i → s.reqs i = some (r, .loaded c) → P c)
    (hsave : ∀ i u r c c', e = .answer i u → s.reqs i = some (r, .loaded c) →
      ((view r c u).getD .nothing).save = some c' → K i ∧ (P c → Q c'))
    (he : next s e = some s') :
    Q s'.session ∧ ∀ i r c, K i → s'.reqs i = some (r, .loaded c) → Q c := by
  rcases next_cases he with ⟨i, r, rfl, hi, rfl⟩ | ⟨i, u, r, c, o, rfl, hi, ho, rfl⟩
  · refine ⟨hPQ _ hsession, fun j r' c' hK hj => ?_⟩
    rcases update_cases hj with ⟨-, heq⟩ | ⟨-, hold⟩
    · cases heq
      exact hPQ _ hsession
    · exact hPQ _ (hcopies j r' c' hK hold)
  · refine ⟨?_, fun j r' c' hK hj => ?_⟩
    · cases hso : o.save with
      | none => exact hPQ _ hsession
      | some c' =>
        obtain ⟨hK, hQ⟩ := hsave i u r c c' rfl hi (ho ▸ hso)
        exact hQ (hcopies i r c hK hi)
    · rcases update_cases hj with ⟨-, heq⟩ | ⟨-, hold⟩
      · cases heq
      · exact hPQ _ (hcopies j r' c' hK hold)

/-- The calls of a step are those of the view that was answered. -/
theorem calls_step (he : next s e = some s') {x : Nat × Call} (hx : x ∈ s'.calls) :
    x ∈ s.calls ∨ ∃ u r c, s.reqs x.1 = some (r, .loaded c) ∧
      x.2 ∈ ((view r c u).getD .nothing).calls := by
  rcases next_cases he with ⟨i, r, rfl, hi, rfl⟩ | ⟨i, u, r, c, o, rfl, hi, ho, rfl⟩
  · exact Or.inl hx
  · rcases List.mem_append.mp hx with hx | hx
    · exact Or.inl hx
    · obtain ⟨call, hcall, rfl⟩ := List.mem_map.mp hx
      exact Or.inr ⟨u, r, c, hi, ho ▸ hcall⟩

end MessagesApp.Interfaz

import MessagesApp.Interfaz.Names
import MessagesApp.Lib.Run

/-!
# One tab

A tab follows what the pages offer: the links of `navbar.html` and the forms of `main.html`,
`mod_chat.html`, `hilos.html`, `mod_hilo.html` and `mensajes.html`, in any order. What it follows
may be on the page that it shows, or on any page that it has shown before, with Back. It follows one
thing at a time, and the redirections behind it.

Beside it run the requests of the scripts. `main`'s asks for its data once for every time `main`
was shown (main.html 105-137), and `refreshMessages` for the page of `mensajes` again and again
(mensajes.html 53-69). Each of them reads the session and is answered when it is, though the tab may
be elsewhere by then. A refresh only reads; the other writes back the session it has read.

Of the links of the navbar, the one to the chatbots leads to a view that writes nothing and leaves
the pages for Back. `log_out` deletes the session: behind it every view sends the tab home, and a
request that still has a copy of the session is not saved, as Django updates a row that must be
there.

A form posts a name as the page shows it. The HTML parser and the encoding of forms rewrite bare
carriage returns and line feeds, so the names are taken to have none.
-/

set_option autoImplicit false

namespace MessagesApp.Pages

open Lib Interfaz

/-! ## What the pages offer -/

def Form.empty : Form := ⟨none, none, none, none, none, none, none, none, none, []⟩

/-- "Crear / Explorar". -/
def newChatForm : Form := { Form.empty with newChat := some "1" }

def chatForm (chat : String) : Form := { Form.empty with newChat := some "0", chat := some chat }

def createForm (newName newType : Option String) : Form :=
  { Form.empty with action := some "create", newName := newName, newType := newType }

/-- The forms of a channel in `mod_chat` (mod_chat.html), with what is typed into `form`. The name
of the channel is a hidden field of each. -/
def chatForms (chat : String) (form : Form) : List Form := [
  { Form.empty with chat := some chat, action := some "delete" },
  { Form.empty with
    chat := some chat, action := some "rename", newName := form.newName, newType := form.newType },
  { Form.empty with chat := some chat, action := some "add_user", userId := form.userId },
  { Form.empty with chat := some chat, action := some "remove_user", userId := form.userId }]

def hiloForm (hilo : String) : Form := { Form.empty with hilo := some hilo }

/-- "Modificar hilo" and the participants, for an owned channel. "Modificar hilo" posts no name of a
thread, so that it chooses `None`. -/
def mioForms (form : Form) : List Form := [
  { Form.empty with newThread := some "1" },
  { Form.empty with action := some "add_user", userId := form.userId },
  { Form.empty with action := some "remove_user", userId := form.userId }]

/-- The forms of a thread in `mod_hilos`. -/
def hiloForms (hilo : String) (form : Form) : List Form := [
  { Form.empty with hilo := some hilo, action := some "delete" },
  { Form.empty with hilo := some hilo, action := some "rename", newName := form.newName }]

def composerForm (form : Form) : Form :=
  { Form.empty with mensaje := form.mensaje, archivos := form.archivos }

/-- The links and forms of a page that lead to one of the five views; `names` are those that the
script of `main` has put into it. The refresh of `mensajes` and the other links are events of their
own. What is typed is any text, and a required field may be left out. -/
def offered (names : List String) : Page → Request → Bool
  | _, .get .main => true
  | .main _, .post .main form => form = newChatForm || names.any fun chat => form = chatForm chat
  | .modChat chats _, .post .modChat form =>
      form = createForm form.newName form.newType || chats.any fun chat => form ∈ chatForms chat form
  | .hilos _ _ hilos mio _, .post .hilos form =>
      (hilos.any fun hilo => form = hiloForm hilo) || mio && form ∈ mioForms form
  | .modHilos hilos _, .post .modHilos form =>
      form = createForm form.newName none || hilos.any fun hilo => form ∈ hiloForms hilo form
  | .mensajes .., .post .mensajes form => form = composerForm form
  | _, _ => false

/-! ## The tab and its session -/

/-- A request of `main`'s script; a 500 of the view has no answer. It is sent when its page is
shown, and reads the session at any time behind that. -/
inductive Script
  | sent
  | loaded (c : Session)
  | answered (r : Option Response)

/-- A refresh of `mensajes`. Its answer replaces a part of the page that has no links to these
views. -/
inductive Refresh
  | sent
  | loaded (c : Session)

/-- What the tab follows: one request at a time, and behind it its redirections. -/
structure Nav where
  request : Request
  /-- from a page that it had shown before -/
  back : Bool
  /-- the session, once the request has read it -/
  read : Option Session

/-- The tab, the session behind its cookie, and every request of its pages. `earlier` only grows, as
Back may lead to any of its pages, and then forward again. -/
structure State where
  /-- of nobody behind a `log_out` -/
  session : Session
  /-- no page after an error, or away from these pages -/
  page : Option Page
  /-- every page shown so far -/
  earlier : List Page
  nav : Option Nav
  scripts : Nat → Option Script
  /-- how often `main` was shown -/
  shown : Nat
  refreshes : Nat → Option Refresh

/-- What can happen next. The events of the scripts are independent of what is followed. -/
inductive Event
  /-- a link or form of the page -/
  | click (r : Request)
  /-- one of a page before it -/
  | back (r : Request)
  /-- the link to the chatbots -/
  | leave
  /-- the link to `log_out`, and its answer -/
  | logOut
  /-- What is followed reads the session. -/
  | load
  /-- It is answered. -/
  | answer (u : Replies)
  | scriptLoad (k : Nat)
  | scriptAnswer (k : Nat) (u : Replies)
  /-- `refreshMessages` fires, on a page of `mensajes` that is shown or comes back. -/
  | refresh (k : Nat)
  | refreshLoad (k : Nat)
  | refreshAnswer (k : Nat) (u : Replies)

/-- Behind a login, which ends in `redirect("main")`. The session may have any other keys: a login
leaves those of an earlier one. -/
def State.login (c : Session) : State where
  session := c
  page := none
  earlier := []
  nav := some ⟨.get .main, false, none⟩
  scripts _ := none
  shown := 0
  refreshes _ := none

/-- The names that `renderList` shows. -/
def namesIn : Response → List String
  | .json 200 d => if d.success then d.chats ++ d.mios else []
  | _ => []

/-- The names that a request of the script has put on its page. -/
def State.namesOf (s : State) (k : Nat) : List String :=
  match s.scripts k with
  | some (.answered (some r)) => namesIn r
  | _ => []

/-- The names on `main`, from the last request of its script; an answer that comes late is to a page
that is no longer shown. -/
def State.names (s : State) : List String :=
  match s.shown with
  | 0 => []
  | k + 1 => s.namesOf k

/-- The names on any `main` so far. -/
def State.allNames (s : State) : List String := (List.range s.shown).flatMap s.namesOf

/-- Behind `request.session.flush()`: no key is left. A `log_out` behind that raises for want of
`user_id`, which the views of the pages ask for with `get`. -/
def Session.flushed : Session := ⟨none, none, none, none, none, none, none⟩

/-- The session is written back, where there still is one: `save` updates a row of the database, and
raises if a `log_out` has deleted it. -/
def State.saved (s : State) (save : Option Session) : Session :=
  if s.session.userId = none then s.session else save.getD s.session

/-- The tab with an answer in it. A redirection is followed at once, and every time `main` is shown
its script sends a request. -/
def State.become (s : State) : Response → State
  | .redirect v => { s with nav := some ⟨.get v, false, none⟩ }
  | .page (.main user) => { s with
      page := some (.main user), earlier := .main user :: s.earlier, nav := none,
      scripts := Function.update s.scripts s.shown (some .sent), shown := s.shown + 1 }
  | .page p => { s with page := some p, earlier := p :: s.earlier, nav := none }
  | _ => { s with page := none, nav := none }

/-- What was followed has been answered; a session is not saved behind a 500. -/
def State.ended (s : State) : Except KeyError Outcome → State
  | .ok o => State.become { s with session := s.saved o.save } o.response
  | .error _ => { s with page := none, nav := none }

def State.scriptEnded (s : State) (k : Nat) : Except KeyError Outcome → State
  | .ok o => { s with
      session := s.saved o.save
      scripts := Function.update s.scripts k (some (.answered (some o.response))) }
  | .error _ => { s with scripts := Function.update s.scripts k (some (.answered none)) }

def Page.isMensajes : Page → Bool
  | .mensajes .. => true
  | _ => false

/-- One event. `none` where it cannot happen: what is followed is on a page, and a request is read
before it is answered. -/
def step (s : State) : Event → Option State
  | .click r => match s.page, s.nav with
      | some p, none =>
          if offered s.names p r then some { s with nav := some ⟨r, false, none⟩ } else none
      | _, _ => none
  | .back r => match s.nav with
      | none =>
          if s.earlier.any fun p => offered s.allNames p r then
            some { s with nav := some ⟨r, true, none⟩ }
          else none
      | some _ => none
  | .leave => match s.nav with
      | none => some { s with page := none }
      | some _ => none
  | .logOut => match s.nav with
      | none => some { s with session := .flushed, page := none }
      | some _ => none
  | .load => match s.nav with
      | some ⟨r, back, none⟩ => some { s with nav := some ⟨r, back, some s.session⟩ }
      | _ => none
  | .answer u => match s.nav with
      | some ⟨r, _, some c⟩ => some (s.ended (view r c u))
      | _ => none
  | .scriptLoad k => match s.scripts k with
      | some .sent => some { s with scripts := Function.update s.scripts k (some (.loaded s.session)) }
      | _ => none
  | .scriptAnswer k u => match s.scripts k with
      | some (.loaded c) => some (s.scriptEnded k (view (.ajax .main) c u))
      | _ => none
  | .refresh k =>
      if s.earlier.any Page.isMensajes = true ∧ s.refreshes k = none then
        some { s with refreshes := Function.update s.refreshes k (some .sent) }
      else none
  | .refreshLoad k => match s.refreshes k with
      | some .sent =>
          some { s with refreshes := Function.update s.refreshes k (some (.loaded s.session)) }
      | _ => none
  -- what it answers goes into the box of the page, and nothing else reads it
  | .refreshAnswer k _ => match s.refreshes k with
      | some (.loaded _) => some { s with refreshes := Function.update s.refreshes k none }
      | _ => none

abbrev Step := Transition State Event

/-- A view looks up what is not there: the view of what is followed, of `main`'s script, or of a
refresh. -/
def Raises (t : Step) : Prop :=
  match t.event with
  | .answer u => ∃ r back c e, t.pre.nav = some ⟨r, back, some c⟩ ∧ view r c u = .error e
  | .scriptAnswer k u => ∃ c e, t.pre.scripts k = some (.loaded c) ∧ view (.ajax .main) c u = .error e
  | .refreshAnswer k u => ∃ c e, t.pre.refreshes k = some (.loaded c) ∧
      view (.get .mensajes) c u = .error e
  | _ => False

variable {s s' : State} {e : Event}

/-- Everything a step can be. -/
inductive Did (s : State) : Event → State → Prop
  | click {r : Request} {p : Page} : s.page = some p → s.nav = none → offered s.names p r = true →
      Did s (.click r) { s with nav := some ⟨r, false, none⟩ }
  | back {r : Request} {p : Page} : s.nav = none → p ∈ s.earlier → offered s.allNames p r = true →
      Did s (.back r) { s with nav := some ⟨r, true, none⟩ }
  | leave : s.nav = none → Did s .leave { s with page := none }
  | logOut : s.nav = none → Did s .logOut { s with session := .flushed, page := none }
  | load {r : Request} {back : Bool} : s.nav = some ⟨r, back, none⟩ →
      Did s .load { s with nav := some ⟨r, back, some s.session⟩ }
  | answer {u : Replies} {r : Request} {back : Bool} {c : Session} :
      s.nav = some ⟨r, back, some c⟩ → Did s (.answer u) (s.ended (view r c u))
  | scriptLoad {k : Nat} : s.scripts k = some .sent → Did s (.scriptLoad k)
      { s with scripts := Function.update s.scripts k (some (.loaded s.session)) }
  | scriptAnswer {k : Nat} {u : Replies} {c : Session} : s.scripts k = some (.loaded c) →
      Did s (.scriptAnswer k u) (s.scriptEnded k (view (.ajax .main) c u))
  | refresh {k : Nat} : s.refreshes k = none → Did s (.refresh k)
      { s with refreshes := Function.update s.refreshes k (some .sent) }
  | refreshLoad {k : Nat} : s.refreshes k = some .sent → Did s (.refreshLoad k)
      { s with refreshes := Function.update s.refreshes k (some (.loaded s.session)) }
  | refreshAnswer {k : Nat} {u : Replies} {c : Session} : s.refreshes k = some (.loaded c) →
      Did s (.refreshAnswer k u) { s with refreshes := Function.update s.refreshes k none }

theorem did_of_step (h : step s e = some s') : Did s e s' := by
  cases e with
  | click r =>
    simp only [step] at h
    split at h
    · rename_i p hpage hnav
      split at h
      · rename_i hoff
        cases h
        exact .click hpage hnav hoff
      · cases h
    · cases h
  | back r =>
    simp only [step] at h
    split at h
    · rename_i hnav
      split at h
      · rename_i hoff
        obtain ⟨p, hp, hoff⟩ := List.any_eq_true.mp hoff
        cases h
        exact .back hnav hp hoff
      · cases h
    · cases h
  | leave =>
    simp only [step] at h
    split at h
    · rename_i hnav
      cases h
      exact .leave hnav
    · cases h
  | logOut =>
    simp only [step] at h
    split at h
    · rename_i hnav
      cases h
      exact .logOut hnav
    · cases h
  | load =>
    simp only [step] at h
    split at h
    · rename_i r back hnav
      cases h
      exact .load hnav
    · cases h
  | answer u =>
    simp only [step] at h
    split at h
    · rename_i r back c hnav
      cases h
      exact .answer hnav
    · cases h
  | scriptLoad k =>
    simp only [step] at h
    split at h
    · rename_i hk
      cases h
      exact .scriptLoad hk
    · cases h
  | scriptAnswer k u =>
    simp only [step] at h
    split at h
    · rename_i c hk
      cases h
      exact .scriptAnswer hk
    · cases h
  | refresh k =>
    simp only [step] at h
    split at h
    · rename_i hk
      cases h
      exact .refresh hk.2
    · cases h
  | refreshLoad k =>
    simp only [step] at h
    split at h
    · rename_i hk
      cases h
      exact .refreshLoad hk
    · cases h
  | refreshAnswer k u =>
    simp only [step] at h
    split at h
    · rename_i c hk
      cases h
      exact .refreshAnswer hk
    · cases h

end MessagesApp.Pages

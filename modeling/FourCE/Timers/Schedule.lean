import FourCE.Library.Interleave
import FourCE.Python.Str

/-!
# Timers

`utils/timers.py` and the scheduler's loop over due timers: a worker claims what is due in one
transaction and makes a task for each claim; a task appends the timer's prompt to its parent chat in
another, or gives the claim back when the chat is busy.  Each command is one database transaction or
one thing a worker process does without waiting.  The locks are taken at once here: whatever they
exclude, the runs below have too.  What `uuid4` draws is a parameter; which of the due rows a claim
gets (others may be selected by an open claim) and whether the completion of an appended prompt
fails is part of the schedule.
-/

namespace FourCE.Timers

open FourCE.Library FourCE.Python

inductive Status
  | pending
  | running
  | completed
  | error
  | cancelled
  deriving DecidableEq

/-- The content of the timer's own message: a text, or parts with their types. -/
inductive Content
  | text (s : PyStr)
  | parts (ps : List (PyStr × PyStr))

/-- The row of a timer chat: its columns, and what its `meta` holds. -/
structure Timer where
  user_id : PyStr
  timer_at : Option ℕ
  status : Status
  timer_claim_id : Option PyStr
  due_at : ℕ
  parent_chat_id : PyStr
  parent_message_id : Option PyStr
  prompt_message : Option Content
  model_id : Option PyStr
  cancel_on : List PyStr
  timer_error : Option PyStr

structure Message where
  id : PyStr
  parentId : Option PyStr
  childrenIds : List PyStr
  role : PyStr
  content : PyStr
  done : Option Bool
  timestamp : ℕ
  timer_id : Option PyStr

structure Chat where
  user_id : PyStr
  messages : List Message
  currentId : Option PyStr

/-- The database, who is there and busy, and what the worker processes hold: claims that were returned
to the scheduler's loop, and tasks that were made of them. -/
structure Store where
  timers : PyStr → Option Timer
  chats : PyStr → Option Chat
  users : PyStr → Bool
  busy : PyStr → Bool
  drawn : ℕ
  claimed : List (ℕ × PyStr × PyStr)
  tasks : List (ℕ × PyStr × PyStr)

/-- What the transaction that appends or gives back has to do with. -/
structure Delivery where
  timer_id : PyStr
  parent_chat_id : PyStr
  user_id : PyStr
  parent_message_id : Option PyStr
  user_message_id : PyStr
  assistant_message_id : PyStr
  prompt : PyStr
  now : ℕ

inductive Delivered
  | noParent
  | requeued
  | appended
  deriving DecidableEq

inductive Command
  | claim (worker now limit : ℕ) (rows : List PyStr)
  | createTask (worker : ℕ)
  | takeTask (worker : ℕ)
  | cancel (parent_chat_id event user_id : PyStr)
  | insert (timer_id : PyStr) (timer : Timer)
  | getTimer (timer_id : PyStr)
  | getParent (chat_id user_id : PyStr)
  | getUser (user_id : PyStr)
  | uuid4
  | setState (timer_id : PyStr) (status : Status) (timer_error : PyStr)
  | deliver (d : Delivery)
  | acquire (lock : PyStr)
  | release (lock : PyStr)
  /-- Writes to the message table and events to the browser. -/
  | announce (message_id : PyStr)
  /-- What others do to the parent chats and users meanwhile. -/
  | outside (chats : PyStr → Option Chat) (users busy : PyStr → Bool)

def Reply : Command → Type
  | .claim _ _ _ _ => List (PyStr × PyStr)
  | .takeTask _ => PyStr × PyStr
  | .getTimer _ => Option Timer
  | .getParent _ _ => Bool
  | .getUser _ => Bool
  | .uuid4 => PyStr
  | .deliver _ => Delivered
  | _ => Unit

section

variable (uuid : ℕ → PyStr)

/-- Due: its time has come and it is pending. -/
def due (now : ℕ) (timer : Timer) : Bool := timer.timer_at.any (· ≤ now) && timer.status = .pending

/-- The query may return these rows: due ones in the order of their times, no more than the limit. -/
def Returns (s : Store) (now limit : ℕ) (rows : List PyStr) : Prop :=
  rows.Nodup ∧ rows.length ≤ limit ∧ (∀ id ∈ rows, (s.timers id).any (due now) = true) ∧
    rows.Pairwise fun id id' ↦
      ((s.timers id).bind Timer.timer_at).getD 0 ≤ ((s.timers id').bind Timer.timer_at).getD 0

instance (s : Store) (now limit : ℕ) (rows : List PyStr) : Decidable (Returns s now limit rows) :=
  inferInstanceAs (Decidable (_ ∧ _ ∧ _ ∧ _))

/-- The claims of a transaction: each row with an id of its own. -/
def claims (drawn : ℕ) (rows : List PyStr) : List (PyStr × PyStr) :=
  rows.zipIdx.map fun p ↦ (p.1, uuid (drawn + p.2))

def claimTimer (claimed : List (PyStr × PyStr)) (id : PyStr) (timer : Timer) : Timer :=
  match claimed.find? (·.1 = id) with
  | some c => { timer with status := .running, timer_claim_id := some c.2, timer_at := none }
  | none => timer

def cancelTimer (parent_chat_id event user_id : PyStr) (timer : Timer) : Timer :=
  if timer.timer_at.isSome ∧ timer.user_id = user_id ∧ timer.parent_chat_id = parent_chat_id ∧
      timer.status = .pending ∧ event ∈ timer.cancel_on then
    { timer with status := .cancelled, timer_at := none }
  else timer

/-- The first of the finished answers with the latest time. -/
def latest : List Message → Option Message
  | [] => none
  | m :: ms => match latest ms with
    | some m' => if m.timestamp < m'.timestamp then some m' else some m
    | none => some m

/-- The message the prompt is put under. -/
def parentId (messages : List Message) (fallback : Option PyStr) : Option PyStr :=
  match latest (messages.filter fun m ↦ m.role = py "assistant" ∧ m.done ≠ some false) with
  | some m => some m.id
  | none => fallback

/-- The prompt and an empty answer under the last finished answer. -/
def appendPrompt (d : Delivery) (chat : Chat) : Chat :=
  let parent := parentId chat.messages d.parent_message_id
  { chat with
    messages := (chat.messages.map fun m ↦
        if some m.id = parent ∧ m.id ≠ [] ∧ d.user_message_id ∉ m.childrenIds then
          { m with childrenIds := m.childrenIds ++ [d.user_message_id] }
        else m) ++
      [⟨d.user_message_id, parent, [d.assistant_message_id], py "user", d.prompt, none, d.now,
        some d.timer_id⟩,
       ⟨d.assistant_message_id, some d.user_message_id, [], py "assistant", [], some false, d.now, none⟩]
    currentId := some d.assistant_message_id }

/-- The chat a user asks for. -/
def ownChat (s : Store) (chat_id user_id : PyStr) : Option Chat :=
  (s.chats chat_id).filter fun chat ↦ chat.user_id = user_id

/-- The row after `_set_timer_state`. -/
def stateTimer (status : Status) (timer_error : PyStr) (timer : Timer) : Timer :=
  { timer with status := status, timer_error := some timer_error }

/-- The row given back: pending again, due when it was due. -/
def requeueTimer (timer : Timer) : Timer :=
  { timer with status := .pending, timer_claim_id := none, timer_at := some timer.due_at }

def changeTimer (s : Store) (id : PyStr) (f : Timer → Timer) : PyStr → Option Timer :=
  Function.update s.timers id ((s.timers id).map f)

/-- The effect of a command; a query that cannot return these rows, a task where none is waiting and a
row under an id that is taken do not happen. -/
def exec : (c : Command) → Store → Option (Reply c × Store)
  | .claim worker now limit rows, s =>
    if Returns s now limit rows then
      some (claims uuid s.drawn rows, { s with
        timers := fun id ↦ (s.timers id).map (claimTimer (claims uuid s.drawn rows) id)
        drawn := s.drawn + rows.length
        claimed := s.claimed ++ (claims uuid s.drawn rows).map fun c ↦ (worker, c) })
    else none
  | .createTask worker, s =>
    match s.claimed.find? (·.1 = worker) with
    | some c => some ((), { s with
        claimed := s.claimed.eraseP (·.1 = worker)
        tasks := s.tasks ++ [c] })
    | none => none
  | .takeTask worker, s =>
    match s.tasks.find? (·.1 = worker) with
    | some c => some (c.2, { s with tasks := s.tasks.eraseP (·.1 = worker) })
    | none => none
  | .cancel parent_chat_id event user_id, s =>
    some ((), { s with
      timers := fun id ↦ (s.timers id).map (cancelTimer parent_chat_id event user_id) })
  | .insert timer_id timer, s =>
    match s.timers timer_id with
    | some _ => none
    | none => some ((), { s with timers := Function.update s.timers timer_id (some timer) })
  | .getTimer timer_id, s => some (s.timers timer_id, s)
  | .getParent chat_id user_id, s => some ((ownChat s chat_id user_id).isSome, s)
  | .getUser user_id, s => some (s.users user_id, s)
  | .uuid4, s => some (uuid s.drawn, { s with drawn := s.drawn + 1 })
  | .setState timer_id status timer_error, s =>
    some ((), { s with timers := changeTimer s timer_id (stateTimer status timer_error) })
  | .deliver d, s =>
    match ownChat s d.parent_chat_id d.user_id with
    | none => some (.noParent, s)
    | some chat =>
      if s.busy d.parent_chat_id then
        some (.requeued, { s with timers := changeTimer s d.timer_id requeueTimer })
      else some (.appended, { s with
        chats := Function.update s.chats d.parent_chat_id (some (appendPrompt d chat))
        timers := changeTimer s d.timer_id fun timer ↦ { timer with status := .completed } })
  | .acquire _, s => some ((), s)
  | .release _, s => some ((), s)
  | .announce _, s => some ((), s)
  | .outside chats users busy, s =>
    some ((), { s with chats := chats, users := users, busy := busy })

end

/-! ## The programs -/

abbrev Client := Proc Command Reply

def send (c : Command) : Client (Reply c) := Proc.send c

def timerLock (timer_id : PyStr) : PyStr := py "timer:" ++ timer_id

def parentLock (chat_id : PyStr) : PyStr := py "parent:" ++ chat_id

/-- What is done when a lock's block is left. -/
def finish (timer_id : PyStr) : Client Unit := send (.release (timerLock timer_id))

def fail (timer_id timer_error : PyStr) : Client Unit := do
  send (.setState timer_id .error timer_error)
  finish timer_id

/-- The text of the prompt; of a list the texts of its text parts. -/
def promptText : Content → PyStr
  | .text s => s
  | .parts ps => (ps.filter fun p ↦ p.1 = py "text").flatMap Prod.snd

/-- From where the prompt is appended: the messages are announced and the answer is asked for, which
may raise. -/
def complete (timer_id user_message_id assistant_message_id : PyStr) (raises : Option PyStr) :
    Client Unit := do
  send (.announce user_message_id)
  send (.announce assistant_message_id)
  send (.announce assistant_message_id)
  match raises with
  | none => finish timer_id
  | some exc => fail timer_id (exc.take 500)

def deliverPrompt (timer_id : PyStr) (timer : Timer) (prompt : PyStr) (now : ℕ)
    (raises : Option PyStr) : Client Unit := do
  let user_message_id : PyStr ← send .uuid4
  let assistant_message_id : PyStr ← send .uuid4
  send (.acquire (parentLock timer.parent_chat_id))
  let delivered : Delivered ← send (.deliver ⟨timer_id, timer.parent_chat_id, timer.user_id,
    timer.parent_message_id, user_message_id, assistant_message_id, prompt, now⟩)
  match delivered with
  | .noParent => do
    send (.setState timer_id .error (py "parent chat no longer exists"))
    send (.release (parentLock timer.parent_chat_id))
    finish timer_id
  | .requeued => do
    send (.release (parentLock timer.parent_chat_id))
    finish timer_id
  | .appended => do
    send (.release (parentLock timer.parent_chat_id))
    complete timer_id user_message_id assistant_message_id raises

/-- What `execute_due_timer` does once it has found the timer running under its claim. -/
def runTimer (timer_id : PyStr) (timer : Timer) (now : ℕ) (raises : Option PyStr) : Client Unit := do
  let parent : Bool ← send (.getParent timer.parent_chat_id timer.user_id)
  if !parent then fail timer_id (py "parent chat no longer exists")
  else match timer.prompt_message with
    | none => fail timer_id (py "timer task message is missing")
    | some content => do
      let user : Bool ← send (.getUser timer.user_id)
      if !user then fail timer_id (py "timer user no longer exists")
      else match timer.model_id with
        | none => fail timer_id (py "model context is missing")
        | some _ => deliverPrompt timer_id timer (promptText content) now raises

def executeDueTimer (timer_id : PyStr) (claim_id : Option PyStr) (now : ℕ) (raises : Option PyStr) :
    Client Unit := do
  send (.acquire (timerLock timer_id))
  let found : Option Timer ← send (.getTimer timer_id)
  match found with
  | none => finish timer_id
  | some timer =>
    if timer.status ≠ .running then finish timer_id
    else if claim_id ≠ none ∧ timer.timer_claim_id ≠ claim_id then finish timer_id
    else runTimer timer_id timer now raises

/-- The loop over the claims of one round: a task for each. -/
def createTasks (worker : ℕ) : List (PyStr × PyStr) → Client Unit
  | [] => .ret ()
  | _ :: claimed => do
    send (.createTask worker)
    createTasks worker claimed

inductive Op
  /-- A round of a scheduler worker. -/
  | round (worker now limit : ℕ) (rows : List PyStr)
  /-- A worker's event loop starts the next of its tasks. -/
  | task (worker now : ℕ) (raises : Option PyStr)
  | cancelTimersForChat (parent_chat_id event user_id : PyStr)
  | createTimer (timer_id : PyStr) (timer : Timer)
  | outside (chats : PyStr → Option Chat) (users busy : PyStr → Bool)

def program : Op → Client Unit
  | .round worker now limit rows => do
    let claimed : List (PyStr × PyStr) ← send (.claim worker now limit rows)
    createTasks worker claimed
  | .task worker now raises => do
    let task : PyStr × PyStr ← send (.takeTask worker)
    executeDueTimer task.1 (some task.2) now raises
  | .cancelTimersForChat parent_chat_id event user_id => send (.cancel parent_chat_id event user_id)
  | .createTimer timer_id timer => send (.insert timer_id { timer with
      status := .pending, timer_claim_id := none, timer_at := some timer.due_at })
  | .outside chats users busy => send (.outside chats users busy)

end FourCE.Timers

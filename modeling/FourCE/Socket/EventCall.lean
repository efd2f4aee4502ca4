import Mathlib.Data.List.Dedup
import Mathlib.Data.List.Induction
import FourCE.Library.Keyed
import FourCE.Python.Str

/-!
# A call to the browser of one user

`__event_caller__` in `socket/main.py`: a call goes to the session that shows the chat, and again to
others of the same user once every session asked has gone.  It waits for the first of the sessions asked
to answer and looks every two seconds who is still there; between these moments sessions connect, leave
and answer as they like.  A look does not give way to other tasks, so it is one step.
-/

namespace FourCE.Socket

open FourCE.Library FourCE.Python

variable {V : Type}

/-- How a call to one session ended. -/
inductive Outcome (V : Type)
  | answered (value : V)
  | timedOut

inductive CallResult (V : Type)
  | value (value : V)
  | error (error : PyStr)

structure Request where
  session_id : PyStr
  user_id : Option PyStr

/-- The sessions with their users, the local rooms of users, and the call: whom it asked, the owner each
session had when it was sent there, which of them have ended, and what was returned. -/
structure CallState (V : Type) where
  pool : Keyed PyStr PyStr
  rooms : List (PyStr × PyStr)
  asked : List PyStr
  sent : List (PyStr × Option PyStr)
  ended : List (PyStr × Outcome V)
  result : Option (CallResult V)

inductive CallEvent (V : Type)
  /-- A session connects, joins as a user or sends a heartbeat. -/
  | connect (sid user_id : PyStr)
  | disconnect (sid : PyStr)
  /-- An entry without heartbeats is removed. -/
  | expire (sid : PyStr)
  | answer (sid : PyStr) (value : V)
  | timeout (sid : PyStr)
  /-- The wait returns: with a call that ended, or after two seconds. -/
  | wake (pick : PyStr)

def disconnected : PyStr := py "Client session disconnected."

def timedOut : PyStr := py "Event call timed out. The browser tab may be inactive or closed."

def ask (s : CallState V) (sid : PyStr) : CallState V :=
  { s with asked := s.asked ++ [sid], sent := s.sent ++ [(sid, s.pool.get? sid)] }

/-- The call is made while these sessions are connected. -/
def eventCallerStart (request : Request) (pool : Keyed PyStr PyStr) (rooms : List (PyStr × PyStr)) :
    CallState V :=
  let s : CallState V := ⟨pool, rooms, [], [], [], none⟩
  match pool.get? request.session_id with
  | none => { s with result := some (.error disconnected) }
  | some id =>
    if some id ≠ request.user_id then { s with result := some (.error disconnected) }
    else ask s request.session_id

/-- The sessions known for a user, each once, in some order. -/
def getSessionIdsByUserId (s : CallState V) (user_id : Option PyStr) : List PyStr :=
  (((s.rooms.filter fun r ↦ some r.1 = user_id).map Prod.snd) ++
    ((s.pool.entries.filter fun e : PyStr × PyStr ↦ some e.2 = user_id).map Prod.fst)).dedup

/-- Ask a session if it was not asked and is the user's own now. -/
def askAgain (user_id : Option PyStr) (s : CallState V) (sid : PyStr) : CallState V :=
  match s.pool.get? sid with
  | none => s
  | some id => if sid ∉ s.asked ∧ some id = user_id then ask s sid else s

def poll (request : Request) (s : CallState V) : CallState V :=
  if s.asked.any (· ∈ s.pool.keys) then s
  else (getSessionIdsByUserId s request.user_id).foldl (askAgain request.user_id) s

def returned : Outcome V → CallResult V
  | .answered value => .value value
  | .timedOut => .error timedOut

/-- A call that was sent and has not ended ends. -/
def finishCall (s : CallState V) (sid : PyStr) (outcome : Outcome V) : CallState V :=
  if sid ∈ s.asked ∧ sid ∉ s.ended.map Prod.fst then { s with ended := s.ended ++ [(sid, outcome)] }
  else s

/-- One of the calls that ended. -/
def done? (s : CallState V) (pick : PyStr) : Option (PyStr × Outcome V) :=
  (s.ended.find? (·.1 = pick)).or s.ended.head?

def wake (request : Request) (s : CallState V) (pick : PyStr) : CallState V :=
  match s.result, done? s pick with
  | some _, _ => s
  | none, some e => { s with result := some (returned e.2) }
  | none, none => poll request s

def eventCallerStep (request : Request) (s : CallState V) : CallEvent V → CallState V
  | .connect sid user_id =>
    { s with pool := s.pool.set sid user_id, rooms := s.rooms ++ [(user_id, sid)] }
  | .disconnect sid =>
    { s with
      pool := s.pool.filterKeys (· ≠ sid)
      rooms := s.rooms.filter fun r ↦ r.2 ≠ sid }
  | .expire sid => { s with pool := s.pool.filterKeys (· ≠ sid) }
  | .answer sid value => finishCall s sid (.answered value)
  | .timeout sid => finishCall s sid .timedOut
  | .wake pick => wake request s pick

/-- The call and what happened since it was made. -/
def eventCaller (request : Request) (pool : Keyed PyStr PyStr) (rooms : List (PyStr × PyStr))
    (events : List (CallEvent V)) : CallState V :=
  events.foldl (eventCallerStep request) (eventCallerStart request pool rooms)

/-! ## What a call keeps -/

variable {request : Request} {s : CallState V}

/-- Each session is asked once and while it was the user's; only sessions asked end; what was returned
is how one of them ended, or that the first was not there. -/
structure CallKept (request : Request) (s : CallState V) : Prop where
  sent_asked : s.sent.map Prod.fst = s.asked
  nodup : s.asked.Nodup
  own : ∀ e ∈ s.sent, e.2.isSome ∧ e.2 = request.user_id
  ended : ∀ e ∈ s.ended, e.1 ∈ s.asked
  result : ∀ r, s.result = some r → r = .error disconnected ∨ ∃ e ∈ s.ended, r = returned e.2

theorem kept_ask (h : CallKept request s) {sid id : PyStr} (hid : s.pool.get? sid = some id)
    (hown : some id = request.user_id) (hnew : sid ∉ s.asked) : CallKept request (ask s sid) where
  sent_asked := by
    unfold ask
    rw [List.map_append, h.sent_asked]
    rfl
  nodup := h.nodup.append (List.nodup_singleton sid) (List.disjoint_singleton.mpr hnew)
  own e he := by
    rcases List.mem_append.mp he with hold | hlast
    · exact h.own e hold
    · rw [List.mem_singleton.mp hlast, hid]
      exact ⟨rfl, hown⟩
  ended e he := List.mem_append_left _ (h.ended e he)
  result := h.result

/-- What a look leaves alone. -/
structure SameCall (s s' : CallState V) : Prop where
  pool : s'.pool = s.pool
  ended : s'.ended = s.ended
  result : s'.result = s.result
  asked : ∀ sid ∈ s.asked, sid ∈ s'.asked

theorem askAgain_spec (h : CallKept request s) (sid : PyStr) :
    CallKept request (askAgain request.user_id s sid) ∧
      SameCall s (askAgain request.user_id s sid) ∧
      (s.pool.get? sid = request.user_id → request.user_id.isSome →
        sid ∈ (askAgain request.user_id s sid).asked) := by
  unfold askAgain
  rcases hid : s.pool.get? sid with _ | id
  · exact ⟨h, ⟨rfl, rfl, rfl, fun _ hx ↦ hx⟩, fun hnone hsome ↦ by simp [← hnone] at hsome⟩
  · dsimp only
    split_ifs with hask
    · exact ⟨kept_ask h hid hask.2 hask.1, ⟨rfl, rfl, rfl, fun _ hx ↦ List.mem_append_left _ hx⟩,
        fun _ _ ↦ List.mem_append_right _ (List.mem_singleton_self sid)⟩
    · refine ⟨h, ⟨rfl, rfl, rfl, fun _ hx ↦ hx⟩, fun hown _ ↦ ?_⟩
      by_contra hnew
      exact hask ⟨hnew, hown⟩

theorem foldl_askAgain (sids : List PyStr) (h : CallKept request s) :
    CallKept request (sids.foldl (askAgain request.user_id) s) ∧
      SameCall s (sids.foldl (askAgain request.user_id) s) ∧
      ∀ sid ∈ sids, s.pool.get? sid = request.user_id → request.user_id.isSome →
        sid ∈ (sids.foldl (askAgain request.user_id) s).asked := by
  induction sids generalizing s with
  | nil => exact ⟨h, ⟨rfl, rfl, rfl, fun _ hx ↦ hx⟩, by simp⟩
  | cons sid sids ih =>
    obtain ⟨hkept, hsame, hasked⟩ := askAgain_spec h sid
    obtain ⟨hkept', hsame', hasked'⟩ := ih hkept
    rw [List.foldl_cons]
    refine ⟨hkept', ⟨hsame'.pool.trans hsame.pool, hsame'.ended.trans hsame.ended,
      hsame'.result.trans hsame.result, fun x hx ↦ hsame'.asked x (hsame.asked x hx)⟩, ?_⟩
    intro x hx hown hsome
    rcases List.mem_cons.mp hx with rfl | hx
    · exact hsame'.asked x (hasked hown hsome)
    · exact hasked' x hx (by rw [hsame.pool]; exact hown) hsome

theorem kept_poll (h : CallKept request s) : CallKept request (poll request s) := by
  unfold poll
  split_ifs
  · exact h
  · exact (foldl_askAgain _ h).1

theorem mem_getSessionIdsByUserId {sid id : PyStr} (hid : s.pool.get? sid = some id)
    (hown : some id = request.user_id) : sid ∈ getSessionIdsByUserId s request.user_id := by
  unfold getSessionIdsByUserId
  rw [List.mem_dedup, List.mem_append]
  refine Or.inr (List.mem_map.mpr ⟨(sid, id), List.mem_filter.mpr ⟨?_, ?_⟩, rfl⟩)
  · exact Keyed.get?_eq_some_iff.mp hid
  · exact decide_eq_true hown

/-- Once every session asked has gone, a look asks every session the user has. -/
theorem poll_asks (h : CallKept request s) (hgone : ∀ sid ∈ s.asked, sid ∉ s.pool.keys) {sid id : PyStr}
    (hid : s.pool.get? sid = some id) (hown : some id = request.user_id) :
    sid ∈ (poll request s).asked := by
  have hnone : ¬ s.asked.any (· ∈ s.pool.keys) = true := by
    rw [List.any_eq_true]
    rintro ⟨x, hx, hlive⟩
    exact hgone x hx (of_decide_eq_true hlive)
  unfold poll
  rw [if_neg hnone]
  exact (foldl_askAgain _ h).2.2 sid (mem_getSessionIdsByUserId hid hown) (hid.trans hown)
    (by rw [← hown]; rfl)

theorem kept_finishCall (h : CallKept request s) (sid : PyStr) (outcome : Outcome V) :
    CallKept request (finishCall s sid outcome) := by
  unfold finishCall
  split_ifs with hsid
  · refine ⟨h.sent_asked, h.nodup, h.own, fun e he ↦ ?_, fun r hr ↦ ?_⟩
    · rcases List.mem_append.mp he with hold | hlast
      · exact h.ended e hold
      · rw [List.mem_singleton.mp hlast]
        exact hsid.1
    · rcases h.result r hr with herror | ⟨e, he, hvalue⟩
      · exact Or.inl herror
      · exact Or.inr ⟨e, List.mem_append_left _ he, hvalue⟩
  · exact h

theorem kept_return (h : CallKept request s) {e : PyStr × Outcome V} (he : e ∈ s.ended) :
    CallKept request { s with result := some (returned e.2) } :=
  ⟨h.sent_asked, h.nodup, h.own, h.ended, fun _ hr ↦ Or.inr ⟨e, he, (Option.some.inj hr).symm⟩⟩

theorem mem_of_done? {pick : PyStr} {e : PyStr × Outcome V} (h : done? s pick = some e) :
    e ∈ s.ended := by
  unfold done? at h
  rcases Option.or_eq_some_iff.mp h with hpick | ⟨-, hhead⟩
  · exact List.mem_of_find?_eq_some hpick
  · exact List.mem_of_head? hhead

theorem kept_wake (h : CallKept request s) (pick : PyStr) : CallKept request (wake request s pick) := by
  unfold wake
  split
  · exact h
  · next e _ hdone => exact kept_return h (mem_of_done? hdone)
  · exact kept_poll h

theorem kept_eventCallerStep (h : CallKept request s) (event : CallEvent V) :
    CallKept request (eventCallerStep request s event) := by
  cases event with
  | connect sid user_id => exact ⟨h.sent_asked, h.nodup, h.own, h.ended, h.result⟩
  | disconnect sid => exact ⟨h.sent_asked, h.nodup, h.own, h.ended, h.result⟩
  | expire sid => exact ⟨h.sent_asked, h.nodup, h.own, h.ended, h.result⟩
  | answer sid value => exact kept_finishCall h sid _
  | timeout sid => exact kept_finishCall h sid _
  | wake pick => exact kept_wake h pick

theorem kept_eventCallerStart (request : Request) (pool : Keyed PyStr PyStr) (rooms : List (PyStr × PyStr)) :
    CallKept request (eventCallerStart request pool rooms : CallState V) := by
  have hnone : ∀ result : Option (CallResult V), (∀ r, result = some r → r = .error disconnected) →
      CallKept request ⟨pool, rooms, [], [], [], result⟩ := fun result hresult ↦
    ⟨rfl, List.nodup_nil, by simp, by simp, fun r hr ↦ Or.inl (hresult r hr)⟩
  unfold eventCallerStart
  rcases hid : pool.get? request.session_id with _ | id
  · exact hnone _ fun _ hr ↦ (Option.some.inj hr).symm
  · dsimp only
    split_ifs with hown
    · exact hnone _ fun _ hr ↦ (Option.some.inj hr).symm
    · exact kept_ask (hnone none (by simp)) hid (not_not.mp hown) (by simp)

theorem kept_eventCaller (request : Request) (pool : Keyed PyStr PyStr) (rooms : List (PyStr × PyStr))
    (events : List (CallEvent V)) : CallKept request (eventCaller request pool rooms events) := by
  unfold eventCaller
  induction events using List.reverseRecOn with
  | nil => exact kept_eventCallerStart request pool rooms
  | append_singleton events event ih =>
    rw [List.foldl_append]
    exact kept_eventCallerStep ih event

/-- The call is sent only to sessions that are the user's then, to each once; it returns what a session
asked has answered, or an error; and where every session asked has gone, the next look asks every session
that the user has. -/
theorem asked_again (request : Request) (pool : Keyed PyStr PyStr) (rooms : List (PyStr × PyStr))
    (events : List (CallEvent V)) :
    (∀ e ∈ (eventCaller request pool rooms events).sent, e.2.isSome ∧ e.2 = request.user_id) ∧
      ((eventCaller request pool rooms events).sent.map Prod.fst).Nodup ∧
      (∀ r, (eventCaller request pool rooms events).result = some r → (∃ error, r = .error error) ∨
        ∃ sid value, sid ∈ (eventCaller request pool rooms events).sent.map Prod.fst ∧
          (sid, .answered value) ∈ (eventCaller request pool rooms events).ended ∧ r = .value value) ∧
      ∀ pick, (eventCaller request pool rooms events).result = none →
        (eventCaller request pool rooms events).ended = [] →
        (∀ sid ∈ (eventCaller request pool rooms events).asked,
          sid ∉ (eventCaller request pool rooms events).pool.keys) →
        ∀ sid id, (eventCaller request pool rooms events).pool.get? sid = some id →
          some id = request.user_id →
          sid ∈ (eventCaller request pool rooms (events ++ [.wake pick])).asked := by
  have h := kept_eventCaller request pool rooms events
  refine ⟨h.own, ?_, fun r hr ↦ ?_, fun pick hresult hended hgone sid id hid hown ↦ ?_⟩
  · rw [h.sent_asked]
    exact h.nodup
  · rcases h.result r hr with herror | ⟨⟨sid, outcome⟩, he, hvalue⟩
    · exact Or.inl ⟨_, herror⟩
    · cases outcome with
      | answered value =>
        refine Or.inr ⟨sid, value, ?_, he, hvalue⟩
        rw [h.sent_asked]
        exact h.ended _ he
      | timedOut => exact Or.inl ⟨_, hvalue⟩
  · have hnext : eventCaller request pool rooms (events ++ [.wake pick]) =
        wake request (eventCaller request pool rooms events) pick := List.foldl_append
    have hdone : done? (eventCaller request pool rooms events) pick = none := by
      unfold done?
      rw [hended]
      rfl
    have hlook : wake request (eventCaller request pool rooms events) pick =
        poll request (eventCaller request pool rooms events) := by
      unfold wake
      rw [hresult, hdone]
    rw [hnext, hlook]
    exact poll_asks h hgone hid hown

/-! ### A tab that comes back while another stays -/

def twoTabs : Keyed PyStr PyStr := ⟨[(py "a", py "u"), (py "b", py "u")], by decide⟩

def signOff : Request := ⟨py "a", some (py "u")⟩

/-- The tab that shows the chat drops. -/
def dropped : List (CallEvent Unit) := [.disconnect (py "a")]

theorem asked_again_dropped :
    py "b" ∈ (eventCaller signOff twoTabs [] (dropped ++ [.wake []])).asked := by
  have hgone : ∀ sid ∈ (eventCaller signOff twoTabs [] dropped).asked,
      sid ∉ (eventCaller signOff twoTabs [] dropped).pool.keys := by decide
  have hlive : (eventCaller signOff twoTabs [] dropped).pool.get? (py "b") = some (py "u") := by
    decide
  exact (asked_again signOff twoTabs [] dropped).2.2.2 [] rfl rfl hgone (py "b") (py "u") hlive rfl

/-- The other tab is asked, and then the first is back under a new id. -/
def backLate : List (CallEvent Unit) := dropped ++ [.wake [], .connect (py "c") (py "u")]

/-- While another tab that was asked stays connected, the session of the tab that is back is not
asked. -/
theorem late_session_not_asked :
    ¬ ∀ (request : Request) (pool : Keyed PyStr PyStr) (rooms : List (PyStr × PyStr))
      (events : List (CallEvent Unit)) (pick : PyStr),
      (eventCaller request pool rooms events).result = none →
      (eventCaller request pool rooms events).ended = [] →
      request.session_id ∉ (eventCaller request pool rooms events).pool.keys →
      ∀ sid id, (eventCaller request pool rooms events).pool.get? sid = some id →
        some id = request.user_id →
        sid ∈ (eventCaller request pool rooms (events ++ [.wake pick])).asked := by
  intro h
  have hgone : py "a" ∉ (eventCaller signOff twoTabs [] backLate).pool.keys := by decide
  have hlive : (eventCaller signOff twoTabs [] backLate).pool.get? (py "c") = some (py "u") := by
    decide
  have hasked := h signOff twoTabs [] backLate [] rfl rfl hgone (py "c") (py "u") hlive rfl
  have hnot : py "c" ∉ (eventCaller signOff twoTabs [] (backLate ++ [.wake []])).asked := by
    decide
  exact hnot hasked

end FourCE.Socket

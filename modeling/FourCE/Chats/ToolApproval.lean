import FourCE.Python.Dict
import FourCE.Python.Object

/-!
# Deciding a tool call

What `resolve_tool_call_output` makes of the output of a message when a user approves, rejects or
answers one of its tool calls (`utils/tool_approval.py`).  Stored texts hold no null bytes, so that
cleaning them of these before they are written again is left out; so is what the request answers besides
the output.
-/

namespace FourCE.Chats

open FourCE.Python

variable {F : Type} [Runtime F]

inductive Action
  | approve
  | reject
  | answer
  deriving DecidableEq

structure ResolveToolCallForm (F : Type) where
  callId : PyStr
  action : Action
  answers : Option (Json F)
  timedOut : Bool

/-- `item.get(key)` -/
def field (item : Dict F) (key : PyStr) : Json F := (dictGet item key).getD .null

/-- The tool call that an id names: `item.get('call_id') or item.get('id')`. -/
def isCall (call_id : PyStr) (item : Dict F) : Bool :=
  (field item (py "type")).isStr (py "function_call") &&
    ((field item (py "call_id")).orElse (field item (py "id"))).isStr call_id

def isResult (call_id : PyStr) (item : Dict F) : Bool :=
  (field item (py "type")).isStr (py "function_call_output") &&
    (field item (py "call_id")).isStr call_id

/-- `status in {'pending', 'queued', 'requires_approval'}` -/
def awaits (item : Dict F) : Bool :=
  (field item (py "status")).isStr (py "pending") || (field item (py "status")).isStr (py "queued") ||
    (field item (py "status")).isStr (py "requires_approval")

/-- `message.get('output') or []`, unless it is no list of dictionaries, on which the request fails. -/
def outputItems (output : Json F) : Option (List (Dict F)) :=
  if !output.truth then some []
  else match output with
    | .arr items => items.mapM fun item ↦ match item with
      | .obj d => some d
      | _ => none
    | _ => none

/-- `function_call.setdefault('call_id', call_id)` -/
def setDefault (item : Dict F) (call_id : PyStr) : Dict F :=
  match dictGet item (py "call_id") with
  | some _ => item
  | none => dictSet item (py "call_id") (.str call_id)

/-- The first item that passes, changed in its place. -/
def modifyFirst (p : Dict F → Bool) (f : Dict F → Dict F) : List (Dict F) → List (Dict F)
  | [] => []
  | item :: items => if p item then f item :: items else item :: modifyFirst p f items

/-- The item that holds the result of a call. -/
def callResult (call_id text status : PyStr) : Dict F :=
  [(py "type", .str (py "function_call_output")), (py "id", .str (py "fco_" ++ call_id)),
    (py "call_id", .str call_id),
    (py "output", .arr [.obj [(py "type", .str (py "input_text")), (py "text", .str text)]]),
    (py "status", .str status)]

/-- What an answer tells the model. -/
def answerPayload (form_data : ResolveToolCallForm F) : Json F :=
  if form_data.timedOut then
    .obj [(py "status", .str (py "cancelled")), (py "answers", .obj []), (py "timed_out", .bool true)]
  else .obj [(py "status", .str (py "answered")), (py "answers", (form_data.answers.getD .null).orElse (.obj []))]

/-- The output after a decision, unless it is refused. -/
def resolveItems (dumps : Json F → PyStr) (form_data : ResolveToolCallForm F) (items : List (Dict F)) :
    Option (List (Dict F)) :=
  match items.find? (isCall form_data.callId) with
  | none => none
  | some function_call =>
    let tool_name := field function_call (py "name")
    let edit (f : Dict F → Dict F) := modifyFirst (isCall form_data.callId)
      (fun item ↦ f (setDefault item form_data.callId)) items
    if items.any (isResult form_data.callId) || !awaits function_call then none
    else match form_data.action with
    | .approve =>
      if tool_name.isStr (py "ask_user") then none
      else some (edit fun item ↦ dictSet (dictSet item (py "status") (.str (py "queued")))
        (py "approved") (.bool true))
    | .reject =>
      some (edit (fun item ↦ dictSet item (py "status") (.str (py "rejected"))) ++
        [callResult form_data.callId (py "Error: tool call rejected by user.") (py "rejected")])
    | .answer =>
      if !tool_name.isStr (py "ask_user") then none
      else if form_data.answers.isNone && !form_data.timedOut then none
      else some (edit (fun item ↦ dictSet item (py "status") (.str (py "completed"))) ++
        [callResult form_data.callId (dumps (answerPayload form_data)) (py "completed")])

/-! ## What a decision leaves in the output -/

/-- The call was decided: it has its result, or it was approved and is queued. -/
def decided (form_data : ResolveToolCallForm F) (items : List (Dict F)) : Bool :=
  items.any (isResult form_data.callId) ||
    form_data.action = .approve && (items.find? (isCall form_data.callId)).any fun item ↦
      (field item (py "status")).isStr (py "queued") && (field item (py "approved")).truth

/-- How many results a call has. -/
def results (call_id : PyStr) (items : List (Dict F)) : ℕ := items.countP (isResult call_id)

variable {p q : Dict F → Bool} {f : Dict F → Dict F} {items : List (Dict F)}

theorem field_dictSet (item : Dict F) (key : PyStr) (v : Json F) : field (dictSet item key v) key = v := by
  unfold field
  rw [dictGet_dictSet_self]
  rfl

theorem field_dictSet_of_ne (item : Dict F) {key key' : PyStr} (v : Json F) (h : key' ≠ key) :
    field (dictSet item key v) key' = field item key' := by
  unfold field
  rw [dictGet_dictSet_of_ne item v h]

theorem countP_modifyFirst (hf : ∀ item, p item = true → q (f item) = q item) :
    (modifyFirst p f items).countP q = items.countP q := by
  induction items with
  | nil => rfl
  | cons item items ih =>
    unfold modifyFirst
    split_ifs with hp
    · rw [List.countP_cons, List.countP_cons, hf item hp]
    · rw [List.countP_cons, List.countP_cons, ih]

theorem find?_modifyFirst_self (hf : ∀ item, p item = true → p (f item) = true) :
    (modifyFirst p f items).find? p = (items.find? p).map f := by
  induction items with
  | nil => rfl
  | cons item items ih =>
    unfold modifyFirst
    split_ifs with hp
    · rw [List.find?_cons_of_pos (hf item hp), List.find?_cons_of_pos hp]
      rfl
    · rw [List.find?_cons_of_neg hp, List.find?_cons_of_neg hp, ih]

theorem find?_modifyFirst_other (hf : ∀ item, p item = true → q item = false ∧ q (f item) = false) :
    (modifyFirst p f items).find? q = items.find? q := by
  induction items with
  | nil => rfl
  | cons item items ih =>
    unfold modifyFirst
    split_ifs with hp
    · rw [List.find?_cons_of_neg (by simp [(hf item hp).2]), List.find?_cons_of_neg (by simp [(hf item hp).1])]
    · rw [List.find?_cons, List.find?_cons, ih]

theorem results_pos_iff {call_id : PyStr} : 0 < results call_id items ↔ items.any (isResult call_id) = true := by
  unfold results
  rw [List.countP_pos_iff, List.any_eq_true]

omit [Runtime F] in
theorem isStr_inj {x : Json F} {s t : PyStr} (hs : x.isStr s = true) (ht : x.isStr t = true) : s = t := by
  unfold Json.isStr at hs ht
  split at hs
  · simp_all
  · cases hs

theorem isCall_inj {item : Dict F} {c d : PyStr} (hc : isCall c item = true) (hd : isCall d item = true) :
    c = d := by
  unfold isCall at hc hd
  rw [Bool.and_eq_true] at hc hd
  exact isStr_inj hc.2 hd.2

theorem not_isResult_of_isCall {item : Dict F} {c : PyStr} (hc : isCall c item = true) (d : PyStr) :
    isResult d item = false := by
  by_contra hd
  rw [Bool.not_eq_false] at hd
  unfold isCall at hc
  unfold isResult at hd
  rw [Bool.and_eq_true] at hc hd
  exact absurd (isStr_inj hc.1 hd.1) (by decide)

/-- An edit that leaves the type and the ids of an item is the same call. -/
theorem isCall_congr {item item' : Dict F} (htype : field item' (py "type") = field item (py "type"))
    (hid : field item' (py "id") = field item (py "id"))
    (hcall : field item' (py "call_id") = field item (py "call_id")) (c : PyStr) :
    isCall c item' = isCall c item := by
  unfold isCall
  rw [htype, hid, hcall]

theorem isCall_setDefault {item : Dict F} {c : PyStr} (hc : isCall c item = true) (d : PyStr) :
    isCall d (setDefault item c) = isCall d item := by
  unfold setDefault
  split
  · rfl
  · next hnone =>
    have hnull : field item (py "call_id") = .null := by
      unfold field
      rw [hnone]
      rfl
    unfold isCall at hc ⊢
    rw [Bool.and_eq_true] at hc
    rw [field_dictSet, field_dictSet_of_ne _ _ (by decide), field_dictSet_of_ne _ _ (by decide),
      hnull]
    rw [hnull] at hc
    have hor : (Json.null : Json F).orElse (field item (py "id")) = field item (py "id") := rfl
    rw [hor] at hc ⊢
    congr 1
    unfold Json.orElse
    split_ifs
    · by_cases hd : d = c
      · rw [hd, hc.2]
        simp [Json.isStr]
      · have hfirst : (Json.str c : Json F).isStr d = false := by
          unfold Json.isStr
          simpa using fun he : c = d ↦ hd he.symm
        rw [hfirst]
        by_contra hsecond
        exact hd (isStr_inj (Bool.eq_true_of_not_eq_false fun he ↦ hsecond he.symm) hc.2)
    · rfl

/-- What a decision does to the output: the call it is about is edited, and may get a result. -/
structure Resolves (form_data : ResolveToolCallForm F) (items out : List (Dict F)) : Prop where
  call : (items.find? (isCall form_data.callId)).isSome = true
  undecided : items.any (isResult form_data.callId) = false
  edits : ∃ (edit : Dict F → Dict F) (extra : List (Dict F)),
    out = modifyFirst (isCall form_data.callId) edit items ++ extra ∧
    (∀ item, isCall form_data.callId item = true → ∀ c, isCall c (edit item) = isCall c item) ∧
    ((∃ text status, extra = [callResult form_data.callId text status]) ∨
      form_data.action = .approve ∧ extra = [] ∧ ∀ item,
        (field (edit item) (py "status")).isStr (py "queued") = true ∧
          (field (edit item) (py "approved")).truth = true)

theorem isCall_dictSet {item : Dict F} {key : PyStr} (v : Json F) (htype : py "type" ≠ key)
    (hid : py "id" ≠ key) (hcall : py "call_id" ≠ key) (c : PyStr) :
    isCall c (dictSet item key v) = isCall c item :=
  isCall_congr (field_dictSet_of_ne item v htype) (field_dictSet_of_ne item v hid)
    (field_dictSet_of_ne item v hcall) c

theorem isCall_setStatus {item : Dict F} {c : PyStr} (hc : isCall c item = true) (status : PyStr) (d : PyStr) :
    isCall d (dictSet (setDefault item c) (py "status") (.str status)) = isCall d item := by
  rw [isCall_dictSet _ (by decide) (by decide) (by decide), isCall_setDefault hc]

theorem resolves_of_resolveItems {dumps : Json F → PyStr} {form_data : ResolveToolCallForm F}
    {items out : List (Dict F)} (h : resolveItems dumps form_data items = some out) :
    Resolves form_data items out := by
  unfold resolveItems at h
  rcases hcall : items.find? (isCall form_data.callId) with _ | function_call
  · rw [hcall] at h
    cases h
  rw [hcall] at h
  dsimp only at h
  split at h
  · cases h
  next hcond =>
  rw [Bool.or_eq_true, not_or] at hcond
  refine ⟨by rw [hcall]; rfl, by simpa using hcond.1, ?_⟩
  split at h
  · next haction =>
    split at h
    · cases h
    · refine ⟨_, [], by rw [List.append_nil]; exact (Option.some.inj h).symm, fun item hitem c ↦ ?_,
        Or.inr ⟨haction, rfl, fun item ↦ ⟨?_, ?_⟩⟩⟩
      · rw [isCall_dictSet _ (by decide) (by decide) (by decide),
          isCall_setStatus hitem]
      · rw [field_dictSet_of_ne _ _ (by decide), field_dictSet]
        simp [Json.isStr]
      · rw [field_dictSet]
        rfl
  · exact ⟨_, _, (Option.some.inj h).symm, fun item hitem c ↦ isCall_setStatus hitem _ c,
      Or.inl ⟨_, _, rfl⟩⟩
  · split at h
    · cases h
    split at h
    · cases h
    · exact ⟨_, _, (Option.some.inj h).symm, fun item hitem c ↦ isCall_setStatus hitem _ c,
        Or.inl ⟨_, _, rfl⟩⟩

theorem isResult_callResult (call_id text status c : PyStr) :
    isResult c (callResult call_id text status : Dict F) = decide (call_id = c) := by
  have htype : field (callResult call_id text status : Dict F) (py "type") = .str (py "function_call_output") := by
    unfold field callResult
    rfl
  have hid : field (callResult call_id text status : Dict F) (py "call_id") = .str call_id := by
    unfold field callResult
    have htype : ¬ py "type" = py "call_id" := by decide
    have hid : ¬ py "id" = py "call_id" := by decide
    rw [dictGet_cons, if_neg htype, dictGet_cons, if_neg hid, dictGet_cons, if_pos rfl]
    rfl
  unfold isResult
  rw [htype, hid]
  simp [Json.isStr]

theorem isCall_callResult (call_id text status c : PyStr) :
    isCall c (callResult call_id text status : Dict F) = false := by
  have htype : field (callResult call_id text status : Dict F) (py "type") = .str (py "function_call_output") := by
    unfold field callResult
    rfl
  unfold isCall
  rw [htype]
  simp only [Json.isStr, Bool.and_eq_false_iff, decide_eq_false_iff_not]
  exact Or.inl (by decide)

namespace Resolves

variable {form_data : ResolveToolCallForm F} {out : List (Dict F)}

/-- The decision gives its own call a result, and no call a second one. -/
theorem results_eq (h : Resolves form_data items out) (c : PyStr) :
    results c out = results c items ∨
      c = form_data.callId ∧ results c items = 0 ∧ results c out = 1 := by
  obtain ⟨edit, extra, rfl, hedit, hextra⟩ := h.edits
  have hsame : results c (modifyFirst (isCall form_data.callId) edit items) = results c items := by
    refine countP_modifyFirst fun item hitem ↦ ?_
    rw [not_isResult_of_isCall hitem, not_isResult_of_isCall ((hedit item hitem _).trans hitem)]
  unfold results at hsame ⊢
  rw [List.countP_append, hsame]
  rcases hextra with ⟨text, status, rfl⟩ | ⟨-, rfl, -⟩
  · rw [List.countP_singleton, isResult_callResult]
    by_cases hc : form_data.callId = c
    · have hnone : items.countP (isResult c) = 0 := by
        rw [List.countP_eq_zero]
        intro item hitem hresult
        have hany := h.undecided
        rw [hc, List.any_eq_false] at hany
        exact hany item hitem hresult
      exact Or.inr ⟨hc.symm, hnone, by simp [hc, hnone]⟩
    · exact Or.inl (by simp [hc])
  · exact Or.inl (by simp)

theorem decided_self (h : Resolves form_data items out) : decided form_data out = true := by
  obtain ⟨edit, extra, rfl, hedit, hextra⟩ := h.edits
  unfold decided
  rw [Bool.or_eq_true]
  rcases hextra with ⟨text, status, rfl⟩ | ⟨haction, rfl, hqueued⟩
  · left
    rw [List.any_append, Bool.or_eq_true]
    exact Or.inr (by simp [isResult_callResult])
  · right
    obtain ⟨call, hcall⟩ := Option.isSome_iff_exists.mp h.call
    rw [List.append_nil, find?_modifyFirst_self fun item hitem ↦ (hedit item hitem _).trans hitem, hcall]
    simp [haction, (hqueued call).1, (hqueued call).2]

/-- What was decided before stays decided. -/
theorem decided_of_decided (h : Resolves form_data items out) {other : ResolveToolCallForm F}
    (hother : decided other items = true) : decided other out = true := by
  by_cases hc : other.callId = form_data.callId
  · have hself := h.decided_self
    unfold decided at hself hother ⊢
    rw [hc] at hother ⊢
    rw [h.undecided, Bool.false_or, Bool.and_eq_true] at hother
    rw [Bool.or_eq_true] at hself ⊢
    refine hself.imp_right fun hqueued ↦ ?_
    rw [Bool.and_eq_true] at hqueued ⊢
    exact ⟨hother.1, hqueued.2⟩
  · have hresults : results other.callId out = results other.callId items :=
      (h.results_eq other.callId).resolve_right fun hboth ↦ hc hboth.1
    have hany : out.any (isResult other.callId) = items.any (isResult other.callId) := by
      rw [Bool.eq_iff_iff, ← results_pos_iff, ← results_pos_iff, hresults]
    have hfind : out.find? (isCall other.callId) = items.find? (isCall other.callId) := by
      obtain ⟨edit, extra, rfl, hedit, hextra⟩ := h.edits
      have hother : ∀ item : Dict F, isCall form_data.callId item = true →
          isCall other.callId item = false := by
        intro item hitem
        by_contra hcall
        exact hc (isCall_inj (Bool.eq_true_of_not_eq_false hcall) hitem)
      have hextra' : extra.find? (isCall other.callId) = none := by
        rcases hextra with ⟨text, status, rfl⟩ | ⟨-, rfl, -⟩
        · rw [List.find?_singleton, isCall_callResult]
          rfl
        · rfl
      rw [List.find?_append, hextra', Option.or_none]
      exact find?_modifyFirst_other fun item hitem ↦
        ⟨hother item hitem, (hedit item hitem _).trans (hother item hitem)⟩
    unfold decided at hother ⊢
    rwa [hany, hfind]

end Resolves

end FourCE.Chats

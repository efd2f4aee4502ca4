import FourCE.Egress.Evidence
import Mathlib.Algebra.GroupWithZero.Nat

/-!
# Events and counters

The connections that a watch lists against those that it counts.  A connection is counted once while it is remembered,
under the kind that it was first seen with; it is listed under the kind that a sample sees it with.
-/

namespace FourCE.Egress

open FourCE.Python

/-! ## Dictionaries -/

section Dict

variable {κ υ : Type*}

theorem lookup_isSome_iff [BEq κ] [LawfulBEq κ] {d : List (κ × υ)} {k : κ} :
    (d.lookup k).isSome ↔ k ∈ d.map Prod.fst := by
  induction d with
  | nil => simp
  | cons e d ih =>
    rw [List.lookup_cons, List.map_cons, List.mem_cons, ← ih]
    by_cases hk : k = e.1
    · simp [hk]
    · rw [beq_eq_false_iff_ne.mpr hk, or_iff_right hk]

theorem lookup_isNone_iff [BEq κ] [LawfulBEq κ] {d : List (κ × υ)} {k : κ} :
    (d.lookup k).isNone ↔ k ∉ d.map Prod.fst := by
  rw [← lookup_isSome_iff]
  cases d.lookup k <;> simp

theorem mem_of_lookup [BEq κ] [LawfulBEq κ] {d : List (κ × υ)} {k : κ} {v : υ} (h : d.lookup k = some v) :
    (k, v) ∈ d := by
  obtain ⟨before, after, rfl, -⟩ := List.lookup_eq_some_iff.mp h
  exact List.mem_append_right before List.mem_cons_self

variable [DecidableEq κ]

theorem assign_of_notMem {d : List (κ × υ)} {k : κ} (h : k ∉ d.map Prod.fst) (v : υ) : assign d k v = d ++ [(k, v)] :=
  if_neg fun hsome ↦ h (lookup_isSome_iff.mp hsome)

theorem keys_assign (d : List (κ × υ)) (k : κ) (v : υ) :
    (assign d k v).map Prod.fst = if k ∈ d.map Prod.fst then d.map Prod.fst else d.map Prod.fst ++ [k] := by
  unfold assign
  simp only [lookup_isSome_iff]
  split
  · rw [List.map_map]
    refine List.map_congr_left fun e _ ↦ ?_
    rw [Function.comp_apply]
    split
    · next heq => exact heq.symm
    · rfl
  · rw [List.map_append, List.map_singleton]

theorem nodup_assign {d : List (κ × υ)} (h : (d.map Prod.fst).Nodup) (k : κ) (v : υ) :
    ((assign d k v).map Prod.fst).Nodup := by
  rw [keys_assign]
  split
  · exact h
  · next hk => exact h.append (List.nodup_singleton k) (List.disjoint_singleton.mpr hk)

theorem mem_assign_self (d : List (κ × υ)) (k : κ) (v : υ) : (k, v) ∈ assign d k v := by
  unfold assign
  split
  · next hsome =>
    obtain ⟨e, he, hk⟩ := List.mem_map.mp (lookup_isSome_iff.mp hsome)
    exact List.mem_map.mpr ⟨e, he, if_pos hk⟩
  · exact List.mem_append_right _ (List.mem_singleton_self _)

theorem mem_assign_of_mem {d : List (κ × υ)} {k : κ} {v : υ} (h : (k, v) ∈ d) (k' : κ) : (k, v) ∈ assign d k' v := by
  unfold assign
  split
  · refine List.mem_map.mpr ⟨(k, v), h, ?_⟩
    split
    · next heq => rw [← heq]
    · rfl
  · exact List.mem_append_left _ h

/-- What a new value under a key that is there does to a sum over the values. -/
theorem sum_assign {d : List (κ × υ)} (h : (d.map Prod.fst).Nodup) {k : κ} {u : υ} (hu : (k, u) ∈ d) (v : υ)
    (f : υ → ℕ) : ((assign d k v).map fun e ↦ f e.2).sum + f u = (d.map fun e ↦ f e.2).sum + f v := by
  have hassign : assign d k v = d.map fun e ↦ if e.1 = k then (k, v) else e := by
    unfold assign
    rw [if_pos (lookup_isSome_iff.mpr (List.mem_map_of_mem hu))]
  rw [hassign]
  clear hassign
  induction d with
  | nil => cases hu
  | cons e d ih =>
    obtain ⟨hout, hd⟩ := List.nodup_cons.mp h
    rw [List.map_cons, List.map_cons, List.map_cons, List.sum_cons, List.sum_cons]
    rcases List.mem_cons.mp hu with rfl | hu
    · have hsame : d.map (fun e' ↦ if e'.1 = k then (k, v) else e') = d := by
        refine (List.map_congr_left fun e' he' ↦ if_neg fun heq ↦ hout ?_).trans (List.map_id' d)
        subst heq
        exact List.mem_map.mpr ⟨e', he', rfl⟩
      rw [hsame, if_pos rfl]
      simp only
      omega
    · have hk : e.1 ≠ k := by
        rintro rfl
        exact hout (List.mem_map.mpr ⟨_, hu, rfl⟩)
      have hrest := ih hd hu
      rw [if_neg hk]
      omega

end Dict

/-! ## Events -/

/-- The kinds that are listed: the keys of `_events`. -/
def Kind.Listed (kind : Kind) : Prop := kind = .external ∨ kind = .lanOut

def EgressWatch.events (w : EgressWatch) : Kind → List (EventKey × Event)
  | .external => w.external
  | .lanOut => w.lanOut
  | _ => []

/-- The flows that the events of a kind say there were. -/
def listed (events : List (EventKey × Event)) : ℕ := (events.map fun e ↦ e.2.flows).sum

/-- The key of the event of a connection. -/
abbrev Observed.eventKey (o : Observed) : EventKey := (o.pid, o.remote.ip, o.remote.port)

/-- There is no event for the connection, and no room for one. -/
def Refused (events : List (EventKey × Event)) (o : Observed) : Prop :=
  events.lookup o.eventKey = none ∧ eventLimit ≤ events.length

instance (events : List (EventKey × Event)) (o : Observed) : Decidable (Refused events o) := instDecidableAnd

/-- How many events of a kind a sample refuses, counting on from a state. -/
def refusals (kind : Kind) (now : ℚ) : EgressWatch → List Observed → ℕ
  | _, [] => 0
  | w, o :: observed =>
    (if o.kind = kind ∧ Refused (w.events kind) o then 1 else 0) + refusals kind now (w.count now o) observed

/-- A watch, and the events of a kind that it has refused in its window. -/
structure Watched where
  watch : EgressWatch
  refused : ℕ

/-- The watch as it begins to count a sample. -/
def EgressWatch.begun (w : EgressWatch) (now : ℚ) : EgressWatch :=
  { w with samples := w.samples + 1, lastSample := now, pending := none }

/-- How many events of a kind the count refuses. -/
def EgressWatch.refusedBy (w : EgressWatch) (kind : Kind) : ℕ :=
  (w.pending.map fun p ↦ refusals kind p.1 (w.begun p.1) p.2).getD 0

variable [IpAddress]

def Watched.step (kind : Kind) (s : Watched) (op : Op) : Watched where
  watch := s.watch.step op
  refused :=
    match op with
    | .commit => s.refused + s.watch.refusedBy kind
    | .reset _ => 0
    | _ => s.refused

def Watched.run (kind : Kind) (s : Watched) (ops : List Op) : Watched := ops.foldl (Watched.step kind) s

/-- The events of a kind against its counter. -/
structure Watched.Agrees (kind : Kind) (s : Watched) : Prop where
  all_listed : s.refused = 0 → listed (s.watch.events kind) = s.watch.flows kind
  listed_le : listed (s.watch.events kind) ≤ s.watch.flows kind
  counted : s.watch.events kind ≠ [] → 0 < s.watch.flows kind

/-- How often a sample counts a connection anew. -/
def countedAnew (key : ℕ × PyStr × PyStr) (now : ℚ) : List ((ℕ × PyStr × PyStr) × ℚ) → List Observed → ℕ
  | _, [] => 0
  | seen, o :: observed =>
    (if (seen.lookup o.key).isNone ∧ o.key = key then 1 else 0) + countedAnew key now (assign seen o.key now) observed

/-- How often the count of what a sample has looked at counts a connection anew. -/
def EgressWatch.anew (w : EgressWatch) (key : ℕ × PyStr × PyStr) : ℕ :=
  (w.pending.map fun p ↦ countedAnew key p.1 w.seen p.2).getD 0

/-- A connection in a sample is counted once in it and the next one, unless the window is reset between them. -/
def EgressWatch.CountsOnce (w : EgressWatch) (ops : List Op) : Prop :=
  ∀ before between after, ops = before ++ .commit :: (between ++ .commit :: after) →
    (∀ op ∈ between, op ≠ .commit ∧ ∀ now, op ≠ .reset now) → ∀ now observed,
      (w.run before).pending = some (now, observed) → ∀ o ∈ observed,
        (w.run before).anew o.key + (w.run (before ++ .commit :: between)).anew o.key ≤ 1

/-- A sample that sees connections of a kind not counted so far sees one that is not remembered. -/
def EgressWatch.Careful (w : EgressWatch) (kind : Kind) : Op → Prop
  | .commit => ∀ now observed, w.pending = some (now, observed) → (∃ o ∈ observed, o.kind = kind) → w.flows kind = 0 →
    ∃ before o after, observed = before ++ o :: after ∧ o.kind = kind ∧ w.seen.lookup o.key = none ∧
      o.key ∉ before.map Observed.key
  | _ => True

/-! ## What a turn of the count does -/

section Turn

variable {kind : Kind} {now : ℚ}

omit [IpAddress] in
theorem count_events (hkind : kind.Listed) (w : EgressWatch) (o : Observed) :
    (w.count now o).events kind =
      if o.kind = kind then note (w.events kind) o now (w.seen.lookup o.key).isNone else w.events kind := by
  rcases hkind with rfl | rfl <;> rfl

omit [IpAddress] in
theorem nodup_note {events : List (EventKey × Event)} (h : (events.map Prod.fst).Nodup) (o : Observed) (fresh : Bool) :
    ((note events o now fresh).map Prod.fst).Nodup := by
  unfold note
  simp only
  split
  · exact nodup_assign h _ _
  · split
    · exact h
    · exact nodup_assign h _ _

omit [IpAddress] in
/-- A flow is listed as it is counted, unless its event is refused. -/
theorem listed_note {events : List (EventKey × Event)} (h : (events.map Prod.fst).Nodup) (o : Observed) (fresh : Bool) :
    listed (note events o now fresh) =
      listed events + if fresh = true ∧ ¬ Refused events o then 1 else 0 := by
  rcases hevent : events.lookup o.eventKey with - | event
  · by_cases hroom : eventLimit ≤ events.length
    · have hrefused : Refused events o := ⟨hevent, hroom⟩
      simp only [note, hevent, if_pos hroom, hrefused, not_true_eq_false, and_false, if_false, Nat.add_zero]
    · have hrefused : ¬ Refused events o := fun hr ↦ hroom hr.2
      have hout : o.eventKey ∉ events.map Prod.fst := fun hk ↦ by
        rw [← lookup_isSome_iff, hevent] at hk
        cases hk
      simp only [note, hevent, if_neg hroom, listed, hrefused, assign_of_notMem hout]
      cases fresh <;> simp
  · have hrefused : ¬ Refused events o := fun hr ↦ nomatch hevent.symm.trans hr.1
    have hsum := sum_assign h (mem_of_lookup hevent) { event with
      last := now, state := o.conn.status, flows := if fresh = true then event.flows + 1 else event.flows } Event.flows
    simp only [note, hevent, hrefused, not_false_eq_true, and_true]
    unfold listed
    simp only [Observed.eventKey] at hsum
    cases fresh <;> simp only [if_true, if_false, Bool.false_eq_true] at hsum ⊢ <;> omega

omit [IpAddress] in
/-- A connection is listed afterwards, where any is. -/
theorem note_ne_nil (events : List (EventKey × Event)) (o : Observed) (fresh : Bool) : note events o now fresh ≠ [] := by
  have hassign (k : EventKey) (e : Event) : assign events k e ≠ [] := by
    intro h
    have hkeys := keys_assign events k e
    rw [h, List.map_nil] at hkeys
    split at hkeys
    · next hk =>
      rw [← hkeys] at hk
      cases hk
    · exact List.append_ne_nil_of_right_ne_nil _ (List.cons_ne_nil k []) hkeys.symm
  unfold note
  simp only
  split
  · exact hassign _ _
  · split
    · next hroom =>
      rintro rfl
      exact absurd hroom (by decide)
    · exact hassign _ _

end Turn

/-! ## What a sample does -/

section Sample

variable {kind : Kind} {now : ℚ}

omit [IpAddress] in
/-- The events of a sample against the flows that it counts. -/
theorem foldl_count_events (hkind : kind.Listed) (observed : List Observed) {w : EgressWatch}
    (hnodup : ((w.events kind).map Prod.fst).Nodup) {refused : ℕ}
    (hle : listed (w.events kind) ≤ w.flows kind) (hall : refused = 0 → listed (w.events kind) = w.flows kind) :
    (((observed.foldl (EgressWatch.count now) w).events kind).map Prod.fst).Nodup ∧
      listed ((observed.foldl (EgressWatch.count now) w).events kind) ≤
        (observed.foldl (EgressWatch.count now) w).flows kind ∧
      (refused + refusals kind now w observed = 0 →
        listed ((observed.foldl (EgressWatch.count now) w).events kind) =
          (observed.foldl (EgressWatch.count now) w).flows kind) := by
  induction observed generalizing w refused with
  | nil => exact ⟨hnodup, hle, hall⟩
  | cons o observed ih =>
    rw [List.foldl_cons, refusals, ← Nat.add_assoc]
    have hflows := count_flows kind now w o
    have hevents : (w.count now o).events kind = _ := count_events hkind w o
    by_cases hsame : o.kind = kind
    · rw [if_pos hsame] at hevents
      have hlisted : listed (note (w.events kind) o now (w.seen.lookup o.key).isNone) = _ := listed_note hnodup o _
      simp only [hsame, and_true, true_and] at hflows ⊢
      refine ih ?_ ?_ ?_
      · rw [hevents]
        exact nodup_note hnodup o _
      · rw [hevents, hlisted, hflows]
        refine Nat.add_le_add hle ?_
        split_ifs with hlost hfresh
        · exact le_rfl
        · exact absurd hlost.1 hfresh
        · exact Nat.zero_le 1
        · exact le_rfl
      · intro hzero
        rw [hevents, hlisted, hflows]
        by_cases hrefused : Refused (w.events kind) o
        · rw [if_pos hrefused] at hzero
          omega
        · rw [if_neg hrefused] at hzero
          simp only [hrefused, not_false_eq_true, and_true]
          rw [hall (by omega)]
    · rw [if_neg hsame] at hevents
      simp only [hsame, and_false, false_and, if_false, Nat.add_zero] at hflows ⊢
      exact ih (by rwa [hevents]) (by rwa [hevents, hflows]) (by rwa [hevents, hflows])

omit [IpAddress] in
/-- There are events afterwards where there were some or a connection of the kind was seen. -/
theorem foldl_count_events_ne_nil (hkind : kind.Listed) (observed : List Observed) (w : EgressWatch) :
    (observed.foldl (EgressWatch.count now) w).events kind ≠ [] ↔
      w.events kind ≠ [] ∨ ∃ o ∈ observed, o.kind = kind := by
  induction observed generalizing w with
  | nil => simp
  | cons o observed ih =>
    rw [List.foldl_cons, ih, count_events hkind, List.exists_mem_cons_iff]
    by_cases hsame : o.kind = kind
    · simp [hsame, note_ne_nil]
    · simp [hsame]

omit [IpAddress] in
theorem mem_keys_seen {seen : List ((ℕ × PyStr × PyStr) × ℚ)} {key k : ℕ × PyStr × PyStr} :
    k ∈ (assign seen key now).map Prod.fst ↔ k ∈ seen.map Prod.fst ∨ k = key := by
  rw [keys_assign]
  split
  · next hkey => exact (or_iff_left_of_imp fun heq ↦ heq ▸ hkey).symm
  · rw [List.mem_append, List.mem_singleton]

omit [IpAddress] in
/-- Flows are counted anew where a connection of the kind is not remembered. -/
theorem freshFlows_pos (observed : List Observed) (seen : List ((ℕ × PyStr × PyStr) × ℚ)) :
    0 < freshFlows kind now seen observed ↔ ∃ before o after, observed = before ++ o :: after ∧ o.kind = kind ∧
      seen.lookup o.key = none ∧ o.key ∉ before.map Observed.key := by
  simp only [← Option.isNone_iff_eq_none, lookup_isNone_iff]
  induction observed generalizing seen with
  | nil => simp [freshFlows]
  | cons o observed ih =>
    rw [freshFlows, Nat.add_pos_iff_pos_or_pos, ih]
    constructor
    · rintro (hpos | ⟨before, o', after, rfl, hkind, hseen, hbefore⟩)
      · split at hpos
        · next hnew => exact ⟨[], o, observed, rfl, hnew.2, lookup_isNone_iff.mp hnew.1, List.not_mem_nil⟩
        · exact absurd hpos (lt_irrefl 0)
      · rw [mem_keys_seen, not_or] at hseen
        refine ⟨o :: before, o', after, rfl, hkind, hseen.1, ?_⟩
        rw [List.map_cons, List.mem_cons, not_or]
        exact ⟨hseen.2, hbefore⟩
    · rintro ⟨before, o', after, hsplit, hkind, hseen, hbefore⟩
      cases before with
      | nil =>
        obtain ⟨rfl, rfl⟩ := List.cons.inj hsplit
        rw [if_pos ⟨lookup_isNone_iff.mpr hseen, hkind⟩]
        exact .inl Nat.one_pos
      | cons d before =>
        obtain ⟨rfl, rfl⟩ := List.cons.inj hsplit
        rw [List.map_cons, List.mem_cons, not_or] at hbefore
        refine .inr ⟨before, o', after, rfl, hkind, ?_, hbefore.2⟩
        rw [mem_keys_seen, not_or]
        exact ⟨hseen, hbefore.1⟩

end Sample

/-! ## What an operation does -/

section Operation

variable {kind : Kind}

omit [IpAddress] in
theorem forget_events (w : EgressWatch) (now : ℚ) (kind : Kind) : (w.forget now).events kind = w.events kind := by
  rw [EgressWatch.forget]
  split_ifs
  · cases kind <;> rfl
  · rfl

omit [IpAddress] in
theorem begun_events (w : EgressWatch) (now : ℚ) (kind : Kind) : (w.begun now).events kind = w.events kind := by
  cases kind <;> rfl

omit [IpAddress] in
theorem commit_events {w : EgressWatch} {now : ℚ} {observed : List Observed} (h : w.pending = some (now, observed)) :
    w.commit.events kind = (observed.foldl (EgressWatch.count now) (w.begun now)).events kind := by
  rw [EgressWatch.commit, h]
  have hlive (v : EgressWatch) (live : List Live) : ({ v with live }).events kind = v.events kind := by
    cases kind <;> rfl
  have herror (v : EgressWatch) (error : PyStr) : ({ v with error }).events kind = v.events kind := by
    cases kind <;> rfl
  rw [herror, forget_events, hlive]
  rfl

/-- What the events of a kind and its counter are as they stay. -/
def Watched.Kept (kind : Kind) (s : Watched) : Prop :=
  ((s.watch.events kind).map Prod.fst).Nodup ∧ listed (s.watch.events kind) ≤ s.watch.flows kind ∧
    (s.refused = 0 → listed (s.watch.events kind) = s.watch.flows kind)

/-- What neither counts nor resets leaves the events, the counters and what is remembered. -/
theorem step_quiet (w : EgressWatch) {op : Op} (hcommit : op ≠ .commit) (hreset : ∀ now, op ≠ .reset now) :
    (∀ kind, (w.step op).events kind = w.events kind) ∧ (w.step op).flows = w.flows ∧ (w.step op).seen = w.seen := by
  cases op with
  | commit => exact absurd rfl hcommit
  | reset now => exact absurd rfl (hreset now)
  | start =>
    simp only [EgressWatch.step]
    split_ifs
    · exact ⟨fun _ ↦ rfl, rfl, rfl⟩
    · exact ⟨fun kind ↦ by cases kind <;> rfl, rfl, rfl⟩
  | exit =>
    simp only [EgressWatch.step]
    split_ifs
    · exact ⟨fun kind ↦ by cases kind <;> rfl, rfl, rfl⟩
    · exact ⟨fun _ ↦ rfl, rfl, rfl⟩
  | stop | setEndpoints | refresh | observe | fail | openCanary =>
    exact ⟨fun kind ↦ by cases kind <;> rfl, rfl, rfl⟩

theorem kept_step (hkind : kind.Listed) {s : Watched} (h : s.Kept kind) (op : Op) : (s.step kind op).Kept kind := by
  by_cases hcommit : op = .commit
  · subst hcommit
    obtain ⟨hnodup, hle, hall⟩ := h
    rcases hpending : s.watch.pending with - | ⟨now, observed⟩
    · have hsame : s.watch.commit = s.watch := by rw [EgressWatch.commit, hpending]
      have hnone : s.watch.refusedBy kind = 0 := by rw [EgressWatch.refusedBy, hpending]; rfl
      have hstep : s.step kind .commit = s := by
        unfold Watched.step EgressWatch.step
        simp only [hsame, hnone, Nat.add_zero]
      rw [hstep]
      exact ⟨hnodup, hle, hall⟩
    · have hrefused : s.watch.refusedBy kind = refusals kind now (s.watch.begun now) observed := by
        rw [EgressWatch.refusedBy, hpending]
        rfl
      have hflows : s.watch.commit.flows kind =
          (observed.foldl (EgressWatch.count now) (s.watch.begun now)).flows kind := by
        rw [EgressWatch.commit, hpending]
        simp only [forget_flows]
        rfl
      have hfold := @foldl_count_events kind now hkind observed (s.watch.begun now) (by rwa [begun_events]) s.refused
        (by rwa [begun_events]) (by rwa [begun_events])
      unfold Watched.Kept Watched.step EgressWatch.step
      simp only
      rw [commit_events hpending, hflows, hrefused]
      exact hfold
  · by_cases hreset : ∃ now, op = .reset now
    · obtain ⟨now, rfl⟩ := hreset
      have hevents : (s.watch.step (.reset now)).events kind = [] := by
        cases kind <;> rfl
      unfold Watched.Kept Watched.step
      simp only [hevents]
      exact ⟨List.nodup_nil, Nat.zero_le _, fun _ ↦ rfl⟩
    · obtain ⟨hevents, hflows, -⟩ := step_quiet s.watch hcommit fun now heq ↦ hreset ⟨now, heq⟩
      have hrefused : (s.step kind op).refused = s.refused := by
        cases op with
        | commit => exact absurd rfl hcommit
        | reset now => exact absurd ⟨now, rfl⟩ hreset
        | _ => rfl
      unfold Watched.Kept
      rw [hrefused]
      unfold Watched.step
      simp only [hevents, hflows]
      exact h

/-- A step keeps a counter behind the events exactly where it is careful. -/
theorem counted_step (hkind : kind.Listed) {w : EgressWatch} (h : w.events kind ≠ [] → 0 < w.flows kind) (op : Op) :
    ((w.step op).events kind ≠ [] → 0 < (w.step op).flows kind) ↔ w.Careful kind op := by
  by_cases hcommit : op = .commit
  · subst hcommit
    rcases hpending : w.pending with - | ⟨now, observed⟩
    · have hsame : w.step .commit = w := by
        rw [EgressWatch.step, EgressWatch.commit, hpending]
      rw [hsame]
      refine iff_of_true h fun now observed hsome ↦ ?_
      rw [hpending] at hsome
      cases hsome
    · have hflows : w.commit.flows kind = w.flows kind + freshFlows kind now w.seen observed := by
        rw [commit_flows, EgressWatch.newly, hpending]
        rfl
      have hnil : w.commit.events kind ≠ [] ↔ w.events kind ≠ [] ∨ ∃ o ∈ observed, o.kind = kind := by
        rw [commit_events hpending, foldl_count_events_ne_nil hkind, begun_events]
      rw [EgressWatch.step, hnil, hflows]
      unfold EgressWatch.Careful
      rw [hpending]
      constructor
      · rintro hpos now' observed' ⟨⟩ hseen hzero
        have hfresh := hpos (.inr hseen)
        rw [hzero, Nat.zero_add, freshFlows_pos] at hfresh
        exact hfresh
      · intro hcareful hor
        rcases Nat.eq_zero_or_pos (w.flows kind) with hzero | hpos
        · rw [hzero, Nat.zero_add, freshFlows_pos]
          refine hcareful now observed rfl (hor.resolve_left fun hne ↦ ?_) hzero
          exact absurd (h hne) (by omega)
        · omega
  · by_cases hreset : ∃ now, op = .reset now
    · obtain ⟨now, rfl⟩ := hreset
      refine iff_of_true (fun hne ↦ absurd ?_ hne) trivial
      cases kind <;> rfl
    · obtain ⟨hevents, hflows, -⟩ := step_quiet w hcommit fun now heq ↦ hreset ⟨now, heq⟩
      rw [hevents, hflows]
      refine iff_of_true h ?_
      cases op with
      | commit => exact absurd rfl hcommit
      | _ => trivial

end Operation

/-! ## Connections in samples -/

section Samples

variable {now : ℚ}

omit [IpAddress] in
theorem countedAnew_of_seen {key : ℕ × PyStr × PyStr} {seen : List ((ℕ × PyStr × PyStr) × ℚ)}
    (h : key ∈ seen.map Prod.fst) (observed : List Observed) : countedAnew key now seen observed = 0 := by
  induction observed generalizing seen with
  | nil => rfl
  | cons o observed ih =>
    rw [countedAnew, ih (mem_keys_seen.mpr (.inl h)), if_neg]
    rintro ⟨hnone, rfl⟩
    exact lookup_isNone_iff.mp hnone h

omit [IpAddress] in
theorem countedAnew_le_one (key : ℕ × PyStr × PyStr) (seen : List ((ℕ × PyStr × PyStr) × ℚ)) (observed : List Observed) :
    countedAnew key now seen observed ≤ 1 := by
  induction observed generalizing seen with
  | nil => exact Nat.zero_le 1
  | cons o observed ih =>
    rw [countedAnew]
    split
    · next hnew => rw [countedAnew_of_seen (mem_keys_seen.mpr (.inr hnew.2.symm))]
    · rw [Nat.zero_add]
      exact ih _

omit [IpAddress] in
/-- What a sample sees is remembered with its time. -/
theorem mem_seen_foldl_count {o : Observed} {observed : List Observed} (ho : o ∈ observed) (w : EgressWatch) :
    (o.key, now) ∈ (observed.foldl (EgressWatch.count now) w).seen := by
  have hstay (observed : List Observed) {w : EgressWatch} (hmem : (o.key, now) ∈ w.seen) :
      (o.key, now) ∈ (observed.foldl (EgressWatch.count now) w).seen := by
    induction observed generalizing w with
    | nil => exact hmem
    | cons d observed ih => exact ih (mem_assign_of_mem hmem d.key)
  induction observed generalizing w with
  | nil => cases ho
  | cons d observed ih =>
    rcases List.mem_cons.mp ho with rfl | ho
    · exact hstay observed (mem_assign_self w.seen o.key now)
    · exact ih ho _

omit [IpAddress] in
theorem mem_seen_forget {w : EgressWatch} {live : List Live} {k : ℕ × PyStr × PyStr} (h : (k, now) ∈ w.seen) :
    (k, now) ∈ (EgressWatch.forget { w with live } now).seen := by
  unfold EgressWatch.forget
  split_ifs
  · exact List.mem_filter.mpr ⟨h, decide_eq_true (sub_le_self now (by decide))⟩
  · exact h

theorem countsOnce (w : EgressWatch) (ops : List Op) : w.CountsOnce ops := by
  intro before between after _ hquiet now observed hpending o ho
  have hlater : o.key ∈ (w.run (before ++ .commit :: between)).seen.map Prod.fst := by
    have hcommit : o.key ∈ ((w.run before).step .commit).seen.map Prod.fst := by
      have hmem : (o.key, now) ∈ _ := mem_seen_foldl_count ho ((w.run before).begun now)
      refine List.mem_map.mpr ⟨(o.key, now), ?_, rfl⟩
      rw [EgressWatch.step, EgressWatch.commit, hpending]
      exact mem_seen_forget hmem
    have hrun : ∀ (between : List Op) (v : EgressWatch), (∀ op ∈ between, op ≠ .commit ∧ ∀ now, op ≠ .reset now) →
        (v.run between).seen = v.seen := by
      intro between
      induction between with
      | nil => exact fun v _ ↦ rfl
      | cons op between ih =>
        intro v hquiet
        obtain ⟨hcommit, hreset⟩ := hquiet op List.mem_cons_self
        have hstep := (step_quiet v hcommit hreset).2.2
        exact (ih (v.step op) fun op' hop' ↦ hquiet op' (List.mem_cons_of_mem op hop')).trans hstep
    have hsplit : w.run (before ++ .commit :: between) = ((w.run before).step .commit).run between := by
      unfold EgressWatch.run
      rw [List.foldl_append, List.foldl_cons]
    rw [hsplit, hrun between _ hquiet]
    exact hcommit
  have hnone : (w.run (before ++ .commit :: between)).anew o.key = 0 := by
    unfold EgressWatch.anew
    cases (w.run (before ++ .commit :: between)).pending with
    | none => rfl
    | some p => exact countedAnew_of_seen hlater p.2
  rw [hnone, EgressWatch.anew, hpending]
  exact countedAnew_le_one o.key _ observed

end Samples

/-! ## Runs -/

theorem run_watch (kind : Kind) (s : Watched) (ops : List Op) : (s.run kind ops).watch = s.watch.run ops := by
  induction ops generalizing s with
  | nil => rfl
  | cons op ops ih => exact ih (s.step kind op)

/-- Events and counters agree all along a run exactly where its samples are careful. -/
theorem events_agree_iff (now : ℚ) (ops : List Op) :
    ((∀ before, before <+: ops → ∀ kind : Kind, kind.Listed →
        (Watched.run kind ⟨EgressWatch.init now, 0⟩ before).Agrees kind) ∧ (EgressWatch.init now).CountsOnce ops) ↔
      ∀ before op, before ++ [op] <+: ops → ∀ kind : Kind, kind.Listed →
        ((EgressWatch.init now).run before).Careful kind op := by
  have hsnoc (kind : Kind) (before : List Op) (op : Op) : Watched.run kind ⟨EgressWatch.init now, 0⟩ (before ++ [op]) =
      (Watched.run kind ⟨EgressWatch.init now, 0⟩ before).step kind op := by
    unfold Watched.run
    rw [List.foldl_append]
    rfl
  constructor
  · rintro ⟨hagrees, -⟩ before op hprefix kind hkind
    have hbefore := (hagrees before ((List.prefix_append before [op]).trans hprefix) kind hkind).counted
    have hafter := (hagrees (before ++ [op]) hprefix kind hkind).counted
    rw [hsnoc] at hafter
    rw [← run_watch kind ⟨EgressWatch.init now, 0⟩]
    exact (counted_step hkind hbefore op).mp hafter
  · refine fun hcareful ↦ ⟨fun before hprefix kind hkind ↦ ?_, countsOnce _ ops⟩
    suffices h : (Watched.run kind ⟨EgressWatch.init now, 0⟩ before).Kept kind ∧
        ((Watched.run kind ⟨EgressWatch.init now, 0⟩ before).watch.events kind ≠ [] →
          0 < (Watched.run kind ⟨EgressWatch.init now, 0⟩ before).watch.flows kind) from
      ⟨h.1.2.2, h.1.2.1, h.2⟩
    induction before using List.reverseRecOn with
    | nil =>
      have hevents : (EgressWatch.init now).events kind = [] := by cases kind <;> rfl
      refine ⟨?_, fun hne ↦ absurd hevents hne⟩
      unfold Watched.Kept Watched.run
      simp only [List.foldl_nil, hevents]
      exact ⟨List.nodup_nil, Nat.zero_le _, fun _ ↦ rfl⟩
    | append_singleton before op ih =>
      obtain ⟨hkept, hcounted⟩ := ih ((List.prefix_append before [op]).trans hprefix)
      rw [hsnoc]
      refine ⟨kept_step hkind hkept op, (counted_step hkind hcounted op).mpr ?_⟩
      rw [run_watch]
      exact hcareful before op hprefix kind hkind

/-- Addresses with one on the local network. -/
def lanAddresses : IpAddress where
  parse ip := if ip = py "192.168.1.50" then some (⟨false, false, true, false, false⟩, none) else none

/-- A connection of the backend to a model server on the local network. -/
def serverConn : Conn where
  laddr := some ⟨py "192.168.1.9", 50100⟩
  raddr := some ⟨py "192.168.1.50", 8000⟩
  status := py "ESTABLISHED"

/-- The server is taken out of the configuration while the backend is connected to it. -/
def droppedEndpoint : List Op := [
  .setEndpoints ∅ [⟨py "192.168.1.50", 8000⟩], .refresh [(7, ⟨py "python.exe", py "python.exe", .backend, [8080]⟩)] [] 1,
  .observe 1 [(7, serverConn)], .commit, .setEndpoints ∅ [], .observe 2 [(7, serverConn)], .commit]

omit [IpAddress] in
/-- The connection is listed as one to another host, and counted as none. -/
theorem droppedEndpoint_not_agrees :
    ¬ (@Watched.run lanAddresses .lanOut ⟨EgressWatch.init 0, 0⟩ droppedEndpoint).Agrees .lanOut := by
  intro h
  have hflows : (@Watched.run lanAddresses .lanOut ⟨EgressWatch.init 0, 0⟩ droppedEndpoint).watch.flows .lanOut = 0 := by
    decide
  have hevents : (@Watched.run lanAddresses .lanOut ⟨EgressWatch.init 0, 0⟩ droppedEndpoint).watch.events .lanOut ≠ [] := by
    decide
  exact absurd (h.counted hevents) (by rw [hflows]; exact lt_irrefl 0)

/-! ## Every window -/

/-- All flows of the window. -/
def EgressWatch.total (w : EgressWatch) : ℕ :=
  ([.here, .lanIn, .lanExpected, .lanOut, .external, .canary].map w.flows).sum

/-- What is remembered was counted, and the lists stay within their limits with one entry for each connection. -/
structure EgressWatch.InBounds (w : EgressWatch) : Prop where
  seen_nodup : (w.seen.map Prod.fst).Nodup
  seen_le : w.seen.length ≤ w.total
  events_nodup : ∀ kind, ((w.events kind).map Prod.fst).Nodup
  events_le : ∀ kind, (w.events kind).length ≤ eventLimit
  live_le : w.live.length ≤ liveLimit

omit [IpAddress] in
theorem length_assign {κ υ : Type*} [DecidableEq κ] (d : List (κ × υ)) (k : κ) (v : υ) :
    (assign d k v).length = d.length + if k ∈ d.map Prod.fst then 0 else 1 := by
  rw [← List.length_map Prod.fst, keys_assign]
  split
  · rw [List.length_map, Nat.add_zero]
  · rw [List.length_append, List.length_map, List.length_singleton]

omit [IpAddress] in
theorem length_note {events : List (EventKey × Event)} (h : events.length ≤ eventLimit) (o : Observed) (now : ℚ)
    (fresh : Bool) : (note events o now fresh).length ≤ eventLimit := by
  unfold note
  simp only
  split
  · next event hevent =>
    rw [length_assign, if_pos (List.mem_map.mpr ⟨_, mem_of_lookup hevent, rfl⟩)]
    exact h
  · split
    · exact h
    · next hroom =>
      rw [length_assign]
      split <;> omega

omit [IpAddress] in
/-- A turn of the count adds a connection to what is remembered as it adds one to the counters. -/
theorem inBounds_count {w : EgressWatch} (h : w.InBounds) (now : ℚ) (o : Observed) : (w.count now o).InBounds where
  seen_nodup := nodup_assign h.seen_nodup _ _
  seen_le := by
    have hle := h.seen_le
    unfold EgressWatch.total at hle ⊢
    have hseen : (w.count now o).seen.length = _ := length_assign w.seen o.key now
    by_cases hmem : o.key ∈ w.seen.map Prod.fst
    · have hnone : ¬ (w.seen.lookup o.key).isNone = true := fun hnone ↦ lookup_isNone_iff.mp hnone hmem
      rw [if_pos hmem] at hseen
      simp only [List.map_cons, List.map_nil, List.sum_cons, List.sum_nil, count_flows, hnone] at hle ⊢
      omega
    · have hnone : (w.seen.lookup o.key).isNone = true := lookup_isNone_iff.mpr hmem
      rw [if_neg hmem] at hseen
      simp only [List.map_cons, List.map_nil, List.sum_cons, List.sum_nil, count_flows, hnone, true_and] at hle ⊢
      cases o.kind <;> simp only [reduceCtorEq, if_false, if_true] <;> omega
  events_nodup := fun kind ↦ by
    have hnote := fun events ↦ @nodup_note now events
    cases kind with
    | external =>
      show ((if o.kind = .external then note w.external o now _ else w.external).map Prod.fst).Nodup
      split
      · exact hnote _ (h.events_nodup .external) o _
      · exact h.events_nodup .external
    | lanOut =>
      show ((if o.kind = .lanOut then note w.lanOut o now _ else w.lanOut).map Prod.fst).Nodup
      split
      · exact hnote _ (h.events_nodup .lanOut) o _
      · exact h.events_nodup .lanOut
    | _ => exact List.nodup_nil
  events_le := fun kind ↦ by
    cases kind with
    | external =>
      show (if o.kind = .external then note w.external o now _ else w.external).length ≤ _
      split
      · exact length_note (h.events_le .external) o now _
      · exact h.events_le .external
    | lanOut =>
      show (if o.kind = .lanOut then note w.lanOut o now _ else w.lanOut).length ≤ _
      split
      · exact length_note (h.events_le .lanOut) o now _
      · exact h.events_le .lanOut
    | _ => exact Nat.zero_le _
  live_le := h.live_le

omit [IpAddress] in
theorem inBounds_foldl_count (observed : List Observed) (now : ℚ) {w : EgressWatch} (h : w.InBounds) :
    (observed.foldl (EgressWatch.count now) w).InBounds := by
  induction observed generalizing w with
  | nil => exact h
  | cons o observed ih => exact ih (inBounds_count h now o)

omit [IpAddress] in
/-- What only looks different elsewhere is as it was. -/
theorem EgressWatch.InBounds.congr {w v : EgressWatch} (h : w.InBounds) (hseen : v.seen.Sublist w.seen) (hflows : v.flows = w.flows)
    (hevents : ∀ kind, v.events kind = w.events kind) (hlive : v.live.length ≤ liveLimit) : v.InBounds where
  seen_nodup := (hseen.map Prod.fst).nodup h.seen_nodup
  seen_le := by
    have hle := hseen.length_le.trans h.seen_le
    unfold EgressWatch.total at hle ⊢
    rwa [hflows]
  events_nodup := fun kind ↦ by rw [hevents]; exact h.events_nodup kind
  events_le := fun kind ↦ by rw [hevents]; exact h.events_le kind
  live_le := hlive

omit [IpAddress] in
theorem inBounds_commit {w : EgressWatch} (h : w.InBounds) : w.commit.InBounds := by
  rcases hpending : w.pending with - | ⟨now, observed⟩
  · rwa [EgressWatch.commit, hpending]
  · have hfold := inBounds_foldl_count observed now
      (h.congr (List.Sublist.refl _) rfl (begun_events w now) h.live_le : (w.begun now).InBounds)
    refine hfold.congr ?_ ?_ (fun kind ↦ commit_events hpending) ?_
    · rw [EgressWatch.commit, hpending]
      simp only [EgressWatch.forget]
      split_ifs
      · exact List.filter_sublist
      · exact List.Sublist.refl _
    · rw [EgressWatch.commit, hpending]
      simp only [forget_flows]
      rfl
    · have hlive : w.commit.live = (observed.take liveLimit).map Observed.alive := by
        rw [EgressWatch.commit, hpending]
        simp only [EgressWatch.forget]
        split_ifs <;> rfl
      rw [hlive, List.length_map, List.length_take]
      exact min_le_left _ _

theorem inBounds_step {w : EgressWatch} (h : w.InBounds) (op : Op) : (w.step op).InBounds := by
  by_cases hcommit : op = .commit
  · subst hcommit
    exact inBounds_commit h
  · by_cases hreset : ∃ now, op = .reset now
    · obtain ⟨now, rfl⟩ := hreset
      refine ⟨List.nodup_nil, Nat.zero_le _, fun kind ↦ ?_, fun kind ↦ ?_, Nat.zero_le _⟩
      · cases kind <;> exact List.nodup_nil
      · cases kind <;> exact Nat.zero_le _
    · obtain ⟨hevents, hflows, hseen⟩ := step_quiet w hcommit fun now heq ↦ hreset ⟨now, heq⟩
      have hlive : (w.step op).live = w.live := by
        cases op with
        | commit => exact absurd rfl hcommit
        | reset now => exact absurd ⟨now, rfl⟩ hreset
        | start => simp only [EgressWatch.step]; split_ifs <;> rfl
        | exit => simp only [EgressWatch.step]; split_ifs <;> rfl
        | _ => rfl
      refine h.congr ?_ hflows hevents ?_
      · rw [hseen]
      · rw [hlive]
        exact h.live_le

/-- Whatever happens to a watch, what it remembers was counted in its window and its lists stay within their limits. -/
theorem run_inBounds (now : ℚ) (ops : List Op) : ((EgressWatch.init now).run ops).InBounds := by
  have hrun (ops : List Op) {w : EgressWatch} (h : w.InBounds) : (w.run ops).InBounds := by
    induction ops generalizing w with
    | nil => exact h
    | cons op ops ih => exact ih (inBounds_step h op)
  refine hrun ops ⟨List.nodup_nil, Nat.zero_le _, fun kind ↦ ?_, fun kind ↦ ?_, Nat.zero_le _⟩
  · cases kind <;> exact List.nodup_nil
  · cases kind <;> exact Nat.zero_le _

end FourCE.Egress

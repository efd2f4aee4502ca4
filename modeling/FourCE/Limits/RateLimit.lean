import FourCE.Library.Keyed
import FourCE.Library.RegexTemplate
import FourCE.Python.JsonRoundTrip
import FourCE.Python.Text
import Mathlib.Algebra.BigOperators.Group.Finset.Basic
import Mathlib.Algebra.Order.Floor.Ring
import Mathlib.Data.Rat.Floor
import Mathlib.Tactic.Linarith

/-!
# The rate limiter

`utils/rate_limit.py`: the calls of a key are counted in buckets of time, in memory or in Redis.  A window of time is
taken as a whole number of buckets.  Times are what `time.time()` gives; the clock does not go back.
-/

namespace FourCE.Limits

open FourCE.Library FourCE.Python

/-- `RateLimiter`; a bucket size of 0 raises. -/
structure RateLimiter where
  limit : ℤ
  window : ℤ
  bucketSize : ℤ
  enabled : Bool
  redisKeyPrefix : PyStr

/-- The counts of a key's buckets. -/
abbrev Store := Keyed ℤ ℕ

/-- `_memory_store` -/
abbrev Memory := Keyed PyStr Store

/-- A count in Redis and when it expires. -/
structure Counter where
  count : ℕ
  expires : Option ℚ

abbrev Redis := Keyed PyStr Counter

/-! ## Redis -/

namespace Redis

variable (db : Redis) (now : ℚ)

/-- A key that is there and has not expired. -/
def live (key : PyStr) : Option Counter := (db.get? key).filter fun c ↦ c.expires.all (now < ·)

/-- INCR -/
def incr (key : PyStr) : Redis × ℕ :=
  match live db now key with
  | none => (db.set key ⟨1, none⟩, 1)
  | some c => (db.set key ⟨c.count + 1, c.expires⟩, c.count + 1)

/-- EXPIRE, which deletes the key where the time is not positive. -/
def expire (key : PyStr) (seconds : ℤ) : Redis :=
  match live db now key with
  | none => db
  | some c => if seconds ≤ 0 then db.filterKeys (· ≠ key) else db.set key ⟨c.count, some (now + seconds)⟩

/-- MGET, which fails where it is given no keys. -/
def mget (keys : List PyStr) : Option (List (Option ℕ)) :=
  if keys = [] then none else some (keys.map fun key ↦ (live db now key).map Counter.count)

end Redis

/-! ## The limiter -/

namespace RateLimiter

variable [Casing] (r : RateLimiter)

/-- `num_buckets` -/
def numBuckets : ℤ := r.window.fdiv r.bucketSize

/-- `_bucket_key` -/
def bucketKey (key : PyStr) (bucket_index : ℤ) : PyStr :=
  r.redisKeyPrefix ++ py ":ratelimit:" ++ Casing.lower key ++ py ":" ++ intText bucket_index

/-- `_current_bucket` -/
def currentBucket (now : ℚ) : ℤ := ⌊now⌋.fdiv r.bucketSize

/-- The buckets that a call looks at, the newest first. -/
def buckets (key : PyStr) (now_bucket : ℤ) : List PyStr :=
  (List.range (r.numBuckets + 1).toNat).map fun i : ℕ ↦ r.bucketKey key (now_bucket - i)

/-- What `_is_limited_redis` does, up to where it raises. -/
def isLimitedRedis (db : Redis) (now : ℚ) (key : PyStr) : Redis × Option Bool :=
  let now_bucket := r.currentBucket now
  let bucket_key := r.bucketKey key now_bucket
  let (db, attempts) := db.incr now bucket_key
  let db := if attempts = 1 then db.expire now bucket_key (r.window + r.bucketSize) else db
  (db, (db.mget now (r.buckets key now_bucket)).map fun counts ↦ r.limit < ((counts.map (·.getD 0)).sum : ℕ))

/-- The counts without the expired buckets. -/
def dropExpired (now_bucket : ℤ) (store : Store) : Store := store.filterKeys fun b ↦ ¬ b < now_bucket - r.numBuckets

/-- The sum of the counts. -/
def total (store : Store) : ℕ := (store.entries.map Prod.snd).sum

/-- The counts with one call more. -/
def count (now_bucket : ℤ) (store : Store) : Store :=
  r.dropExpired now_bucket (store.set now_bucket ((store.get? now_bucket).getD 0 + 1))

/-- `_is_limited_memory` -/
def isLimitedMemory (memory : Memory) (now : ℚ) (key : PyStr) : Memory × Bool :=
  let store := r.count (r.currentBucket now) ((memory.get? key).getD .empty)
  (memory.set key store, r.limit < (total store : ℤ))

/-- `is_limited`, with Redis where there is one. -/
def isLimited (s : Memory × Option Redis) (now : ℚ) (key : PyStr) : (Memory × Option Redis) × Bool :=
  if !r.enabled then (s, false)
  else
    match s.2 with
    | none =>
      let (memory, limited) := r.isLimitedMemory s.1 now key
      ((memory, none), limited)
    | some db =>
      match r.isLimitedRedis db now key with
      | (db, some limited) => ((s.1, some db), limited)
      | (db, none) =>
        let (memory, limited) := r.isLimitedMemory s.1 now key
        ((memory, some db), limited)

/-- `_get_count_redis`, up to where it raises. -/
def getCountRedis (db : Redis) (now : ℚ) (key : PyStr) : Option ℕ :=
  (db.mget now (r.buckets key (r.currentBucket now))).map fun counts ↦ (counts.map (·.getD 0)).sum

/-- `_get_count_memory` -/
def getCountMemory (memory : Memory) (now : ℚ) (key : PyStr) : Memory × ℕ :=
  match memory.get? key with
  | none => (memory, 0)
  | some store =>
    let store := r.dropExpired (r.currentBucket now) store
    (memory.set key store, total store)

/-- `get_count` -/
def getCount (s : Memory × Option Redis) (now : ℚ) (key : PyStr) : (Memory × Option Redis) × ℕ :=
  if !r.enabled then (s, 0)
  else
    match s.2.bind fun db ↦ r.getCountRedis db now key with
    | some used => (s, used)
    | none =>
      let (memory, used) := r.getCountMemory s.1 now key
      ((memory, s.2), used)

/-- `remaining` -/
def remaining (s : Memory × Option Redis) (now : ℚ) (key : PyStr) : ℤ :=
  max 0 (r.limit - (r.getCount s now key).2)

/-- The answers to calls, one after another. -/
def answers (s : Memory × Option Redis) : List (ℚ × PyStr) → List Bool
  | [] => []
  | (now, key) :: calls => (r.isLimited s now key).2 :: answers (r.isLimited s now key).1 calls

/-- What calls leave. -/
def after (s : Memory × Option Redis) (calls : List (ℚ × PyStr)) : Memory × Option Redis :=
  calls.foldl (fun s c ↦ (r.isLimited s c.1 c.2).1) s

end RateLimiter

/-! ## Buckets -/

namespace RateLimiter

variable {r : RateLimiter}

theorem le_currentBucket (hsize : 0 < r.bucketSize) {b : ℤ} {now : ℚ} :
    b ≤ r.currentBucket now ↔ (b : ℚ) * r.bucketSize ≤ now := by
  unfold currentBucket
  rw [Int.fdiv_eq_ediv_of_nonneg _ hsize.le, Int.le_ediv_iff_mul_le hsize, Int.le_floor]
  push_cast
  rfl

theorem currentBucket_lt (hsize : 0 < r.bucketSize) {b : ℤ} {now : ℚ} :
    r.currentBucket now < b ↔ now < b * r.bucketSize := by
  rw [← not_le, le_currentBucket hsize, not_le]

theorem currentBucket_mono (hsize : 0 < r.bucketSize) {now later : ℚ} (h : now ≤ later) :
    r.currentBucket now ≤ r.currentBucket later :=
  (le_currentBucket hsize).mpr (((le_currentBucket hsize).mp le_rfl).trans h)

theorem numBuckets_mul_le (hsize : 0 < r.bucketSize) : r.numBuckets * r.bucketSize ≤ r.window := by
  unfold numBuckets
  rw [Int.fdiv_eq_ediv_of_nonneg _ hsize.le]
  exact Int.ediv_mul_le r.window hsize.ne'

theorem lt_numBuckets_mul (hsize : 0 < r.bucketSize) : r.window < (r.numBuckets + 1) * r.bucketSize := by
  unfold numBuckets
  rw [Int.fdiv_eq_ediv_of_nonneg _ hsize.le]
  exact Int.lt_ediv_add_one_mul_self r.window hsize

/-! ## Rolling counts -/

/-- The calls so far of a key, as some function of the keys sees it, in the buckets that a call looks at. -/
def recent (r : RateLimiter) (f : PyStr → PyStr) (calls : List (ℚ × PyStr)) (now : ℚ) (key : PyStr) : ℕ :=
  calls.countP fun c ↦ f c.2 = f key ∧ r.currentBucket now - r.numBuckets ≤ r.currentBucket c.1

/-- The answers to calls after others, where each is limited that has too many recent calls, itself among them. -/
def rolling (r : RateLimiter) (f : PyStr → PyStr) (past : List (ℚ × PyStr)) : List (ℚ × PyStr) → List Bool
  | [] => []
  | c :: calls => (r.limit < (r.recent f (past ++ [c]) c.1 c.2 : ℤ)) :: rolling r f (past ++ [c]) calls

/-- The clock does not go back. -/
def Ordered (calls : List (ℚ × PyStr)) : Prop := (calls.map Prod.fst).Pairwise (· ≤ ·)

/-! ## In memory -/

theorem total_eq_length {store : Store} {bs : List ℤ} (h : ∀ b, (store.get? b).getD 0 = bs.count b) :
    total store = bs.length := by
  have hvalues : store.entries.map Prod.snd = store.keys.map fun b ↦ bs.count b := by
    unfold Keyed.keys
    rw [List.map_map]
    refine List.map_congr_left fun e he ↦ ?_
    have hget := Keyed.get?_eq_some_iff.mpr he
    rw [Function.comp_apply, ← h, hget, Option.getD_some]
  have hmem : ∀ b ∈ (bs : Multiset ℤ), b ∈ store.keys.toFinset := by
    intro b hb
    rw [List.mem_toFinset, Keyed.mem_keys]
    rcases hget : store.get? b with - | v
    · have hzero := h b
      rw [hget, Option.getD_none] at hzero
      exact absurd (List.count_pos_iff.mpr hb) (by omega)
    · exact ⟨v, rfl⟩
  unfold total
  rw [hvalues, ← List.sum_toFinset _ store.keys_nodup]
  calc
    ∑ b ∈ store.keys.toFinset, bs.count b = ∑ b ∈ store.keys.toFinset, (bs : Multiset ℤ).count b := by
      simp only [Multiset.coe_count]
    _ = bs.length := by rw [Multiset.sum_count_eq_card hmem, Multiset.coe_card]

/-- The sum of the counts that are not dropped is the recent calls. -/
theorem total_eq_recent {store : Store} {past : List (ℚ × PyStr)} {now : ℚ} {key : PyStr}
    (h : ∀ b, (store.get? b).getD 0 = if r.currentBucket now - r.numBuckets ≤ b then
      past.countP fun c ↦ c.2 = key ∧ r.currentBucket c.1 = b else 0) : total store = r.recent id past now key := by
  unfold recent
  rw [List.countP_eq_length_filter, ← List.length_map fun c : ℚ × PyStr ↦ r.currentBucket c.1]
  refine total_eq_length fun b ↦ ?_
  rw [h, List.count_eq_countP, List.countP_map, List.countP_filter]
  split
  · next hb =>
    refine List.countP_congr fun c _ ↦ ?_
    simp only [Function.comp_apply, beq_iff_eq, decide_eq_true_eq, id_eq, Bool.and_eq_true]
    constructor
    · rintro ⟨hkey, rfl⟩
      exact ⟨rfl, hkey, hb⟩
    · rintro ⟨hbucket, hkey, -⟩
      exact ⟨hkey, hbucket⟩
  · next hb =>
    refine (List.countP_eq_zero.mpr fun c _ ↦ ?_).symm
    simp only [Function.comp_apply, beq_iff_eq, decide_eq_true_eq, id_eq, Bool.and_eq_true, not_and]
    rintro rfl _
    exact hb

/-- The stores hold the counts of the buckets that have not expired at a time. -/
def Counts (r : RateLimiter) (memory : Memory) (at? : ℚ) (past : List (ℚ × PyStr)) : Prop :=
  ∀ key b, r.currentBucket at? - r.numBuckets ≤ b →
    (((memory.get? key).getD .empty).get? b).getD 0 = past.countP fun c ↦ c.2 = key ∧ r.currentBucket c.1 = b

theorem recent_append (r : RateLimiter) (f : PyStr → PyStr) (past : List (ℚ × PyStr)) (now : ℚ) (key : PyStr) :
    r.recent f (past ++ [(now, key)]) now key = r.recent f past now key + if 0 ≤ r.numBuckets then 1 else 0 := by
  unfold recent
  rw [List.countP_append, List.countP_singleton]
  congr 1
  simp only [decide_eq_true_eq, true_and]
  refine if_congr ?_ rfl rfl
  omega

/-- A call counts the recent calls of its key. -/
theorem counts_isLimitedMemory {memory : Memory} {at? : ℚ} {past : List (ℚ × PyStr)} (h : Counts r memory at? past)
    {now : ℚ} (hnow : r.currentBucket at? ≤ r.currentBucket now) (key : PyStr) :
    Counts r (r.isLimitedMemory memory now key).1 now (past ++ [(now, key)]) ∧
      (r.isLimitedMemory memory now key).2 = decide (r.limit < (r.recent id (past ++ [(now, key)]) now key : ℤ)) := by
  have hold (k : PyStr) (b : ℤ) (hb : r.currentBucket now - r.numBuckets ≤ b) :
      (((memory.get? k).getD .empty).get? b).getD 0 = past.countP fun c ↦ c.2 = k ∧ r.currentBucket c.1 = b :=
    h k b (le_trans (Int.sub_le_sub_right hnow _) hb)
  have hstore (b : ℤ) : ((r.count (r.currentBucket now) ((memory.get? key).getD .empty)).get? b).getD 0 =
      if r.currentBucket now - r.numBuckets ≤ b then
        (past ++ [(now, key)]).countP fun c ↦ c.2 = key ∧ r.currentBucket c.1 = b
      else 0 := by
    unfold count dropExpired
    rw [Keyed.get?_filterKeys]
    by_cases hb : r.currentBucket now - r.numBuckets ≤ b
    · rw [if_pos (by simpa using hb), if_pos hb, Keyed.get?_set, List.countP_append, List.countP_singleton]
      by_cases heq : b = r.currentBucket now
      · subst heq
        simp [hold key _ hb]
      · simp [heq, Ne.symm heq, hold key b hb]
    · rw [if_neg (by simpa using hb), if_neg hb, Option.getD_none]
  constructor
  · intro k b hb
    unfold isLimitedMemory
    simp only
    rw [Keyed.get?_set]
    by_cases hk : k = key
    · subst hk
      rw [if_pos rfl, Option.getD_some, hstore, if_pos hb]
    · rw [if_neg hk, hold k b hb, List.countP_append, List.countP_singleton]
      simp [Ne.symm hk]
  · have htotal : total (r.count (r.currentBucket now) ((memory.get? key).getD .empty)) =
        r.recent id (past ++ [(now, key)]) now key := total_eq_recent hstore
    unfold isLimitedMemory
    simp only
    rw [htotal]

theorem isLimited_memory [Casing] (henabled : r.enabled = true) (memory : Memory) (now : ℚ) (key : PyStr) :
    r.isLimited (memory, none) now key =
      (((r.isLimitedMemory memory now key).1, none), (r.isLimitedMemory memory now key).2) := by
  unfold isLimited
  rw [henabled]
  rfl

/-- The answers in memory roll over the calls of the same key, as long as the buckets do not go back. -/
theorem answers_memory [Casing] (henabled : r.enabled = true) {memory : Memory} {at? : ℚ}
    {past calls : List (ℚ × PyStr)} (h : Counts r memory at? past)
    (hordered : (calls.map fun c ↦ r.currentBucket c.1).Pairwise (· ≤ ·))
    (hat : ∀ c ∈ calls, r.currentBucket at? ≤ r.currentBucket c.1) :
    r.answers (memory, none) calls = r.rolling id past calls := by
  induction calls generalizing memory at? past with
  | nil => rfl
  | cons c calls ih =>
    obtain ⟨now, key⟩ := c
    obtain ⟨hlater, hordered⟩ := List.pairwise_cons.mp hordered
    obtain ⟨hcounts, hanswer⟩ := counts_isLimitedMemory h (hat _ List.mem_cons_self) key
    rw [answers, isLimited_memory henabled, rolling]
    simp only
    rw [hanswer, ih hcounts hordered fun c hc ↦ hlater _ (List.mem_map_of_mem hc)]

theorem counts_empty (r : RateLimiter) (at? : ℚ) : Counts r .empty at? [] := fun _ _ _ ↦ rfl

/-! ## In Redis -/

/-- The key of a bucket, for a key in lower case. -/
def slot (r : RateLimiter) (lowered : PyStr) (b : ℤ) : PyStr :=
  r.redisKeyPrefix ++ py ":ratelimit:" ++ lowered ++ py ":" ++ intText b

theorem mem_intText {i : ℤ} {c : CodePoint} (h : c ∈ intText i) : c ≠ 58 := by
  have hdigit {n : ℕ} (hc : c ∈ natText n) : c ≠ 58 := by
    obtain ⟨d, -, rfl⟩ := List.mem_map.mp hc
    intro heq
    have hval : 48 + d.val = 58 := congrArg Fin.val heq
    omega
  unfold intText at h
  split at h
  · rcases List.mem_append.mp h with hminus | hc
    · rw [List.mem_singleton.mp hminus]
      decide
    · exact hdigit hc
  · exact hdigit h

theorem intText_injective : Function.Injective intText := by
  have hnat {m n : ℕ} (h : natText m = natText n) : m = n := by
    have hread (k : ℕ) : takeNat (natText k ++ []) = some (k, []) := takeNat_natText k nofun
    have hm := hread m
    rw [h, hread n] at hm
    exact (congrArg Prod.fst (Option.some.inj hm)).symm
  have hsign {m n : ℕ} : py "-" ++ natText m ≠ natText n := by
    obtain ⟨d, s, hd⟩ := natText_head n
    rw [hd]
    intro h
    have hval : 45 = 48 + d.val := congrArg Fin.val (List.cons.inj h).1
    omega
  intro i j h
  unfold intText at h
  split at h <;> split at h
  · have habs := hnat (List.append_cancel_left h)
    omega
  · exact absurd h hsign
  · exact absurd h.symm hsign
  · have habs := hnat h
    omega

theorem slot_injective {a b : PyStr} {i j : ℤ} (h : r.slot a i = r.slot b j) : a = b ∧ i = j := by
  unfold slot at h
  simp only [List.append_assoc] at h
  have htail := List.append_cancel_left (List.append_cancel_left h)
  have hback := congrArg List.reverse htail
  simp only [List.reverse_append, List.append_assoc] at hback
  obtain ⟨htext, hrest⟩ := Regex.append_inj_of_class (c := fun c : CodePoint ↦ decide (c ≠ 58)) hback
    (fun c hc ↦ decide_eq_true (mem_intText (List.mem_reverse.mp hc)))
    (fun c hc ↦ decide_eq_true (mem_intText (List.mem_reverse.mp hc)))
    (fun c hc ↦ by cases hc; rfl) (fun c hc ↦ by cases hc; rfl)
  exact ⟨List.reverse_injective (List.append_cancel_left hrest), intText_injective (List.reverse_injective htext)⟩

/-- The calls so far in a bucket, of the keys with one lower case. -/
def inSlot [Casing] (r : RateLimiter) (past : List (ℚ × PyStr)) (lowered : PyStr) (b : ℤ) : ℕ :=
  past.countP fun c ↦ Casing.lower c.2 = lowered ∧ r.currentBucket c.1 = b

/-- Each count in Redis is that of its bucket, and stays as long as its bucket is looked at. -/
def Kept [Casing] (r : RateLimiter) (db : Redis) (past : List (ℚ × PyStr)) : Prop :=
  ∀ lowered b, (r.inSlot past lowered b = 0 → db.get? (r.slot lowered b) = none) ∧
    (0 < r.inSlot past lowered b → ∃ expires, db.get? (r.slot lowered b) = some ⟨r.inSlot past lowered b, some expires⟩ ∧
      ((b + r.numBuckets + 1 : ℤ) : ℚ) * r.bucketSize ≤ expires)

theorem kept_empty [Casing] (r : RateLimiter) : r.Kept .empty [] := fun _ _ ↦ ⟨fun _ ↦ rfl, fun h ↦ absurd h (by simp [inSlot])⟩

section Redis

variable [Casing] {db : Redis} {past : List (ℚ × PyStr)}

/-- What is read of a bucket that is looked at. -/
theorem live_of_kept (hsize : 0 < r.bucketSize) (h : r.Kept db past) {now : ℚ} {b : ℤ}
    (hb : r.currentBucket now ≤ b + r.numBuckets) (lowered : PyStr) :
    ((db.live now (r.slot lowered b)).map Counter.count).getD 0 = r.inSlot past lowered b := by
  unfold Redis.live
  rcases Nat.eq_zero_or_pos (r.inSlot past lowered b) with hzero | hpos
  · rw [(h lowered b).1 hzero, hzero]
    rfl
  · obtain ⟨expires, hget, hexpires⟩ := (h lowered b).2 hpos
    have hnow : now < expires := by
      refine lt_of_lt_of_le ?_ hexpires
      exact (currentBucket_lt hsize).mp (by omega)
    rw [hget, Option.filter_some, if_pos (by simpa using hnow)]
    rfl

theorem inSlot_append (r : RateLimiter) (past : List (ℚ × PyStr)) (now : ℚ) (key lowered : PyStr) (b : ℤ) :
    r.inSlot (past ++ [(now, key)]) lowered b =
      r.inSlot past lowered b + if Casing.lower key = lowered ∧ r.currentBucket now = b then 1 else 0 := by
  unfold inSlot
  rw [List.countP_append, List.countP_singleton]
  simp only [decide_eq_true_eq]

/-- What INCR and EXPIRE leave. -/
theorem kept_call (hsize : 0 < r.bucketSize) (hn : 0 ≤ r.numBuckets) (h : r.Kept db past) (now : ℚ) (key : PyStr) :
    r.Kept (r.isLimitedRedis db now key).1 (past ++ [(now, key)]) := by
  set nb := r.currentBucket now with hnb
  have hstart : (nb : ℚ) * r.bucketSize ≤ now := (le_currentBucket hsize).mp le_rfl
  have hwindow : 0 < r.window + r.bucketSize := by
    have := numBuckets_mul_le hsize
    have := mul_nonneg hn hsize.le
    omega
  have hstay : ((nb + r.numBuckets + 1 : ℤ) : ℚ) * r.bucketSize ≤ now + ((r.window + r.bucketSize : ℤ) : ℚ) := by
    have hmul : (r.numBuckets : ℚ) * r.bucketSize ≤ r.window := by exact_mod_cast numBuckets_mul_le hsize
    push_cast
    linarith
  -- the bucket of the call, as it is after it
  have hput : ∃ expires, (∀ k, (r.isLimitedRedis db now key).1.get? k =
      if k = r.slot (Casing.lower key) nb then some ⟨r.inSlot past (Casing.lower key) nb + 1, some expires⟩
      else db.get? k) ∧ ((nb + r.numBuckets + 1 : ℤ) : ℚ) * r.bucketSize ≤ expires := by
    have hkey : r.bucketKey key nb = r.slot (Casing.lower key) nb := rfl
    unfold isLimitedRedis
    simp only [← hnb, hkey]
    rcases Nat.eq_zero_or_pos (r.inSlot past (Casing.lower key) nb) with hzero | hpos
    · refine ⟨now + ((r.window + r.bucketSize : ℤ) : ℚ), ?_, hstay⟩
      have hlive : db.live now (r.slot (Casing.lower key) nb) = none := by
        unfold Redis.live
        rw [(h _ _).1 hzero]
        rfl
      have hnew : Redis.live (db.set (r.slot (Casing.lower key) nb) ⟨1, none⟩) now (r.slot (Casing.lower key) nb) =
          some ⟨1, none⟩ := by
        unfold Redis.live
        rw [Keyed.get?_set, if_pos rfl]
        rfl
      unfold Redis.incr Redis.expire
      rw [hlive, hzero]
      simp only [if_true, hnew, if_neg hwindow.not_ge]
      intro k
      rw [Keyed.get?_set, Keyed.get?_set]
      split <;> rfl
    · obtain ⟨expires, hget, hexpires⟩ := (h _ _).2 hpos
      refine ⟨expires, ?_, hexpires⟩
      have hlive : db.live now (r.slot (Casing.lower key) nb) =
          some ⟨r.inSlot past (Casing.lower key) nb, some expires⟩ := by
        unfold Redis.live
        rw [hget, Option.filter_some, if_pos]
        have hnow : now < expires := lt_of_lt_of_le ((currentBucket_lt hsize).mp (by omega)) hexpires
        simpa using hnow
      unfold Redis.incr
      rw [hlive]
      simp only [Nat.add_eq_right, hpos.ne', if_false]
      exact fun k ↦ Keyed.get?_set ..
  obtain ⟨expires, hafter, hexpires⟩ := hput
  intro lowered b
  rw [hafter, inSlot_append]
  by_cases heq : Casing.lower key = lowered ∧ nb = b
  · obtain ⟨rfl, rfl⟩ := heq
    rw [if_pos rfl, if_pos ⟨rfl, hnb.symm⟩]
    exact ⟨fun hzero ↦ absurd hzero (Nat.succ_ne_zero _), fun _ ↦ ⟨expires, rfl, hexpires⟩⟩
  · rw [if_neg heq, if_neg fun hslot ↦ heq ?_, Nat.add_zero]
    · exact h lowered b
    · obtain ⟨hlowered, hb⟩ := slot_injective hslot
      exact ⟨hlowered.symm, hb.symm⟩

/-- The counts of a row of buckets are the calls in the row. -/
theorem sum_inSlot (r : RateLimiter) (past : List (ℚ × PyStr)) (lowered : PyStr) (nb : ℤ) (k : ℕ) :
    ((List.range k).map fun i : ℕ ↦ r.inSlot past lowered (nb - i)).sum =
      past.countP fun c ↦ Casing.lower c.2 = lowered ∧ nb - k < r.currentBucket c.1 ∧ r.currentBucket c.1 ≤ nb := by
  induction k with
  | zero =>
    refine (List.countP_eq_zero.mpr fun c _ ↦ ?_).symm
    simp only [decide_eq_true_eq]
    omega
  | succ k ih =>
    rw [List.range_succ, List.map_append, List.sum_append, ih]
    unfold inSlot
    rw [List.map_singleton, List.sum_singleton]
    clear ih
    induction past with
    | nil => rfl
    | cons c past ih =>
      simp only [List.countP_cons, decide_eq_true_eq] at ih ⊢
      by_cases hkey : Casing.lower c.2 = lowered
      · simp only [hkey, true_and]
        split_ifs <;> omega
      · simp only [hkey, false_and, if_false]
        exact ih

/-- What a call answers of the counts it leaves. -/
theorem isLimitedRedis_snd (hn : 0 ≤ r.numBuckets) (db : Redis) (now : ℚ) (key : PyStr) :
    (r.isLimitedRedis db now key).2 = some (decide (r.limit < (((r.buckets key (r.currentBucket now)).map fun k ↦
      ((Redis.live (r.isLimitedRedis db now key).1 now k).map Counter.count).getD 0).sum : ℕ))) := by
  have hmget : (r.isLimitedRedis db now key).2 =
      ((r.isLimitedRedis db now key).1.mget now (r.buckets key (r.currentBucket now))).map fun counts ↦
        decide (r.limit < ((counts.map (·.getD 0)).sum : ℕ)) := rfl
  have hsome : r.buckets key (r.currentBucket now) ≠ [] := by
    unfold buckets
    rw [ne_eq, List.map_eq_nil_iff, List.range_eq_nil]
    omega
  rw [hmget, Redis.mget, if_neg hsome, Option.map_some, List.map_map]
  rfl

/-- A call reads the recent calls of the keys with its lower case. -/
theorem isLimitedRedis_of_kept (hsize : 0 < r.bucketSize) (hn : 0 ≤ r.numBuckets) (h : r.Kept db past) {now : ℚ}
    (hpast : ∀ c ∈ past, c.1 ≤ now) (key : PyStr) :
    (r.isLimitedRedis db now key).2 =
      some (decide (r.limit < (r.recent Casing.lower (past ++ [(now, key)]) now key : ℤ))) := by
  have hkept := kept_call hsize hn h now key
  have hpast' : ∀ c ∈ past ++ [(now, key)], c.1 ≤ now := by
    intro c hc
    rcases List.mem_append.mp hc with hc | hc
    · exact hpast c hc
    · exact (congrArg Prod.fst (List.mem_singleton.mp hc)).le
  set nb := r.currentBucket now with hnb
  have hread : (r.buckets key nb).map (fun k ↦
        ((Redis.live (r.isLimitedRedis db now key).1 now k).map Counter.count).getD 0) =
      (List.range (r.numBuckets + 1).toNat).map fun i : ℕ ↦
        r.inSlot (past ++ [(now, key)]) (Casing.lower key) (nb - i) := by
    unfold buckets
    rw [List.map_map]
    refine List.map_congr_left fun i hi ↦ ?_
    have hi' := List.mem_range.mp hi
    exact live_of_kept hsize hkept (by omega) _
  rw [isLimitedRedis_snd hn]
  simp only [← hnb, hread, sum_inSlot]
  refine congrArg (fun k : ℕ ↦ some (decide (r.limit < (k : ℤ)))) (List.countP_congr fun c hc ↦ ?_)
  have hle : r.currentBucket c.1 ≤ nb := currentBucket_mono hsize (hpast' c hc)
  simp only [decide_eq_true_eq, ← hnb]
  refine and_congr_right fun _ ↦ ?_
  omega

theorem isLimited_redis (hsize : 0 < r.bucketSize) (hn : 0 ≤ r.numBuckets) (henabled : r.enabled = true)
    (memory : Memory) (h : r.Kept db past) {now : ℚ} (hpast : ∀ c ∈ past, c.1 ≤ now) (key : PyStr) :
    r.isLimited (memory, some db) now key = ((memory, some (r.isLimitedRedis db now key).1),
      decide (r.limit < (r.recent Casing.lower (past ++ [(now, key)]) now key : ℤ))) := by
  have hanswer := isLimitedRedis_of_kept hsize hn h hpast key
  unfold isLimited
  rw [henabled]
  rcases hcall : r.isLimitedRedis db now key with ⟨db', limited⟩
  rw [hcall] at hanswer
  obtain rfl : limited = some _ := hanswer
  simp only [hcall]
  rfl

/-- The answers in Redis roll over the calls of the keys with the same lower case. -/
theorem answers_redis (hsize : 0 < r.bucketSize) (hn : 0 ≤ r.numBuckets) (henabled : r.enabled = true)
    (memory : Memory) {calls : List (ℚ × PyStr)} (h : r.Kept db past) (hordered : Ordered (past ++ calls)) :
    r.answers (memory, some db) calls = r.rolling Casing.lower past calls := by
  induction calls generalizing db past with
  | nil => rfl
  | cons c calls ih =>
    obtain ⟨now, key⟩ := c
    have hpast : ∀ c ∈ past, c.1 ≤ now := by
      unfold Ordered at hordered
      rw [List.map_append, List.pairwise_append] at hordered
      exact fun c hc ↦ hordered.2.2 _ (List.mem_map_of_mem hc) _ List.mem_cons_self
    rw [answers, isLimited_redis hsize hn henabled memory h hpast, rolling]
    simp only
    rw [ih (kept_call hsize hn h now key) (by rwa [List.append_assoc])]

end Redis

/-! ## What is let through -/

theorem rolling_append (r : RateLimiter) (f : PyStr → PyStr) (past xs ys : List (ℚ × PyStr)) :
    r.rolling f past (xs ++ ys) = r.rolling f past xs ++ r.rolling f (past ++ xs) ys := by
  induction xs generalizing past with
  | nil => rw [List.nil_append, List.append_nil]; rfl
  | cons c xs ih =>
    rw [List.cons_append, rolling, rolling, ih, List.append_assoc]
    rfl

/-- No call is limited before there are more than the limit. -/
theorem rolling_of_few {f : PyStr → PyStr} {past calls : List (ℚ × PyStr)}
    (h : (past.length + calls.length : ℤ) ≤ r.limit) : r.rolling f past calls = List.replicate calls.length false := by
  induction calls generalizing past with
  | nil => rfl
  | cons c calls ih =>
    have hrecent : r.recent f (past ++ [c]) c.1 c.2 ≤ (past ++ [c]).length := List.countP_le_length
    have hlength : (past ++ [c]).length = past.length + 1 := List.length_append
    rw [List.length_cons, Nat.cast_succ] at h
    rw [rolling, List.length_cons, List.replicate_succ, ih (by rw [hlength]; omega)]
    exact congrArg (· :: _) (decide_eq_false (by omega))

/-- Keys that are told apart as they are can be seen as they are. -/
theorem rolling_congr {f : PyStr → PyStr} {K : Set PyStr} (hf : Set.InjOn f K) {past calls : List (ℚ × PyStr)}
    (hpast : ∀ c ∈ past, c.2 ∈ K) (hcalls : ∀ c ∈ calls, c.2 ∈ K) : r.rolling f past calls = r.rolling id past calls := by
  induction calls generalizing past with
  | nil => rfl
  | cons c calls ih =>
    have hc := hcalls c List.mem_cons_self
    have hpast' : ∀ d ∈ past ++ [c], d.2 ∈ K := by
      intro d hd
      rcases List.mem_append.mp hd with hd | hd
      · exact hpast d hd
      · rwa [List.mem_singleton.mp hd]
    have hrecent : r.recent f (past ++ [c]) c.1 c.2 = r.recent id (past ++ [c]) c.1 c.2 := by
      refine List.countP_congr fun d hd ↦ ?_
      simp only [decide_eq_true_eq, id_eq, hf.eq_iff (hpast' d hd) hc]
    rw [rolling, rolling, hrecent, ih hpast' fun d hd ↦ hcalls d (List.mem_cons_of_mem c hd)]

/-- A limit that is not positive limits every call that is counted. -/
theorem rolling_of_limit_nonpos (hn : 0 ≤ r.numBuckets) (hlimit : r.limit ≤ 0) {f : PyStr → PyStr}
    {past calls : List (ℚ × PyStr)} : r.rolling f past calls = List.replicate calls.length true := by
  induction calls generalizing past with
  | nil => rfl
  | cons c calls ih =>
    rw [rolling, List.length_cons, List.replicate_succ, ih, recent_append, if_pos hn]
    exact congrArg (· :: _) (decide_eq_true (by push_cast; omega))

/-- The calls that are not limited. -/
def admitted (calls : List (ℚ × PyStr)) (limited : List Bool) : List (ℚ × PyStr) :=
  ((calls.zip limited).filter (!·.2)).map Prod.fst

theorem admitted_replicate_true (calls : List (ℚ × PyStr)) : admitted calls (List.replicate calls.length true) = [] := by
  unfold admitted
  rw [List.map_eq_nil_iff, List.filter_eq_nil_iff]
  intro c hc
  rw [List.eq_of_mem_replicate (List.of_mem_zip hc).2]
  decide

theorem admitted_replicate_false (calls : List (ℚ × PyStr)) :
    admitted calls (List.replicate calls.length false) = calls := by
  unfold admitted
  rw [List.filter_eq_self.mpr, List.map_fst_zip (by rw [List.length_replicate])]
  intro c hc
  rw [List.eq_of_mem_replicate (List.of_mem_zip hc).2]
  rfl

/-- The calls of a key in a window of time. -/
def within (r : RateLimiter) (key : PyStr) (a : ℚ) (calls : List (ℚ × PyStr)) : ℕ :=
  calls.countP fun c ↦ c.2 = key ∧ a ≤ c.1 ∧ c.1 < a + r.window

/-- Where the window is a whole number of buckets, what is let through is bounded, call after call. -/
theorem within_admitted_le (hsize : 0 < r.bucketSize) (hdvd : r.bucketSize ∣ r.window) (key : PyStr) (a : ℚ)
    {past calls done : List (ℚ × PyStr)} (hdone : done.Sublist past)
    (hle : (r.within key a done : ℤ) ≤ max 0 r.limit) :
    (r.within key a (done ++ admitted calls (r.rolling id past calls)) : ℤ) ≤ max 0 r.limit := by
  induction calls generalizing past done with
  | nil =>
    rw [show admitted [] (r.rolling id past []) = [] from rfl, List.append_nil]
    exact hle
  | cons c calls ih =>
    rw [rolling]
    by_cases hlimited : r.limit < (r.recent id (past ++ [c]) c.1 c.2 : ℤ)
    · rw [decide_eq_true hlimited]
      exact ih (hdone.trans (List.sublist_append_left past [c])) hle
    · rw [decide_eq_false hlimited]
      rw [show admitted (c :: calls) (false :: r.rolling id (past ++ [c]) calls) =
        [c] ++ admitted calls (r.rolling id (past ++ [c]) calls) from rfl, ← List.append_assoc]
      have hsub : (done ++ [c]).Sublist (past ++ [c]) := hdone.append (List.Sublist.refl _)
      refine ih hsub ?_
      by_cases hin : c.2 = key ∧ a ≤ c.1 ∧ c.1 < a + r.window
      · -- what has been let through in the window is recent at this call
        obtain ⟨rfl, hfrom, hto⟩ := hin
        have hrecent : r.within c.2 a (done ++ [c]) ≤ r.recent id (past ++ [c]) c.1 c.2 := by
          refine le_trans hsub.countP_le (List.countP_mono_left fun d _ hd ↦ ?_)
          simp only [decide_eq_true_eq, id_eq] at hd ⊢
          obtain ⟨hkey, had, -⟩ := hd
          refine ⟨hkey, (le_currentBucket hsize).mpr ?_⟩
          have hb : ((r.currentBucket c.1 : ℤ) : ℚ) * r.bucketSize ≤ c.1 := (le_currentBucket hsize).mp le_rfl
          have hwindow : (r.numBuckets : ℚ) * r.bucketSize = r.window := by
            unfold numBuckets
            rw [Int.fdiv_eq_ediv_of_nonneg _ hsize.le]
            exact_mod_cast Int.ediv_mul_cancel hdvd
          push_cast
          linarith
        omega
      · have hsame : r.within key a (done ++ [c]) = r.within key a done := by
          unfold within
          rw [List.countP_append, List.countP_singleton, if_neg (by simpa using hin), Nat.add_zero]
        rw [hsame]
        exact hle

/-! ## The promise -/

section Promise

variable [Casing] {K : Set PyStr}

/-- Calls that can be made for some keys, by a clock that does not go back. -/
def Calls (K : Set PyStr) (calls : List (ℚ × PyStr)) : Prop := Ordered calls ∧ ∀ c ∈ calls, 0 ≤ c.1 ∧ c.2 ∈ K

/-- In memory no window lets more than the limit through. -/
def Bounded (r : RateLimiter) (K : Set PyStr) : Prop :=
  ∀ calls, Calls K calls → ∀ key a,
    (r.within key a (admitted calls (r.answers (.empty, none) calls)) : ℤ) ≤ max 0 r.limit

/-- Redis answers as the memory does. -/
def Agrees (r : RateLimiter) (K : Set PyStr) : Prop :=
  ∀ calls, Calls K calls → r.answers (.empty, some .empty) calls = r.answers (.empty, none) calls

omit [Casing] in
theorem buckets_ordered (hsize : 0 < r.bucketSize) {calls : List (ℚ × PyStr)} (h : Ordered calls) :
    (calls.map fun c ↦ r.currentBucket c.1).Pairwise (· ≤ ·) := by
  unfold Ordered at h
  rw [List.pairwise_map] at h ⊢
  exact h.imp (currentBucket_mono hsize)

theorem answers_memory_empty (hsize : 0 < r.bucketSize) (henabled : r.enabled = true) {calls : List (ℚ × PyStr)}
    (h : Calls K calls) : r.answers (.empty, none) calls = r.rolling id [] calls :=
  answers_memory henabled (counts_empty r 0) (buckets_ordered hsize h.1) fun c hc ↦
    currentBucket_mono hsize (h.2 c hc).1

omit [Casing] in
theorem numBuckets_neg_iff (hsize : r.bucketSize ≠ 0) : r.numBuckets < 0 ↔ r.window * r.bucketSize < 0 := by
  unfold numBuckets
  rcases lt_or_gt_of_ne hsize with hneg | hpos
  · rw [mul_neg_iff, ← Int.neg_fdiv_neg, Int.fdiv_eq_ediv_of_nonneg _ (by omega), ← not_le,
      Int.le_ediv_iff_mul_le (by omega)]
    omega
  · rw [mul_neg_iff, Int.fdiv_eq_ediv_of_nonneg _ hpos.le, ← not_le, Int.le_ediv_iff_mul_le hpos]
    omega

/-- A negative limit limits every call. -/
theorem answers_of_limit_neg (henabled : r.enabled = true) (hlimit : r.limit < 0) (s : Memory × Option Redis)
    (calls : List (ℚ × PyStr)) : r.answers s calls = List.replicate calls.length true := by
  have hcall (s : Memory × Option Redis) (now : ℚ) (key : PyStr) : (r.isLimited s now key).2 = true := by
    have hmemory : (r.isLimitedMemory s.1 now key).2 = true := decide_eq_true (by omega)
    unfold isLimited
    rw [henabled]
    rcases s.2 with - | db
    · exact hmemory
    · rcases hredis : r.isLimitedRedis db now key with ⟨db', - | limited⟩
      · simp only [hredis]
        exact hmemory
      · have hsecond := congrArg Prod.snd hredis
        unfold isLimitedRedis at hsecond
        obtain ⟨counts, -, hcounts⟩ := Option.map_eq_some_iff.mp hsecond
        simp only [hredis]
        rw [← hcounts]
        exact decide_eq_true (by omega)
  induction calls generalizing s with
  | nil => rfl
  | cons c calls ih => rw [answers, hcall, ih, List.length_cons, List.replicate_succ]

/-- With no buckets to look at, Redis fails and the memory answers. -/
theorem answers_of_numBuckets_neg (hn : r.numBuckets < 0) (memory : Memory) (db : Redis) (calls : List (ℚ × PyStr)) :
    r.answers (memory, some db) calls = r.answers (memory, none) calls := by
  induction calls generalizing memory db with
  | nil => rfl
  | cons c calls ih =>
    obtain ⟨now, key⟩ := c
    have hbuckets : r.buckets key (r.currentBucket now) = [] := by
      unfold buckets
      rw [Int.toNat_of_nonpos (by omega)]
      rfl
    have hredis : (r.isLimitedRedis db now key).2 = none := by
      unfold isLimitedRedis
      simp only [hbuckets]
      rfl
    rw [answers, answers]
    rcases hcall : r.isLimitedRedis db now key with ⟨db', limited⟩
    rw [hcall] at hredis
    obtain rfl : limited = none := hredis
    unfold isLimited
    simp only [hcall]
    split
    · rw [ih]
    · simp only
      rw [ih]

/-! ## Where it breaks -/

/-- All calls at the start of time are in the bucket 0. -/
theorem answers_memory_start (henabled : r.enabled = true) {calls : List (ℚ × PyStr)} (h : ∀ c ∈ calls, c.1 = 0) :
    r.answers (.empty, none) calls = r.rolling id [] calls := by
  refine answers_memory henabled (counts_empty r 0) ?_ fun c hc ↦ by rw [h c hc]
  rw [List.pairwise_map]
  exact List.pairwise_of_forall_mem_list fun c hc d hd ↦ by rw [h c hc, h d hd]

/-- Where the time to expire is not positive, Redis forgets every call at once. -/
theorem answers_redis_forgets (henabled : r.enabled = true) (hn : 0 ≤ r.numBuckets)
    (hexpire : r.window + r.bucketSize ≤ 0) (hlimit : 0 ≤ r.limit) (memory : Memory) {db : Redis}
    (hdb : ∀ k, db.get? k = none) (calls : List (ℚ × PyStr)) :
    r.answers (memory, some db) calls = List.replicate calls.length false := by
  induction calls generalizing db with
  | nil => rfl
  | cons c calls ih =>
    obtain ⟨now, key⟩ := c
    have hlive (k : PyStr) : db.live now k = none := by
      unfold Redis.live
      rw [hdb]
      rfl
    set k := r.bucketKey key (r.currentBucket now)
    have hnew : Redis.live (db.set k ⟨1, none⟩) now k = some ⟨1, none⟩ := by
      unfold Redis.live
      rw [Keyed.get?_set, if_pos rfl]
      rfl
    have hgone (l : PyStr) : (r.isLimitedRedis db now key).1.get? l = none := by
      have hafter : (r.isLimitedRedis db now key).1 = Keyed.filterKeys (db.set k ⟨1, none⟩) (· ≠ k) := by
        simp only [isLimitedRedis, Redis.incr, hlive, if_true, Redis.expire]
        rw [hnew]
        exact if_pos hexpire
      rw [hafter, Keyed.get?_filterKeys, Keyed.get?_set]
      by_cases hl : l = k
      · rw [if_neg (by simpa using hl)]
      · rw [if_pos (by simpa using hl), if_neg hl, hdb]
    have hsum : ((r.buckets key (r.currentBucket now)).map fun k ↦
        ((Redis.live (r.isLimitedRedis db now key).1 now k).map Counter.count).getD 0).sum = 0 := by
      refine List.sum_eq_zero fun x hx ↦ ?_
      obtain ⟨l, -, rfl⟩ := List.mem_map.mp hx
      unfold Redis.live
      rw [hgone]
      rfl
    have hanswer := isLimitedRedis_snd hn db now key
    rw [hsum, decide_eq_false (by omega)] at hanswer
    have hlimited : r.isLimited (memory, some db) now key = ((memory, some (r.isLimitedRedis db now key).1), false) := by
      unfold isLimited
      rw [henabled]
      rcases hcall : r.isLimitedRedis db now key with ⟨db', limited⟩
      rw [hcall] at hanswer
      obtain rfl : limited = some _ := hanswer
      simp only [hcall]
      rfl
    rw [answers, hlimited, List.length_cons, List.replicate_succ]
    exact congrArg (false :: ·) (ih hgone)

omit [Casing] in
theorem calls_replicate {now : ℚ} (hnow : 0 ≤ now) {key : PyStr} (hkey : key ∈ K) (k : ℕ) :
    Calls K (List.replicate k (now, key)) := by
  have heq : ∀ c ∈ List.replicate k (now, key), c = (now, key) := fun c hc ↦ List.eq_of_mem_replicate hc
  refine ⟨?_, fun c hc ↦ by rw [heq c hc]; exact ⟨hnow, hkey⟩⟩
  unfold Ordered
  rw [List.pairwise_map]
  exact List.pairwise_of_forall_mem_list fun c hc d hd ↦ by rw [heq c hc, heq d hd]

omit [Casing] in
theorem calls_append {xs ys : List (ℚ × PyStr)} (hxs : Calls K xs) (hys : Calls K ys)
    (h : ∀ c ∈ xs, ∀ d ∈ ys, c.1 ≤ d.1) : Calls K (xs ++ ys) := by
  refine ⟨?_, fun c hc ↦ (List.mem_append.mp hc).elim (hxs.2 c) (hys.2 c)⟩
  unfold Ordered
  rw [List.map_append, List.pairwise_append]
  refine ⟨hxs.1, hys.1, ?_⟩
  simp only [List.mem_map]
  rintro _ ⟨c, hc, rfl⟩ _ ⟨d, hd, rfl⟩
  exact h c hc d hd

/-- Calls one more than the limit, none of them limited, break the bound. -/
theorem not_bounded_of_all (hlimit : 0 ≤ r.limit) {calls : List (ℚ × PyStr)} (hcalls : Calls K calls)
    (hall : r.answers (.empty, none) calls = List.replicate calls.length false)
    (hlength : (calls.length : ℤ) = r.limit + 1) (key : PyStr) (a : ℚ)
    (hin : ∀ c ∈ calls, c.2 = key ∧ a ≤ c.1 ∧ c.1 < a + r.window) : ¬ r.Bounded K := by
  intro h
  have hle := h calls hcalls key a
  have hcount : r.within key a calls = calls.length :=
    List.countP_eq_length.mpr fun c hc ↦ decide_eq_true (hin c hc)
  rw [hall, admitted_replicate_false, hcount, hlength, max_eq_right hlimit] at hle
  omega

omit [Casing] in
/-- Where there are no buckets to look at, no call at the start of time is limited. -/
theorem rolling_start (hn : r.numBuckets < 0) (hlimit : 0 ≤ r.limit) {f : PyStr → PyStr} {past calls : List (ℚ × PyStr)}
    (hpast : ∀ c ∈ past, c.1 = 0) (hcalls : ∀ c ∈ calls, c.1 = 0) :
    r.rolling f past calls = List.replicate calls.length false := by
  induction calls generalizing past with
  | nil => rfl
  | cons c calls ih =>
    have hpast' : ∀ d ∈ past ++ [c], d.1 = 0 := by
      intro d hd
      rcases List.mem_append.mp hd with hd | hd
      · exact hpast d hd
      · rw [List.mem_singleton.mp hd]
        exact hcalls c List.mem_cons_self
    have hrecent : r.recent f (past ++ [c]) c.1 c.2 = 0 := by
      refine List.countP_eq_zero.mpr fun d hd ↦ ?_
      rw [hpast' d hd, hcalls c List.mem_cons_self]
      simp only [decide_eq_true_eq]
      omega
    rw [rolling, List.length_cons, List.replicate_succ, ih hpast' fun d hd ↦ hcalls d (List.mem_cons_of_mem c hd), hrecent]
    exact congrArg (· :: _) (decide_eq_false (by omega))

omit [Casing] in
/-- The calls at the end of a bucket are not seen from the last start of a bucket in their window. -/
theorem rolling_gap (hpos : 0 < r.bucketSize) (hlimit : 0 < r.limit) (key : PyStr) {k : ℕ} (hk : (k : ℤ) ≤ r.limit) :
    r.rolling id [] (List.replicate k ((r.bucketSize : ℚ) - 1 / 2, key) ++
      List.replicate 1 (((r.numBuckets + 1 : ℤ) : ℚ) * r.bucketSize, key)) = List.replicate (k + 1) false := by
  have hlast : r.recent id (List.replicate k ((r.bucketSize : ℚ) - 1 / 2, key))
      (((r.numBuckets + 1 : ℤ) : ℚ) * r.bucketSize) key = 0 := by
    refine List.countP_eq_zero.mpr fun c hc ↦ ?_
    rw [List.eq_of_mem_replicate hc]
    have hfirst : r.currentBucket ((r.bucketSize : ℚ) - 1 / 2) < 1 := by
      refine (currentBucket_lt hpos).mpr ?_
      push_cast
      linarith
    have hthis : r.numBuckets + 1 ≤ r.currentBucket (((r.numBuckets + 1 : ℤ) : ℚ) * r.bucketSize) :=
      (le_currentBucket hpos).mpr le_rfl
    simp only [decide_eq_true_eq]
    omega
  rw [rolling_append, rolling_of_few (by simpa using hk), List.length_replicate, List.replicate_one, List.replicate_succ',
    rolling, rolling, List.nil_append, recent_append, hlast, decide_eq_false]
  split <;> omega

/-- Where the window is no whole number of buckets, the calls around a gap in it are let through. -/
theorem not_bounded_of_not_dvd (hpos : 0 < r.bucketSize) (henabled : r.enabled = true) (hwindow : 0 < r.window)
    (hlimit : 0 < r.limit) (hdvd : ¬ r.bucketSize ∣ r.window) {key : PyStr} (hkey : key ∈ K) : ¬ r.Bounded K := by
  have hn : 0 ≤ r.numBuckets := by
    by_contra hn
    have := (numBuckets_neg_iff hpos.ne').mp (not_le.mp hn)
    have := mul_pos hwindow hpos
    omega
  have hbucket : (1 : ℚ) ≤ r.bucketSize := by exact_mod_cast hpos
  have hbuckets : (0 : ℚ) ≤ r.numBuckets := by exact_mod_cast hn
  have hgap : ((r.numBuckets + 1 : ℤ) : ℚ) * r.bucketSize < r.bucketSize - 1 / 2 + r.window := by
    have hless : r.numBuckets * r.bucketSize + 1 ≤ r.window := by
      refine lt_of_le_of_ne (numBuckets_mul_le hpos) fun heq ↦ hdvd ?_
      exact ⟨r.numBuckets, by rw [← heq, mul_comm]⟩
    have hless' : (r.numBuckets : ℚ) * r.bucketSize + 1 ≤ r.window := by exact_mod_cast hless
    push_cast
    linarith
  have hstep : (r.bucketSize : ℚ) - 1 / 2 ≤ ((r.numBuckets + 1 : ℤ) : ℚ) * r.bucketSize := by
    have hmul := mul_nonneg hbuckets (zero_le_one.trans hbucket)
    push_cast
    linarith
  have hcalls : Calls K (List.replicate r.limit.toNat ((r.bucketSize : ℚ) - 1 / 2, key) ++
      List.replicate 1 (((r.numBuckets + 1 : ℤ) : ℚ) * r.bucketSize, key)) := by
    refine calls_append (calls_replicate (by linarith) hkey _) (calls_replicate (le_trans (by linarith) hstep) hkey 1) ?_
    intro c hc d hd
    rw [List.eq_of_mem_replicate hc, List.eq_of_mem_replicate hd]
    exact hstep
  refine not_bounded_of_all hlimit.le hcalls ?_ ?_ key ((r.bucketSize : ℚ) - 1 / 2) ?_
  · rw [answers_memory_empty hpos henabled hcalls, rolling_gap hpos hlimit key (by omega), List.length_append,
      List.length_replicate, List.length_replicate]
  · rw [List.length_append, List.length_replicate, List.length_replicate]
    omega
  · intro c hc
    rcases List.mem_append.mp hc with hc | hc <;> rw [List.eq_of_mem_replicate hc]
    · have hwindow' : (0 : ℚ) < r.window := by exact_mod_cast hwindow
      exact ⟨rfl, le_rfl, lt_add_of_pos_right _ hwindow'⟩
    · exact ⟨rfl, hstep, hgap⟩

/-- When the bound holds of every sequence of calls. -/
theorem bounded_iff (hsize : r.bucketSize ≠ 0) (henabled : r.enabled = true) (hK : K.Nonempty) :
    r.Bounded K ↔ r.window ≤ 0 ∨ r.limit < 0 ∨ 0 < r.bucketSize ∧ (r.limit = 0 ∨ r.bucketSize ∣ r.window) := by
  obtain ⟨key, hkey⟩ := hK
  constructor
  · intro h
    by_contra hnot
    simp only [not_or, not_le, not_lt, not_and] at hnot
    obtain ⟨hwindow, hlimit, hnot⟩ := hnot
    rcases lt_or_gt_of_ne hsize with hneg | hpos
    · -- the bucket of a call is dropped before it is counted
      have hcalls := calls_replicate le_rfl hkey (r.limit + 1).toNat
      have hzero : ∀ c ∈ List.replicate (r.limit + 1).toNat ((0 : ℚ), key), c.1 = 0 := fun c hc ↦ by
        rw [List.eq_of_mem_replicate hc]
      refine not_bounded_of_all hlimit hcalls ?_ (by rw [List.length_replicate]; omega) key 0 ?_ h
      · rw [answers_memory_start henabled hzero, rolling_start ?_ hlimit (fun _ hc ↦ absurd hc List.not_mem_nil) hzero]
        exact (numBuckets_neg_iff hsize).mpr (mul_neg_of_pos_of_neg hwindow hneg)
      · intro c hc
        rw [List.eq_of_mem_replicate hc]
        exact ⟨rfl, le_rfl, by simpa using hwindow⟩
    · obtain ⟨hzero, hdvd⟩ := hnot hpos
      exact not_bounded_of_not_dvd hpos henabled hwindow (lt_of_le_of_ne hlimit (Ne.symm hzero)) hdvd hkey h
  · intro h calls hcalls k a
    rcases le_or_gt r.window 0 with hwindow | hwindow
    · have hnone : r.within k a (admitted calls (r.answers (.empty, none) calls)) = 0 := by
        refine List.countP_eq_zero.mpr fun c _ ↦ ?_
        have hwindow' : (r.window : ℚ) ≤ 0 := by exact_mod_cast hwindow
        simp only [decide_eq_true_eq, not_and, not_lt]
        intro _ ha
        linarith
      rw [hnone]
      exact le_max_left 0 _
    · rcases h with hwindow' | hlimit | ⟨hpos, hzero | hdvd⟩
      · omega
      · rw [answers_of_limit_neg henabled hlimit, admitted_replicate_true]
        exact le_max_left 0 _
      · rw [answers_memory_empty hpos henabled hcalls, rolling_of_limit_nonpos ?_ hzero.le, admitted_replicate_true]
        · exact le_max_left 0 _
        · by_contra hn
          have := (numBuckets_neg_iff hsize).mp (not_le.mp hn)
          have := mul_pos hwindow hpos
          omega
      · rw [answers_memory_empty hpos henabled hcalls]
        exact within_admitted_le hpos hdvd k a (List.Sublist.refl []) (le_max_left 0 _)

omit [Casing] in
/-- One call more than the limit, at one time and alike as the keys are seen, is limited. -/
theorem rolling_full {f : PyStr → PyStr} (hn : 0 ≤ r.numBuckets) (hlimit : 0 ≤ r.limit) {u v : PyStr} (huv : f u = f v)
    (now : ℚ) : r.rolling f [] (List.replicate r.limit.toNat (now, u) ++ List.replicate 1 (now, v)) =
      List.replicate r.limit.toNat false ++ [true] := by
  have hrecent : r.recent f (List.replicate r.limit.toNat (now, u)) now v = r.limit.toNat := by
    unfold recent
    rw [List.countP_replicate, if_pos]
    exact decide_eq_true ⟨huv, Int.sub_le_self _ hn⟩
  rw [rolling_append, rolling_of_few (by simpa using hlimit), List.length_replicate, List.replicate_one, rolling, rolling,
    List.nil_append, recent_append, hrecent, if_pos hn, decide_eq_true]
  omega

omit [Casing] in
/-- Another key has no calls yet. -/
theorem rolling_other (hlimit : 0 < r.limit) {u v : PyStr} (huv : u ≠ v) (now : ℚ) :
    r.rolling id [] (List.replicate r.limit.toNat (now, u) ++ List.replicate 1 (now, v)) =
      List.replicate r.limit.toNat false ++ [false] := by
  have hrecent : r.recent id (List.replicate r.limit.toNat (now, u)) now v = 0 := by
    refine List.countP_eq_zero.mpr fun c hc ↦ ?_
    rw [List.eq_of_mem_replicate hc]
    simp [huv]
  rw [rolling_append, rolling_of_few (by simpa using hlimit.le), List.length_replicate, List.replicate_one, rolling,
    rolling, List.nil_append, recent_append, hrecent, decide_eq_false]
  split <;> omega

/-- When Redis and the memory agree on every sequence of calls. -/
theorem redis_agrees_iff (hsize : r.bucketSize ≠ 0) (henabled : r.enabled = true) (hK : K.Nonempty) :
    r.Agrees K ↔ r.limit < 0 ∨ r.window * r.bucketSize < 0 ∨
      0 < r.bucketSize ∧ (r.limit = 0 ∨ Set.InjOn Casing.lower K) := by
  rw [← numBuckets_neg_iff hsize]
  have hredis (hpos : 0 < r.bucketSize) (hn : 0 ≤ r.numBuckets) {calls : List (ℚ × PyStr)} (hcalls : Calls K calls) :
      r.answers (.empty, some .empty) calls = r.rolling Casing.lower [] calls :=
    answers_redis hpos hn henabled .empty (kept_empty r) hcalls.1
  have hcalls {u v : PyStr} (hu : u ∈ K) (hv : v ∈ K) (k : ℕ) :
      Calls K (List.replicate k (0, u) ++ List.replicate 1 (0, v)) := by
    refine calls_append (calls_replicate le_rfl hu _) (calls_replicate le_rfl hv 1) fun c hc d hd ↦ ?_
    rw [List.eq_of_mem_replicate hc, List.eq_of_mem_replicate hd]
  constructor
  · intro h
    by_contra hnot
    simp only [not_or, not_lt, not_and] at hnot
    obtain ⟨hlimit, hn, hnot⟩ := hnot
    rcases lt_or_gt_of_ne hsize with hneg | hpos
    · obtain ⟨key, hkey⟩ := hK
      have hwindow : r.window ≤ 0 := by
        by_contra hwindow
        exact absurd ((numBuckets_neg_iff hsize).mpr (mul_neg_of_pos_of_neg (not_le.mp hwindow) hneg)) hn.not_gt
      have hagree := h _ (hcalls hkey hkey r.limit.toNat)
      rw [answers_redis_forgets henabled hn (by omega) hlimit _ fun _ ↦ rfl, answers_memory_start henabled ?_,
        rolling_full hn hlimit rfl, List.length_append, List.length_replicate, List.length_replicate,
        List.replicate_succ'] at hagree
      · exact absurd (List.append_cancel_left hagree) (by decide)
      · intro c hc
        rcases List.mem_append.mp hc with hc | hc <;> rw [List.eq_of_mem_replicate hc]
    · obtain ⟨hzero, hinj⟩ := hnot hpos
      refine hinj fun u hu v hv huv ↦ ?_
      by_contra hne
      have hagree := h _ (hcalls hu hv r.limit.toNat)
      rw [hredis hpos hn (hcalls hu hv _), answers_memory_empty hpos henabled (hcalls hu hv _), rolling_full hn hlimit huv,
        rolling_other (lt_of_le_of_ne hlimit (Ne.symm hzero)) hne] at hagree
      exact absurd (List.append_cancel_left hagree) (by decide)
  · intro h calls hc
    rcases lt_or_ge r.numBuckets 0 with hn | hn
    · exact answers_of_numBuckets_neg hn _ _ _
    · rcases h with hlimit | hn' | ⟨hpos, hzero | hinj⟩
      · rw [answers_of_limit_neg henabled hlimit, answers_of_limit_neg henabled hlimit]
      · omega
      · rw [hredis hpos hn hc, answers_memory_empty hpos henabled hc, rolling_of_limit_nonpos hn hzero.le,
          rolling_of_limit_nonpos hn hzero.le]
      · rw [hredis hpos hn hc, answers_memory_empty hpos henabled hc]
        exact rolling_congr hinj (by simp) fun c hmem ↦ (hc.2 c hmem).2

/-- The bound and the agreement hold together exactly for these limits, windows, bucket sizes and keys. -/
theorem holds_iff (hsize : r.bucketSize ≠ 0) (henabled : r.enabled = true) (hK : K.Nonempty) :
    r.Bounded K ∧ r.Agrees K ↔
      (r.window ≤ 0 ∨ r.limit < 0 ∨ 0 < r.bucketSize ∧ (r.limit = 0 ∨ r.bucketSize ∣ r.window)) ∧
        (r.limit < 0 ∨ r.window * r.bucketSize < 0 ∨
          0 < r.bucketSize ∧ (r.limit = 0 ∨ Set.InjOn Casing.lower K)) := by
  rw [bounded_iff hsize henabled hK, redis_agrees_iff hsize henabled hK]

end Promise

/-- Fifteen calls in three minutes, in buckets of a minute. -/
def signin : RateLimiter := ⟨15, 180, 60, true, py "open-webui"⟩

theorem signin_holds :
    @Bounded asciiCasing signin {py "a"} ∧ @Agrees asciiCasing signin {py "a"} :=
  (@holds_iff signin asciiCasing {py "a"} (by decide) rfl ⟨py "a", rfl⟩).mpr
    ⟨.inr (.inr ⟨by decide, .inr ⟨3, rfl⟩⟩), .inr (.inr ⟨by decide, .inr (Set.injOn_singleton _ _)⟩)⟩

/-- One call in a minute and a half, in buckets of a minute. -/
def uneven : RateLimiter := ⟨1, 90, 60, true, py "open-webui"⟩

/-- Calls at 59 and at 120 seconds are let through, though at most one is to be in 90 seconds. -/
theorem uneven_not_bounded : ¬ @Bounded asciiCasing uneven {py "a"} :=
  @not_bounded_of_not_dvd uneven asciiCasing {py "a"} (by decide) rfl (by decide) (by decide) (by decide) (py "a") rfl

/-! ## What remains -/

section Remaining

variable [Casing] {db : Redis} {past : List (ℚ × PyStr)}

end Remaining

end RateLimiter

end FourCE.Limits

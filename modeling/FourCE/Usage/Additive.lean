import FourCE.Usage.Merge
import FourCE.Sop.Disposition
import Mathlib.Algebra.BigOperators.Group.List.Basic

/-!
# Usage adds up

Where the counts of the payloads are numbers, a usage that was normalised holds the three standard counts, and
each of them is zero only where all its other names are.  Merging keeps this, so normalising the sum again
finds nothing under those names.
-/

namespace FourCE.Usage

open FourCE.Library FourCE.Python

variable {F : Type} [Arithmetic F]

/-- The names of counts in the forms of the providers. -/
def countKeys : List PyStr :=
  [py "input_tokens", py "prompt_tokens", py "prompt_eval_count", py "prompt_n", py "cache_n",
    py "output_tokens", py "completion_tokens", py "eval_count", py "predicted_n", py "total_tokens"]

/-- Counts, where they are there, are integers that are not negative. -/
def Counted (usage : Payload F) : Prop :=
  ∀ key ∈ countKeys, ∀ v, usage.get? key = some v → ∃ n : ℕ, v = .int n

/-- What is counted under a key. -/
def count (usage : Payload F) (key : PyStr) : ℕ :=
  match usage.get? key with
  | some (.int i) => i.toNat
  | _ => 0

/-- The first number that is not zero. -/
def firstOf (ns : List ℕ) : ℕ := ns.foldr (fun n m ↦ if n = 0 then m else n) 0

def inputOf (usage : Payload F) : ℕ :=
  if count usage (py "input_tokens") = 0 then
    if count usage (py "prompt_tokens") = 0 then
      if (usage.get? (py "prompt_eval_count")).isSome then count usage (py "prompt_eval_count")
      else count usage (py "prompt_n") + count usage (py "cache_n")
    else count usage (py "prompt_tokens")
  else count usage (py "input_tokens")

def outputOf (usage : Payload F) : ℕ :=
  firstOf [count usage (py "output_tokens"), count usage (py "completion_tokens"),
    count usage (py "eval_count"), count usage (py "predicted_n")]

def totalOf (usage : Payload F) : ℕ :=
  if count usage (py "total_tokens") = 0 then inputOf usage + outputOf usage
  else count usage (py "total_tokens")

section Counts

variable {usage : Payload F} {key : PyStr}

omit [Arithmetic F] in
theorem Counted.get? (h : Counted usage) (hkey : key ∈ countKeys) :
    usage.get? key = none ∧ count usage key = 0 ∨ usage.get? key = some (.int (count usage key)) := by
  unfold count
  rcases hget : usage.get? key with - | v
  · exact .inl ⟨rfl, rfl⟩
  · obtain ⟨n, rfl⟩ := h key hkey v hget
    exact .inr rfl

theorem truth_natCast (n : ℕ) : (Json.int n : Json F).truth = decide (n ≠ 0) := by
  simp [Json.truth]

/-- A count stands back for what comes behind it where it is zero or missing. -/
theorem Counted.orElse (h : Counted usage) (hkey : key ∈ countKeys) (x : Json F) :
    (field usage key).orElse x = if count usage key = 0 then x else .int (count usage key) := by
  unfold field Json.orElse
  rcases h.get? hkey with ⟨hget, hcount⟩ | hget
  · rw [hget, hcount]
    rfl
  · rw [hget, Option.getD_some, truth_natCast]
    by_cases hzero : count usage key = 0 <;> simp [hzero]

theorem Counted.pyInt_orElse (h : Counted usage) (hkey : key ∈ countKeys) :
    pyInt ((field usage key).orElse (.int 0)) = some (count usage key : ℤ) := by
  rw [h.orElse hkey]
  by_cases hzero : count usage key = 0 <;> simp [hzero, pyInt]

theorem Counted.inputTokens (h : Counted usage) : inputTokens usage = some (.int (inputOf usage)) := by
  unfold Usage.inputTokens inputOf
  rw [@Counted.orElse _ _ _ (py "input_tokens") h (by decide), @Counted.orElse _ _ _ (py "prompt_tokens") h (by decide),
    @Counted.pyInt_orElse _ _ _ (py "prompt_n") h (by decide), @Counted.pyInt_orElse _ _ _ (py "cache_n") h (by decide)]
  by_cases hinput : count usage (py "input_tokens") = 0
  · by_cases hprompt : count usage (py "prompt_tokens") = 0
    · simp only [hinput, hprompt, if_true]
      rcases @Counted.get? _ _ (py "prompt_eval_count") h (by decide) with ⟨hget, -⟩ | hget
      · simp [field, hget]
      · simp [field, hget]
    · simp only [hinput, hprompt, if_true, if_false]
  · simp only [hinput, if_false]

theorem Counted.outputTokens (h : Counted usage) : outputTokens usage = .int (outputOf usage) := by
  unfold Usage.outputTokens outputOf
  rw [@Counted.orElse _ _ _ (py "output_tokens") h (by decide), @Counted.orElse _ _ _ (py "completion_tokens") h (by decide),
    @Counted.orElse _ _ _ (py "eval_count") h (by decide), @Counted.orElse _ _ _ (py "predicted_n") h (by decide)]
  simp only [firstOf, List.foldr_cons, List.foldr_nil]
  split_ifs <;> simp_all

theorem truth_total (h : Counted usage) :
    (field usage (py "total_tokens")).truth = decide (count usage (py "total_tokens") ≠ 0) := by
  unfold field
  rcases @Counted.get? _ _ (py "total_tokens") h (by decide) with ⟨hget, hcount⟩ | hget
  · rw [hget, hcount]
    rfl
  · rw [hget]
    exact truth_natCast _

omit [Arithmetic F] in
theorem count_set (usage : Payload F) (k key : PyStr) (n : ℕ) :
    count (usage.set k (.int n)) key = if key = k then n else count usage key := by
  unfold count
  rw [Keyed.get?_set]
  split_ifs
  · exact Int.toNat_natCast n
  · rfl

omit [Arithmetic F] in
theorem Counted.set (h : Counted usage) (k : PyStr) (n : ℕ) : Counted (usage.set k (.int n)) := by
  intro key hkey v hv
  rw [Keyed.get?_set] at hv
  split_ifs at hv
  · exact ⟨n, (Option.some.inj hv).symm⟩
  · exact h key hkey v hv

omit [Arithmetic F] in
theorem count_of_get? {n : ℕ} (h : usage.get? key = some (.int n)) : count usage key = n := by
  unfold count
  rw [h]
  exact Int.toNat_natCast n

end Counts

/-! ## Normalised usages -/

/-- The usage with its three standard counts. -/
def normal (usage : Payload F) : Payload F :=
  ((usage.set (py "input_tokens") (.int (inputOf usage))).set (py "output_tokens") (.int (outputOf usage))).set
    (py "total_tokens") (.int (totalOf usage))

/-- A usage that holds these three counts, none of which another name would replace. -/
structure Normal (usage : Payload F) (i o t : ℕ) : Prop where
  counted : Counted usage
  input : usage.get? (py "input_tokens") = some (.int i)
  output : usage.get? (py "output_tokens") = some (.int o)
  total : usage.get? (py "total_tokens") = some (.int t)
  noPrompt : i = 0 → count usage (py "prompt_tokens") = 0
  noEval : i = 0 → count usage (py "prompt_eval_count") = 0
  noParts : i = 0 → usage.get? (py "prompt_eval_count") = none →
    count usage (py "prompt_n") = 0 ∧ count usage (py "cache_n") = 0
  noCompletion : o = 0 → count usage (py "completion_tokens") = 0
  noEvalCount : o = 0 → count usage (py "eval_count") = 0
  noPredicted : o = 0 → count usage (py "predicted_n") = 0
  noTotal : t = 0 → i = 0 ∧ o = 0

section Normal

variable {usage : Payload F} {i o t : ℕ}

omit [Arithmetic F] in
theorem Normal.keys_ne_nil (h : Normal usage i o t) : usage.keys ≠ [] :=
  List.ne_nil_of_mem (Keyed.mem_keys.mpr ⟨_, h.input⟩)

omit [Arithmetic F] in
theorem Normal.inputOf_eq (h : Normal usage i o t) : inputOf usage = i := by
  unfold inputOf
  rw [count_of_get? h.input]
  by_cases hi : i = 0
  · rw [if_pos hi, if_pos (h.noPrompt hi), h.noEval hi, hi]
    rcases hget : usage.get? (py "prompt_eval_count") with - | v
    · obtain ⟨hprompt, hcache⟩ := h.noParts hi hget
      rw [hprompt, hcache]
      rfl
    · rfl
  · rw [if_neg hi]

omit [Arithmetic F] in
theorem Normal.outputOf_eq (h : Normal usage i o t) : outputOf usage = o := by
  unfold outputOf
  rw [count_of_get? h.output]
  by_cases ho : o = 0
  · rw [h.noCompletion ho, h.noEvalCount ho, h.noPredicted ho, ho]
    rfl
  · simp [firstOf, ho]

omit [Arithmetic F] in
theorem Normal.totalOf_eq (h : Normal usage i o t) : totalOf usage = t := by
  unfold totalOf
  rw [count_of_get? h.total]
  by_cases ht : t = 0
  · obtain ⟨hi, ho⟩ := h.noTotal ht
    rw [if_pos ht, h.inputOf_eq, h.outputOf_eq, hi, ho, ht]
  · rw [if_neg ht]

theorem normalizeUsage_eq (h : Counted usage) (hne : usage.keys ≠ []) : normalizeUsage usage = some (normal usage) := by
  unfold normalizeUsage
  rw [if_neg (by simpa using hne), h.inputTokens, h.outputTokens, truth_total h]
  unfold normal totalOf
  rcases @Counted.get? _ _ (py "total_tokens") h (by decide) with ⟨-, hcount⟩ | hget
  · simp only [hcount]
    rfl
  · by_cases hzero : count usage (py "total_tokens") = 0
    · simp only [hzero]
      rfl
    · simp only [hzero, field, hget, ne_eq, not_false_eq_true, decide_true, if_true, if_false]
      rfl

/-- Normalising a usage that is normal changes nothing. -/
theorem Normal.normalizeUsage_eq (h : Normal usage i o t) : normalizeUsage usage = some usage := by
  rw [Usage.normalizeUsage_eq h.counted h.keys_ne_nil, normal, h.inputOf_eq, h.outputOf_eq, h.totalOf_eq,
    Keyed.set_self h.input, Keyed.set_self h.output, Keyed.set_self h.total]

omit [Arithmetic F] in
theorem normal_normal (h : Counted usage) :
    Normal (normal usage) (inputOf usage) (outputOf usage) (totalOf usage) := by
  have hget (key : PyStr) (hkey : key ∉ usageTokenKeys) : (normal usage).get? key = usage.get? key := by
    simp only [usageTokenKeys, List.mem_cons, List.not_mem_nil, or_false, not_or] at hkey
    rw [normal, Keyed.get?_set, if_neg hkey.2.2, Keyed.get?_set, if_neg hkey.2.1, Keyed.get?_set, if_neg hkey.1]
  have hcount (key : PyStr) (hkey : key ∉ usageTokenKeys) : count (normal usage) key = count usage key := by
    unfold count
    rw [hget key hkey]
  have hprompt : inputOf usage = 0 → count usage (py "input_tokens") = 0 ∧ count usage (py "prompt_tokens") = 0 := by
    unfold inputOf
    split_ifs <;> omega
  have houtput : outputOf usage = 0 → count usage (py "completion_tokens") = 0 ∧ count usage (py "eval_count") = 0 ∧
      count usage (py "predicted_n") = 0 := by
    simp only [outputOf, firstOf, List.foldr_cons, List.foldr_nil]
    split_ifs <;> omega
  refine ⟨((h.set _ _).set _ _).set _ _, ?_, ?_, ?_, fun hi ↦ ?_, fun hi ↦ ?_, fun hi hnone ↦ ?_, fun ho ↦ ?_,
    fun ho ↦ ?_, fun ho ↦ ?_, fun ht ↦ ?_⟩
  · rw [normal, Keyed.get?_set, if_neg (by decide), Keyed.get?_set, if_neg (by decide),
      Keyed.get?_set, if_pos rfl]
  · rw [normal, Keyed.get?_set, if_neg (by decide), Keyed.get?_set, if_pos rfl]
  · rw [normal, Keyed.get?_set, if_pos rfl]
  · rw [hcount _ (by decide)]
    exact (hprompt hi).2
  · rw [hcount _ (by decide)]
    obtain ⟨hinput, hprompt⟩ := hprompt hi
    rw [inputOf, if_pos hinput, if_pos hprompt] at hi
    rcases @Counted.get? _ _ (py "prompt_eval_count") h (by decide) with ⟨-, hzero⟩ | hget
    · exact hzero
    · rwa [hget, Option.isSome_some, if_pos rfl] at hi
  · rw [hget _ (by decide)] at hnone
    rw [hcount _ (by decide), hcount _ (by decide)]
    obtain ⟨hinput, hprompt⟩ := hprompt hi
    rw [inputOf, if_pos hinput, if_pos hprompt, hnone] at hi
    exact Nat.add_eq_zero_iff.mp hi
  · rw [hcount _ (by decide)]
    exact (houtput ho).1
  · rw [hcount _ (by decide)]
    exact (houtput ho).2.1
  · rw [hcount _ (by decide)]
    exact (houtput ho).2.2
  · unfold totalOf at ht
    split_ifs at ht with hzero
    · exact Nat.add_eq_zero_iff.mp ht
    · exact absurd ht hzero

end Normal

/-! ## Merging -/

section Combine

variable {current incoming : Payload F} {i o t i' o' t' : ℕ}

omit [Arithmetic F] in
theorem get?_foldl_of_ne {f : Payload F → PyStr → Payload F} {key : PyStr}
    (hf : ∀ result k, key ≠ k → (f result k).get? key = result.get? key) {keys : List PyStr} (hkey : key ∉ keys)
    (result : Payload F) : (keys.foldl f result).get? key = result.get? key := by
  induction keys generalizing result with
  | nil => rfl
  | cons k keys ih =>
    rw [List.mem_cons, not_or] at hkey
    rw [List.foldl_cons, ih hkey.2, hf result k hkey.1]

omit [Arithmetic F] in
theorem get?_foldl_of_mem {f : Payload F → PyStr → Payload F} {key : PyStr} {v : Json F}
    (hf : ∀ result k, key ≠ k → (f result k).get? key = result.get? key)
    (hset : ∀ result, (f result key).get? key = some v) {keys : List PyStr} (hkey : key ∈ keys)
    (result : Payload F) : (keys.foldl f result).get? key = some v := by
  induction keys generalizing result with
  | nil => exact absurd hkey List.not_mem_nil
  | cons k keys ih =>
    rw [List.foldl_cons]
    by_cases hmem : key ∈ keys
    · exact ih hmem _
    · obtain rfl := (List.mem_cons.mp hkey).resolve_right hmem
      rw [get?_foldl_of_ne hf hmem, hset]

theorem get?_sumKey_of_ne (result : Payload F) {key k : PyStr} (h : key ≠ k) :
    (sumKey current incoming result k).get? key = result.get? key := by
  unfold sumKey
  simp only
  split_ifs
  · rw [Keyed.get?_set, if_neg h]
  · rfl
  · rfl

theorem get?_mergeDetails_of_ne (result : Payload F) {key k : PyStr} (h : key ≠ k) :
    (mergeDetails current incoming result k).get? key = result.get? key := by
  unfold mergeDetails
  split_ifs
  · rw [Keyed.get?_set, if_neg h]
  · rfl

theorem get?_sumKey_self (result : Payload F) {key : PyStr} {m n : ℕ} (hc : current.get? key = some (.int m))
    (hi : incoming.get? key = some (.int n)) :
    (sumKey current incoming result key).get? key = some (.int ((m + n : ℕ) : ℤ)) := by
  unfold sumKey
  rw [if_pos (Or.inl (Keyed.mem_keys.mpr ⟨_, hc⟩)), hc, hi]
  exact (Keyed.get?_set _ _ _ _).trans (if_pos rfl)

/-- The standard counts are summed. -/
theorem get?_combine_token {key : PyStr} (hkey : key ∈ usageTokenKeys) {m n : ℕ}
    (hc : current.get? key = some (.int m)) (hi : incoming.get? key = some (.int n)) :
    (combine current incoming).get? key = some (.int ((m + n : ℕ) : ℤ)) := by
  have hothers : usageTokenKeys.all (fun k ↦ decide (k ≠ py "completion_tokens" ∧ k ≠ py "prompt_tokens" ∧
    k ∉ usageDetailKeys)) = true := by decide
  obtain ⟨hcompletion, hprompt, hdetails⟩ := of_decide_eq_true (List.all_eq_true.mp hothers key hkey)
  have hsummable : key ∈ usageSummableKeys := List.mem_append_left _ hkey
  unfold combine
  simp only
  rw [Keyed.get?_set, if_neg hcompletion, Keyed.get?_set, if_neg hprompt,
    get?_foldl_of_ne (fun result k h ↦ get?_mergeDetails_of_ne result h) hdetails,
    get?_foldl_of_mem (fun result k h ↦ get?_sumKey_of_ne result h) (fun result ↦ get?_sumKey_self result hc hi)
      hsummable]

/-- The other names keep the latest value. -/
theorem get?_combine_other {key : PyStr} (hkey : key ∈ [py "prompt_eval_count", py "prompt_n", py "cache_n",
    py "eval_count", py "predicted_n"]) :
    (combine current incoming).get? key = (incoming.get? key).or (current.get? key) := by
  have hothers : [py "prompt_eval_count", py "prompt_n", py "cache_n", py "eval_count", py "predicted_n"].all
    (fun k ↦ decide (k ≠ py "completion_tokens" ∧ k ≠ py "prompt_tokens" ∧ k ∉ usageDetailKeys ∧
      k ∉ usageSummableKeys)) = true := by decide
  obtain ⟨hcompletion, hprompt, hdetails, hsums⟩ := of_decide_eq_true (List.all_eq_true.mp hothers key hkey)
  unfold combine
  simp only
  rw [Keyed.get?_set, if_neg hcompletion, Keyed.get?_set, if_neg hprompt,
    get?_foldl_of_ne (fun result k h ↦ get?_mergeDetails_of_ne result h) hdetails,
    get?_foldl_of_ne (fun result k h ↦ get?_sumKey_of_ne result h) hsums, Keyed.get?_union]

/-- A name that keeps the first count that is not zero: the incoming one, its standard name, the current one. -/
theorem alias_eq (hc : Counted current) (hi : Counted incoming) {key standard : PyStr} (hkey : key ∈ countKeys)
    (hstandard : standard ∈ countKeys) :
    (field incoming key).orElse ((field incoming standard).orElse ((current.get? key).getD (.int 0))) =
      .int (firstOf [count incoming key, count incoming standard, count current key] : ℕ) := by
  have hlast : (current.get? key).getD (.int 0) = .int (count current key) := by
    rcases hc.get? hkey with ⟨hget, hcount⟩ | hget
    · rw [hget, hcount]
      rfl
    · rw [hget]
      rfl
  rw [hi.orElse hkey, hi.orElse hstandard, hlast]
  simp only [firstOf, List.foldr_cons, List.foldr_nil]
  split_ifs <;> simp_all

theorem get?_combine_prompt (hc : Counted current) (hi : Counted incoming) :
    (combine current incoming).get? (py "prompt_tokens") = some (.int (firstOf
      [count incoming (py "prompt_tokens"), count incoming (py "input_tokens"), count current (py "prompt_tokens")] : ℕ)) := by
  rw [← alias_eq hc hi (by decide) (by decide)]
  unfold combine
  exact (Keyed.get?_set _ _ _ _).trans ((if_neg (by decide)).trans ((Keyed.get?_set _ _ _ _).trans (if_pos rfl)))

theorem get?_combine_completion (hc : Counted current) (hi : Counted incoming) :
    (combine current incoming).get? (py "completion_tokens") = some (.int (firstOf
      [count incoming (py "completion_tokens"), count incoming (py "output_tokens"),
        count current (py "completion_tokens")] : ℕ)) := by
  rw [← alias_eq hc hi (by decide) (by decide)]
  unfold combine
  exact (Keyed.get?_set _ _ _ _).trans (if_pos rfl)

/-- Under another name nothing is counted where both usages count nothing. -/
theorem count_combine_other {key : PyStr} (hkey : key ∈ [py "prompt_eval_count", py "prompt_n", py "cache_n",
    py "eval_count", py "predicted_n"]) (hc : count current key = 0) (hi : count incoming key = 0) :
    count (combine current incoming) key = 0 := by
  unfold count at hc hi ⊢
  rw [get?_combine_other hkey]
  rcases hget : incoming.get? key with - | v
  · exact hc
  · rw [hget] at hi
    exact hi

theorem counted_combine (hc : Normal current i o t) (hi : Normal incoming i' o' t') :
    Counted (combine current incoming) := by
  have hcover : ∀ key ∈ countKeys, key ∈ usageTokenKeys ∨ key = py "prompt_tokens" ∨ key = py "completion_tokens" ∨
      key ∈ [py "prompt_eval_count", py "prompt_n", py "cache_n", py "eval_count", py "predicted_n"] := by
    have hall : countKeys.all (fun key ↦ decide (key ∈ usageTokenKeys ∨ key = py "prompt_tokens" ∨
      key = py "completion_tokens" ∨ key ∈ [py "prompt_eval_count", py "prompt_n", py "cache_n", py "eval_count",
        py "predicted_n"])) = true := by decide
    exact fun key hkey ↦ of_decide_eq_true (List.all_eq_true.mp hall key hkey)
  intro key hkey v hv
  rcases hcover key hkey with htoken | rfl | rfl | hother
  · simp only [usageTokenKeys, List.mem_cons, List.not_mem_nil, or_false] at htoken
    rcases htoken with rfl | rfl | rfl
    · rw [get?_combine_token (by decide) hc.input hi.input] at hv
      exact ⟨_, (Option.some.inj hv).symm⟩
    · rw [get?_combine_token (by decide) hc.output hi.output] at hv
      exact ⟨_, (Option.some.inj hv).symm⟩
    · rw [get?_combine_token (by decide) hc.total hi.total] at hv
      exact ⟨_, (Option.some.inj hv).symm⟩
  · rw [get?_combine_prompt hc.counted hi.counted] at hv
    exact ⟨_, (Option.some.inj hv).symm⟩
  · rw [get?_combine_completion hc.counted hi.counted] at hv
    exact ⟨_, (Option.some.inj hv).symm⟩
  · rw [get?_combine_other hother] at hv
    rcases hget : incoming.get? key with - | w
    · rw [hget] at hv
      exact hc.counted key hkey v hv
    · rw [hget] at hv
      obtain rfl := Option.some.inj hv
      exact hi.counted key hkey w hget

/-- Two normal usages combine to a normal one that holds their sums. -/
theorem normal_combine (hc : Normal current i o t) (hi : Normal incoming i' o' t') :
    Normal (combine current incoming) (i + i') (o + o') (t + t') := by
  refine ⟨counted_combine hc hi, get?_combine_token (by decide) hc.input hi.input,
    get?_combine_token (by decide) hc.output hi.output, get?_combine_token (by decide) hc.total hi.total,
    fun h ↦ ?_, fun h ↦ ?_, fun h hnone ↦ ?_, fun h ↦ ?_, fun h ↦ ?_, fun h ↦ ?_, fun h ↦ ?_⟩
  all_goals obtain ⟨h, h'⟩ := Nat.add_eq_zero_iff.mp h
  · rw [count_of_get? (get?_combine_prompt hc.counted hi.counted), hi.noPrompt h', count_of_get? hi.input, h',
      hc.noPrompt h]
    rfl
  · exact count_combine_other (by decide) (hc.noEval h) (hi.noEval h')
  · rw [get?_combine_other (by decide), Option.or_eq_none_iff] at hnone
    obtain ⟨hprompt, hcache⟩ := hc.noParts h hnone.2
    obtain ⟨hprompt', hcache'⟩ := hi.noParts h' hnone.1
    exact ⟨count_combine_other (by decide) hprompt hprompt',
      count_combine_other (by decide) hcache hcache'⟩
  · rw [count_of_get? (get?_combine_completion hc.counted hi.counted), hi.noCompletion h', count_of_get? hi.output, h',
      hc.noCompletion h]
    rfl
  · exact count_combine_other (by decide) (hc.noEvalCount h) (hi.noEvalCount h')
  · exact count_combine_other (by decide) (hc.noPredicted h) (hi.noPredicted h')
  · obtain ⟨hin, hout⟩ := hc.noTotal h
    obtain ⟨hin', hout'⟩ := hi.noTotal h'
    omega

end Combine

/-! ## Any order and any grouping -/

/-- Payloads merged in some grouping. -/
inductive Merges (F : Type)
  | payload (p : Payload F)
  | merge (a b : Merges F)

namespace Merges

def value : Merges F → Option (Payload F)
  | payload p => some p
  | merge a b => do mergeUsage (← a.value) (← b.value)

def payloads : Merges F → List (Payload F)
  | payload p => [p]
  | merge a b => a.payloads ++ b.payloads

end Merges

/-- A usage that holds the sums of what the payloads count, or nothing where they hold nothing. -/
structure Sums (usage : Payload F) (payloads : List (Payload F)) : Prop where
  counted : Counted usage
  input : inputOf usage = (payloads.map inputOf).sum
  output : outputOf usage = (payloads.map outputOf).sum
  total : totalOf usage = (payloads.map totalOf).sum
  empty : usage.keys = [] ↔ ∀ p ∈ payloads, p.keys = []

omit [Arithmetic F] in
theorem empty_of_keys {usage : Payload F} (h : usage.keys = []) : usage = .empty := by
  apply Keyed.ext_get h
  intro key
  rw [Keyed.get?_eq_none.mpr (by rw [h]; exact List.not_mem_nil)]
  rfl

theorem normalizeUsage_empty : normalizeUsage (.empty : Payload F) = some .empty := rfl

/-- Merging adds up what two usages hold, and the result is normalised. -/
theorem mergeUsage_spec {a b : Payload F} {ps qs : List (Payload F)} (ha : Sums a ps) (hb : Sums b qs) :
    ∃ r, mergeUsage a b = some r ∧ Sums r (ps ++ qs) ∧ normalizeUsage r = some r ∧
      (r.keys ≠ [] → Normal r (inputOf r) (outputOf r) (totalOf r)) := by
  have hnormal {r : Payload F} (hr : Normal r (inputOf a + inputOf b) (outputOf a + outputOf b)
      (totalOf a + totalOf b)) (hfull : ¬ ∀ p ∈ ps ++ qs, p.keys = []) :
      Sums r (ps ++ qs) ∧ normalizeUsage r = some r ∧
        (r.keys ≠ [] → Normal r (inputOf r) (outputOf r) (totalOf r)) := by
    refine ⟨⟨hr.counted, ?_, ?_, ?_, ?_⟩, hr.normalizeUsage_eq, fun _ ↦ ?_⟩
    · rw [hr.inputOf_eq, ha.input, hb.input, List.map_append, List.sum_append]
    · rw [hr.outputOf_eq, ha.output, hb.output, List.map_append, List.sum_append]
    · rw [hr.totalOf_eq, ha.total, hb.total, List.map_append, List.sum_append]
    · exact iff_of_false hr.keys_ne_nil hfull
    · rwa [hr.inputOf_eq, hr.outputOf_eq, hr.totalOf_eq]
  unfold mergeUsage
  by_cases hae : a.keys = []
  · by_cases hbe : b.keys = []
    · obtain rfl := empty_of_keys hae
      obtain rfl := empty_of_keys hbe
      refine ⟨.empty, rfl, ⟨ha.counted, ?_, ?_, ?_, ?_⟩, rfl, fun h ↦ absurd rfl h⟩
      · rw [List.map_append, List.sum_append, ← ha.input, ← hb.input]
        rfl
      · rw [List.map_append, List.sum_append, ← ha.output, ← hb.output]
        rfl
      · rw [List.map_append, List.sum_append, ← ha.total, ← hb.total]
        rfl
      · rw [List.forall_mem_append]
        exact iff_of_true rfl ⟨ha.empty.mp rfl, hb.empty.mp rfl⟩
    · obtain rfl := empty_of_keys hae
      have hb' := normal_normal hb.counted
      have hsum : Normal (normal b) (inputOf (.empty : Payload F) + inputOf b)
          (outputOf (.empty : Payload F) + outputOf b) (totalOf (.empty : Payload F) + totalOf b) := by
        simpa [inputOf, outputOf, totalOf, count, firstOf, Keyed.get?, Keyed.empty] using hb'
      rw [normalizeUsage_empty, normalizeUsage_eq hb.counted hbe]
      refine ⟨normal b, ?_, hnormal hsum fun hall ↦ ?_⟩
      · have hnil : (Keyed.empty : Payload F).keys = [] := rfl
        simp [hb'.keys_ne_nil, hnil]
      · exact hbe (hb.empty.mpr fun p hp ↦ hall p (List.mem_append_right _ hp))
  · have ha' := normal_normal ha.counted
    have hfull : ¬ ∀ p ∈ ps ++ qs, p.keys = [] :=
      fun hall ↦ hae (ha.empty.mpr fun p hp ↦ hall p (List.mem_append_left _ hp))
    rw [normalizeUsage_eq ha.counted hae]
    by_cases hbe : b.keys = []
    · obtain rfl := empty_of_keys hbe
      rw [normalizeUsage_empty]
      exact ⟨normal a, rfl, hnormal ha' hfull⟩
    · have hb' := normal_normal hb.counted
      rw [normalizeUsage_eq hb.counted hbe]
      refine ⟨combine (normal a) (normal b), ?_, hnormal (normal_combine ha' hb') hfull⟩
      simp [ha'.keys_ne_nil, hb'.keys_ne_nil]

theorem Merges.value_spec (m : Merges F) (h : ∀ p ∈ m.payloads, Counted p) :
    ∃ r, m.value = some r ∧ Sums r m.payloads := by
  induction m with
  | payload p =>
    have hp := h p List.mem_cons_self
    refine ⟨p, rfl, hp, ?_, ?_, ?_, ?_⟩ <;> simp [Merges.payloads]
  | merge a b iha ihb =>
    obtain ⟨ra, hra, ha⟩ := iha fun p hp ↦ h p (List.mem_append_left _ hp)
    obtain ⟨rb, hrb, hb⟩ := ihb fun p hp ↦ h p (List.mem_append_right _ hp)
    obtain ⟨r, hr, hsums, -, -⟩ := mergeUsage_spec ha hb
    refine ⟨r, ?_, hsums⟩
    rw [Merges.value, hra, hrb]
    exact hr

/-- A standard count of a payload, once it is normalised. -/
def normalised (key : PyStr) (p : Payload F) : ℤ :=
  match (normalizeUsage p).bind (·.get? key) with
  | some (.int i) => i
  | _ => 0

theorem normalised_eq {p : Payload F} (h : Counted p) : normalised (py "input_tokens") p = inputOf p ∧
    normalised (py "output_tokens") p = outputOf p ∧ normalised (py "total_tokens") p = totalOf p := by
  unfold normalised
  by_cases hempty : p.keys = []
  · obtain rfl := empty_of_keys hempty
    exact ⟨rfl, rfl, rfl⟩
  · have hnormal := normal_normal h
    rw [normalizeUsage_eq h hempty]
    refine ⟨?_, ?_, ?_⟩
    · simp only [Option.bind_some, hnormal.input]
    · simp only [Option.bind_some, hnormal.output]
    · simp only [Option.bind_some, hnormal.total]

theorem sum_normalised {key : PyStr} {f : Payload F → ℕ} {payloads : List (Payload F)}
    (h : ∀ p ∈ payloads, normalised key p = f p) :
    (payloads.map (normalised key)).sum = ((payloads.map f).sum : ℕ) := by
  induction payloads with
  | nil => rfl
  | cons p payloads ih =>
    rw [List.map_cons, List.map_cons, List.sum_cons, List.sum_cons, Int.natCast_add, h p List.mem_cons_self,
      ih fun q hq ↦ h q (List.mem_cons_of_mem p hq)]

/-- In whatever order and grouping payloads are merged, the standard counts are the sums of theirs, and
normalising them again changes nothing. -/
theorem mergeUsage_sums (payloads : List (Payload F)) (hcounted : ∀ p ∈ payloads, Counted p) (a b : Merges F)
    (hperm : (a.merge b).payloads.Perm payloads) :
    ∃ r, (a.merge b).value = some r ∧ normalizeUsage r = some r ∧ ∀ key ∈ usageTokenKeys,
      r.get? key = if payloads.all (·.keys.isEmpty) then none
        else some (.int (payloads.map (normalised key)).sum) := by
  obtain ⟨ra, hra, ha⟩ := a.value_spec fun p hp ↦ hcounted p (hperm.subset (List.mem_append_left _ hp))
  obtain ⟨rb, hrb, hb⟩ := b.value_spec fun p hp ↦ hcounted p (hperm.subset (List.mem_append_right _ hp))
  obtain ⟨r, hr, hsums, hagain, hnormal⟩ := mergeUsage_spec ha hb
  rw [← Merges.payloads] at hsums
  have hvalue : (a.merge b).value = some r := by
    rw [Merges.value, hra, hrb]
    exact hr
  refine ⟨r, hvalue, hagain, ?_⟩
  by_cases hempty : r.keys = []
  · have hall : payloads.all (·.keys.isEmpty) = true := by
      rw [List.all_eq_true]
      exact fun p hp ↦ List.isEmpty_iff.mpr (hsums.empty.mp hempty p (hperm.mem_iff.mpr hp))
    intro key _
    rw [if_pos hall, Keyed.get?_eq_none, hempty]
    exact List.not_mem_nil
  · have hnot : ¬ payloads.all (·.keys.isEmpty) = true := by
      rw [List.all_eq_true]
      exact fun hall ↦ hempty (hsums.empty.mpr fun p hp ↦ List.isEmpty_iff.mp (hall p (hperm.mem_iff.mp hp)))
    have hinput : (payloads.map (normalised (py "input_tokens"))).sum = (inputOf r : ℤ) := by
      rw [sum_normalised fun p hp ↦ (normalised_eq (hcounted p hp)).1, hsums.input, (hperm.map inputOf).sum_eq]
    have houtput : (payloads.map (normalised (py "output_tokens"))).sum = (outputOf r : ℤ) := by
      rw [sum_normalised fun p hp ↦ (normalised_eq (hcounted p hp)).2.1, hsums.output, (hperm.map outputOf).sum_eq]
    have htotal : (payloads.map (normalised (py "total_tokens"))).sum = (totalOf r : ℤ) := by
      rw [sum_normalised fun p hp ↦ (normalised_eq (hcounted p hp)).2.2, hsums.total, (hperm.map totalOf).sum_eq]
    simp only [usageTokenKeys, List.forall_mem_cons, hnot, if_false, hinput, houtput, htotal]
    exact ⟨(hnormal hempty).input, (hnormal hempty).output, (hnormal hempty).total, List.forall_mem_nil _⟩

/-- The floats of the standard library's reader, of whose numbers no more than integers is used. -/
def integerArithmetic : Arithmetic FloatLit where
  toRuntime := @Sop.textRuntime asciiTables
  ofInt _ := .nan
  add _ _ := .nan
  toInt _ := none
  parseInt _ := none

def isWhole {F : Type} : Json F → Bool
  | .int i => decide (0 ≤ i)
  | _ => false

/-- A payload of each form: 3 + 5 + (2 + 4) tokens went in. -/
theorem mergeUsage_sums_forms :
    let _ := integerArithmetic
    let openai : Payload FloatLit := .ofList [(py "prompt_tokens", .int 3), (py "completion_tokens", .int 1)]
    let ollama : Payload FloatLit := .ofList [(py "prompt_eval_count", .int 5), (py "eval_count", .int 0)]
    let llama : Payload FloatLit := .ofList [(py "prompt_n", .int 2), (py "cache_n", .int 4)]
    ∃ r, (Merges.merge (.payload ollama) (.merge (.payload openai) (.payload llama))).value = some r ∧
      normalizeUsage r = some r ∧ r.get? (py "input_tokens") = some (.int 14) := by
  intro arithmetic openai ollama llama
  have hcounted : ∀ p ∈ [ollama, openai, llama], Counted p := by
    have hall : [ollama, openai, llama].all (fun p ↦ p.entries.all fun e ↦ isWhole e.2) = true := by decide
    intro p hp key _ v hv
    have hentry := List.all_eq_true.mp (List.all_eq_true.mp hall p hp) (key, v) (Keyed.get?_eq_some_iff.mp hv)
    cases v with
    | int i => exact ⟨i.toNat, congrArg Json.int (Int.toNat_of_nonneg (of_decide_eq_true hentry)).symm⟩
    | _ => cases hentry
  obtain ⟨r, hr, hagain, hsums⟩ := mergeUsage_sums [ollama, openai, llama] hcounted (.payload ollama)
    (.merge (.payload openai) (.payload llama)) (.refl _)
  refine ⟨r, hr, hagain, ?_⟩
  have hsum : ([ollama, openai, llama].map (normalised (py "input_tokens"))).sum = 14 := by decide
  rw [hsums (py "input_tokens") (by decide), if_neg (by decide), hsum]

end FourCE.Usage

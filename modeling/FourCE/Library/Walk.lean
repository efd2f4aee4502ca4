import FourCE.Library.Acyclic

/-!
# Walks that remember where they were

From an element one goes on to the next one until there is none or one that was seen comes again.  The walk gets a
number of steps and has no result where they do not suffice.
-/

namespace FourCE.Library

open Relation

variable {α : Type} {next : α → Option α}

/-- The relation of an element to the next one. -/
def Leads (next : α → Option α) (a b : α) : Prop := next a = some b

section Walk

variable [DecidableEq α]

/-- The elements that a walk visits, and the seen one that it ends at. -/
def walk (next : α → Option α) : ℕ → Option α → List α → Option (List α × Option α)
  | _, none, _ => some ([], none)
  | 0, some _, _ => none
  | n + 1, some a, seen =>
    if a ∈ seen then some ([], some a) else (walk next n (next a) (a :: seen)).map fun r ↦ (a :: r.1, r.2)

/-- What a walk from a link over what was seen has found. -/
structure Walked (next : α → Option α) (link : Option α) (seen visited : List α) (stop : Option α) : Prop where
  fresh : ∀ a ∈ visited, a ∉ seen
  nodup : visited.Nodup
  start : ∀ a, link = some a → a ∈ visited ∨ stop = some a
  closed : ∀ a ∈ visited, ∀ b, next a = some b → b ∈ visited ∨ stop = some b
  stopped : ∀ a, stop = some a → a ∈ seen ∨ a ∈ visited
  reached : ∀ b, b ∈ visited ∨ stop = some b → ∃ a, link = some a ∧ ReflTransGen (Leads next) a b

/-- As many steps suffice as there are elements with a next one that were not seen. -/
theorem walk_spec {xs : List α} (hxs : ∀ a b, next a = some b → a ∈ xs) {n : ℕ} {link : Option α} {seen : List α}
    (hnodup : seen.Nodup) (hseen : ∀ a ∈ seen, a ∈ xs) (hn : xs.length < n + seen.length) :
    ∃ visited stop, walk next n link seen = some (visited, stop) ∧ Walked next link seen visited stop := by
  induction n generalizing link seen with
  | zero =>
    have hle := (hnodup.subperm hseen).length_le
    omega
  | succ n ih =>
    rcases link with - | a
    · exact ⟨[], none, rfl, by constructor <;> simp⟩
    · rw [walk]
      by_cases ha : a ∈ seen
      · rw [if_pos ha]
        refine ⟨[], some a, rfl, ?_⟩
        constructor
        · simp
        · simp
        · simp
        · simp
        · intro b hb
          exact .inl (Option.some.inj hb ▸ ha)
        · rintro b (hb | hb)
          · cases hb
          · exact ⟨a, rfl, Option.some.inj hb ▸ .refl⟩
      · rw [if_neg ha]
        have hmore : ∃ visited stop, walk next n (next a) (a :: seen) = some (visited, stop) ∧
            Walked next (next a) (a :: seen) visited stop := by
          by_cases hmem : a ∈ xs
          · exact ih (List.nodup_cons.mpr ⟨ha, hnodup⟩) (List.forall_mem_cons.mpr ⟨hmem, hseen⟩)
              (by rw [List.length_cons]; omega)
          · have hend : next a = none := by
              rcases hb : next a with - | b
              · rfl
              · exact absurd (hxs a b hb) hmem
            rw [hend]
            refine ⟨[], none, ?_, by constructor <;> simp⟩
            cases n <;> rfl
        obtain ⟨visited, stop, hwalk, h⟩ := hmore
        refine ⟨a :: visited, stop, by rw [hwalk]; rfl, ?_⟩
        constructor
        · exact List.forall_mem_cons.mpr ⟨ha, fun b hb hmem ↦ h.fresh b hb (List.mem_cons_of_mem a hmem)⟩
        · exact List.nodup_cons.mpr ⟨fun hmem ↦ h.fresh a hmem List.mem_cons_self, h.nodup⟩
        · rintro b ⟨⟩
          exact .inl List.mem_cons_self
        · refine List.forall_mem_cons.mpr ⟨fun b hb ↦ ?_, fun c hc b hb ↦ ?_⟩
          · exact (h.start b hb).imp_left (List.mem_cons_of_mem a)
          · exact (h.closed c hc b hb).imp_left (List.mem_cons_of_mem a)
        · intro b hb
          rcases h.stopped b hb with hb | hb
          · rcases List.mem_cons.mp hb with rfl | hb
            · exact .inr List.mem_cons_self
            · exact .inl hb
          · exact .inr (List.mem_cons_of_mem a hb)
        · intro b hb
          refine ⟨a, rfl, ?_⟩
          by_cases hba : b = a
          · rw [hba]
          · obtain ⟨c, hc, hcb⟩ := h.reached b (hb.imp_left fun hmem ↦ (List.mem_cons.mp hmem).resolve_left hba)
            exact .head hc hcb

/-- Everything that the link leads to is visited, unless the walk ends at something seen before. -/
theorem Walked.mem_of_reach {link : Option α} {seen visited : List α} {stop : Option α}
    (h : Walked next link seen visited stop) (hstop : ∀ a, stop = some a → a ∈ visited) {a b : α} (hlink : link = some a)
    (hab : ReflTransGen (Leads next) a b) : b ∈ visited := by
  induction hab with
  | refl => exact (h.start a hlink).elim id (hstop a)
  | tail _ hbc ih => exact (h.closed _ ih _ hbc).elim id (hstop _)

/-- From nothing seen the walk visits what the link leads to. -/
theorem Walked.mem_iff {a : α} {visited : List α} {stop : Option α} (h : Walked next (some a) [] visited stop) {b : α} :
    b ∈ visited ↔ ReflTransGen (Leads next) a b := by
  constructor
  · intro hb
    obtain ⟨a', ha, hab⟩ := h.reached b (.inl hb)
    exact Option.some.inj ha ▸ hab
  · exact h.mem_of_reach (fun c hc ↦ (h.stopped c hc).resolve_left List.not_mem_nil) rfl

/-- A walk on from an element ends at it just where it is on a cycle. -/
theorem Walked.stop_eq_iff {a : α} {visited : List α} {stop : Option α} (h : Walked next (next a) [a] visited stop) :
    stop = some a ↔ TransGen (Leads next) a a := by
  constructor
  · intro hstop
    obtain ⟨b, hb, hba⟩ := h.reached a (.inr hstop)
    exact .head' hb hba
  · intro hcycle
    by_contra hstop
    obtain ⟨b, hb, hba⟩ := TransGen.head'_iff.mp hcycle
    have hmem := h.mem_of_reach (fun c hc ↦ (h.stopped c hc).resolve_left fun hca ↦
      hstop (List.mem_singleton.mp hca ▸ hc)) hb hba
    exact h.fresh a hmem (List.mem_singleton_self a)

end Walk

/-! ## Cycles -/

theorem Leads.unique {a b c : α} (hb : Leads next a b) (hc : Leads next a c) : b = c := Option.some.inj (hb.symm.trans hc)

/-- Of two elements that one leads to, one leads to the other. -/
theorem reach_or_reach {a b c : α} (hab : ReflTransGen (Leads next) a b) (hac : ReflTransGen (Leads next) a c) :
    ReflTransGen (Leads next) b c ∨ ReflTransGen (Leads next) c b :=
  ReflTransGen.total_of_right_unique (fun _ _ _ ↦ Leads.unique) hab hac

/-- From an element of a cycle everything that it leads to leads back. -/
theorem reach_back {a b : α} (hcycle : TransGen (Leads next) a a) (hab : ReflTransGen (Leads next) a b) :
    ReflTransGen (Leads next) b a := by
  induction hab with
  | refl => exact .refl
  | tail _ hbc ih =>
    rcases ReflTransGen.cases_head ih with rfl | ⟨d, hd, hda⟩
    · obtain ⟨d, hd, hda⟩ := TransGen.head'_iff.mp hcycle
      exact hbc.unique hd ▸ hda
    · exact hbc.unique hd ▸ hda

/-- The cycle of an element is that of each element that it leads to. -/
theorem cycle_of_reach {a b : α} (hcycle : TransGen (Leads next) a a) (hab : ReflTransGen (Leads next) a b) :
    TransGen (Leads next) b b := by
  have hba := reach_back hcycle hab
  rcases hab.cases_head with rfl | ⟨c, hc, hcb⟩
  · exact hcycle
  · exact TransGen.trans_right hba (.head' hc hcb)

/-- Where there are no cycles every element leads to one without a next one. -/
theorem exists_end [DecidableEq α] {xs : List α} (hxs : ∀ a b, next a = some b → b ∈ xs) (h : Acyclic (Leads next))
    (a : α) : ∃ b, ReflTransGen (Leads next) a b ∧ next b = none := by
  induction hheight : height (Leads next) xs a using Nat.strongRecOn generalizing a with
  | _ n ih =>
    rcases hb : next a with - | b
    · exact ⟨a, .refl, hb⟩
    · have hlt := height_lt hxs (fun ⟨c, _, hc⟩ ↦ h c hc) (hb : Leads next a b)
      obtain ⟨c, hbc, hc⟩ := ih _ (hheight ▸ hlt) b rfl
      exact ⟨c, .head hb hbc, hc⟩

/-! ## Mending -/

section Mending

variable [DecidableEq α]

/-- The next elements without those of the mended ones. -/
def cut (next : α → Option α) (mended : List α) (a : α) : Option α := if a ∈ mended then none else next a

theorem leads_cut {mended : List α} {a b : α} : Leads (cut next mended) a b ↔ a ∉ mended ∧ Leads next a b := by
  unfold Leads cut
  by_cases ha : a ∈ mended
  · simp [ha]
  · simp [ha]

/-- A cycle stays where nothing on it is mended. -/
theorem cycle_cut_iff {mended : List α} {a : α} : TransGen (Leads (cut next mended)) a a ↔
    TransGen (Leads next) a a ∧ ∀ b ∈ mended, ¬ ReflTransGen (Leads next) a b := by
  constructor
  · intro hcycle
    have hback : TransGen (Leads next) a a := TransGen.mono (fun x y (hxy : Leads (cut next mended) x y) ↦ (leads_cut.mp hxy).2) a a hcycle
    have hkept : ∀ b, ReflTransGen (Leads next) a b → ReflTransGen (Leads (cut next mended)) a b := by
      intro b hab
      induction hab with
      | refl => exact .refl
      | tail _ hbc ih =>
        obtain ⟨y, hy, -⟩ := TransGen.head'_iff.mp (cycle_of_reach hcycle ih)
        exact ih.tail ((leads_cut.mp hy).2.unique hbc ▸ hy)
    refine ⟨hback, fun b hb hab ↦ ?_⟩
    obtain ⟨y, hy, -⟩ := TransGen.head'_iff.mp (cycle_of_reach hcycle (hkept b hab))
    exact (leads_cut.mp hy).1 hb
  · rintro ⟨hcycle, hfree⟩
    have hkeep {b c : α} (hab : ReflTransGen (Leads next) a b) (hbc : Leads next b c) :
        Leads (cut next mended) b c := leads_cut.mpr ⟨fun hb ↦ hfree b hb hab, hbc⟩
    obtain ⟨b, hab, hba⟩ := TransGen.head'_iff.mp hcycle
    have hway : ∀ c, ReflTransGen (Leads next) b c → TransGen (Leads (cut next mended)) a c := by
      intro c hbc
      induction hbc with
      | refl => exact .single (hkeep .refl hab)
      | tail hbx hxy ih => exact ih.tail (hkeep (.head hab hbx) hxy)
    exact hway a hba

/-- What is mended among the elements gone over: those that miss the next one, and one on each cycle. -/
structure Mended (next : α → Option α) (Missing : α → Prop) (done mended : List α) : Prop where
  cause : ∀ a ∈ mended, a ∈ done ∧ (Missing a ∨ TransGen (Leads next) a a)
  missing : ∀ a ∈ done, Missing a → a ∈ mended
  cycles : ∀ a ∈ done, TransGen (Leads next) a a → ∃ b ∈ mended, ReflTransGen (Leads next) a b
  once : ∀ a ∈ mended, ∀ b ∈ mended, TransGen (Leads next) a a → ReflTransGen (Leads next) a b → a = b

variable {Missing : α → Prop} {done mended : List α}

omit [DecidableEq α] in
theorem Mended.nil (next : α → Option α) (Missing : α → Prop) : Mended next Missing [] [] := by
  constructor <;> simp

/-- An element is mended that misses the next one or is on a cycle that is not mended yet. -/
theorem Mended.mend (h : Mended next Missing done mended) (hend : ∀ a, Missing a → ¬ TransGen (Leads next) a a) {a : α}
    (ha : Missing a ∨ TransGen (Leads (cut next mended)) a a) : Mended next Missing (done ++ [a]) (mended ++ [a]) := by
  have hcause : Missing a ∨ TransGen (Leads next) a a := ha.imp_right fun hc ↦ (cycle_cut_iff.mp hc).1
  have hapart : ∀ b ∈ mended, TransGen (Leads next) a a → ¬ ReflTransGen (Leads next) a b := by
    intro b hb hcycle hab
    rcases ha with hmissing | hcut
    · exact hend a hmissing hcycle
    · exact (cycle_cut_iff.mp hcut).2 b hb hab
  constructor
  · intro b hb
    rcases List.mem_append.mp hb with hb | hb
    · exact (h.cause b hb).imp_left (List.mem_append_left _)
    · obtain rfl := List.mem_singleton.mp hb
      exact ⟨by simp, hcause⟩
  · intro b hb hmissing
    rcases List.mem_append.mp hb with hb | hb
    · exact List.mem_append_left _ (h.missing b hb hmissing)
    · exact List.mem_append_right _ hb
  · intro b hb hcycle
    rcases List.mem_append.mp hb with hb | hb
    · obtain ⟨c, hc, hbc⟩ := h.cycles b hb hcycle
      exact ⟨c, List.mem_append_left _ hc, hbc⟩
    · obtain rfl := List.mem_singleton.mp hb
      exact ⟨b, by simp, .refl⟩
  · intro b hb c hc hcycle hbc
    rcases List.mem_append.mp hb with hold | hnew <;> rcases List.mem_append.mp hc with hold' | hnew'
    · exact h.once b hold c hold' hcycle hbc
    · have hca := List.mem_singleton.mp hnew'
      rw [hca] at hbc
      exact absurd (reach_back hcycle hbc) (hapart b hold (cycle_of_reach hcycle hbc))
    · have hba := List.mem_singleton.mp hnew
      rw [hba] at hcycle hbc
      exact absurd hbc (hapart c hold' hcycle)
    · rw [List.mem_singleton.mp hnew, List.mem_singleton.mp hnew']

/-- Any other element stays as it is. -/
theorem Mended.keep (h : Mended next Missing done mended) {a : α} (hmissing : ¬ Missing a)
    (hcut : ¬ TransGen (Leads (cut next mended)) a a) : Mended next Missing (done ++ [a]) mended := by
  constructor
  · exact fun b hb ↦ (h.cause b hb).imp_left (List.mem_append_left _)
  · intro b hb hb'
    rcases List.mem_append.mp hb with hb | hb
    · exact h.missing b hb hb'
    · exact absurd (List.mem_singleton.mp hb ▸ hb') hmissing
  · intro b hb hcycle
    rcases List.mem_append.mp hb with hb | hb
    · exact h.cycles b hb hcycle
    · obtain rfl := List.mem_singleton.mp hb
      by_contra hnone
      exact hcut (cycle_cut_iff.mpr ⟨hcycle, fun c hc hbc ↦ hnone ⟨c, hc, hbc⟩⟩)
  · exact h.once

/-- Once all are gone over no cycle is left. -/
theorem Mended.acyclic (h : Mended next Missing done mended) (hdone : ∀ a b, next a = some b → a ∈ done) :
    Acyclic (Leads (cut next mended)) := by
  intro a hcut
  obtain ⟨hcycle, hfree⟩ := cycle_cut_iff.mp hcut
  obtain ⟨b, hb, -⟩ := TransGen.head'_iff.mp hcycle
  obtain ⟨c, hc, hac⟩ := h.cycles a (hdone a b hb) hcycle
  exact hfree c hc hac

end Mending

/-! ## Search -/

section Search

variable [DecidableEq α] (children : α → List α)

/-- What can be reached below an element and was not seen, each after what is below it, with all that was seen. -/
def search : ℕ → α → List α × List α → Option (List α × List α)
  | 0, _, _ => none
  | n + 1, a, s => (children a).foldlM (fun s c ↦
      if c ∈ s.1 then some s else (search n c (c :: s.1, s.2)).map fun s ↦ (s.1, s.2 ++ [c])) s

/-- What a search has found below some elements, all of whose children it has gone over. -/
structure Searched (below : List α) (s : List α × List α) (found : List α) (s' : List α × List α) : Prop where
  output : s'.2 = s.2 ++ found
  nodup : s'.1.Nodup
  seen : ∀ b, b ∈ s'.1 ↔ b ∈ s.1 ∨ b ∈ found
  fresh : ∀ b ∈ found, b ∉ s.1
  once : found.Nodup
  start : ∀ c ∈ below, c ∈ s'.1
  closed : ∀ b ∈ found, ∀ c ∈ children b, c ∈ s'.1
  reached : ∀ b ∈ found, ∃ c ∈ below, ReflTransGen (fun x y ↦ y ∈ children x) c b

variable {children}

/-- As many turns suffice as there are elements that were not seen. -/
theorem search_spec {xs : List α} (hxs : ∀ a, ∀ c ∈ children a, c ∈ xs) {n : ℕ} {a : α} {s : List α × List α}
    (hnodup : s.1.Nodup) (hseen : ∀ b ∈ s.1, b ∈ xs) (hn : xs.length < n + s.1.length) :
    ∃ found s', search children n a s = some s' ∧ Searched children (children a) s found s' := by
  induction n generalizing a s with
  | zero =>
    have hle := (hnodup.subperm hseen).length_le
    omega
  | succ n ih =>
    rw [search]
    have hbelow := hxs a
    generalize children a = below at hbelow ⊢
    induction below generalizing s with
    | nil => exact ⟨[], s, rfl, by constructor <;> simp [hnodup]⟩
    | cons c below ihb =>
      obtain ⟨hc, hrest⟩ := List.forall_mem_cons.mp hbelow
      rw [List.foldlM_cons]
      by_cases hmem : c ∈ s.1
      · obtain ⟨found, s', hfold, h⟩ := ihb hnodup hseen hn hrest
        refine ⟨found, s', ?_, ⟨h.output, h.nodup, h.seen, h.fresh, h.once, ?_, h.closed, ?_⟩⟩
        · rw [if_pos hmem]
          exact hfold
        · exact List.forall_mem_cons.mpr ⟨(h.seen c).mpr (.inl hmem), h.start⟩
        · intro b hb
          obtain ⟨d, hd, hdb⟩ := h.reached b hb
          exact ⟨d, List.mem_cons_of_mem c hd, hdb⟩
      · obtain ⟨first, s₁, hsearch, h₁⟩ := ih (a := c) (s := (c :: s.1, s.2)) (List.nodup_cons.mpr ⟨hmem, hnodup⟩)
          (List.forall_mem_cons.mpr ⟨hc, hseen⟩) (by simp only [List.length_cons]; omega)
        have hgrown : s.1.length ≤ s₁.1.length := by
          refine (hnodup.subperm fun b hb ↦ (h₁.seen b).mpr (.inl (List.mem_cons_of_mem c hb))).length_le
        have hinside : ∀ b ∈ s₁.1, b ∈ xs := by
          intro b hb
          rcases (h₁.seen b).mp hb with hb | hb
          · exact List.forall_mem_cons.mpr ⟨hc, hseen⟩ b hb
          · obtain ⟨d, hd, hdb⟩ := h₁.reached b hb
            rcases ReflTransGen.cases_tail hdb with rfl | ⟨e, -, heb⟩
            · exact hxs c _ hd
            · exact hxs e b heb
        obtain ⟨found, s', hfold, h⟩ := ihb (s := (s₁.1, s₁.2 ++ [c])) h₁.nodup hinside
          (by simp only; omega) hrest
        have hcfirst : c ∉ first := fun hb ↦ h₁.fresh c hb List.mem_cons_self
        have hcs₁ : c ∈ s₁.1 := (h₁.seen c).mpr (.inl List.mem_cons_self)
        have hlift {b : α} (hb : b ∈ s₁.1) : b ∈ s'.1 := (h.seen b).mpr (.inl hb)
        refine ⟨first ++ [c] ++ found, s', ?_, ?_⟩
        · rw [if_neg hmem, hsearch]
          exact hfold
        · constructor
          · rw [h.output, h₁.output]
            simp only [List.append_assoc]
          · exact h.nodup
          · intro b
            rw [h.seen, h₁.seen]
            simp only [List.mem_cons, List.mem_append, List.not_mem_nil, or_false]
            tauto
          · intro b hb hbs
            rcases List.mem_append.mp hb with hb | hb
            · rcases List.mem_append.mp hb with hb | hb
              · exact h₁.fresh b hb (List.mem_cons_of_mem c hbs)
              · exact hmem (List.mem_singleton.mp hb ▸ hbs)
            · exact h.fresh b hb ((h₁.seen b).mpr (.inl (List.mem_cons_of_mem c hbs)))
          · refine ((h₁.once.append (List.nodup_singleton c) ?_).append h.once) ?_
            · exact List.disjoint_singleton.mpr hcfirst
            · intro b hb hbf
              refine h.fresh b hbf ?_
              rcases List.mem_append.mp hb with hb | hb
              · exact (h₁.seen b).mpr (.inr hb)
              · exact List.mem_singleton.mp hb ▸ hcs₁
          · exact List.forall_mem_cons.mpr ⟨hlift hcs₁, h.start⟩
          · intro b hb d hd
            rcases List.mem_append.mp hb with hb | hb
            · rcases List.mem_append.mp hb with hb | hb
              · exact hlift (h₁.closed b hb d hd)
              · exact hlift (h₁.start d (List.mem_singleton.mp hb ▸ hd))
            · exact h.closed b hb d hd
          · intro b hb
            rcases List.mem_append.mp hb with hb | hb
            · refine ⟨c, List.mem_cons_self, ?_⟩
              rcases List.mem_append.mp hb with hb | hb
              · obtain ⟨d, hd, hdb⟩ := h₁.reached b hb
                exact .head hd hdb
              · rw [List.mem_singleton.mp hb]
            · obtain ⟨d, hd, hdb⟩ := h.reached b hb
              exact ⟨d, List.mem_cons_of_mem c hd, hdb⟩

/-- From one element the search finds all the others that it leads to. -/
theorem search_from {xs : List α} (hxs : ∀ a, ∀ c ∈ children a, c ∈ xs) {a : α} (ha : a ∈ xs) {n : ℕ}
    (hn : xs.length ≤ n) : ∃ found s', search children n a ([a], []) = some s' ∧ s'.2 = found ∧ found.Nodup ∧
      ∀ b, b ∈ found ↔ b ≠ a ∧ ReflTransGen (fun x y ↦ y ∈ children x) a b := by
  obtain ⟨found, s', hsearch, h⟩ := search_spec hxs (n := n) (a := a) (s := ([a], [])) (List.nodup_singleton a)
    (List.forall_mem_singleton.mpr ha) (by simp only [List.length_singleton]; omega)
  refine ⟨found, s', hsearch, h.output, h.once, fun b ↦ ⟨fun hb ↦ ⟨?_, ?_⟩, ?_⟩⟩
  · exact fun hba ↦ h.fresh b hb (List.mem_singleton.mpr hba)
  · obtain ⟨c, hc, hcb⟩ := h.reached b hb
    exact .head hc hcb
  · rintro ⟨hne, hab⟩
    have hall : b ∈ s'.1 := by
      clear hne
      induction hab with
      | refl => exact (h.seen a).mpr (.inl (List.mem_singleton_self a))
      | @tail c d _ hcd ih =>
        rcases (h.seen c).mp ih with hc | hc
        · exact h.start d (List.mem_singleton.mp hc ▸ hcd)
        · exact h.closed c hc d hcd
    exact ((h.seen b).mp hall).resolve_left fun hb ↦ hne (List.mem_singleton.mp hb)

end Search

/-! ## With a stack -/

section Gather

variable [DecidableEq α] (children : α → List α)

/-- One element more that was seen and has to be looked at. -/
def push (s : List α × List α) (c : α) : List α × List α := if c ∈ s.2 then s else (c :: s.1, c :: s.2)

/-- The elements seen from those on a stack, in a number of turns. -/
def gather : ℕ → List α → List α → Option (List α)
  | _, [], seen => some seen
  | 0, _ :: _, _ => none
  | n + 1, a :: stack, seen =>
    let s := (children a).foldl push (stack, seen)
    gather n s.1 s.2

variable {children}

theorem foldl_push (cs : List α) {s : List α × List α} (hnodup : s.2.Nodup) :
    ∃ new, cs.foldl push s = (new ++ s.1, new ++ s.2) ∧ (new ++ s.2).Nodup ∧
      ∀ c, c ∈ new ↔ c ∈ cs ∧ c ∉ s.2 := by
  induction cs generalizing s with
  | nil => exact ⟨[], rfl, hnodup, by simp⟩
  | cons a cs ih =>
    rw [List.foldl_cons, push]
    by_cases ha : a ∈ s.2
    · obtain ⟨new, hfold, hnew, hmem⟩ := ih hnodup
      refine ⟨new, by rw [if_pos ha]; exact hfold, hnew, fun c ↦ ?_⟩
      rw [hmem, List.mem_cons]
      constructor
      · exact fun h ↦ ⟨.inr h.1, h.2⟩
      · exact fun h ↦ ⟨h.1.resolve_left fun hca ↦ h.2 (hca ▸ ha), h.2⟩
    · obtain ⟨new, hfold, hnew, hmem⟩ := ih (s := (a :: s.1, a :: s.2)) (List.nodup_cons.mpr ⟨ha, hnodup⟩)
      refine ⟨new ++ [a], ?_, by simpa using hnew, fun c ↦ ?_⟩
      · rw [if_neg ha, hfold]
        simp
      · rw [List.mem_append, hmem, List.mem_cons, List.mem_singleton, List.mem_cons, not_or]
        by_cases hca : c = a
        · subst hca
          simp [ha]
        · simp [hca]

/-- As many turns suffice as there are elements to look at or not seen yet. -/
theorem gather_spec {xs : List α} (hxs : ∀ a, ∀ c ∈ children a, c ∈ xs) {n : ℕ} {stack seen : List α}
    (hnodup : seen.Nodup) (hseen : ∀ b ∈ seen, b ∈ xs) (hstack : ∀ b ∈ stack, b ∈ seen)
    (hclosed : ∀ b ∈ seen, b ∉ stack → ∀ c ∈ children b, c ∈ seen) (hn : stack.length + xs.length ≤ n + seen.length) :
    ∃ found, gather children n stack seen = some found ∧
      ∀ b, b ∈ found ↔ b ∈ seen ∨ ∃ a ∈ stack, ReflTransGen (fun x y ↦ y ∈ children x) a b := by
  induction n generalizing stack seen with
  | zero =>
    rcases stack with - | ⟨a, stack⟩
    · exact ⟨seen, rfl, by simp⟩
    · have hle := (hnodup.subperm hseen).length_le
      rw [List.length_cons] at hn
      omega
  | succ n ih =>
    rcases stack with - | ⟨a, stack⟩
    · exact ⟨seen, rfl, by simp⟩
    · obtain ⟨new, hfold, hnew, hmem⟩ := foldl_push (children a) (s := (stack, seen)) hnodup
      have hin : ∀ b ∈ new ++ seen, b ∈ xs := by
        intro b hb
        rcases List.mem_append.mp hb with hb | hb
        · exact hxs a b ((hmem b).mp hb).1
        · exact hseen b hb
      have hstack' : ∀ b ∈ new ++ stack, b ∈ new ++ seen := by
        intro b hb
        rcases List.mem_append.mp hb with hb | hb
        · exact List.mem_append_left _ hb
        · exact List.mem_append_right _ (hstack b (List.mem_cons_of_mem a hb))
      have hdown : ∀ c ∈ children a, c ∈ new ++ seen := by
        intro c hc
        by_cases hcs : c ∈ seen
        · exact List.mem_append_right _ hcs
        · exact List.mem_append_left _ ((hmem c).mpr ⟨hc, hcs⟩)
      have hclosed' : ∀ b ∈ new ++ seen, b ∉ new ++ stack → ∀ c ∈ children b, c ∈ new ++ seen := by
        intro b hb hout c hc
        obtain ⟨hbnew, hbstack⟩ := not_or.mp (List.mem_append.not.mp hout)
        by_cases hba : b = a
        · exact hdown c (hba ▸ hc)
        · refine List.mem_append_right _ (hclosed b ((List.mem_append.mp hb).resolve_left hbnew) ?_ c hc)
          exact fun h ↦ (List.mem_cons.mp h).elim hba hbstack
      -- a way out of what was seen leaves it over an element that has to be looked at
      have hreach {b c : α} (hc : c ∈ new ++ seen) (hcb : ReflTransGen (fun x y ↦ y ∈ children x) c b) :
          b ∈ new ++ seen ∨ ∃ d ∈ new ++ stack, ReflTransGen (fun x y ↦ y ∈ children x) d b := by
        induction hcb with
        | refl => exact .inl hc
        | @tail x y _ hxy ih =>
          rcases ih with hx | ⟨d, hd, hdx⟩
          · by_cases hlook : x ∈ new ++ stack
            · exact .inr ⟨x, hlook, .single hxy⟩
            · exact .inl (hclosed' x hx hlook y hxy)
          · exact .inr ⟨d, hd, hdx.tail hxy⟩
      obtain ⟨found, hgather, hfound⟩ := ih hnew hin hstack' hclosed' (by
        simp only [List.length_append, List.length_cons] at hn ⊢
        omega)
      refine ⟨found, ?_, fun b ↦ ?_⟩
      · rw [gather, hfold]
        exact hgather
      · rw [hfound]
        constructor
        · rintro (hb | ⟨c, hc, hcb⟩)
          · rcases List.mem_append.mp hb with hb | hb
            · exact .inr ⟨a, List.mem_cons_self, .single ((hmem b).mp hb).1⟩
            · exact .inl hb
          · rcases List.mem_append.mp hc with hc | hc
            · exact .inr ⟨a, List.mem_cons_self, .head ((hmem c).mp hc).1 hcb⟩
            · exact .inr ⟨c, List.mem_cons_of_mem a hc, hcb⟩
        · rintro (hb | ⟨c, hc, hcb⟩)
          · exact .inl (List.mem_append_right _ hb)
          · exact hreach (List.mem_append_right _ (hstack c hc)) hcb

end Gather

end FourCE.Library

import FourCE.Overview.Layout

/-!
# Whether the map can be drawn

`measure` marks an id before it goes on and `place` sets its position behind its children, so a cycle of
children stops the one and not the other; the walks up have no guard.  The map is drawn for the histories
in which no cycle of children is below a root and no cycle of parents above the current message.
-/

namespace FourCE.Overview.History

open FourCE.Library FourCE.Python Relation

variable (h : History)

def IsKid (x y : PyStr) : Prop := y ∈ h.kids x

/-- One step up, to a message that is there. -/
def IsAbove (x y : PyStr) : Prop :=
  ∃ m, h.message x = some m ∧ m.parentId.target = some y ∧ (h.message y).isSome = true

variable {h}

theorem mem_of_message {id : PyStr} (hid : (h.message id).isSome = true) : id ∈ h.messages.keys := by
  obtain ⟨m, hm⟩ := Option.isSome_iff_exists.mp hid
  exact Keyed.mem_keys.mpr ⟨_, Option.join_eq_some_iff.mp hm⟩

theorem IsKid.mem (x y : PyStr) (hxy : h.IsKid x y) : y ∈ h.messages.keys :=
  mem_of_message (List.mem_filter.mp hxy).2

theorem IsAbove.mem (x y : PyStr) (hxy : h.IsAbove x y) : y ∈ h.messages.keys := by
  obtain ⟨-, -, -, hy⟩ := hxy
  exact mem_of_message hy

/-! ## Up -/

theorem climb_isSome {stops : PyStr → Bool} {n : ℕ} {link : Link} (hn : 0 < n)
    (hlink : ∀ id, link.target = some id → (h.message id).isSome = true →
      ¬ Looping h.IsAbove id ∧ height h.IsAbove h.messages.keys id + 1 < n) :
    (h.climb stops n link).isSome = true := by
  induction n generalizing link with
  | zero => exact absurd hn (lt_irrefl 0)
  | succ n ih =>
    rw [climb]
    split
    · rfl
    · next id hid =>
      split
      · rfl
      · next m hm =>
        split_ifs
        · rfl
        · rw [Option.isSome_map]
          obtain ⟨hends, hheight⟩ := hlink id hid (by rw [hm]; rfl)
          refine ih (by omega) fun p hp hpm ↦ ?_
          have hstep : h.IsAbove id p := ⟨m, hm, hp, hpm⟩
          have hlower := height_lt (r := h.IsAbove) IsAbove.mem hends hstep
          exact ⟨fun hloop ↦ hends (hloop.of_step hstep), by omega⟩

/-- From below a cycle of parents a walk that nothing stops does not end. -/
theorem climb_looping {n : ℕ} {link : Link} {id : PyStr} (hid : link.target = some id)
    (hloop : Looping h.IsAbove id) : h.climb (fun _ ↦ false) n link = none := by
  induction n generalizing link id with
  | zero => rfl
  | succ n ih =>
    obtain ⟨p, ⟨m, hm, hp, -⟩, hp'⟩ := hloop.exists_step
    rw [climb]
    simp only [hid, hm, Bool.false_eq_true, if_false, ih hp hp', Option.map_none]

/-! ## Down -/

/-- Ids that were seen once each, all of them keys. -/
structure Measured.Sound (m : Measured) (h : History) : Prop where
  nodup : m.seen.Nodup
  mem : ∀ x ∈ m.seen, x ∈ h.messages.keys

theorem Measured.Sound.length_le {m : Measured} (hm : m.Sound h) : m.seen.length ≤ h.messages.keys.length :=
  (hm.nodup.subperm hm.mem).length_le

/-- The ids that are seen grow with each step down, so there are at most as many steps as ids. -/
theorem measure_isSome {n : ℕ} {id : PyStr} {m : Measured} (hid : id ∈ h.messages.keys) (hm : m.Sound h)
    (hn : h.messages.keys.length < n + m.seen.length) :
    ∃ r, h.measure n id m = some r ∧ r.2.Sound h ∧ m.seen.length ≤ r.2.seen.length := by
  induction n generalizing id m with
  | zero =>
    have hle := hm.length_le
    omega
  | succ n ih =>
    have hsum : ∀ (children : List PyStr) (sum : ℕ) (m' : Measured), (∀ c ∈ children, c ∈ h.messages.keys) →
        m'.Sound h → h.messages.keys.length < n + m'.seen.length →
          ∃ r, sumOver (h.measure n) children sum m' = some r ∧ r.2.Sound h ∧
            m'.seen.length ≤ r.2.seen.length := by
      intro children
      induction children with
      | nil => exact fun sum m' _ hm' _ ↦ ⟨_, rfl, hm', le_rfl⟩
      | cons c children ihc =>
        intro sum m' hmem hm' hn'
        obtain ⟨r, hr, hr', hgrown⟩ := ih (hmem c List.mem_cons_self) hm' hn'
        obtain ⟨s, hs, hs', hgrown'⟩ := ihc (sum + r.1) r.2 (fun d hd ↦ hmem d (List.mem_cons_of_mem c hd)) hr'
          (by omega)
        refine ⟨s, ?_, hs', hgrown.trans hgrown'⟩
        rw [sumOver, hr, Option.bind_some, hs]
    rw [measure]
    split_ifs with hseen
    · exact ⟨_, rfl, hm, le_rfl⟩
    · have hm' : Measured.Sound ⟨id :: m.seen, m.span⟩ h := by
        refine ⟨List.nodup_cons.mpr ⟨hseen, hm.nodup⟩, fun x hx ↦ ?_⟩
        rcases List.mem_cons.mp hx with rfl | hx
        · exact hid
        · exact hm.mem x hx
      obtain ⟨r, hr, hr', hgrown⟩ := hsum (h.kids id) 0 ⟨id :: m.seen, m.span⟩ (fun c hc ↦ IsKid.mem id c hc) hm'
        (by simp only [List.length_cons]; omega)
      simp only [hr, Option.map_some]
      simp only [List.length_cons] at hgrown
      refine ⟨_, rfl, ⟨hr'.nodup, hr'.mem⟩, ?_⟩
      show m.seen.length ≤ r.2.seen.length
      omega

variable {rowsTaken : PyStr → ℕ} {span : Keyed PyStr ℕ}

theorem placeAll_isSome {f : PyStr → ℕ → Keyed PyStr Position → Option (Keyed PyStr Position)}
    {children : List PyStr} (hf : ∀ c ∈ children, ∀ slot pm, (f c slot pm).isSome = true) (slot : ℕ)
    (pm : Keyed PyStr Position) : (placeAll f span children slot pm).isSome = true := by
  induction children generalizing slot pm with
  | nil => rfl
  | cons c children ih =>
    obtain ⟨pm', hpm'⟩ := Option.isSome_iff_exists.mp (hf c List.mem_cons_self slot pm)
    rw [placeAll, hpm', Option.bind_some]
    exact ih (fun d hd ↦ hf d (List.mem_cons_of_mem c hd)) _ _

/-- Where no cycle is below it a message is placed. -/
theorem place_isSome {n : ℕ} {id : PyStr} (hid : ¬ Looping h.IsKid id)
    (hn : height h.IsKid h.messages.keys id < n) (level start row : ℕ) (pm : Keyed PyStr Position) :
    (h.place rowsTaken span n id level start row pm).isSome = true := by
  induction n generalizing id level start row pm with
  | zero => exact absurd hn (Nat.not_lt_zero _)
  | succ n ih =>
    rw [place]
    split_ifs
    · rfl
    · rw [Option.isSome_map]
      refine placeAll_isSome (fun c hc slot pm ↦ ?_) start pm
      have hlower := height_lt (r := h.IsKid) IsKid.mem hid hc
      exact ih (fun hloop ↦ hid (hloop.of_step hc)) (by omega) _ _ _ _

/-- No message with a position is above a cycle. -/
def Clean (h : History) (pm : Keyed PyStr Position) : Prop := ∀ x ∈ pm.keys, ¬ Looping h.IsKid x

/-- Messages that can be reached from some have positions behind those that were there. -/
def Adds (h : History) (from_ : PyStr → Prop) (pm pm' : Keyed PyStr Position) : Prop :=
  ∃ es, pm'.entries = pm.entries ++ es ∧ ∀ e ∈ es, ∃ x, from_ x ∧ ReflTransGen h.IsKid x e.1

theorem Adds.refl (from_ : PyStr → Prop) (pm : Keyed PyStr Position) : Adds h from_ pm pm :=
  ⟨[], (List.append_nil _).symm, List.forall_mem_nil _⟩

theorem Adds.trans {from_ : PyStr → Prop} {pm pm' pm'' : Keyed PyStr Position} (h₁ : Adds h from_ pm pm')
    (h₂ : Adds h from_ pm' pm'') : Adds h from_ pm pm'' := by
  obtain ⟨es, hes, hfrom⟩ := h₁
  obtain ⟨fs, hfs, hfrom'⟩ := h₂
  refine ⟨es ++ fs, by rw [hfs, hes, List.append_assoc], fun e he ↦ ?_⟩
  exact (List.mem_append.mp he).elim (hfrom e) (hfrom' e)

/-- A message is placed only where no cycle is below it, once, and with what is below it alone. -/
theorem place_spec {n : ℕ} {id : PyStr} {level start row : ℕ} {pm pm' : Keyed PyStr Position}
    (hpm : Clean h pm) (hplace : h.place rowsTaken span n id level start row pm = some pm') :
    ¬ Looping h.IsKid id ∧ Clean h pm' ∧ Adds h (· = id) pm pm' := by
  induction n generalizing id level start row pm pm' with
  | zero => cases hplace
  | succ n ih =>
    have hall : ∀ (children : List PyStr) (slot : ℕ) (pm pm' : Keyed PyStr Position),
        (∀ c ∈ children, h.IsKid id c) → Clean h pm →
        placeAll (fun child slot ↦ h.place rowsTaken span n child (level + 1) slot (row + 1 + rowsTaken id)) span
          children slot pm = some pm' →
        (∀ c ∈ children, ¬ Looping h.IsKid c) ∧ Clean h pm' ∧ Adds h (h.IsKid id) pm pm' := by
      intro children
      induction children with
      | nil =>
        intro slot pm pm' _ hpm heq
        obtain rfl := Option.some.inj heq
        exact ⟨List.forall_mem_nil _, hpm, .refl _ _⟩
      | cons c children ihc =>
        intro slot pm pm' hkids hpm heq
        obtain ⟨pm₁, h₁, h₂⟩ := Option.bind_eq_some_iff.mp heq
        obtain ⟨hc, hpm₁, es, hes, hfrom⟩ := ih hpm h₁
        obtain ⟨hcs, hpm', hadds⟩ := ihc _ pm₁ pm' (fun d hd ↦ hkids d (List.mem_cons_of_mem c hd)) hpm₁ h₂
        refine ⟨List.forall_mem_cons.mpr ⟨hc, hcs⟩, hpm', Adds.trans ⟨es, hes, fun e he ↦ ?_⟩ hadds⟩
        obtain ⟨x, rfl, hx⟩ := hfrom e he
        exact ⟨x, hkids x List.mem_cons_self, hx⟩
    rw [place] at hplace
    split_ifs at hplace with hin
    · obtain rfl := Option.some.inj hplace
      exact ⟨hpm id hin, hpm, .refl _ _⟩
    · obtain ⟨pm₁, h₁, rfl⟩ := Option.map_eq_some_iff.mp hplace
      obtain ⟨hkids, hpm₁, es, hes, hfrom⟩ := hall (h.kids id) start pm pm₁ (fun c hc ↦ hc) hpm h₁
      have hid : ¬ Looping h.IsKid id := by
        intro hloop
        obtain ⟨c, hc, hloop'⟩ := hloop.exists_step
        exact hkids c hc hloop'
      -- Below the id there is no way back to it, so it has no position yet.
      have hfresh : id ∉ pm₁.keys := by
        intro hmem
        obtain ⟨e, he, hide⟩ := List.mem_map.mp hmem
        rw [hes] at he
        rcases List.mem_append.mp he with he | he
        · exact hin (List.mem_map.mpr ⟨e, he, hide⟩)
        · obtain ⟨x, hx, hreach⟩ := hfrom e he
          rw [hide] at hreach
          exact hid ⟨id, .refl, .head' hx hreach⟩
      generalize (⟨level, centre pm₁ (h.kids id) start, row⟩ : Position) = position
      refine ⟨hid, fun x hx ↦ ?_, es ++ [(id, position)], ?_, fun e he ↦ ?_⟩
      · rw [Keyed.keys_set, if_neg hfresh] at hx
        rcases List.mem_append.mp hx with hx | hx
        · exact hpm₁ x hx
        · rw [List.mem_singleton.mp hx]
          exact hid
      · have hset : (pm₁.set id position).entries = pm₁.entries ++ [(id, position)] := by
          rw [Keyed.set, dif_neg hfresh]
        rw [hset, hes, List.append_assoc]
      · rcases List.mem_append.mp he with he | he
        · obtain ⟨x, hx, hreach⟩ := hfrom e he
          exact ⟨id, rfl, .head hx hreach⟩
        · rw [List.mem_singleton.mp he]
          exact ⟨id, rfl, .refl⟩

/-! ## The map -/

/-- Roots are placed one after the other, and what has a position keeps it. -/
theorem drawRoot_spec {n : ℕ} {id : PyStr} {d d' : Drawn} (hd : Clean h d.positionMap)
    (hdraw : h.drawRoot rowsTaken n d id = some d') :
    (h.isRoot id = true → ¬ Looping h.IsKid id) ∧ Clean h d'.positionMap ∧
      ∃ es, d'.positionMap.entries = d.positionMap.entries ++ es := by
  unfold drawRoot at hdraw
  split_ifs at hdraw with hroot
  · obtain ⟨m, -, hplace⟩ := Option.bind_eq_some_iff.mp hdraw
    obtain ⟨pm, hpm, rfl⟩ := Option.map_eq_some_iff.mp hplace
    obtain ⟨hid, hclean, es, hes, -⟩ := place_spec hd hpm
    exact ⟨fun _ ↦ hid, hclean, es, hes⟩
  · obtain rfl := Option.some.inj hdraw
    exact ⟨fun hroot' ↦ absurd hroot' hroot, hd, [], (List.append_nil _).symm⟩

theorem drawRoots_spec {n : ℕ} {ids : List PyStr} {d d' : Drawn} (hd : Clean h d.positionMap)
    (hdraw : ids.foldlM (h.drawRoot rowsTaken n) d = some d') :
    (∀ id ∈ ids, h.isRoot id = true → ¬ Looping h.IsKid id) ∧ Clean h d'.positionMap := by
  induction ids generalizing d with
  | nil =>
    obtain rfl := Option.some.inj hdraw
    exact ⟨List.forall_mem_nil _, hd⟩
  | cons id ids ih =>
    rw [List.foldlM_cons] at hdraw
    obtain ⟨d₁, h₁, h₂⟩ := Option.bind_eq_some_iff.mp hdraw
    obtain ⟨hid, hd₁, -⟩ := drawRoot_spec hd h₁
    obtain ⟨hids, hd'⟩ := ih hd₁ h₂
    exact ⟨List.forall_mem_cons.mpr ⟨hid, hids⟩, hd'⟩

theorem drawRoots_isSome {n : ℕ} {ids : List PyStr} (hn : h.messages.keys.length < n)
    (hids : ∀ id ∈ ids, id ∈ h.messages.keys ∧ (h.isRoot id = true → ¬ Looping h.IsKid id)) (d : Drawn) :
    (ids.foldlM (h.drawRoot rowsTaken n) d).isSome = true := by
  induction ids generalizing d with
  | nil => rfl
  | cons id ids ih =>
    obtain ⟨hid, hends⟩ := hids id List.mem_cons_self
    have hone : ∃ d', h.drawRoot rowsTaken n d id = some d' := by
      unfold drawRoot
      split_ifs with hroot
      · obtain ⟨r, hr, -⟩ := measure_isSome hid (m := ⟨[], d.span⟩) ⟨List.nodup_nil, List.forall_mem_nil _⟩
          (by simpa using hn)
        have hheight := height_le h.IsKid h.messages.keys id
        have hplaced := @place_isSome _ rowsTaken r.2.span _ _ (hends hroot)
          (hheight.trans_lt hn) 0 d.nextSlot 0 d.positionMap
        obtain ⟨pm, hpm⟩ := Option.isSome_iff_exists.mp hplaced
        rw [hr, Option.bind_some]
        simp only [hpm, Option.map_some]
        exact ⟨_, rfl⟩
      · exact ⟨d, rfl⟩
    obtain ⟨d', hd'⟩ := hone
    rw [List.foldlM_cons, hd']
    exact ih (fun x hx ↦ hids x (List.mem_cons_of_mem id hx)) d'

theorem isRoot.mem {id : PyStr} (hroot : h.isRoot id = true) : id ∈ h.messages.keys := by
  apply mem_of_message
  unfold isRoot at hroot
  split at hroot
  · cases hroot
  · next m hm => rw [hm]; rfl

/-- Every recursion and every walk of the map comes to an end, and no position is given twice. -/
structure Drawable (h : History) (rowsTaken : PyStr → ℕ) : Prop where
  draws : ∃ n, (h.drawFlow rowsTaken n).isSome = true
  path : ∀ target, ∃ n, (h.onCurrentPath target n).isSome = true
  unfolds : ∀ isChainAnswer, ∃ n, (h.autoExpand isChainAnswer n).isSome = true
  onPath : ∃ n, (h.onPath n).isSome = true
  once : ∀ n (ids : List PyStr) d id d', ids.foldlM (h.drawRoot rowsTaken n) ⟨.empty, .empty, 0⟩ = some d →
    h.drawRoot rowsTaken n d id = some d' → ∃ es, d'.positionMap.entries = d.positionMap.entries ++ es

/-- No cycle of children is below a root, and none of parents above the current message. -/
structure Ends (h : History) : Prop where
  down : ∀ id, h.isRoot id = true → ¬ Looping h.IsKid id
  up : ∀ id, h.currentId.target = some id → ¬ Looping h.IsAbove id

theorem clean_empty : Clean h .empty := fun _ hx ↦ absurd hx List.not_mem_nil

theorem climb_of_ends (hends : Ends h) (stops : PyStr → Bool) :
    (h.climb stops (h.messages.keys.length + 2) h.currentId).isSome = true := by
  refine climb_isSome (Nat.succ_pos _) fun id hid _ ↦ ⟨hends.up id hid, ?_⟩
  have hheight := height_le h.IsAbove h.messages.keys id
  omega

/-- The map can be drawn for the histories whose ways end, and for no others. -/
theorem drawable_iff (h : History) (rowsTaken : PyStr → ℕ) : Drawable h rowsTaken ↔ Ends h := by
  constructor
  · intro hdrawable
    obtain ⟨n, hn⟩ := hdrawable.draws
    obtain ⟨d, hd⟩ := Option.isSome_iff_exists.mp hn
    obtain ⟨k, hk⟩ := hdrawable.onPath
    refine ⟨fun id hroot ↦ (drawRoots_spec clean_empty hd).1 id (isRoot.mem hroot) hroot, fun id hid hloop ↦ ?_⟩
    rw [History.onPath, climb_looping hid hloop] at hk
    cases hk
  · intro hends
    refine ⟨⟨h.messages.keys.length + 1, ?_⟩, fun target ↦ ⟨h.messages.keys.length + 2, ?_⟩,
      fun isChainAnswer ↦ ⟨h.messages.keys.length + 2, ?_⟩, ⟨h.messages.keys.length + 2, ?_⟩,
      fun n ids d id d' hd hd' ↦ ?_⟩
    · exact drawRoots_isSome (Nat.lt_succ_self _) (fun id hid ↦ ⟨hid, hends.down id⟩) _
    · rw [onCurrentPath, Option.isSome_map]
      exact climb_of_ends hends _
    · rw [autoExpand, Option.isSome_map]
      exact climb_of_ends hends _
    · rw [History.onPath, Option.isSome_map]
      exact climb_of_ends hends _
    · exact (drawRoot_spec (drawRoots_spec clean_empty hd).2 hd').2.2

/-- A root with a child that lists itself. -/
def selfListed : History :=
  ⟨⟨[(py "r", some ⟨.null, [py "a"]⟩), (py "a", some ⟨.id (py "r"), [py "a"]⟩)], by decide⟩, .id (py "r")⟩

/-- No number of steps is enough to place a message among its own children. -/
theorem selfListed_not_drawable : ¬ Drawable selfListed fun _ ↦ 0 := by
  intro hdrawable
  obtain ⟨n, hn⟩ := hdrawable.draws
  obtain ⟨d, hd⟩ := Option.isSome_iff_exists.mp hn
  have hloop : Looping selfListed.IsKid (py "r") := by
    have hra : selfListed.IsKid (py "r") (py "a") := by
      show py "a" ∈ selfListed.kids (py "r")
      decide
    have haa : selfListed.IsKid (py "a") (py "a") := by
      show py "a" ∈ selfListed.kids (py "a")
      decide
    exact ⟨py "a", .single hra, .single haa⟩
  exact (drawRoots_spec clean_empty hd).1 (py "r") (by decide) (by decide) hloop

end FourCE.Overview.History

import FourCE.Socket.RedisDict

/-!
# What the signature says

Every operation but `delete_many` is sure to write the signature key once it has changed a field,
and `set` writes the digest of its own mapping.  So the signature is that of the hash, or some
operation under way is still to write it, as long as each `set` signs the fields it wrote and no
`delete_many` takes a field out under a signature.
-/

namespace FourCE.Socket

open FourCE.Library FourCE.Python

/-! ## The digest tells mappings apart -/

theorem zero_notMem_encodeUtf8 {s : PyStr} {b : Bytes} (h : encodeUtf8 s = some b) (hs : 0 ∉ s) :
    0 ∉ b := by
  intro hzero
  apply hs
  obtain ⟨c, hc, hval⟩ := mem_encodeUtf8_of_lt h hzero (by decide)
  have hc0 : c = 0 := Fin.ext hval
  exact hc0 ▸ hc

theorem encodeUtf8_injOn {s t : PyStr} {b : Bytes} (hs : encodeUtf8 s = some b)
    (ht : encodeUtf8 t = some b) : s = t := by
  have hround := (decodeUtf8_encodeUtf8 hs).symm.trans (decodeUtf8_encodeUtf8 ht)
  exact Option.some.inj hround

/-- The first separator ends the first part. -/
theorem append_separator_inj {α : Type} {x x' z z' : List α} {a : α} (hx : a ∉ x) (hx' : a ∉ x')
    (h : x ++ a :: z = x' ++ a :: z') : x = x' ∧ z = z' := by
  induction x generalizing x' with
  | nil =>
    cases x' with
    | nil => exact ⟨rfl, (List.cons.inj h).2⟩
    | cons b x' => exact absurd ((List.cons.inj h).1 ▸ List.mem_cons_self) hx'
  | cons b x ih =>
    cases x' with
    | nil => exact absurd ((List.cons.inj h).1 ▸ List.mem_cons_self) hx
    | cons b' x' =>
      obtain ⟨rfl, htail⟩ := List.cons.inj h
      have hrest := ih (fun hm ↦ hx (List.mem_cons_of_mem _ hm))
        (fun hm ↦ hx' (List.mem_cons_of_mem _ hm)) htail
      exact ⟨by rw [hrest.1], hrest.2⟩

/-- Neither keys nor values hold the byte that ends each. -/
def Separate (entries : List (PyStr × PyStr)) : Prop := ∀ p ∈ entries, 0 ∉ p.1 ∧ 0 ∉ p.2

theorem joined_injOn {es fs : List (PyStr × PyStr)} {b : Bytes} (hes : Separate es)
    (hfs : Separate fs) (he : joined es = some b) (hf : joined fs = some b) : es = fs := by
  induction es generalizing fs b with
  | nil =>
    cases fs with
    | nil => rfl
    | cons f fs =>
      obtain rfl : [] = b := Option.some.inj he
      obtain ⟨key, -, h⟩ := Option.bind_eq_some_iff.mp hf
      obtain ⟨value, -, h⟩ := Option.bind_eq_some_iff.mp h
      obtain ⟨rest, -, h⟩ := Option.bind_eq_some_iff.mp h
      simp at h
  | cons e es ih =>
    cases fs with
    | nil =>
      obtain rfl : [] = b := Option.some.inj hf
      obtain ⟨key, -, h⟩ := Option.bind_eq_some_iff.mp he
      obtain ⟨value, -, h⟩ := Option.bind_eq_some_iff.mp h
      obtain ⟨rest, -, h⟩ := Option.bind_eq_some_iff.mp h
      simp at h
    | cons f fs =>
      obtain ⟨key, hkey, h⟩ := Option.bind_eq_some_iff.mp he
      obtain ⟨value, hvalue, h⟩ := Option.bind_eq_some_iff.mp h
      obtain ⟨rest, hrest, h⟩ := Option.bind_eq_some_iff.mp h
      obtain rfl := Option.some.inj h
      obtain ⟨key', hkey', h⟩ := Option.bind_eq_some_iff.mp hf
      obtain ⟨value', hvalue', h⟩ := Option.bind_eq_some_iff.mp h
      obtain ⟨rest', hrest', h⟩ := Option.bind_eq_some_iff.mp h
      have hsplit : key' ++ 0 :: (value' ++ 0 :: rest') = key ++ 0 :: (value ++ 0 :: rest) := by
        simpa [List.append_assoc] using Option.some.inj h
      have he0 := hes e List.mem_cons_self
      have hf0 := hfs f List.mem_cons_self
      obtain ⟨rfl, hvalues⟩ := append_separator_inj (zero_notMem_encodeUtf8 hkey' hf0.1)
        (zero_notMem_encodeUtf8 hkey he0.1) hsplit
      obtain ⟨rfl, rfl⟩ := append_separator_inj (zero_notMem_encodeUtf8 hvalue' hf0.2)
        (zero_notMem_encodeUtf8 hvalue he0.2) hvalues
      have htail := ih (fun p hp ↦ hes p (List.mem_cons_of_mem _ hp))
        (fun p hp ↦ hfs p (List.mem_cons_of_mem _ hp)) hrest hrest'
      rw [htail, Prod.ext (encodeUtf8_injOn hkey hkey') (encodeUtf8_injOn hvalue hvalue')]

theorem mem_sorted_iff (fields : Fields PyStr PyStr) (p : PyStr × PyStr) :
    p ∈ sorted fields ↔ fields.lookup p.1 = some p.2 := by
  unfold sorted
  rw [List.mem_map]
  constructor
  · rintro ⟨key, hkey, rfl⟩
    obtain ⟨value, hvalue⟩ := Finmap.mem_iff.mp (Finmap.mem_keys.mp ((Finset.mem_sort _).mp hkey))
    rw [hvalue, Option.getD_some]
  · intro h
    refine ⟨p.1, ?_, by rw [h, Option.getD_some]⟩
    rw [Finset.mem_sort, Finmap.mem_keys]
    exact Finmap.mem_of_lookup_eq_some h

theorem sorted_injective : Function.Injective sorted := by
  intro fields fields' h
  apply Finmap.ext_lookup
  intro key
  ext value
  have hmem := mem_sorted_iff fields (key, value)
  rw [h, mem_sorted_iff] at hmem
  exact hmem.symm

section

variable {V : Type} {dumps : V → PyStr} {sha256 : Bytes → PyStr}

theorem digest_injOn (hsha : Function.Injective sha256) {fields fields' : Fields PyStr PyStr}
    {signature : PyStr} (hf : Separate (sorted fields)) (hf' : Separate (sorted fields'))
    (h : digest sha256 fields = some signature) (h' : digest sha256 fields' = some signature) :
    fields = fields' := by
  obtain ⟨b, hb, hs⟩ := Option.map_eq_some_iff.mp h
  obtain ⟨b', hb', hs'⟩ := Option.map_eq_some_iff.mp h'
  obtain rfl := hsha (hs.trans hs'.symm)
  exact sorted_injective (joined_injOn hf hf' hb hb')

/-! ## What each operation does to the two keys -/

def WritesSignature : Command → Prop
  | .setSignature _ => True
  | .deleteSignature => True
  | _ => False

/-- What is true of a command an operation issues, with what it has still to do: once it changed a
field it is sure to write the signature, it signs the mapping it was given, and it stores what the
codec wrote. -/
structure Follows (dumps : V → PyStr) (sha256 : Bytes → PyStr) (op : Op V) (c : Command)
    (k : Reply c → Program) : Prop where
  mends : ¬ WritesSignature c → (∀ keys ks, ¬ (op = .deleteMany keys ∧ c = .hdel ks)) →
    ∀ h r h', exec c h = some (r, h') → h'.fields = h.fields ∨ Proc.Will WritesSignature (k r)
  signs : ∀ signature, c = .setSignature signature →
    ∃ mapping, op = .set mapping ∧ digest sha256 (serialized dumps mapping) = some signature
  stores : ∀ mapping, c = .hset mapping →
    ∀ key value, mapping.lookup key = some value → ∃ v, value = dumps v

theorem Follows.bind {op : Op V} {c : Command} {k : Reply c → Program}
    (h : Follows dumps sha256 op c k) (f : Except Raised (Option PyStr) → Program) :
    Follows dumps sha256 op c fun r ↦ k r >>= f where
  mends hc hop s r s' hexec := (h.mends hc hop s r s' hexec).imp_right fun hwill ↦ hwill.bind f
  signs := h.signs
  stores := h.stores

/-- A command that only reads. -/
theorem follows_read {op : Op V} {c : Command} {k : Reply c → Program}
    (hread : ∀ h r h', exec c h = some (r, h') → h' = h) (hsets : ∀ signature, c ≠ .setSignature signature)
    (hhset : ∀ mapping, c ≠ .hset mapping) : Follows dumps sha256 op c k where
  mends _ _ h r h' hexec := Or.inl (by rw [hread h r h' hexec])
  signs signature hc := absurd hc (hsets signature)
  stores mapping hc := absurd hc (hhset mapping)

theorem follows_deleteSignature {op : Op V} {k : Reply .deleteSignature → Program} :
    Follows dumps sha256 op .deleteSignature k where
  mends hc := absurd trivial hc
  signs _ hc := by cases hc
  stores _ hc := by cases hc

theorem signed_delete (op : Op V) :
    Proc.Every (Follows dumps sha256 op)
      (.cmd .deleteSignature fun _ ↦ .ret (.ok none) : Program) := by
  apply Proc.every_cmd
  · exact follows_deleteSignature
  · exact fun _ ↦ Proc.every_ret _ _

theorem will_delete (k : Reply .deleteSignature → Program) :
    Proc.Will WritesSignature (.cmd .deleteSignature k : Program) := .now trivial

theorem setitem_follows (op : Op V) (key : PyStr) (value : V) :
    Proc.Every (Follows dumps sha256 op) (setitem dumps true key value) := by
  rw [setitem_signed]
  split_ifs
  · apply Proc.every_cmd
    · exact {
        mends := fun _ _ _ _ _ _ ↦ Or.inr (will_delete _)
        signs := fun _ hc ↦ by cases hc
        stores := fun mapping hc key' text htext ↦ by
          cases hc
          obtain rfl : key' = key := by
            have hmem := Finmap.mem_of_lookup_eq_some htext
            rwa [Finmap.mem_singleton] at hmem
          rw [Finmap.lookup_singleton_eq] at htext
          exact ⟨value, (Option.some.inj htext).symm⟩ }
    · exact fun _ ↦ signed_delete op
  · exact Proc.every_ret _ _

theorem getitem_follows (op : Op V) (key : PyStr) :
    Proc.Every (Follows dumps sha256 op) (getitem key) := by
  rw [getitem_eq]
  split_ifs
  · apply Proc.every_cmd
    · apply follows_read
      · intro h r h' hexec
        cases hexec
        rfl
      · exact fun _ hc ↦ by cases hc
      · exact fun _ hc ↦ by cases hc
    · intro found
      cases found with
      | none => exact Proc.every_ret _ _
      | some value => exact Proc.every_ret _ _
  · exact Proc.every_ret _ _

theorem fields_without_eq {h : Hash} {keys : Finset PyStr}
    (hnone : (h.fields.keys ∩ keys).card = 0) : h.fields.without keys = h.fields := by
  apply Finmap.ext_lookup
  intro key
  rw [Fields.lookup_without]
  split_ifs with hkey
  · rw [Finset.card_eq_zero, Finset.eq_empty_iff_forall_notMem] at hnone
    symm
    rw [Finmap.lookup_eq_none, ← Finmap.mem_keys]
    exact fun hmem ↦ hnone key (Finset.mem_inter.mpr ⟨hmem, hkey⟩)
  · rfl

theorem delitem_follows (op : Op V) (key : PyStr) :
    Proc.Every (Follows dumps sha256 op) (delitem true key) := by
  rw [delitem_signed]
  split_ifs
  · apply Proc.every_cmd
    · exact {
        mends := fun _ _ h result h' hexec ↦ by
          cases hexec
          split_ifs with hnone
          · exact Or.inl (fields_without_eq hnone)
          · exact Or.inr (will_delete _)
        signs := fun _ hc ↦ by cases hc
        stores := fun _ hc ↦ by cases hc }
    · intro result
      split_ifs
      · exact Proc.every_ret _ _
      · exact signed_delete op
  · exact Proc.every_ret _ _

theorem clear_follows (op : Op V) : Proc.Every (Follows dumps sha256 op) (clear true) := by
  rw [clear_signed]
  apply Proc.every_cmd
  · exact {
      mends := fun _ _ _ _ _ _ ↦ Or.inr (will_delete _)
      signs := fun _ hc ↦ by cases hc
      stores := fun _ hc ↦ by cases hc }
  · exact fun _ ↦ signed_delete op

theorem deleteMany_follows (keys : List PyStr) :
    Proc.Every (Follows dumps sha256 (.deleteMany keys)) (deleteMany keys) := by
  rw [deleteMany_eq]
  split_ifs
  · exact Proc.every_ret _ _
  · apply Proc.every_cmd
    · exact {
        mends := fun _ hop ↦ absurd ⟨rfl, rfl⟩ (hop keys _)
        signs := fun _ hc ↦ by cases hc
        stores := fun _ hc ↦ by cases hc }
    · exact fun _ ↦ Proc.every_ret _ _
  · exact Proc.every_ret _ _

theorem andThen_follows {op : Op V} {p next : Program}
    (hp : Proc.Every (Follows dumps sha256 op) p) (hnext : Proc.Every (Follows dumps sha256 op) next) :
    Proc.Every (Follows dumps sha256 op) (p >>= andThen next) := by
  refine Proc.every_bind (Q := Follows dumps sha256 op) hp (fun _ _ h ↦ h.bind _) ?_
  intro result
  cases result with
  | error e => exact Proc.every_ret _ _
  | ok _ => exact hnext

theorem update_follows (op : Op V) (items : List (PyStr × V)) :
    Proc.Every (Follows dumps sha256 op) (update dumps true items) := by
  induction items with
  | nil => exact Proc.every_ret _ _
  | cons item items ih =>
    rw [update_cons]
    exact andThen_follows (setitem_follows op item.1 item.2) ih

theorem setdefault_follows (op : Op V) (key : PyStr) (default : V) :
    Proc.Every (Follows dumps sha256 op) (setdefault dumps true key default) := by
  rw [setdefault_signed]
  split_ifs
  · apply Proc.every_cmd
    · apply follows_read
      · intro h r h' hexec
        cases hexec
        rfl
      · exact fun _ hc ↦ by cases hc
      · exact fun _ hc ↦ by cases hc
    · intro found
      split_ifs
      · exact getitem_follows op key
      · exact andThen_follows (setitem_follows op key default) (getitem_follows op key)
  · exact Proc.every_ret _ _

theorem lookup_serialized (mapping : Fields PyStr V) (key : PyStr) :
    (serialized dumps mapping).lookup key = (mapping.lookup key).map dumps :=
  Fields.lookup_mapValues dumps mapping key

theorem will_set (signature : PyStr) (k : Reply (.setSignature signature) → Program) :
    Proc.Will WritesSignature (.cmd (.setSignature signature) k : Program) := .now trivial

theorem set_follows (mapping : Fields PyStr V) :
    Proc.Every (Follows dumps sha256 (.set mapping)) (set dumps sha256 true mapping) := by
  rw [set_signed]
  split_ifs
  · exact clear_follows _
  · cases hdigest : digest sha256 (serialized dumps mapping) with
    | none => exact Proc.every_ret _ _
    | some signature =>
      have hsign : Proc.Every (Follows dumps sha256 (.set mapping))
          (.cmd (.setSignature signature) fun _ ↦ .ret (.ok none) : Program) := by
        apply Proc.every_cmd
        · exact {
            mends := fun hc ↦ absurd trivial hc
            signs := fun _ hc ↦ by cases hc; exact ⟨mapping, rfl, hdigest⟩
            stores := fun _ hc ↦ by cases hc }
        · exact fun _ ↦ Proc.every_ret _ _
      have hread {c : Command} {k : Reply c → Program} (hc : c = .getSignature ∨ c = .hkeys) :
          Follows dumps sha256 (.set mapping) c k := by
        rcases hc with rfl | rfl
        all_goals
          apply follows_read
          · intro h r h' hexec
            cases hexec
            rfl
          · exact fun _ hc ↦ by cases hc
          · exact fun _ hc ↦ by cases hc
      apply Proc.every_cmd (hread (Or.inl rfl))
      intro stored
      split_ifs
      · exact Proc.every_ret _ _
      · apply Proc.every_cmd (hread (Or.inr rfl))
        intro existing
        apply Proc.every_cmd
        · exact {
            mends := fun _ _ _ _ _ _ ↦ Or.inr (by
              split_ifs
              · exact .later fun _ ↦ will_set _ _
              · exact will_set _ _)
            signs := fun _ hc ↦ by cases hc
            stores := fun _ hc key value hvalue ↦ by
              cases hc
              rw [lookup_serialized, Option.map_eq_some_iff] at hvalue
              obtain ⟨v, -, hv⟩ := hvalue
              exact ⟨v, hv.symm⟩ }
        · intro _
          split_ifs
          · apply Proc.every_cmd
            · exact {
                mends := fun _ _ _ _ _ _ ↦ Or.inr (will_set _ _)
                signs := fun _ hc ↦ by cases hc
                stores := fun _ hc ↦ by cases hc }
            · exact fun _ ↦ hsign
          · exact hsign

variable (dumps sha256) in
theorem program_follows (op : Op V) :
    Proc.Every (Follows dumps sha256 op) (program dumps sha256 true op) := by
  cases op with
  | set mapping => exact set_follows mapping
  | setitem key value => exact setitem_follows _ key value
  | getitem key => exact getitem_follows _ key
  | delitem key => exact delitem_follows _ key
  | update items => exact update_follows _ items
  | setdefault key default => exact setdefault_follows _ key default
  | deleteMany keys => exact deleteMany_follows keys
  | clear => exact clear_follows _

/-! ## The signature is that of the hash -/

abbrev State (V : Type) := Pool Hash Command Reply (Except Raised (Option PyStr)) (Op V)

/-- The dictionary after a schedule of its operations, from a hash nobody is working on. -/
abbrev after (dumps : V → PyStr) (sha256 : Bytes → PyStr) (h : Hash) (turns : List (Turn (Op V))) :
    State V :=
  Pool.run exec (program dumps sha256 true) (Pool.idle h) turns

/-- The turns of a `set` that nothing comes between: it starts, and takes up to `n` commands. -/
def setTurns (p : State V) (mapping : Fields PyStr V) (n : ℕ) : List (Turn (Op V)) :=
  .start (.set mapping) :: List.replicate n (.resume p.threads.length)

def SignatureTrue (sha256 : Bytes → PyStr) (h : Hash) : Prop :=
  h.signature = none ∨ h.signature = digest sha256 h.fields

/-- All values were written by the codec. -/
def FromCodec (dumps : V → PyStr) (h : Hash) : Prop :=
  ∀ key value, h.fields.lookup key = some value → ∃ v, value = dumps v

/-- A thread that is sure to write the signature key yet. -/
def Mending (p : State V) (j : ℕ) : Prop :=
  ∃ t, p.threads[j]? = some t ∧ t.rest.Will WritesSignature

/-- `set` signs the fields it wrote; `delete_many` takes no field out under a signature. -/
def Accounted (dumps : V → PyStr) (h : Hash) : Op V → Command → Prop
  | .set mapping, .setSignature _ => h.fields = serialized dumps mapping
  | .deleteMany _, .hdel keys => h.signature = none ∨ h.fields.keys ∩ keys = ∅
  | _, _ => True

/-- The condition on a turn: the command is accounted for, or another operation under way is still
to write the signature. -/
def Sound (dumps : V → PyStr) (p : State V) : Turn (Op V) → Prop
  | .start _ => True
  | .resume i => ∀ op c k, p.threads[i]? = some ⟨op, .cmd c k⟩ →
      Accounted dumps p.store op c ∨ ∃ j ≠ i, Mending p j

theorem exec_signature {c : Command} (hc : ¬ WritesSignature c) {h h' : Hash} {r : Reply c}
    (hexec : exec c h = some (r, h')) : h'.signature = h.signature := by
  cases c with
  | setSignature signature => exact absurd trivial hc
  | deleteSignature => exact absurd trivial hc
  | _ => cases hexec; rfl

theorem fields_eq_or_mends {op : Op V} {c : Command} {k : Reply c → Program} {h h' : Hash}
    {r : Reply c} (hfollows : Follows dumps sha256 op c k) (hc : ¬ WritesSignature c)
    (haccounted : Accounted dumps h op c) (hexec : exec c h = some (r, h')) :
    h'.signature = none ∨ h'.fields = h.fields ∨ (k r).Will WritesSignature := by
  by_cases hop : ∃ keys ks, op = .deleteMany keys ∧ c = .hdel ks
  · obtain ⟨keys, ks, rfl, rfl⟩ := hop
    rcases haccounted with hnone | hdisjoint
    · exact Or.inl ((exec_signature hc hexec).trans hnone)
    · cases hexec
      exact Or.inr (Or.inl (fields_without_eq (Finset.card_eq_zero.mpr hdisjoint)))
  · have hne : ∀ keys ks, ¬ (op = .deleteMany keys ∧ c = .hdel ks) :=
      fun keys ks he ↦ hop ⟨keys, ks, he⟩
    exact Or.inr (hfollows.mends hc hne h r h' hexec)

theorem fromCodec_exec {op : Op V} {c : Command} {k : Reply c → Program} {h h' : Hash} {r : Reply c}
    (hfollows : Follows dumps sha256 op c k) (hfrom : FromCodec dumps h)
    (hexec : exec c h = some (r, h')) : FromCodec dumps h' := by
  intro key value hvalue
  cases c with
  | hset mapping =>
    cases hexec
    by_cases hkey : key ∈ mapping
    · rw [Finmap.lookup_union_left hkey] at hvalue
      exact hfollows.stores mapping rfl key value hvalue
    · rw [Finmap.lookup_union_right hkey] at hvalue
      exact hfrom key value hvalue
  | hdel keys =>
    cases hexec
    rw [Fields.lookup_without] at hvalue
    split_ifs at hvalue
    exact hfrom key value hvalue
  | deleteHash =>
    cases hexec
    rw [Finmap.lookup_empty] at hvalue
    cases hvalue
  | _ =>
    cases hexec
    exact hfrom key value hvalue

/-- The signature is that of the hash, or some thread is still to write it. -/
theorem signature_true_or_mending {h : Hash} (hh : SignatureTrue sha256 h)
    (turns : List (Turn (Op V)))
    (hsound : Pool.Along exec (program dumps sha256 true) (Sound dumps) (Pool.idle h) turns) :
    SignatureTrue sha256 (after dumps sha256 h turns).store ∨
      ∃ j, Mending (after dumps sha256 h turns) j := by
  refine Pool.idle_induction (K := Sound dumps)
    (I := fun q ↦ SignatureTrue sha256 q.store ∨ ∃ j, Mending q j) (Or.inl hh) ?_ ?_ turns hsound
  · intro q op hq
    apply hq.imp_right
    rintro ⟨j, t, ht, hwill⟩
    exact ⟨j, t, Pool.getElem?_start_of ht _ _, hwill⟩
  · intro q i op c k r h' hi hrest hexec hK hq
    have hfollows := program_follows dumps sha256 op c k hrest
    have hother {j : ℕ} (hj : j ≠ i) (hmend : Mending q j) : Mending (q.commit i op c r h' (k r)) j := by
      obtain ⟨t, ht, hwill⟩ := hmend
      exact ⟨t, by rw [Pool.getElem?_commit_of_ne q hj, ht], hwill⟩
    have hown (hwill : (k r).Will WritesSignature) : Mending (q.commit i op c r h' (k r)) i :=
      ⟨_, Pool.getElem?_commit_self hi op c r h' (k r), hwill⟩
    rcases hK op c k hi with haccounted | ⟨j, hj, hmend⟩
    · by_cases hc : WritesSignature c
      · left
        cases c with
        | setSignature signature =>
          obtain ⟨mapping, rfl, hdigest⟩ := hfollows.signs signature rfl
          have hfields : q.store.fields = serialized dumps mapping := haccounted
          cases hexec
          exact Or.inr (by rw [← hdigest, ← hfields]; rfl)
        | deleteSignature =>
          cases hexec
          exact Or.inl rfl
        | _ => exact absurd hc id
      · rcases fields_eq_or_mends hfollows hc haccounted hexec with hnone | hsame | hwill
        · exact Or.inl (Or.inl hnone)
        · rcases hq with htrue | ⟨j, hmend⟩
          · left
            unfold SignatureTrue at htrue ⊢
            have hsig := exec_signature hc hexec
            show h'.signature = none ∨ h'.signature = digest sha256 h'.fields
            rw [hsig, hsame]
            exact htrue
          · right
            by_cases hj : j = i
            · subst hj
              obtain ⟨t, ht, hwill⟩ := hmend
              obtain rfl := Option.some.inj (hi.symm.trans ht)
              rcases (Proc.will_cmd_iff _ c k).mp hwill with hnow | hlater
              · exact absurd hnow hc
              · exact ⟨j, hown (hlater r)⟩
            · exact ⟨j, hother hj hmend⟩
        · exact Or.inr ⟨i, hown hwill⟩
    · exact Or.inr ⟨j, hother hj hmend⟩

theorem fromCodec_run {h : Hash} (hh : FromCodec dumps h) (turns : List (Turn (Op V))) :
    FromCodec dumps (after dumps sha256 h turns).store := by
  refine Pool.idle_induction (K := fun _ _ ↦ True) (I := fun q ↦ FromCodec dumps q.store) hh
    (fun _ _ hq ↦ hq) ?_ turns fun _ _ _ _ ↦ trivial
  intro q i op c k r h' hi hrest hexec _ hq
  exact fromCodec_exec (program_follows dumps sha256 op c k hrest) hq hexec

theorem not_mending_of_quiet {p : State V} (hp : p.Quiet) (j : ℕ) : ¬ Mending p j := by
  rintro ⟨t, ht, hwill⟩
  obtain ⟨a, ha⟩ := hp t (List.mem_of_getElem? ht)
  rw [ha] at hwill
  exact Proc.not_will_ret _ a hwill

/-! ## `set` with nothing in between -/

variable (dumps) in
/-- New fields over the old, without the stale ones. -/
theorem fields_rewritten (mapping : Fields PyStr V) (fields : Fields PyStr PyStr) :
    (serialized dumps mapping ∪ fields).without (fields.keys \ mapping.keys) =
      serialized dumps mapping := by
  have hmem (key : PyStr) : key ∈ serialized dumps mapping ↔ key ∈ mapping := by
    rw [← Finmap.lookup_isSome, ← Finmap.lookup_isSome, lookup_serialized, Option.isSome_map]
  apply Finmap.ext_lookup
  intro key
  rw [Fields.lookup_without]
  by_cases hkey : key ∈ mapping
  · rw [if_neg (by simp [Finmap.mem_keys, hkey]), Finmap.lookup_union_left ((hmem key).mpr hkey)]
  · have hnone := Finmap.lookup_eq_none.mpr (mt (hmem key).mp hkey)
    rw [Finmap.lookup_union_right (mt (hmem key).mp hkey), hnone]
    split_ifs with hstale
    · rfl
    · rw [Finmap.lookup_eq_none, ← Finmap.mem_keys]
      intro hold
      exact hstale (Finset.mem_sdiff.mpr ⟨hold, by rwa [Finmap.mem_keys]⟩)

theorem rewrite_alone (mapping : Fields PyStr V) (signature : PyStr) (h : Hash) (n : ℕ) :
    Pool.alone exec (n + 4) (rewrite dumps mapping signature) h =
      (.ret (.ok none), ⟨serialized dumps mapping, some signature⟩) := by
  have hfields := fields_rewritten dumps mapping h.fields
  simp only [rewrite, Pool.alone, exec]
  split_ifs with hstale
  · simp only [Pool.alone, exec, hfields, Pool.alone_ret]
  · rw [not_not.mp hstale, Fields.without_empty] at hfields
    simp only [Pool.alone, exec, hfields]

/-- Nothing in the texts can be taken for the end of one. -/
def NoZero (fields : Fields PyStr PyStr) : Prop := ∀ key ∈ fields, 0 ∉ key

theorem separate_sorted {fields : Fields PyStr PyStr} (hkeys : NoZero fields)
    (hvalues : ∀ key value, fields.lookup key = some value → 0 ∉ value) :
    Separate (sorted fields) := by
  intro p hp
  have hlookup := (mem_sorted_iff fields p).mp hp
  exact ⟨hkeys p.1 (Finmap.mem_of_lookup_eq_some hlookup), hvalues p.1 p.2 hlookup⟩

theorem fromCodec_serialized (mapping : Fields PyStr V) (signature : Option PyStr) :
    FromCodec dumps ⟨serialized dumps mapping, signature⟩ := by
  intro key value hvalue
  have hmap := (lookup_serialized mapping key).symm.trans hvalue
  obtain ⟨v, -, hv⟩ := Option.map_eq_some_iff.mp hmap
  exact ⟨v, hv.symm⟩

theorem set_alone (hsha : Function.Injective sha256) (hcodec : ∀ v, 0 ∉ dumps v) {h : Hash}
    (htrue : SignatureTrue sha256 h) (hfrom : FromCodec dumps h) (hzero : NoZero h.fields)
    (mapping : Fields PyStr V) (hmapping : NoZero (serialized dumps mapping))
    (hencodes : (digest sha256 (serialized dumps mapping)).isSome) (n : ℕ) :
    ∃ h', Pool.alone exec (n + 5) (set dumps sha256 true mapping) h = (.ret (.ok none), h') ∧
      h'.fields = serialized dumps mapping := by
  have hvalues {fields : Fields PyStr PyStr} {s : Option PyStr} (hf : FromCodec dumps ⟨fields, s⟩) :
      ∀ key value, fields.lookup key = some value → 0 ∉ value := by
    intro key value hvalue
    obtain ⟨v, rfl⟩ := hf key value hvalue
    exact hcodec v
  rw [set_signed]
  split_ifs with hempty
  · refine ⟨⟨∅, none⟩, ?_, ?_⟩
    · simp only [clear_signed, Pool.alone, exec]
    · apply Finmap.ext_lookup
      intro key
      have hnone : key ∉ mapping := by
        rw [← Finmap.mem_keys, hempty]
        exact Finset.notMem_empty key
      rw [lookup_serialized, Finmap.lookup_eq_none.mpr hnone]
      rfl
  · obtain ⟨signature, hdigest⟩ := Option.isSome_iff_exists.mp hencodes
    rw [hdigest]
    simp only [Pool.alone, exec]
    split_ifs with hstored
    · refine ⟨h, Pool.alone_ret _ _ _ _, ?_⟩
      rcases htrue with hnone | hown
      · rw [hnone] at hstored
        cases hstored
      · exact digest_injOn hsha (separate_sorted hzero (hvalues hfrom))
          (separate_sorted hmapping (hvalues (fromCodec_serialized mapping none)))
          (hown.symm.trans hstored) hdigest
    · exact ⟨_, rewrite_alone mapping signature h n, rfl⟩

/-- After every run whose commands are accounted for, the signature of a hash nobody is working on
is that of its fields, and a `set` by itself leaves its mapping. -/
theorem signature_never_lies (hsha : Function.Injective sha256) (hcodec : ∀ v, 0 ∉ dumps v) {h : Hash}
    (hh : SignatureTrue sha256 h) (hfrom : FromCodec dumps h) (turns : List (Turn (Op V)))
    (hsound : Pool.Along exec (program dumps sha256 true) (Sound dumps) (Pool.idle h) turns)
    (hquiet : (after dumps sha256 h turns).Quiet) :
    SignatureTrue sha256 (after dumps sha256 h turns).store ∧
      ∀ (mapping : Fields PyStr V) (n : ℕ), NoZero (after dumps sha256 h turns).store.fields →
        NoZero (serialized dumps mapping) → (digest sha256 (serialized dumps mapping)).isSome →
        5 ≤ n →
          (after dumps sha256 h (turns ++ setTurns (after dumps sha256 h turns) mapping n)).Quiet ∧
            (after dumps sha256 h (turns ++ setTurns (after dumps sha256 h turns) mapping n)).store.fields =
              serialized dumps mapping := by
  have htrue : SignatureTrue sha256 (after dumps sha256 h turns).store := by
    rcases signature_true_or_mending hh turns hsound with htrue | ⟨j, hmend⟩
    · exact htrue
    · exact absurd hmend (not_mending_of_quiet hquiet j)
  refine ⟨htrue, fun mapping n hzero hmapping hencodes hn ↦ ?_⟩
  obtain ⟨m, rfl⟩ := Nat.exists_eq_add_of_le' hn
  obtain ⟨h', halone, hfields⟩ := set_alone hsha hcodec htrue (fromCodec_run hfrom turns) hzero mapping
    hmapping hencodes m
  have hrun := Pool.run_start_alone exec (program dumps sha256 true) (m + 5) (after dumps sha256 h turns)
    (.set mapping)
  have hset : program dumps sha256 true (.set mapping) = set dumps sha256 true mapping := rfl
  rw [hset, halone] at hrun
  rw [after, Pool.run_append]
  refine ⟨?_, by rw [← hfields]; exact congrArg Hash.fields hrun.1⟩
  intro t ht
  rw [setTurns, hrun.2, List.mem_append, List.mem_singleton] at ht
  rcases ht with hold | rfl
  · exact hquiet t hold
  · exact ⟨_, rfl⟩

end

/-! ## Two runs after which it lies -/

def sampleDumps (value : Bool) : PyStr := if value then py "true" else py "false"

def sampleSha (b : Bytes) : PyStr := b.map fun x ↦ ⟨x.toNat, by have := x.toNat_lt; omega⟩

theorem sampleSha_injective : Function.Injective sampleSha := by
  apply List.map_injective_iff.mpr
  intro x y h
  have hval : x.toNat = y.toNat := by simpa using h
  exact UInt8.toNat_inj.mp hval

theorem zero_notMem_sampleDumps (value : Bool) : 0 ∉ sampleDumps value := by
  cases value with
  | true => exact of_decide_eq_true (by decide)
  | false => exact of_decide_eq_true (by decide)

def allReturned (p : State Bool) : Bool :=
  p.threads.all fun t ↦ match t.rest with
    | .ret _ => true
    | .cmd _ _ => false

theorem quiet_of_allReturned {p : State Bool} (h : allReturned p = true) : p.Quiet := by
  intro t ht
  have hret := List.all_eq_true.mp h t ht
  rcases hrest : t.rest with a | ⟨c, k⟩
  · exact ⟨a, rfl⟩
  · rw [hrest] at hret
    cases hret

/-- `set({"a": true})`, then `delete_many("a")`, one after the other. -/
def deletedTurns : List (Turn (Op Bool)) :=
  [.start (.set (Finmap.singleton (py "a") true)), .resume 0, .resume 0, .resume 0, .resume 0,
    .start (.deleteMany [py "a"]), .resume 1]

/-- `set({"a": true})`, and `del d["a"]` before it signs. -/
def crossedTurns : List (Turn (Op Bool)) :=
  [.start (.set (Finmap.singleton (py "a") true)), .resume 0, .resume 0, .resume 0,
    .start (.delitem (py "a")), .resume 1, .resume 1, .resume 0]

/-- A signature outlives the fields `delete_many` took out, and the next `set` of the same mapping
is left out. -/
theorem delete_many_keeps_signature : ¬ ∀ turns : List (Turn (Op Bool)),
    (after sampleDumps sampleSha ⟨∅, none⟩ turns).Quiet →
      SignatureTrue sampleSha (after sampleDumps sampleSha ⟨∅, none⟩ turns).store ∧
        ∀ mapping : Fields PyStr Bool, (after sampleDumps sampleSha ⟨∅, none⟩ (turns ++
          setTurns (after sampleDumps sampleSha ⟨∅, none⟩ turns) mapping 5)).store.fields =
            serialized sampleDumps mapping := by
  intro hclaim
  have hset := (hclaim deletedTurns (quiet_of_allReturned (by decide +kernel))).2
    (Finmap.singleton (py "a") true)
  exact absurd hset (by decide +kernel)

/-- Nor need `delete_many` be called. -/
theorem crossed_writers_lie :
    (after sampleDumps sampleSha ⟨∅, none⟩ crossedTurns).Quiet ∧
      ¬ SignatureTrue sampleSha (after sampleDumps sampleSha ⟨∅, none⟩ crossedTurns).store := by
  refine ⟨quiet_of_allReturned (by decide +kernel), ?_⟩
  unfold SignatureTrue
  decide +kernel

/-- Only what `set` signs and `delete_many` takes out has to be accounted for. -/
theorem sound_of_op {V : Type} {dumps : V → PyStr} {p : State V} {i : ℕ}
    (h : ∀ t, p.threads[i]? = some t → ∃ key value, t.op = .setitem key value) :
    Sound dumps p (.resume i) := by
  intro op c k hi
  obtain ⟨key, value, rfl⟩ := h _ hi
  exact Or.inl trivial

theorem noZero_singleton (key value : PyStr) {fields : Fields PyStr PyStr}
    (hfields : fields = Finmap.singleton key value) (hkey : key.all (· ≠ 0) = true) :
    NoZero fields := by
  intro key' hmem hzero
  rw [hfields, Finmap.mem_singleton] at hmem
  subst hmem
  exact absurd rfl (of_decide_eq_true (List.all_eq_true.mp hkey 0 hzero))

/-- After `d["a"] = true` the next `set` does its work. -/
theorem signature_never_lies_after_setitem :
    (after sampleDumps sampleSha ⟨∅, none⟩
      ([.start (.setitem (py "a") true), .resume 0, .resume 0] ++
        setTurns (after sampleDumps sampleSha ⟨∅, none⟩
          [.start (.setitem (py "a") true), .resume 0, .resume 0])
            (Finmap.singleton (py "b") false) 5)).store.fields =
      serialized sampleDumps (Finmap.singleton (py "b") false) := by
  have hsound : Pool.Along exec (program sampleDumps sampleSha true) (Sound sampleDumps)
      (Pool.idle ⟨∅, none⟩) [.start (.setitem (py "a") true), .resume 0, .resume 0] := by
    refine Pool.along_cons ?_ (Pool.along_cons ?_ (Pool.along_cons ?_ (Pool.along_nil _ _)))
    · trivial
    · exact sound_of_op fun t ht ↦ ⟨py "a", true, by cases ht; rfl⟩
    · exact sound_of_op fun t ht ↦ ⟨py "a", true, by cases ht; rfl⟩
  exact ((signature_never_lies sampleSha_injective zero_notMem_sampleDumps (Or.inl rfl)
    (fun key value h ↦ by rw [Finmap.lookup_empty] at h; cases h) _ hsound
    (quiet_of_allReturned (by decide))).2 (Finmap.singleton (py "b") false) 5
    (noZero_singleton (py "a") (py "true") (by decide) (by decide))
    (noZero_singleton (py "b") (py "false") (by decide) (by decide))
    (by decide +kernel) (le_refl 5)).2

end FourCE.Socket

import FourCE.Orchestrator.Classify
import Mathlib.Data.List.TakeWhile

/-!
# Work taken for small talk

A text made up of greetings, courtesies and questions about the assistant holds no sign of work,
and is answered directly.  So is any short text that begins with a greeting or asks the assistant
about itself in passing, whatever else it says.
-/

namespace FourCE.Orchestrator

open FourCE.Python

def workSignals : List PyStr := CODE_SIGNALS ++ DOCUMENT_SIGNALS ++ CALC_SIGNALS

def socialPhrases : List PyStr := GREETINGS ++ COURTESIES ++ META_QUESTIONS

variable [Casing]

/-- A signal of work occurs in the prompt, other than within a question about the assistant. -/
def HasSignal (prompt : PyStr) : Prop :=
  ∃ w ∈ workSignals, ∃ before after, Casing.lower prompt = before ++ w ++ after ∧
    ¬∃ pre front back post, before = pre ++ front ∧ after = back ++ post ∧
      front ++ w ++ back ∈ META_QUESTIONS

/-- The prompt is made up of greetings, courtesies and questions about the assistant. -/
def EntirelySocial (prompt : PyStr) : Prop :=
  ∃ phrases : List PyStr, (∀ p ∈ phrases, p ∈ socialPhrases) ∧
    words (plainText prompt) = phrases.flatMap words

/-- The prompt is short, and begins with a greeting or asks the assistant about itself. -/
def OpensSocially (prompt : PyStr) : Prop :=
  (words (plainText prompt)).length ≤ 8 ∧
    ((∃ g ∈ GREETINGS, (words (plainText prompt)).head? = some g ∧
        (words (plainText prompt)).length ≤ 5) ∨
      ∃ phrase ∈ META_QUESTIONS, phrase <:+: plainText prompt)

/-! ## Signals -/

/-- A signal of one word occurs within a word of the text; of another the first word ends one. -/
def carries (w x : PyStr) : Bool :=
  if w.all fun c ↦ !isWhite c then contains w x
  else (w.takeWhile fun c ↦ !isWhite c).isSuffixOf x

omit [Casing] in
/-- No signal stands within a question about the assistant. -/
theorem signal_not_in_question {w phrase : PyStr} (hw : w ∈ workSignals)
    (hphrase : phrase ∈ META_QUESTIONS) : ¬w <:+: phrase := by
  have hall : ∀ phrase ∈ META_QUESTIONS, ∀ w ∈ workSignals, contains w phrase = false := by
    decide
  rw [← contains_iff, hall phrase hphrase w hw]
  exact Bool.false_ne_true

theorem hasSignal_iff (prompt : PyStr) :
    HasSignal prompt ↔ ∃ w ∈ workSignals, w <:+: Casing.lower prompt := by
  constructor
  · rintro ⟨w, hw, before, after, h, -⟩
    exact ⟨w, hw, before, after, h.symm⟩
  · rintro ⟨w, hw, before, after, h⟩
    refine ⟨w, hw, before, after, h.symm, ?_⟩
    rintro ⟨pre, front, back, post, -, -, hmem⟩
    exact signal_not_in_question hw hmem ⟨front, back, rfl⟩

omit [Casing] in
theorem map_plainChar_signal {w : PyStr} (hw : w ∈ workSignals) : w.map plainChar = w := by
  have hall : ∀ w ∈ workSignals, w.map plainChar = w := by decide
  exact hall w hw

/-- A signal in the prompt shows in a word of the text. -/
theorem carries_of_signal {prompt w : PyStr} (hw : w ∈ workSignals)
    (h : w <:+: Casing.lower prompt) : ∃ x ∈ words (plainText prompt), carries w x = true := by
  rw [plainText, words_join_words]
  have hmap : w <:+: (Casing.lower prompt).map plainChar := by
    have hinside := h.map plainChar
    rwa [map_plainChar_signal hw] at hinside
  have hne : w.takeWhile (fun c ↦ !isWhite c) ≠ [] := by
    have hall : ∀ w ∈ workSignals, w.takeWhile (fun c ↦ !isWhite c) ≠ [] := by decide
    exact hall w hw
  have hsolid : Solid (w.takeWhile fun c ↦ !isWhite c) := by
    intro c hc
    simpa using List.mem_takeWhile_imp hc
  by_cases hone : (w.all fun c ↦ !isWhite c) = true
  · have hself : w.takeWhile (fun c ↦ !isWhite c) = w :=
      List.takeWhile_eq_self_iff.mpr (List.all_eq_true.mp hone)
    rw [hself] at hne hsolid
    obtain ⟨x, hx, hinside⟩ := exists_word_of_infix hne hsolid hmap
    exact ⟨x, hx, by rw [carries, if_pos hone, contains_iff]; exact hinside⟩
  · -- behind the first word of the signal there is a blank
    obtain ⟨before, after, htext⟩ := hmap
    have hsplit := List.takeWhile_append_dropWhile (p := fun c ↦ !isWhite c) (l := w)
    cases hrest : w.dropWhile fun c ↦ !isWhite c with
    | nil =>
      rw [hrest, List.append_nil] at hsplit
      refine absurd (List.all_eq_true.mpr fun c hc ↦ ?_) hone
      rw [← hsplit] at hc
      exact List.mem_takeWhile_imp (p := fun c ↦ !isWhite c) hc
    | cons c rest =>
      have hc : isWhite c = true := by
        have hhead := List.head_dropWhile_not (fun c ↦ !isWhite c) (l := w) (by simp [hrest])
        simpa [hrest] using hhead
      have hblank : (Casing.lower prompt).map plainChar =
          before ++ w.takeWhile (fun c ↦ !isWhite c) ++ c :: (rest ++ after) := by
        rw [← htext, List.append_assoc, List.append_assoc, ← List.cons_append, ← hrest,
          ← List.append_assoc (w.takeWhile _), hsplit]
      rw [hblank]
      obtain ⟨x, hx, hends⟩ := exists_word_of_suffix hne hsolid hc
      exact ⟨x, hx, by rw [carries, if_neg hone, List.isSuffixOf_iff_suffix]; exact hends⟩

/-- What is entirely social holds no signal of work. -/
theorem EntirelySocial.no_signal {prompt : PyStr} (h : EntirelySocial prompt) :
    ¬HasSignal prompt := by
  intro hsignal
  obtain ⟨w, hw, hinside⟩ := (hasSignal_iff prompt).mp hsignal
  obtain ⟨x, hx, hcarries⟩ := carries_of_signal hw hinside
  obtain ⟨phrases, hphrases, hwords⟩ := h
  rw [hwords] at hx
  obtain ⟨p, hp, hx⟩ := List.mem_flatMap.mp hx
  have hall : ∀ p ∈ socialPhrases, ∀ x ∈ words p, ∀ w ∈ workSignals, carries w x = false := by
    decide
  exact Bool.false_ne_true ((hall p (hphrases p hp) x hx w hw).symm.trans hcarries)

/-! ## What is taken for small talk -/

theorem entirelySocial_of_mem {prompt : PyStr} (h : plainText prompt ∈ GREETINGS ++ COURTESIES) :
    EntirelySocial prompt := by
  refine ⟨[plainText prompt], ?_, by simp⟩
  intro p hp
  rw [List.mem_singleton.mp hp, socialPhrases]
  exact List.mem_append_left _ h

theorem words_plainText_ne_nil {prompt : PyStr} (h : plainText prompt ≠ []) :
    words (plainText prompt) ≠ [] := by
  intro hnone
  rw [plainText, words_join_words] at hnone
  exact h (by rw [plainText, hnone]; rfl)

omit [Casing] in
theorem nil_notMem_socialPhrases : [] ∉ socialPhrases := by decide

/-- Small talk is what is a social phrase as a whole, and what opens socially. -/
theorem classify_eq_chat_iff (prompt : PyStr) :
    (classify prompt false).1 = .chat ↔
      plainText prompt ∈ GREETINGS ++ COURTESIES ∧ (words (plainText prompt)).length ≤ 8 ∨
        OpensSocially prompt := by
  have hwork (lowered : PyStr) : (classify.classifyWork lowered).1 ≠ .chat := by
    rw [classify.classifyWork]
    split_ifs <;> simp
  have htalk : (classify prompt false).1 = .chat ↔
      ∃ talk, conversational prompt = some talk ∧ talk ≠ [] := by
    rw [classify]
    cases conversational prompt with
    | none => simp [hwork]
    | some talk => cases talk <;> simp [hwork]
  rw [htalk]
  by_cases hnone : plainText prompt = []
  · have hnot : ¬OpensSocially prompt := by
      rintro ⟨-, ⟨g, -, hhead, -⟩ | ⟨phrase, hphrase, hinside⟩⟩
      · rw [hnone] at hhead
        cases hhead
      · rw [hnone, List.infix_nil] at hinside
        exact nil_notMem_socialPhrases (List.mem_append_right _ (hinside ▸ hphrase))
    have hnotMem : plainText prompt ∉ GREETINGS ++ COURTESIES := by
      rw [hnone]
      exact fun h ↦ nil_notMem_socialPhrases (List.mem_append_left _ h)
    simp [conversational, hnone, hnot, hnone ▸ hnotMem]
  · rw [conversational, if_neg (by simpa using hnone)]
    simp only
    by_cases hlong : 8 < (words (plainText prompt)).length
    · rw [if_pos hlong]
      have hnot : ¬(words (plainText prompt)).length ≤ 8 := not_le.mpr hlong
      simp [OpensSocially, hnot]
    · rw [if_neg hlong]
      by_cases hmem : (GREETINGS.contains (plainText prompt) ||
          COURTESIES.contains (plainText prompt)) = true
      · rw [if_pos hmem]
        have hphrase : plainText prompt ∈ GREETINGS ++ COURTESIES := by simpa using hmem
        simp [hnone, List.mem_append.mp hphrase, not_lt.mp hlong]
      · rw [if_neg hmem]
        have hnotMem : plainText prompt ∉ GREETINGS ++ COURTESIES := by simpa using hmem
        rw [OpensSocially]
        simp only [hnotMem, false_and, false_or, not_lt.mp hlong, true_and]
        obtain ⟨x, rest, hwords⟩ := List.exists_cons_of_ne_nil (words_plainText_ne_nil hnone)
        rw [hwords, List.headD_cons, List.head?_cons]
        by_cases hgreets : (GREETINGS.contains x && decide ((x :: rest).length ≤ 5)) = true
        · rw [if_pos hgreets]
          simp only [Bool.and_eq_true, List.contains_iff_mem, decide_eq_true_eq] at hgreets
          have hx : x ≠ [] := by
            rintro rfl
            exact nil_notMem_socialPhrases
              (List.mem_append_left _ (List.mem_append_left _ hgreets.1))
          exact iff_of_true ⟨x, rfl, hx⟩ (Or.inl ⟨x, hgreets.1, rfl, hgreets.2⟩)
        · rw [if_neg hgreets]
          have hnot : ¬∃ g ∈ GREETINGS, some x = some g ∧ (x :: rest).length ≤ 5 := by
            rintro ⟨g, hg, heq, hfive⟩
            obtain rfl := Option.some.inj heq
            exact hgreets (by simp [hg] at hfive ⊢; omega)
          simp only [hnot, false_or]
          constructor
          · rintro ⟨talk, hfind, -⟩
            have hcontains : contains talk (plainText prompt) = true :=
              List.find?_some (p := fun phrase ↦ contains phrase (plainText prompt)) hfind
            exact ⟨talk, List.mem_of_find?_eq_some hfind, (contains_iff _ _).mp hcontains⟩
          · rintro ⟨phrase, hphrase, hinside⟩
            have hsome : (META_QUESTIONS.find? fun phrase ↦
                contains phrase (plainText prompt)).isSome = true :=
              List.find?_isSome.mpr ⟨phrase, hphrase, (contains_iff _ _).mpr hinside⟩
            obtain ⟨talk, htalk⟩ := Option.isSome_iff_exists.mp hsome
            refine ⟨talk, htalk, ?_⟩
            rintro rfl
            exact nil_notMem_socialPhrases
              (List.mem_append_right _ (List.mem_of_find?_eq_some htalk))

/-- A message that holds a signal of work is taken for small talk exactly when it opens
socially. -/
theorem signal_taken_for_chat_iff {prompt : PyStr} (h : HasSignal prompt) :
    (classify prompt false).1 = .chat ↔ OpensSocially prompt := by
  rw [classify_eq_chat_iff]
  constructor
  · rintro (⟨hmem, -⟩ | hopens)
    · exact absurd h (entirelySocial_of_mem hmem).no_signal
    · exact hopens
  · exact Or.inr

end FourCE.Orchestrator

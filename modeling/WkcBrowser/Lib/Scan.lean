import Mathlib.Data.List.Basic

/-! Scanners: functions that look for something at a cursor in a text and move the cursor behind it. A
scanner that finds nothing may leave the cursor where it came to. -/

namespace WkcBrowser.Lib

/-- What is found at the cursor, and the text from the new cursor on. -/
def Scan (σ α : Type) : Type := List σ → Option α × List σ

namespace Scan

variable {σ α β : Type}

instance : Monad (Scan σ) where
  pure a := fun text => (some a, text)
  bind p next := fun text =>
    match p text with
    | (some a, rest) => next a rest
    | (none, rest) => (none, rest)

def guard (condition : Prop) [Decidable condition] : Scan σ Unit := fun text =>
  (if condition then some () else none, text)

/-- On a copy of the cursor, which is taken over when something is found. -/
def attempt (p : Scan σ α) : Scan σ α := fun text =>
  match p text with
  | (some a, rest) => (some a, rest)
  | (none, _) => (none, text)

/-- Goes on whether something is found or not. -/
def optional (p : Scan σ α) : Scan σ (Option α) := fun text => (some (p text).1, (p text).2)

def orElse (p q : Scan σ α) : Scan σ α := fun text =>
  match p text with
  | (some a, rest) => (some a, rest)
  | (none, rest) => q rest

/-- What the first of the scanners finds that finds anything. -/
def firstOf : List (Scan σ α) → Scan σ α
  | [] => fun text => (none, text)
  | p :: ps => p.orElse (firstOf ps)

/-- What is found stands in front of the new cursor. -/
def Reads (p : Scan σ α) (grammar : List σ → α → Prop) : Prop :=
  ∀ ⦃text : List σ⦄ ⦃a : α⦄ ⦃rest : List σ⦄, p text = (some a, rest) →
    ∃ word, text = word ++ rest ∧ grammar word a

/-- When nothing is found the cursor stays. -/
def Restores (p : Scan σ α) : Prop :=
  ∀ ⦃text rest : List σ⦄, p text = (none, rest) → rest = text

section
variable {p : Scan σ α} {q : Scan σ α} {next : α → Scan σ β} {text rest : List σ}

theorem pure_eq_some {a b : α} : (pure a : Scan σ α) text = (some b, rest) ↔ a = b ∧ text = rest := by
  change ((some a, text) : Option α × List σ) = (some b, rest) ↔ _
  rw [Prod.mk.injEq, Option.some.injEq]

theorem bind_eq_some {b : β} : (p >>= next) text = (some b, rest) ↔
    ∃ a middle, p text = (some a, middle) ∧ next a middle = (some b, rest) := by
  change (match p text with
    | (some a, rest) => next a rest
    | (none, rest) => (none, rest)) = (some b, rest) ↔ _
  obtain ⟨found, middle⟩ := p text
  cases found with
  | none => simp
  | some a => simp

theorem bind_of_some {a : α} {middle : List σ} (found : p text = (some a, middle)) :
    (p >>= next) text = next a middle := by
  change (match p text with
    | (some a, rest) => next a rest
    | (none, rest) => (none, rest)) = _
  rw [found]

theorem bind_of_none {middle : List σ} (absent : p text = (none, middle)) :
    (p >>= next) text = (none, middle) := by
  change (match p text with
    | (some a, rest) => next a rest
    | (none, rest) => (none, rest)) = _
  rw [absent]

theorem guard_eq_some {condition : Prop} [Decidable condition] {u : Unit} :
    (guard condition : Scan σ Unit) text = (some u, rest) ↔ condition ∧ text = rest := by
  unfold guard
  by_cases holds : condition
  · simp [holds]
  · simp [holds]

theorem guard_of_holds {condition : Prop} [Decidable condition] (holds : condition) (text : List σ) :
    guard condition text = (some (), text) := by
  unfold guard
  rw [if_pos holds]

theorem attempt_eq_some {a : α} : attempt p text = (some a, rest) ↔ p text = (some a, rest) := by
  unfold attempt
  obtain ⟨found, middle⟩ := p text
  cases found with
  | none => simp
  | some a => simp

theorem attempt_of_none {middle : List σ} (absent : p text = (none, middle)) :
    attempt p text = (none, text) := by
  unfold attempt
  rw [absent]

theorem optional_eq_some {found : Option α} :
    optional p text = (some found, rest) ↔ p text = (found, rest) := by
  unfold optional
  rw [Prod.mk.injEq, Option.some.injEq, Prod.ext_iff]

theorem orElse_eq_some {a : α} : orElse p q text = (some a, rest) ↔
    p text = (some a, rest) ∨ ∃ middle, p text = (none, middle) ∧ q middle = (some a, rest) := by
  unfold orElse
  obtain ⟨found, middle⟩ := p text
  cases found with
  | none => simp
  | some a => simp

theorem restores_attempt : (attempt p).Restores := by
  intro text rest absent
  unfold attempt at absent
  rcases here : p text with ⟨_ | a, middle⟩
  · rw [here] at absent
    exact (Prod.mk.inj absent).2.symm
  · rw [here] at absent
    cases absent

theorem Restores.bind_pure (restores : p.Restores) (f : α → β) :
    (p >>= fun a => pure (f a) : Scan σ β).Restores := by
  intro text rest absent
  rcases here : p text with ⟨_ | a, middle⟩
  · rw [bind_of_none here] at absent
    obtain rfl := (Prod.mk.inj absent).2
    exact restores here
  · rw [bind_of_some here] at absent
    cases absent

/-! What is read by scanners one after another. -/

variable {grammar grammar' : List σ → α → Prop} {grammarNext : α → List σ → β → Prop}

theorem Reads.mono (reads : p.Reads grammar) (weaker : ∀ word a, grammar word a → grammar' word a) :
    p.Reads grammar' := by
  intro text a rest found
  obtain ⟨word, split, here⟩ := reads found
  exact ⟨word, split, weaker word a here⟩

theorem reads_pure {a : α} : (pure a : Scan σ α).Reads fun word b => word = [] ∧ a = b := by
  intro text b rest found
  obtain ⟨same, rfl⟩ := pure_eq_some.mp found
  exact ⟨[], rfl, rfl, same⟩

theorem Reads.bind (reads : p.Reads grammar) (readsNext : ∀ a, (next a).Reads (grammarNext a)) :
    (p >>= next).Reads fun word b => ∃ a first second, word = first ++ second ∧ grammar first a ∧
      grammarNext a second b := by
  intro text b rest found
  obtain ⟨a, middle, here, behind⟩ := bind_eq_some.mp found
  obtain ⟨first, rfl, isFirst⟩ := reads here
  obtain ⟨second, rfl, isSecond⟩ := readsNext a behind
  exact ⟨first ++ second, (List.append_assoc ..).symm, a, first, second, rfl, isFirst, isSecond⟩

theorem reads_guard {condition : Prop} [Decidable condition] :
    (guard condition : Scan σ Unit).Reads fun word _ => word = [] ∧ condition := by
  intro text b rest found
  obtain ⟨holds, rfl⟩ := guard_eq_some.mp found
  exact ⟨[], rfl, rfl, holds⟩

theorem Reads.attempt (reads : p.Reads grammar) : (attempt p).Reads grammar :=
  fun _ _ _ found => reads (attempt_eq_some.mp found)

theorem Reads.optional (reads : p.Reads grammar) (restores : p.Restores) :
    (optional p).Reads fun word found => found = none ∧ word = [] ∨ ∃ a, found = some a ∧ grammar word a := by
  intro text found rest read
  have here := optional_eq_some.mp read
  cases found with
  | none =>
    obtain rfl := restores here
    exact ⟨[], rfl, Or.inl ⟨rfl, rfl⟩⟩
  | some a =>
    obtain ⟨word, split, isWord⟩ := reads here
    exact ⟨word, split, Or.inr ⟨a, rfl, isWord⟩⟩

theorem Reads.orElse (reads : p.Reads grammar) (restores : p.Restores) (readsOther : q.Reads grammar') :
    (orElse p q).Reads fun word a => grammar word a ∨ grammar' word a := by
  intro text a rest found
  rcases orElse_eq_some.mp found with here | ⟨middle, absent, other⟩
  · obtain ⟨word, split, isWord⟩ := reads here
    exact ⟨word, split, Or.inl isWord⟩
  · obtain rfl := restores absent
    obtain ⟨word, split, isWord⟩ := readsOther other
    exact ⟨word, split, Or.inr isWord⟩

theorem reads_firstOf {ps : List (Scan σ α)} (all : ∀ p ∈ ps, p.Reads grammar ∧ p.Restores) :
    (firstOf ps).Reads grammar := by
  induction ps with
  | nil =>
    intro text a rest found
    cases found
  | cons p ps ih =>
    obtain ⟨⟨reads, restores⟩, behind⟩ := List.forall_mem_cons.mp all
    exact (reads.orElse restores (ih behind)).mono fun word a either => or_self_iff.mp either

/-- Something is found when one of the scanners finds something. -/
theorem firstOf_of_mem {ps : List (Scan σ α)} (all : ∀ p ∈ ps, p.Restores) {p : Scan σ α} (listed : p ∈ ps)
    {a : α} (found : p text = (some a, rest)) : ∃ b rest', firstOf ps text = (some b, rest') := by
  induction ps with
  | nil => cases listed
  | cons q ps ih =>
    obtain ⟨restores, behind⟩ := List.forall_mem_cons.mp all
    rcases here : q text with ⟨_ | b, middle⟩
    · obtain rfl := restores here
      have later : p ∈ ps := by
        rcases List.mem_cons.mp listed with rfl | later
        · cases here.symm.trans found
        · exact later
      obtain ⟨b, rest', other⟩ := ih behind later
      exact ⟨b, rest', orElse_eq_some.mpr (Or.inr ⟨_, here, other⟩)⟩
    · exact ⟨b, middle, orElse_eq_some.mpr (Or.inl here)⟩

end

end Scan

end WkcBrowser.Lib

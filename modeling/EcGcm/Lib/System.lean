import Mathlib

/-!
# Systems driven by events

A reactive program seen from outside: events arrive, each one is *enabled* in some states, and
handling it takes the program to its next state, if there is one. What a claim about such a
program quantifies over is a **run**, a finite sequence of enabled events.

* `System.invariant` is the rule every safety proof uses: one step lemma, one induction.
* `System.replay` is the executable reading. It takes a list of events and checks that each is
  enabled on the way, so a concrete run is a computation (`replay_run`). Where a property speaks of
  the events and not only of the state, it is proved of replays (`invariant_of_replay`).
* `System.only` narrows a system to the events that meet a further condition, `System.within`
  to those that do not leave a set of states. A run of the narrow system is a run of the wide one.
-/

set_option autoImplicit false

namespace EcGcm

/-- States, events, and what each event does. -/
structure System (σ ε : Type) where
  enabled : σ → ε → Prop
  next : ε → σ → Option σ

namespace System

variable {σ ε : Type} {S : System σ ε} {s s' : σ}

/-- One enabled event is handled. -/
def Step (S : System σ ε) (s s' : σ) : Prop := ∃ e, S.enabled s e ∧ S.next e s = some s'

/-- Any number of steps. -/
def Run (S : System σ ε) : σ → σ → Prop := Relation.ReflTransGen S.Step

/-- **The invariant rule.** -/
theorem invariant {I : σ → Prop} (h0 : I s)
    (hstep : ∀ e t t', I t → S.enabled t e → S.next e t = some t' → I t')
    (hrun : S.Run s s') : I s' := by
  induction hrun with
  | refl => exact h0
  | tail _ hlast ih =>
    obtain ⟨e, hen, hnext⟩ := hlast
    exact hstep e _ _ ih hen hnext

/-- The system in which only events that meet `P` arrive. -/
def only (S : System σ ε) (P : σ → ε → Prop) : System σ ε where
  enabled s e := S.enabled s e ∧ P s e
  next := S.next

/-- A run of the narrow system is a run of the wide one. -/
theorem run_of_only {P : σ → ε → Prop} (h : (S.only P).Run s s') : S.Run s s' := by
  induction h with
  | refl => exact .refl
  | tail _ hlast ih =>
    obtain ⟨e, hen, hnext⟩ := hlast
    exact .tail ih ⟨e, hen.1, hnext⟩

/-- A condition that every event meets narrows nothing. -/
theorem run_only_of_forall {P : σ → ε → Prop} (hP : ∀ s e, P s e) (h : S.Run s s') :
    (S.only P).Run s s' := by
  induction h with
  | refl => exact .refl
  | tail _ hlast ih =>
    obtain ⟨e, hen, hnext⟩ := hlast
    exact .tail ih ⟨e, ⟨hen, hP _ e⟩, hnext⟩

instance [∀ s e, Decidable (S.enabled s e)] {P : σ → ε → Prop} [∀ s e, Decidable (P s e)] (s : σ)
    (e : ε) : Decidable ((S.only P).enabled s e) :=
  inferInstanceAs (Decidable (S.enabled s e ∧ P s e))

/-- The system that is only followed while its states stay in `ok`. -/
def within (S : System σ ε) (ok : σ → Prop) : System σ ε :=
  S.only fun s e => ∀ s' ∈ S.next e s, ok s'

/-! ## Executing a list of events -/

section Replay

variable (S) [∀ s e, Decidable (S.enabled s e)]

/-- Handle the events in order; `none` as soon as one is not enabled or has no next state. -/
def replay : List ε → σ → Option σ
  | [], s => some s
  | e :: es, s => if S.enabled s e then (S.next e s).bind (replay es) else none

variable {S}

theorem replay_run {es : List ε} (h : S.replay es s = some s') : S.Run s s' := by
  induction es generalizing s with
  | nil =>
    cases h
    exact .refl
  | cons e es ih =>
    simp only [replay] at h
    split at h
    · rename_i hen
      obtain ⟨t, hnext, hrest⟩ := Option.bind_eq_some_iff.mp h
      exact .head ⟨e, hen, hnext⟩ (ih hrest)
    · exact absurd h (by simp)

/-- A replay that ends in a state with `p` is a run to such a state. -/
theorem exists_run_of_replay {p : σ → Bool} {es : List ε}
    (h : (S.replay es s).any p = true) : ∃ s', S.Run s s' ∧ p s' = true := by
  cases hs : S.replay es s with
  | none => rw [hs] at h; exact absurd h (by simp)
  | some s' =>
    rw [hs] at h
    exact ⟨s', replay_run hs, h⟩

/-- **The invariant rule, for what relates a state to the events that have led to it.** -/
theorem invariant_of_replay {I : List ε → σ → Prop} {es : List ε} (h0 : I [] s)
    (hstep : ∀ es e t t', I es t → S.enabled t e → S.next e t = some t' → I (es ++ [e]) t')
    (h : S.replay es s = some s') : I es s' := by
  have hfrom : ∀ (es pre : List ε) (t : σ), I pre t → S.replay es t = some s' →
      I (pre ++ es) s' := by
    intro es
    induction es with
    | nil =>
      intro pre t ht h
      cases h
      rw [List.append_nil]
      exact ht
    | cons e es ih =>
      intro pre t ht h
      simp only [replay] at h
      split at h
      · rename_i hen
        obtain ⟨t', hnext, hrest⟩ := Option.bind_eq_some_iff.mp h
        rw [List.append_cons]
        exact ih _ t' (hstep pre e t t' ht hen hnext) hrest
      · exact absurd h (by simp)
  exact hfrom es [] s h0 h

end Replay

end System

end EcGcm

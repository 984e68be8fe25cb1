import Mathlib.Data.List.Basic

/-!
# Histories

A history is a list of events, the newest first.  Three notions are enough to
state what a run has done so far.

* `Since good bad h`: some event of `h` is `good`, and no event after it is
  `bad`.  This is the past-time operator of temporal logic, read at the end
  of the history.
* `Sound ok h`: every event of `h` was `ok` for the history before it.
* `Extends p a b`: the history `b` is `a` with more events, all of them `p`.
-/

namespace OpenKernel.Lib

variable {ε : Type}

/-- Some event is `good`, and no later one is `bad`. -/
def Since (good bad : ε → Prop) : List ε → Prop
  | [] => False
  | e :: h => good e ∨ (¬ bad e ∧ Since good bad h)

/-- Every event is `ok` for the events before it. -/
def Sound (ok : ε → List ε → Prop) : List ε → Prop
  | [] => True
  | e :: h => ok e h ∧ Sound ok h

section Since

variable {good bad : ε → Prop} {h : List ε}

theorem Since.now {e : ε} (he : good e) : Since good bad (e :: h) :=
  Or.inl he

theorem Since.later {e : ε} (he : ¬ bad e) (hs : Since good bad h) :
    Since good bad (e :: h) :=
  Or.inr ⟨he, hs⟩

/-- Events that are not bad keep what held since the good one. -/
theorem Since.append {new : List ε} (hnew : ∀ e ∈ new, ¬ bad e)
    (hs : Since good bad h) : Since good bad (new ++ h) := by
  induction new with
  | nil => exact hs
  | cons e new ih =>
    exact Since.later (hnew e (by simp))
      (ih fun e' he' => hnew e' (by simp [he']))

theorem Since.mono {good' bad' : ε → Prop} (hg : ∀ e, good e → good' e)
    (hb : ∀ e, bad' e → bad e) (hs : Since good bad h) :
    Since good' bad' h := by
  induction h with
  | nil => exact hs
  | cons e h ih =>
    rcases hs with he | ⟨he, hs⟩
    · exact Or.inl (hg e he)
    · exact Or.inr ⟨fun hbad => he (hb e hbad), ih hs⟩

/-- No bad event since a good one, when the good one is the later of two. -/
theorem Since.between {mid : ε → Prop} (hgood : Since good mid h) (hmid : Since mid bad h) :
    Since good bad h := by
  induction h with
  | nil => exact hgood
  | cons e h ih =>
    rcases hgood with he | ⟨hnot, hgood⟩
    · exact Or.inl he
    · rcases hmid with he | ⟨hbad, hmid⟩
      · exact absurd he hnot
      · exact Or.inr ⟨hbad, ih hgood hmid⟩

/-- What held before events that are not good held before them already. -/
theorem Since.of_append {new : List ε} (hnew : ∀ e ∈ new, ¬ good e)
    (hs : Since good bad (new ++ h)) : Since good bad h := by
  induction new with
  | nil => exact hs
  | cons e new ih =>
    rcases hs with he | ⟨-, hs⟩
    · exact absurd he (hnew e (by simp))
    · exact ih (fun e' he' => hnew e' (by simp [he'])) hs

/-- Nothing has held since a good event that is not there. -/
theorem Since.exists (hs : Since good bad h) : ∃ e ∈ h, good e := by
  induction h with
  | nil => exact hs.elim
  | cons e h ih =>
    rcases hs with he | ⟨-, hs⟩
    · exact ⟨e, by simp, he⟩
    · obtain ⟨e', hmem, he'⟩ := ih hs
      exact ⟨e', by simp [hmem], he'⟩

instance [DecidablePred good] [DecidablePred bad] :
    DecidablePred (Since good bad)
  | [] => isFalse id
  | e :: h =>
    have : Decidable (Since good bad h) := instDecidablePredListSince h
    inferInstanceAs (Decidable (good e ∨ (¬ bad e ∧ Since good bad h)))

end Since

section Sound

variable {ok : ε → List ε → Prop} {h : List ε}

theorem Sound.cons {e : ε} (he : ok e h) (hs : Sound ok h) :
    Sound ok (e :: h) :=
  ⟨he, hs⟩

/-- A sound history is sound at each of its events. -/
theorem Sound.at {e : ε} {later earlier : List ε}
    (hs : Sound ok (later ++ e :: earlier)) : ok e earlier := by
  induction later with
  | nil => exact hs.1
  | cons _ _ ih => exact ih hs.2

end Sound

/-- `new` is `old` after some more events, all of which meet `p`. -/
def Extends (p : ε → Prop) (old new : List ε) : Prop :=
  ∃ events, new = events ++ old ∧ ∀ e ∈ events, p e

namespace Extends

variable {p : ε → Prop} {a b c : List ε}

theorem refl : Extends p a a :=
  ⟨[], rfl, by simp⟩

theorem cons {e : ε} (h : Extends p a b) (he : p e) :
    Extends p a (e :: b) := by
  obtain ⟨events, rfl, hp⟩ := h
  exact ⟨e :: events, rfl, by simpa [he] using hp⟩

theorem trans (hab : Extends p a b) (hbc : Extends p b c) : Extends p a c := by
  obtain ⟨xs, rfl, hxs⟩ := hab
  obtain ⟨ys, rfl, hys⟩ := hbc
  refine ⟨ys ++ xs, by rw [List.append_assoc], fun e he => ?_⟩
  rcases List.mem_append.mp he with he | he
  · exact hys e he
  · exact hxs e he

theorem mono {q : ε → Prop} (h : Extends p a b) (hpq : ∀ e, p e → q e) :
    Extends q a b := by
  obtain ⟨events, rfl, hp⟩ := h
  exact ⟨events, rfl, fun e he => hpq e (hp e he)⟩

/-- Harmless events keep what held since a good one. -/
theorem since {good bad : ε → Prop} (h : Extends p a b)
    (hp : ∀ e, p e → ¬ bad e) (hs : Since good bad a) : Since good bad b := by
  obtain ⟨events, rfl, he⟩ := h
  exact hs.append fun e hmem => hp e (he e hmem)

/-- Events that are not good do not make it hold. -/
theorem of_since {good bad : ε → Prop} (h : Extends p a b)
    (hp : ∀ e, p e → ¬ good e) (hs : Since good bad b) : Since good bad a := by
  obtain ⟨events, rfl, he⟩ := h
  exact hs.of_append fun e hmem => hp e (he e hmem)

end Extends

/-- New events that are `ok` where they stand keep a history sound. -/
theorem Sound.grow {ok : ε → List ε → Prop} {p : ε → Prop} {a b : List ε} (h : Sound ok a)
    (hab : Extends p a b) (hp : ∀ e, p e → ∀ c, Extends p a c → ok e c) : Sound ok b := by
  obtain ⟨events, rfl, he⟩ := hab
  induction events with
  | nil => exact h
  | cons e events ih =>
    have hevents : ∀ e ∈ events, p e := fun e' he' => he e' (by simp [he'])
    exact .cons (hp e (he e (by simp)) _ ⟨events, rfl, hevents⟩) (ih hevents)

end OpenKernel.Lib

import Mathlib.Tactic.Common

/-!
# Watch channels

One value that many can read and change, with a version that every change raises. A reader
remembers the version it has seen and sleeps until there is another one.
-/

namespace Channels

/-- What a watch channel promises: who reads it finds the value sent last, and whoever has seen an
older version finds that there is a newer one. -/
class Watch (α : outParam Type*) (W : Type*) where
  channel : α → W
  value : W → α
  version : W → ℕ
  send : W → α → W
  value_channel : ∀ a, value (channel a) = a
  value_send : ∀ w a, value (send w a) = a
  version_lt_send : ∀ w a, version w < version (send w a)

namespace Watch

attribute [simp] value_channel value_send

variable {α W : Type*} [Watch α W] (w : W) (f : α → Option α)

/-- Changes the value if `f` gives another one. -/
def sendIfModified : W :=
  match f (value w) with
  | none => w
  | some a => send w a

lemma sendIfModified_cases : f (value w) = none ∧ sendIfModified w f = w ∨
    ∃ a, f (value w) = some a ∧ sendIfModified w f = send w a := by
  unfold sendIfModified
  rcases f (value w) with _ | a
  · exact .inl ⟨rfl, rfl⟩
  · exact .inr ⟨a, rfl, rfl⟩

lemma value_sendIfModified : value (sendIfModified w f) = (f (value w)).getD (value w) := by
  obtain ⟨hf, hw⟩ | ⟨a, hf, hw⟩ := sendIfModified_cases w f <;> simp [hf, hw]

end Watch

/-- A channel that counts its changes. -/
structure Counted (α : Type*) where
  value : α
  version : ℕ

instance {α : Type*} : Watch α (Counted α) where
  channel a := ⟨a, 0⟩
  value := Counted.value
  version := Counted.version
  send w a := ⟨a, w.version + 1⟩
  value_channel _ := rfl
  value_send _ _ := rfl
  version_lt_send w _ := Nat.lt_succ_self w.version

end Channels

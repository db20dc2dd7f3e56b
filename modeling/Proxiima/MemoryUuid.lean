import Mathlib.Tactic.NormNum

/-!
# Memory UUIDs

The ids of memory and goal versions: 48 bits of milliseconds, the version nibble and a
12-bit counter, the variant bits, random bits, the number of the issuing store and more
random bits. Every process has one generator; a mint stays above what the generator minted
before and above a given floor, whatever the clock says. Ids are compared as numbers, which
is how the database orders them.
-/

namespace Proxiima

abbrev Uuid := ℕ

instance : LawfulBEq (Uuid × Uuid) := inferInstance

def maxMillis : ℕ := 2 ^ 48 - 1

def maxCounter : ℕ := 2 ^ 12 - 1

def timestampMillis (id : ℕ) : ℕ := id / 2 ^ 80

/-- Read the issuing store's number from a memory UUID. -/
def memoryStoreNumber (id : ℕ) : ℕ := id / 2 ^ 32 % 2 ^ 16

/-- The timestamp and counter a mint has to stay above. -/
def floorOf (id : ℕ) : ℕ × ℕ := (timestampMillis id, id / 2 ^ 64 % 2 ^ 12)

/-- The later of two timestamps with counter; `none` is before all. -/
def later : Option (ℕ × ℕ) → Option (ℕ × ℕ) → Option (ℕ × ℕ)
  | none, b => b
  | a, none => a
  | some a, some b => if a.1 < b.1 ∨ (a.1 = b.1 ∧ a.2 ≤ b.2) then some b else some a

/-- The layout: 16 random bytes, with timestamp, counter, version, variant and store number
written over them. -/
def layout (millis counter storeNumber random : ℕ) : ℕ :=
  millis * 2 ^ 80 + (2 ^ 15 + counter) * 2 ^ 64 + (2 ^ 7 + random / 2 ^ 56 % 2 ^ 6) * 2 ^ 56 +
    random / 2 ^ 48 % 2 ^ 8 * 2 ^ 48 + storeNumber % 2 ^ 16 * 2 ^ 32 + random % 2 ^ 32

/-- What a process remembers of its last mint; the counter has 12 bits. -/
structure Generator where
  previous : Option (ℕ × ℕ) := none
  fits : ∀ p, previous = some p → p.2 ≤ maxCounter := by rintro _ ⟨⟩

/-- The next timestamp and counter. -/
def Generator.next (g : Generator) (clockMillis random : ℕ) (floor : Option ℕ) : ℕ × ℕ :=
  let seed := random / 2 ^ 64 % 2 ^ 12
  match later g.previous (floor.map floorOf) with
  | some (millis, counter) =>
    if clockMillis ≤ millis then
      if counter = maxCounter then (millis + 1, seed) else (millis, counter + 1)
    else (clockMillis, seed)
  | none => (clockMillis, seed)

lemma later_fits {a b : Option (ℕ × ℕ)} (ha : ∀ p, a = some p → p.2 ≤ maxCounter)
    (hb : ∀ p, b = some p → p.2 ≤ maxCounter) : ∀ p, later a b = some p → p.2 ≤ maxCounter := by
  intro p hp
  rcases a with _ | a
  · exact hb p hp
  · rcases b with _ | b
    · exact ha p hp
    · rw [later] at hp
      split at hp
      · exact hb p hp
      · exact ha p hp

lemma floor_fits (floor : Option ℕ) : ∀ p, floor.map floorOf = some p → p.2 ≤ maxCounter := by
  rintro p hp
  obtain ⟨f, -, rfl⟩ := Option.map_eq_some_iff.1 hp
  have := Nat.mod_lt (f / 2 ^ 64) (show 0 < 2 ^ 12 by norm_num)
  simp only [floorOf, maxCounter]
  omega

lemma next_fits (g : Generator) (clockMillis random : ℕ) (floor : Option ℕ) :
    (g.next clockMillis random floor).2 ≤ maxCounter := by
  have hseed := Nat.mod_lt (random / 2 ^ 64) (show 0 < 2 ^ 12 by norm_num)
  have hlater := later_fits g.fits (floor_fits floor)
  unfold Generator.next maxCounter at *
  split
  · rename_i millis counter heq
    have := hlater _ heq
    split
    · split <;> simp only at this ⊢ <;> omega
    · simp only
      omega
  · simp only
    omega

/-- Mint an id, or leave the generator as it is when the timestamp does not fit. -/
def Generator.mint (g : Generator) (clockMillis random storeNumber : ℕ) (floor : Option ℕ) :
    Option (ℕ × Generator) :=
  let n := g.next clockMillis random floor
  if maxMillis < n.1 then none
  else some (layout n.1 n.2 storeNumber random,
    ⟨some n, by rintro _ ⟨⟩; exact next_fits g clockMillis random floor⟩)

/-! ### What a mint gives -/

/-- An id in the layout of a mint: 128 bits with the version nibble 8. -/
def IsMinted (id : ℕ) : Prop := id < 2 ^ 128 ∧ id / 2 ^ 76 % 2 ^ 4 = 8

instance (id : ℕ) : Decidable (IsMinted id) := inferInstanceAs (Decidable (_ ∧ _))

section Mint

variable {g g' : Generator} {clockMillis random storeNumber id : ℕ} {floor : Option ℕ}

/-- A mint is later than the generator's last and later than the floor. -/
lemma next_later (clockMillis random : ℕ) {p : ℕ × ℕ}
    (hp : later g.previous (floor.map floorOf) = some p) :
    p.1 < (g.next clockMillis random floor).1 ∨
      p.1 = (g.next clockMillis random floor).1 ∧ p.2 < (g.next clockMillis random floor).2 := by
  obtain ⟨millis, counter⟩ := p
  simp only [Generator.next, hp]
  split
  · split
    · exact .inl (Nat.lt_succ_self _)
    · exact .inr ⟨rfl, Nat.lt_succ_self _⟩
  · exact .inl (by omega)

lemma later_floor (a : Option (ℕ × ℕ)) (f : ℕ × ℕ) :
    ∃ p, later a (some f) = some p ∧ (f.1 < p.1 ∨ f.1 = p.1 ∧ f.2 ≤ p.2) := by
  rcases a with _ | a
  · exact ⟨f, rfl, .inr ⟨rfl, le_refl _⟩⟩
  · rw [later]
    split
    · exact ⟨f, rfl, .inr ⟨rfl, le_refl _⟩⟩
    · exact ⟨a, rfl, by omega⟩

lemma layout_div (millis counter storeNumber random : ℕ) :
    layout millis counter storeNumber random / 2 ^ 64 = millis * 2 ^ 16 + 2 ^ 15 + counter := by
  have h6 := Nat.mod_lt (random / 2 ^ 56) (show 0 < 2 ^ 6 by norm_num)
  have h8 := Nat.mod_lt (random / 2 ^ 48) (show 0 < 2 ^ 8 by norm_num)
  have h16 := Nat.mod_lt storeNumber (show 0 < 2 ^ 16 by norm_num)
  have h32 := Nat.mod_lt random (show 0 < 2 ^ 32 by norm_num)
  unfold layout
  omega

lemma mint_eq (h : g.mint clockMillis random storeNumber floor = some (id, g')) :
    (g.next clockMillis random floor).1 ≤ maxMillis ∧
      id = layout (g.next clockMillis random floor).1 (g.next clockMillis random floor).2
        storeNumber random := by
  simp only [Generator.mint] at h
  split at h
  · cases h
  · rename_i hle
    obtain ⟨rfl, rfl⟩ := by simpa using h
    exact ⟨not_lt.1 hle, rfl⟩

/-- **Minted ids have the layout** of a memory UUID. -/
theorem mint_isMinted
    (h : g.mint clockMillis random storeNumber floor = some (id, g')) : IsMinted id := by
  obtain ⟨hmillis, rfl⟩ := mint_eq h
  have hc := next_fits g clockMillis random floor
  have hdiv := layout_div (g.next clockMillis random floor).1 (g.next clockMillis random floor).2
    storeNumber random
  unfold IsMinted
  unfold maxMillis at hmillis
  unfold maxCounter at hc
  omega

/-- **A mint is above its floor**, when the floor is itself minted. -/
theorem mint_above_floor {f : ℕ} (hf : IsMinted f)
    (h : g.mint clockMillis random storeNumber (some f) = some (id, g')) : f < id := by
  obtain ⟨-, rfl⟩ := mint_eq h
  have hc : (floorOf f).2 ≤ maxCounter := floor_fits (some f) _ rfl
  have hdiv := layout_div (g.next clockMillis random (some f)).1
    (g.next clockMillis random (some f)).2 storeNumber random
  obtain ⟨p, hp, hfp⟩ := later_floor g.previous (floorOf f)
  have hnext :=
    next_later clockMillis random (show later g.previous ((some f).map floorOf) = some p from hp)
  -- compare the upper 64 bits: timestamp, version and counter
  have hfdiv : f / 2 ^ 64 = (floorOf f).1 * 2 ^ 16 + 2 ^ 15 + (floorOf f).2 := by
    obtain ⟨-, hversion⟩ := hf
    simp only [floorOf, timestampMillis]
    omega
  unfold maxCounter at hc
  omega

/-- The store number is read back from a minted id. -/
theorem mint_storeNumber (h : g.mint clockMillis random storeNumber floor = some (id, g')) :
    memoryStoreNumber id = storeNumber % 2 ^ 16 := by
  obtain ⟨-, rfl⟩ := mint_eq h
  have h16 := Nat.mod_lt storeNumber (show 0 < 2 ^ 16 by norm_num)
  have h32 := Nat.mod_lt random (show 0 < 2 ^ 32 by norm_num)
  unfold memoryStoreNumber layout
  omega

end Mint

end Proxiima

import Mathlib.Data.List.Basic

/-!
# Reading structures out of JSON

A JSON value over leaves `J` that are passed through unread, and the readers a derived
deserializer is made of: a struct that refuses unknown members, required and optional members,
sequences, bounded numbers, and enumerations written as strings. Objects keep their members in
the order in which they were written.
-/

namespace Serde

inductive Json (J : Type) where
  | null
  | num (n : ℕ)
  | str (s : String)
  | arr (items : List (Json J))
  | obj (members : List (String × Json J))
  /-- A value nothing looks into. -/
  | value (j : J)

namespace Json

variable {J : Type} [DecidableEq J]

mutual

def beq : Json J → Json J → Bool
  | .null, .null => true
  | .num n, .num n' => n = n'
  | .str s, .str s' => s = s'
  | .arr xs, .arr ys => beqItems xs ys
  | .obj fs, .obj gs => beqMembers fs gs
  | .value j, .value j' => j = j'
  | _, _ => false

def beqItems : List (Json J) → List (Json J) → Bool
  | [], [] => true
  | x :: xs, y :: ys => beq x y && beqItems xs ys
  | _, _ => false

def beqMembers : List (String × Json J) → List (String × Json J) → Bool
  | [], [] => true
  | (m, x) :: fs, (n, y) :: gs => m = n && beq x y && beqMembers fs gs
  | _, _ => false

end

mutual

lemma beq_iff : ∀ x y : Json J, beq x y = true ↔ x = y
  | .null, y => by cases y <;> simp [beq]
  | .num n, y => by cases y <;> simp [beq]
  | .str s, y => by cases y <;> simp [beq]
  | .arr xs, y => by cases y <;> simp [beq, beqItems_iff xs]
  | .obj fs, y => by cases y <;> simp [beq, beqMembers_iff fs]
  | .value j, y => by cases y <;> simp [beq]

lemma beqItems_iff : ∀ xs ys : List (Json J), beqItems xs ys = true ↔ xs = ys
  | [], ys => by cases ys <;> simp [beqItems]
  | x :: xs, ys => by cases ys <;> simp [beqItems, beq_iff x, beqItems_iff xs]

lemma beqMembers_iff : ∀ fs gs : List (String × Json J), beqMembers fs gs = true ↔ fs = gs
  | [], gs => by cases gs <;> simp [beqMembers]
  | (m, x) :: fs, gs => by
    cases gs <;> simp [beqMembers, beq_iff x, beqMembers_iff fs, Prod.ext_iff]

end

instance : DecidableEq (Json J) := fun x y => decidable_of_iff _ (beq_iff x y)

end Json

/-! ### Readers -/

inductive Error where
  | invalidType
  | invalidValue
  | missingField (name : String)
  | unknownField (name : String)
  | unknownVariant (name : String)
  deriving DecidableEq

namespace Error

def message : Error → String
  | invalidType => "invalid type"
  | invalidValue => "invalid value"
  | missingField name => "missing field `" ++ name ++ "`"
  | unknownField name => "unknown field `" ++ name ++ "`"
  | unknownVariant name => "unknown variant `" ++ name ++ "`"

end Error

variable {J α β : Type}

def readNat : Json J → Except Error ℕ
  | .num n => .ok n
  | _ => .error .invalidType

/-- A number below `bound`. -/
def readBelow (bound : ℕ) (j : Json J) : Except Error ℕ := do
  let n ← readNat j
  if n < bound then pure n else throw .invalidValue

def readStr : Json J → Except Error String
  | .str s => .ok s
  | _ => .error .invalidType

/-- A string in the image of a table of names. -/
def readVariant (variants : List (String × α)) (j : Json J) : Except Error α := do
  let s ← readStr j
  match variants.find? fun v => v.1 == s with
  | some v => pure v.2
  | none => throw (.unknownVariant s)

def readArr (read : Json J → Except Error α) : Json J → Except Error (List α)
  | .arr xs => xs.mapM read
  | _ => .error .invalidType

def readOption (read : Json J → Except Error α) : Json J → Except Error (Option α)
  | .null => .ok none
  | j => some <$> read j

/-- The members of an object none of which has another name than these. -/
def readStruct (names : List String) : Json J → Except Error (List (String × Json J))
  | .obj members =>
    match members.find? fun m => !names.contains m.1 with
    | some m => .error (.unknownField m.1)
    | none => .ok members
  | _ => .error .invalidType

def member (name : String) : List (String × Json J) → Option (Json J)
  | [] => none
  | (n, j) :: ms => if n = name then some j else member name ms

def requiredMember (name : String) (read : Json J → Except Error α) (ms : List (String × Json J)) :
    Except Error α :=
  match member name ms with
  | some j => read j
  | none => .error (.missingField name)

def optionalMember (name : String) (read : Json J → Except Error α) (ms : List (String × Json J)) :
    Except Error (Option α) :=
  match member name ms with
  | some j => readOption read j
  | none => .ok none

/-- Take the member `name` out of the members. -/
def without (name : String) (ms : List (String × Json J)) : List (String × Json J) :=
  ms.filter fun m => m.1 != name

/-! ### What they read back -/

/-- A computation that succeeds does so step by step. -/
lemma bind_eq_ok {ε : Type} {x : Except ε α} {f : α → Except ε β} {b : β} :
    x >>= f = .ok b ↔ ∃ a, x = .ok a ∧ f a = .ok b := by
  cases x <;> simp [bind, Except.bind]

lemma readBelow_num {bound n : ℕ} (h : n < bound) : readBelow bound (.num n : Json J) = .ok n := by
  simp [readBelow, readNat, h, pure, Except.pure, bind, Except.bind]

variable {read : Json J → Except Error β} {write : α → Json J}

lemma readArr_map {f : α → β} (h : ∀ x, read (write x) = .ok (f x)) (xs : List α) :
    readArr read (.arr (xs.map write)) = .ok (xs.map f) := by
  change (xs.map write).mapM read = _
  induction xs with
  | nil => rfl
  | cons x xs ih =>
    rw [List.map_cons, List.mapM_cons, h, ih]
    rfl

/-- A written option reads back when what is written is never `null`. -/
lemma readOption_elim {f : α → β} (h : ∀ x, read (write x) = .ok (f x))
    (hnull : ∀ x, write x ≠ .null) (o : Option α) :
    readOption read (o.elim .null write) = .ok (o.map f) := by
  cases o with
  | none => rfl
  | some x =>
    have hread : readOption read (write x) = some <$> read (write x) := by
      cases hx : write x with
      | null => exact absurd hx (hnull x)
      | _ => rfl
    rw [Option.elim_some, hread, h]
    rfl

end Serde

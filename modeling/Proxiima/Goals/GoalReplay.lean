import Proxiima.Goals.Rewriting

/-!
# The declarations of migrated goals

`goal_replay` takes the goals of a migration one by one and moves the declarations of each to the
goal that takes its place. A declaration is found by the goal it is on, so one that has been moved
to a goal that is still to come would be rewritten again. Where no goal is moved to a later one,
each declaration is rewritten once.
-/

namespace Proxiima.Goals

open ReadCommitted
open Serde (bind_eq_ok)

variable {P J : Type}

/-! ### The plan of a migration -/

structure MigrationInput where
  owner : Uuid
  goals : List Uuid
  /-- What preceding steps have put in place of an identity. -/
  mapped : Uuid → Option (List Uuid)

def refused (message : String) : StorageError := .constraintViolation message

def MigrationInput.mappedOne (input : MigrationInput) (source : Uuid) : Except StorageError Uuid :=
  match input.mapped source with
  | none => .ok source
  | some [target] => .ok target
  | some _ => .error (refused "a split reference requires the spiice to choose its target")

structure GoalTarget (P : Type) where
  id : Uuid
  payload : GoalPayloadWrite P

structure MigrationPlan (P : Type) where
  goals : List (GoalTarget P)
  /-- The primary target of each source. -/
  mappings : Uuid → Option Uuid

variable {source : Uuid} {v : Tables J} {r : String × DeclarationRow J}

namespace MigrationPlan

variable (plan : MigrationPlan P)

def map (input : MigrationInput) (id : Uuid) : Except StorageError Uuid :=
  match plan.mappings id with
  | some primary => .ok primary
  | none => input.mappedOne id

def target (source : Uuid) : Except StorageError (GoalTarget P) :=
  match plan.mappings source with
  | none => .error (.panicked "no entry found for key")
  | some primary =>
    match plan.goals.find? (·.id = primary) with
    | none => .error (refused "missing Goal replay target")
    | some target => .ok target

variable {plan} in
lemma mappings_of_target {target : GoalTarget P} (h : plan.target source = .ok target) :
    plan.mappings source = some target.id := by
  unfold MigrationPlan.target at h
  split at h
  · cases h
  · rename_i primary hprimary
    split at h
    · cases h
    · rename_i found hfound
      obtain rfl := Except.ok.inj h
      have hid := List.find?_some hfound
      rw [hprimary, of_decide_eq_true hid]

end MigrationPlan

/-! ### The loop -/

/-- The request of a declaration row of the owner on this goal, with the row. -/
def declarationOn (v : Tables J) (owner source : Uuid) : Key → Option (String × DeclarationRow J)
  | .declaration o request =>
    if o = owner then ((v.declared o request).filter (·.goalT = source)).map (request, ·) else none
  | _ => none

def declarationsOf (v : Tables J) (owner source : Uuid) : List (String × DeclarationRow J) :=
  (live v).filterMap (declarationOn v owner source)

section Loop

variable (U : UuidText) (durable : P → Except String J) (input : MigrationInput)
  (plan : MigrationPlan P)

def moveDeclaration (target : GoalTarget P) (v : Tables J) (r : String × DeclarationRow J) :
    Except StorageError (Tables J) := do
  let row ← movedRow U durable (plan.map input) target.id target.payload r.2
  pure (⟨.declaration input.owner r.1, some row⟩ :: v)

/-- One round, for one goal. -/
def replaySource (v : Tables J) (source : Uuid) : Except StorageError (Tables J) := do
  let target ← plan.target source
  (declarationsOf v input.owner source).foldlM (moveDeclaration U durable input plan target) v

def goalReplay (v : Tables J) : Except StorageError (Tables J) :=
  input.goals.foldlM (replaySource U durable input plan) v

end Loop

lemma declarationOn_eq_some {owner : Uuid} {k : Key} : declarationOn v owner source k = some r ↔
      k = .declaration owner r.1 ∧ v.declared owner r.1 = some r.2 ∧ r.2.goalT = source := by
  obtain ⟨request, row⟩ := r
  cases k with
  | declaration o key =>
    simp only [declarationOn, Option.ite_none_right_eq_some, Option.map_eq_some_iff,
      Option.filter_eq_some_iff, decide_eq_true_eq, Prod.mk.injEq, Key.declaration.injEq]
    constructor
    · rintro ⟨rfl, row', ⟨hrow, hgoal⟩, rfl, rfl⟩
      exact ⟨⟨rfl, rfl⟩, hrow, hgoal⟩
    · rintro ⟨⟨rfl, rfl⟩, hrow, hgoal⟩
      exact ⟨rfl, row, ⟨hrow, hgoal⟩, rfl, rfl⟩
  | _ => simp [declarationOn]

lemma mem_declarationsOf {owner : Uuid} :
    r ∈ declarationsOf v owner source ↔
      v.declared owner r.1 = some r.2 ∧ r.2.goalT = source := by
  simp only [declarationsOf, List.mem_filterMap, declarationOn_eq_some, mem_live]
  constructor
  · rintro ⟨k, -, -, hr⟩
    exact hr
  · intro hr
    exact ⟨_, Option.isSome_iff_exists.2 ⟨_, hr.1⟩, rfl, hr⟩

/-- Each request has one row. -/
lemma declarationsOf_pairwise (v : Tables J) (owner source : Uuid) :
    (declarationsOf v owner source).Pairwise fun r r' => r.1 ≠ r'.1 := by
  refine List.Pairwise.filterMap _ (fun k k' hne r hr r' hr' heq => hne ?_)
    ((List.nodup_dedup _).filter _)
  rw [(declarationOn_eq_some.1 hr).1, (declarationOn_eq_some.1 hr').1, heq]

variable {U : UuidText} {durable : P → Except String J} {input : MigrationInput}
  {plan : MigrationPlan P} {v v' : Tables J}

/-- What a round does to the rows it has selected. -/
lemma moveEach {target : GoalTarget P} {rows : List (String × DeclarationRow J)}
    (hne : rows.Pairwise fun r r' => r.1 ≠ r'.1)
    (h : rows.foldlM (moveDeclaration U durable input plan target) v = .ok v') :
    (∀ r ∈ rows, ∃ row, movedRow U durable (plan.map input) target.id target.payload r.2 = .ok row ∧
      v'.declared input.owner r.1 = some row) ∧
    ∀ k, (∀ r ∈ rows, k ≠ .declaration input.owner r.1) → get v' k = get v k := by
  induction rows generalizing v with
  | nil =>
    obtain rfl := Except.ok.inj h
    exact ⟨fun _ hr => (List.not_mem_nil hr).elim, fun _ _ => rfl⟩
  | cons r rows ih =>
    rw [List.foldlM_cons] at h
    obtain ⟨v₁, h₁, h⟩ := bind_eq_ok.1 h
    obtain ⟨row, hrow, h₁⟩ := bind_eq_ok.1 h₁
    obtain rfl := Except.ok.inj h₁
    obtain ⟨hfirst, hne⟩ := List.pairwise_cons.1 hne
    obtain ⟨hmoved, hsame⟩ := ih hne h
    refine ⟨List.forall_mem_cons.2 ⟨⟨row, hrow, ?_⟩, hmoved⟩, fun k hk => ?_⟩
    · refine (hsame _ fun r' hr' heq => hfirst r' hr' (Key.declaration.inj heq).2).trans ?_
      exact get_cons_self ..
    · obtain ⟨hk, hk'⟩ := List.forall_mem_cons.1 hk
      rw [hsame k hk', get_cons_ne _ _ hk]

/-- **Each declaration is moved once**, and nothing else changes. -/
lemma goalReplay_rows {sources : List Uuid}
    (honce : sources.Pairwise fun a b => plan.mappings a ≠ some b)
    (h : sources.foldlM (replaySource U durable input plan) v = .ok v') :
    (∀ request row, v.declared input.owner request = some row → row.goalT ∈ sources →
      ∃ target row', plan.target row.goalT = .ok target ∧
        movedRow U durable (plan.map input) target.id target.payload row = .ok row' ∧
        v'.declared input.owner request = some row') ∧
    ∀ k, (∀ request row, k = .declaration input.owner request →
      v.declared input.owner request = some row → row.goalT ∉ sources) → get v' k = get v k := by
  induction sources generalizing v with
  | nil =>
    obtain rfl := Except.ok.inj h
    exact ⟨fun _ _ _ hmem => (List.not_mem_nil hmem).elim, fun _ _ => rfl⟩
  | cons source rest ih =>
    rw [List.foldlM_cons] at h
    obtain ⟨v₁, h₁, h⟩ := bind_eq_ok.1 h
    obtain ⟨target, htarget, h₁⟩ := bind_eq_ok.1 h₁
    obtain ⟨hlater, honce⟩ := List.pairwise_cons.1 honce
    obtain ⟨hmoved, hsame⟩ := moveEach (declarationsOf_pairwise v _ source) h₁
    obtain ⟨ihmoved, ihsame⟩ := ih honce h
    -- a row that is not on this goal is not touched in this round
    have hother : ∀ request, (∀ row, v.declared input.owner request = some row →
        row.goalT ≠ source) → v₁.declared input.owner request = v.declared input.owner request := by
      intro request hne
      refine hsame _ fun r hr heq => ?_
      obtain ⟨hrow, hgoal⟩ := mem_declarationsOf.1 hr
      obtain ⟨-, rfl⟩ := Key.declaration.inj heq
      exact hne _ hrow hgoal
    refine ⟨fun request row hrow hmem => ?_, fun k hk => ?_⟩
    · by_cases hgoal : row.goalT = source
      · obtain ⟨row', hrow', hstored⟩ := hmoved (request, row) (mem_declarationsOf.2 ⟨hrow, hgoal⟩)
        refine ⟨target, row', hgoal ▸ htarget, hrow', ?_⟩
        refine (ihsame _ fun request' row'' hkey hstored' => ?_).trans hstored
        obtain ⟨-, rfl⟩ := Key.declaration.inj hkey
        obtain rfl := Option.mem_unique hstored hstored'
        obtain ⟨j, -, hrow'⟩ := bind_eq_ok.1 hrow'
        obtain rfl := Except.ok.inj hrow'
        exact fun hrest => hlater _ hrest (plan.mappings_of_target htarget)
      · refine ihmoved request row ?_ ((List.mem_cons.1 hmem).resolve_left hgoal)
        rw [hother request fun row' hrow' => Option.mem_unique hrow hrow' ▸ hgoal, hrow]
    · have hv₁ : get v₁ k = get v k := by
        refine hsame k fun r hr hkey => ?_
        obtain ⟨hrow, hgoal⟩ := mem_declarationsOf.1 hr
        exact hk r.1 r.2 hkey hrow (hgoal ▸ List.mem_cons_self)
      refine (ihsame k fun request row hkey hrow hrest => ?_).trans hv₁
      subst hkey
      exact hk request row rfl (hv₁.symm.trans hrow) (List.mem_cons_of_mem _ hrest)

end Proxiima.Goals

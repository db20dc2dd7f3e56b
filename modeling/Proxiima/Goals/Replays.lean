import Proxiima.Goals.Tables

/-!
# Replaying a request

A goal command first looks its request keys up. A key that names no stored goal is fresh; a key
whose stored declaration is the command's replays the stored outcome; any other is a conflict. A
decomposition is looked up child by child: all keys fresh is a fresh command, all replayed is a
replay of the set, and a mixture is a conflict.
-/

namespace Proxiima.Goals

open ReadCommitted
open Serde (Json)

variable {P J : Type} [DecidableEq J]

/-! ### One key -/

inductive KeyVerdict where
  | fresh
  | replay (t : Uuid)
  deriving DecidableEq

structure KeyConflict where
  key : String
  existing : Uuid
  deriving DecidableEq

/-- `judge`. -/
def judge : Option (Uuid × Bool) → String → Except KeyConflict KeyVerdict
  | none, _ => .ok .fresh
  | some (t, true), _ => .ok (.replay t)
  | some (t, false), key => .error ⟨key, t⟩

/-- The stored goal a key names, and what its declaration row says against a declaration. -/
structure Probe where
  goalT : Uuid
  goalHandle : Uuid
  edgeCount : Option ℕ
  isMatch : Option Bool
  deriving DecidableEq

/-- The goal a key names: by its declaration, or by the version admitted under it. -/
def requestGoal (v : Tables J) (owner : Uuid) (requestId : String) : Option Uuid :=
  ((v.declared owner requestId).map DeclarationRow.goalT).or (v.admitted owner requestId)

def probe (v : Tables J) (owner : Uuid) (requestId : String) (declaration : Json J) :
    Option Probe := do
  let t ← requestGoal v owner requestId
  let g ← v.version t
  let row := v.declared owner requestId
  some ⟨t, g.handle, row.map DeclarationRow.edgeCount,
    row.map fun r => r.declaration = declaration⟩

def replayOutcome (goalT goalHandle : Uuid) : Option ℕ → Except StorageError GoalWriteOutcome
  | none => .error (.internal "Goal replay declaration has invalid edge_count")
  | some edgeCount => .ok ⟨goalT, goalHandle, edgeCount, true⟩

/-- What a found goal says about the key: its outcome, or the conflict. -/
def judged (key : String) (p : Probe) : Except StorageError (Option GoalWriteOutcome) :=
  match judge (some (p.goalT, p.isMatch = some true)) key with
  | .ok (.replay t) => some <$> replayOutcome t p.goalHandle p.edgeCount
  | .ok .fresh => .ok none
  | .error conflict => .error (.idempotencyConflict conflict.key (some conflict.existing))

section Resolve

variable (U : UuidText)

def resolveGoalReplay (v : Tables J) (owner : Uuid) (requestId : String)
    (declaration : ReplayDeclaration J) : Except StorageError (Option GoalWriteOutcome) :=
  match probe v owner requestId (declaration.toJson U) with
  | none => .ok none
  | some p => judged requestId p

/-! ### A decomposition -/

/-- What the loop over the children has found: each child's outcome, and the first replayed key. -/
structure ReplaySet where
  replayed : List (Option GoalWriteOutcome)
  reused : Option String
  deriving DecidableEq

def ReplaySet.add (set : ReplaySet) (key : String) : Option GoalWriteOutcome → ReplaySet
  | none => { set with replayed := set.replayed ++ [none] }
  | some outcome => ⟨set.replayed ++ [some outcome], set.reused.or (some key)⟩

def judgeChild (v : Tables J) (owner : Uuid) (set : ReplaySet)
    (child : String × ReplayDeclaration J) : Except StorageError ReplaySet := do
  let outcome ← resolveGoalReplay U v owner child.1 child.2
  pure (set.add child.1 outcome)

/-- The outcomes, when every child has one. -/
def allReplayed : List (Option GoalWriteOutcome) → Option (List GoalWriteOutcome)
  | [] => some []
  | none :: _ => none
  | some outcome :: rest => (allReplayed rest).map (outcome :: ·)

/-- The verdict over the whole set. -/
def ReplaySet.verdict (set : ReplaySet) : Except StorageError (Option DecomposeGoalOutcome) :=
  match set.reused with
  | none => .ok none
  | some reused =>
    match allReplayed set.replayed with
    | some children => .ok (some ⟨children, true⟩)
    | none => .error (.idempotencyConflict reused none)

def resolveDecomposeReplaySet (v : Tables J) (owner : Uuid)
    (children : List (String × ReplayDeclaration J)) :
    Except StorageError (Option DecomposeGoalOutcome) := do
  let set ← children.foldlM (judgeChild U v owner) ⟨[], none⟩
  set.verdict

end Resolve

/-! ### What a lookup finds -/

section Lookup

variable {U : UuidText} {v : Tables J} {owner : Uuid} {key : String} {d : ReplayDeclaration J}
  {row : DeclarationRow J} {g : GoalRow}

/-- A key that names no stored goal. -/
def Unknown (v : Tables J) (owner : Uuid) (key : String) : Prop :=
  ∀ t, requestGoal v owner key = some t → v.version t = none

omit [DecidableEq J] in
/-- What a key can name. -/
lemma key_cases (v : Tables J) (owner : Uuid) (key : String) :
    Unknown v owner key ∨
    (∃ t g, v.declared owner key = none ∧ v.admitted owner key = some t ∧ v.version t = some g) ∨
    ∃ row g, v.declared owner key = some row ∧ v.version row.goalT = some g := by
  cases hrow : v.declared owner key with
  | some row =>
    cases hg : v.version row.goalT with
    | some g => exact .inr (.inr ⟨row, g, rfl, hg⟩)
    | none =>
      refine .inl fun t ht => ?_
      simp only [requestGoal, hrow, Option.map_some, Option.some_or, Option.some.injEq] at ht
      exact ht ▸ hg
  | none =>
    cases ht : v.admitted owner key with
    | none => 
      refine .inl fun t ht' => ?_
      simp [requestGoal, hrow, ht] at ht'
    | some t =>
      cases hg : v.version t with
      | some g => exact .inr (.inl ⟨t, g, rfl, rfl, hg⟩)
      | none =>
        refine .inl fun t' ht' => ?_
        simp only [requestGoal, hrow, ht, Option.map_none, Option.none_or, Option.some.injEq] at ht'
        exact ht' ▸ hg

end Lookup

/-! ### The verdict over a set -/

section Sets

variable {U : UuidText} {v : Tables J} {owner : Uuid}

/-- Each child's answer by itself. -/
def resolveEach (U : UuidText) (v : Tables J) (owner : Uuid)
    (children : List (String × ReplayDeclaration J)) :
    Except StorageError (List (Option GoalWriteOutcome)) :=
  children.mapM fun child => resolveGoalReplay U v owner child.1 child.2

lemma foldlM_judgeChild (children : List (String × ReplayDeclaration J)) (set : ReplaySet) :
    children.foldlM (judgeChild U v owner) set = (resolveEach U v owner children).map fun rs =>
      ((children.map Prod.fst).zip rs).foldl (fun set c => set.add c.1 c.2) set := by
  induction children generalizing set with
  | nil => rfl
  | cons child children ih =>
    rw [List.foldlM_cons, resolveEach, List.mapM_cons]
    cases hchild : resolveGoalReplay U v owner child.1 child.2 with
    | error e => simp [judgeChild, hchild, bind, Except.bind, Except.map]
    | ok outcome =>
      have hjudge : judgeChild U v owner set child = .ok (set.add child.1 outcome) := by
        simp [judgeChild, hchild, bind, Except.bind, pure, Except.pure]
      rw [hjudge]
      change children.foldlM (judgeChild U v owner) (set.add child.1 outcome) = _
      rw [ih]
      change _ = Except.map _ ((resolveEach U v owner children).bind _)
      cases hrest : resolveEach U v owner children with
      | error | ok => rfl

lemma foldl_add (cs : List (String × Option GoalWriteOutcome)) (set : ReplaySet) :
    cs.foldl (fun set c => set.add c.1 c.2) set =
      ⟨set.replayed ++ cs.map Prod.snd,
        set.reused.or ((cs.find? fun c => c.2.isSome).map Prod.fst)⟩ := by
  induction cs generalizing set with
  | nil => simp
  | cons c cs ih =>
    obtain ⟨key, outcome⟩ := c
    rw [List.foldl_cons, ih]
    cases outcome with
    | none => simp [ReplaySet.add]
    | some o => cases hreused : set.reused <;> simp [ReplaySet.add, hreused]

variable {children : List (String × ReplayDeclaration J)} {rs : List (Option GoalWriteOutcome)}

lemma length_resolveEach (h : resolveEach U v owner children = .ok rs) :
    rs.length = children.length := by
  induction children generalizing rs with
  | nil =>
    obtain rfl := Except.ok.inj h
    rfl
  | cons child children ih =>
    rw [resolveEach, List.mapM_cons] at h
    cases hchild : resolveGoalReplay U v owner child.1 child.2 with
    | error e =>
      rw [hchild] at h
      cases h
    | ok outcome =>
      rw [hchild] at h
      change (resolveEach U v owner children).bind _ = _ at h
      cases hrest : resolveEach U v owner children with
      | error e =>
        rw [hrest] at h
        cases h
      | ok rest =>
        rw [hrest] at h
        obtain rfl := Except.ok.inj h
        simp [ih hrest]

lemma resolveDecomposeReplaySet_error {e : StorageError}
    (h : resolveEach U v owner children = .error e) :
    resolveDecomposeReplaySet U v owner children = .error e := by
  rw [resolveDecomposeReplaySet, foldlM_judgeChild, h]
  rfl

lemma resolveDecomposeReplaySet_ok (h : resolveEach U v owner children = .ok rs) :
    resolveDecomposeReplaySet U v owner children =
      ReplaySet.verdict ⟨rs, (((children.map Prod.fst).zip rs).find? fun c => c.2.isSome).map
        Prod.fst⟩ := by
  rw [resolveDecomposeReplaySet, foldlM_judgeChild, h]
  have hsnd : ((children.map Prod.fst).zip rs).map Prod.snd = rs :=
    List.map_snd_zip (by rw [length_resolveEach h, List.length_map])
  change ReplaySet.verdict (List.foldl _ _ _) = _
  rw [foldl_add, hsnd]
  rfl

lemma allReplayed_map_some (outcomes : List GoalWriteOutcome) :
    allReplayed (outcomes.map some) = some outcomes := by
  induction outcomes with
  | nil => rfl
  | cons o os ih =>
    change (allReplayed (os.map some)).map (o :: ·) = _
    rw [ih]
    rfl

lemma allReplayed_of_none (h : none ∈ rs) : allReplayed rs = none := by
  induction rs with
  | nil => cases h
  | cons r rs ih =>
    cases r with
    | none => rfl
    | some o =>
      have hrest : none ∈ rs := by simpa using h
      change (allReplayed rs).map (o :: ·) = none
      rw [ih hrest]
      rfl

/-- Every key of the set replays. -/
lemma resolveDecomposeReplaySet_replay {outcomes : List GoalWriteOutcome}
    (h : resolveEach U v owner children = .ok (outcomes.map some)) (hne : outcomes ≠ []) :
    resolveDecomposeReplaySet U v owner children = .ok (some ⟨outcomes, true⟩) := by
  have hlen := length_resolveEach h
  obtain ⟨o, os, rfl⟩ := List.exists_cons_of_ne_nil hne
  obtain ⟨c, cs, rfl⟩ : ∃ c cs, children = c :: cs := by
    cases children with
    | nil => simp at hlen
    | cons c cs => exact ⟨c, cs, rfl⟩
  have hall := allReplayed_map_some (o :: os)
  rw [resolveDecomposeReplaySet_ok h]
  simp only [List.map_cons] at hall
  simp only [ReplaySet.verdict, List.map_cons, hall, List.zip_cons_cons, List.find?_cons,
    Option.isSome_some, Option.map_some]

/-- **One unit of idempotency.** A refused key refuses the set; a set no key of which is known is
fresh, one whose keys all replay gives back their outcomes in order, and one that is known in part
is a conflict over one of its keys. -/
theorem decomposeReplaySet_unit (U : UuidText) (v : Tables J) (owner : Uuid)
    (children : List (String × ReplayDeclaration J)) :
    (∀ e, resolveEach U v owner children = .error e →
      resolveDecomposeReplaySet U v owner children = .error e) ∧
    ∀ rs, resolveEach U v owner children = .ok rs →
      ((∀ r ∈ rs, r = none) → resolveDecomposeReplaySet U v owner children = .ok none) ∧
      (∀ o os, rs = (o :: os).map some →
        resolveDecomposeReplaySet U v owner children = .ok (some ⟨o :: os, true⟩)) ∧
      (none ∈ rs → (∃ o, some o ∈ rs) → ∃ key ∈ children.map Prod.fst,
        resolveDecomposeReplaySet U v owner children = .error (.idempotencyConflict key none)) := by
  refine ⟨fun e => resolveDecomposeReplaySet_error, fun rs h => ⟨fun hnone => ?_, ?_, ?_⟩⟩
  · have hfind : (((children.map Prod.fst).zip rs).find? fun c => c.2.isSome) = none := by
      refine List.find?_eq_none.2 fun c hc => ?_
      simp [hnone c.2 (List.of_mem_zip hc).2]
    rw [resolveDecomposeReplaySet_ok h, hfind]
    rfl
  · rintro o os rfl
    exact resolveDecomposeReplaySet_replay h (List.cons_ne_nil o os)
  · rintro hnone ⟨o, ho⟩
    rw [← List.map_snd_zip (show rs.length ≤ (children.map Prod.fst).length by
      rw [length_resolveEach h, List.length_map])] at ho
    obtain ⟨c, hc, hco⟩ := List.mem_map.1 ho
    have hfind : (((children.map Prod.fst).zip rs).find? fun c => c.2.isSome).isSome :=
      List.find?_isSome.2 ⟨c, hc, by rw [hco, Option.isSome_some]⟩
    obtain ⟨c', hc'⟩ := Option.isSome_iff_exists.1 hfind
    refine ⟨c'.1, (List.of_mem_zip (List.mem_of_find?_eq_some hc')).1, ?_⟩
    rw [resolveDecomposeReplaySet_ok h, hc']
    simp only [ReplaySet.verdict, allReplayed_of_none hnone, Option.map_some]

end Sets

/-! ### A command -/

inductive GoalReplayRequest (P : Type) where
  | create (req : CreateGoalAtomicRequest P)
  | transition (req : TransitionGoalAtomicRequest)
  | achieve (req : AchieveGoalAtomicRequest)
  | modify (req : ModifyGoalAtomicRequest P)
  | decompose (req : DecomposeGoalAtomicRequest P)
  deriving DecidableEq

inductive GoalReplayOutcome where
  | goal (outcome : GoalWriteOutcome)
  | decompose (outcome : DecomposeGoalOutcome)
  deriving DecidableEq

namespace GoalReplayRequest

def owner : GoalReplayRequest P → Uuid
  | create req => req.draft.owner
  | transition req => req.owner
  | achieve req => req.owner
  | modify req => req.owner
  | decompose req => req.owner

end GoalReplayRequest

variable (U : UuidText) (durable : P → Except String J)

/-- The request keys of a decomposition's children with their declarations. -/
def decomposeKeys (req : DecomposeGoalAtomicRequest P) :
    Except StorageError (List (String × ReplayDeclaration J)) := do
  let declarations ← decomposeReplayDeclarations durable req
  pure ((req.children.map ChildGoalDraft.requestId).zip declarations)

/-- `resolve_goal_command_replay_on`. -/
def resolveGoalCommandReplay (v : Tables J) :
    GoalReplayRequest P → Except StorageError (Option GoalReplayOutcome)
  | .create req => do
    let declaration ← createReplayDeclaration durable req
    let outcome ← resolveGoalReplay U v req.draft.owner req.draft.requestId declaration
    pure (outcome.map .goal)
  | .transition req => do
    let outcome ← resolveGoalReplay U v req.owner req.requestId (transitionReplayDeclaration req)
    pure (outcome.map .goal)
  | .achieve req => do
    let outcome ← resolveGoalReplay U v req.owner req.requestId (achieveReplayDeclaration req)
    pure (outcome.map .goal)
  | .modify req => do
    let declaration ← modifyReplayDeclaration durable req
    let outcome ← resolveGoalReplay U v req.owner req.requestId declaration
    pure (outcome.map .goal)
  | .decompose req => do
    let children ← decomposeKeys durable req
    let outcome ← resolveDecomposeReplaySet U v req.owner children
    pure (outcome.map .decompose)

end Proxiima.Goals

import Mathlib.Logic.Relation
import Proxiima.Channels.Watch

/-!
# The pause gate of a worker

A worker that claims rows of a queue passes a checkpoint before every claim. The host closes the
gate and waits until the worker has parked there; it can open the gate again at any time. The two
share one watched state and are interleaved at every access to it.
-/

namespace Proxiima.Quiesce

open Channels Watch

inductive FeatureStatus where
  | running | quiescing | quiescent | stopped
  deriving DecidableEq

inductive FeatureControlError where
  | stopped | resumed
  deriving DecidableEq

structure State where
  status : FeatureStatus
  cycle : UInt64

/-- What a call of `quiesce` does to the state: only an open gate is closed, in a new cycle. -/
def closes (s : State) : Option State :=
  if s.status = .running then some ⟨.quiescing, s.cycle + 1⟩ else none

/-- What `resume` does to the state. -/
def reopens (s : State) : Option State :=
  match s.status with
  | .stopped | .running => none
  | .quiescing | .quiescent => some { s with status := .running }

/-- What the worker does to the state when it has found it closing. -/
def parks (s : State) : Option State :=
  if s.status = .quiescing then some { s with status := .quiescent } else none

/-- How a call of `quiesce` that waits for `cycle` ends on what it reads, if it ends. -/
def answer (s : State) (cycle : UInt64) : Option (Except FeatureControlError Unit) :=
  if s.cycle ≠ cycle then some (.error .resumed)
  else match s.status with
    | .quiescent => some (.ok ())
    | .stopped => some (.error .stopped)
    | .running => some (.error .resumed)
    | .quiescing => none

/-- Where the worker is: outside a checkpoint, with claims or without; at the top of the loop of
`checkpoint`; about to acknowledge a pause it has read; asleep in the loop; gone. -/
inductive Worker where
  | working (holding : Bool) | checking | pausing | parked | ended
  deriving DecidableEq

/-- Where one call of `quiesce` is, with the version its receiver has seen. -/
inductive Call where
  | idle
  | subscribed (seen : ℕ)
  | looking (cycle : UInt64) (seen : ℕ)
  | waiting (cycle : UInt64) (seen : ℕ)
  | done (result : Except FeatureControlError Unit)

/-- `closings` is how often the gate was closed, of which the cycle keeps 64 bits. -/
structure Gate (W : Type) where
  state : W
  worker : Worker
  seen : ℕ
  calls : ℕ → Call
  closings : ℕ

namespace Gate

variable {W : Type} [Watch State W]

def new : Gate W :=
  ⟨channel ⟨.running, 0⟩, .working false, version (channel (W := W) ⟨.running, 0⟩),
    fun _ => .idle, 0⟩

variable (g : Gate W)

/-- The state as it is read. -/
abbrev now : State := value g.state

def call (i : ℕ) (c : Call) : Gate W := { g with calls := Function.update g.calls i c }

/-- `resume`, which fails on a stopped gate and changes nothing there. -/
def resume : Except FeatureControlError Unit × Gate W :=
  (if g.now.status = .stopped then .error .stopped else .ok (),
    { g with state := sendIfModified g.state reopens })

/-- A call of `quiesce` closes the gate, or joins the pause it finds, and waits for its cycle. -/
def close (i seen : ℕ) : Gate W :=
  let state := sendIfModified g.state closes
  let closings := if (closes g.now).isSome then g.closings + 1 else g.closings
  { g with state := state, closings := closings }.call i (.looking (value state).cycle seen)

/-- What a call of `quiesce` does after it has read the state. -/
def looked (cycle : UInt64) : Call :=
  match answer g.now cycle with
  | some result => .done result
  | none => .waiting cycle (version g.state)

/-- Where a worker at a checkpoint goes after it has read the status. -/
def checked : FeatureStatus → Worker
  | .running => .working false
  | .quiescing => .pausing
  | .quiescent | .stopped => .parked

/-- One access to the shared state by a caller of `quiesce` or by the worker, or a step of the
worker between two of them. -/
inductive Move (g : Gate W) : Gate W → Prop where
  | subscribe {i} (h : g.calls i = .idle) : Move g (g.call i (.subscribed (version g.state)))
  | close {i seen} (h : g.calls i = .subscribed seen) : Move g (g.close i seen)
  | look {i cycle seen} (h : g.calls i = .looking cycle seen) : Move g (g.call i (g.looked cycle))
  | wake {i cycle seen} (h : g.calls i = .waiting cycle seen) (hchanged : seen ≠ version g.state) :
    Move g (g.call i (.looking cycle (version g.state)))
  -- the call is dropped, or its result is taken
  | forgo {i} : Move g (g.call i .idle)
  | claim {b} (h : g.worker = .working b) : Move g { g with worker := .working true }
  | settle {b} (h : g.worker = .working b) : Move g { g with worker := .working false }
  -- an idle worker that waits for a change of the gate
  | notice {b} (h : g.worker = .working b) : Move g { g with seen := version g.state }
  -- a checkpoint begins where every claim is settled
  | enter (h : g.worker = .working false) : Move g { g with worker := .checking }
  | check (h : g.worker = .checking) :
    Move g { g with worker := checked g.now.status, seen := version g.state }
  | park (h : g.worker = .pausing) :
    Move g { g with state := sendIfModified g.state parks, worker := .parked }
  | rouse (h : g.worker = .parked) (hchanged : g.seen ≠ version g.state) :
    Move g { g with worker := .checking, seen := version g.state }
  -- cancelled or ended by itself: the worker's half is dropped
  | stop (h : g.worker ≠ .ended) :
    Move g { g with
      state := send g.state { g.now with status := .stopped }, worker := .ended }

def Step (g g' : Gate W) : Prop := g.Move g' ∨ g' = g.resume.2

/-- Any interleaving of calls of `quiesce` and `resume` with the worker. -/
def Steps (g g' : Gate W) : Prop := Relation.ReflTransGen Step g g'

/-- An interleaving in which nobody resumes. -/
def Moves (g g' : Gate W) : Prop := Relation.ReflTransGen Move g g'

/-! ### What every interleaving keeps -/

/-- The worker is gone exactly when the gate is stopped, a gate that is quiescent has its worker
inside a checkpoint, and whoever sleeps with the newest version seen has nothing to do. -/
structure Sound : Prop where
  cycle : g.now.cycle = .ofNat g.closings
  seen_le : g.seen ≤ version g.state
  ended : g.worker = .ended ↔ g.now.status = .stopped
  quiescent : g.now.status = .quiescent → g.worker = .checking ∨ g.worker = .parked
  pausing : g.worker = .pausing → g.seen = version g.state → g.now.status = .quiescing
  parked : g.worker = .parked → g.seen = version g.state →
    g.now.status = .quiescent ∨ g.now.status = .stopped
  waiting : ∀ i cycle seen, g.calls i = .waiting cycle seen →
    seen ≤ version g.state ∧ (seen = version g.state → answer g.now cycle = none)

variable {g} {g' : Gate W}

lemma sound_new : (new : Gate W).Sound := by
  constructor <;> simp [new, now]

/-- A call that does not go to sleep changes nothing for the others. -/
lemma Sound.call (h : g.Sound) {i : ℕ} {c : Call}
    (hc : ∀ cycle seen, c = .waiting cycle seen → seen = version g.state ∧
      answer g.now cycle = none) : (g.call i c).Sound := by
  refine ⟨h.cycle, h.seen_le, h.ended, h.quiescent, h.pausing, h.parked, fun j cycle seen hj => ?_⟩
  simp only [Gate.call, Function.update_apply] at hj
  split at hj
  · exact ⟨Nat.le_of_eq (hc cycle seen hj).1, fun _ => (hc cycle seen hj).2⟩
  · exact h.waiting j cycle seen hj

variable {n : ℕ}

section

variable (h : g.Sound)
include h

/-- A change of the state wakes everybody. -/
lemma Sound.sent {s : State} {w : Worker} (hcycle : s.cycle = .ofNat n)
    (hended : w = .ended ↔ s.status = .stopped)
    (hquiescent : s.status = .quiescent → w = .checking ∨ w = .parked) :
    { g with state := send g.state s, worker := w, closings := n }.Sound := by
  have hnew {seen : ℕ} (hle : seen ≤ version g.state) : seen < version (send g.state s) :=
    Nat.lt_of_le_of_lt hle (version_lt_send _ _)
  have hseen := hnew h.seen_le
  refine ⟨?_, Nat.le_of_lt hseen, ?_, ?_, fun _ hs => absurd hs (Nat.ne_of_lt hseen),
    fun _ hs => absurd hs (Nat.ne_of_lt hseen), fun i cycle seen hi => ?_⟩
  · simpa [now] using hcycle
  · simpa [now] using hended
  · simpa [now] using hquiescent
  · have hlt := hnew (h.waiting i cycle seen hi).1
    exact ⟨Nat.le_of_lt hlt, fun hs => absurd hs (Nat.ne_of_lt hlt)⟩

/-- Outside a checkpoint the gate is neither quiescent nor stopped. -/
lemma Sound.working {b : Bool} (hw : g.worker = .working b) :
    g.now.status ≠ .quiescent ∧ g.now.status ≠ .stopped := by
  refine ⟨fun hs => ?_, fun hs => ?_⟩
  · rcases h.quiescent hs with h | h <;> simp [hw] at h
  · have hended := h.ended.2 hs
    simp [hw] at hended

lemma Sound.modify {f : State → Option State} {w : Worker}
    (hnone : f g.now = none → { g with worker := w, closings := n }.Sound)
    (hsome : ∀ s, f g.now = some s → s.cycle = .ofNat n ∧ (w = .ended ↔ s.status = .stopped) ∧
      (s.status = .quiescent → w = .checking ∨ w = .parked)) :
    { g with state := sendIfModified g.state f, worker := w, closings := n }.Sound := by
  rcases sendIfModified_cases g.state f with ⟨hf, hw⟩ | ⟨s, hf, hw⟩
  · rw [hw]
    exact hnone hf
  · rw [hw]
    obtain ⟨hcycle, hended, hquiescent⟩ := hsome s hf
    exact h.sent hcycle hended hquiescent

lemma Sound.resume : g.resume.2.Sound := by
  refine h.modify (fun _ => h) fun s hs => ?_
  have hended := h.ended
  unfold reopens at hs
  split at hs
  · cases hs
  · cases hs
  all_goals
    next hstatus =>
    cases hs
    simpa [hstatus, h.cycle] using hended

lemma Sound.close (i seen : ℕ) : (g.close i seen).Sound := by
  have hended := h.ended
  refine Sound.call (h.modify (fun hnone => ?_) fun s hs => ?_) (by simp)
  · simpa [hnone] using h
  · unfold closes at hs ⊢
    split at hs
    · next hrunning =>
      cases hs
      simpa [hrunning, h.cycle] using hended
    · cases hs

lemma Sound.move_step (hstep : g.Move g') : g'.Sound := by
  have hended := h.ended
  cases hstep with
  | subscribe | wake | forgo => exact h.call (by simp)
  | close => exact h.close _ _
  | look =>
    refine h.call fun cycle seen hc => ?_
    unfold looked at hc
    split at hc
    · cases hc
    · next hnone =>
      cases hc
      exact ⟨rfl, hnone⟩
  | claim hw | settle hw | notice hw =>
    all_goals
      obtain ⟨hquiescent, hstopped⟩ := h.working hw
      refine ⟨h.cycle, ?_, ?_, fun hs => absurd hs hquiescent, by simp [hw], by simp [hw],
        h.waiting⟩
      · first | exact h.seen_le | exact Nat.le_refl _
      · simpa [hw] using hstopped
  | enter hw =>
    exact ⟨h.cycle, h.seen_le, by simpa using (h.working hw).2, fun _ => .inl rfl, by simp,
      by simp, h.waiting⟩
  | check hw =>
    rw [hw] at hended
    rcases hs : g.now.status <;>
      exact ⟨h.cycle, Nat.le_refl _, by simp_all [checked], by simp [checked, hs],
        by simp [checked, hs], by simp [checked, hs], h.waiting⟩
  | park hw =>
    rw [hw] at hended
    refine h.modify (fun hnone => ?_) fun s hs => ?_
    · have hs : g.now.status ≠ .quiescing := by simpa [parks] using hnone
      exact ⟨h.cycle, h.seen_le, by simpa using hended, fun _ => .inr rfl, by simp,
        fun _ hseen => absurd (h.pausing hw hseen) hs, h.waiting⟩
    · unfold parks at hs
      split at hs
      · cases hs
        simp [h.cycle]
      · cases hs
  | rouse hw =>
    rw [hw] at hended
    exact ⟨h.cycle, Nat.le_refl _, by simpa using hended, fun _ => .inl rfl, by simp, by simp,
      h.waiting⟩
  | stop => exact h.sent h.cycle (by simp) (by simp)

lemma Sound.steps (hsteps : Steps g g') : g'.Sound := by
  induction hsteps with
  | refl => exact h
  | tail _ hstep ih =>
    rcases hstep with hmove | rfl
    · exact ih.move_step hmove
    · exact ih.resume

end

/-! ### Pauses -/

/-- What a move does to the status, and whether it closes the gate. -/
lemma Move.status (h : g.Move g') :
    g'.now.status = g.now.status ∧ g'.closings = g.closings ∨
    g.now.status = .running ∧ g'.now.status = .quiescing ∧ g'.closings = g.closings + 1 ∨
    g.now.status = .quiescing ∧ g'.now.status = .quiescent ∧ g'.closings = g.closings ∨
    g'.now.status = .stopped ∧ g'.closings = g.closings := by
  cases h with
  | close =>
    simp only [Gate.close, call, now, value_sendIfModified, closes]
    by_cases hs : (value g.state).status = .running <;> simp [hs]
  | park =>
    simp only [now, value_sendIfModified, parks]
    by_cases hs : (value g.state).status = .quiescing <;> simp [hs]
  | stop => exact .inr (.inr (.inr ⟨by simp [now], rfl⟩))
  | _ => exact .inl ⟨rfl, rfl⟩

lemma resume_status (g : Gate W) :
    g.resume.2.now.status = .running ∨ g.resume.2.now.status = .stopped := by
  simp only [resume, now, value_sendIfModified, reopens]
  rcases hs : (value g.state).status <;> simp [hs]

/-- The gate is closed for good or until somebody resumes, and the worker is not at work. -/
def Paused (g : Gate W) : Prop :=
  (g.now.status = .quiescent ∨ g.now.status = .stopped) ∧ ∀ b, g.worker ≠ .working b

lemma Paused.moves (h : g.Paused) (hmoves : Moves g g') : g'.Paused := by
  induction hmoves with
  | refl => exact h
  | tail _ hmove ih =>
    obtain ⟨hstatus, hworker⟩ := ih
    refine ⟨?_, fun b hb => ?_⟩
    · rcases hmove.status with ⟨hs, -⟩ | ⟨hs, -⟩ | ⟨hs, -⟩ | ⟨hs, -⟩
      · rwa [hs]
      · simp [hs] at hstatus
      · simp [hs] at hstatus
      · exact .inr hs
    · cases hmove with
      | claim hw | settle hw | enter hw => exact hworker _ hw
      | check => rcases hstatus with hs | hs <;> simp [checked, hs] at hb
      | park | rouse | stop => cases hb
      | _ => exact hworker b hb

/-- The pause that began with the closing `n` is over. -/
def Over (n : ℕ) (g : Gate W) : Prop :=
  n < g.closings ∨ n = g.closings ∧ (g.now.status = .running ∨ g.now.status = .stopped)

lemma over_resume (h : n ≤ g.closings) : Over n g.resume.2 :=
  (Nat.lt_or_eq_of_le h).imp id fun heq => ⟨heq, g.resume_status⟩

lemma Over.steps (h : Over n g) (hsteps : Steps g g') : Over n g' := by
  induction hsteps with
  | refl => exact h
  | tail _ hstep ih =>
    have hle := ih.elim Nat.le_of_lt fun h => Nat.le_of_eq h.1
    rcases hstep with hmove | rfl
    · unfold Over
      rcases hmove.status with ⟨hs, hn⟩ | ⟨-, -, hn⟩ | ⟨hs, -, hn⟩ | ⟨hs, hn⟩ <;> rw [hn]
      · rwa [hs]
      · exact .inl (Nat.lt_succ_of_le hle)
      · exact .inl (ih.resolve_right fun h => by simp [hs] at h)
      · exact ih.imp id fun h => ⟨h.1, .inr hs⟩
    · exact over_resume hle

lemma closings_le (h : Steps g g') : g.closings ≤ g'.closings := by
  induction h with
  | refl => exact Nat.le_refl _
  | tail _ hstep ih =>
    rcases hstep with hmove | rfl
    · rcases hmove.status with ⟨-, hn⟩ | ⟨-, -, hn⟩ | ⟨-, -, hn⟩ | ⟨-, hn⟩ <;> omega
    · exact ih

/-- Closed, and not resumed since. -/
lemma closed_of_moves (hclosed : g.now.status ≠ .running) (h : Moves g g') :
    g'.closings = g.closings ∧ g'.now.status ≠ .running := by
  induction h with
  | refl => exact ⟨rfl, hclosed⟩
  | tail _ hmove ih =>
    rcases hmove.status with ⟨hs, hn⟩ | ⟨hs, -⟩ | ⟨-, hs, hn⟩ | ⟨hs, hn⟩
    · rwa [hs, hn]
    · exact absurd hs ih.2
    · simp [hs, hn, ih.1]
    · simp [hs, hn, ih.1]

/-- How a call ends, read off the state it has read. -/
lemma looked_eq_done {cycle : UInt64} :
    (g.looked cycle = .done (.ok ()) → g.now.cycle = cycle ∧ g.now.status = .quiescent) ∧
    (g.looked cycle = .done (.error .stopped) → g.now.status = .stopped) ∧
    (g.looked cycle = .done (.error .resumed) → g.now.cycle ≠ cycle ∨ g.now.status = .running) := by
  unfold looked answer
  by_cases hc : g.now.cycle = cycle <;> rcases hs : g.now.status <;> simp [hc]

/-- **The pause protocol.** In every interleaving of any number of calls with the worker: a call of
`quiesce` ends well only while the worker is not at work, and the worker claims nothing from then
on unless somebody resumes; it does not end well for a pause that was resumed, unless it sleeps
while the cycles come round, and is not told that it was resumed unless somebody did so; and nobody
sleeps through a change that concerns them. -/
theorem quiesce_pauses (g : Gate W) (h : Steps new g) :
    (∀ cycle, g.looked cycle = .done (.ok ()) → ∀ g', Moves g g' → ∀ b, g'.worker ≠ .working b) ∧
    (∀ cycle, g.looked cycle = .done (.error .stopped) → g.worker = .ended) ∧
    (∀ g₀ i seen cycle, g₀ = g.close i seen → g₀.calls i = .looking cycle seen →
      (∀ g₁, Moves g₀ g₁ → g₁.looked cycle ≠ .done (.error .resumed)) ∧
      ∀ g₁ g₂, Steps g₀ g₁ → Steps g₁.resume.2 g₂ → g₂.closings < g₀.closings + UInt64.size →
        g₂.looked cycle ≠ .done (.ok ())) ∧
    (g.worker = .parked → g.now.status = .running ∨ g.now.status = .quiescing →
      g.seen ≠ version g.state) ∧
    ∀ i cycle seen, g.calls i = .waiting cycle seen → (answer g.now cycle).isSome →
      seen ≠ version g.state := by
  have hs := sound_new.steps h
  refine ⟨fun cycle hok g' hmoves => ?_, fun cycle hstopped => ?_, ?_, ?_, ?_⟩
  · have hquiescent := (looked_eq_done.1 hok).2
    exact (Paused.moves ⟨.inl hquiescent, fun b hb => (hs.working hb).1 hquiescent⟩ hmoves).2
  · exact hs.ended.2 (looked_eq_done.2.1 hstopped)
  · rintro g₀ i seen cycle rfl hcall
    obtain ⟨rfl, -⟩ := Call.looking.inj ((Function.update_self ..).symm.trans hcall)
    have hs₀ := hs.close i seen
    refine ⟨fun g₁ hmoves hresumed => ?_, fun g₁ g₂ h₁ h₂ hfew hok => ?_⟩
    · have hclosed : (g.close i seen).now.status ≠ .running := by
        simp only [Gate.close, call, now, value_sendIfModified, closes]
        by_cases hr : (value g.state).status = .running <;> simp [hr]
      obtain ⟨hn, hrunning⟩ := closed_of_moves hclosed hmoves
      have hs₁ : g₁.Sound := hs₀.steps (hmoves.lift id fun _ _ => .inl)
      refine (looked_eq_done.2.2 hresumed).elim (fun hne => hne ?_) hrunning
      rw [hs₁.cycle, hn, ← hs₀.cycle]
      rfl
    · obtain ⟨hcycle, hquiescent⟩ := looked_eq_done.1 hok
      have hs₂ := ((hs₀.steps h₁).resume).steps h₂
      rcases (over_resume (closings_le h₁)).steps h₂ with hlt | ⟨-, h⟩
      · -- equal cycles are equal counts, as long as they have not come round
        have hcount : UInt64.ofNat g₂.closings = .ofNat (g.close i seen).closings := by
          rw [← hs₂.cycle, hcycle, ← hs₀.cycle]
          rfl
        have hmod := congrArg UInt64.toNat hcount
        simp only [UInt64.toNat_ofNat'] at hmod
        unfold UInt64.size at hfew
        omega
      · simp [hquiescent] at h
  · intro hparked hstatus hseen
    rcases hs.parked hparked hseen with h | h <;> simp [h] at hstatus
  · intro i cycle seen hi hsome hseen
    simp [(hs.waiting i cycle seen hi).2 hseen] at hsome

/-- One call, a worker that reaches its checkpoint, and a pause that holds. -/
theorem quiesce_pauses_once : ∃ g : Gate (Counted State), Steps new g ∧
    g.looked 1 = .done (.ok ()) ∧ ∀ g', Moves g g' → ∀ b, g'.worker ≠ .working b := by
  have h₁ : Steps (new : Gate (Counted State)) _ := .single (.inl (.subscribe (i := 0) rfl))
  have h₂ := h₁.tail (.inl (.close (i := 0) rfl))
  have h₃ := h₂.tail (.inl (.enter rfl))
  have h₄ := h₃.tail (.inl (.check rfl))
  have h₅ := h₄.tail (.inl (.park rfl))
  exact ⟨_, h₅, rfl, (quiesce_pauses _ h₅).1 1 rfl⟩

end Gate

end Proxiima.Quiesce

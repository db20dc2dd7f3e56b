import Proxiima.Collaboration.ForkVerified

/-!
# Routes through histories of transfers

A publication or work binding stores the generation its series had when it was recorded, and
every transfer of the series makes a new generation. So a route that is open was opened by a
row recorded after the last transfer of its series, whoever owned the series in between.
-/

namespace Proxiima.Collaboration

open ReadCommitted ReadCommitted.Guarded Authz Prog

abbrev Machine := State Row Lock StorageError Input Unit Command Response

abbrev Answer := Entry Row StorageError Command Response

variable {H : Hash} {ls : List Lock} {d d' before after : Tables} {during : Tables → Prop}
variable {c : Command} {resp : Response}

/-! ### Generations -/

variable {handle goal : Uuid} {mh : MemoryHead} {k : Key}

/-- The head of a series stays as it is, or its generation grows. -/
lemma head_of_follows (h : (system H).Follows ls d d')
    (hmh : get d (.memoryHead handle) = some mh) :
    ∃ mh', get d' (.memoryHead handle) = some mh' ∧
      (mh' = mh ∨ mh.authorityGeneration < mh'.authorityGeneration) := by
  refine h.keeps (k := .memoryHead handle) (P := fun o : Option MemoryHead => ∃ mh', o = some mh' ∧
    (mh' = mh ∨ mh.authorityGeneration < mh'.authorityGeneration)) ⟨mh, hmh, .inl rfl⟩ ?_
  rintro o o' ⟨mh', rfl, hle⟩ ⟨hlegal, -⟩
  cases o' with
  | none => exact hlegal.elim
  | some mh'' =>
    have hgen : mh''.authorityGeneration = mh'.authorityGeneration + 1 := hlegal.2.2
    refine ⟨mh'', rfl, .inr ?_⟩
    rcases hle with rfl | hlt <;> omega

/-- A head that has its old generation again has not changed in between. -/
lemma head_between {d'' : Tables} (h : (system H).Follows ls d d')
    (h' : (system H).Follows ls d' d'') {mh'' : MemoryHead}
    (hmh : get d (.memoryHead handle) = some mh) (hmh'' : get d'' (.memoryHead handle) = some mh'')
    (hgen : mh''.authorityGeneration = mh.authorityGeneration) :
    get d' (.memoryHead handle) = some mh'' := by
  obtain ⟨mh', hmh', hle⟩ := head_of_follows h hmh
  obtain ⟨mh₂, hmh₂, hle'⟩ := head_of_follows h' hmh'
  obtain rfl := Option.mem_unique hmh₂ hmh''
  have hle : mh.authorityGeneration ≤ mh'.authorityGeneration := by
    rcases hle with rfl | hlt <;> omega
  rcases hle' with rfl | hlt
  · exact hmh'
  · omega

/-! ### What a command writes -/

/-- The rows a command may write. -/
def Writes : Command → Key → Prop
  | .grantAccess input permit, k => k = .goalAccessGrant permit.goal input.subject
  | .revokeAccess _ subject permit, k => k = .goalAccessGrant permit.goal subject
  | .publish input permit _, k => k = .goalMemoryPublication permit.goal input.memory
  | .unpublish _ memory permit, k => k = .goalMemoryPublication permit.goal memory
  | .bindWork input permit _, k => k = .goalWorkBinding permit.goal input.series
  | .unbindWork input permit, k => k = .goalWorkBinding permit.goal input.series
  | .authorWorkMemory _ permit t, k => k = .memory t ∨ (∃ handle, k = .memoryHead handle) ∨
      ∃ handle, k = .goalWorkBinding permit.command.goal handle
  | .forkMemory _ permit t, k => k = .memory t ∨ k = .memoryHead t ∨
      k ∈ bindingKey permit.destination t
  | .admitMemory _ handle t _ _, k => k = .memory t ∨ k = .memoryHead handle
  | .setForgotten _ t _, k => k = .memory t
  | .transferToOwner _ _ _, k => (∃ handle, k = .memoryHead handle) ∨ ∃ t, k = .memory t
  | .createGoal _ handle t, k => k = .goalHead handle ∨ k = .goal t
  | .transitionGoal _ handle t _, k => k = .goalHead handle ∨ k = .goal t
  | .setRole subject owner _, k => k = .role subject owner

/-- A command leaves every other row alone. -/
lemma kept_of_post (h : post c resp during before after) (hk : ¬ Writes c k) :
    get after k = get before k := by
  cases c with
  | grantAccess input permit =>
    obtain ⟨-, -, -, -, honly⟩ := h
    exact honly k (by simpa [Writes] using hk)
  | revokeAccess goal subject permit => exact h.2.2 k (by simpa [Writes] using hk)
  | publish input permit source =>
    obtain ⟨-, -, -, -, -, honly⟩ := h
    exact honly k (by simpa [Writes] using hk)
  | unpublish goal memory permit => exact h.2.2.2 k (by simpa [Writes] using hk)
  | bindWork input permit source =>
    obtain ⟨-, -, -, -, -, honly⟩ := h
    exact honly k (by simpa [Writes] using hk)
  | unbindWork input permit => exact h.2.2.2 k (by simpa [Writes] using hk)
  | authorWorkMemory req permit t =>
    rcases h with ⟨-, honly⟩ | ⟨handle, checks, -, hworked⟩
    · exact honly k (by simp)
    · simp only [Writes, not_or, not_exists] at hk
      exact hworked.only k (by simp [hk])
  | forkMemory source permit t =>
    rcases h with ⟨-, ⟨-, honly⟩ | ⟨checks, kind, -, hforked⟩⟩
    · exact honly k (by simp)
    · simp only [Writes, not_or] at hk
      exact hforked.only k (by simp [hk])
  | admitMemory owner handle t kind fresh =>
    simp only [Writes, not_or] at hk
    exact h.2.2 k (by simp [hk])
  | setForgotten owner t forgotten =>
    obtain ⟨-, -, -, -, -, honly⟩ := h
    exact honly k (by simpa [Writes] using hk)
  | transferToOwner fromOwner toOwner t =>
    obtain ⟨-, -, m, mh, -, -, -, -, -, -, honly⟩ := h
    simp only [Writes, not_or, not_exists] at hk
    exact honly k (hk.1 m.handle) hk.2
  | createGoal owner handle t =>
    simp only [Writes, not_or] at hk
    exact h.2.2.2.2.2 k (by simp [hk])
  | transitionGoal owner handle t state =>
    obtain ⟨-, -, -, -, -, -, -, honly⟩ := h
    simp only [Writes, not_or] at hk
    exact honly k (by simp [hk])
  | setRole subject owner role => exact h.2.2 k (by simpa [Writes] using hk)

/-! ### What records a row -/

/-- The command publishes the version `t` to the Goal. -/
def Publishes (goal t : Uuid) : Command → Prop
  | .publish input _ _ => input.goal = goal ∧ input.memory = t
  | _ => False

/-- The command binds the series to the Goal as work. -/
def BindsTo (goal handle : Uuid) : Command → Prop
  | .bindWork input _ _ => input.goal = goal ∧ input.series = handle
  | .authorWorkMemory _ permit _ => permit.command.goal = goal ∧ permit.target = .series handle
  | .forkMemory _ permit t =>
    (∃ command, permit.destination = .workingGoal command ∧ command.goal = goal) ∧ t = handle
  | _ => False

@[simp] lemma sourceGeneration_replacing (new : GoalMemoryPublication)
    (old : Option GoalMemoryPublication) :
    (new.replacing old).sourceGeneration = new.sourceGeneration := by
  cases old <;> rfl

@[simp] lemma binding_sourceGeneration_replacing (new : GoalWorkBinding)
    (old : Option GoalWorkBinding) :
    (new.replacing old).sourceGeneration = new.sourceGeneration := by
  cases old <;> rfl

/-- A publication comes from a `publish`, under the generation its series has. -/
lemma publication_recorded (h : post c resp during before after) {t : Uuid}
    {p : GoalMemoryPublication} (hafter : get after (.goalMemoryPublication goal t) = some p)
    (hbefore : get before (.goalMemoryPublication goal t) ≠ some p) :
    Publishes goal t c ∧ ∃ m mh, get after (.memory t) = some m ∧
      get after (.memoryHead m.handle) = some mh ∧ p.sourceGeneration = mh.authorityGeneration := by
  have hwrites : Writes c (.goalMemoryPublication goal t) := by
    by_contra hno
    exact hbefore ((kept_of_post h hno).symm.trans hafter)
  cases c with
  | publish input permit source =>
    obtain ⟨-, hgoal, new, hnew, hrow, honly⟩ := h
    obtain ⟨rfl, rfl⟩ : goal = permit.goal ∧ t = input.memory := by simpa [Writes] using hwrites
    obtain rfl := Option.mem_unique hrow hafter
    obtain ⟨m, mh, gh, hm, hmh, -, -, rfl⟩ := newPublication_eq_some.1 hnew
    refine ⟨⟨hgoal, rfl⟩, m, mh, ?_, ?_, by simp⟩
    · rw [honly _ (by simp), hm]
    · rw [honly _ (by simp), hmh]
  | unpublish goal' memory permit =>
    obtain ⟨-, -, hrow, -⟩ := h
    obtain ⟨rfl, rfl⟩ : goal = permit.goal ∧ t = memory := by simpa [Writes] using hwrites
    rw [hrow] at hafter
    cases hafter
  | forkMemory source permit t' => simp [Writes, bindingKey] at hwrites
  | _ => simp [Writes] at hwrites

variable {w : GoalWorkBinding}

/-- A work binding comes from `bind_work`, or with the version that begins its series or joins
it, under the generation the series has. -/
lemma binding_recorded (h : post c resp during before after)
    (hafter : get after (.goalWorkBinding goal handle) = some w)
    (hbefore : get before (.goalWorkBinding goal handle) ≠ some w) :
    BindsTo goal handle c ∧ ∃ mh, get after (.memoryHead handle) = some mh ∧
      w.sourceGeneration = mh.authorityGeneration := by
  have hwrites : Writes c (.goalWorkBinding goal handle) := by
    by_contra hno
    exact hbefore ((kept_of_post h hno).symm.trans hafter)
  cases c with
  | bindWork input permit source =>
    obtain ⟨-, hgoal, new, hnew, hrow, honly⟩ := h
    obtain ⟨rfl, rfl⟩ : goal = permit.goal ∧ handle = input.series := by
      simpa [Writes] using hwrites
    obtain rfl := Option.mem_unique hrow hafter
    obtain ⟨mh, gh, hmh, -, -, rfl⟩ := newBinding_eq_some.1 hnew
    refine ⟨⟨hgoal, rfl⟩, mh, ?_, by simp⟩
    rw [honly _ (by simp), hmh]
  | unbindWork input permit =>
    obtain ⟨-, -, hrow, -⟩ := h
    obtain ⟨rfl, rfl⟩ : goal = permit.goal ∧ handle = input.series := by
      simpa [Writes] using hwrites
    rw [hrow] at hafter
    cases hafter
  | authorWorkMemory req permit t =>
    rcases h with ⟨-, honly⟩ | ⟨handle', checks, -, hworked⟩
    · exact absurd ((honly _ (by simp)).symm.trans hafter) hbefore
    obtain rfl : goal = permit.command.goal := by simpa [Writes] using hwrites
    by_cases heq : handle = handle'
    · obtain rfl := heq
      rcases hworked.binding with ⟨⟨-, mh, gh, hmh, -, -, hrow⟩, htarget⟩ | ⟨hsame, -⟩
      · obtain rfl := Option.mem_unique hrow hafter
        exact ⟨⟨rfl, htarget⟩, mh, hmh, rfl⟩
      · exact absurd (hsame.symm.trans hafter) hbefore
    · exact absurd ((hworked.only _ (by simp [heq])).symm.trans hafter) hbefore
  | forkMemory source permit t =>
    rcases h with ⟨-, ⟨-, honly⟩ | ⟨checks, kind, -, hforked⟩⟩
    · exact absurd ((honly _ (by simp)).symm.trans hafter) hbefore
    cases hdest : permit.destination with
    | owner o => simp [Writes, bindingKey, goalDestination, hdest] at hwrites
    | workingGoal command =>
      obtain ⟨rfl, rfl⟩ : goal = command.goal ∧ handle = t := by
        simpa [Writes, bindingKey, goalDestination, hdest] using hwrites
      obtain ⟨-, mh, gh, hmh, -, -, hrow⟩ :=
        hforked.binding (command.goal, command.controller) (by simp [hdest, goalDestination])
      obtain rfl := Option.mem_unique hrow hafter
      exact ⟨⟨⟨command, hdest, rfl⟩, rfl⟩, mh, hmh, rfl⟩
  | _ => simp [Writes] at hwrites

variable {hist : List Answer}

/-- The answer that has made a row what it is was no refusal. -/
lemma recorded_of_run (hrun : Run (system H).Effect d hist) {x : Row k}
    (hrow : get d k = some x) :
    ∃ n e resp during, answer hist n = some e ∧ e.result = .ok resp ∧
      post e.cmd resp during e.before (stateAt hist d (n + 1)) ∧ get e.before k ≠ some x ∧
      (∀ i, n < i → i ≤ hist.length → get (stateAt hist d i) k = some x) ∧
      (system H).Follows [] (stateAt hist d (n + 1)) d := by
  obtain ⟨n, e, he, hno, hsince⟩ := hrun.last (Q := fun d => get d k = some x) hrow (by simp)
  have hn := answer_lt he
  obtain ⟨older, -, -, -, -, heff⟩ := hrun.effect_of_answer he
  cases hres : e.result with
  | error err =>
    have hafter := hsince (n + 1) (Nat.lt_succ_self n) hn
    simp only [Effect, hres] at heff
    rw [heff] at hafter
    exact absurd hafter hno
  | ok resp =>
    simp only [Effect, hres] at heff
    have hend := follows_of_run hrun (Nat.succ_le_of_lt hn) le_rfl
    rw [stateAt_length] at hend
    exact ⟨n, e, resp, _, he, hres, heff.1, hno, hsince, hend⟩

/-- A series that is bound to a Goal has a head. -/
lemma head_of_binding (hrun : Run (system H).Effect d hist)
    (hw : get d (.goalWorkBinding goal handle) = some w) : get d (.memoryHead handle) ≠ none := by
  obtain ⟨n, e, resp, during, he, -, hpost, hno, hsince, hend⟩ := recorded_of_run hrun hw
  obtain ⟨-, mh, hmh, -⟩ := binding_recorded hpost
    (hsince (n + 1) (Nat.lt_succ_self n) (answer_lt he)) hno
  obtain ⟨mh', hmh', -⟩ := head_of_follows hend hmh
  rw [hmh']
  exact Option.some_ne_none _

/-! ### Transfers -/

/-- The answer transferred the series. -/
def Transfers (handle : Uuid) (e : Answer) : Prop :=
  ∃ fromOwner toOwner t m, e.cmd = .transferToOwner fromOwner toOwner t ∧ e.result = .ok .done ∧
    get e.before (.memory t) = some m ∧ m.handle = handle

/-- A transfer leaves another head than it found. -/
lemma Transfers.changes {e : Answer} (h : Transfers handle e)
    (heff : (system H).Effect hist e after) :
    get after (.memoryHead handle) ≠ get e.before (.memoryHead handle) := by
  obtain ⟨fromOwner, toOwner, t, m, hcmd, hres, hm, rfl⟩ := h
  simp only [Effect, hres, hcmd] at heff
  obtain ⟨⟨-, htransfer⟩, -⟩ := heff
  obtain ⟨m', mh, hm', -, hmh, -, hmh', -⟩ := htransfer.moved
  obtain rfl := Option.mem_unique hm hm'
  rw [hmh, hmh']
  intro heq
  have hgen := congrArg MemoryHead.authorityGeneration (Option.some.inj heq)
  simp [MemoryHead.transferred] at hgen

/-- The row `k` was made what it is by an answer to one of these commands, and the series has
had the head it has, and so its owner, ever since. -/
def RecordedSinceTransfer (s : Machine) (records : Command → Prop) (k : Key) (handle : Uuid) :
    Prop :=
  ∃ n e, answer s.hist n = some e ∧ (∃ resp, e.result = .ok resp) ∧ records e.cmd ∧
    (∀ i, n < i → i ≤ s.hist.length → get (stateAt s.hist s.db i) k = get s.db k ∧
      get (stateAt s.hist s.db i) (.memoryHead handle) = get s.db (.memoryHead handle)) ∧
    ∀ i e', n < i → answer s.hist i = some e' → ¬ Transfers handle e'

/-- A row that stands under the generation its series has now was recorded since the last
transfer of the series. -/
lemma recordedSinceTransfer_of_run {s : Machine} (hrun : Run (system H).Effect s.db s.hist)
    {records : Command → Prop} {x : Row k} (hrow : get s.db k = some x)
    (hmh : get s.db (.memoryHead handle) = some mh)
    (hrecorded : ∀ {c resp during before after}, post c resp during before after →
      get after k = some x → get before k ≠ some x → (system H).Follows [] after s.db →
      records c ∧ ∃ mh', get after (.memoryHead handle) = some mh' ∧
        mh'.authorityGeneration = mh.authorityGeneration) :
    RecordedSinceTransfer s records k handle := by
  obtain ⟨n, e, resp, during, he, hres, hpost, hno, hsince, hend⟩ := recorded_of_run hrun hrow
  obtain ⟨hcmd, mh', hmh', hgen⟩ := hrecorded hpost
    (hsince (n + 1) (Nat.lt_succ_self n) (answer_lt he)) hno hend
  have hhead : ∀ i, n < i → i ≤ s.hist.length →
      get (stateAt s.hist s.db i) (.memoryHead handle) = get s.db (.memoryHead handle) := by
    intro i hi hle
    have hlast := follows_of_run hrun hle le_rfl
    rw [stateAt_length] at hlast
    rw [hmh]
    exact head_between (follows_of_run hrun hi hle) hlast hmh' hmh hgen.symm
  refine ⟨n, e, he, ⟨resp, hres⟩, hcmd, fun i hi hle => ⟨?_, hhead i hi hle⟩,
    fun i e' hi he' htr => ?_⟩
  · rw [hsince i hi hle, hrow]
  · have hlt := answer_lt he'
    obtain ⟨older', -, -, hbefore, -, heff'⟩ := hrun.effect_of_answer he'
    refine htr.changes heff' ?_
    rw [hbefore, hhead (i + 1) (Nat.lt_succ_of_lt hi) hlt, hhead i hi (Nat.le_of_lt hlt)]

/-- **A route is opened after the last transfer of its series.** A route through a publication
comes from a publication of that version to that Goal, one through a work binding from a binding
of that series, and no answer since then has transferred the series: its owner has been the same
all along. -/
theorem route_recorded_since_transfer {s : Machine}
    (hs : Reachable (system H).toSystem () s) (session : Session) (r : Route) :
    (r ∈ goalMemoryReadRoutes s.db session → ∃ a ∈ audience s.db session,
      r ∈ published s.db a ∨ r ∈ working s.db a) ∧
    ∀ a, (r ∈ published s.db a → RecordedSinceTransfer s (Publishes r.goalHandle r.memoryT)
        (.goalMemoryPublication r.goalHandle r.memoryT) r.memoryHandle) ∧
      (r ∈ working s.db a → RecordedSinceTransfer s (BindsTo r.goalHandle r.memoryHandle)
        (.goalWorkBinding r.goalHandle r.memoryHandle) r.memoryHandle) := by
  have hrun := run_of_reachable hs
  refine ⟨fun hr => ?_, fun a => ⟨fun hr => ?_, fun hr => ?_⟩⟩
  · simpa [goalMemoryReadRoutes] using hr
  · obtain ⟨p, m, mh, hp, hm, hmh, ⟨-, -, -, hgen, -⟩, heq⟩ := mem_published.1 hr
    rw [heq]
    refine recordedSinceTransfer_of_run hrun hp hmh fun hpost hafter hno hend => ?_
    obtain ⟨hcmd, m', mh', hm', hmh', hgen'⟩ := publication_recorded hpost hafter hno
    refine ⟨hcmd, mh', ?_, hgen'.symm.trans hgen.symm⟩
    obtain ⟨m'', hm'', hhandle, -⟩ := memory_of_follows hend hm'
    have hsame : m'' = m := Option.mem_unique hm'' hm
    rw [← hsame, hhandle]
    exact hmh'
  · obtain ⟨w, m, mh, hm, hmh, hw, ⟨-, -, -, hgen, -⟩, heq⟩ := mem_working.1 hr
    rw [heq]
    refine recordedSinceTransfer_of_run hrun hw hmh fun hpost hafter hno _ => ?_
    obtain ⟨hcmd, mh', hmh', hgen'⟩ := binding_recorded hpost hafter hno
    exact ⟨hcmd, mh', hmh', hgen'.symm.trans hgen.symm⟩

/-! ### A series that comes back -/

/-- One key for all advisory locks. -/
def oneLock : Hash := fun _ => 0

/-- What subject 1 brings: their own owner, captured and unexpired. -/
def selfScope (subject : Uuid) : OwnerScope :=
  ⟨.scopedTo subject subject .personal, ⟨subject, none⟩, none, none, some ⟨subject⟩⟩

def selfPermit (subject goal : Uuid) : GoalCommandPermit := ⟨selfScope subject, goal, subject⟩

def selfSource (subject : Uuid) : OwnerWritePermit := ⟨subject, some (selfScope subject)⟩

def plainInput : Input := ⟨0, 0, true, false⟩

/-- The commands one after the other. -/
abbrev inTurn (H : Hash) (commands : List Command) : Option Machine :=
  (system H).serial 80 (State.init ()) (commands.map (·, plainInput))

/-- Owner 1 publishes a version to their Goal 10 and binds its series; the series goes to
owner 2 and comes back. -/
def thereAndBack : List Command :=
  [.createGoal 1 10 11, .admitMemory 1 20 21 .abstraction true,
    .publish ⟨10, 21, .read⟩ (selfPermit 1 10) (selfSource 1),
    .bindWork ⟨10, 20⟩ (selfPermit 1 10) (selfSource 1),
    .transferToOwner 1 2 21, .transferToOwner 2 1 21]

/-- Owner 1 publishes it again. -/
def republished : List Command :=
  thereAndBack ++ [.publish ⟨10, 21, .read⟩ (selfPermit 1 10) (selfSource 1)]

def ownerSession (subject : Uuid) : Session := bindOwnerScope (selfScope subject) 0

/-- The routes of owner 1 at the end of these commands. -/
def routesAfter (commands : List Command) : Option (List Route) :=
  (inTurn oneLock commands).map fun s => goalMemoryReadRoutes s.db (ownerSession 1)

-- the rows of the first publication and binding stand, and open nothing
example : routesAfter thereAndBack = some [] := by decide +kernel

theorem route_recorded_since_transfer_republished :
    ∃ s, inTurn oneLock republished = some s ∧
      RecordedSinceTransfer s (Publishes 10 21) (.goalMemoryPublication 10 21) 20 := by
  have hrun : (inTurn oneLock republished).map (fun s => published s.db ⟨10, 4, 1, 0⟩) =
      some [⟨21, 20, 1, 10, 1⟩] := by decide +kernel
  obtain ⟨s, hs, hroutes⟩ := Option.map_eq_some_iff.1 hrun
  refine ⟨s, hs, ?_⟩
  have hroute := (route_recorded_since_transfer (Reachable.serial .init hs) (ownerSession 1)
    ⟨21, 20, 1, 10, 1⟩).2 ⟨10, 4, 1, 0⟩
  exact hroute.1 (by rw [hroutes]; exact List.mem_singleton_self _)

end Proxiima.Collaboration

import Proxiima.Collaboration.Publishing

/-!
# Authority of what is admitted through Goals and as forks

Both calls look up what they build on, take their locks and look again. Two things are only
looked up: whether the series a version is to begin is there, and who owns the source of a
fork. While these stay as they were, a version is admitted only on authority that is current
where the call commits.
-/

namespace Proxiima.Collaboration

open ReadCommitted ReadCommitted.Guarded Authz Prog

variable {H : Hash}

/-- While the call of the answer `n` ran, nobody else began the series it names as new, and the
source of its fork kept its owner. -/
def Undisturbed (s : Machine) (n : ℕ) (e : Answer) : Prop :=
  match e.cmd with
  | .authorWorkMemory _ permit _ => ∀ handle, permit.target = .series handle →
      ∀ i, e.since ≤ i → i ≤ n → get (stateAt s.hist s.db i) (.memoryHead handle) = none →
        get e.before (.memoryHead handle) = none
  | .forkMemory _ permit _ => ∀ i, e.since ≤ i → i ≤ n →
      (get (stateAt s.hist s.db i) (.memory permit.source)).map (·.ownerId) =
        (get e.before (.memory permit.source)).map (·.ownerId)
  | _ => True

/-- What an admission through a Goal or as a fork rests on, in the state it commits in: the
Goal is active under the version's owner and writable for the caller, the series is new or bound
to the Goal, the pins and the source are live and readable, and a fork that leaves its owner or
enters a Goal has the consent of the owner its source has. A series written through a Goal is
left bound to it. -/
def Authorised (before after : Tables) : Command → Response → Prop
  | .authorWorkMemory req permit t, .admitted t' handle checks => t' = t ∧
      Admitted permit.owner handle t req.kind before after ∧ req.kind = permit.kind ∧
      Writable after permit.command.scope checks permit.command.goal permit.owner permit.kind ∧
      (get before (.memoryHead handle) = none ∨
        Bound before permit.command.goal handle permit.owner) ∧
      Bound after permit.command.goal handle permit.owner ∧
      ∀ e ∈ endpoints req, Readable after permit.command.scope checks e
  | .forkMemory source permit t, .admitted t' handle checks => t' = t ∧ handle = t ∧
      ∃ kind m, Admitted permit.destination.targetOwner t t kind before after ∧
        get before (.memoryHead t) = none ∧ DestinationWritable after permit kind checks ∧
        (∀ command, permit.destination = .workingGoal command →
          Bound after command.goal t command.controller) ∧
        Readable after permit.scope checks ⟨access kind, source⟩ ∧
        get after (.memory source) = some m ∧ m.ownerId = permit.sourceOwner ∧
        (permit.destination = .owner m.ownerId ∨ Consented after permit (access kind) checks)
  | _, _ => True

/-- A new binding binds the series for the owner of its head. -/
lemma NewBinding.bound {goal handle subject owner : Uuid} {before after : Tables} {mh : MemoryHead}
    (h : NewBinding goal handle subject before after)
    (hmh : get after (.memoryHead handle) = some mh) (howner : mh.ownerId = owner) :
    Bound after goal handle owner := by
  obtain ⟨-, mh', gh, hmh', hgh, -, hrow⟩ := h
  obtain rfl := Option.mem_unique hmh hmh'
  exact ⟨mh, gh, hmh, hgh, howner, by simp [Collaboration.bound, hrow, howner]⟩

/-- A series written through a Goal is bound to it afterwards, when it was bound or is new. -/
lemma Worked.bound {req : AuthorRequest} {permit : GoalWorkPermit} {t handle : Uuid}
    {checks : List (ℕ × ℕ)} {during : Tables → Prop} {before after : Tables}
    (h : Worked req permit t handle checks during before after)
    (htarget : Bound before permit.command.goal handle permit.owner ∨
      permit.target = .series handle ∧ get before (.memoryHead handle) = none)
    (hheads : ∀ w, get before (.goalWorkBinding permit.command.goal handle) = some w →
      get before (.memoryHead handle) ≠ none) :
    Bound after permit.command.goal handle permit.owner := by
  rcases htarget with ⟨mh, gh, hmh, hgh, howner, hbound⟩ | ⟨hseries, hnone⟩
  · have hmh' := (h.admitted.head_kept hmh).trans hmh
    rcases h.binding with ⟨hnew, -⟩ | ⟨hsame, -⟩
    · exact hnew.bound hmh' howner
    · refine ⟨mh, gh, hmh', (h.only _ (by simp)).trans hgh, howner, ?_⟩
      rwa [Collaboration.bound, hsame]
  · have hmh : get after (.memoryHead handle) = some ⟨req.kind, permit.owner, 0⟩ := by
      rcases h.admitted.head with ⟨-, hmh⟩ | ⟨-, mh, hmh, -⟩
      · exact hmh
      · cases hnone.symm.trans hmh
    rcases h.binding with ⟨hnew, -⟩ | ⟨-, hrow⟩
    · exact hnew.bound hmh rfl
    · obtain ⟨w, hw⟩ := Option.ne_none_iff_exists'.1 (hrow hseries)
      exact absurd hnone (hheads w hw)

/-- **Versions are admitted through Goals and as forks on current authority.** -/
theorem admitted_on_current_authority {s : Machine}
    (hs : Reachable (system H).toSystem () s) {n : ℕ} {e : Answer}
    (he : answer s.hist n = some e) {resp : Response} (hok : e.result = .ok resp)
    (hundisturbed : Undisturbed s n e) :
    Authorised e.before (stateAt s.hist s.db (n + 1)) e.cmd resp := by
  obtain ⟨older, hlen, hsuf, -, hrun, heff⟩ := (run_of_reachable hs).effect_of_answer he
  simp only [Effect, hok] at heff
  have hpost := heff.1
  -- what the call saw while it ran is one of the states of the history
  have hpast : ∀ {d}, During older e.before e.since d →
      ∃ i, e.since ≤ i ∧ i ≤ n ∧ stateAt s.hist s.db i = d := by
    rintro d ⟨i, hi, hle, rfl⟩
    exact ⟨i, hi, hlen ▸ hle, (stateAt_of_suffix s.db hsuf hle).symm⟩
  unfold Undisturbed at hundisturbed
  cases hcmd : e.cmd with
  | authorWorkMemory req permit t =>
    rw [hcmd] at hpost
    simp only [hcmd] at hundisturbed
    rcases hpost with ⟨rfl, -⟩ | ⟨handle, checks, rfl, hworked⟩
    · trivial
    have htarget : Bound e.before permit.command.goal handle permit.owner ∨
        permit.target = .series handle ∧ get e.before (.memoryHead handle) = none := by
      refine hworked.target.imp_right ?_
      rintro ⟨htarget, d, hd, hnone⟩
      obtain ⟨i, hi, hle, rfl⟩ := hpast hd
      exact ⟨htarget, hundisturbed handle htarget i hi hle hnone⟩
    exact ⟨rfl, hworked.admitted, hworked.kind, hworked.writable,
      (htarget.imp_right And.right).symm, hworked.bound htarget fun w => head_of_binding hrun,
      hworked.sources⟩
  | forkMemory source permit t =>
    rw [hcmd] at hpost
    simp only [hcmd] at hundisturbed
    obtain ⟨rfl, ⟨rfl, -⟩ | ⟨checks, kind, rfl, hforked⟩⟩ := hpost
    · trivial
    obtain ⟨d, m, hd, hm, howner⟩ := hforked.owner
    obtain ⟨i, hi, hle, rfl⟩ := hpast hd
    have hkept := hundisturbed i hi hle
    rw [hm, Option.map_some, eq_comm, Option.map_eq_some_iff] at hkept
    obtain ⟨m', hm', howner'⟩ := hkept
    have hne : permit.source ≠ t := by
      rintro heq
      rw [← heq] at hforked
      cases hforked.admitted.absent.symm.trans hm'
    refine ⟨rfl, rfl, kind, m', hforked.admitted, hforked.fresh, hforked.writable,
      fun command hdest => ?_, hforked.source,
      (hforked.only _ (by simp [hne, bindingKey])).trans hm', howner'.trans howner, ?_⟩
    · obtain ⟨-, hmh⟩ := hforked.admitted.head.resolve_right fun h => by simp [hforked.fresh] at h
      exact (hforked.binding (command.goal, command.controller)
        (by simp [hdest, goalDestination])).bound
        hmh (by simp [hdest, ForkDestinationPermit.targetOwner])
    refine hforked.consented.imp_left fun hsame => ?_
    cases hdest : permit.destination with
    | owner o =>
      have ho : o = permit.sourceOwner := by
        simpa [ForkCommandPermit.sameOwnerDestination, hdest] using hsame
      rw [ho, howner', howner]
    | workingGoal command => simp [ForkCommandPermit.sameOwnerDestination, hdest] at hsame
  | _ => trivial

/-! ### Runs -/

/-- A key of its own for every advisory lock. -/
def apart : Hash
  | .ownerFence o => 3 * o
  | .authority o => 3 * o + 1
  | .memoryHandle h => 3 * h + 2

/-- A version of owner 1 that names the series `handle`, with no pins. -/
def plainRequest (handle : Uuid) : AuthorRequest :=
  ⟨1, .abstraction, handle, none, [], [], [], none⟩

/-- Subject 2 writes to the series through Goal 10 of owner 1. -/
def guestWork (handle : Uuid) : GoalWorkPermit :=
  ⟨⟨selfScope 2, 10, 1⟩, .abstraction, .series handle⟩

/-- Goal 10 of owner 1, with subject 2 as an editor. -/
def guestGoal : List Command :=
  [.createGoal 1 10 11, .grantAccess ⟨10, 2, .editor, none⟩ (selfPermit 1 10)]

def guestCall : Command := .authorWorkMemory (plainRequest 30) (guestWork 30) 32

theorem admitted_on_current_authority_guest :
    ∃ (s : Machine) (e : Answer) (resp : Response),
      inTurn apart (guestGoal ++ [guestCall]) = some s ∧ answer s.hist 2 = some e ∧
      resp = .admitted 32 30 [(0, 0), (0, 0)] ∧
      Authorised e.before (stateAt s.hist s.db 3) guestCall resp := by
  have hrun : (inTurn apart (guestGoal ++ [guestCall])).map (fun s =>
        ((answer s.hist 2).map Entry.cmd, (answer s.hist 2).map
          fun e => (e.since, e.result.toOption))) =
      some (some guestCall, some (2, some (.admitted 32 30 [(0, 0), (0, 0)]))) := by decide +kernel
  obtain ⟨s, hs, hanswer⟩ := Option.map_eq_some_iff.1 hrun
  obtain ⟨hcmd, hrest⟩ := Prod.mk.inj hanswer
  obtain ⟨e, he, hcmd⟩ := Option.map_eq_some_iff.1 hcmd
  rw [he, Option.map_some, Option.some_inj, Prod.mk.injEq] at hrest
  have hok : e.result = .ok (.admitted 32 30 [(0, 0), (0, 0)]) := by
    cases hr : e.result <;> simp_all [Except.toOption]
  have hreach := Reachable.serial .init hs
  have hauth := admitted_on_current_authority hreach he hok ?_
  · exact ⟨s, e, _, hs, he, rfl, hcmd ▸ hauth⟩
  · -- no other call ended while it ran
    obtain ⟨-, -, -, hbefore, -⟩ := (run_of_reachable hreach).effect_of_answer he
    simp only [Undisturbed, hcmd, guestCall]
    intro handle _ i hi hle hnone
    obtain rfl : i = 2 := by omega
    rwa [hbefore]

/-- The call of a guest starts, and after its check of the target owner 1 begins the series. -/
def seriesRace : Option Machine := do
  let s ← inTurn apart guestGoal
  (system apart).run s ([.start guestCall] ++ List.replicate 20 (.run 0 plainInput) ++
    [.start (.admitMemory 1 30 31 .abstraction false)] ++ List.replicate 22 (.run 0 plainInput))

/-- What subject 1 brings who also reads owner 2. -/
def readerScope : OwnerScope :=
  ⟨⟨1, [(1, .personal), (2, .viewer)], by decide⟩, ⟨1, none⟩, none, none, some ⟨1⟩⟩

/-- A fork of a version within owner 1 starts, and after it is loaded the version goes to
owner 2. -/
def forkRace : Option Machine := do
  let s ← inTurn apart
    [.setRole 1 2 (some .viewer), .admitMemory 1 20 21 .abstraction true]
  (system apart).run s ([.start (.forkMemory 21 ⟨readerScope, 21, 1, .owner 1⟩ 41)] ++
    List.replicate 7 (.run 0 plainInput) ++ [.start (.transferToOwner 1 2 21)] ++
    List.replicate 43 (.run 0 plainInput))

/-- The guest's version is admitted to a series that was there and not bound to the Goal; and a
version that owner 2 has is copied to owner 1 by a reader of it, with no Goal to consent. -/
theorem authority_races :
    (seriesRace.map fun s => ((answer s.hist 3).map Entry.cmd,
      (answer s.hist 3).map (·.result.toOption))) =
        some (some guestCall, some (some (.admitted 32 30 [(0, 0), (0, 0)]))) ∧
    (seriesRace.map fun s => (answer s.hist 3).map fun e =>
      ((get e.before (.memoryHead 30)).map (·.ownerId), get e.before (.goalWorkBinding 10 30))) =
        some (some (some 1, none)) ∧
    (forkRace.map fun s => (s.hist.head?.map (·.result.toOption), get s.db (.role 1 2),
      (live s.db).filter fun k => k matches .goalHead _)) =
        some (some (some (.admitted 41 41 [(0, 0), (0, 0), (0, 0), (0, 0)])), some .viewer, []) ∧
    (forkRace.map fun s => [21, 41].map fun t => (get s.db (.memory t)).map (·.ownerId)) =
      some [some 2, some 1] := by
  decide +kernel

end Proxiima.Collaboration

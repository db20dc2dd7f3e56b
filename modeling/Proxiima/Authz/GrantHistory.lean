import Proxiima.Authz.Delegation

/-!
# Grants over a history

A history is the list of worlds that followed one another: the clock goes on, epochs and roles
change in any way, grants are issued and revoked. A call observes worlds of the history in
order. What a redeemed phase may do goes back to the call that issued its grant.
-/

namespace Proxiima.Authz

open Serde (bind_eq_ok)

/-! ### Histories -/

/-- The worlds were seen one after another, the first at position `n` or later. -/
def Observes (h : List World) : ℕ → List World → Prop
  | _, [] => True
  | n, w :: ws => ∃ i, n ≤ i ∧ h[i]? = some w ∧ Observes h i ws

structure IssueCall where
  service : DelegatedAuthorityService
  w₁ : World
  w₂ : World
  w₃ : World
  w₄ : World
  delegationId : Uuid
  source : AuthzContext
  owner : Uuid
  command : DelegatedCommand
  roleCeiling : Role

namespace IssueCall

def RanIn (call : IssueCall) (h : List World) : Prop :=
  Built call.source ∧ Observes h 0 [call.w₁, call.w₂, call.w₃, call.w₄]

def run (call : IssueCall) : Except DelegatedAuthorityError DelegationGrant :=
  call.service.issue call.w₁ call.w₂ call.w₃ call.w₄ call.delegationId call.source call.owner
    call.command call.roleCeiling

end IssueCall

structure RevokeCall where
  w₁ : World
  w₂ : World
  w₃ : World
  w₄ : World
  w₅ : World
  caller : AuthzContext
  delegationId : Uuid
  owner : Uuid

namespace RevokeCall

def RanIn (call : RevokeCall) (h : List World) : Prop :=
  Built call.caller ∧ Observes h 0 [call.w₁, call.w₂, call.w₃, call.w₄, call.w₅]

def run (call : RevokeCall) (w : World) :
    Except DelegatedAuthorityError (DelegationRevocation × World) :=
  revokeGrant call.w₁ call.w₂ call.w₃ call.w₄ call.w₅ w call.caller call.delegationId call.owner

end RevokeCall

/-- One step of the world `w` at the end of the history `h`. -/
inductive WorldStep (h : List World) (w : World) : World → Prop where
  | change {w' : World} (hnow : w.now ≤ w'.now) (hgrants : w'.grants = w.grants) :
      WorldStep h w w'
  | issue {w' : World} (call : IssueCall) {grant : DelegationGrant} (hcall : call.RanIn h)
      (hrun : call.run = .ok grant) (hinsert : w.insert grant = .ok w') : WorldStep h w w'
  | revoke {w' : World} (call : RevokeCall) {answer : DelegationRevocation}
      (hcall : call.RanIn h) (hrun : call.run w = .ok (answer, w')) : WorldStep h w w'

/-- The histories there are, the latest world last. -/
inductive History : List World → Prop where
  | start (w : World) (hw : w.grants = []) : History [w]
  | step {h : List World} {w w' : World} (hh : History h) (hlast : h.getLast? = some w)
      (hstep : WorldStep h w w') : History (h ++ [w'])

variable {h : List World} {i : ℕ} {w w' : World}

lemma Observes.append (w : World) {n : ℕ} {ws : List World} (ho : Observes h n ws) :
    Observes (h ++ [w]) n ws := by
  induction ws generalizing n with
  | nil => trivial
  | cons v ws ih =>
    obtain ⟨i, hn, hi, ho⟩ := ho
    refine ⟨i, hn, ?_, ih ho⟩
    rw [List.getElem?_append_left (List.getElem?_eq_some_iff.1 hi).1, hi]

/-- A history read up to one of its positions is a history. -/
lemma History.take (hh : History h) (hi : i < h.length) : History (h.take (i + 1)) := by
  induction hh with
  | start w hw =>
    obtain rfl : i = 0 := by simpa using hi
    exact .start w hw
  | @step h _ w' hh hlast hstep ih =>
    rw [List.length_append, List.length_singleton] at hi
    rcases Nat.lt_or_ge i h.length with hlt | hge
    · rw [List.take_append_of_le_length (by omega)]
      exact ih hlt
    · rw [List.take_of_length_le (by simp; omega)]
      exact .step hh hlast hstep

/-! ### What a step keeps -/

/-- `w'` is `w` or a later world: the clock went on, and every row is still there, revoked if
it was. -/
structure World.Precedes (w w' : World) : Prop where
  now : w.now ≤ w'.now
  rows : ∀ row ∈ w.grants, ∃ row' ∈ w'.grants, row'.delegationId = row.delegationId ∧
    row'.ownerId = row.ownerId ∧ (row.revokedAt ≠ none → row'.revokedAt ≠ none)

variable {grant : DelegationGrant} {answer : DelegationRevocation}

namespace World

lemma Precedes.refl (w : World) : w.Precedes w :=
  ⟨Nat.le_refl _, fun row hrow => ⟨row, hrow, rfl, rfl, id⟩⟩

lemma Precedes.trans {a b c : World} (hab : a.Precedes b) (hbc : b.Precedes c) : a.Precedes c := by
  refine ⟨Nat.le_trans hab.now hbc.now, fun row hrow => ?_⟩
  obtain ⟨row', hrow', hid, ho, hrev⟩ := hab.rows row hrow
  obtain ⟨row'', hrow'', hid', ho', hrev'⟩ := hbc.rows row' hrow'
  exact ⟨row'', hrow'', hid'.trans hid, ho'.trans ho, fun h => hrev' (hrev h)⟩

lemma insert_eq (h : w.insert grant = .ok w') :
    ∃ row, grant.encode = .ok row ∧ (∀ r ∈ w.grants, r.delegationId ≠ row.delegationId) ∧
      w' = { w with grants := row :: w.grants } := by
  simp only [World.insert, bind_eq_ok, ensure_ok] at h
  obtain ⟨row, hrow, -, hnew, h⟩ := h
  exact ⟨row, hrow, by simpa using hnew, (Except.ok.inj h).symm⟩

/-- The update revokes: every row of the grant is revoked after it. -/
lemma revoke_spec (w : World) (id owner : Uuid) (at_ : ℕ) (by_ : Uuid) :
    w.Precedes (w.revoke id owner at_ by_).2 ∧
      (w.revoke id owner at_ by_).2.grants.map GrantRow.delegationId =
        w.grants.map GrantRow.delegationId ∧
      (∀ row' ∈ (w.revoke id owner at_ by_).2.grants, ∃ row ∈ w.grants,
        row' = { row with revokedAt := row'.revokedAt, revokedByUserId := row'.revokedByUserId }) ∧
      ∀ row' ∈ (w.revoke id owner at_ by_).2.grants, row'.delegationId = id →
        row'.ownerId = owner → row'.revokedAt ≠ none := by
  simp only [World.revoke]
  refine ⟨⟨Nat.le_refl _, fun row hrow => ?_⟩, ?_, fun row' hrow' => ?_,
    fun row' hrow' hid ho => ?_⟩
  · refine ⟨_, List.mem_map_of_mem hrow, ?_⟩
    split <;> simp
  · rw [List.map_map]
    refine List.map_congr_left fun row _ => ?_
    simp only [Function.comp]
    split <;> rfl
  · obtain ⟨row, hrow, rfl⟩ := List.mem_map.1 hrow'
    refine ⟨row, hrow, ?_⟩
    split <;> rfl
  · obtain ⟨row, hrow, rfl⟩ := List.mem_map.1 hrow'
    by_cases hhit : row.unrevoked id owner = true
    · simp [hhit]
    · simp only [hhit] at hid ho ⊢
      intro hnone
      exact hhit (by simpa [GrantRow.unrevoked] using ⟨hid, ho, hnone⟩)

/-- A revocation that answers: the grant's row was there, and either it was revoked or the
update was made. -/
lemma revokeGrant_eq {w₁ w₂ w₃ w₄ w₅ : World} {caller : AuthzContext} {id owner : Uuid}
    (h : revokeGrant w₁ w₂ w₃ w₄ w₅ w caller id owner = .ok (answer, w')) :
    ∃ row ∈ w₃.grants, row.delegationId = id ∧ row.ownerId = owner ∧
      ((row.revokedAt ≠ none ∧ w' = w) ∨ ∃ at_ by_, w' = (w.revoke id owner at_ by_).2) := by
  simp only [revokeGrant, bind_eq_ok, mapError_ok, orElse_ok] at h
  obtain ⟨⟨subject, _⟩, -, -, -, found, hfound, grant, rfl, -, -, roles, -, role, -, -, -, h⟩ := h
  obtain ⟨row, hrow, hid, ho, hdecode⟩ := World.load_eq hfound
  refine ⟨row, hrow, hid, ho, ?_⟩
  split at h
  · rename_i hrev
    rw [GrantRow.decode_revokedAt hdecode, Option.isSome_map, Option.isSome_iff_ne_none] at hrev
    obtain ⟨-, rfl⟩ := Prod.mk.inj (Except.ok.inj h)
    exact .inl ⟨hrev, rfl⟩
  · refine .inr ⟨w₅.now, subject, ?_⟩
    rcases hw : w.revoke id owner w₅.now subject with ⟨b, v⟩
    rw [hw] at h
    cases b <;> exact (Prod.mk.inj (Except.ok.inj h)).2.symm

end World

lemma WorldStep.precedes (hstep : WorldStep h w w') : w.Precedes w' := by
  cases hstep with
  | change hnow hgrants =>
    exact ⟨hnow, fun row hrow => ⟨row, hgrants ▸ hrow, rfl, rfl, id⟩⟩
  | issue call hcall hrun hinsert =>
    obtain ⟨row, -, -, rfl⟩ := World.insert_eq hinsert
    exact ⟨Nat.le_refl _, fun r hr => ⟨r, List.mem_cons_of_mem _ hr, rfl, rfl, id⟩⟩
  | revoke call hcall hrun =>
    obtain ⟨row, -, -, -, ⟨-, rfl⟩ | ⟨at_, by_, rfl⟩⟩ := World.revokeGrant_eq hrun
    · exact .refl _
    · exact (World.revoke_spec ..).1

lemma WorldStep.nodup (hstep : WorldStep h w w') (hw : (w.grants.map GrantRow.delegationId).Nodup) :
    (w'.grants.map GrantRow.delegationId).Nodup := by
  cases hstep with
  | change hnow hgrants => rwa [hgrants]
  | issue call hcall hrun hinsert =>
    obtain ⟨row, -, hnew, rfl⟩ := World.insert_eq hinsert
    refine List.nodup_cons.2 ⟨fun hmem => ?_, hw⟩
    obtain ⟨r, hr, hid⟩ := List.mem_map.1 hmem
    exact hnew r hr hid
  | revoke call hcall hrun =>
    obtain ⟨row, -, -, -, ⟨-, rfl⟩ | ⟨at_, by_, rfl⟩⟩ := World.revokeGrant_eq hrun
    · exact hw
    · rwa [(World.revoke_spec ..).2.1]

/-- The row goes back to a call that issued its grant in the history. -/
def GrantRow.IssuedIn (row : GrantRow) (h : List World) : Prop :=
  ∃ call grant, call.RanIn h ∧ IssueCall.run call = .ok grant ∧ row.Records grant

lemma WorldStep.issued (hstep : WorldStep h w w') (hw : ∀ row ∈ w.grants, row.IssuedIn h) :
    ∀ row ∈ w'.grants, row.IssuedIn h := by
  cases hstep with
  | change hnow hgrants => rwa [hgrants]
  | issue call hcall hrun hinsert =>
    obtain ⟨row, hrow, -, rfl⟩ := World.insert_eq hinsert
    refine List.forall_mem_cons.2 ⟨⟨call, _, hcall, hrun, row, hrow, rfl⟩, hw⟩
  | revoke call hcall hrun =>
    obtain ⟨row, -, -, -, ⟨-, rfl⟩ | ⟨at_, by_, rfl⟩⟩ := World.revokeGrant_eq hrun
    · exact hw
    · intro row' hrow'
      obtain ⟨row, hrow, heq⟩ := (World.revoke_spec ..).2.2.1 row' hrow'
      obtain ⟨call, grant, hcall, hrun, row₀, hrow₀, hrec⟩ := hw row hrow
      refine ⟨call, grant, hcall, hrun, row₀, hrow₀, ?_⟩
      rw [heq, hrec]

/-! ### What a history keeps -/

lemma GrantRow.IssuedIn.append {row : GrantRow} (w : World) (hrow : row.IssuedIn h) :
    row.IssuedIn (h ++ [w]) := by
  obtain ⟨call, grant, hcall, hrun, hrec⟩ := hrow
  exact ⟨call, grant, ⟨hcall.1, hcall.2.append w⟩, hrun, hrec⟩

namespace History

variable {h : List World} {w w' : World}

lemma getElem?_snoc {v : World} (hi : (h ++ [w])[i]? = some v) :
    (i < h.length ∧ h[i]? = some v) ∨ (i = h.length ∧ v = w) := by
  have hlt := (List.getElem?_eq_some_iff.1 hi).1
  rw [List.length_append, List.length_singleton] at hlt
  rcases Nat.lt_or_ge i h.length with h1 | h1
  · rw [List.getElem?_append_left h1] at hi
    exact .inl ⟨h1, hi⟩
  · obtain rfl : i = h.length := by omega
    rw [List.getElem?_concat_length] at hi
    exact .inr ⟨rfl, (Option.some.inj hi).symm⟩

/-- A world precedes those after it. -/
lemma precedes (hh : History h) {j : ℕ} (hij : i ≤ j) (hi : h[i]? = some w) (hj : h[j]? = some w') :
    w.Precedes w' := by
  induction hh generalizing i j w w' with
  | start v hv =>
    obtain rfl : w = v := by simpa using List.mem_of_getElem? hi
    obtain rfl : w' = w := by simpa using List.mem_of_getElem? hj
    exact .refl _
  | @step h v v' hh hlast hstep ih =>
    obtain ⟨hjlt, hj⟩ | ⟨rfl, rfl⟩ := getElem?_snoc hj
    · obtain ⟨-, hi⟩ | ⟨rfl, -⟩ := getElem?_snoc hi
      · exact ih hij hi hj
      · omega
    · obtain ⟨hilt, hi⟩ | ⟨-, rfl⟩ := getElem?_snoc hi
      · rw [List.getLast?_eq_getElem?] at hlast
        exact (ih (by omega) hi hlast).trans hstep.precedes
      · exact .refl _

lemma nodup_of_mem (hh : History h) (hw : w ∈ h) : (w.grants.map GrantRow.delegationId).Nodup := by
  induction hh generalizing w with
  | start v hv =>
    obtain rfl := List.mem_singleton.1 hw
    simp [hv]
  | step hh hlast hstep ih =>
    rcases List.mem_append.1 hw with hw | hw
    · exact ih hw
    · obtain rfl := List.mem_singleton.1 hw
      exact hstep.nodup (ih (List.mem_of_getLast? hlast))

lemma issued (hh : History h) (hw : h.getLast? = some w) : ∀ row ∈ w.grants, row.IssuedIn h := by
  induction hh generalizing w with
  | start v hv =>
    obtain rfl : v = w := by simpa using hw
    simp [hv]
  | step hh hlast hstep ih =>
    rw [List.getLast?_concat, Option.some.injEq] at hw
    subst hw
    exact fun row hrow => (hstep.issued (ih hlast) row hrow).append _

end History

/-! ### Issuing and redeeming -/

/-- What an issued grant is bounded by: the issuer's role at the time and the bearer's
expiries. -/
structure IssueCall.Bounds (call : IssueCall) (grant : DelegationGrant) : Prop where
  owner : grant.owner = call.owner
  command : grant.command = call.command
  ceiling : grant.roleCeiling = call.roleCeiling
  issuer : call.source.identity.subject = some grant.subject
  held : ∃ role, call.w₄.roleOf grant.subject grant.owner = some role ∧
    role.dominates grant.roleCeiling = true
  manage : grant.roleCeiling.manage = false
  bearer : ∃ identityExpiry scope scopeExpiry,
    call.source.identity.expiresAt = some identityExpiry ∧ call.source.scope = some scope ∧
      scope.expiresAt = some scopeExpiry ∧ grant.expiresAt ≤ identityExpiry ∧
      grant.expiresAt ≤ scopeExpiry

lemma IssueCall.bounds {call : IssueCall} (hb : Built call.source) (h : call.run = .ok grant) :
    call.Bounds grant := by
  simp only [IssueCall.run, DelegatedAuthorityService.issue, validateHostBearer, bind_eq_ok,
    ensure_ok, orElse_ok] at h
  obtain ⟨⟨subject, expiresAt⟩,
    ⟨-, -, subject', hsubject, scope, hscope, t, ht, t', ht', -, -, hpair⟩,
    scope', hscope', -, -, -, -, -, hmanage, -, -, roles, hroles, role, hrole, -, hdom, -, -, -, -,
    hg⟩ := h
  obtain ⟨rfl, rfl⟩ := Prod.mk.inj (Except.ok.inj hpair)
  obtain rfl := Option.mem_unique hscope hscope'
  obtain rfl := Except.ok.inj hg
  have hissuer : call.source.identity.subject = some scope.roles.subject :=
    hb.coherent.subject _ (hb.coherent.scope scope hscope)
  obtain rfl := Option.mem_unique hsubject hissuer
  refine ⟨rfl, rfl, rfl, hissuer, ⟨role, ?_, hdom⟩, by simpa using hmanage,
    ⟨t, scope, t', ht, hscope, ht', Nat.min_le_left _ _, Nat.min_le_right _ _⟩⟩
  rw [currentRoles_roleFor hroles]
  exact hrole

/-- What a redeemed phase is made of. -/
lemma redeemPhase_eq {service : DelegatedAuthorityService} {w₁ w₂ w₃ w₄ : World}
    {id owner : Uuid} {command : DelegatedCommand} {phase : DelegatedPhase}
    (h : service.redeemPhase w₁ w₂ w₃ w₄ id owner command = .ok phase) :
    ∃ row ∈ w₁.grants, ∃ grant key, row.delegationId = id ∧ row.decode = .ok grant ∧
      grant.owner = owner ∧ grant.command = command ∧ row.revokedAt = none ∧
      w₂.now < grant.expiresAt ∧
      (∃ role, w₄.roleOf grant.subject owner = some role ∧
        role.dominates grant.roleCeiling = true) ∧
      command.scopeKey = .ok key ∧ phase.authz.capabilities.toolScope = .palette [key] ∧
      phase.authz.ownerRoles = some (.scopedTo grant.subject owner grant.roleCeiling) ∧
      phase.authz.scope = some ⟨.scopedTo grant.subject owner grant.roleCeiling, grant.writer,
        some grant.expiresAt, none, none⟩ ∧
      phase.expiresAt = grant.expiresAt := by
  simp only [DelegatedAuthorityService.redeemPhase, bind_eq_ok, mapError_ok, orElse_ok, ensure_ok,
    decide_eq_true_eq] at h
  obtain ⟨found, hfound, grant, rfl, -, ⟨-, howner⟩, -, hcommand, -, hrevoked, -, hnow, -, -, -, -,
    -, -, roles, hroles, role, hrole, -, hdom, scope, hscope, authz, hseal, hphase⟩ := h
  obtain ⟨row, hrow, hid, -, hdecode⟩ := World.load_eq hfound
  obtain rfl := Except.ok.inj hphase
  obtain rfl := Except.ok.inj hseal
  rw [hcommand] at hscope
  cases hkey : command.scopeKey with
  | error e => simp [DelegatedCommand.toolScope, hkey, Except.map] at hscope
  | ok key =>
    obtain rfl : ToolScope.palette [key] = scope := by
      simpa [DelegatedCommand.toolScope, hkey, Except.map] using hscope
    rw [GrantRow.decode_revokedAt hdecode] at hrevoked
    rw [Role.meet_of_dominates hdom]
    refine ⟨row, hrow, grant, key, hid, hdecode, howner, hcommand, by simpa using hrevoked, hnow,
      ⟨role, ?_, hdom⟩, rfl, rfl, rfl, rfl, rfl⟩
    rw [currentRoles_roleFor hroles]
    exact hrole

/-- Once a revocation has answered, the grant's row is revoked. -/
lemma RevokeCall.takes_effect (hh : History h) {j : ℕ} {v v' : World} {call : RevokeCall}
    (hv : h[j]? = some v) (hcall : call.RanIn (h.take (j + 1)))
    (hrun : call.run v = .ok (answer, v')) :
    ∃ row ∈ v'.grants, row.delegationId = call.delegationId ∧ row.revokedAt ≠ none := by
  obtain ⟨row, hrow, hid, ho, hcase⟩ := World.revokeGrant_eq hrun
  -- the row was read before, so it is still there in the world of the update
  have hpre : call.w₃.Precedes v := by
    obtain ⟨-, i₁, -, -, i₂, -, -, i₃, -, h₃, -⟩ := hcall
    have hlt := (List.getElem?_eq_some_iff.1 h₃).1
    rw [List.length_take] at hlt
    rw [List.getElem?_take_of_lt (by omega)] at h₃
    exact hh.precedes (by omega) h₃ hv
  obtain ⟨row', hrow', hid', ho', hrev⟩ := hpre.rows row hrow
  obtain ⟨hrevoked, rfl⟩ | ⟨at_, by_, rfl⟩ := hcase
  · exact ⟨row', hrow', hid'.trans hid, hrev hrevoked⟩
  · obtain ⟨hafter, -, -, hall⟩ := World.revoke_spec v call.delegationId call.owner at_ by_
    obtain ⟨row'', hrow'', hid'', ho'', -⟩ := hafter.rows row' hrow'
    exact ⟨row'', hrow'', hid''.trans (hid'.trans hid), hall row'' hrow''
      (hid''.trans (hid'.trans hid)) (ho''.trans (ho'.trans ho))⟩

/-- **A phase is bounded by its grant**: in every history, a phase redeemed from the row read
at position `i` goes back to a call that issued the grant before. It carries the grant's owner
with the recorded ceiling and the key of its one command. The issuer held that ceiling then
and holds it in the redeeming world; the ceiling does not manage; and the phase ends with the
grant, no later than the bearer. The clock had not reached that end, and no revocation of the
grant had been committed, when the redemption began. -/
theorem redeemed_phase_bounded {h : List World} (hh : History h)
    {service : DelegatedAuthorityService} {i : ℕ} {w₁ w₂ w₃ w₄ : World} {id owner : Uuid}
    {command : DelegatedCommand} {phase : DelegatedPhase} (hload : h[i]? = some w₁)
    (hobs : Observes h i [w₂, w₃, w₄])
    (hredeem : service.redeemPhase w₁ w₂ w₃ w₄ id owner command = .ok phase) :
    (∃ call grant key, call.RanIn (h.take (i + 1)) ∧ IssueCall.run call = .ok grant ∧
      call.Bounds grant ∧ grant.delegationId = id ∧ grant.owner = owner ∧
      grant.command = command ∧
      (∃ role, w₄.roleOf grant.subject owner = some role ∧
        role.dominates grant.roleCeiling = true) ∧
      phase.authz.ownerRoles = some (.scopedTo grant.subject owner grant.roleCeiling) ∧
      phase.authz.scope.map (·.roles) = phase.authz.ownerRoles ∧
      command.scopeKey = .ok key ∧ phase.authz.capabilities.toolScope = .palette [key] ∧
      phase.expiresAt ≤ grant.expiresAt ∧
      phase.authz.scope.map (·.expiresAt) = some (some phase.expiresAt)) ∧
    w₁.now < phase.expiresAt ∧
    ∀ (call : RevokeCall) j v v' answer, j < i → h[j]? = some v → h[j + 1]? = some v' →
      call.RanIn (h.take (j + 1)) → call.run v = .ok (answer, v') → call.delegationId ≠ id := by
  obtain ⟨row, hrow, stored, key, hid, hdecode, howner, hcommand, hrevoked, hnow, hheld,
    hkey, hscope, hroles, hsealed, hexpires⟩ := redeemPhase_eq hredeem
  have hi := (List.getElem?_eq_some_iff.1 hload).1
  have hlast : (h.take (i + 1)).getLast? = some w₁ := by
    rw [List.getLast?_take]
    simp [hload]
  obtain ⟨call, grant, hcall, hrun, hrec⟩ := (hh.take hi).issued hlast row hrow
  have hbounds := IssueCall.bounds hcall.1 hrun
  obtain ⟨hid', howner', hsubject, hcommand', hceiling, hexp⟩ := hrec.decode hbounds.manage hdecode
  refine ⟨⟨call, grant, key, hcall, hrun, hbounds, ?_, howner'.symm.trans howner,
    hcommand'.symm.trans hcommand, ?_, ?_, ?_, hkey, hscope, ?_, ?_⟩, ?_, ?_⟩
  · rw [← hid]
    obtain ⟨row₀, he, hr⟩ := hrec
    unfold DelegationGrant.encode at he
    split at he
    · obtain rfl := Except.ok.inj he
      rw [hr]
    · cases he
  · rwa [← hsubject, ← hceiling]
  · rw [hroles, hsubject, hceiling]
  · rw [hsealed, hroles]
    rfl
  · rwa [hexpires]
  · rw [hsealed, hexpires]
    rfl
  · obtain ⟨i₂, hle, hi₂, -⟩ := hobs
    rw [hexpires]
    exact Nat.lt_of_le_of_lt (hh.precedes hle hload hi₂).now hnow
  · rintro call j v v' answer hj hv hv' hcall hrun rfl
    obtain ⟨row', hrow', hid', hrev⟩ := RevokeCall.takes_effect hh hv hcall hrun
    obtain ⟨row'', hrow'', hid'', -, hrev'⟩ := (hh.precedes hj hv' hload).rows row' hrow'
    have hnodup := hh.nodup_of_mem (List.mem_of_getElem? hload)
    obtain rfl := List.inj_on_of_nodup_map hnodup hrow'' hrow ((hid''.trans hid').trans hid.symm)
    exact hrev' hrev hrevoked

/-- A deployment with one flat tool. -/
def oneTool : DelegatedAuthorityService where
  registry := [⟨['t'], [], [], some .additive, .owner⟩]
  servedSurface := .all
  runtimeBinding := 0

def oneCommand : DelegatedCommand := ⟨⟨['t'], by decide⟩, none⟩

/-- Everyone has their personal role, and nothing is granted. -/
def personalWorld : World where
  now := 10000
  currentAuthEpoch := fun _ => 0
  resolveRolesForSubject := fun subject => .ok (.scopedTo subject subject .personal)
  grants := []

/-- Subject `1` delegates the editing of their own memories. -/
def editorCall : IssueCall where
  service := oneTool
  w₁ := personalWorld
  w₂ := personalWorld
  w₃ := personalWorld
  w₄ := personalWorld
  delegationId := 7
  source := personalContext (some 1000000)
  owner := 1
  command := oneCommand
  roleCeiling := .editor

def editorGrant : DelegationGrant :=
  ⟨7, 1, ⟨1, none⟩, 1, oneCommand, .editor, 1000000, 0, 10000, none, none⟩

def editorRow : GrantRow :=
  ⟨7, 1, 1, ['t'], none, .goal, .perspective, 1000, 0, 10, none, none, 1, none⟩

def editorWorld : World := { personalWorld with grants := [editorRow] }

lemma history_editor : History [personalWorld, editorWorld] :=
  .step (.start personalWorld rfl) rfl (@WorldStep.issue _ _ _ editorCall editorGrant
    ⟨built_personalContext _, 0, Nat.le_refl _, rfl, 0, Nat.le_refl _, rfl, 0, Nat.le_refl _, rfl,
      0, Nat.le_refl _, rfl, trivial⟩ rfl rfl)

def editorPhase : DelegatedPhase where
  authz :=
    { identity := ⟨some 1, some ⟨1, none⟩, 1, [1], some 1000000, 0, none⟩
      capabilities := ⟨.palette [.tool oneCommand.tool], .all⟩
      authPath := .delegated
      ownerRoles := some (.scopedTo 1 1 .editor)
      ownerScope := .sealed ⟨.scopedTo 1 1 .editor, ⟨1, none⟩, some 1000000, none, none⟩
      forwardedOwner := none
      defaultOwner := none }
  expiresAt := 1000000
  runtimeBinding := 0

theorem redeemed_phase_bounded_editor :
    oneTool.redeemPhase editorWorld editorWorld editorWorld editorWorld 7 1 oneCommand =
      .ok editorPhase ∧ editorWorld.now < editorPhase.expiresAt := by
  have hredeem : oneTool.redeemPhase editorWorld editorWorld editorWorld editorWorld 7 1
      oneCommand = .ok editorPhase := by decide +kernel
  have hbounded := redeemed_phase_bounded history_editor (i := 1) rfl
    ⟨1, Nat.le_refl _, rfl, 1, Nat.le_refl _, rfl, 1, Nat.le_refl _, rfl, trivial⟩ hredeem
  exact ⟨hredeem, hbounded.2.1⟩

end Proxiima.Authz

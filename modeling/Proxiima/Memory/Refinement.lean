import Proxiima.Memory.Admissions
import Proxiima.Memory.Transferring

/-!
# The memory store is serializable

Every command is verified against its effect, so every state the store reaches, together with
the answers given so far, is a run of the serial machine. What holds of serial runs holds of
every interleaving.
-/

namespace Proxiima.Memory

open ReadCommitted

variable {H : Hashes}

lemma at_of_fresh {c : Command} {σ : Side} (h : (setting H).Fresh c σ) : At H c [] σ :=
  ⟨h.cmd, h.since.le, h.writes, own_of_no_writes h.writes⟩

/-- The transaction of each command ends in its effect. -/
lemma runCommand_spec (c : Command) : Meets H c (runCommand H c) := by
  cases c with
  | ingest a publish => exact ingestCore_spec
  | derive d =>
    exact (retryCollision_spec admitDerived_spec).post fun _ _ h => h.effect
  | fork q => exact forkMemory_spec.post fun _ _ h => h.effect
  | lifecycleFact storeNumber owner schemaId =>
    exact (retryCollision_spec (ingestUnpinnedFactAt_spec storeNumber owner schemaId)).post
      fun _ _ h => h.effect
  | forget owner t kinds => exact forgetInLifecycle_spec owner t kinds
  | restore owner t kinds => exact restoreInLifecycle_spec owner t kinds
  | erase owner t => exact eraseMemory_spec owner t
  | eraseSeries owner ts => exact eraseMemorySeries_spec owner ts
  | transfer fromOwner toOwner t => exact transferToOwner_spec fromOwner toOwner t

theorem verified (H : Hashes) (c : Command) : (setting H).Verified c := by
  refine ((runCommand_spec c).pre fun σ hσ => at_of_fresh hσ).mono (fun r σ hi heff => ?_) ?_
  · exact .step hi rfl heff
  · rintro e σ hi ⟨hcmd, hrefused⟩
    refine .step hi rfl ?_
    rw [Local.ended, hcmd]
    exact .refused hrefused

/-- **Serializability**: what the store reaches is a run of the serial machine. -/
theorem run_of_reachable (H : Hashes) {processes : Processes} {s : Machine}
    (h : Reachable (system H) processes s) : Run (Effect H) s.db s.hist :=
  Setting.inv_of_reachable (S := setting H) .nil (verified H) h

end Proxiima.Memory

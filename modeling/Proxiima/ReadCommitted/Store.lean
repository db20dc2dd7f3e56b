import Mathlib.Data.List.Sigma
import Mathlib.Data.List.Dedup

/-!
# A store of rows as a log of writes

The rows of a database are kept as the log of the writes that made them, newest first: the
row under a key is what the newest write to that key left. A transaction's own writes are
a log too, and what the transaction sees is its writes in front of the committed log, so
committing is appending. Rows of different tables live under different keys, and the type
of a row depends on its key.
-/

namespace ReadCommitted

variable {K : Type} {V : K → Type}

/-- Row writes, newest first; a write of `none` deletes the row. -/
abbrev Log (V : K → Type) := List (Σ k, Option (V k))

variable [DecidableEq K]

/-- The row under `k`. -/
def get (l : Log V) (k : K) : Option (V k) := (l.dlookup k).join

@[simp] lemma get_nil (k : K) : get ([] : Log V) k = none := rfl

@[simp] lemma get_cons_self (k : K) (r : Option (V k)) (l : Log V) : get (⟨k, r⟩ :: l) k = r := by
  simp [get]

variable {k : K}

lemma get_cons_ne {k' : K} (r : Option (V k')) (l : Log V) (h : k ≠ k') :
    get (⟨k', r⟩ :: l) k = get l k := by
  simp [get, List.dlookup_cons_ne, h]

variable {l : Log V}

lemma get_append_of_notMem {ws : Log V} (h : k ∉ ws.keys) : get (ws ++ l) k = get l k := by
  simp [get, List.dlookup_append, List.dlookup_eq_none.2 h]

lemma get_append_of_mem {ws : Log V} (h : k ∈ ws.keys) (l l' : Log V) :
    get (ws ++ l) k = get (ws ++ l') k := by
  have hs := List.dlookup_isSome.2 h
  obtain ⟨r, hr⟩ := Option.isSome_iff_exists.1 hs
  simp [get, List.dlookup_append, hr]

/-- Logs that agree on a key still agree on it behind the same writes. -/
lemma get_append_congr {l' : Log V} (ws : Log V) (h : get l k = get l' k) :
    get (ws ++ l) k = get (ws ++ l') k := by
  by_cases hk : k ∈ ws.keys
  · exact get_append_of_mem hk l l'
  · rw [get_append_of_notMem hk, get_append_of_notMem hk, h]

/-- The keys that have a row, each once. -/
def live (l : Log V) : List K := l.keys.dedup.filter fun k => (get l k).isSome

lemma mem_live : k ∈ live l ↔ (get l k).isSome := by
  simp only [live, List.mem_filter, List.mem_dedup, and_iff_right_iff_imp]
  intro h
  by_contra hk
  simp [get, List.dlookup_eq_none.2 hk] at h

/-! ### Writing many rows at once -/

/-- The writes of an UPDATE or a DELETE: what `f` makes of each row it does not leave alone. -/
def updates (l : Log V) (f : ∀ k, V k → Option (Option (V k))) : Log V :=
  (live l).filterMap fun k => ((get l k).bind (f k)).map fun r => ⟨k, r⟩

variable {l : Log V} {f : ∀ k, V k → Option (Option (V k))} {k : K}

lemma mem_keys_updates : k ∈ (updates l f).keys ↔ ((get l k).bind (f k)).isSome := by
  simp only [List.keys, updates, List.map_filterMap, List.mem_filterMap, Option.map_map,
    Option.map_eq_some_iff, Function.comp_apply, Option.isSome_iff_exists]
  constructor
  · rintro ⟨k', -, r, hr, rfl⟩
    exact ⟨r, hr⟩
  · rintro ⟨r, hr⟩
    obtain ⟨x, hx, -⟩ := Option.bind_eq_some_iff.1 hr
    exact ⟨k, mem_live.2 (hx ▸ rfl), r, hr, rfl⟩

lemma get_filterMap {ks : List K} (g : ∀ k, Option (Option (V k))) (l' : Log V) :
    get ((ks.filterMap fun k => (g k).map fun r => (⟨k, r⟩ : Σ k, Option (V k))) ++ l') k =
      if k ∈ ks then (g k).getD (get l' k) else get l' k := by
  induction ks with
  | nil => simp
  | cons k' ks ih =>
    by_cases hk : k = k'
    · subst hk
      cases hg : g k <;> simp [hg, ih]
    · cases hg : g k' <;> simp [hg, ih, hk, get_cons_ne]

/-- The rows behind an UPDATE. -/
lemma get_updates (l' : Log V) :
    get (updates l f ++ l') k = ((get l k).bind (f k)).getD (get l' k) := by
  rw [updates, get_filterMap]
  split
  · rfl
  · rename_i hk
    rw [mem_live, Bool.not_eq_true, Option.isSome_eq_false_iff, Option.isNone_iff_eq_none] at hk
    simp [hk]

end ReadCommitted

import Proxiima.Blobs.Verified

/-!
# Erasing rows owes what they alone imply

The erase looks at the rows twice: it locks the keys of the rows it found, and takes the rows it
finds then. Under the owner's exclusive fence and the locks of the blobs no row joins the
selection in between, so every row it erases has its key locked.
-/

namespace Proxiima.Blobs

open ReadCommitted ReadCommitted.Guarded Prog

variable {H : Hash} {st : Stand Row Lock} {c : Command} {ls : List Lock} {d d' : Tables} {k : Key}
  {owner u b : Uuid} {sel : Selection} {r : BlobUpload} {ids : List Uuid}

lemma free_of_conflict {o o' : Option (Row k)} (h : (blobs H).Free ls k o o') {g l : Lock}
    (hg : g ∈ guards H k o o') (hl : l ∈ ls) : g.conflict l = false :=
  h.2 g (List.mem_cons_of_mem _ hg) l hl

/-! ### Owing a list of keys -/

/-- The writes are new debts of the keys in the list. -/
def Owed (H : Hash) (owed : List (ObjectStoreId × ObjectKey × Uuid)) (ws : Tables)
    (st : Stand Row Lock) : Prop :=
  ∀ k ∈ ws.keys, ∃ x ∈ owed, k = .debt x.1 x.2.1 ∧ ∃ o owner t,
    (∀ d, get (ws ++ d) (.debt x.1 x.2.1) = some (owe o owner t)) ∧
      (blobs H).Pinned st (.debt x.1 x.2.1) o

lemma wp_oweAll {owed : List (ObjectStoreId × ObjectKey × Uuid)} {t : ℕ}
    {Q : Post PUnit}
    (hdistinct : owed.Pairwise fun a b => a.1 ≠ b.1 ∨ a.2.1 ≠ b.2.1)
    (hfresh : ∀ x ∈ owed, .debt x.1 x.2.1 ∉ st.writes.keys)
    (h : ∀ ws st', st'.writes = ws ++ st.writes → Owed H owed ws st' → st.held ⊆ st'.held →
      st.seen ⊆ st'.seen → Q ⟨⟩ st') :
    (blobs H).Wp (owed.forM fun (store, key, o) => oweKey store (some o) t key) Q st := by
  induction owed generalizing st with
  | nil => exact h [] st rfl (fun _ hk => nomatch hk) (List.Subset.refl _) (List.Subset.refl _)
  | cons x xs ih =>
    obtain ⟨hx, hxs⟩ := List.pairwise_cons.1 hdistinct
    have hne : ∀ y ∈ xs, Key.debt y.1 y.2.1 ≠ .debt x.1 x.2.1 := by
      intro y hy heq
      obtain ⟨h1, h2⟩ : y.1 = x.1 ∧ y.2.1 = x.2.1 := by simpa using heq
      exact (hx y hy).elim (fun hn => hn h1.symm) fun hn => hn h2.symm
    refine wp_bind.2 (wp_oweKey (hfresh x List.mem_cons_self) fun o st₁ hw₁ hheld hseen hpin => ?_)
    refine ih hxs (fun y hy hk => ?_) fun ws st₂ hw₂ hw hheld₂ hseen₂ => ?_
    · rw [hw₁] at hk
      rcases List.mem_cons.1 hk with heq | hk
      · exact hne y hy heq
      · exact hfresh y (List.mem_cons_of_mem _ hy) hk
    · refine h (ws ++ [⟨.debt x.1 x.2.1, some (owe o (some x.2.2) t)⟩]) st₂
        (by rw [hw₂, hw₁, List.append_assoc]; rfl) (fun k hk => ?_)
        (List.Subset.trans hheld hheld₂) (List.Subset.trans hseen hseen₂)
      by_cases hkws : k ∈ ws.keys
      · obtain ⟨y, hy, hkey, o', owner, t', hget, hpin'⟩ := hw k hkws
        exact ⟨y, List.mem_cons_of_mem _ hy, hkey, o', owner, t',
          fun d => by rw [List.append_assoc]; exact hget _, hpin'⟩
      · obtain rfl : k = .debt x.1 x.2.1 := by
          simp only [List.keys, List.map_append, List.mem_append] at hk
          exact List.mem_singleton.1 (hk.resolve_left hkws)
        refine ⟨x, List.mem_cons_self, rfl, o, some x.2.2, t, fun d => ?_, hpin.of_seen hseen₂⟩
        rw [List.append_assoc, get_append_of_notMem hkws, List.singleton_append, get_cons_self]

/-! ### The rows of a selection -/

/-- What the erase holds while it looks for its rows. -/
structure Holds (H : Hash) (owner : Uuid) (sel : Selection) (ls : List Lock) : Prop where
  fence : ownerFence H owner true ∈ ls
  blobs : ∀ ids, sel = .blobs ids → ∀ b ∈ ids, .row (.blob b) ∈ ls

/-- A row of the selection was there before, under the same object. -/
lemma selected_before (hls : Holds H owner sel ls) (hf : (blobs H).Follows ls d d')
    (hr : get d' (.upload u) = some (.row r)) (hsel : sel.uploads owner r = true) :
    ∃ r₁, get d (.upload u) = some (.row r₁) ∧ sel.uploads owner r₁ = true ∧
      r₁.minting u = r.minting u := by
  refine hf.keeps (k := .upload u) (P := fun o => ∀ r, o = some (.row r) →
    sel.uploads owner r = true → ∃ r₁, get d (.upload u) = some (.row r₁) ∧
      sel.uploads owner r₁ = true ∧ r₁.minting u = r.minting u)
    (fun r hr hsel => ⟨r, hr, hsel, rfl⟩) (fun o o' ih hfree r' ho' hsel' => ?_) r hr hsel
  subst ho'
  match o, hfree with
  | none, hfree =>
    -- a new row is the owner's only under the shared fence, and refers to no blob
    obtain ⟨-, -, -, hblob⟩ := hfree.1
    cases sel with
    | owner =>
      obtain rfl : r'.ownerId = owner := by simpa [Selection.uploads] using hsel'
      have := free_of_conflict hfree (List.mem_singleton_self _) hls.fence
      simp [ownerFence, TableLock.conflict] at this
    | blobs ids => simp [Selection.uploads, hblob] at hsel'
  | some (.erased store), hfree => exact hfree.1.elim
  | some (.row r₀), hfree =>
    have hlegal : r₀.Legal r' := hfree.1
    have hmint : r₀.minting u = r'.minting u := by
      rw [BlobUpload.minting, BlobUpload.minting, hlegal.mount]
    rw [← hmint]
    refine ih r₀ rfl ?_
    cases sel with
    | owner => simpa [Selection.uploads, hlegal.owner] using hsel'
    | blobs ids =>
      by_cases hsame : r'.blobId = r₀.blobId
      · simpa [Selection.uploads, hsame] using hsel'
      · obtain ⟨b, hb, hids⟩ := Option.any_eq_true _ _ |>.1 hsel'
        have hg : .share (.blob b) ∈ guards H (.upload u) (some (.row r₀)) (some (.row r')) := by
          change _ ∈ if r'.blobId = r₀.blobId then [] else _
          rw [if_neg hsame, hb]
          exact List.mem_singleton_self _
        have := free_of_conflict hfree hg (hls.blobs ids rfl b (of_decide_eq_true hids))
        simp [TableLock.conflict] at this

/-- A row whose key is locked is not erased by others. -/
lemma kept_row (hf : (blobs H).Follows ls d d') (hr : get d (.upload u) = some (.row r))
    (hkey : objectKeyLock H (.objects (r.minting u)) ∈ ls) :
    ∃ r', get d' (.upload u) = some (.row r') ∧ r'.objectStore = r.objectStore ∧
      r'.minting u = r.minting u := by
  refine hf.keeps (k := .upload u) (P := fun o => ∃ r', o = some (.row r') ∧
    r'.objectStore = r.objectStore ∧ r'.minting u = r.minting u) ⟨r, hr, rfl, rfl⟩ ?_
  rintro o o' ⟨r', rfl, hstore, hmint⟩ hfree
  match o', hfree with
  | none, hfree => exact hfree.1.elim
  | some (.row r''), hfree =>
    have hlegal : r'.Legal r'' := hfree.1
    refine ⟨r'', rfl, hlegal.store.trans hstore, ?_⟩
    rw [← hmint, BlobUpload.minting, BlobUpload.minting, hlegal.mount]
  | some (.erased store), hfree =>
    have := free_of_conflict hfree (List.mem_singleton_self _) (hmint ▸ hkey)
    simp [objectKeyLock, TableLock.conflict] at this

/-- The owner's blobs stay under the owner's exclusive fence. -/
lemma covers_blob (h : ownerFence H owner true ∈ ls) {row : Blob} (hrow : row.ownerId = owner) :
    (blobs H).Covers ls (.blob b) (some row) := by
  intro o' hfree
  match o', hfree with
  | some _, hfree => exact hfree.1.elim
  | none, hfree =>
    have := free_of_conflict hfree (List.mem_singleton_self _) h
    simp [ownerFence, hrow, TableLock.conflict] at this

lemma mem_blobRows {v : Tables} :
    b ∈ sel.blobRows owner v ↔
      ∃ row, get v (.blob b) = some row ∧ row.ownerId = owner ∧ sel.holds b = true := by
  simp only [Selection.blobRows, List.mem_filterMap]
  constructor
  · rintro ⟨k, -, hk⟩
    split at hk
    · obtain ⟨row, hrow, hif⟩ := Option.bind_eq_some_iff.1 hk
      obtain ⟨hcond, heq⟩ := Option.ite_none_right_eq_some.1 hif
      obtain rfl := Option.some.inj heq
      exact ⟨row, hrow, hcond⟩
    · cases hk
  · rintro ⟨row, hrow, hcond⟩
    exact ⟨.blob b, mem_live.2 (by rw [hrow]; rfl), by simp [hrow, hcond]⟩

/-- No row refers to a blob that is locked, if none did before. -/
lemma unreferenced (hf : (blobs H).Follows ls d d') (hb : .row (.blob b) ∈ ls)
    (h : ∀ r, get d (.upload u) = some (.row r) → r.blobId ≠ some b)
    (hr : get d' (.upload u) = some (.row r)) : r.blobId ≠ some b := by
  refine hf.keeps (k := .upload u) (P := fun o => ∀ r, o = some (.row r) → r.blobId ≠ some b) h
    (fun o o' ih hfree r' ho' hblob => ?_) r hr
  subst ho'
  match o, hfree with
  | none, hfree => simp [hfree.1.2.2.2] at hblob
  | some (.erased store), hfree => exact hfree.1.elim
  | some (.row r₀), hfree =>
    have hne : r'.blobId ≠ r₀.blobId := fun heq => ih r₀ rfl (heq ▸ hblob)
    have hg : .share (.blob b) ∈ guards H (.upload u) (some (.row r₀)) (some (.row r')) := by
      change _ ∈ if r'.blobId = r₀.blobId then [] else _
      rw [if_neg hne, hblob]
      exact List.mem_singleton_self _
    have := free_of_conflict hfree hg hb
    simp [TableLock.conflict] at this

/-! ### The writes -/

def erasures (rows : List (Uuid × BlobUpload)) : Tables :=
  rows.map fun (u, r) => ⟨.upload u, some (.erased r.objectStore)⟩

variable {rows : List (Uuid × BlobUpload)}

lemma mem_keys_erasures : k ∈ (erasures rows).keys ↔ ∃ u r, (u, r) ∈ rows ∧ k = .upload u := by
  simp [erasures, List.keys, eq_comm]

lemma get_erasures (hfun : ∀ r', (u, r') ∈ rows → r' = r) (hmem : (u, r) ∈ rows) (l : Tables) :
    get (erasures rows ++ l) (.upload u) = some (.erased r.objectStore) := by
  induction rows with
  | nil => cases hmem
  | cons x rows ih =>
    obtain ⟨u', r'⟩ := x
    by_cases hu : u = u'
    · subst hu
      obtain rfl := hfun r' List.mem_cons_self
      exact get_cons_self _ _ _
    · have hmem' : (u, r) ∈ rows := (List.mem_cons.1 hmem).resolve_left fun heq =>
        hu (Prod.mk.inj heq).1
      refine Eq.trans (get_cons_ne _ _ (by simpa using hu)) ?_
      exact ih (fun r'' hr'' => hfun r'' (List.mem_cons_of_mem _ hr'')) hmem'

def deletions (ids : List Uuid) : Tables := ids.map fun b => ⟨.blob b, none⟩

lemma mem_keys_deletions : k ∈ (deletions ids).keys ↔ ∃ b ∈ ids, k = .blob b := by
  simp [deletions, List.keys, eq_comm]

lemma get_deletions (hb : b ∈ ids) (l : Tables) : get (deletions ids ++ l) (.blob b) = none := by
  induction ids with
  | nil => cases hb
  | cons b' ids ih =>
    by_cases heq : b = b'
    · subst heq
      exact get_cons_self _ _ _
    · refine Eq.trans (get_cons_ne _ _ (by simpa using heq)) ?_
      exact ih ((List.mem_cons.1 hb).resolve_left heq)

/-- The keys a valid row implies are its own. -/
lemma impliedKeys_valid (hmount : r.mountedFrom = none)
    (hkey : r.objectKey = .objects u ∨ r.objectKey = .pending u) {k : ObjectKey × KeyKind}
    (hk : k ∈ impliedKeys u r) : k.1 = .objects u ∨ k.1 = .pending u := by
  have hmint : r.minting u = u := by rw [BlobUpload.minting, hmount, Option.getD_none]
  have hrec : ¬ (r.objectKey ≠ .objects u ∧ r.objectKey ≠ .pending u) := by tauto
  rw [impliedKeys, hmint, if_pos hmount, if_neg hrec] at hk
  simp only [List.append_nil, List.mem_cons, List.not_mem_nil, or_false] at hk
  rcases hk with rfl | rfl
  · exact .inl rfl
  · exact .inr rfl

lemma mem_orphanedKeys {v : Tables} {selected : Uuid → BlobUpload → Bool}
    {x : ObjectStoreId × ObjectKey × Uuid} (h : x ∈ orphanedKeys v selected) :
    ∃ u r k, upload v u = some r ∧ selected u r = true ∧ k ∈ impliedKeys u r ∧ x.2.1 = k.1 := by
  simp only [orphanedKeys, List.mem_flatMap, List.mem_filter, List.mem_map] at h
  obtain ⟨⟨u, r⟩, ⟨hr, hsel⟩, k, ⟨hk, -⟩, rfl⟩ := h
  exact ⟨u, r, k, mem_uploads.1 hr, hsel, hk, rfl⟩

/-- All that the erase writes: the debts, the erased rows, and the blobs that go. -/
def eraseLog (ids : List Uuid) (rows : List (Uuid × BlobUpload)) (ws : Tables) : Tables :=
  deletions ids ++ (erasures rows ++ ws)

section EraseLog

variable {ids : List Uuid} {rows : List (Uuid × BlobUpload)} {ws l : Tables} {u : Uuid}
  {r : BlobUpload}

lemma get_eraseLog (hk : ∀ b, k ≠ .blob b) :
    get (eraseLog ids rows ws ++ l) k = get (erasures rows ++ (ws ++ l)) k := by
  rw [eraseLog, List.append_assoc, List.append_assoc]
  refine get_append_of_notMem fun hmem => ?_
  obtain ⟨b, -, rfl⟩ := mem_keys_deletions.1 hmem
  exact hk b rfl

lemma get_eraseLog_debt {store : ObjectStoreId} {key : ObjectKey} :
    get (eraseLog ids rows ws ++ l) (.debt store key) = get (ws ++ l) (.debt store key) := by
  rw [get_eraseLog (by simp), get_append_of_notMem fun hk => ?_]
  obtain ⟨u, r, -, heq⟩ := mem_keys_erasures.1 hk
  cases heq

lemma get_eraseLog_row (hfun : ∀ r', (u, r') ∈ rows → r' = r) (hr : (u, r) ∈ rows) :
    get (eraseLog ids rows ws ++ l) (.upload u) = some (.erased r.objectStore) := by
  rw [get_eraseLog (by simp)]
  exact get_erasures hfun hr _

variable (hws : ∀ k ∈ ws.keys, ∃ store key, k = .debt store key)

include hws in
lemma get_eraseLog_other (hno : ∀ r, (u, r) ∉ rows) :
    get (eraseLog ids rows ws ++ l) (.upload u) = get l (.upload u) := by
  rw [get_eraseLog (by simp), get_append_of_notMem fun hk => ?_, get_append_of_notMem fun hk => ?_]
  · obtain ⟨_, _, heq⟩ := hws _ hk
    cases heq
  · obtain ⟨u', r, hr, heq⟩ := mem_keys_erasures.1 hk
    obtain rfl : u = u' := by simpa using heq
    exact hno r hr

variable (hfun : ∀ u r r', (u, r) ∈ rows → (u, r') ∈ rows → r' = r)

include hws hfun in
/-- The foreign key was checked, and the lock of the blob keeps new references out. -/
lemma unreferenced_eraseLog (hf : (blobs H).Follows ls d d') (hb : b ∈ ids)
    (hlock : .row (.blob b) ∈ ls)
    (hfk : ¬ ((uploads (eraseLog ids rows ws ++ d)).any
      fun (_, r) => r.blobId.any (· ∈ ids)) = true)
    (hr : upload (eraseLog ids rows ws ++ d') u = some r) : r.blobId ≠ some b := by
  rw [upload_eq_some] at hr
  by_cases hmine : ∃ r', (u, r') ∈ rows
  · obtain ⟨r', hr'⟩ := hmine
    cases (get_eraseLog_row (fun r'' => hfun u r' r'' hr') hr').symm.trans hr
  · have hno : ∀ r, (u, r) ∉ rows := fun r' h => hmine ⟨r', h⟩
    rw [get_eraseLog_other hws hno] at hr
    refine unreferenced hf hlock (fun r' hr' hblob => hfk ?_) hr
    refine List.any_eq_true.2 ⟨(u, r'), ?_, by simp [hblob, hb]⟩
    rw [mem_uploads, upload_eq_some, get_eraseLog_other hws hno]
    exact hr'

include hfun in
omit hws in
/-- Every key of the log is changed as the erase may change it. -/
lemma changed_eraseLog (hack : c.acknowledges = none)
    (hblobs : ∀ b ∈ ids, ∃ row, get d (.blob b) = some row)
    (hrefs : ∀ b ∈ ids, ∀ u r, upload (eraseLog ids rows ws ++ d) u = some r → r.blobId ≠ some b)
    (hrows : ∀ u r, (u, r) ∈ rows → ∃ r', get d (.upload u) = some (.row r'))
    (howed : ∀ k ∈ ws.keys, ∃ store key owner t, k = .debt store key ∧
      get (ws ++ d) (.debt store key) = some (owe (get d (.debt store key)) owner t) ∧
      ∀ u, key = .objects u → ∃ r, (u, r) ∈ rows) (hk : k ∈ (eraseLog ids rows ws).keys) :
    Changed c (eraseLog ids rows ws ++ d) k (get d k) (get (eraseLog ids rows ws ++ d) k) := by
  obtain hk | hk | hk : k ∈ (deletions ids).keys ∨ k ∈ (erasures rows).keys ∨ k ∈ ws.keys := by
    simpa [eraseLog, List.keys] using hk
  · obtain ⟨b, hb, rfl⟩ := mem_keys_deletions.1 hk
    obtain ⟨row, hrow⟩ := hblobs b hb
    have hgone : get (eraseLog ids rows ws ++ d) (.blob b) = none := by
      rw [eraseLog, List.append_assoc]
      exact get_deletions hb _
    rw [hgone, hrow]
    exact hrefs b hb
  · obtain ⟨u, r, hr, rfl⟩ := mem_keys_erasures.1 hk
    obtain ⟨r', hr'⟩ := hrows u r hr
    rw [get_eraseLog_row (fun r'' => hfun u r r'' hr) hr, hr']
    trivial
  · obtain ⟨store, key, owner, t, rfl, hget, hdead⟩ := howed k hk
    rw [get_eraseLog_debt, hget]
    refine changed_owe hack fun u hu => .inl ?_
    obtain ⟨r, hr⟩ := hdead u hu
    exact ⟨_, get_eraseLog_row (fun r'' => hfun u r r'' hr) hr, rfl⟩

end EraseLog

/-! ### The erase -/

lemma wp_lockSelection {Q : Post PUnit}
    (h : ∀ st', st'.Extends st →
      (∀ ids, sel = .blobs ids → ∀ b ∈ ids, .row (.blob b) ∈ st'.held) → Q ⟨⟩ st') :
    (blobs H).Wp (match sel with
      | .owner => pure ⟨⟩
      | .blobs ids => (ids.map fun b => (.row (.blob b) : Lock)).forM fun l => lock l) Q st := by
  cases sel with
  | owner => exact h st (.refl st) fun _ heq => nomatch heq
  | blobs ids =>
    refine wp_lockAll fun st' hst hall _ => h st' hst ?_
    rintro _ ⟨⟩ b hb
    exact hall (List.mem_map_of_mem hb)

lemma Holds.chosen (hfence : ownerFence H owner true ∈ ls)
    (hblobs : ∀ ids, sel = .blobs ids → ∀ b ∈ ids, .row (.blob b) ∈ ls)
    (hids : ∀ b ∈ ids, sel.holds b = true) : Holds H owner (sel.chosen ids) ls := by
  refine ⟨hfence, fun ids' heq b hb => ?_⟩
  cases sel with
  | owner => cases heq
  | blobs ids₀ =>
    obtain rfl : ids = ids' := by simpa [Selection.chosen] using heq
    exact hblobs ids₀ rfl b (of_decide_eq_true (hids b hb))

/-- The second half of the erase, where the rows and the blobs are known and locked. -/
lemma wp_eraseRows {chosen : Selection} {t : ℕ} (hw : st.writes = [])
    (hrows : ∀ u r, upload d u = some r → chosen.uploads owner r = true →
      objectKeyLock H (.objects (r.minting u)) ∈ st.held)
    (hids : ∀ b ∈ ids, ∃ row, (blobs H).Pinned st (.blob b) (some row) ∧ row.ownerId = owner)
    (hfence : ownerFence H owner true ∈ st.held) (hack : c.acknowledges = none)
    (hans : ∀ resp during, Answered c resp during) (f : List ColdPurgeEntry → Response) :
    (blobs H).Wp (eraseRows owner chosen ids t d)
      (fun owed => (blobs H).Ending c (f owed)) (st.see d) := by
  set rows := (uploads d).filter fun (_, r) => chosen.uploads owner r with hrowsdef
  have hmem : ∀ u r, (u, r) ∈ rows ↔ upload d u = some r ∧ chosen.uploads owner r = true :=
    fun u r => by simp [hrowsdef, mem_uploads]
  have hfun : ∀ u r r', (u, r) ∈ rows → (u, r') ∈ rows → r' = r := fun u r r' h h' =>
    Option.some.inj (((hmem u r').1 h').1.symm.trans ((hmem u r).1 h).1)
  simp only [eraseRows, wp_bind]
  refine wp_oweAll (List.pairwise_pwFilter _) (by simp [hw]) fun ws st₁ hw₁ howed hheld hseen => ?_
  have hws : ∀ k ∈ ws.keys, ∃ store key, k = .debt store key := fun k hk => by
    obtain ⟨x, -, rfl, -⟩ := howed k hk
    exact ⟨_, _, rfl⟩
  -- the rows have not been erased meanwhile
  have hkept : ∀ {d₁}, (blobs H).Possible st₁ d₁ → ∀ u r, (u, r) ∈ rows →
      ∃ r', get d₁ (.upload u) = some (.row r') ∧ r'.objectStore = r.objectStore ∧
        r'.minting u = r.minting u := by
    intro d₁ hd₁ u r hr
    obtain ⟨hget, hsel⟩ := (hmem u r).1 hr
    have hfollows : (blobs H).Follows st.held d d₁ := hd₁ (st.held, d) (hseen List.mem_cons_self)
    exact kept_row hfollows (upload_eq_some.1 hget) (hrows u r hget hsel)
  refine wp_write.2 fun d₁ hd₁ => ⟨fun k hk => ?_, ?_⟩
  · obtain ⟨u, r, hr, rfl⟩ := mem_keys_erasures.1 hk
    obtain ⟨r', hr', hstore, hmint⟩ := hkept hd₁ u r hr
    have hget := get_erasures (fun r'' h'' => hfun u r r'' hr h'') hr (st₁.writes ++ d₁)
    obtain ⟨hget₀, hsel⟩ := (hmem u r).1 hr
    rw [erasures] at hget
    rw [hget, hr']
    refine ⟨List.cons_subset.2 ⟨List.mem_append_right _ (hheld ?_), List.nil_subset _⟩, hstore.symm⟩
    rw [hmint]
    exact hrows u r hget₀ hsel
  set st₂ := (blobs H).put st₁ (erasures rows) d₁
  change (blobs H).Wp (write (deletions ids)) _ st₂
  have hseen₂ : st.seen ⊆ st₂.seen := fun q hq =>
    List.mem_cons_of_mem _ (hseen (List.mem_cons_of_mem _ hq))
  refine wp_write.2 fun d₂ hd₂ => ⟨fun k hk => ?_, ?_⟩
  · obtain ⟨b, hb, rfl⟩ := mem_keys_deletions.1 hk
    obtain ⟨row, hpin, rfl⟩ := hids b hb
    rw [get_deletions hb, hpin.of_seen hseen₂ d₂ hd₂]
    refine ⟨List.cons_subset.2 ⟨List.mem_append_right _ ?_, List.nil_subset _⟩, trivial⟩
    exact List.mem_append_right _ (hheld hfence)
  set st₃ := (blobs H).put st₂ (deletions ids) d₂
  have hw₃ : st₃.writes = eraseLog ids rows ws := by
    change deletions ids ++ (erasures rows ++ st₁.writes) = _
    rw [hw₁, Stand.writes_see, hw, List.append_nil, eraseLog]
  simp only [wp_view, wp_failIf, wp_pure]
  intro d₃ hd₃ hfk
  refine ending_of_changed (fun _ _ => hans _ _) fun d₄ hd₄ hvalid k hk => ?_
  obtain ⟨hfollows₃, hd₄'⟩ := possible_see.1 hd₄
  have hd₄₁ : (blobs H).Possible st₁ d₄ := fun q hq =>
    hd₄' q (List.mem_cons_of_mem _ (List.mem_cons_of_mem _ hq))
  rw [hw₃] at hfk
  rw [Stand.writes_see, hw₃] at hk ⊢
  refine changed_eraseLog hfun hack (fun b hb => ?_) (fun b hb u r => ?_) (fun u r hr => ?_)
    (fun k hk => ?_) hk
  · obtain ⟨row, hpin, -⟩ := hids b hb
    exact ⟨row, hpin.of_seen hseen₂ d₄ fun q hq => hd₄' q (List.mem_cons_of_mem _ hq)⟩
  · refine unreferenced_eraseLog hws hfun hfollows₃ hb (List.mem_append_left _ ?_) hfk
    exact List.mem_map_of_mem (mem_keys_deletions.2 ⟨b, hb, rfl⟩)
  · obtain ⟨r', hr', -⟩ := hkept hd₄₁ u r hr
    exact ⟨r', hr'⟩
  · obtain ⟨x, hx, rfl, o, ow, t', hget, hpin⟩ := howed k hk
    refine ⟨_, _, ow, t', rfl, by rw [hpin d₄ hd₄₁]; exact hget d₄, fun u hu => ?_⟩
    -- only the keys of rows that are erased here are owed
    obtain ⟨u', r, k', hr, hsel, hk', heq⟩ := mem_orphanedKeys (List.pwFilter_subset _ hx)
    obtain ⟨hmount, hkey⟩ := hvalid (_, d) (List.mem_cons_of_mem _ (List.mem_cons_of_mem _
      (List.mem_cons_of_mem _ (hseen List.mem_cons_self)))) u' r hr
    rcases impliedKeys_valid hmount hkey hk' with h | h
    · obtain rfl : u = u' := by simpa using (hu.symm.trans heq).trans h
      exact ⟨r, (hmem u r).2 ⟨hr, hsel⟩⟩
    · cases (hu.symm.trans heq).trans h

lemma correct_eraseBlobs (owner : Uuid) (sel : Selection) :
    (blobs H).Correct (.eraseBlobs owner sel) := by
  change (blobs H).Wp (body H (.eraseBlobs owner sel)) _ _
  simp only [body, eraseBlobs, wp_bind, wp_lock, wp_pure]
  refine wp_now fun t => wp_lockSelection fun st₁ hst₁ hblobs => ?_
  simp only [wp_view]
  intro d₁ hd₁
  have hw₁ : st₁.writes = [] := hst₁.writes
  have hfence : ownerFence H owner true ∈ st₁.held := hst₁.held List.mem_cons_self
  rw [hw₁, List.nil_append]
  set ids := sel.blobRows owner d₁
  have hids : ∀ b ∈ ids, ∃ row, get d₁ (.blob b) = some row ∧ row.ownerId = owner ∧
      sel.holds b = true := fun b hb => mem_blobRows.1 hb
  have hholds : Holds H owner (sel.chosen ids) st₁.held :=
    .chosen hfence hblobs fun b hb => (hids b hb).choose_spec.2.2
  refine wp_lockObjectKeys fun st₂ hst₂ hkeys _ => fun d₂ hd₂ => ?_
  have hw₂ : st₂.writes = [] := hst₂.writes.trans hw₁
  have hfollows : (blobs H).Follows st₁.held d₁ d₂ :=
    hd₂ (st₁.held, d₁) (hst₂.seen List.mem_cons_self)
  rw [hw₂, List.nil_append]
  refine wp_eraseRows (c := .eraseBlobs owner sel) hw₂ (fun u r hr hsel => ?_) (fun b hb => ?_)
    (hst₂.held hfence) rfl (fun _ _ => trivial) .owed
  · obtain ⟨r₁, hr₁, hsel₁, hmint⟩ := selected_before hholds hfollows (upload_eq_some.1 hr) hsel
    refine hkeys (List.mem_map.2 ⟨uploadedBlobObjectKey (r₁.minting u), ?_, by
      rw [hmint]; rfl⟩)
    refine List.mem_flatMap.2
      ⟨(u, r₁), List.mem_filter.2 ⟨mem_uploads.2 (upload_eq_some.2 hr₁), ?_⟩, ?_⟩
    · exact hsel₁
    · simp
  · obtain ⟨row, hrow, howner, -⟩ := hids b hb
    refine ⟨row, fun d hd => ?_, howner⟩
    rw [← hrow]
    refine (hd (st₁.held, d₁) (hst₂.seen List.mem_cons_self)).same ?_
    rw [hrow]
    exact covers_blob hfence howner

/-- **Every transaction of the blob system ends in its effect.** -/
theorem blobs_correct (H : Hash) : ∀ c, (blobs H).Correct c
  | .prepare scope store owner u req => correct_prepare scope store owner u req
  | .loadUpload scope owner u => correct_loadUpload scope owner u
  | .loadStaged scope owner u blob => correct_loadStaged scope owner u blob
  | .markExpired scope store owner u => correct_markExpired scope store owner u
  | .stageLocator scope store owner u loaded p => correct_stageLocator scope store owner u loaded p
  | .abort scope store owner u => correct_abort scope store owner u
  | .finish scope owner u blob => correct_finish scope owner u blob
  | .completeAsFact scope owner u citation => correct_completeAsFact scope owner u citation
  | .sweepCandidates store limit => correct_sweepCandidates store limit
  | .expireOne store owner u => correct_expireOne store owner u
  | .oweEnded store owner implied => correct_oweEnded store owner implied
  | .eraseBlobs owner sel => correct_eraseBlobs owner sel
  | .observe drain store key => correct_observe drain store key
  | .clear delete store key version => correct_clear delete store key version
  | .recordFailure delete store key version backoff error =>
    correct_recordFailure delete store key version backoff error
  | .dueKeys store batch => correct_dueKeys store batch

end Proxiima.Blobs

import Proxiima.Codes.Digits
import Proxiima.MemoryUuid

/-!
# Runs of the id generator

The ids one generator mints, call after call, whatever its clock says. What carries a run is the
upper half of an id: timestamp, version and counter. After a mint the generator remembers the
timestamp and counter of the id, every later mint is past them, and a refused mint remembers
nothing. The bytes of an id are its digits to base 256, so ids compare by bytes as by numbers.
-/

namespace Proxiima

/-! ### Byte order -/

/-- The last `n` bytes of an id, most significant first. -/
abbrev bytesOf (n id : ℕ) : List ℕ := Codes.digits 256 n id

/-! ### Calls -/

/-- One call of `mint`: 16 random bytes, and a floor of 16 bytes. -/
structure MintCall where
  clockMillis : UInt64
  random : BitVec 128
  storeNumber : UInt16
  floor : Option (BitVec 128)
  deriving DecidableEq

/-- The id, or none, and the generator afterwards: a refused mint has not touched it. -/
def Generator.call (g : Generator) (c : MintCall) : Option ℕ × Generator :=
  match g.mint c.clockMillis.toNat c.random.toNat c.storeNumber.toNat
    (c.floor.map BitVec.toNat) with
  | some (id, g') => (some id, g')
  | none => (none, g)

/-- What the calls return, in order. -/
def Generator.run (g : Generator) : List MintCall → List (Option ℕ)
  | [] => []
  | c :: cs => (g.call c).1 :: (g.call c).2.run cs

/-- The generator after the calls. -/
def Generator.after (g : Generator) (cs : List MintCall) : Generator :=
  cs.foldl (fun g c => (g.call c).2) g

/-- The version nibble of a UUID. -/
def uuidVersion (id : ℕ) : ℕ := id / 2 ^ 76 % 2 ^ 4

/-- The two variant bits of a UUID. -/
def uuidVariant (id : ℕ) : ℕ := id / 2 ^ 62 % 2 ^ 2

/-- The id lies at or below what the generator remembers. -/
def Generator.Covers (g : Generator) (id : ℕ) : Prop :=
  ∃ p, g.previous = some p ∧ id / 2 ^ 64 ≤ p.1 * 2 ^ 16 + 2 ^ 15 + p.2

section Call

variable {g : Generator} {c : MintCall} {cs : List MintCall} {id id' : ℕ}

/-- A call that returns an id minted it, and remembers its timestamp and counter. -/
lemma call_some (h : (g.call c).1 = some id) :
    g.mint c.clockMillis.toNat c.random.toNat c.storeNumber.toNat (c.floor.map BitVec.toNat) =
        some (id, (g.call c).2) ∧
      (g.call c).2.previous = some (g.next c.clockMillis.toNat c.random.toNat
        (c.floor.map BitVec.toNat)) := by
  unfold Generator.call at h ⊢
  split at h
  · rename_i id' g' hmint
    obtain rfl := Option.some.inj h
    refine ⟨hmint, ?_⟩
    simp only [Generator.mint] at hmint
    split at hmint
    · cases hmint
    · obtain ⟨-, rfl⟩ := by simpa using hmint
      rfl
  · cases h

lemma call_none (h : (g.call c).1 = none) : (g.call c).2 = g := by
  unfold Generator.call at h ⊢
  split at h
  · cases h
  · rfl

lemma later_previous (p : ℕ × ℕ) (b : Option (ℕ × ℕ)) :
    ∃ q, later (some p) b = some q ∧ (p.1 < q.1 ∨ p.1 = q.1 ∧ p.2 ≤ q.2) := by
  rcases b with _ | b
  · exact ⟨p, rfl, .inr ⟨rfl, le_rfl⟩⟩
  · rw [later]
    split
    · exact ⟨b, rfl, by omega⟩
    · exact ⟨p, rfl, .inr ⟨rfl, le_rfl⟩⟩

/-- A minted id is covered afterwards. -/
lemma covers_call (h : (g.call c).1 = some id) : (g.call c).2.Covers id := by
  obtain ⟨hmint, hprevious⟩ := call_some h
  obtain ⟨-, rfl⟩ := mint_eq hmint
  exact ⟨_, hprevious, (layout_div _ _ _ _).le⟩

/-- The next mint is past every id the generator covers. -/
lemma Generator.Covers.lt_call (hc : g.Covers id) (h : (g.call c).1 = some id') : id < id' := by
  obtain ⟨p, hp, hle⟩ := hc
  obtain ⟨-, rfl⟩ := mint_eq (call_some h).1
  obtain ⟨q, hq, hpq⟩ := later_previous p ((c.floor.map BitVec.toNat).map floorOf)
  rw [← hp] at hq
  have hnext := next_later c.clockMillis.toNat c.random.toNat hq
  have hdiv := layout_div (g.next c.clockMillis.toNat c.random.toNat (c.floor.map BitVec.toNat)).1
    (g.next c.clockMillis.toNat c.random.toNat (c.floor.map BitVec.toNat)).2
    c.storeNumber.toNat c.random.toNat
  have hfits := g.fits p hp
  have hfits' := later_fits g.fits (floor_fits (c.floor.map BitVec.toNat)) q hq
  unfold maxCounter at hfits hfits'
  omega

/-- What a generator covers it still covers after a call. -/
lemma Generator.Covers.call (hc : g.Covers id) (c : MintCall) : (g.call c).2.Covers id := by
  cases h : (g.call c).1 with
  | none => rwa [call_none h]
  | some id' =>
    have hlt := hc.lt_call h
    obtain ⟨p, hp, hle⟩ := covers_call h
    exact ⟨p, hp, (Nat.div_le_div_right hlt.le).trans hle⟩

/-- Every id of a run is past the ids covered before it. -/
lemma Generator.Covers.lt_run (hc : g.Covers id) (h : some id' ∈ g.run cs) : id < id' := by
  induction cs generalizing g with
  | nil => cases h
  | cons c cs ih =>
    rcases List.mem_cons.1 h with heq | h
    · exact hc.lt_call heq.symm
    · exact ih (hc.call c) h

/-- **Order**: the ids of a run grow. -/
lemma run_pairwise (g : Generator) (cs : List MintCall) :
    (g.run cs).Pairwise fun a b => ∀ id id', a = some id → b = some id' → id < id' := by
  induction cs generalizing g with
  | nil => exact .nil
  | cons c cs ih =>
    refine List.pairwise_cons.2 ⟨fun b hb id id' ha hb' => ?_, ih _⟩
    exact (covers_call ha).lt_run (hb' ▸ hb)

lemma run_append (g : Generator) (cs cs' : List MintCall) :
    g.run (cs ++ cs') = g.run cs ++ (g.after cs).run cs' := by
  induction cs generalizing g with
  | nil => rfl
  | cons c cs ih => exact congrArg _ (ih _)

lemma run_length (g : Generator) (cs : List MintCall) : (g.run cs).length = cs.length := by
  induction cs generalizing g with
  | nil => rfl
  | cons c cs ih => exact congrArg _ (ih _)

/-- An answer of a run is that of the generator after the calls before. -/
lemma run_getElem? {i : ℕ} {o : Option ℕ} (h : cs[i]? = some c) (ho : (g.run cs)[i]? = some o) :
    ((g.after (cs.take i)).call c).1 = o := by
  induction cs generalizing g i with
  | nil => cases h
  | cons d cs ih =>
    cases i with
    | zero =>
      obtain rfl := Option.some.inj h
      exact Option.some.inj ho
    | succ i => exact ih h ho

/-- **A mint is above its floor**, whatever version the floor has up to 8. -/
lemma call_above_floor {f : BitVec 128} (hf : c.floor = some f) (hversion : uuidVersion f.toNat ≤ 8)
    (h : (g.call c).1 = some id) : f.toNat < id := by
  obtain ⟨-, rfl⟩ := mint_eq (call_some h).1
  rw [hf, Option.map_some]
  obtain ⟨p, hp, hfp⟩ := later_floor g.previous (floorOf f.toNat)
  have hnext := next_later c.clockMillis.toNat c.random.toNat
    (show later g.previous ((some f.toNat).map floorOf) = some p from hp)
  have hdiv := layout_div (g.next c.clockMillis.toNat c.random.toNat (some f.toNat)).1
    (g.next c.clockMillis.toNat c.random.toNat (some f.toNat)).2 c.storeNumber.toNat c.random.toNat
  have hfits := later_fits g.fits (floor_fits (some f.toNat)) p hp
  have hcounter : (floorOf f.toNat).2 ≤ maxCounter := floor_fits (some f.toNat) _ rfl
  -- the upper half of the floor, with a version of at most 8
  have hupper : f.toNat / 2 ^ 64 ≤ (floorOf f.toNat).1 * 2 ^ 16 + 2 ^ 15 + (floorOf f.toNat).2 := by
    simp only [floorOf, timestampMillis, uuidVersion] at hversion ⊢
    omega
  unfold maxCounter at hfits hcounter
  omega

end Call

/-- The variant bits stand below the counter. -/
lemma layout_variant (millis counter storeNumber random : ℕ) :
    uuidVariant (layout millis counter storeNumber random) = 2 := by
  have h6 := Nat.mod_lt (random / 2 ^ 56) (show 0 < 2 ^ 6 by norm_num)
  have h8 := Nat.mod_lt (random / 2 ^ 48) (show 0 < 2 ^ 8 by norm_num)
  have h16 := Nat.mod_lt storeNumber (show 0 < 2 ^ 16 by norm_num)
  have h32 := Nat.mod_lt random (show 0 < 2 ^ 32 by norm_num)
  unfold uuidVariant layout
  generalize random / 2 ^ 56 % 2 ^ 6 = a at *
  generalize random / 2 ^ 48 % 2 ^ 8 = b at *
  generalize storeNumber % 2 ^ 16 = c at *
  generalize random % 2 ^ 32 = d at *
  have hdiv : (millis * 2 ^ 80 + (2 ^ 15 + counter) * 2 ^ 64 + (2 ^ 7 + a) * 2 ^ 56 + b * 2 ^ 48 +
      c * 2 ^ 32 + d) / 2 ^ 62 = 4 * (millis * 2 ^ 16 + 2 ^ 15 + counter) + 2 := by
    omega
  rw [hdiv]
  omega

/-- The layout of an id that was minted for a store. -/
structure MintedFor (storeNumber : UInt16) (id : ℕ) : Prop where
  fits : id < 2 ^ 128
  version : uuidVersion id = 8
  variant : uuidVariant id = 2
  store : memoryStoreNumber id = storeNumber.toNat

lemma mintedFor_call {g : Generator} {c : MintCall} {id : ℕ} (h : (g.call c).1 = some id) :
    MintedFor c.storeNumber id := by
  have hmint := (call_some h).1
  obtain ⟨hfits, hversion⟩ := mint_isMinted hmint
  refine ⟨hfits, hversion, ?_, ?_⟩
  · obtain ⟨-, rfl⟩ := mint_eq hmint
    exact layout_variant _ _ _ _
  · rw [mint_storeNumber hmint, Nat.mod_eq_of_lt c.storeNumber.toNat_lt]

/-- **Runs of a generator**: in every run with floors of a version of at most 8, each id is
greater in byte order than every earlier one and than its floor, has version 8, the RFC variant
and the store number of its call; and a refused call leaves the generator as it was, so the run
without it returns the same ids. -/
theorem generator_run (g : Generator) (cs : List MintCall)
    (hfloor : ∀ c ∈ cs, ∀ f, c.floor = some f → uuidVersion f.toNat ≤ 8) :
    ((g.run cs).Pairwise fun a b => ∀ id id', a = some id → b = some id' →
      bytesOf 16 id < bytesOf 16 id') ∧
    (∀ (i : ℕ) (c : MintCall) (id : ℕ), cs[i]? = some c → (g.run cs)[i]? = some (some id) →
      MintedFor c.storeNumber id ∧
        ∀ f, c.floor = some f → bytesOf 16 f.toNat < bytesOf 16 id) ∧
    ∀ before c rest, cs = before ++ c :: rest → ((g.after before).call c).1 = none →
      g.after (before ++ [c]) = g.after before ∧
        g.run (before ++ rest) = g.run before ++ (g.run cs).drop (before.length + 1) := by
  have hbytes : (2 : ℕ) ^ 128 = 256 ^ 16 := by norm_num
  have hminted : ∀ {i : ℕ} {c : MintCall} {id : ℕ}, cs[i]? = some c →
    (g.run cs)[i]? = some (some id) →
      MintedFor c.storeNumber id := fun hc hid => mintedFor_call (run_getElem? hc hid)
  have hfits : ∀ id, some id ∈ g.run cs → id < 256 ^ 16 := by
    intro id hid
    obtain ⟨i, hi⟩ := List.getElem?_of_mem hid
    have hlt : i < cs.length := run_length g cs ▸ (List.getElem?_eq_some_iff.1 hi).1
    exact hbytes ▸ (hminted (List.getElem?_eq_getElem hlt) hi).fits
  refine ⟨?_, fun i c id hc hid => ⟨hminted hc hid, fun f hf => ?_⟩, ?_⟩
  · refine (run_pairwise g cs).imp_of_mem fun ha hb hlt id id' hid hid' => ?_
    exact (Codes.digits_lt_digits (hfits id (hid ▸ ha)) (hfits id' (hid' ▸ hb)) (by decide)).2
      (hlt id id' hid hid')
  · refine (Codes.digits_lt_digits (hbytes ▸ f.isLt) (hfits id (List.mem_of_getElem? hid))
      (by decide)).2 ?_
    exact call_above_floor hf (hfloor c (List.mem_of_getElem? hc) f hf) (run_getElem? hc hid)
  · rintro before c rest rfl hnone
    have hsame : g.after (before ++ [c]) = g.after before := by
      rw [Generator.after, List.foldl_append]
      exact call_none hnone
    refine ⟨hsame, ?_⟩
    have hrun : g.run (before ++ c :: rest) =
        (g.run before ++ [none]) ++ (g.after before).run rest := by
      rw [run_append, Generator.run, hnone, call_none hnone, List.append_assoc]
      rfl
    have hlen : before.length + 1 = (g.run before ++ [none]).length := by
      simp [run_length]
    rw [hrun, hlen, List.drop_left, run_append]

/-- A clock that goes back, a full counter, a floor of another store ahead of the clock, and a
floor with no time left. -/
def awkwardCalls : List MintCall :=
  [⟨1000, 0xfff0000000000000000, 3, none⟩, ⟨999, 5, 3, none⟩, ⟨7, 6, 65535, none⟩,
    ⟨2000, 1, 4, some 0x00000000100070010000000000000000⟩,
    ⟨2000, 1, 4, some 0xffffffffffff8fff0000000000000000⟩, ⟨2000, 2, 4, none⟩]

/-- The ids of such a run. -/
theorem generator_run_awkward :
    (∀ c ∈ awkwardCalls, ∀ f, c.floor = some f → uuidVersion f.toNat ≤ 8) ∧
      (Generator.run {} awkwardCalls).map Option.isSome = [true, true, true, true, false, true] ∧
      (Generator.run {} awkwardCalls).Pairwise fun a b => ∀ id id', a = some id → b = some id' →
        bytesOf 16 id < bytesOf 16 id' := by
  have hall : ∀ c ∈ awkwardCalls, c.floor.all fun f => uuidVersion f.toNat ≤ 8 := by
    decide +kernel
  have hfloor : ∀ c ∈ awkwardCalls, ∀ f, c.floor = some f → uuidVersion f.toNat ≤ 8 := by
    intro c hc f hf
    simpa [hf] using hall c hc
  exact ⟨hfloor, by decide +kernel, (generator_run {} awkwardCalls hfloor).1⟩

end Proxiima

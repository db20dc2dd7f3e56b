import Mathlib.Data.List.Forall2
import Proxiima.Codes.Digits

/-!
# Frames

Byte strings written one after another without separators. A code separates its values when a
code word followed by anything is never another code word followed by anything, so that a text
is cut in one way only. Numbers of a fixed width, values behind a presence byte, counted
sequences, and a value followed by what its own form says comes next all separate.
-/

namespace Codes

variable {α β B : Type*}

/-- Code words are told apart, and cut off, whatever follows them. -/
def Separates (code : α → List B) : Prop :=
  ∀ ⦃a b : α⦄ ⦃x y : List B⦄, code a ++ x = code b ++ y → a = b ∧ x = y

variable {code : α → List B} {x y : List B}

namespace Separates

lemma append_eq_iff (h : Separates code) {a b : α} : code a ++ x = code b ++ y ↔ a = b ∧ x = y := by
  refine ⟨fun hab => h hab, ?_⟩
  rintro ⟨rfl, rfl⟩
  rfl

lemma comp {code : β → List B} (h : Separates code) {f : α → β} (hf : Function.Injective f) :
    Separates fun a => code (f a) := by
  intro a b x y hab
  obtain ⟨hf', hxy⟩ := h hab
  exact ⟨hf hf', hxy⟩

lemma of_length {n : ℕ} (hlen : ∀ a, (code a).length = n) (hinj : Function.Injective code) :
    Separates code := by
  intro a b x y hab
  obtain ⟨hcode, hxy⟩ := List.append_inj hab ((hlen a).trans (hlen b).symm)
  exact ⟨hinj hcode, hxy⟩

/-- The code words of two sequences of the same length, one after another. -/
lemma flatMap (h : Separates code) :
    ∀ {l m : List α} {x y : List B}, l.length = m.length →
      l.flatMap code ++ x = m.flatMap code ++ y → l = m ∧ x = y
  | [], [], x, y, _, hxy => ⟨rfl, by simpa using hxy⟩
  | a :: l, b :: m, x, y, hlen, hxy => by
    simp only [List.flatMap_cons, List.append_assoc] at hxy
    obtain ⟨rfl, hrest⟩ := h hxy
    obtain ⟨rfl, rfl⟩ := flatMap h (by simpa using hlen) hrest
    exact ⟨rfl, rfl⟩

variable {count : ℕ → List B}

/-- A sequence behind its length. -/
lemma counted {N : ℕ} (hcount : Separates fun n : Fin N => count n) (h : Separates code) :
    Separates fun l : {l : List α // l.length < N} => count l.1.length ++ l.1.flatMap code := by
  rintro ⟨l, hl⟩ ⟨m, hm⟩ x y hxy
  simp only [List.append_assoc] at hxy
  obtain ⟨hlen, hrest⟩ := @hcount ⟨l.length, hl⟩ ⟨m.length, hm⟩ _ _ hxy
  obtain ⟨rfl, rfl⟩ := h.flatMap (Fin.val_eq_of_eq hlen) hrest
  exact ⟨rfl, rfl⟩

/-- Bytes behind their length. -/
lemma sized {N : ℕ} (hcount : Separates fun n : Fin N => count n) :
    Separates fun l : {l : List B // l.length < N} => count l.1.length ++ l.1 := by
  have hone : Separates fun b : B => [b] :=
    of_length (fun _ => rfl) fun a b hab => by simpa using hab
  simpa using hcount.counted hone

/-- A value behind a byte that says whether it is there. -/
lemma option (h : Separates code) {zero one : B} (hne : zero ≠ one) :
    Separates fun v : Option α => v.elim [zero] fun a => one :: code a := by
  rintro (_ | a) (_ | b) x y hxy
  · simpa using hxy
  · simp [hne] at hxy
  · simp [hne.symm] at hxy
  · obtain ⟨rfl, rfl⟩ := h (by simpa using hxy)
    exact ⟨rfl, rfl⟩

end Separates

/-- Sequences of nonempty frames, when frames that may meet are told apart. -/
lemma flatMap_inj_of {R : α → α → Prop}
    (h : ∀ a b x y, R a b → code a ++ x = code b ++ y → a = b ∧ x = y) (hne : ∀ a, code a ≠ []) :
    ∀ {l m : List α}, (∀ a ∈ l, ∀ b ∈ m, R a b) → l.flatMap code = m.flatMap code → l = m
  | [], [], _, _ => rfl
  | [], b :: m, _, hlm => by simp [hne b] at hlm
  | a :: l, [], _, hlm => by simp [hne a] at hlm
  | a :: l, b :: m, hR, hlm => by
    obtain ⟨rfl, hrest⟩ := h a b _ _ (hR a (by simp) b (by simp)) hlm
    have hR' : ∀ c ∈ l, ∀ d ∈ m, R c d := fun c hc d hd =>
      hR c (List.mem_cons_of_mem _ hc) d (List.mem_cons_of_mem _ hd)
    rw [flatMap_inj_of h hne hR' hrest]

/-! ### Big-endian numbers -/

/-- The last `w` bytes of a number, the most significant first. -/
def be (w n : ℕ) : List UInt8 := (digits 256 w n).map UInt8.ofNat

@[simp] lemma length_be (w n : ℕ) : (be w n).length = w := by simp [be]

lemma be_inj {w a b : ℕ} (ha : a < 256 ^ w) (hb : b < 256 ^ w) (h : be w a = be w b) : a = b := by
  have hbytes (n : ℕ) : (be w n).map UInt8.toNat = digits 256 w n := by
    rw [be, List.map_map]
    refine (List.map_congr_left fun d hd => ?_).trans (List.map_id _)
    simpa using digits_lt_base (by decide) d hd
  refine digits_inj ha hb ?_
  rw [← hbytes a, h, hbytes b]

/-- Numbers written in `w` bytes separate what they number. -/
lemma separates_be {w : ℕ} {f : α → ℕ} (hf : Function.Injective f) (hlt : ∀ a, f a < 256 ^ w) :
    Separates fun a => be w (f a) :=
  .of_length (fun _ => length_be _ _) fun a b hab => hf (be_inj (hlt a) (hlt b) hab)

/-! ### Words that end where a character stops them -/

/-- A word made of characters that `p` accepts ends where the first other one stands. -/
lemma append_inj_of_stop {p : B → Bool} {a b : List B} (ha : ∀ c ∈ a, p c = true)
    (hb : ∀ c ∈ b, p c = true) (hx : ∀ c ∈ x.head?, p c = false) (hy : ∀ c ∈ y.head?, p c = false)
    (h : a ++ x = b ++ y) : a = b ∧ x = y := by
  have hstop {z : List B} (hz : ∀ c ∈ z.head?, p c = false) : z.takeWhile p = [] := by
    cases z <;> simp_all
  have hab := congrArg (List.takeWhile p) h
  rw [List.takeWhile_append_of_pos ha, List.takeWhile_append_of_pos hb, hstop hx, hstop hy,
    List.append_nil, List.append_nil] at hab
  subst hab
  exact ⟨rfl, List.append_cancel_left h⟩

/-- Words with a separator before each but the first. -/
def joined (sep : B) : List (List B) → List B
  | [] => []
  | word :: words => word ++ words.flatMap (sep :: ·)

section Joined

variable {code : α → List B} {R : α → α → Prop} {Ends : List B → Prop} {sep close : B}

lemma ends_flatMap (hsep : ∀ x, Ends (sep :: x)) (hclose : ∀ x, Ends (close :: x))
    (l : List (List B)) (x : List B) : Ends (l.flatMap (sep :: ·) ++ close :: x) := by
  cases l
  · exact hclose x
  · exact hsep _

lemma forall₂_of_flatMap (hsep : ∀ x, Ends (sep :: x)) (hclose : ∀ x, Ends (close :: x))
    (hne : sep ≠ close) :
    ∀ {l m : List α} {x y : List B},
      (∀ a ∈ l, ∀ b x y, Ends x → Ends y → code a ++ x = code b ++ y → R a b ∧ x = y) →
      (l.map code).flatMap (sep :: ·) ++ close :: x =
        (m.map code).flatMap (sep :: ·) ++ close :: y → l.Forall₂ R m ∧ x = y
  | [], [], x, y, _, h => ⟨.nil, by simpa using h⟩
  | [], b :: m, x, y, _, h => by simp [hne.symm] at h
  | a :: l, [], x, y, _, h => by simp [hne] at h
  | a :: l, b :: m, x, y, hcode, h => by
    simp only [List.map_cons, List.flatMap_cons, List.cons_append, List.append_assoc,
      List.cons.injEq, true_and] at h
    obtain ⟨hab, hrest⟩ := hcode a (by simp) b _ _ (ends_flatMap hsep hclose _ _)
      (ends_flatMap hsep hclose _ _) h
    obtain ⟨hlm, hxy⟩ := forall₂_of_flatMap hsep hclose hne
      (fun c hc => hcode c (List.mem_cons_of_mem _ hc)) hrest
    exact ⟨.cons hab hlm, hxy⟩

/-- Separated words up to a closing character, when each word is told apart up to `R` from any
other as soon as it has an end. -/
lemma forall₂_of_joined (hsep : ∀ x, Ends (sep :: x)) (hclose : ∀ x, Ends (close :: x))
    (hne : sep ≠ close) (hfirst : ∀ a, ∀ c ∈ (code a).head?, c ≠ close) (hnil : ∀ a, code a ≠ [])
    {l m : List α}
    (hcode : ∀ a ∈ l, ∀ b x y, Ends x → Ends y → code a ++ x = code b ++ y → R a b ∧ x = y)
    (h : joined sep (l.map code) ++ close :: x = joined sep (m.map code) ++ close :: y) :
    l.Forall₂ R m ∧ x = y := by
  have hopen (a : α) (z z' : List B) : code a ++ z ≠ close :: z' := by
    obtain ⟨c, word, hword⟩ := List.exists_cons_of_ne_nil (hnil a)
    have := hfirst a c (by simp [hword])
    simp [hword, this]
  match l, m with
  | [], [] => exact ⟨.nil, by simpa [joined] using h⟩
  | [], b :: m => exact absurd h.symm (by simpa [joined] using hopen b _ _)
  | a :: l, [] => exact absurd h (by simpa [joined] using hopen a _ _)
  | a :: l, b :: m =>
    simp only [List.map_cons, joined, List.append_assoc] at h
    obtain ⟨hab, hrest⟩ := hcode a (by simp) b _ _ (ends_flatMap hsep hclose _ _)
      (ends_flatMap hsep hclose _ _) h
    obtain ⟨hlm, hxy⟩ := forall₂_of_flatMap hsep hclose hne
      (fun c hc => hcode c (List.mem_cons_of_mem _ hc)) hrest
    exact ⟨.cons hab hlm, hxy⟩

end Joined

/-! ### Texts -/

abbrev Bytes := List UInt8

def utf8 (s : String) : Bytes := s.toByteArray.data.toList

lemma utf8_injective : Function.Injective utf8 := by
  intro s t h
  have harr : s.toByteArray.data = t.toByteArray.data := Array.toList_inj.1 h
  exact String.toByteArray_inj.1 (ByteArray.ext harr)

/-- Texts are ordered by their bytes. -/
def rank (s : String) : List ℕ := (utf8 s).map UInt8.toNat

lemma rank_injective : Function.Injective rank := fun _ _ h =>
  utf8_injective (List.map_injective_iff.2 (fun _ _ => UInt8.toNat_inj.1) h)

end Codes

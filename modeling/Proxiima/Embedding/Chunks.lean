import Mathlib.Tactic.Ring
import Proxiima.Text.Utf8

/-!
# Embedding a text in chunks

A client that refuses a text as too large is asked again for its halves. The text is cut in the
middle of its bytes, moved back to the boundary of a character, and not at all where the left half
would be too small. A stack holds the pieces that are still to be embedded, the leftmost on top.
-/

namespace Proxiima.Embedding

open Utf8

/-! ### Clients -/

inductive EmbeddingInputRefusal where
  | payloadTooLarge
  | unprocessableContent
  | localCap (actualChars maxChars : ℕ)
  deriving DecidableEq

inductive EmbeddingConfigurationFault where
  | badRequest | unauthorized | forbidden | notFound
  deriving DecidableEq

inductive LlmError where
  | inputRefused (refusal : EmbeddingInputRefusal)
  | configuration (fault : EmbeddingConfigurationFault)
  | retryable (status : Option ℕ) (retryAfter : Option ℕ) (message : String)
  | internal (message : String)
  deriving DecidableEq

variable {V : Type}

/-- What a client answers to a text, in each of its calls. -/
abbrev EmbeddingClient (V : Type) := ℕ → List Char → Except LlmError V

/-! ### Chunks -/

def chunkedEmbedMinBytes : ℕ := 2048

def minEmbedInputCapChars : ℕ := 2 * chunkedEmbedMinBytes - 1

inductive ChunkedEmbedding (V : Type) where
  | embedded (vectors : List V)
  | inputRefused (refusal : EmbeddingInputRefusal)
  deriving DecidableEq

def splitSegment (segment : List Char) : Option (List Char × List Char) :=
  let cut := floorCharBoundary segment (byteLen segment / 2)
  if cut < chunkedEmbedMinBytes then none else some (splitAt segment cut)

/-- A stack takes the left half first. -/
def pushLeftHalfFirst (pending : List (List Char)) (left right : List Char) : List (List Char) :=
  left :: right :: pending

/-- How often a piece can be asked for, with all it is split into. -/
def weight (t : List Char) : ℕ := max 1 (2 * t.length - 1)

variable {t : List Char}

lemma splitSegment_some {left right : List Char} (h : splitSegment t = some (left, right)) :
    t = left ++ right ∧ left ≠ [] ∧ right ≠ [] := by
  unfold splitSegment at h
  obtain ⟨hcut, heq⟩ := Option.ite_none_left_eq_some.1 h
  obtain ⟨l, r, ht, hl⟩ := isCharBoundary_iff.1 (isCharBoundary_floor t (byteLen t / 2))
  have hle := floorCharBoundary_le t (byteLen t / 2)
  rw [← hl] at heq hcut hle
  rw [ht, splitAt_append] at heq
  obtain ⟨rfl, rfl⟩ := Prod.mk.inj (Option.some.inj heq)
  have hpos : 0 < byteLen l := Nat.lt_of_lt_of_le (by decide) (Nat.not_lt.1 hcut)
  rw [ht, byteLen_append] at hle
  refine ⟨ht, ?_, ?_⟩
  · rintro rfl
    exact absurd hpos (Nat.lt_irrefl 0)
  · rintro rfl
    rw [byteLen_nil] at hle
    omega

lemma weight_split {left right : List Char} (h : splitSegment t = some (left, right)) :
    weight left + weight right < weight t := by
  obtain ⟨rfl, hl, hr⟩ := splitSegment_some h
  have hl' := List.length_pos_iff.2 hl
  have hr' := List.length_pos_iff.2 hr
  simp only [weight, List.length_append]
  omega

/-- The loop of `embed_in_chunks_with`, from its call `n` on. -/
def embedPending (embed : EmbeddingClient V) (n : ℕ) (pending : List (List Char))
    (vectors : List V) : Except LlmError (ChunkedEmbedding V) :=
  match pending with
  | [] => .ok (.embedded vectors)
  | segment :: pending =>
    match embed n segment with
    | .ok vector => embedPending embed (n + 1) pending (vectors ++ [vector])
    | .error (.inputRefused refusal) =>
      match hsplit : splitSegment segment with
      | none => .ok (.inputRefused refusal)
      | some (left, right) =>
        embedPending embed (n + 1) (pushLeftHalfFirst pending left right) vectors
    | .error e => .error e
termination_by (pending.map weight).sum
decreasing_by
  · simp only [List.map_cons, List.sum_cons]
    have : 0 < weight segment := by simp [weight]
    omega
  · have := weight_split hsplit
    simp only [pushLeftHalfFirst, List.map_cons, List.sum_cons]
    omega

def embedInChunksWith (embed : EmbeddingClient V) (text : List Char)
    (initialRefusal : Option EmbeddingInputRefusal) : Except LlmError (ChunkedEmbedding V) :=
  match initialRefusal with
  | some refusal =>
    match splitSegment text with
    | none => .ok (.inputRefused refusal)
    | some (left, right) => embedPending embed 0 (pushLeftHalfFirst [] left right) []
  | none => embedPending embed 0 [text] []

def embedInChunks (client : EmbeddingClient V) (text : List Char) :
    Except LlmError (ChunkedEmbedding V) := embedInChunksWith client text none

def embedInChunksAfterFailure (client : EmbeddingClient V) (text : List Char)
    (refusal : EmbeddingInputRefusal) : Except LlmError (ChunkedEmbedding V) :=
  embedInChunksWith client text (some refusal)

/-! ### What is embedded -/

/-- The vectors answer to consecutive pieces of the text, in calls one after the other. No piece is
empty unless the text is. -/
def Covers (client : EmbeddingClient V) (text : List Char) (vectors : List V) : Prop :=
  ∃ asked : List (ℕ × List Char), (asked.map Prod.snd).flatten = text ∧
    (asked.map Prod.fst).Pairwise (· < ·) ∧ (text ≠ [] → ∀ a ∈ asked, a.2 ≠ []) ∧
    List.Forall₂ (fun a v => client a.1 a.2 = .ok v) asked vectors

variable {client : EmbeddingClient V}

/-- What the loop adds to the vectors it has. -/
lemma embedPending_covers {n : ℕ} {pending : List (List Char)} {vectors vs : List V}
    (h : embedPending client n pending vectors = .ok (.embedded vs)) :
    ∃ (asked : List (ℕ × List Char)) (more : List V), vs = vectors ++ more ∧
      (asked.map Prod.snd).flatten = pending.flatten ∧
      (∀ a ∈ asked, n ≤ a.1) ∧ (asked.map Prod.fst).Pairwise (· < ·) ∧
      ((∀ t ∈ pending, t ≠ []) → ∀ a ∈ asked, a.2 ≠ []) ∧
      List.Forall₂ (fun a v => client a.1 a.2 = .ok v) asked more := by
  fun_induction embedPending client n pending vectors with
  | case1 n vectors =>
    obtain rfl := ChunkedEmbedding.embedded.inj (Except.ok.inj h)
    exact ⟨[], [], by simp, rfl, by simp, .nil, by simp, .nil⟩
  | case2 n vectors segment pending vector hv ih =>
    obtain ⟨asked, more, hvs, hflat, hle, hlt, hne, hall⟩ := ih h
    refine ⟨(n, segment) :: asked, vector :: more, by simp [hvs], by simp [hflat], ?_, ?_, ?_,
      .cons hv hall⟩
    · exact List.forall_mem_cons.2 ⟨Nat.le_refl _, fun a ha => Nat.le_of_succ_le (hle a ha)⟩
    · rw [List.map_cons, List.pairwise_cons]
      refine ⟨fun k hk => ?_, hlt⟩
      obtain ⟨a, ha, rfl⟩ := List.mem_map.1 hk
      exact hle a ha
    · intro hpending
      exact List.forall_mem_cons.2 ⟨hpending segment List.mem_cons_self,
        hne fun t ht => hpending t (List.mem_cons_of_mem _ ht)⟩
  | case3 => cases h
  | case4 n vectors segment pending refusal hr left right hsplit ih =>
    obtain ⟨asked, more, hvs, hflat, hle, hlt, hne, hall⟩ := ih h
    obtain ⟨rfl, hl, hr'⟩ := splitSegment_some hsplit
    refine ⟨asked, more, hvs, by simpa [pushLeftHalfFirst] using hflat,
      fun a ha => Nat.le_of_succ_le (hle a ha), hlt, fun hpending => hne ?_, hall⟩
    intro t ht
    rcases List.mem_cons.1 ht with rfl | ht
    · exact hl
    rcases List.mem_cons.1 ht with rfl | ht
    · exact hr'
    · exact hpending t (List.mem_cons_of_mem _ ht)
  | case5 => cases h

lemma embedInChunksWith_covers {text : List Char} {initialRefusal : Option EmbeddingInputRefusal}
    {vectors : List V} (h : embedInChunksWith client text initialRefusal = .ok (.embedded vectors))
    : Covers client text vectors := by
  unfold embedInChunksWith at h
  split at h
  · split at h
    · cases h
    · rename_i left right hsplit
      obtain ⟨rfl, hl, hr⟩ := splitSegment_some hsplit
      obtain ⟨asked, more, rfl, hflat, -, hlt, hne, hall⟩ := embedPending_covers h
      refine ⟨asked, by simpa [pushLeftHalfFirst] using hflat, hlt, fun _ => hne ?_, hall⟩
      simp [pushLeftHalfFirst, hl, hr]
  · obtain ⟨asked, more, rfl, hflat, -, hlt, hne, hall⟩ := embedPending_covers h
    exact ⟨asked, by simpa using hflat, hlt, fun htext => hne (by simpa using htext), hall⟩

/-! ### Capped clients -/

/-- The client answers what has at most `c` characters and refuses everything longer. -/
structure Capped (c : ℕ) (client : EmbeddingClient V) : Prop where
  answers : ∀ n t, t.length ≤ c → ∃ v, client n t = .ok v
  refuses : ∀ n t, c < t.length → ∃ refusal, client n t = .error (.inputRefused refusal)

/-- The most characters of a piece that is not split: where the cut falls into the last of four
bytes of a character, it moves back by three. -/
def maxFinalChars : ℕ := 2 * chunkedEmbedMinBytes + 2

lemma length_le_of_splitSegment_none (h : splitSegment t = none) : t.length ≤ maxFinalChars := by
  have hcut : floorCharBoundary t (byteLen t / 2) < 2048 := by
    by_contra hge
    simp [splitSegment, chunkedEmbedMinBytes, hge] at h
  have hmax : maxFinalChars = 4098 := rfl
  have hlen := length_le_byteLen t
  rcases Nat.eq_zero_or_pos (byteLen t) with hzero | hpos
  · omega
  obtain ⟨l, c, r, rfl, hl, hmid⟩ := exists_straddling (Nat.div_lt_self hpos (by decide : 1 < 2))
  have hc := c.utf8Size_le_four
  have hl' := length_le_byteLen l
  have hr' := length_le_byteLen r
  simp only [byteLen_append, byteLen_cons, List.length_append, List.length_cons] at *
  omega

lemma embedPending_capped {c : ℕ} (hc : Capped c client) (hmax : maxFinalChars ≤ c) (n : ℕ)
    (pending : List (List Char)) (vectors : List V) :
    ∃ vs, embedPending client n pending vectors = .ok (.embedded vs) := by
  fun_induction embedPending client n pending vectors with
  | case1 n vectors => exact ⟨vectors, rfl⟩
  | case2 n vectors segment pending vector hv ih => exact ih
  | case3 n vectors segment pending refusal hr hsplit =>
    -- a refused piece is too long not to be split
    have hlen := length_le_of_splitSegment_none hsplit
    obtain ⟨v, hv⟩ := hc.answers n segment (hlen.trans hmax)
    cases hr.symm.trans hv
  | case4 n vectors segment pending refusal hr left right hsplit ih => exact ih
  | case5 n vectors segment pending e hne he =>
    rcases Nat.lt_or_ge c segment.length with hlt | hle
    · obtain ⟨refusal, hr⟩ := hc.refuses n segment hlt
      exact absurd (Except.error.inj (he.symm.trans hr)) (hne refusal)
    · obtain ⟨v, hv⟩ := hc.answers n segment hle
      cases he.symm.trans hv

/-- **Chunks cover their text**, in order and without a gap. A client that is only capped never
leaves an input refused, when its cap admits the longest piece that is not split: not after a
refusal of its own either. -/
theorem chunks_cover (V : Type) :
    (∀ (client : EmbeddingClient V) text vectors,
      (embedInChunks client text = .ok (.embedded vectors) → Covers client text vectors) ∧
      ∀ refusal, embedInChunksAfterFailure client text refusal = .ok (.embedded vectors) →
        Covers client text vectors) ∧
    ∀ (client : EmbeddingClient V) c, Capped c client → minEmbedInputCapChars + 3 ≤ c → ∀ text,
      (∃ vectors, embedInChunks client text = .ok (.embedded vectors)) ∧
      ∀ refusal, c < text.length →
        ∃ vectors, embedInChunksAfterFailure client text refusal = .ok (.embedded vectors) := by
  refine ⟨fun client text vectors => ⟨embedInChunksWith_covers, fun refusal h =>
    embedInChunksWith_covers h⟩, fun client c hc hmin text => ?_⟩
  have hmax : maxFinalChars ≤ c := hmin
  refine ⟨embedPending_capped hc hmax 0 [text] [], fun refusal hlong => ?_⟩
  unfold embedInChunksAfterFailure embedInChunksWith
  cases hsplit : splitSegment text with
  | none =>
    have hlen := length_le_of_splitSegment_none hsplit
    omega
  | some halves => exact embedPending_capped hc hmax 0 _ []

/-! ### The cap -/

/-- A client that refuses what is longer than its cap and sends the rest. -/
def refuseOverCap (max : ℕ) (send : List Char → V) : EmbeddingClient V := fun _ input =>
  if max < input.length then .error (.inputRefused (.localCap input.length max))
  else .ok (send input)

lemma capped_refuseOverCap (max : ℕ) (send : List Char → V) :
    Capped max (refuseOverCap max send) where
  answers _ t ht := ⟨send t, if_neg (Nat.not_lt.2 ht)⟩
  refuses _ t ht := ⟨.localCap t.length max, if_pos ht⟩

theorem chunks_cover_refuseOverCap : ∃ vectors,
    embedInChunks (refuseOverCap 4098 List.length) (List.replicate 9000 'a') =
      .ok (.embedded vectors) ∧
    Covers (refuseOverCap 4098 List.length) (List.replicate 9000 'a') vectors := by
  obtain ⟨hcovers, hcapped⟩ := chunks_cover ℕ
  obtain ⟨⟨vectors, hv⟩, -⟩ := hcapped _ 4098 (capped_refuseOverCap 4098 List.length) (by decide)
    (List.replicate 9000 'a')
  exact ⟨vectors, hv, (hcovers _ _ vectors).1 hv⟩

/-- The longest text that is not split: a character of four bytes ends right behind its middle. -/
def straddlingText : List Char := List.replicate 2047 'a' ++ '😀' :: List.replicate 2050 'a'

lemma length_straddlingText : straddlingText.length = maxFinalChars := by
  rw [straddlingText, List.length_append, List.length_cons, List.length_replicate,
    List.length_replicate]
  rfl

lemma splitSegment_straddlingText : splitSegment straddlingText = none := by
  have ha : 'a'.utf8Size = 1 := by decide
  have hwide : '😀'.utf8Size = 4 := by decide
  have hlen : byteLen straddlingText / 2 = 2050 := by
    rw [straddlingText, byteLen_append, byteLen_cons, byteLen_replicate, byteLen_replicate, ha,
      hwide]
  have hcut : floorCharBoundary straddlingText (byteLen straddlingText / 2) = 2047 := by
    rw [hlen, straddlingText, floorCharBoundary_eq]
    all_goals rw [byteLen_replicate, ha]
    · decide
    · rw [hwide]
      decide
  rw [splitSegment, hcut]
  rfl

/-- A smaller cap leaves a text refused. -/
lemma embedInChunks_refused {max : ℕ} (hmax : max < maxFinalChars) (send : List Char → V) :
    embedInChunks (refuseOverCap max send) straddlingText =
      .ok (.inputRefused (.localCap maxFinalChars max)) := by
  have hrefused : refuseOverCap max send 0 straddlingText =
      .error (.inputRefused (.localCap maxFinalChars max)) := by
    simp [refuseOverCap, length_straddlingText, hmax]
  simp only [embedInChunks, embedInChunksWith, embedPending, hrefused]
  rw [splitSegment_straddlingText]

/-- The piece of an empty text is empty, a refusal that the client has not given leaves a short
text refused, and the documented cap is too small for characters of several bytes. -/
theorem chunks_not_covered :
    (embedInChunks (refuseOverCap minEmbedInputCapChars List.length) [] = .ok (.embedded [0]) ∧
      ¬ ∃ pieces : List (List Char), pieces.flatten = [] ∧ (∀ t ∈ pieces, t ≠ []) ∧
        pieces.length = 1) ∧
    embedInChunksAfterFailure (refuseOverCap minEmbedInputCapChars List.length) ['a']
      .payloadTooLarge = .ok (.inputRefused .payloadTooLarge) ∧
    Capped minEmbedInputCapChars (refuseOverCap minEmbedInputCapChars List.length) ∧
    embedInChunks (refuseOverCap minEmbedInputCapChars List.length) straddlingText =
      .ok (.inputRefused (.localCap 4098 4095)) := by
  refine ⟨⟨?_, ?_⟩, ?_, capped_refuseOverCap _ _, embedInChunks_refused (by decide) _⟩
  · simp [embedInChunks, embedInChunksWith, embedPending, refuseOverCap]
  · rintro ⟨pieces, hflat, hne, hlen⟩
    obtain ⟨t, rfl⟩ := List.length_eq_one_iff.1 hlen
    exact hne t List.mem_cons_self (by simpa using hflat)
  · rfl

end Proxiima.Embedding

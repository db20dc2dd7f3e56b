import Proxiima.Authz.Context

/-!
# Revalidated streams

A long-lived stream is wrapped so that it ends when its identity expires, after a longest lifetime,
or when the host reports a newer epoch. A poll looks for the end after it has looked for an item.
When it has found both, it delivers what the inner stream still holds, and ends when a poll finds
nothing there.
-/

namespace Proxiima.Authz

structure RevalidationConfig where
  maxStreamLifetime : ℕ
  epochCheckInterval : ℕ
  deriving DecidableEq

inductive Poll (α : Type) where
  | ready (a : α)
  | pending
  deriving DecidableEq

/-- The inner stream: the items that became available so far, how many of them were taken, and
whether more may come. -/
structure Inner (I : Type) where
  arrived : List I
  taken : ℕ
  ended : Bool

structure RevalidatedStream (I : Type) where
  inner : Inner I
  identity : Identity
  expiresAt : Option ℕ
  maxLifetime : ℕ
  /-- The next tick and the period; absent without an authenticator. -/
  epochInterval : Option (ℕ × ℕ)
  /-- An epoch check is under way. -/
  epochCheck : Bool
  closing : Bool
  closed : Bool

variable {I : Type}

def nonZeroDuration (duration : ℕ) : ℕ := if duration = 0 then 1 else duration

def revalidateStream (inner : Inner I) (identity : Identity) (authenticator : Bool)
    (config : RevalidationConfig) (now : ℕ) : RevalidatedStream I where
  inner := inner
  identity := identity
  expiresAt := identity.expiresAt
  maxLifetime := now + config.maxStreamLifetime
  epochInterval :=
    if authenticator then
      let interval := nonZeroDuration config.epochCheckInterval
      some (now + interval, interval)
    else none
  epochCheck := false
  closing := false
  closed := false

namespace RevalidatedStream

/-- The tick of the interval starts a check, unless one is under way. -/
def tick (s : RevalidatedStream I) (now : ℕ) : RevalidatedStream I :=
  match s.epochInterval with
  | some (next, period) =>
    if next ≤ now then { s with epochInterval := some (next + period, period), epochCheck := true }
    else s
  | none => s

/-- `observe_termination`; `answer` is what a check that is under way says by now. -/
def observeTermination (s : RevalidatedStream I) (now : ℕ) (answer : Option ℕ) :
    Bool × RevalidatedStream I :=
  if s.maxLifetime ≤ now then (true, s)
  else if s.expiresAt.any (· ≤ now) then (true, s)
  else
    let s := s.tick now
    match s.epochCheck, answer with
    | true, some epoch => (decide (s.identity.authEpoch < epoch), { s with epochCheck := false })
    | _, _ => (false, s)

def pollInner (s : RevalidatedStream I) : Poll (Option I) × RevalidatedStream I :=
  match s.inner.arrived[s.inner.taken]? with
  | some item =>
    (.ready (some item), { s with inner := { s.inner with taken := s.inner.taken + 1 } })
  | none => if s.inner.ended then (.ready none, s) else (.pending, s)

def pollNext (s : RevalidatedStream I) (now : ℕ) (answer : Option ℕ) :
    Poll (Option I) × RevalidatedStream I :=
  if s.closed then (.ready none, s)
  else if s.closing then
    match s.pollInner with
    | (.ready (some item), s) => (.ready (some item), s)
    | (_, s) => (.ready none, { s with closed := true })
  else
    match s.pollInner with
    | (.ready (some item), s) =>
      let (ended, s) := s.observeTermination now answer
      (.ready (some item), { s with closing := ended })
    | (.ready none, s) => (.ready none, { s with closed := true })
    | (.pending, s) =>
      let (ended, s) := s.observeTermination now answer
      if ended then (.ready none, { s with closed := true }) else (.pending, s)

end RevalidatedStream

/-! ### Runs -/

/-- What happens to a stream: an item becomes available, the inner stream ends, or the stream is
polled, at a time and with what an epoch check would say then. -/
inductive StreamEvent (I : Type) where
  | arrive (item : I)
  | finish
  | poll (now : ℕ) (answer : Option ℕ)

namespace RevalidatedStream

def arrive (s : RevalidatedStream I) (item : I) : RevalidatedStream I :=
  if s.inner.ended then s
  else { s with inner := { s.inner with arrived := s.inner.arrived ++ [item] } }

def step (s : RevalidatedStream I) : StreamEvent I → RevalidatedStream I
  | .arrive item => s.arrive item
  | .finish => { s with inner := { s.inner with ended := true } }
  | .poll now answer => (s.pollNext now answer).2

def run (s : RevalidatedStream I) (events : List (StreamEvent I)) : RevalidatedStream I :=
  events.foldl step s

/-- What the polls answer. -/
def answers (s : RevalidatedStream I) : List (StreamEvent I) → List (Poll (Option I))
  | [] => []
  | .poll now answer :: events =>
    (s.pollNext now answer).1 :: answers (s.step (.poll now answer)) events
  | e :: events => answers (s.step e) events

def emitted (s : RevalidatedStream I) (events : List (StreamEvent I)) : List I :=
  (s.answers events).filterMap fun
    | .ready (some item) => some item
    | _ => none

/-- The items that wait in the inner stream. -/
def queued (s : RevalidatedStream I) : ℕ := s.inner.arrived.length - s.inner.taken

/-- A poll of this stream looks for its end and finds it. -/
def observes (s : RevalidatedStream I) (now : ℕ) (answer : Option ℕ) : Bool :=
  !s.closed && !s.closing &&
    match s.pollInner with
    | (.ready none, _) => false
    | (_, s) => (s.observeTermination now answer).1

end RevalidatedStream

def polls (events : List (StreamEvent I)) : ℕ :=
  events.countP fun
    | .poll _ _ => true
    | _ => false

/-- The items that become available, while the inner stream has not ended. -/
def arrivals : Bool → List (StreamEvent I) → List I
  | _, [] => []
  | ended, .arrive item :: events =>
    if ended then arrivals ended events else item :: arrivals ended events
  | _, .finish :: events => arrivals true events
  | ended, .poll _ _ :: events => arrivals ended events

variable {now : ℕ} {answer : Option ℕ}

namespace RevalidatedStream

variable {s s' : RevalidatedStream I}

/-! ### One poll -/

lemma observeTermination_keeps (s : RevalidatedStream I) (now : ℕ) (answer : Option ℕ) :
    (s.observeTermination now answer).2.inner = s.inner ∧
      (s.observeTermination now answer).2.closing = s.closing ∧
      (s.observeTermination now answer).2.closed = s.closed := by
  have htick : (s.tick now).inner = s.inner ∧ (s.tick now).closing = s.closing ∧
      (s.tick now).closed = s.closed := by
    unfold tick
    split
    · split <;> exact ⟨rfl, rfl, rfl⟩
    · exact ⟨rfl, rfl, rfl⟩
  unfold observeTermination
  split
  · exact ⟨rfl, rfl, rfl⟩
  split
  · exact ⟨rfl, rfl, rfl⟩
  · simp only
    split <;> exact htick

lemma pollNext_closed (h : s.closed = true) (now : ℕ) (answer : Option ℕ) :
    s.pollNext now answer = (.ready none, s) := by
  simp [pollNext, h]

/-- A poll that finds an item delivers it. -/
lemma pollNext_item {item : I} (h : s.closed = false)
    (hitem : s.inner.arrived[s.inner.taken]? = some item) (now : ℕ) (answer : Option ℕ) :
    ∃ s', s.pollNext now answer = (.ready (some item), s') ∧
      s'.inner = { s.inner with taken := s.inner.taken + 1 } ∧ s'.closed = false ∧
      s'.closing = (s.closing || s.observes now answer) := by
  let s₁ : RevalidatedStream I :=
    { s with inner := { s.inner with taken := s.inner.taken + 1 } }
  have hinner : s.pollInner = (.ready (some item), s₁) := by simp [pollInner, hitem, s₁]
  obtain ⟨h₁, h₂, h₃⟩ := observeTermination_keeps s₁ now answer
  unfold pollNext observes
  rw [hinner]
  cases hc : s.closing with
  | true => exact ⟨s₁, by simp [h], rfl, h, by simp [s₁, hc]⟩
  | false =>
    let s₂ : RevalidatedStream I :=
      { (s₁.observeTermination now answer).2 with closing := (s₁.observeTermination now answer).1 }
    exact ⟨s₂, by simp [h, s₂], h₁, h₃.trans h, by simp [h, s₂]⟩

/-- A poll that finds nothing ends the stream, or is pending. -/
lemma pollNext_empty (h : s.closed = false)
    (hitem : s.inner.arrived[s.inner.taken]? = none) (now : ℕ) (answer : Option ℕ) :
    ∃ s', s'.inner = s.inner ∧
      (s.pollNext now answer = (.ready none, s') ∧ s'.closed = true ∨
        s.pollNext now answer = (.pending, s') ∧ s'.closed = false ∧ s'.closing = false ∧
          s.closing = false ∧ s.observes now answer = false) := by
  obtain ⟨h₁, h₂, h₃⟩ := observeTermination_keeps s now answer
  have hinner : s.pollInner = (if s.inner.ended then (.ready none, s) else (.pending, s)) := by
    simp [pollInner, hitem]
  unfold pollNext observes
  rw [hinner]
  cases hc : s.closing with
  | true =>
    refine ⟨{ s with closed := true }, rfl, .inl ⟨?_, rfl⟩⟩
    cases s.inner.ended <;> simp [h]
  | false =>
    cases he : s.inner.ended with
    | true => exact ⟨{ s with closed := true }, rfl, .inl ⟨by simp [h], rfl⟩⟩
    | false =>
      cases ho : (s.observeTermination now answer).1 with
      | true =>
        exact ⟨{ (s.observeTermination now answer).2 with closed := true }, h₁,
          .inl ⟨by simp [h, ho],
          rfl⟩⟩
      | false =>
        exact ⟨(s.observeTermination now answer).2, h₁, .inr ⟨by simp [h, ho], h₃.trans h,
          h₂.trans hc, rfl, by simp [ho]⟩⟩

/-! ### Runs of polls and arrivals -/

@[simp] lemma run_nil (s : RevalidatedStream I) : s.run [] = s := rfl

@[simp] lemma run_cons (s : RevalidatedStream I) (e : StreamEvent I) (es : List (StreamEvent I)) :
    s.run (e :: es) = (s.step e).run es := rfl

lemma run_append (s : RevalidatedStream I) (es es' : List (StreamEvent I)) :
    s.run (es ++ es') = (s.run es).run es' :=
  List.foldl_append

lemma emitted_cons (s : RevalidatedStream I) (e : StreamEvent I) (es : List (StreamEvent I)) :
    s.emitted (e :: es) = s.emitted [e] ++ (s.step e).emitted es := by
  cases e with
  | arrive | finish => rfl
  | poll now answer =>
    unfold emitted
    simp only [answers]
    rw [← List.singleton_append, List.filterMap_append]

/-- From `s` to `s'` the items `out` were taken, in their order. -/
structure Takes (s s' : RevalidatedStream I) (out : List I) : Prop where
  arrived : s.inner.arrived <+: s'.inner.arrived
  taken : s'.inner.taken = s.inner.taken + out.length
  items : s'.inner.arrived.take s'.inner.taken = s.inner.arrived.take s.inner.taken ++ out
  bound : s'.inner.taken ≤ s'.inner.arrived.length

lemma Takes.refl (h : s.inner.taken ≤ s.inner.arrived.length) (hs : s'.inner = s.inner) :
    Takes s s' [] := by
  refine ⟨?_, ?_, ?_, ?_⟩ <;> simp [hs, h]

lemma Takes.trans {s'' : RevalidatedStream I} {out out' : List I} (h : Takes s s' out)
    (h' : Takes s' s'' out') : Takes s s'' (out ++ out') where
  arrived := h.arrived.trans h'.arrived
  taken := by rw [h'.taken, h.taken, List.length_append, Nat.add_assoc]
  items := by rw [h'.items, h.items, List.append_assoc]
  bound := h'.bound

lemma takes_step (h : s.inner.taken ≤ s.inner.arrived.length) (e : StreamEvent I) :
    Takes s (s.step e) (s.emitted [e]) := by
  cases e with
  | arrive item =>
    by_cases he : s.inner.ended
    · exact .refl h (by simp [step, arrive, he])
    · have hi : (s.step (.arrive item)).inner =
          { s.inner with arrived := s.inner.arrived ++ [item] } := by simp [step, arrive, he]
      exact ⟨by simp [hi], by simp [hi, emitted, answers],
        by simp [hi, emitted, answers, List.take_append_of_le_length h], by simp [hi]; omega⟩
  | finish => exact ⟨List.prefix_rfl, rfl, (List.append_nil _).symm, h⟩
  | poll now answer =>
    cases hc : s.closed with
    | true =>
      have hp := pollNext_closed hc now answer
      have he : s.emitted [.poll now answer] = [] := by simp [emitted, answers, hp]
      rw [he]
      exact .refl h (by simp [step, hp])
    | false =>
      cases hitem : s.inner.arrived[s.inner.taken]? with
      | some item =>
        obtain ⟨s', hp, hi, -⟩ := pollNext_item hc hitem now answer
        have he : s.emitted [.poll now answer] = [item] := by simp [emitted, answers, hp]
        have hs : s.step (.poll now answer) = s' := by simp [step, hp]
        obtain ⟨hlt, rfl⟩ := List.getElem?_eq_some_iff.1 hitem
        rw [he, hs]
        refine ⟨by simp [hi], by simp [hi], ?_, by simp [hi]; omega⟩
        rw [hi, List.take_succ_eq_append_getElem hlt]
      | none =>
        obtain ⟨s', hi, ⟨hp, -⟩ | ⟨hp, -⟩⟩ := pollNext_empty hc hitem now answer
        all_goals
          have he : s.emitted [.poll now answer] = [] := by simp [emitted, answers, hp]
          rw [he]
          exact .refl h (by simp [step, hp, hi])

/-- What a run emits are the items it takes. -/
lemma takes_run (h : s.inner.taken ≤ s.inner.arrived.length) (es : List (StreamEvent I)) :
    Takes s (s.run es) (s.emitted es) := by
  induction es generalizing s with
  | nil => exact .refl h rfl
  | cons e es ih =>
    have hstep := takes_step h e
    rw [emitted_cons]
    exact hstep.trans (ih hstep.bound)

lemma inner_poll (s : RevalidatedStream I) (now : ℕ) (answer : Option ℕ) :
    (s.step (.poll now answer)).inner.arrived = s.inner.arrived ∧
      (s.step (.poll now answer)).inner.ended = s.inner.ended := by
  cases hc : s.closed with
  | true => simp [step, pollNext_closed hc]
  | false =>
    cases hitem : s.inner.arrived[s.inner.taken]? with
    | some item =>
      obtain ⟨s', hp, hi, -⟩ := pollNext_item hc hitem now answer
      simp [step, hp, hi]
    | none =>
      obtain ⟨s', hi, ⟨hp, -⟩ | ⟨hp, -⟩⟩ := pollNext_empty hc hitem now answer <;>
        simp [step, hp, hi]

lemma arrived_run (s : RevalidatedStream I) (es : List (StreamEvent I)) :
    (s.run es).inner.arrived = s.inner.arrived ++ arrivals s.inner.ended es := by
  induction es generalizing s with
  | nil => simp [arrivals]
  | cons e es ih =>
    rw [run_cons, ih]
    cases e with
    | arrive item => cases he : s.inner.ended <;> simp [step, arrive, arrivals, he]
    | finish => rfl
    | poll now answer =>
      obtain ⟨ha, he⟩ := inner_poll s now answer
      rw [ha, he]
      rfl

/-- A closed stream takes nothing and stays closed. -/
lemma closed_run (h : s.closed = true) (es : List (StreamEvent I)) :
    (s.run es).closed = true ∧ (s.run es).inner.taken = s.inner.taken := by
  induction es generalizing s with
  | nil => exact ⟨h, rfl⟩
  | cons e es ih =>
    rw [run_cons]
    cases e with
    | arrive item =>
      have hs : (s.step (.arrive item)).closed = s.closed ∧
          (s.step (.arrive item)).inner.taken = s.inner.taken := by
        cases he : s.inner.ended <;> simp [step, arrive, he]
      obtain ⟨hc, ht⟩ := ih (hs.1.trans h)
      exact ⟨hc, ht.trans hs.2⟩
    | finish => exact ih h
    | poll now answer =>
      have hs : s.step (.poll now answer) = s := by simp [step, pollNext_closed h]
      rw [hs]
      exact ih h

lemma answers_of_closed (h : s.closed = true) (es : List (StreamEvent I)) :
    ∀ a ∈ s.answers es, a = .ready none := by
  induction es generalizing s with
  | nil => exact fun a ha => (List.not_mem_nil ha).elim
  | cons e es ih =>
    have hs : (s.step e).closed = true := (closed_run h [e]).1
    cases e with
    | arrive | finish => exact ih hs
    | poll now answer =>
      intro a ha
      rcases List.mem_cons.1 ha with rfl | ha
      · rw [pollNext_closed h]
      · exact ih hs a ha

/-- **A closing stream takes one item at each poll**, as long as the items that were queued last,
whatever arrives in between. -/
lemma closing_run (h : s.closed = false) (hc : s.closing = true)
    (hb : s.inner.taken ≤ s.inner.arrived.length) (es : List (StreamEvent I))
    (hp : polls es ≤ s.queued) :
    (s.run es).closed = false ∧ (s.run es).closing = true ∧
      (s.run es).inner.taken = s.inner.taken + polls es := by
  induction es generalizing s with
  | nil => exact ⟨h, hc, rfl⟩
  | cons e es ih =>
    rw [run_cons]
    have hb' := (takes_step hb e).bound
    cases e with
    | arrive item =>
      have hs : (s.step (.arrive item)).closed = s.closed ∧
          (s.step (.arrive item)).closing = s.closing ∧
          (s.step (.arrive item)).inner.taken = s.inner.taken ∧
          s.queued ≤ (s.step (.arrive item)).queued := by
        cases he : s.inner.ended <;> simp [step, arrive, queued, he]
        omega
      obtain ⟨h₁, h₂, h₃, h₄⟩ := hs
      have hpe : polls (.arrive item :: es) = polls es := by simp [polls]
      obtain ⟨i₁, i₂, i₃⟩ := ih (h₁.trans h) (h₂.trans hc) hb' (by omega)
      exact ⟨i₁, i₂, by rw [i₃, h₃, hpe]⟩
    | finish => exact ih h hc hb' hp
    | poll now answer =>
      have hpe : polls (.poll now answer :: es) = polls es + 1 := by simp [polls]
      have hlt : s.inner.taken < s.inner.arrived.length := by
        unfold queued at hp
        omega
      obtain ⟨s', hp', hi, h₁, h₂⟩ :=
        pollNext_item h (List.getElem?_eq_getElem hlt) now answer
      have hs : s.step (.poll now answer) = s' := by simp [step, hp']
      rw [hs] at hb' ⊢
      have hq : polls es ≤ s'.queued := by
        unfold queued at hp ⊢
        simp only [hi]
        omega
      obtain ⟨i₁, i₂, i₃⟩ := ih h₁ (by simp [h₂, hc]) hb' hq
      refine ⟨i₁, i₂, ?_⟩
      rw [i₃, hi, hpe]
      simp only
      omega

/-- A closing stream that is polled with nothing queued is closed. -/
lemma closing_poll (h : s.closed = false) (hc : s.closing = true)
    (hq : s.inner.arrived.length ≤ s.inner.taken) (now : ℕ) (answer : Option ℕ) :
    (s.step (.poll now answer)).closed = true ∧
      (s.step (.poll now answer)).inner.taken = s.inner.taken := by
  obtain ⟨s', hi, ⟨hp, h'⟩ | ⟨-, -, -, hf, -⟩⟩ :=
    pollNext_empty h (List.getElem?_eq_none hq) now answer
  · have hs : s.step (.poll now answer) = s' := by simp [step, hp]
    rw [hs]
    exact ⟨h', by rw [hi]⟩
  · exact absurd (hc.symm.trans hf) (by decide)

/-- A poll that observes the end closes a stream with nothing queued, and otherwise delivers an item
and leaves the stream closing. -/
lemma observing_poll (ho : s.observes now answer = true) :
    ((s.step (.poll now answer)).closed = true ∧ s.queued = 0 ∧
        (s.step (.poll now answer)).inner.taken = s.inner.taken) ∨
      ((s.step (.poll now answer)).closed = false ∧ (s.step (.poll now answer)).closing = true ∧
        s.queued = (s.step (.poll now answer)).queued + 1) := by
  have hc : s.closed = false := by
    cases hc : s.closed with
    | true => simp [observes, hc] at ho
    | false => rfl
  cases hitem : s.inner.arrived[s.inner.taken]? with
  | some item =>
    obtain ⟨s', hp, hi, h₁, h₂⟩ := pollNext_item hc hitem now answer
    have hlt := (List.getElem?_eq_some_iff.1 hitem).1
    have hs : s.step (.poll now answer) = s' := by simp [step, hp]
    rw [hs]
    refine .inr ⟨h₁, by simp [h₂, ho], ?_⟩
    simp only [queued, hi]
    omega
  | none =>
    obtain ⟨s', hi, ⟨hp, h'⟩ | ⟨-, -, -, -, hf⟩⟩ := pollNext_empty hc hitem now answer
    · have hle := List.getElem?_eq_none_iff.1 hitem
      have hs : s.step (.poll now answer) = s' := by simp [step, hp]
      rw [hs]
      exact .inl ⟨h', Nat.sub_eq_zero_of_le hle, by rw [hi]⟩
    · exact absurd (ho.symm.trans hf) (by decide)

/-- An answer of the end closes the stream. -/
lemma closed_of_none (h : (s.pollNext now answer).1 = .ready none) :
    (s.step (.poll now answer)).closed = true := by
  cases hc : s.closed with
  | true => simp [step, pollNext_closed hc, hc]
  | false =>
    cases hitem : s.inner.arrived[s.inner.taken]? with
    | some item =>
      obtain ⟨s', hp, -⟩ := pollNext_item hc hitem now answer
      simp [hp] at h
    | none =>
      obtain ⟨s', -, ⟨hp, h'⟩ | ⟨hp, -⟩⟩ := pollNext_empty hc hitem now answer
      · simp [step, hp, h']
      · simp [hp] at h

end RevalidatedStream

lemma exists_poll_split {es : List (StreamEvent I)} {q : ℕ} (h : q < polls es) :
    ∃ es₁ now answer es₂, es = es₁ ++ .poll now answer :: es₂ ∧ polls es₁ = q := by
  induction es generalizing q with
  | nil => simp [polls] at h
  | cons e es ih =>
    cases e with
    | arrive item =>
      obtain ⟨es₁, now, answer, es₂, rfl, hq⟩ := ih (q := q) (by simpa [polls] using h)
      exact ⟨.arrive item :: es₁, now, answer, es₂, rfl, by simpa [polls] using hq⟩
    | finish =>
      obtain ⟨es₁, now, answer, es₂, rfl, hq⟩ := ih (q := q) (by simpa [polls] using h)
      exact ⟨.finish :: es₁, now, answer, es₂, rfl, by simpa [polls] using hq⟩
    | poll now answer =>
      cases q with
      | zero => exact ⟨[], now, answer, es, rfl, rfl⟩
      | succ q =>
        obtain ⟨es₁, now', answer', es₂, rfl, hq⟩ := ih (q := q) (by simpa [polls] using h)
        refine ⟨.poll now answer :: es₁, now', answer', es₂, rfl, ?_⟩
        simpa [polls] using hq

namespace RevalidatedStream

variable {s : RevalidatedStream I}

/-! ### The end of a stream -/

/-- A stream ends promptly: once a poll observed the end, only items that were available by then
are delivered, all of them if the stream is polled often enough, and one poll more ends the stream;
an ended stream answers nothing else. -/
structure Prompt (s : RevalidatedStream I) (events : List (StreamEvent I)) : Prop where
  late : ∀ before now answer after, events = before ++ .poll now answer :: after →
    (s.run before).observes now answer = true →
    s.emitted events <+: (s.run before).inner.arrived
  queue : ∀ before now answer after, events = before ++ .poll now answer :: after →
    (s.run before).observes now answer = true → (s.run before).queued ≤ polls after + 1 →
    (s.run before).inner.arrived <+: s.emitted events
  ends : ∀ before now answer after, events = before ++ .poll now answer :: after →
    (s.run before).observes now answer = true → (s.run before).queued ≤ polls after →
    (s.run events).closed = true
  final : ∀ before now answer after, events = before ++ .poll now answer :: after →
    ((s.run before).pollNext now answer).1 = .ready none →
    ∀ a ∈ ((s.run before).step (.poll now answer)).answers after, a = .ready none

/-- From a poll that observes the end and delivers an item to the poll after those that deliver the
items queued by then, no further item becomes available. -/
def Quiet (s : RevalidatedStream I) (events : List (StreamEvent I)) : Prop :=
  ∀ before now answer drain now' answer' after,
    events = before ++ .poll now answer :: (drain ++ .poll now' answer' :: after) →
    (s.run before).observes now answer = true → (s.run before).queued = polls drain + 1 →
    arrivals (s.run before).inner.ended drain = []

/-- After an observing poll and the polls that deliver what is queued, everything that had arrived
is taken, and the next poll finds what arrived since. -/
lemma drained (hb : s.inner.taken ≤ s.inner.arrived.length) (ho : s.observes now answer = true)
    {drain : List (StreamEvent I)} (hq : s.queued = polls drain + 1) :
    ((s.run (.poll now answer :: drain)).closed = false ∧
        (s.run (.poll now answer :: drain)).closing = true) ∧
      (s.run (.poll now answer :: drain)).inner.taken = s.inner.arrived.length ∧
      (s.run (.poll now answer :: drain)).inner.arrived =
        s.inner.arrived ++ arrivals s.inner.ended drain := by
  have hb' := (takes_step hb (.poll now answer)).bound
  obtain ⟨ha, -⟩ := inner_poll s now answer
  have harrived := arrived_run s (.poll now answer :: drain)
  rcases observing_poll ho with ⟨-, h0, -⟩ | ⟨hc, hcl, hqs⟩
  · omega
  obtain ⟨h₁, h₂, h₃⟩ := closing_run hc hcl hb' drain (by omega)
  refine ⟨⟨h₁, h₂⟩, ?_, harrived⟩
  rw [run_cons, h₃, ← ha]
  unfold queued at hqs hq
  rw [ha] at hqs hb' ⊢
  omega

variable {after : List (StreamEvent I)}

section

variable (hb : s.inner.taken ≤ s.inner.arrived.length) (ho : s.observes now answer = true)
include hb ho

/-- Until the queued items are delivered, a stream takes none that arrived later. -/
lemma taken_le_of_polls (hp : polls after < s.queued) :
    (s.run (.poll now answer :: after)).inner.taken ≤ s.inner.arrived.length := by
  have hb' := (takes_step hb (.poll now answer)).bound
  obtain ⟨ha, -⟩ := inner_poll s now answer
  rcases observing_poll ho with ⟨-, h0, -⟩ | ⟨hc, hcl, hqs⟩
  · omega
  obtain ⟨-, -, h₃⟩ := closing_run hc hcl hb' after (by omega)
  rw [run_cons, h₃]
  unfold queued at hqs hp
  rw [ha] at hqs hb'
  omega

/-- With no late arrival, a stream that is polled once more than it has items queued is closed, and
took those only. -/
lemma closed_of_quiet
    (hquiet : ∀ drain now' answer' after', after = drain ++ .poll now' answer' :: after' →
      s.queued = polls drain + 1 → arrivals s.inner.ended drain = []) (hp : s.queued ≤ polls after)
    :
    (s.run (.poll now answer :: after)).closed = true ∧
      (s.run (.poll now answer :: after)).inner.taken = s.inner.arrived.length := by
  rcases observing_poll ho with ⟨hc, h0, ht⟩ | ⟨-, -, hqs⟩
  · obtain ⟨h₁, h₂⟩ := closed_run hc after
    unfold queued at h0
    exact ⟨h₁, by rw [run_cons, h₂, ht]; omega⟩
  -- the poll that comes after the queued items are through
  have hlt : s.queued - 1 < polls after := by omega
  obtain ⟨drain, now', answer', after', rfl, hd⟩ := exists_poll_split hlt
  have hq : s.queued = polls drain + 1 := by omega
  obtain ⟨⟨hc, hcl⟩, ht, ha⟩ := drained hb ho hq
  rw [hquiet drain now' answer' after' rfl hq, List.append_nil] at ha
  obtain ⟨hc', ht'⟩ := closing_poll hc hcl (by rw [ha, ht]) now' answer'
  obtain ⟨h₁, h₂⟩ := closed_run hc' after'
  rw [← List.cons_append, run_append, run_cons]
  exact ⟨h₁, by rw [h₂, ht', ht]⟩

/-- All that was queued is taken by as many polls. -/
lemma taken_of_polls (hp : s.queued ≤ polls after + 1) :
    s.inner.arrived.length ≤ (s.run (.poll now answer :: after)).inner.taken := by
  rcases observing_poll ho with ⟨hc, h0, ht⟩ | ⟨-, -, hqs⟩
  · obtain ⟨-, h₂⟩ := closed_run hc after
    unfold queued at h0
    rw [run_cons, h₂, ht]
    omega
  rcases Nat.lt_or_ge (polls after) s.queued with hlt | hge
  · have hq : s.queued = polls after + 1 := by omega
    obtain ⟨-, ht, -⟩ := drained hb ho hq
    exact ht.ge
  · have hlt : s.queued - 1 < polls after := by omega
    obtain ⟨drain, now', answer', after', rfl, hd⟩ := exists_poll_split hlt
    have hq : s.queued = polls drain + 1 := by omega
    obtain ⟨-, ht, -⟩ := drained hb ho hq
    have hb' := (takes_run hb (.poll now answer :: drain)).bound
    have hmono := (takes_run hb' (.poll now' answer' :: after')).taken
    rw [← List.cons_append, run_append, hmono, ht]
    exact Nat.le_add_right _ _

end

/-- What a stream emits from its start is what it has taken. -/
lemma emitted_eq_take (h0 : s.inner.taken = 0) (es : List (StreamEvent I)) :
    s.emitted es = (s.run es).inner.arrived.take (s.run es).inner.taken := by
  have htakes := (takes_run (by omega) es : Takes s (s.run es) (s.emitted es))
  rw [htakes.items, h0, List.take_zero, List.nil_append]

variable {events : List (StreamEvent I)}

lemma prompt_of_quiet (h0 : s.inner.taken = 0) (hquiet : s.Quiet events) : s.Prompt events where
  late := by
    rintro before now answer after rfl ho
    have hb := (takes_run (by omega) before : Takes s (s.run before) _).bound
    have htakes := takes_run hb (.poll now answer :: after)
    have hle : ((s.run before).run (.poll now answer :: after)).inner.taken ≤
        (s.run before).inner.arrived.length := by
      rcases Nat.lt_or_ge (polls after) (s.run before).queued with hlt | hge
      · exact taken_le_of_polls hb ho hlt
      · refine (closed_of_quiet hb ho ?_ hge).2.le
        rintro drain now' answer' after' rfl
        exact hquiet before now answer drain now' answer' after' rfl ho
    rw [emitted_eq_take h0, run_append]
    exact List.prefix_of_prefix_length_le (List.take_prefix _ _) htakes.arrived
      ((List.length_take_le _ _).trans hle)
  queue := by
    rintro before now answer after rfl ho hq
    have hb := (takes_run (by omega) before : Takes s (s.run before) _).bound
    have htakes := takes_run hb (.poll now answer :: after)
    have hle := taken_of_polls hb ho hq
    rw [emitted_eq_take h0, run_append]
    refine List.prefix_of_prefix_length_le htakes.arrived (List.take_prefix _ _) ?_
    rw [List.length_take]
    exact le_min hle htakes.arrived.length_le
  ends := by
    rintro before now answer after rfl ho hq
    have hb := (takes_run (by omega) before : Takes s (s.run before) _).bound
    rw [run_append]
    refine (closed_of_quiet hb ho ?_ hq).1
    rintro drain now' answer' after' rfl
    exact hquiet before now answer drain now' answer' after' rfl ho
  final := by
    rintro before now answer after - hnone
    exact answers_of_closed (closed_of_none hnone) after

lemma quiet_of_prompt (h0 : s.inner.taken = 0) (hprompt : s.Prompt events) : s.Quiet events := by
  rintro before now answer drain now' answer' after rfl ho hq
  have hb := (takes_run (by omega) before : Takes s (s.run before) _).bound
  obtain ⟨⟨hc, hcl⟩, ht, ha⟩ := drained hb ho hq
  by_contra hne
  -- the poll after the queued items finds an item that arrived late
  have hlt : ((s.run before).run (.poll now answer :: drain)).inner.taken <
      ((s.run before).run (.poll now answer :: drain)).inner.arrived.length := by
    rw [ht, ha, List.length_append]
    have := List.length_pos_iff.2 hne
    omega
  obtain ⟨s', hp, hi, -⟩ := pollNext_item hc (List.getElem?_eq_getElem hlt) now' answer'
  have hs : ((s.run before).run (.poll now answer :: drain)).step (.poll now' answer') = s' := by
    simp only [step, hp]
  have hb' : s'.inner.taken ≤ s'.inner.arrived.length := by
    rw [hi]
    exact hlt
  have hmono := takes_run hb' after
  have hrun : s.run (before ++ .poll now answer :: (drain ++ .poll now' answer' :: after)) =
      s'.run after := by
    rw [run_append, ← List.cons_append, run_append, run_cons, hs]
  have hlen := (hprompt.late before now answer _ rfl ho).length_le
  rw [emitted_eq_take h0, List.length_take, hrun, Nat.min_eq_left hmono.bound, hmono.taken, hi,
    ht] at hlen
  simp only at hlen
  omega

end RevalidatedStream

open RevalidatedStream in
/-- **A revalidated stream ends promptly exactly if the inner stream keeps quiet** while the wrapper
delivers what was queued when a poll observed the end. -/
theorem revalidateStream_prompt_iff (arrived : List I) (ended : Bool) (identity : Identity)
    (authenticator : Bool) (config : RevalidationConfig) (now : ℕ) (events : List (StreamEvent I)) :
    (revalidateStream ⟨arrived, 0, ended⟩ identity authenticator config now).Prompt events ↔
      (revalidateStream ⟨arrived, 0, ended⟩ identity authenticator config now).Quiet events :=
  ⟨quiet_of_prompt rfl, prompt_of_quiet rfl⟩

/-- An identity that expires at 5. -/
def expiring : Identity where
  subject := none
  writer := none
  principal := 1
  accessiblePrincipals := [1]
  expiresAt := some 5
  authEpoch := 0
  trustedModelId := none

/-- The poll at the expiry delivers the item 0; the item 1 arrives only then, and the next poll
delivers it too. -/
theorem revalidateStream_emits_late_item :
    ¬ (revalidateStream ⟨[0], 0, false⟩ expiring false ⟨100, 10⟩ 0).Prompt
      [.poll 5 none, .arrive 1, .poll 6 none] := by
  intro hprompt
  have hlate := hprompt.late [] 5 none [.arrive 1, .poll 6 none] rfl (by decide)
  exact absurd hlate (by decide)

end Proxiima.Authz

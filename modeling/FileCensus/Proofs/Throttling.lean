import FileCensus.Failure
import FileCensus.Signal.Throttle
import Mathlib.Algebra.Order.Group.Basic
import Mathlib.Algebra.Order.Group.Int
import Mathlib.Data.List.TakeDrop

/-!
A monitor that calls back at most once in an interval. Which notifications become events depends on
their times alone: the decision is made before the callback is called, and how that call ends is
never looked at. Times are exact, of any ordered group; nothing is asked of their order, so that the
clock may run backwards.
-/

namespace FileCensus.Throttle

/-- A notification, with the reading of the clock that it finds. -/
structure Notification (τ : Type) where
  time : τ
  path : Option String

/-- A monitor with its callback: the events that the callback has been called with, and how the
notifications ended. -/
structure Relay (τ : Type) where
  throttle : Throttle τ
  events : List ProgressEvent
  answers : List (Except Failure Unit)

variable {τ : Type}

theorem take_succ_of_found {ns : List (Notification τ)} {n : Notification τ} {k : Nat}
    (found : ns[k]? = some n) : ns.take (k + 1) = ns.take k ++ [n] := by
  rw [List.take_add_one, found]
  rfl

variable [AddCommGroup τ] [LinearOrder τ]

/-- One notification. The throttle has taken note of it by the time the callback is called; the call
after `n` others ends with `call n`, which is then how the notification ends. -/
def Relay.notify (call : Nat → Except Failure Unit) (r : Relay τ) (n : Notification τ) : Relay τ :=
    match r.throttle.notify n.time n.path with
    | (t, none) => ⟨t, r.events, r.answers ++ [.ok ()]⟩
    | (t, some event) => ⟨t, r.events ++ [event], r.answers ++ [call r.events.length]⟩

def relay (interval : τ) (call : Nat → Except Failure Unit) (ns : List (Notification τ)) :
    Relay τ :=
    ns.foldl (Relay.notify call) ⟨start interval, [], []⟩

/-- The throttle after the first so many notifications. -/
def after (interval : τ) (ns : List (Notification τ)) (k : Nat) : Throttle τ :=
    (ns.take k).foldl (fun t n => (t.notify n.time n.path).1) (start interval)

/-- The event that a notification becomes, if it does. -/
def eventAt (interval : τ) (ns : List (Notification τ)) (k : Nat) : Option ProgressEvent :=
    ns[k]?.bind fun n => ((after interval ns k).notify n.time n.path).2

def Emits (interval : τ) (ns : List (Notification τ)) (k : Nat) : Prop :=
    eventAt interval ns k ≠ none

/-- Of the notifications before `k`, the last one that became an event. -/
structure Latest (interval : τ) (ns : List (Notification τ)) (k j : Nat) : Prop where
  before : j < k
  emits : Emits interval ns j
  last : ∀ i, j < i → i < k → ¬ Emits interval ns i

variable {interval : τ} {ns : List (Notification τ)} {n m : Notification τ} {j k : Nat}

theorem after_succ (found : ns[k]? = some n) :
    after interval ns (k + 1) = ((after interval ns k).notify n.time n.path).1 := by
  rw [after, take_succ_of_found found, List.foldl_append]
  rfl

theorem eventAt_eq (found : ns[k]? = some n) :
    eventAt interval ns k = ((after interval ns k).notify n.time n.path).2 := by
  rw [eventAt, found]
  rfl

/-- A notification either is counted and no more, or becomes an event and is remembered. -/
theorem notify_cases (t : Throttle τ) (now : τ) (path : Option String) :
    (t.suppresses now = true ∧ t.notify now path = ({ t with notified := t.notified + 1 }, none)) ∨
      (t.suppresses now = false ∧ t.notify now path =
        (⟨t.interval, t.notified + 1, some now⟩, some ⟨t.notified + 1, path⟩)) := by
  cases kept : t.suppresses now with
  | true => exact Or.inl ⟨rfl, by simp [notify, kept]⟩
  | false => exact Or.inr ⟨rfl, by simp [notify, kept]⟩

theorem Latest.unique {i : Nat} (h : Latest interval ns k i) (h' : Latest interval ns k j) :
    i = j := by
  rcases Nat.lt_trichotomy i j with less | same | more
  · exact absurd h'.emits (h.last j less h'.before)
  · exact same
  · exact absurd h.emits (h'.last i more h.before)

theorem latest_succ_of_emits (emits : Emits interval ns k) : Latest interval ns (k + 1) k where
  before := Nat.lt_succ_self k
  emits := emits
  last i after before := by omega

/-- A notification that is suppressed leaves the latest one as it is. -/
theorem latest_succ_iff (silent : ¬ Emits interval ns k) :
    Latest interval ns (k + 1) j ↔ Latest interval ns k j := by
  constructor
  · intro h
    have other : j ≠ k := fun same => silent (same ▸ h.emits)
    have before := h.before
    exact ⟨by omega, h.emits, fun i after before => h.last i after (by omega)⟩
  · intro h
    refine ⟨Nat.lt_succ_of_lt h.before, h.emits, fun i after before => ?_⟩
    by_cases same : i = k
    · exact same ▸ silent
    · exact h.last i after (by omega)

theorem exists_latest (before : j < k) (emits : Emits interval ns j) :
    ∃ i, j ≤ i ∧ Latest interval ns k i := by
  induction k with
  | zero => exact absurd before (Nat.not_lt_zero j)
  | succ k ih =>
      by_cases last : Emits interval ns k
      · exact ⟨k, Nat.lt_succ_iff.mp before, latest_succ_of_emits last⟩
      · have other : j ≠ k := fun same => last (same ▸ emits)
        obtain ⟨i, le, latest⟩ := ih (by omega)
        exact ⟨i, le, (latest_succ_iff last).mpr latest⟩

/-- What the throttle remembers: how many notifications there were, and when the latest of them was
that became an event. -/
structure Remembers (interval : τ) (ns : List (Notification τ)) (k : Nat) : Prop where
  pace : (after interval ns k).interval = interval
  notified : (after interval ns k).notified = k
  last : ∀ t, (after interval ns k).last = some t ↔
    ∃ j m, Latest interval ns k j ∧ ns[j]? = some m ∧ m.time = t

theorem Remembers.step (h : Remembers interval ns k) (found : ns[k]? = some n) :
    Remembers interval ns (k + 1) := by
  rcases notify_cases (after interval ns k) n.time n.path with ⟨-, answer⟩ | ⟨-, answer⟩
  · have silent : ¬ Emits interval ns k := by
      rw [Emits, eventAt_eq found, answer]
      exact fun some => some rfl
    have next : after interval ns (k + 1) = _ := after_succ found
    rw [answer] at next
    constructor
    · rw [next]
      exact h.pace
    · rw [next]
      exact congrArg (· + 1) h.notified
    · intro t
      simp only [latest_succ_iff silent]
      rw [next]
      exact h.last t
  · have emits : Emits interval ns k := by
      rw [Emits, eventAt_eq found, answer]
      nofun
    have next : after interval ns (k + 1) = _ := after_succ found
    rw [answer] at next
    constructor
    · rw [next]
      exact h.pace
    · rw [next]
      exact congrArg (· + 1) h.notified
    · intro t
      rw [next, Option.some.injEq]
      constructor
      · intro same
        exact ⟨k, n, latest_succ_of_emits emits, found, same⟩
      · rintro ⟨j, m, latest, found', same⟩
        obtain rfl : j = k := latest.unique (latest_succ_of_emits emits)
        cases found.symm.trans found'
        exact same

theorem remembers (interval : τ) (ns : List (Notification τ)) (le : k ≤ ns.length) :
    Remembers interval ns k := by
  induction k with
  | zero =>
      refine ⟨rfl, rfl, fun t => ?_⟩
      constructor
      · nofun
      · rintro ⟨j, m, latest, -⟩
        exact absurd latest.before (Nat.not_lt_zero j)
  | succ k ih =>
      have found : ns[k]? = some ns[k] := List.getElem?_eq_getElem le
      exact (ih (Nat.le_of_succ_le le)).step found

theorem remembers_of_found (interval : τ) (found : ns[k]? = some n) : Remembers interval ns k :=
  remembers interval ns (Nat.le_of_lt (List.getElem?_eq_some_iff.mp found).1)

/-- A notification is suppressed if the latest event is less than the interval ago. -/
theorem not_emits_iff (found : ns[k]? = some n) :
    ¬ Emits interval ns k ↔ 0 < interval ∧ ∃ j m, Latest interval ns k j ∧ ns[j]? = some m ∧
      n.time - m.time < interval := by
  have known := remembers_of_found interval found
  have kept : ¬ Emits interval ns k ↔ (after interval ns k).suppresses n.time = true := by
    rw [Emits, eventAt_eq found]
    rcases notify_cases (after interval ns k) n.time n.path with ⟨kept, answer⟩ | ⟨kept, answer⟩ <;>
      simp [kept, answer]
  rw [kept]
  cases last : (after interval ns k).last with
  | none =>
      simp only [suppresses, last, Bool.false_eq_true, false_iff, not_and, not_exists]
      intro _ j m latest found'
      rw [(known.last m.time).mpr ⟨j, m, latest, found', rfl⟩] at last
      cases last
  | some t =>
      obtain ⟨j, m, latest, found', rfl⟩ := (known.last t).mp last
      simp only [suppresses, last, known.pace, Bool.and_eq_true, decide_eq_true_eq]
      constructor
      · rintro ⟨positive, near⟩
        exact ⟨positive, j, m, latest, found', near⟩
      · rintro ⟨positive, j', m', latest', found'', near⟩
        obtain rfl : j' = j := latest'.unique latest
        cases found'.symm.trans found''
        exact ⟨positive, near⟩

/-- Events are at least the interval apart, also those that are not next to each other: by induction
on the later one, from it to the latest one before it. -/
theorem spaced [IsOrderedAddMonoid τ] (positive : 0 < interval) (before : j < k)
    (emits : Emits interval ns j) (emits' : Emits interval ns k) (found : ns[j]? = some m) (found' : ns[k]? = some n) :
    interval ≤ n.time - m.time := by
  induction k using Nat.strong_induction_on generalizing n with
  | _ k ih =>
      obtain ⟨i, le, latest⟩ := exists_latest before emits
      obtain ⟨l, found''⟩ : ∃ l, ns[i]? = some l := by
        have inside : i < ns.length := by
          have := (List.getElem?_eq_some_iff.mp found').1
          have := latest.before
          omega
        exact ⟨_, List.getElem?_eq_getElem inside⟩
      have far : interval ≤ n.time - l.time := by
        by_contra near
        exact (not_emits_iff found').mpr ⟨positive, i, l, latest, found'', not_le.mp near⟩ emits'
      rcases Nat.eq_or_lt_of_le le with rfl | less
      · cases found.symm.trans found''
        exact far
      · have within := ih i latest.before less latest.emits found''
        calc interval ≤ n.time - l.time := far
          _ ≤ n.time - l.time + (l.time - m.time) :=
              le_add_of_nonneg_right (positive.le.trans within)
          _ = n.time - m.time := sub_add_sub_cancel _ _ _

/-- An event carries the number of notifications up to its own. -/
theorem eventAt_numbered {e : ProgressEvent} (h : eventAt interval ns k = some e) :
    ∃ n, ns[k]? = some n ∧ e = ⟨k + 1, n.path⟩ := by
  obtain ⟨n, found, -⟩ := Option.bind_eq_some_iff.mp h
  have known := remembers_of_found interval found
  refine ⟨n, found, ?_⟩
  rw [eventAt_eq found] at h
  rcases notify_cases (after interval ns k) n.time n.path with ⟨-, answer⟩ | ⟨-, answer⟩
  · rw [answer] at h
    cases h
  · rw [answer, known.notified] at h
    cases h
    rfl

/-! ## The callback

Whatever the calls end with, the throttle and the events are the same. -/

variable {call : Nat → Except Failure Unit}

theorem Relay.notify_throttle (r : Relay τ) (n : Notification τ) :
    (r.notify call n).throttle = (r.throttle.notify n.time n.path).1 := by
  unfold Relay.notify
  split <;> rename_i answer <;> rw [answer]

theorem Relay.notify_events (r : Relay τ) (n : Notification τ) :
    (r.notify call n).events = r.events ++ (r.throttle.notify n.time n.path).2.toList := by
  unfold Relay.notify
  split <;> rename_i answer <;> rw [answer] <;> simp

theorem Relay.notify_answers (r : Relay τ) (n : Notification τ) :
    (r.notify call n).answers = r.answers ++ [if (r.throttle.notify n.time n.path).2 = none then .ok ()
      else call r.events.length] := by
  unfold Relay.notify
  split <;> rename_i answer <;> rw [answer] <;> simp

theorem relay_take_throttle (interval : τ) (call : Nat → Except Failure Unit)
    (ns : List (Notification τ)) (k : Nat) :
    (relay interval call (ns.take k)).throttle = after interval ns k :=
  (List.foldl_hom Relay.throttle fun r n => (r.notify_throttle n).symm).symm

theorem relay_take_succ (found : ns[k]? = some n) :
    relay interval call (ns.take (k + 1)) = (relay interval call (ns.take k)).notify call n := by
  rw [relay, take_succ_of_found found, List.foldl_append]
  rfl

theorem relay_events_succ (found : ns[k]? = some n) :
    (relay interval call (ns.take (k + 1))).events =
      (relay interval call (ns.take k)).events ++ (eventAt interval ns k).toList := by
  rw [relay_take_succ found, Relay.notify_events, relay_take_throttle, eventAt_eq found]

theorem relay_answers_succ (found : ns[k]? = some n) :
    (relay interval call (ns.take (k + 1))).answers = (relay interval call (ns.take k)).answers ++
      [if eventAt interval ns k = none then .ok ()
        else call (relay interval call (ns.take k)).events.length] := by
  rw [relay_take_succ found, Relay.notify_answers, relay_take_throttle, eventAt_eq found]

/-- The events so far count up, and none of them counts further than the notifications so far. -/
theorem rising (interval : τ) (call : Nat → Except Failure Unit) (ns : List (Notification τ))
    (k : Nat) (le : k ≤ ns.length) :
    (relay interval call (ns.take k)).events.Pairwise (·.queued < ·.queued) ∧
      ∀ e ∈ (relay interval call (ns.take k)).events, e.queued ≤ k := by
  induction k with
  | zero => exact ⟨List.Pairwise.nil, nofun⟩
  | succ k ih =>
      obtain ⟨ordered, bounded⟩ := ih (Nat.le_of_succ_le le)
      rw [relay_events_succ (List.getElem?_eq_getElem le)]
      cases found : eventAt interval ns k with
      | none =>
          rw [Option.toList_none, List.append_nil]
          exact ⟨ordered, fun e mem => Nat.le_succ_of_le (bounded e mem)⟩
      | some e =>
          obtain ⟨n, -, rfl⟩ := eventAt_numbered found
          constructor
          · refine List.pairwise_append.mpr ⟨ordered, List.pairwise_singleton .., ?_⟩
            rintro e mem _ (_ | ⟨_, ⟨⟩⟩)
            exact Nat.lt_succ_of_le (bounded e mem)
          · intro e mem
            rcases List.mem_append.mp mem with mem | mem
            · exact Nat.le_succ_of_le (bounded e mem)
            · obtain rfl := List.mem_singleton.mp mem
              exact Nat.le_refl (k + 1)

theorem relay_events_indifferent (interval : τ) (other call : Nat → Except Failure Unit)
    (ns : List (Notification τ)) (k : Nat) :
    (relay interval other (ns.take k)).events = (relay interval call (ns.take k)).events := by
  induction k with
  | zero => rfl
  | succ k ih =>
      cases found : ns[k]? with
      | none =>
          have same : ns.take (k + 1) = ns.take k := by
            rw [List.take_add_one, found, Option.toList_none, List.append_nil]
          rw [same, ih]
      | some n => rw [relay_events_succ found, relay_events_succ found, ih]

/-- A monitor that keeps its pace and loses count of nothing. -/
structure Paced (interval : τ) (call : Nat → Except Failure Unit) (ns : List (Notification τ)) :
    Prop where
  counted : ∀ k ≤ ns.length, (relay interval call (ns.take k)).throttle.notified = k
  emitted : ∀ k < ns.length, (relay interval call (ns.take (k + 1))).events =
    (relay interval call (ns.take k)).events ++ (eventAt interval ns k).toList
  answered : ∀ k < ns.length, (relay interval call (ns.take (k + 1))).answers =
    (relay interval call (ns.take k)).answers ++ [if eventAt interval ns k = none then .ok ()
      else call (relay interval call (ns.take k)).events.length]
  first : 0 < ns.length → Emits interval ns 0
  eager : interval ≤ 0 → ∀ k < ns.length, Emits interval ns k
  suppressed : 0 < interval → ∀ k n, ns[k]? = some n → (¬ Emits interval ns k ↔
    ∃ j m, Latest interval ns k j ∧ ns[j]? = some m ∧ n.time - m.time < interval)
  spaced : 0 < interval → ∀ j k m n, j < k → ns[j]? = some m → ns[k]? = some n →
    Emits interval ns j → Emits interval ns k → interval ≤ n.time - m.time ∧ m.time < n.time
  numbered : ∀ k e, eventAt interval ns k = some e → ∃ n, ns[k]? = some n ∧ e = ⟨k + 1, n.path⟩
  rising : (relay interval call ns).events.Pairwise (·.queued < ·.queued)
  /-- Whatever other calls would have ended with. -/
  indifferent : ∀ other k,
    (relay interval other (ns.take k)).throttle = (relay interval call (ns.take k)).throttle ∧
      (relay interval other (ns.take k)).events = (relay interval call (ns.take k)).events

theorem paces [IsOrderedAddMonoid τ] (interval : τ) (call : Nat → Except Failure Unit)
    (ns : List (Notification τ)) : Paced interval call ns where
  counted k le := by
    rw [relay_take_throttle]
    exact (remembers interval ns le).notified
  emitted _ inside := relay_events_succ (List.getElem?_eq_getElem inside)
  answered _ inside := relay_answers_succ (List.getElem?_eq_getElem inside)
  first inside := by
    by_contra silent
    obtain ⟨-, j, -, latest, -⟩ := (not_emits_iff (List.getElem?_eq_getElem inside)).mp silent
    exact Nat.not_lt_zero j latest.before
  eager nonpositive k inside := by
    by_contra silent
    obtain ⟨positive, -⟩ := (not_emits_iff (List.getElem?_eq_getElem inside)).mp silent
    exact absurd positive (not_lt.mpr nonpositive)
  suppressed positive k n found := by
    rw [not_emits_iff found]
    exact and_iff_right positive
  spaced positive j k m n before found found' emits emits' := by
    have far := Throttle.spaced positive before emits emits' found found'
    exact ⟨far, sub_pos.mp (positive.trans_le far)⟩
  numbered _ _ := eventAt_numbered
  rising := by
    have whole := (Throttle.rising interval call ns ns.length le_rfl).1
    rwa [List.take_length] at whole
  indifferent other k :=
    ⟨by rw [relay_take_throttle, relay_take_throttle],
      relay_events_indifferent interval other call ns k⟩

/-- A clock of whole numbers that runs backwards once, with a callback that fails each time. -/
theorem paces_integers :
    Paced (2 : Int) (fun _ => .error (.trouble "full"))
        [⟨5, none⟩, ⟨6, none⟩, ⟨3, none⟩, ⟨7, some "a"⟩] ∧
      (relay (2 : Int) (fun _ => .error (.trouble "full"))
        [⟨5, none⟩, ⟨6, none⟩, ⟨3, none⟩, ⟨7, some "a"⟩]).events = [⟨1, none⟩, ⟨4, some "a"⟩] :=
  ⟨paces 2 _ _, by decide⟩

end FileCensus.Throttle

import FileCensus.Proofs.Settlement

/-!
What a census has written at a moment of its run. As long as nothing goes wrong it is the front of
what the roots give one after the other, in every order of turns.
-/

namespace FileCensus

/-- The front of a row of parts: some whole parts, the front of one more, and nothing after it. -/
theorem flatMap_prefix {α β γ : Type} {as : List α} {bs : List β} {f : α → List γ} {g : β → List γ}
    (front : ∀ (n : Nat) a, as[n]? = some a → ∃ b, bs[n]? = some b ∧ f a <+: g b)
    (whole : ∀ (n m : Nat) a a' b, n < m → as[n]? = some a → as[m]? = some a' → f a' ≠ [] →
      bs[n]? = some b → f a = g b) : as.flatMap f <+: bs.flatMap g := by
  induction as generalizing bs with
  | nil => exact List.nil_prefix
  | cons a as ih =>
      obtain ⟨b, first, early⟩ := front 0 a rfl
      cases bs with
      | nil => cases first
      | cons b' bs =>
          cases first
          rw [List.flatMap_cons, List.flatMap_cons]
          by_cases empty : as.flatMap f = []
          · rw [empty, List.append_nil]
            exact early.trans (List.prefix_append _ _)
          · -- a part behind the first has begun, so the first is whole
            obtain ⟨a', mem, begun⟩ : ∃ a' ∈ as, f a' ≠ [] := by
              simpa [List.flatMap_eq_nil_iff] using empty
            obtain ⟨m, few, rfl⟩ := List.getElem_of_mem mem
            have same : f a = g b := whole 0 (m + 1) a as[m] b (Nat.succ_pos m) rfl
              (List.getElem?_eq_getElem few) begun rfl
            rw [same]
            refine (List.prefix_append_right_inj _).mpr (ih ?_ ?_)
            · exact fun n a' found => front (n + 1) a' found
            · exact fun n m a' a'' b' less found found' begun other =>
                whole (n + 1) (m + 1) a' a'' b' (Nat.succ_lt_succ less) found found' begun other

/-- A walk that nobody has cancelled has put the front of what it comes to. -/
theorem Plan.ComesTo.front {ε : Type} {q : Plan ε} {v w : Walk ε} (h : q.ComesTo v)
    (apart : Walk.Apart q (.fresh q.root) false w) : w.put <+: v.put := by
  obtain ⟨⟨m, rfl⟩, o, ended⟩ := h
  cases apart with
  | stopped seen _ _ => cases seen
  | @free n same =>
      have still : (Walk.fresh q.root).alone q none (max n m) = (Walk.fresh q.root).alone q none m :=
        Walk.after_of_ended ended (Nat.le_max_right n m)
      rw [← Walk.settled_put w, same, ← still]
      exact Walk.collect_after .put q _ (.alone none) (Nat.le_max_left n m)

theorem IsShare.front {s : Settings} {w : Surroundings FileEntry} {root : Path} {x : Share}
    {q : Plan FileEntry} {v : Walk FileEntry} (h : IsShare s w root x)
    (plan : s.plan w root = .ok q) (apart : Walk.Apart q (.fresh q.root) false v) :
    v.put <+: x.entries := by
  cases h with
  | walked plan' comes ended =>
      cases plan.symm.trans plan'
      exact comes.front apart

namespace Census

variable {p : Plan} {c : Census} {s : Settings} {fs : FileSystem} {shares : List Share}

/-- What the jobs have put is the front of what the roots give. -/
theorem Runs.front (h : c.Runs p s fs) (calm : c.core.Calm)
    (given : List.Forall₂ (IsShare s p.surroundings) p.roots shares) :
    c.scanner.jobs.flatMap (·.walk.put) <+: Share.concat shares := by
  have shareOf (n : Nat) (root : Path) (found : p.roots[n]? = some root) :
      ∃ x, shares[n]? = some x ∧ IsShare s p.surroundings root x := by
    obtain ⟨few, rfl⟩ := List.getElem?_eq_some_iff.mp found
    have few' : n < shares.length := given.length_eq ▸ few
    exact ⟨shares[n], List.getElem?_eq_getElem few', given.get few few'⟩
  refine flatMap_prefix ?_ ?_
  · intro n j job
    have plans : c.core.plans[n]? = some j.plan := by
      rw [Core.plans, List.getElem?_map, show c.core.jobs[n]? = some j from job]
      rfl
    obtain ⟨root, found, plan⟩ := h.ledger.booked.plans n _ plans
    obtain ⟨x, share, gives⟩ := shareOf n root found
    have apart := h.ledger.booked.separate n j job
    rw [(calm n j job).token] at apart
    exact ⟨x, share, gives.front plan apart⟩
  · intro n m j j' x less job job' begun share
    have started : j'.handle.future.stage.isStarted = true := by
      by_contra idle
      have untouched := (h.orderly.placed m j' job').untouched (by simpa using idle)
      exact begun (by rw [untouched]; rfl)
    have done : j.handle.isDone = true := h.orderly.done_of_started less job job' started
    obtain ⟨root, found, own⟩ := h.share calm job done
    obtain ⟨x', share', gives⟩ := shareOf n root found
    cases share.symm.trans share'
    exact congrArg Share.entries (own.unique gives)

/-- What has been taken from the queue, and is written or about to be, is the front of it as well. -/
theorem Clean.front (h : c.Clean p s fs)
    (given : List.Forall₂ (IsShare s p.surroundings) p.roots shares) :
    c.taken <+: Share.concat shares := by
  obtain ⟨seals, kept⟩ := h.runs.kept
  obtain ⟨got, sound, taken⟩ := kept.sound
  have whole : c.taken ++ c.scanner.channel.items = c.scanner.jobs.flatMap (·.walk.put) := by
    rw [← taken h.calm.blameless, List.flatMap_def]
    refine sound.accounted.whole.trans ?_
    rw [Core.walks, List.map_map]
    rfl
  exact (whole ▸ List.prefix_append _ _).trans (h.runs.front h.calm.jobs given)

end Census
end FileCensus

import FileCensus.Proofs.Ledger

/-!
What a root gives to a census: the entries that its walk puts by itself, and the report of how the
walk ends. Both are settled by the plan of the root, whoever else walks and in whatever order.
-/

namespace FileCensus

variable {ε : Type}

namespace Walk

variable {q : Plan ε} {t : Token} {w w' : Walk ε} {c : Channel ε}

theorem fail_root (w : Walk ε) (f : Failure) : (w.fail q f).progress.root = w.progress.root := by
  cases f <;> rfl

theorem Trouble.root {f : Failure} (h : Trouble q t w c w' f) :
    w'.progress.root = w.progress.root := by
  cases h <;> rfl

theorem Advance.root {r : Walk ε × Channel ε} (a : Advance q t w c r) :
    r.1.progress.root = w.progress.root := by
  cases a with
  | fails trouble => rw [fail_root, trouble.root]
  | drops _ _ dropped => cases dropped <;> rfl
  | notifies _ => rw [notify_progress]
  | _ => rfl

end Walk

/-- What the walk of a plan comes to by itself. -/
structure Plan.ComesTo (q : Plan ε) (w : Walk ε) : Prop where
  alone : ∃ n, w = (Walk.fresh q.root).alone q none n
  ended : ∃ o, w.phase = .ended o

namespace Plan

variable {q : Plan ε} {w w' : Walk ε} {fs : FileSystem}

theorem ComesTo.unique (h : q.ComesTo w) (h' : q.ComesTo w') : w = w' := by
  obtain ⟨⟨m, rfl⟩, o, ended⟩ := h
  obtain ⟨⟨n, rfl⟩, o', ended'⟩ := h'
  exact (Walk.after_of_ended ended (Nat.le_max_left m n)).symm.trans
    (Walk.after_of_ended ended' (Nat.le_max_right m n))

theorem exists_comesTo (q : Plan ε) (wf : fs.WellFormed) (reads : q.probe.Reads fs) :
    ∃ w, q.ComesTo w := by
  obtain ⟨n, o, ended⟩ := Walk.ends wf reads (Walk.ready_fresh q.root).fits
    (.alone none) (Walk.puts_end_of_room fun _ => rfl)
  exact ⟨_, ⟨n, rfl⟩, o, ended⟩

/-- A walk puts entries of accepted files from the first on, and of all of them if it completes. -/
theorem ComesTo.makes (h : q.ComesTo w) (wf : fs.WellFormed) (reads : q.probe.Reads fs) :
    ∃ done, done <+: q.accepted fs ∧ q.Makes done w.put ∧
      ((∃ path, w.phase = .ended (.ok path)) → done = q.accepted fs) := by
  obtain ⟨⟨n, rfl⟩, -⟩ := h
  have ready : (Walk.fresh q.root : Walk ε).Ready := Walk.ready_fresh q.root
  obtain ⟨done, tally⟩ := Walk.tally_after wf reads ready.fits ready.tally (.alone none) n
  rw [List.nil_append] at tally
  obtain ⟨new, put, makes⟩ := tally.entries
  have put : ((Walk.fresh q.root).alone q none n).put = new := put
  refine ⟨done, tally.prefix_accepted, put ▸ makes, ?_⟩
  rintro ⟨path, ended⟩
  have ended : ((Walk.fresh q.root).after q (.alone none) n).phase = .ended (.ok path) := ended
  have empty := (Walk.fits_after wf reads ready.fits (.alone none) n).phase
  rw [ended] at empty
  refine tally.eq_accepted ?_ (by simp [ended])
  simp [Walk.agenda, ended, Phase.agenda, show _ = [] from empty]

theorem ComesTo.queued (h : q.ComesTo w) : w.progress.queued = w.put.length := by
  obtain ⟨⟨n, rfl⟩, -⟩ := h
  suffices still : ∀ m, ((Walk.fresh q.root).after q (.alone none) m).progress.queued =
      ((Walk.fresh q.root).after q (.alone none) m).put.length from still n
  intro m
  induction m with
  | zero => rfl
  | succ m ih =>
      obtain ⟨new, delivers⟩ := (Walk.step_advances q ((Course.alone none : Course ε).token m)
        ((Walk.fresh q.root).after q (.alone none) m)
        ((Course.alone none : Course ε).channel m)).delivers
      rw [Walk.after, delivers.queued, delivers.put, ih, List.length_append]

theorem ComesTo.root (h : q.ComesTo w) : w.progress.root = q.root.text := by
  obtain ⟨⟨n, rfl⟩, -⟩ := h
  suffices still : ∀ m, ((Walk.fresh q.root).after q (.alone none) m).progress.root =
      q.root.text from still n
  intro m
  induction m with
  | zero => rfl
  | succ m ih => exact (Walk.Advance.root (Walk.step_advances _ _ _ _)).trans ih

/-- A job that nobody has cancelled comes to what its walk comes to by itself. -/
theorem comesTo_of_apart (apart : Walk.Apart q (.fresh q.root) false w) {o : Outcome}
    (ended : w.phase = .ended o) : q.ComesTo w.settled := by
  cases apart with
  | stopped seen _ _ => cases seen
  | @free n same => exact ⟨⟨n, same⟩, o, Walk.settled_of_ended ended⟩

end Plan

/-- A job as it is when its walk has ended, if nobody has cancelled it. -/
def Job.concluded (q : Plan ε) (w : Walk ε) (o : Outcome) : Job ε :=
    ⟨⟨q.root, ⟨.finished o, []⟩, .fresh⟩, q, w⟩

theorem Job.report_concluded {j : Job ε} {o : Outcome}
    (finished : j.handle.future.stage = .finished o) :
    j.report = (Job.concluded j.plan j.walk.settled o).report := by
  simp only [report, statistics, error?, Handle.status, Handle.isCancelled, Handle.failure,
    Future.failure, finished, concluded, Walk.settled_progress]
  rfl

theorem Job.concluded_completed (q : Plan ε) (w : Walk ε) (o : Outcome) :
    (Job.concluded q w o).report.status = .completed ↔ ∃ path, o = .ok path := by
  cases o with
  | ok path => simp [report, concluded, Handle.status, Handle.isCancelled]
  | error f =>
      cases cancellation : f.isCancellation <;>
        simp [report, concluded, Handle.status, Handle.isCancelled, cancellation]

/-- What a census has from one root. -/
structure Share where
  entries : List FileEntry
  report : JobReport

/-- The entries of shares, one share after the other. -/
def Share.concat (shares : List Share) : List FileEntry :=
    shares.flatMap (·.entries)

/-- What a root gives by itself. -/
inductive IsShare (s : Settings) (w : Surroundings FileEntry) (root : Path) : Share → Prop where
  | walked {q : Plan FileEntry} {v : Walk FileEntry} {o : Outcome} (plan : s.plan w root = .ok q)
      (comes : q.ComesTo v) (ended : v.phase = .ended o) :
      IsShare s w root ⟨v.put, (Job.concluded q v o).report⟩

namespace IsShare

variable {s : Settings} {w : Surroundings FileEntry} {root : Path} {x y : Share}

theorem unique (h : IsShare s w root x) (h' : IsShare s w root y) : x = y := by
  cases h with
  | walked plan comes ended =>
      cases h' with
      | walked plan' comes' ended' =>
          cases plan.symm.trans plan'
          cases comes.unique comes'
          cases ended.symm.trans ended'
          rfl

end IsShare

/-- A share is in order: its report is on the root and counts its entries, and these are made of
accepted files, the first of them if the root fails and all if it is completed. -/
structure Share.Tallies (s : Settings) (w : Surroundings FileEntry) (fs : FileSystem) (root : Path)
    (x : Share) : Prop where
  named : x.report.statistics.root = root.text
  queued : x.report.statistics.queued = x.entries.length
  entries : ∃ q done, s.plan w root = .ok q ∧ done <+: q.accepted fs ∧ q.Makes done x.entries ∧
    (x.report.status = .completed → done = q.accepted fs)

theorem IsShare.tallies {s : Settings} {w : Surroundings FileEntry} {root : Path} {x : Share}
    {fs : FileSystem} (h : IsShare s w root x) (wf : fs.WellFormed) (reads : w.probe.Reads fs) :
    x.Tallies s w fs root := by
  cases h with
  | @walked q v o plan comes ended =>
      have planned := Settings.plan_isFor plan
      have reads : q.probe.Reads fs := planned.probe ▸ reads
      obtain ⟨done, early, makes, all⟩ := comes.makes wf reads
      refine ⟨comes.root.trans (congrArg Path.text planned.root), comes.queued, q, done, plan, early,
        makes, fun completed => ?_⟩
      obtain ⟨path, rfl⟩ := (Job.concluded_completed q v o).mp completed
      exact all ⟨path, ended⟩

theorem exists_share {s : Settings} {w : Surroundings FileEntry} {root : Path}
    {q : Plan FileEntry} {fs : FileSystem} (wf : fs.WellFormed) (reads : w.probe.Reads fs)
    (plan : s.plan w root = .ok q) : ∃ x, IsShare s w root x := by
  have reads : q.probe.Reads fs := (Settings.plan_isFor plan).probe ▸ reads
  obtain ⟨v, comes⟩ := q.exists_comesTo wf reads
  obtain ⟨o, ended⟩ := comes.ended
  exact ⟨_, .walked plan comes ended⟩

theorem exists_shares {s : Settings} {w : Surroundings FileEntry} {roots : List Path}
    {fs : FileSystem} (wf : fs.WellFormed) (reads : w.probe.Reads fs)
    (plans : ∀ root ∈ roots, ∃ q, s.plan w root = .ok q) :
    ∃ shares, List.Forall₂ (IsShare s w) roots shares := by
  induction roots with
  | nil => exact ⟨[], .nil⟩
  | cons root roots ih =>
      obtain ⟨q, plan⟩ := plans root List.mem_cons_self
      obtain ⟨x, share⟩ := exists_share wf reads plan
      obtain ⟨shares, rest⟩ := ih fun root' mem => plans root' (List.mem_cons_of_mem root mem)
      exact ⟨x :: shares, .cons share rest⟩

end FileCensus

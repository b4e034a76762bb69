import FileCensus.Proofs.Coverage
import FileCensus.Proofs.Monitoring

/-!
What the books of a run add up to, whatever the token, the queue, the latch, the factory and the
monitor do. Each entry that is judged ends up in one figure, or is none that a figure is kept of, or
is in hand; the signals keep step with the puts up to a latch that is found sealed. That a run comes
to an end is not said here.
-/

namespace FileCensus

variable {ε : Type}

theorem Fault.kind_ne (f : Fault) : f.kind ≠ "" := by
  cases f with
  | plain m => simp [kind]
  | coded n t file =>
      simp only [kind]
      split_ifs <;> simp

theorem Failure.kind_ne (f : Failure) : f.kind ≠ "" := by
  cases f with
  | system fault => exact fault.kind_ne
  | glob e => simp only [kind]; split <;> simp
  | scalar fault => cases fault <;> simp [kind, Yaml.ScalarFault.kind]
  | template fault => cases fault <;> simp [kind, Log.TemplateFault.kind]
  | time fault => cases fault <;> simp [kind, Log.TimeFault.kind]
  | _ => simp [kind]

/-- What is recorded of a failure says something. -/
theorem Failure.record_ne (f : Failure) : f.record ≠ "" := by
  unfold record
  split
  · exact f.kind_ne
  · assumption

namespace Hand

/-- One if the counter has not been told yet of the entry in hand, which has been put. -/
@[simp] def uncounted : Hand ε → Nat
  | .put _ => 1
  | _ => 0

/-- The entry in hand, if it has been put and the latch has not been told yet. -/
@[simp] def unsignalled : Hand ε → List ε
  | .put e | .counted e => [e]
  | _ => []

/-- The entry in hand, if its signal has succeeded and the monitor has not been told yet. -/
@[simp] def untold : Hand ε → List ε
  | .signalled e => [e]
  | _ => []

/-- The path in hand, if the factory has not been asked for an entry yet. -/
@[simp] def unasked : Hand ε → List Path
  | .chosen path => [path]
  | _ => []

/-- The entry in hand, if it has not been put yet. -/
@[simp] def unput : Hand ε → List ε
  | .made e => [e]
  | _ => []

/-- One if the entry in hand is in no figure yet but in that of the entries judged. -/
@[simp] def unfiled : Hand ε → Nat
  | .chosen _ | .made _ => 1
  | _ => 0

end Hand

/-- The entries that are made of paths, those left out that none can be made of. -/
def Plan.madeOf (p : Plan ε) (paths : List Path) : List ε :=
    paths.filterMap fun path => (p.make path).toOption

theorem Plan.madeOf_snoc (p : Plan ε) (paths : List Path) (path : Path) :
    p.madeOf (paths ++ [path]) = p.madeOf paths ++ (p.make path).toOption.toList := by
  cases made : p.make path <;> simp [madeOf, made, Except.toOption]

/-- The entries judged that are not excluded and are directories. -/
def Plan.entered (p : Plan ε) (fs : FileSystem) (judged : List (List String)) : Nat :=
    judged.countP fun s => p.keeps s && p.kindAt fs s == some .directory

/-- The entries judged that are not excluded and neither directories nor files. -/
def Plan.strange (p : Plan ε) (fs : FileSystem) (judged : List (List String)) : Nat :=
    judged.countP fun s => p.keeps s && p.kindAt fs s != some .directory &&
      p.kindAt fs s != some .file

/-- An entry that no figure is kept of is not excluded and no file. -/
theorem Plan.others_snoc (p : Plan ε) (fs : FileSystem) (judged : List (List String))
    (s : List String) : p.entered fs (judged ++ [s]) + p.strange fs (judged ++ [s]) =
      p.entered fs judged + p.strange fs judged +
        if p.keeps s = true ∧ p.kindAt fs s ≠ some .file then 1 else 0 := by
  simp only [entered, strange, List.countP_append, List.countP_singleton]
  cases p.keeps s with
  | false => simp
  | true =>
      cases p.kindAt fs s with
      | none => simp; omega
      | some k => cases k <;> simp <;> omega

/-- A walk that has failed posts nothing any more. -/
theorem Posts.of_lost {p : Plan ε} {fs : FileSystem} {c : Channel ε} {d : Sheet ε} {h : Hand ε}
    (posts : Posts p fs c .lost d h) : d = {} := by
  cases posts with
  | rests | stops _ => rfl

theorem Plan.tells_append (p : Plan ε) (es es' : List ε) :
    p.tells (es ++ es') = p.tells es ++ p.tells es' := by
  unfold tells
  split <;> simp

@[simp] theorem Plan.tells_nil (p : Plan ε) : p.tells [] = [] := by
  simp [tells]

namespace Sheet

variable {p : Plan ε} {fs : FileSystem} {c : Channel ε} {g d : Sheet ε} {h h' : Hand ε}

/-- The figures of the books are those of the events. -/
structure Counts (g : Sheet ε) (h : Hand ε) : Prop where
  visited : g.visited = g.judged.length
  queued : g.queued = g.put.length
  counted : g.counted + h.uncounted = g.put.length
  failed : g.failed = g.errors.length

theorem Counts.post (counts : Counts g h) (posts : Posts p fs c h d h') : Counts (g ++ d) h' := by
  obtain ⟨visited, queued, counted, failed⟩ := counts
  cases posts with
  | stops unput =>
      rw [append_empty]
      refine ⟨visited, queued, ?_, failed⟩
      obtain rfl | ⟨e, rfl⟩ := unput <;> exact counted
  | rests | refuses _ =>
      rw [append_empty]
      exact ⟨visited, queued, counted, failed⟩
  | errs _ | skips _ | passes _ _ | chooses _ _ | loses _ | makes _ | puts _ | counts _
  | signals _ | notifies _ =>
      constructor <;> simp_all [append_eq, Hand.uncounted]

/-- What is asked of the factory and what it answers. -/
structure Serves (p : Plan ε) (g : Sheet ε) (h : Hand ε) : Prop where
  order : (g.asked ++ h.unasked).Sublist (g.judged.map p.root.below)
  errors : g.errors = g.asked.filterMap p.recordOf
  put : h ≠ .lost → g.put ++ h.unput = p.madeOf g.asked
  inTime : g.put <+: p.madeOf g.asked

theorem Serves.post (serves : Serves p g h) (posts : Posts p fs c h d h') :
    Serves p (g ++ d) h' := by
  obtain ⟨order, errors, put, inTime⟩ := serves
  cases posts with
  | rests =>
      rw [append_empty]
      exact ⟨order, errors, put, inTime⟩
  | stops _ | refuses _ =>
      rw [append_empty]
      refine ⟨List.Sublist.trans ?_ order, errors, fun alive => absurd rfl alive, inTime⟩
      simp
  | errs s =>
      refine ⟨?_, ?_, fun alive => absurd rfl alive, ?_⟩
      · simpa [append_eq] using order.trans (List.sublist_append_left _ [p.root.below s])
      · simpa [append_eq] using errors
      · simpa [append_eq] using inTime
  | @skips s _ | @passes s _ _ =>
      refine ⟨?_, ?_, fun _ => ?_, ?_⟩
      · simpa [append_eq] using order.trans (List.sublist_append_left _ [p.root.below s])
      · simpa [append_eq] using errors
      · simpa [append_eq] using put (by simp)
      · simpa [append_eq] using inTime
  | @chooses s _ _ =>
      refine ⟨?_, ?_, fun _ => ?_, ?_⟩
      · simpa [append_eq] using order.append (List.Sublist.refl [p.root.below s])
      · simpa [append_eq] using errors
      · simpa [append_eq] using put (by simp)
      · simpa [append_eq] using inTime
  | @loses path f answer =>
      have same : p.madeOf (g.asked ++ [path]) = p.madeOf g.asked := by
        simp [Plan.madeOf_snoc, answer, Except.toOption]
      refine ⟨?_, ?_, fun _ => ?_, ?_⟩
      · simpa [append_eq] using order
      · simp [append_eq, errors, Plan.recordOf, answer]
      · simpa [append_eq, same] using put (by simp)
      · simpa [append_eq, same] using inTime
  | @makes path e made =>
      have more : p.madeOf (g.asked ++ [path]) = p.madeOf g.asked ++ [e] := by
        simp [Plan.madeOf_snoc, made, Except.toOption]
      refine ⟨?_, ?_, fun _ => ?_, ?_⟩
      · simpa [append_eq] using order
      · simp [append_eq, errors, Plan.recordOf, made]
      · simpa [append_eq, more] using put (by simp)
      · simpa [append_eq, more] using inTime.trans (List.prefix_append _ [e])
  | puts e =>
      have all : g.put ++ [e] = p.madeOf g.asked := put (by simp)
      refine ⟨?_, ?_, fun _ => ?_, ?_⟩
      · simpa [append_eq] using order
      · simpa [append_eq] using errors
      · simpa [append_eq] using all
      · simp [append_eq, all]
  | counts _ | signals _ | notifies _ =>
      refine ⟨?_, ?_, fun _ => ?_, ?_⟩
      · simpa [append_eq] using order
      · simpa [append_eq] using errors
      · simpa [append_eq] using put (by simp)
      · simpa [append_eq] using inTime

/-- Each entry judged ends up in one place. -/
structure Balances (p : Plan ε) (fs : FileSystem) (g : Sheet ε) (h : Hand ε) : Prop where
  even : h ≠ .lost → g.visited = g.queued + g.skipped + g.failed + p.entered fs g.judged +
    p.strange fs g.judged + h.unfiled
  bound : g.queued + g.skipped + g.failed + h.unfiled ≤ g.visited

theorem Balances.post (balances : Balances p fs g h) (posts : Posts p fs c h d h') :
    Balances p fs (g ++ d) h' := by
  obtain ⟨even, bound⟩ := balances
  cases posts with
  | rests =>
      rw [append_empty]
      exact ⟨even, bound⟩
  | stops _ | refuses _ =>
      rw [append_empty]
      refine ⟨fun alive => absurd rfl alive, ?_⟩
      simp only [Hand.unfiled] at bound ⊢
      omega
  | errs s =>
      refine ⟨fun alive => absurd rfl alive, ?_⟩
      simp only [append_eq, Hand.unfiled] at bound ⊢
      omega
  | @skips s out =>
      have same := p.others_snoc fs g.judged s
      have filed : ¬ (p.keeps s = true ∧ p.kindAt fs s ≠ some .file) := fun ⟨kept, other⟩ =>
        other (p.kindAt_eq_some.mpr (out kept))
      rw [if_neg filed] at same
      have before := even (by simp)
      constructor <;> simp only [append_eq, Hand.unfiled] at before bound ⊢ <;> omega
  | @passes s kept other =>
      have more := p.others_snoc fs g.judged s
      rw [if_pos ⟨kept, other⟩] at more
      have before := even (by simp)
      constructor <;> simp only [append_eq, Hand.unfiled] at before bound ⊢ <;> omega
  | @chooses s kept file =>
      have same := p.others_snoc fs g.judged s
      have filed : ¬ (p.keeps s = true ∧ p.kindAt fs s ≠ some .file) := fun ⟨_, other⟩ =>
        other (p.kindAt_eq_some.mpr file)
      rw [if_neg filed] at same
      have before := even (by simp)
      constructor <;> simp only [append_eq, Hand.unfiled] at before bound ⊢ <;> omega
  | loses _ | makes _ | puts _ | counts _ | signals _ | notifies _ =>
      have before := even (by simp)
      constructor <;> simp only [append_eq, Hand.unfiled, List.append_nil] at before bound ⊢ <;>
        omega

/-- The latch has been told of these entries, and the monitor of those that are not in hand. -/
structure Heard (p : Plan ε) (g : Sheet ε) (h : Hand ε) (es : List ε) : Prop where
  put : g.put = es ++ h.unsignalled
  signalled : g.signalled = es.length
  notified : g.notified ++ p.tells h.untold = p.tells es

/-- The signals keep step with the puts, unless the latch refuses one. -/
theorem Heard.post {es : List ε} (heard : Heard p g h es) (posts : Posts p fs c h d h') :
    (∃ es', Heard p (g ++ d) h' es') ∨
      ∃ e f, h = .counted e ∧ h' = .lost ∧ d = {} ∧ c.signal = .error f := by
  obtain ⟨put, signalled, notified⟩ := heard
  cases posts with
  | refuses answer => exact Or.inr ⟨_, _, rfl, rfl, rfl, answer⟩
  | rests =>
      refine Or.inl ⟨es, ?_⟩
      rw [append_empty]
      exact ⟨put, signalled, notified⟩
  | stops unput =>
      refine Or.inl ⟨es, ?_⟩
      rw [append_empty]
      obtain rfl | ⟨e, rfl⟩ := unput <;> exact ⟨put, signalled, notified⟩
  | errs _ | skips _ | passes _ _ | chooses _ _ | loses _ | makes _ =>
      refine Or.inl ⟨es, ?_, ?_, ?_⟩
      · simpa [append_eq] using put
      · simpa [append_eq] using signalled
      · simpa [append_eq] using notified
  | puts e | counts e =>
      refine Or.inl ⟨es, ?_, ?_, ?_⟩
      · simpa [append_eq] using put
      · simpa [append_eq] using signalled
      · simpa [append_eq] using notified
  | signals e =>
      refine Or.inl ⟨es ++ [e], ?_, ?_, ?_⟩
      · simpa [append_eq] using put
      · simpa [append_eq] using signalled
      · simpa [append_eq, Plan.tells_append] using notified
  | notifies e =>
      refine Or.inl ⟨es, ?_, ?_, ?_⟩
      · simpa [append_eq] using put
      · simpa [append_eq] using signalled
      · simpa [append_eq] using notified

theorem Heard.ended {es : List ε} (heard : Heard p g h es) (idle : h = .empty ∨ h = .lost) :
    g.signalled = g.put.length ∧ g.notified = p.tells g.put := by
  obtain ⟨put, signalled, notified⟩ := heard
  rcases idle with rfl | rfl
  all_goals
    simp only [Hand.unsignalled, Hand.untold, Plan.tells_nil, List.append_nil] at put notified
    rw [put]
    exact ⟨signalled, notified⟩

end Sheet

namespace Walk

variable {p : Plan ε} {fs : FileSystem} {r : Course ε} {w : Walk ε} {n : Nat} {g d : Sheet ε}

/-- The last put of a walk that met a latch that had been sealed. Its signal is the only one that
was refused, and the walk is over. -/
structure Refused (p : Plan ε) (r : Course ε) (w : Walk ε) (n : Nat) (g : Sheet ε) (m : Nat)
    (e : ε) (es : List ε) : Prop where
  before : m < n
  phase : ∃ path, (w.after p r m).phase = .signalling path e
  latch : ∃ l, (r.channel m).latch = some l ∧ l.isSealed = true
  ended : (w.after p r n).phase = .ended (.error .latchSealed)
  put : g.put = es ++ [e]
  signalled : g.signalled = es.length
  notified : g.notified = p.tells es

/-- What is known of the books of a run at each moment. -/
structure Squares (p : Plan ε) (fs : FileSystem) (r : Course ε) (w : Walk ε) (n : Nat)
    (g : Sheet ε) : Prop where
  sheet : (w.after p r n).sheet = w.sheet ++ g
  counts : g.Counts (w.after p r n).phase.hand
  serves : g.Serves p (w.after p r n).phase.hand
  balances : g.Balances p fs (w.after p r n).phase.hand
  heard : (∃ es, g.Heard p (w.after p r n).phase.hand es) ∨ ∃ m e es, Refused p r w n g m e es

theorem phase_of_counted {phase : Phase ε} {e : ε} (h : phase.hand = .counted e) :
    ∃ path, phase = .signalling path e := by
  cases phase with
  | signalling path e' =>
      cases h
      exact ⟨path, rfl⟩
  | ended o => cases o <;> cases h
  | _ => cases h

theorem Squares.step (squares : Squares p fs r w n g)
    (posting : Posting p fs (w.after p r n) (r.channel n)
      ((w.after p r n).step p (r.token n) (r.channel n)) d) :
    Squares p fs r w (n + 1) (g ++ d) where
  sheet := by rw [after, posting.sheet, squares.sheet, Sheet.append_assoc]
  counts := squares.counts.post posting.posts
  serves := squares.serves.post posting.posts
  balances := squares.balances.post posting.posts
  heard := by
    rcases squares.heard with ⟨es, heard⟩ | ⟨m, e, es, refused⟩
    · rcases heard.post posting.posts with onward | ⟨e, f, counted, lost, rfl, answer⟩
      · exact Or.inl onward
      · obtain ⟨path, phase⟩ := phase_of_counted counted
        obtain ⟨rfl, latch⟩ := Channel.signal_error answer
        have trouble := Trouble.step (p := p) (t := r.token n) (.latched phase answer)
        have put := heard.put
        have notified := heard.notified
        rw [counted] at put notified
        refine Or.inr ⟨n, e, es, Nat.lt_succ_self n, ⟨path, phase⟩, latch, ?_, ?_, ?_, ?_⟩
        · rw [after, trouble]
          rfl
        all_goals rw [Sheet.append_empty]
        · exact put
        · exact heard.signalled
        · simpa using notified
    · have rests := after_of_ended refused.ended (Nat.le_succ n)
      have unposted : d = {} := by
        have posts := posting.posts
        rw [refused.ended] at posts
        exact posts.of_lost
      refine Or.inr ⟨m, e, es, Nat.lt_succ_of_lt refused.before, refused.phase, refused.latch, ?_,
        ?_, ?_, ?_⟩
      · exact (congrArg Walk.phase rests).trans refused.ended
      all_goals rw [unposted, Sheet.append_empty]
      · exact refused.put
      · exact refused.signalled
      · exact refused.notified

theorem exists_posting (wf : fs.WellFormed) (reads : p.probe.Reads fs)
    (directory : p.Names fs [] .directory) (ready : w.Ready) (r : Course ε) (n : Nat) :
    ∃ d, Posting p fs (w.after p r n) (r.channel n)
      ((w.after p r n).step p (r.token n) (r.channel n)) d :=
  (step_advances p (r.token n) _ (r.channel n)).posting wf reads
    (fits_after wf reads ready.fits r n) directory

theorem exists_squares (wf : fs.WellFormed) (reads : p.probe.Reads fs)
    (directory : p.Names fs [] .directory) (ready : w.Ready) (r : Course ε) (n : Nat) :
    ∃ g, Squares p fs r w n g := by
  induction n with
  | zero =>
      have empty : (w.after p r 0).phase.hand = .empty := by
        rw [after, ready.idle]
        rfl
      refine ⟨{}, (Sheet.append_empty _).symm, ?_, ?_, ?_, ?_⟩
      all_goals rw [empty]
      · exact ⟨rfl, rfl, rfl, rfl⟩
      · exact ⟨List.Sublist.refl _, rfl, fun _ => rfl, List.prefix_refl _⟩
      · exact ⟨fun _ => rfl, Nat.le_refl _⟩
      · exact Or.inl ⟨[], rfl, rfl, rfl⟩
  | succ n ih =>
      obtain ⟨g, squares⟩ := ih
      obtain ⟨d, posting⟩ := exists_posting wf reads directory ready r n
      exact ⟨g ++ d, squares.step posting⟩

/-- What the books say of a run after so many steps, if it has added `g` to them. -/
structure Reckoned (p : Plan ε) (fs : FileSystem) (r : Course ε) (w : Walk ε) (n : Nat)
    (g : Sheet ε) : Prop where
  sheet : (w.after p r n).sheet = w.sheet ++ g
  /-- What a step adds is what it leaves on the channel. -/
  channel : ∀ m, ∃ d, (w.after p r (m + 1)).sheet = (w.after p r m).sheet ++ d ∧
    w.leaves p r m = (r.channel m).charged d
  /-- Where nobody else counts, the lifetime count has risen by what this run has counted. -/
  total : (∀ m, m < n → (r.channel (m + 1)).total = (w.leaves p r m).total) →
    (r.channel n).total = (r.channel 0).total + g.counted
  queued : g.queued = g.put.length
  counted : ∀ o, (w.after p r n).phase = .ended o → g.counted = g.put.length
  signals : ∀ o, (w.after p r n).phase = .ended o →
    (g.signalled = g.put.length ∧ g.notified = p.tells g.put) ∨
      ∃ m e es, Refused p r w n g m e es
  monitor : p.monitor.isSome = true → ∀ fails, Matched p (p.monitored fails) r w n
  failed : g.failed = g.errors.length
  errors : g.errors = g.asked.filterMap p.recordOf
  spoken : ∀ e ∈ g.errors, e.message ≠ ""
  order : g.asked.Sublist (g.judged.map p.root.below)
  /-- Nothing is put, counted, signalled or told but what was made, and in the same order. -/
  put : g.put <+: p.madeOf g.asked
  visited : g.visited = g.judged.length
  bound : g.queued + g.skipped + g.failed ≤ g.visited
  returned : ∀ root, (w.after p r n).phase = .ended (.ok root) → g.put = p.madeOf g.asked ∧
    g.visited = g.queued + g.skipped + g.failed + p.entered fs g.judged + p.strange fs g.judged

theorem hand_of_ended {phase : Phase ε} {o : Outcome} (h : phase = .ended o) :
    phase.hand = .empty ∨ phase.hand = .lost := by
  subst h
  cases o with
  | ok _ => exact Or.inl rfl
  | error _ => exact Or.inr rfl

theorem total_of_channel {m : Nat}
    (channel : ∀ m, ∃ d, (w.after p r (m + 1)).sheet = (w.after p r m).sheet ++ d ∧
      w.leaves p r m = (r.channel m).charged d)
    (alone : ∀ k, k < m → (r.channel (k + 1)).total = (w.leaves p r k).total) :
    (r.channel m).total + w.sheet.counted =
      (r.channel 0).total + (w.after p r m).sheet.counted := by
  induction m with
  | zero => rfl
  | succ m ih =>
      have before := ih fun k less => alone k (Nat.lt_succ_of_lt less)
      obtain ⟨d, sheet, charged⟩ := channel m
      rw [alone m (Nat.lt_succ_self m), charged, sheet]
      simp only [Channel.charged, Sheet.append_eq]
      omega

theorem recordOf_message {path : Path} {e : ErrorRecord} (h : p.recordOf path = some e) :
    e.message ≠ "" := by
  unfold Plan.recordOf at h
  split at h
  · next f _ =>
    cases h
    exact f.record_ne
  · cases h

/-- A walk that has returned has nothing in hand. -/
theorem Squares.returned (squares : Squares p fs r w n g) {root : Path}
    (ended : (w.after p r n).phase = .ended (.ok root)) : g.put = p.madeOf g.asked ∧
      g.visited = g.queued + g.skipped + g.failed + p.entered fs g.judged +
        p.strange fs g.judged := by
  have empty : (w.after p r n).phase.hand = .empty := by rw [ended]; rfl
  have put := squares.serves.put
  have even := squares.balances.even
  rw [empty] at put even
  exact ⟨by simpa using put (by simp), even (by simp)⟩

/-- Whatever happens to a run on a directory, its figures, the lifetime count, the latch and the
monitor agree with what it has put, and each entry that it has judged is in one figure or is none
that is counted. -/
theorem after_reckoned (wf : fs.WellFormed) (reads : p.probe.Reads fs)
    (directory : p.Names fs [] .directory) (ready : w.Ready) (r : Course ε) (n : Nat) :
    ∃ g, Reckoned p fs r w n g := by
  obtain ⟨g, squares⟩ := exists_squares wf reads directory ready r n
  have channel : ∀ m, ∃ d, (w.after p r (m + 1)).sheet = (w.after p r m).sheet ++ d ∧
      w.leaves p r m = (r.channel m).charged d := by
    intro m
    obtain ⟨d, posting⟩ := exists_posting wf reads directory ready r m
    exact ⟨d, posting.sheet, posting.channel⟩
  refine ⟨g, ?_⟩
  constructor
  case sheet => exact squares.sheet
  case channel => exact channel
  case total =>
    intro alone
    have totals := total_of_channel channel alone
    rw [squares.sheet] at totals
    simp only [Sheet.append_eq] at totals
    omega
  case queued => exact squares.counts.queued
  case counted =>
    intro o ended
    have counted := squares.counts.counted
    rcases hand_of_ended ended with hand | hand <;> rwa [hand] at counted
  case signals =>
    intro o ended
    rcases squares.heard with ⟨es, heard⟩ | refused
    · exact Or.inl (heard.ended (hand_of_ended ended))
    · exact Or.inr refused
  case monitor => exact fun some fails => matched_of_isSome some fails w r n
  case failed => exact squares.counts.failed
  case errors => exact squares.serves.errors
  case spoken =>
    intro e he
    rw [squares.serves.errors] at he
    obtain ⟨path, -, recorded⟩ := List.mem_filterMap.mp he
    exact recordOf_message recorded
  case order => exact (List.sublist_append_left _ _).trans squares.serves.order
  case put => exact squares.serves.inTime
  case visited => exact squares.counts.visited
  case bound => exact Nat.le_trans (Nat.le_add_right _ _) squares.balances.bound
  case returned => exact fun _ ended => squares.returned ended

/-- The latch has been sealed before the first signal. -/
def sealedCourse : Course String :=
    ⟨fun _ => .fresh, fun _ => .fresh none (some ⟨0, true⟩)⟩

/-- `loopPlan` with a monitor that fails at every notification. -/
def scoldedPlan : Plan String :=
    loopPlan.monitored fun _ => true

theorem loop_reckoned : loopTree.WellFormed ∧ scoldedPlan.probe.Reads loopTree ∧
    scoldedPlan.Names loopTree [] .directory ∧ (fresh loopPlan.root : Walk String).Ready ∧
    ∃ g, Reckoned scoldedPlan loopTree sealedCourse (fresh loopPlan.root) 16 g := by
  have ready := ready_fresh (ε := String) loopPlan.root
  have directory : scoldedPlan.Names loopTree [] .directory := by
    have found : loopTree.find true ⟨.here, []⟩ = .ok [] := by cbv
    exact ⟨[], loopTree.root, Plan.placeOf_nil found, rfl, rfl⟩
  have reads : scoldedPlan.probe.Reads loopTree := loopPlan_reads
  exact ⟨loopTree_wellFormed, reads, directory, ready,
    after_reckoned loopTree_wellFormed reads directory ready sealedCourse 16⟩

end Walk
end FileCensus

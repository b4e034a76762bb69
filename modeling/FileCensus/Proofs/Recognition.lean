import FileCensus.Proofs.Changes

/-!
What options are read from. Only the keys of the options are looked at, in whatever order they come
and whatever else is given; an option is there exactly if one of its keys is. If values are
malformed, the first such option in the order of checking is blamed, under the key that was used for
it. Whether a pattern is well formed is not looked at here: to options it is a text.
-/

namespace FileCensus

/-- Why there is no result. -/
def refusal? {κ α : Type} : Except κ α → Option κ
  | .ok _ => none
  | .error e => some e

namespace OptionName

/-- The keys that an option can be given under, of which the first wins. -/
def keys (n : OptionName) : List String :=
    [n.key, n.otherKey]

/-- What is wrong with a value for an option, and with which item if it is a list. -/
def fault? (n : OptionName) (d : Datum) : Option (Option Nat × OptionFault) :=
    match n with
    | .includeHidden | .includeSystem | .followLinks =>
        refusal? (Options.whole Datum.toSwitch d)
    | .includePattern | .excludePattern => refusal? d.toPatterns
    | .maxDepth => refusal? (Options.whole Datum.toDepth d)

end OptionName

namespace Options

/-- The value that stands under a key; of several, the first. -/
def valueAt (given : Given) (key : String) : Option Datum :=
    (given.find? (·.1 == key)).map (·.2)

/-- The same values stand under the keys of the options, or none. -/
def Agree (given given' : Given) : Prop :=
    ∀ (n : OptionName), ∀ key ∈ n.keys, valueAt given' key = valueAt given key

/-- The name under which an item is blamed that stands under a key. -/
def blamedKey (key : String) (index : Option Nat) : String :=
    key ++ index.elim "" fun i => "." ++ toString i

/-- What is reported of a value that stands under a key, if it is malformed. -/
def complaintOf (key : String) (fault : Option (Option Nat × OptionFault)) : Option ConfigError :=
    fault.map fun f => .option (blamedKey key f.1) f.2

/-- What is reported of an option, if its value is malformed. -/
def complaint? (given : Given) (n : OptionName) : Option ConfigError :=
    (lookup given n).bind fun kv => complaintOf kv.1 (n.fault? kv.2)

/-- The options as they are read where nothing is malformed. -/
def reading (given : Given) : Options where
  includeHidden := valueOf given .includeHidden Datum.toSwitch
  includeSystem := valueOf given .includeSystem Datum.toSwitch
  includePattern := valueOf given .includePattern Datum.toPatterns
  excludePattern := valueOf given .excludePattern Datum.toPatterns
  followLinks := valueOf given .followLinks Datum.toSwitch
  maxDepth := valueOf given .maxDepth Datum.toDepth

/-- A value, unless there is a complaint. -/
def barring {α : Type} (complaint : Option ConfigError) (value : α) : Except ConfigError α :=
    match complaint with
    | some e => .error e
    | .none => .ok value

/-- Of two complaints the first one counts. -/
theorem barring_bind {α β : Type} {first second : Option ConfigError} {a : α} {b : β}
    {next : α → Except ConfigError β} (h : next a = barring second b) :
    barring first a >>= next = barring (first.or second) b := by
  cases first with
  | some e => rfl
  | none => exact h

variable {given given' : Given}

theorem lookup_eq (given : Given) (n : OptionName) :
    lookup given n = ((valueAt given n.key).map (n.key, ·)).or
      ((valueAt given n.otherKey).map (n.otherKey, ·)) := by
  have found : ∀ key, given.find? (·.1 == key) = (valueAt given key).map (key, ·) := by
    intro key
    unfold valueAt
    cases h : given.find? (·.1 == key) with
    | none => rfl
    | some kv =>
        have same : kv.1 = key := by simpa using List.find?_some h
        rw [Option.map_some, Option.map_some, ← same]
  unfold lookup
  rw [found, found]
  cases valueAt given n.key <;> rfl

theorem Agree.lookup_eq (agree : Agree given given') (n : OptionName) :
    lookup given' n = lookup given n := by
  rw [Options.lookup_eq, Options.lookup_eq, agree n n.key (by simp [OptionName.keys]),
    agree n n.otherKey (by simp [OptionName.keys])]

theorem readWith_eq {α : Type} (given : Given) (n : OptionName)
    (read : Datum → Except (Option Nat × OptionFault) α) :
    readWith given n read =
      barring ((lookup given n).bind fun kv => complaintOf kv.1 (refusal? (read kv.2)))
        (valueOf given n read) := by
  unfold readWith valueOf
  cases lookup given n with
  | none => rfl
  | some kv =>
      obtain ⟨key, d⟩ := kv
      simp only [Option.bind_some]
      cases read d with
      | ok v => rfl
      | error e =>
          obtain ⟨index, fault⟩ := e
          cases index with
          | none => simp [barring, refusal?, complaintOf, blamedKey]
          | some i => simp [barring, refusal?, complaintOf, blamedKey, String.append_assoc]

theorem readWith_whole {α : Type} (given : Given) (n : OptionName)
    (read : Datum → Except OptionFault α) :
    readWith given n (whole read) =
      barring ((lookup given n).bind fun kv => complaintOf kv.1 (refusal? (whole read kv.2)))
        (valueOf given n read) := by
  rw [readWith_eq, valueOf_whole]

/-- The first complaint is what is reported; without any, the options are what was read. -/
theorem ofGiven_eq (given : Given) :
    ofGiven given = barring (OptionName.all.findSome? (complaint? given)) (reading given) := by
  unfold ofGiven
  rw [readWith_whole, readWith_whole, readWith_eq, readWith_eq, readWith_whole, readWith_whole]
  have each : ∀ n ns, (n :: ns).findSome? (complaint? given) =
      (complaint? given n).or (ns.findSome? (complaint? given)) := by
    intro n ns
    rw [List.findSome?_cons]
    cases complaint? given n <;> rfl
  simp only [OptionName.all, each, List.findSome?_nil]
  exact barring_bind <| barring_bind <| barring_bind <| barring_bind <| barring_bind <|
    barring_bind rfl

theorem Agree.complaint_eq (agree : Agree given given') :
    complaint? given' = complaint? given := by
  funext n
  rw [complaint?, complaint?, agree.lookup_eq]

theorem Agree.valueOf_eq (agree : Agree given given') {α κ : Type} (n : OptionName)
    (read : Datum → Except κ α) : valueOf given' n read = valueOf given n read := by
  rw [valueOf, valueOf, agree.lookup_eq]

theorem Agree.ofGiven_eq (agree : Agree given given') : ofGiven given' = ofGiven given := by
  simp only [Options.ofGiven_eq, reading, agree.complaint_eq, agree.valueOf_eq]

/-- The value under the key that is used for an option is of no use for it. -/
def Malformed (given : Given) (n : OptionName) : Prop :=
    ∃ key d, lookup given n = some (key, d) ∧ n.fault? d ≠ .none

theorem complaint?_eq_none_iff {n : OptionName} :
    complaint? given n = .none ↔ ¬ Malformed given n := by
  unfold complaint? Malformed
  cases lookup given n with
  | none => simp
  | some kv =>
      obtain ⟨key, d⟩ := kv
      simp [complaintOf]

theorem valueOf_isSome {α : Type} {n : OptionName}
    {read : Datum → Except (Option Nat × OptionFault) α}
    (h : ((lookup given n).bind fun kv => complaintOf kv.1 (refusal? (read kv.2))) = .none) :
    (valueOf given n read).isSome = (lookup given n).isSome := by
  unfold valueOf
  cases found : lookup given n with
  | none => rfl
  | some kv =>
      rw [found] at h
      cases answer : read kv.2 with
      | ok v => simp [answer, Except.toOption]
      | error e => simp [answer, refusal?, complaintOf] at h

theorem isGiven_reading {n : OptionName} (h : complaint? given n = .none) :
    (reading given).isGiven n = (lookup given n).isSome := by
  cases n with
  | includePattern | excludePattern => exact valueOf_isSome h
  | includeHidden | includeSystem | followLinks | maxDepth =>
      have whole := valueOf_isSome h
      rwa [valueOf_whole] at whole

theorem lookup_isSome (given : Given) (n : OptionName) :
    (lookup given n).isSome = n.keys.any fun key => (valueAt given key).isSome := by
  simp [lookup_eq, OptionName.keys, Option.isSome_or]

/-- The key that is used for an option. -/
theorem key_of_lookup {n : OptionName} {key : String} {d : Datum}
    (h : lookup given n = some (key, d)) :
    key = (if (valueAt given n.key).isSome then n.key else n.otherKey) ∧
      valueAt given key = some d := by
  rw [lookup_eq] at h
  cases first : valueAt given n.key with
  | some d' =>
      simp only [first, Option.map_some, Option.some_or, Option.some.injEq, Prod.mk.injEq] at h
      obtain ⟨rfl, rfl⟩ := h
      exact ⟨rfl, first⟩
  | none =>
      simp only [first, Option.map_none, Option.none_or, Option.map_eq_some_iff,
        Prod.mk.injEq] at h
      obtain ⟨d', second, rfl, rfl⟩ := h
      exact ⟨rfl, second⟩

theorem toSwitch_blank {s : String} (blank : Text.allBlank s = true) :
    Datum.toSwitch (.str s) = .ok true := by
  simp [Datum.toSwitch, blank]

theorem toDepth_blank {s : String} (blank : Text.allBlank s = true) :
    Datum.toDepth (.str s) = .ok .none := by
  simp [Datum.toDepth, blank]

/-- What is read from the keys of the options. -/
structure IsByKeys (given : Given) : Prop where
  accepted : (∃ o, ofGiven given = .ok o) ↔ ∀ n, ¬ Malformed given n
  read : ∀ o, ofGiven given = .ok o → AreRead given o
  explicit : ∀ o, ofGiven given = .ok o →
    o.given = OptionName.all.filter fun n => n.keys.any fun key => (valueAt given key).isSome
  blank : ∀ o key s, ofGiven given = .ok o → Text.allBlank s = true →
    (lookup given .includeHidden = some (key, .str s) → o.includeHidden = some true) ∧
    (lookup given .includeSystem = some (key, .str s) → o.includeSystem = some true) ∧
    (lookup given .followLinks = some (key, .str s) → o.followLinks = some true) ∧
    (lookup given .maxDepth = some (key, .str s) → o.maxDepth = some .none)
  blamed : ∀ e, ofGiven given = .error e → ∃ earlier n later,
    OptionName.all = earlier ++ n :: later ∧ (∀ m ∈ earlier, ¬ Malformed given m) ∧
    ∃ key d index fault,
      key = (if (valueAt given n.key).isSome then n.key else n.otherKey) ∧
      valueAt given key = some d ∧ n.fault? d = some (index, fault) ∧
      e.option? = some (key ++ index.elim "" fun i => "." ++ toString i) ∧ e.text = fault.message

theorem barring_ok {α : Type} {complaint : Option ConfigError} {value a : α} :
    barring complaint value = .ok a ↔ complaint = .none ∧ value = a := by
  cases complaint <;> simp [barring]

theorem barring_error {α : Type} {complaint : Option ConfigError} {value : α} {e : ConfigError} :
    barring complaint value = .error e ↔ complaint = some e := by
  cases complaint <;> simp [barring]

theorem no_complaint_iff :
    OptionName.all.findSome? (complaint? given) = .none ↔ ∀ n, ¬ Malformed given n := by
  rw [List.findSome?_eq_none_iff]
  constructor
  · intro none n
    exact complaint?_eq_none_iff.mp (none n (by cases n <;> decide))
  · intro sound n _
    exact complaint?_eq_none_iff.mpr (sound n)

theorem explicit_of_ok {o : Options} (h : ofGiven given = .ok o) :
    o.given = OptionName.all.filter fun n => n.keys.any fun key => (valueAt given key).isSome := by
  rw [ofGiven_eq, barring_ok] at h
  obtain ⟨none, rfl⟩ := h
  refine List.filter_congr fun n _ => ?_
  rw [isGiven_reading (complaint?_eq_none_iff.mpr (no_complaint_iff.mp none n)), lookup_isSome]

theorem blank_of_ok {o : Options} (h : ofGiven given = .ok o) {key s : String}
    (blank : Text.allBlank s = true) :
    (lookup given .includeHidden = some (key, .str s) → o.includeHidden = some true) ∧
    (lookup given .includeSystem = some (key, .str s) → o.includeSystem = some true) ∧
    (lookup given .followLinks = some (key, .str s) → o.followLinks = some true) ∧
    (lookup given .maxDepth = some (key, .str s) → o.maxDepth = some .none) := by
  have read := ofGiven_reads h
  rw [read.includeHidden, read.includeSystem, read.followLinks, read.maxDepth]
  unfold valueOf
  refine ⟨?_, ?_, ?_, ?_⟩ <;> intro found <;>
    simp [found, toSwitch_blank blank, toDepth_blank blank, Except.toOption]

theorem blamed_of_error {e : ConfigError} (h : ofGiven given = .error e) :
    ∃ earlier n later,
      OptionName.all = earlier ++ n :: later ∧ (∀ m ∈ earlier, ¬ Malformed given m) ∧
      ∃ key d index fault,
        key = (if (valueAt given n.key).isSome then n.key else n.otherKey) ∧
        valueAt given key = some d ∧ n.fault? d = some (index, fault) ∧
        e.option? = some (key ++ index.elim "" fun i => "." ++ toString i) ∧
        e.text = fault.message := by
  rw [ofGiven_eq, barring_error, List.findSome?_eq_some_iff] at h
  obtain ⟨earlier, n, later, all, complaint, before⟩ := h
  refine ⟨earlier, n, later, all, fun m hm => complaint?_eq_none_iff.mp (before m hm), ?_⟩
  obtain ⟨kv, found, complaint⟩ := Option.bind_eq_some_iff.mp complaint
  obtain ⟨⟨index, fault⟩, wrong, rfl⟩ := Option.map_eq_some_iff.mp complaint
  obtain ⟨used, there⟩ := key_of_lookup found
  exact ⟨kv.1, kv.2, index, fault, used, there, wrong, rfl, rfl⟩

/-- Only what stands under the keys of the options matters: two mappings that agree there are read
as the same options or refused with the same error. -/
theorem ofGiven_of_agree {given given' : Given} (agree : Agree given given') :
    ofGiven given' = ofGiven given ∧ IsByKeys given := by
  refine ⟨agree.ofGiven_eq, ?_, ?_, ?_, ?_, ?_⟩
  · rw [← no_complaint_iff, ofGiven_eq]
    simp [barring_ok]
  · exact fun o h => ofGiven_reads h
  · exact fun o h => explicit_of_ok h
  · exact fun o key s h blank => blank_of_ok h blank
  · exact fun e h => blamed_of_error h

/-- Two options are malformed, and one is given under both of its keys. -/
def twiceMalformed : Given :=
    [("maxDepth", .int (-3)), ("follow_symlinks", .bool true), ("colour", .str "blue"),
      ("followSymlinks", .list []), ("includeHiddenFiles", .str " ")]

def twiceMalformedElsewhere : Given :=
    [("followSymlinks", .list []), ("includeHiddenFiles", .str " "), ("MAXDEPTH", .int 3),
      ("follow_symlinks", .bool true), ("maxDepth", .int (-3))]

theorem twiceMalformed_of_agree :
    Agree twiceMalformed twiceMalformedElsewhere ∧
      ofGiven twiceMalformed = .error (.option "followSymlinks" .notSwitch) ∧
      ofGiven twiceMalformedElsewhere = ofGiven twiceMalformed ∧ IsByKeys twiceMalformed := by
  have agree : Agree twiceMalformed twiceMalformedElsewhere := by
    intro n key hkey
    simp only [OptionName.keys, List.mem_cons, List.not_mem_nil, or_false] at hkey
    rcases hkey with rfl | rfl <;> cases n <;> rfl
  exact ⟨agree, by rfl, ofGiven_of_agree agree⟩

end Options
end FileCensus

import FileCensus.Config.File
import FileCensus.Proofs.NodeFaults
import FileCensus.Proofs.TokenFaults
import FileCensus.Proofs.ValueFaults

/-!
How the reading of a configuration file can end, whatever bytes it holds. There are options, or the
configuration is refused, but for two sorts of files: those that are not text, and those in which
some text fails at what its form or its tag says that it is. The former are told apart exactly. Of
the latter it is shown that the fault has its reason in the text: in an escape for a code point
that there is not, in a version with too long a number, in a part of the document whose text is
no value of its type, or in a default field that leads back to its own mapping. Such a file need not
end so, for another error may be found before.
-/

namespace FileCensus.Yaml

/-- What in a text gives reason to report a fault that is not one of the notation. -/
inductive Blames (cs : List Char) (fault : ScalarFault) : Prop
  | writing (miswritten : Miswritten cs fault)
  | text {doc : Document} {n : Nat} (read : Document.ofTokens? (tokens cs) = .ok (some doc))
      (betrays : doc.nodes.Betrays n fault)
  | circle {doc : Document} {n : Nat} (read : Document.ofTokens? (tokens cs) = .ok (some doc))
      (endless : fault = .endless) (circles : doc.nodes.Circles n)

theorem blames_of_load {cs : List Char} {fault : ScalarFault}
    (h : load cs = .error (.scalar fault)) : Blames (unifyBreaks cs) fault := by
  unfold load at h
  dsimp only at h
  split_ifs at h
  · cases h
  · cases read : Document.ofTokens? (tokens (unifyBreaks cs)) with
    | error e =>
        rw [read] at h
        cases h
        exact .writing (tokens_faultIn (ofTokens?_toldIn read))
    | ok doc? =>
        rw [read] at h
        cases doc? with
        | none => cases h
        | some doc =>
            rcases atFault_of_datum h with ⟨n, betrays⟩ | ⟨endless, n, circles⟩
            · exact .text read betrays
            · exact .circle read endless circles

end FileCensus.Yaml

namespace FileCensus.Options

/-- How the reading of a file ends that is shown as `file` and holds these bytes. -/
inductive FileEnds (file : String) (bytes : List UInt8) : Except Failure Options → Prop
  | foreign (undecodable : String.fromUTF8? ⟨bytes.toArray⟩ = .none) :
      FileEnds file bytes (.error .undecodable)
  | malformed {s : String} (decoded : String.fromUTF8? ⟨bytes.toArray⟩ = some s)
      (unreadable : Yaml.load s.toList = .error .malformed) :
      FileEnds file bytes (.error (.config (.unreadable file)))
  | betrayed {s : String} (decoded : String.fromUTF8? ⟨bytes.toArray⟩ = some s)
      {fault : Yaml.ScalarFault} (blames : Yaml.Blames (Yaml.unifyBreaks s.toList) fault) :
      FileEnds file bytes (.error (.scalar fault))
  | empty {s : String} (decoded : String.fromUTF8? ⟨bytes.toArray⟩ = some s)
      (loaded : Yaml.load s.toList = .ok .null) : FileEnds file bytes (.ok none)
  | given {s : String} (decoded : String.fromUTF8? ⟨bytes.toArray⟩ = some s)
      {fields : List (Datum × Datum)} (loaded : Yaml.load s.toList = .ok (.mapping fields))
      {o : Options} (read : ofGiven (givenOf fields) = .ok o) : FileEnds file bytes (.ok o)
  | refused {s : String} (decoded : String.fromUTF8? ⟨bytes.toArray⟩ = some s)
      {fields : List (Datum × Datum)} (loaded : Yaml.load s.toList = .ok (.mapping fields))
      {e : ConfigError} (complaint : ofGiven (givenOf fields) = .error e) :
      FileEnds file bytes (.error (.config e))
  | notMapping {s : String} (decoded : String.fromUTF8? ⟨bytes.toArray⟩ = some s) {d : Datum}
      (loaded : Yaml.load s.toList = .ok d) (null : d ≠ .null)
      (other : ∀ fields, d ≠ .mapping fields) : FileEnds file bytes (.error (.config .notMapping))

/-- A text that is at fault, if at all, in its notation or its options is refused as a
configuration. -/
theorem FileEnds.isConfiguration {file : String} {bytes : List UInt8} {f : Failure}
    (h : FileEnds file bytes (.error f)) {s : String}
    (decoded : String.fromUTF8? ⟨bytes.toArray⟩ = some s)
    (blameless : ∀ fault, ¬Yaml.Blames (Yaml.unifyBreaks s.toList) fault) :
    f.isConfiguration = true := by
  cases h with
  | foreign undecodable =>
      rw [undecodable] at decoded
      cases decoded
  | betrayed decoded' blames =>
      rw [decoded'] at decoded
      cases decoded
      exact absurd blames (blameless _)
  | malformed | refused | notMapping => rfl

theorem ofDatum_ends {file : String} {bytes : List UInt8} {s : String}
    (decoded : String.fromUTF8? ⟨bytes.toArray⟩ = some s) {d : Datum}
    (loaded : Yaml.load s.toList = .ok d) : FileEnds file bytes (ofDatum d) := by
  unfold ofDatum
  split
  · exact .empty decoded loaded
  · next fields =>
    cases read : ofGiven (givenOf fields) with
    | ok o => exact .given decoded loaded read
    | error e => exact .refused decoded loaded read
  · next null other => exact .notMapping decoded loaded null other

theorem ofBytes_ends (file : String) (bytes : List UInt8) :
    FileEnds file bytes (ofBytes file bytes) := by
  unfold ofBytes
  split
  · next s decoded =>
    unfold ofText
    split
    · next d loaded => exact ofDatum_ends decoded loaded
    · next unreadable => exact .malformed decoded unreadable
    · next fault failed => exact .betrayed decoded (Yaml.blames_of_load failed)
  · next undecodable => exact .foreign undecodable

/-- Whatever bytes a file holds, there are options or the configuration is refused, unless the file
is not text or some text in it is not what it is said to be. -/
theorem ofFile_ends {fs : FileSystem} {path : Path} {bytes : List UInt8}
    (found : fs.exists? path = .ok true) (readable : fs.content path = .ok bytes) :
    FileEnds path.text bytes (ofFile fs path) ∧
      ∀ s, String.fromUTF8? ⟨bytes.toArray⟩ = some s →
        (∀ fault, ¬Yaml.Blames (Yaml.unifyBreaks s.toList) fault) →
          ∀ f, ofFile fs path = .error f → f.isConfiguration = true := by
  have read : ofFile fs path = ofBytes path.text bytes := by
    simp [ofFile, found, readable, Except.mapError, bind, Except.bind]
  have ends := ofBytes_ends path.text bytes
  rw [← read] at ends
  refine ⟨ends, fun s decoded blameless f failed => ?_⟩
  rw [failed] at ends
  exact ends.isConfiguration decoded blameless

def configPath : Path := ⟨.here, ["scan.yaml"]⟩

/-- A directory with a configuration file. -/
def folderWith (bytes : List UInt8) : FileSystem :=
  ⟨.directory [("scan.yaml", .file (.ofBytes bytes 0))], []⟩

/-- A bracket that is not closed. -/
def unclosed : List UInt8 := "[".toUTF8.toList

theorem unclosed_blameless (fault : Yaml.ScalarFault) : ¬Yaml.Blames ['['] fault := by
  rintro (miswritten | ⟨read, -⟩ | ⟨read, -, -⟩)
  · rcases miswritten.marked with marked | long
    · simp at marked
    · simp [Decimal.numeralLimit] at long
  all_goals
    have malformed : Yaml.Document.ofTokens? (Yaml.tokens ['[']) = .error .malformed := by cbv
    rw [malformed] at read
    cases read

theorem unclosed_ends :
    FileEnds configPath.text unclosed (ofFile (folderWith unclosed) configPath) ∧
      ∀ f, ofFile (folderWith unclosed) configPath = .error f → f.isConfiguration = true := by
  have found : (folderWith unclosed).exists? configPath = .ok true := by cbv
  have readable : (folderWith unclosed).content configPath = .ok unclosed := by cbv
  have ends := ofFile_ends found readable
  exact ⟨ends.1, ends.2 "[" (by cbv) unclosed_blameless⟩

/-- A file with a date that there is not. -/
def misdated : List UInt8 := "maxDepth: 2001-13-45".toUTF8.toList

/-- Neither a file that is not text nor one with such a date is refused as a configuration. -/
theorem foreign_and_misdated_escape :
    ofFile (folderWith [0xFF]) configPath = .error .undecodable ∧
      ofFile (folderWith misdated) configPath = .error (.scalar .monthOutOfRange) := by
  constructor <;> cbv

/-- Nor is a mapping that is to be a text and whose default field is the mapping itself. -/
example : ofText configPath.text "&a !!str \x7b=: *a\x7d".toList = .error (.scalar .endless) := by
  cbv

end FileCensus.Options

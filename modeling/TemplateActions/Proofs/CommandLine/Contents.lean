import TemplateActions.Proofs.CommandLine.Endings
import TemplateActions.Proofs.Config.Contents
import TemplateActions.Proofs.Yaml.Misfits

/-!
What becomes of the contents of a configuration file, whatever they are: settings, a defect that the
program reports, or a failure that ends the run without a report.
-/
namespace TemplateActions

namespace Config

/-- Holds for contents that are a text whose reading fails, though not as malformed. -/
def Stops (bytes : List UInt8) (failure : Yaml.Failure) : Prop :=
  failure ≠ .malformed ∧ ∃ text, Utf8.decode bytes = .ok text ∧
    Yaml.read (Lines.normalize text) = .error failure

theorem ofText_of_failure (file : FileName) {text : List Char} {failure : Yaml.Failure}
    (stops : Yaml.read text = .error failure) (unreported : failure ≠ .malformed) :
    (ofText file text).1 = .error (.value failure) := by
  rw [ofText, stops]
  cases failure <;> first | rfl | exact absurd rfl unreported

theorem ofText_reported (file : FileName) {text : List Char}
    (reads : ∀ failure, Yaml.read text = .error failure → failure = .malformed) :
    (∃ config, (ofText file text).1 = .ok config) ∨
      ∃ cause, (ofText file text).1 = .error (.defect file cause) := by
  rw [ofText]
  cases isRead : Yaml.read text with
  | error failure =>
    cases reads failure isRead
    exact .inr ⟨_, rfl⟩
  | ok data =>
    dsimp only
    cases ofValue data with
    | ok config => exact .inl ⟨config, rfl⟩
    | error cause => exact .inr ⟨cause, rfl⟩

variable {directory : Directory} {root : FileName} {named : Option FileName} {bytes : List UInt8}

theorem Contains.load_of_stops (contains : Contains directory root named bytes)
    {failure : Yaml.Failure}
    (stops : Stops bytes failure) : (load directory root named).1 = .error (.value failure) := by
  obtain ⟨unreported, text, decoded, failed⟩ := stops
  rw [contains.load_eq, decoded]
  exact ofText_of_failure _ failed unreported

theorem Contains.load_reported (contains : Contains directory root named bytes)
    (reads : ∀ failure, ¬ Stops bytes failure) :
    (∃ config, (load directory root named).1 = .ok config) ∨
      ∃ cause, (load directory root named).1 =
        .error (.defect (fileFor directory root named) cause) := by
  rw [contains.load_eq]
  cases decoded : Utf8.decode bytes with
  | error malformed => exact .inr ⟨_, rfl⟩
  | ok text =>
    refine ofText_reported _ fun failure failed => ?_
    by_contra unreported
    exact reads failure ⟨unreported, text, decoded, failed⟩

end Config

namespace CommandLine

open Config (Contains Stops fileFor)

variable {directory : Directory} {root : FileName} {named : Option FileName} {bytes : List UInt8}

/-- Loading a configuration file gives settings or a defect, whatever the file holds, unless its
text is one whose reading stops in another way than as malformed. That takes an escape for a
number beyond the last code point, or a node that has no value or is not read, and a scalar that
does not fit its tag is enough, be it a date that is none. For a defect a run of a command ends
with code 2 and the message, and nothing else; where the reading stops, it ends without a
message. -/
theorem load_of_contents (contains : Contains directory root named bytes) :
    (((∃ config, (Config.load directory root named).1 = .ok config) ∨
        ∃ cause, (Config.load directory root named).1 =
          .error (.defect (fileFor directory root named) cause)) ↔
      ∀ failure, ¬ Stops bytes failure) ∧
    (∀ failure, Stops bytes failure → (Config.load directory root named).1 =
      .error (.value failure) ∧
      ∃ text, Utf8.decode bytes = .ok text ∧ Yaml.StopsAt (Lines.normalize text) failure) ∧
    (∀ text name tag word failure, Utf8.decode bytes = .ok text →
      Yaml.Denotes (Lines.normalize text)
        (.mapping .mapping [(.scalar .text name, .scalar tag word)]) →
      Yaml.Scalar.value? tag word = some (.error failure) → failure ≠ .malformed →
        Stops bytes failure) ∧
    ∀ installed debug args invocation, directory.location = root → invocation.configFile? = named →
      parse args = .ok (.run invocation) →
        (∀ cause, (Config.load directory root named).1 =
          .error (.defect (fileFor directory root named) cause) →
          run installed directory debug args = .ok ⟨2, "", String.ofList
            (Lines.trimRight (cause.report (fileFor directory root named)).toList) ++ "\n"⟩) ∧
        ∀ failure, Stops bytes failure → run installed directory debug args =
          .error (.value failure) := by
  refine ⟨⟨?_, contains.load_reported⟩, fun failure stops => ⟨contains.load_of_stops stops,
    ?_⟩, ?_, ?_⟩
  · rintro loaded failure stops
    have stopped := contains.load_of_stops stops
    rcases loaded with ⟨config, loaded⟩ | ⟨cause, loaded⟩ <;> nomatch stopped.symm.trans loaded
  · obtain ⟨unreported, text, decoded, failed⟩ := stops
    exact ⟨text, decoded, (Yaml.read_failure failed).resolve_left unreported⟩
  · intro text name tag word failure decoded denotes misfit unreported
    exact ⟨unreported, text, decoded, Yaml.read_misfit denotes misfit⟩
  · rintro installed debug args invocation rfl rfl parsed
    constructor
    · intro cause defect
      simp only [run, parsed, runInvocation, defect, refuse, usageCode, String.empty_append]
    · intro failure stops
      simp only [run, parsed, runInvocation, contains.load_of_stops stops]

def noDate : String := "indent: 2001-13-01\n"

theorem noDate_stops :
    Contains (Config.holding noDate) (.ofText "/work") none
      (noDate.toList.map fun c => c.toNat.toUInt8) ∧
      (Config.load (Config.holding noDate) (.ofText "/work") none).1 =
        .error (.value .invalidDate) ∧
      run (some "0.1.0") (Config.holding noDate) none ["kinds"] = .error (.value .invalidDate) := by
  have contains : Contains (Config.holding noDate) (.ofText "/work") none
      (noDate.toList.map fun c => c.toNat.toUInt8) :=
    ⟨by decide +kernel, by decide +kernel, by decide +kernel⟩
  have decoded : Utf8.decode (noDate.toList.map fun c => c.toNat.toUInt8) = .ok noDate.toList :=
    by decide +kernel
  obtain ⟨-, stopped, misfits, runs⟩ := load_of_contents contains
  have stops : Stops (noDate.toList.map fun c => c.toNat.toUInt8) .invalidDate := by
    refine misfits noDate.toList "indent".toList .timestamp "2001-13-01".toList
      .invalidDate decoded ?_ rfl nofun
    have denotes : Yaml.Denotes noDate.toList
        (.mapping .mapping [(.scalar .text "indent".toList,
          .scalar .timestamp "2001-13-01".toList)]) := by
      refine ⟨by decide +kernel, [.blockMappingStart, .key, .scalar true "indent".toList, .value,
        .scalar true "2001-13-01".toList, .blockEnd], by decide +kernel, rfl⟩
    exact denotes
  exact ⟨contains, (stopped _ stops).1,
    (runs (some "0.1.0") none ["kinds"] ⟨"", .kinds⟩ rfl rfl rfl).2 _ stops⟩

end CommandLine
end TemplateActions

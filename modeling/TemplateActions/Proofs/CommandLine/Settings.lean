import TemplateActions.Proofs.CommandLine.Endings

/-!
What settings change. Two runs of one command on one tree may differ in their configurations, in
the flag for layout and in logging: they end alike all the same, and their outputs differ at most
in white space between the tokens of JSON text.
-/
namespace TemplateActions.CommandLine

def Command.plain : Command → Command
  | .actions file _ => .actions file false
  | command => command

/-- The outputs of a command that count as the same. -/
def Command.SameOutput : Command → String → String → Prop
  | .actions .. | .kinds => fun stdout stdout' => Json.Alike stdout.toList stdout'.toList
  | .tree _ => Eq

/-- Two runs that end alike: with the same output, with the message of the same error, or stopped by
the same failure. -/
inductive EndAlike (same : String → String → Prop) (error : String → Prop) : Ran → Ran → Prop
  | printed {stdout stdout' log log' : String} :
      same stdout stdout' → EndAlike same error (.ok ⟨0, stdout, log⟩) (.ok ⟨0, stdout', log'⟩)
  | refused {message log log' : String} :
      error message → EndAlike same error (refuse log message) (refuse log' message)
  | stopped {crash : Crash} : EndAlike same error (.error crash) (.error crash)

/-- Holds if a file stands in both directories with the same text, or is missing in both for the
same reason. -/
structure SameFile (directory directory' : Directory) (name : FileName) : Prop where
  overlong : directory.isOverlong name = directory'.isOverlong name
  text : directory.text? name = directory'.text? name

theorem SameFile.ofFile_eq {directory directory' : Directory} {name : FileName}
    (h : SameFile directory directory' name) :
    Document.ofFile directory name = Document.ofFile directory' name := by
  rw [Document.ofFile, Document.ofFile, h.overlong, h.text]

section

variable {directory directory' : Directory} {invocation invocation' : Invocation}
  {config config' : Config}

theorem answer_alike {indent indent' : Option Int} {log log' : String} {error : String → Prop}
    (document : Json) (fits : indent.bind (Indent.fault? 1) = none)
    (fits' : indent'.bind (Indent.fault? 1) = none) :
    EndAlike (fun stdout stdout' => Json.Alike stdout.toList stdout'.toList) error
      (answer indent log document) (answer indent' log' document) := by
  rw [answer, answer, Json.write_of_fits fits, Json.write_of_fits fits']
  cases document.isWritable with
  | true => exact .printed (Json.alike_render indent indent' _)
  | false => exact .stopped

theorem withTree_alike {file : String} {failure : LoadFailure} {records : List Record}
    {same : String → String → Prop} {error : String → Prop}
    (found : Document.ofFile directory (.ofText file) = (.error failure, records))
    (found' : Document.ofFile directory' (.ofText file) = (.error failure, records))
    (isError : ∀ place cause, failure.report? = some (place, cause) →
      error (place ++ ": " ++ cause))
    (logging logging' : Logging) (next next' : String → Node → Ran) :
    EndAlike same error (withTree directory logging file next)
      (withTree directory' logging' file next') := by
  rcases withTree_of_error found logging next with
    ⟨place, cause, reported, ran⟩ | ⟨crash, crashes, ran⟩ <;>
  rcases withTree_of_error found' logging' next' with
    ⟨place', cause', reported', ran'⟩ | ⟨crash', crashes', ran'⟩
  · cases reported.symm.trans reported'
    rw [ran, ran']
    exact .refused (isError place cause reported)
  · nomatch reported.symm.trans (LoadFailure.report?_of_crash? crashes')
  · nomatch reported'.symm.trans (LoadFailure.report?_of_crash? crashes)
  · cases crashes.symm.trans crashes'
    rw [ran, ran']
    exact .stopped

theorem runCommand_alike (version : String) (command command' : Command)
    (same : command.plain = command'.plain)
    (files : ∀ file, command.file? = some file → SameFile directory directory' file)
    (fits : (command.indent? config).bind (Indent.fault? 1) = none)
    (fits' : (command'.indent? config').bind (Indent.fault? 1) = none) {error : String → Prop}
    (isError : ∀ file failure place cause, command.file? = some file →
      (Document.ofFile directory file).1 = .error failure → failure.report? = some (place, cause) →
      error (place ++ ": " ++ cause)) (logging logging' : Logging) :
    EndAlike command.SameOutput error (runCommand version directory config logging command)
      (runCommand version directory' config' logging' command') := by
  cases command with
  | actions file pretty =>
    cases command' <;> cases same
    have sameLoading := (files _ rfl).ofFile_eq
    rw [runCommand, runCommand]
    rcases found : Document.ofFile directory (.ofText file) with ⟨failure | root, records⟩
    · refine withTree_alike found (sameLoading ▸ found) (fun place cause reported => ?_) _ _ _ _
      exact isError _ _ place cause rfl (congrArg Prod.fst found) reported
    · obtain ⟨data, isTree⟩ := Document.tree_of_ofFile (congrArg Prod.fst found)
      obtain ⟨actions, report, -, -, writes⟩ := writeActions_of_tree version isTree
      rw [withTree_of_ok found, withTree_of_ok (sameLoading ▸ found), writes, writes]
      exact answer_alike _ fits fits'
  | tree file =>
    cases command' <;> cases same
    have sameLoading := (files _ rfl).ofFile_eq
    rw [runCommand, runCommand]
    rcases found : Document.ofFile directory (.ofText file) with ⟨failure | root, records⟩
    · refine withTree_alike found (sameLoading ▸ found) (fun place cause reported => ?_) _ _ _ _
      exact isError _ _ place cause rfl (congrArg Prod.fst found) reported
    · rw [withTree_of_ok found, withTree_of_ok (sameLoading ▸ found)]
      exact .printed rfl
  | kinds =>
    cases command' <;> cases same
    exact answer_alike _ fits fits'

theorem Prints.newline_not_mem {version : String} {command : Command} {stdout : String}
    (h : Prints version directory none command stdout) (isJson : ∀ file, command ≠ .tree file) :
    '\n' ∉ stdout.toList := by
  cases h with
  | document => exact Json.newline_not_mem_render _
  | tree => exact absurd rfl (isJson _)

/-- Settings only affect layout and logging. Two runs of one command on one tree end alike, whatever
their valid configurations, flags and logging, if their indents can be laid out; the outputs of
`tree` are equal, the other ones up to white space outside of strings. A run that is not asked for
layout writes its JSON document on one line. -/
theorem runs_alike {args args' : List String} (parsed : parse args = .ok (.run invocation))
    (parsed' : parse args' = .ok (.run invocation'))
    (same : invocation.command.plain = invocation'.command.plain)
    (files : ∀ file, invocation.command.file? = some file → SameFile directory directory' file)
    (configured : invocation.config? directory = .ok config)
    (configured' : invocation'.config? directory' = .ok config')
    (fits : (invocation.command.indent? config).bind (Indent.fault? 1) = none)
    (fits' : (invocation'.command.indent? config').bind (Indent.fault? 1) = none)
    (installed debug debug' : Option String) :
    EndAlike invocation.command.SameOutput (Refuses directory invocation)
        (run installed directory debug args) (run installed directory' debug' args') ∧
      ((∀ file, invocation.command ≠ .tree file) → invocation.command.indent? config = none →
        ∀ output, run installed directory debug args = .ok output → output.code = 0 →
          '\n' ∉ output.stdout.toList) := by
  constructor
  · rw [run_of_config installed debug parsed configured,
      run_of_config installed debug' parsed' configured']
    refine runCommand_alike _ _ _ same files fits fits' (fun file failure place cause => ?_) _ _
    exact Refuses.tree configured
  · intro isJson unindented output ran succeeded
    rcases run_cases installed directory debug parsed with
      ⟨-, config'', _, _, configured'', prints, ran'⟩ | ⟨_, _, -, ran'⟩ | ⟨-, -, _, ran'⟩ <;>
      cases ran.symm.trans ran'
    · cases configured.symm.trans configured''
      rw [unindented] at prints
      exact prints.newline_not_mem isJson
    · nomatch succeeded

end

/-- One tree, first with layout and all records, then without. -/
theorem sampleRuns_alike :
    EndAlike (Command.actions "t.json" true).SameOutput
      (Refuses (sampleDirectory "indent: 4\n") ⟨"", .actions "t.json" true⟩)
      (run (some "0.1.0") (sampleDirectory "indent: 4\n") (some "1")
        ["actions", "t.json", "--pretty"])
      (run (some "0.1.0") (sampleDirectory "log_level: ERROR\n") none ["actions", "t.json"]) := by
  have parsed : parse ["actions", "t.json", "--pretty"] = .ok (.run ⟨"", .actions "t.json" true⟩) :=
    rfl
  have parsed' : parse ["actions", "t.json"] = .ok (.run ⟨"", .actions "t.json" false⟩) := rfl
  have configured : Invocation.config? (sampleDirectory "indent: 4\n")
      ⟨"", .actions "t.json" true⟩ =
      .ok ⟨.warning, false, 4⟩ := eq_ok_of_toOption (by decide +kernel)
  have configured' : Invocation.config? (sampleDirectory "log_level: ERROR\n")
      ⟨"", .actions "t.json" false⟩ = .ok ⟨.error, false, 2⟩ :=
        eq_ok_of_toOption (by decide +kernel)
  refine (runs_alike parsed parsed' rfl ?_ configured configured' rfl rfl _ _ _).1
  rintro file ⟨⟩
  exact ⟨by decide +kernel, by decide +kernel⟩

/-- Valid settings that make a run end in another way than it does without settings. -/
theorem wideSettings_differ :
    (∃ config, Invocation.config? (sampleDirectory wideSettings) ⟨"", .kinds⟩ = .ok config) ∧
      run (some "0.1.0") (sampleDirectory wideSettings) none ["kinds"] =
        .error (.write (.indent .uncountable)) ∧
      ∃ config, Invocation.config? (sampleDirectory "") ⟨"", .kinds⟩ = .ok config ∧
        ∃ output, run (some "0.1.0") (sampleDirectory "") none ["kinds"] = .ok output ∧
          output.code = 0 := by
  have configured : Invocation.config? (sampleDirectory "") ⟨"", .kinds⟩ = .ok {} :=
    eq_ok_of_toOption (by decide +kernel)
  refine ⟨⟨_, config?_of_wideSettings⟩, run_of_wideSettings, _, configured, ?_⟩
  rw [run_of_config _ none rfl configured]
  exact ⟨_, rfl, rfl⟩

end TemplateActions.CommandLine

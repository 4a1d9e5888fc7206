import TemplateActions.CommandLine.Run
import TemplateActions.Proofs.Json.Spacing
import TemplateActions.Proofs.Report.Loaded

/-!
How runs of commands end. A run that gets its configuration and its tree writes one whole document;
one that lacks either because of a defect writes a message and nothing else. Compiling and reporting
never fail, because the tree is one that was loaded. What is left are inputs that no message is made
for, and JSON documents that cannot be written, by the indent or by the size of a number.
-/
namespace TemplateActions

namespace Logging

/-- The logging of a run with that level. A nonempty `debug` asks for all records. -/
def configured (level : ConfigLevel) (debug : Option String) : Logging :=
  ⟨(if wantsAll debug then Level.debug else level.level).number, true, 1⟩

theorem setup_eq (level : ConfigLevel) (debug : Option String) :
    ({} : Logging).setup level.name debug = .ok (configured level debug) := by
  rw [setup, requested, configured]
  cases wantsAll debug
  · cases level <;> rfl
  · rfl

end Logging

namespace Document

theorem tree_of_ofText {source : String} {text : List Char} {root : Node}
    (loaded : (ofText source text).1 = .ok root) : ∃ data, tree data = .ok root := by
  rw [ofText] at loaded
  split at loaded
  case h_3 data _ =>
    refine ⟨data, ?_⟩
    cases isTree : tree data <;> simp only [isTree] at loaded
    · nomatch loaded
    · exact congrArg Except.ok (Except.ok.inj loaded)
  all_goals nomatch loaded

theorem tree_of_ofFile {directory : Directory} {name : FileName} {root : Node}
    (loaded : (ofFile directory name).1 = .ok root) : ∃ data, tree data = .ok root := by
  rw [ofFile] at loaded
  split at loaded
  · nomatch loaded
  · split at loaded
    case h_3 => exact tree_of_ofText loaded
    all_goals nomatch loaded

end Document

def LoadFailure.crash? : LoadFailure → Option CommandLine.Crash
  | .source .. | .document (.defect ..) => none
  | .document .incomparableKeys => some (.document .incomparableKeys)
  | .document .overlongInteger => some (.document .overlongInteger)
  | .value failure => some (.value failure)
  | .lookup fault => some (.lookup fault)

theorem LoadFailure.report?_of_crash? {failure : LoadFailure} {crash : CommandLine.Crash}
    (crashes : failure.crash? = some crash) : failure.report? = none := by
  cases failure with
  | source => nomatch crashes
  | document failure =>
    cases failure with
    | defect => nomatch crashes
    | incomparableKeys | overlongInteger => rfl
  | value | lookup => rfl

namespace CommandLine

def Command.file? : Command → Option FileName
  | .actions file _ | .tree file => some (.ofText file)
  | .kinds => none

def Command.indent? (config : Config) : Command → Option Int
  | .actions _ pretty => indentOf config pretty
  | .tree _ => none
  | .kinds => indentOf config false

def Invocation.config? (directory : Directory) (invocation : Invocation) :
    Except ConfigFailure Config :=
  (Config.load directory directory.location invocation.configFile?).1

inductive Answers (version : String) (directory : Directory) : Command → Json → Prop
  | actions {file : String} {pretty : Bool} {root : Node} {actions : List Action}
      {report : Report} :
      (Document.ofFile directory (.ofText file)).1 = .ok root → root.compileActions.1 =
        .ok actions →
      Report.build version root actions = .ok report →
      Answers version directory (.actions file pretty) report.toJson
  | kinds : Answers version directory .kinds kindsJson

inductive Prints (version : String) (directory : Directory) (indent : Option Int) :
    Command → String → Prop
  | document {command : Command} {document : Json} :
      Answers version directory command document →
        Prints version directory indent command (document.render indent)
  | tree {file : String} {root : Node} :
      (Document.ofFile directory (.ofText file)).1 = .ok root →
      Prints version directory indent (.tree file) (root.outlineText 0 ++ "\n")

def Countable (version : String) (directory : Directory) (command : Command) : Prop :=
  ∀ document, Answers version directory command document → document.isWritable

inductive Ends (version : String) (directory : Directory) (indent : Option Int)
    (command : Command) : Ran → Prop
  | printed {stdout log : String} :
      Prints version directory indent command stdout → indent.bind (Indent.fault? 1) = none →
      Countable version directory command →
        Ends version directory indent command (.ok ⟨0, stdout, log⟩)
  | unwritten {document : Json} {fault : Json.WriteFault} :
      Answers version directory command document → document.write indent = .error fault →
      Ends version directory indent command (.error (.write fault))
  | refused {file : FileName} {failure : LoadFailure} {place cause log : String} :
      command.file? = some file → (Document.ofFile directory file).1 = .error failure →
      failure.report? = some (place, cause) →
      Ends version directory indent command (refuse log (place ++ ": " ++ cause))
  | halted {file : FileName} {failure : LoadFailure} {crash : Crash} :
      command.file? = some file → (Document.ofFile directory file).1 = .error failure →
      failure.crash? = some crash → Ends version directory indent command (.error crash)

section

variable {version : String} {directory : Directory} {file : String} {records : List Record}

theorem withTree_of_ok {root : Node}
    (loaded : Document.ofFile directory (.ofText file) = (.ok root, records))
    (logging : Logging) (next : String → Node → Ran) :
    withTree directory logging file next = next (logging.lines records) root := by
  rw [withTree, loaded]

theorem withTree_of_error {failure : LoadFailure}
    (failed : Document.ofFile directory (.ofText file) = (.error failure, records))
    (logging : Logging)
    (next : String → Node → Ran) :
    (∃ place cause, failure.report? = some (place, cause) ∧
        withTree directory logging file next = refuse (logging.lines records)
          (place ++ ": " ++ cause)) ∨
      ∃ crash, failure.crash? = some crash ∧ withTree directory logging file next =
        .error crash := by
  rw [withTree, failed]
  cases failure with
  | source name defect => exact .inl ⟨_, _, rfl, rfl⟩
  | document failure =>
    cases failure with
    | defect path defect => exact .inl ⟨_, _, rfl, rfl⟩
    | incomparableKeys => exact .inr ⟨_, rfl, rfl⟩
    | overlongInteger => exact .inr ⟨_, rfl, rfl⟩
  | value failure => exact .inr ⟨_, rfl, rfl⟩
  | lookup fault => exact .inr ⟨_, rfl, rfl⟩

theorem writeActions_of_tree (version : String) {data : Value} {root : Node}
    (loaded : Document.tree data = .ok root) :
    ∃ actions report, root.compileActions.1 = .ok actions ∧ Report.build version root actions =
      .ok report ∧
      ∀ logging indent log, writeActions version logging indent log root =
        answer indent (log ++ logging.lines root.compileActions.2) report.toJson := by
  have compiled := Document.compileActions_of_tree loaded
  obtain ⟨report, built, -⟩ := Document.report_of_tree version loaded
  refine ⟨_, report, compiled, built, fun logging indent log => ?_⟩
  rw [writeActions]
  generalize root.compileActions = result at compiled
  obtain ⟨_, records⟩ := result
  cases compiled
  simp only [built]

theorem Answers.unique {command : Command} {document document' : Json}
    (answers : Answers version directory command document)
    (answers' : Answers version directory command document') :
    document = document' := by
  cases answers with
  | actions loaded compiled built =>
    cases answers' with
    | actions loaded' compiled' built' =>
      cases loaded.symm.trans loaded'
      cases compiled.symm.trans compiled'
      cases built.symm.trans built'
      rfl
  | kinds =>
    cases answers'
    rfl

theorem Answers.isObject {command : Command} {document : Json}
    (answers : Answers version directory command document) :
    ∃ members, document = .object members := by
  cases answers with
  | actions | kinds => exact ⟨_, rfl⟩

theorem Answers.hasText_iff {command : Command} {document : Json} {indent : Option Int}
    (answers : Answers version directory command document) :
    document.HasText indent ↔ indent.bind (Indent.fault? 1) = none ∧
      Countable version directory command := by
  have countable : Countable version directory command ↔ document.isWritable :=
    ⟨fun each => each document answers, fun writable _ other => answers.unique other ▸ writable⟩
  obtain ⟨members, rfl⟩ := answers.isObject
  rw [countable, Json.bind_fault?_eq_none_iff]
  constructor
  · rintro ⟨⟨_, ⟨⟩⟩ | fits, writable⟩
    exact ⟨fits, writable⟩
  · rintro ⟨fits, writable⟩
    exact ⟨.inr fits, writable⟩

theorem Answers.ends {indent : Option Int} {command : Command} {document : Json}
    (answers : Answers version directory command document) (log : String) :
    Ends version directory indent command (answer indent log document) := by
  rw [answer]
  cases written : document.write indent with
  | ok text =>
    obtain ⟨hasText, rfl⟩ := Json.write_eq_ok_iff.mp written
    obtain ⟨fits, countable⟩ := answers.hasText_iff.mp hasText
    exact .printed (.document answers) fits countable
  | error fault => exact .unwritten answers written

end

theorem Answers.exists_root {version : String} {directory : Directory} {command : Command}
    {document : Json}
    (h : Answers version directory command document) {file : FileName}
    (isFile : command.file? = some file) :
    ∃ root, (Document.ofFile directory file).1 = .ok root := by
  cases h with
  | actions loaded =>
    cases isFile
    exact ⟨_, loaded⟩
  | kinds => nomatch isFile

theorem Prints.exists_root {version : String} {directory : Directory} {indent : Option Int}
    {command : Command}
    {stdout : String} (h : Prints version directory indent command stdout) {file : FileName}
    (isFile : command.file? = some file) :
    ∃ root, (Document.ofFile directory file).1 = .ok root := by
  cases h with
  | document answers => exact answers.exists_root isFile
  | tree loaded =>
    cases isFile
    exact ⟨_, loaded⟩

theorem runCommand_ends (version : String) (directory : Directory) (config : Config)
    (logging : Logging)
    (command : Command) :
    Ends version directory (command.indent? config) command
      (runCommand version directory config logging command) := by
  have unloaded {file : String} {failure : LoadFailure} {records : List Record}
      (isFile : command.file? = some (.ofText file))
      (failed : Document.ofFile directory (.ofText file) = (.error failure, records))
      (next : String → Node → Ran) :
      Ends version directory (command.indent? config) command
        (withTree directory logging file next) := by
    have failed' := congrArg Prod.fst failed
    rcases withTree_of_error failed logging next with
      ⟨place, cause, reported, same⟩ | ⟨crash, crashes, same⟩
    · exact same ▸ .refused isFile failed' reported
    · exact same ▸ .halted isFile failed' crashes
  cases command with
  | actions file pretty =>
    rw [runCommand]
    rcases found : Document.ofFile directory (.ofText file) with ⟨failure | root, records⟩
    · exact unloaded rfl found _
    · have loaded := congrArg Prod.fst found
      obtain ⟨data, isTree⟩ := Document.tree_of_ofFile loaded
      obtain ⟨actions, report, compiled, built, writes⟩ := writeActions_of_tree version isTree
      rw [withTree_of_ok found, writes]
      exact (Answers.actions loaded compiled built).ends _
  | tree file =>
    rw [runCommand]
    rcases found : Document.ofFile directory (.ofText file) with ⟨failure | root, records⟩
    · exact unloaded rfl found _
    · rw [withTree_of_ok found]
      exact .printed (.tree (congrArg Prod.fst found)) rfl nofun
  | kinds => exact Answers.kinds.ends ""

/-- Holds for the text of the error that ends a run: one of the configuration, or else one of the
tree. -/
inductive Refuses (directory : Directory) (invocation : Invocation) : String → Prop
  | config {file : FileName} {cause : ConfigDefect} :
      invocation.config? directory = .error (.defect file cause) →
      Refuses directory invocation (cause.report file)
  | tree {config : Config} {file : FileName} {failure : LoadFailure} {place cause : String} :
      invocation.config? directory = .ok config → invocation.command.file? = some file →
      (Document.ofFile directory file).1 = .error failure → failure.report? = some (place, cause) →
      Refuses directory invocation (place ++ ": " ++ cause)

section

variable {directory : Directory} {args : List String} {invocation : Invocation}

theorem run_of_config {config : Config} (installed : Option String) (debug : Option String)
    (parsed : parse args = .ok (.run invocation))
    (configured : invocation.config? directory = .ok config) :
    run installed directory debug args =
      runCommand (versionOf installed) directory config (Logging.configured config.level debug)
        invocation.command := by
  rw [Invocation.config?] at configured
  simp only [run, parsed, runInvocation, configured, Logging.setup_eq]

theorem run_of_configFailure {failure : ConfigFailure} (installed debug : Option String)
    (parsed : parse args = .ok (.run invocation))
    (failed : invocation.config? directory = .error failure) :
    (∃ file cause, failure = .defect file cause ∧ run installed directory debug args =
      refuse "" (cause.report file)) ∨
      (∀ file cause, failure ≠ .defect file cause) ∧ ∃ crash, run installed directory debug args =
        .error crash := by
  rw [Invocation.config?] at failed
  simp only [run, parsed, runInvocation, failed]
  cases failure with
  | defect file cause => exact .inl ⟨file, cause, rfl, rfl⟩
  | value failure => exact .inr ⟨nofun, _, rfl⟩
  | lookup fault => exact .inr ⟨nofun, _, rfl⟩

/-- Holds if a run gets its configuration and its tree, and its indent can be laid out and its
numbers be written. -/
def Succeeds (version : String) (directory : Directory) (invocation : Invocation) : Prop :=
  ∃ config, invocation.config? directory = .ok config ∧
    (∀ file, invocation.command.file? = some file →
      ∃ root, (Document.ofFile directory file).1 = .ok root) ∧
    (invocation.command.indent? config).bind (Indent.fault? 1) = none ∧
    Countable version directory invocation.command

theorem refuses_iff {config : Config} (configured : invocation.config? directory = .ok config)
    {message : String} :
    Refuses directory invocation message ↔ ∃ file failure place cause,
      invocation.command.file? = some file ∧ (Document.ofFile directory file).1 = .error failure ∧
        failure.report? = some (place, cause) ∧ message = place ++ ": " ++ cause := by
  constructor
  · intro refuses
    cases refuses with
    | config failed => nomatch configured.symm.trans failed
    | tree _ isFile failed reported => exact ⟨_, _, _, _, isFile, failed, reported, rfl⟩
  · rintro ⟨file, failure, place, cause, isFile, failed, reported, rfl⟩
    exact .tree configured isFile failed reported

theorem Succeeds.not_refuses {version : String} (h : Succeeds version directory invocation)
    (message : String) : ¬ Refuses directory invocation message := by
  obtain ⟨config, configured, loads, -⟩ := h
  rw [refuses_iff configured]
  rintro ⟨file, failure, _, _, isFile, failed, -⟩
  obtain ⟨root, loaded⟩ := loads file isFile
  nomatch loaded.symm.trans failed

/-- A run succeeds with a document, or ends with the message of an error, or is stopped. -/
theorem run_cases (installed : Option String) (directory : Directory) (debug : Option String)
    (parsed : parse args = .ok (.run invocation)) :
    (Succeeds (versionOf installed) directory invocation ∧
      ∃ config stdout log, invocation.config? directory = .ok config ∧
        Prints (versionOf installed) directory
          (invocation.command.indent? config) invocation.command stdout ∧
        run installed directory debug args = .ok ⟨0, stdout, log⟩) ∨
      (∃ message log, Refuses directory invocation message ∧
        run installed directory debug args = refuse log message) ∨
      (¬ Succeeds (versionOf installed) directory invocation ∧
        (∀ message, ¬ Refuses directory invocation message) ∧
        ∃ crash, run installed directory debug args = .error crash) := by
  cases configured : invocation.config? directory with
  | error failure =>
    rcases run_of_configFailure installed debug parsed configured with
      ⟨file, cause, rfl, same⟩ | ⟨undefined, crash, same⟩
    · exact .inr (.inl ⟨_, _, .config configured, same⟩)
    · refine .inr (.inr ⟨?_, ?_, crash, same⟩)
      · rintro ⟨config, configured', -⟩
        nomatch configured.symm.trans configured'
      · intro message refuses
        cases refuses with
        | config failed => exact undefined _ _ (Except.error.inj (configured.symm.trans failed))
        | tree configured' => nomatch configured.symm.trans configured'
  | ok config =>
    have same := run_of_config installed debug parsed configured
    have ends := runCommand_ends (versionOf installed) directory config
      (.configured config.level debug) invocation.command
    rw [← same] at ends
    generalize run installed directory debug args = ran at ends
    cases ends with
    | @printed stdout log prints fits countable =>
      have succeeds : Succeeds (versionOf installed) directory invocation :=
        ⟨config, configured, fun _ => prints.exists_root, fits, countable⟩
      exact .inl ⟨succeeds, config, stdout, log, rfl, prints, rfl⟩
    | unwritten answers unwritten =>
      refine .inr (.inr ⟨?_, fun message => ?_, _, rfl⟩)
      · rintro ⟨config', configured', -, fits, countable⟩
        cases configured.symm.trans configured'
        have hasText := answers.hasText_iff.mpr ⟨fits, countable⟩
        nomatch unwritten.symm.trans (Json.write_eq_ok_iff.mpr ⟨hasText, rfl⟩)
      · rw [refuses_iff configured]
        rintro ⟨file, failure, _, _, isFile, failed, -⟩
        obtain ⟨root, loaded⟩ := answers.exists_root isFile
        nomatch loaded.symm.trans failed
    | refused isFile failed reported =>
      exact .inr (.inl ⟨_, _, .tree configured isFile failed reported, rfl⟩)
    | halted isFile failed crashes =>
      refine .inr (.inr ⟨?_, fun message => ?_, _, rfl⟩)
      · rintro ⟨_, -, loads, -⟩
        obtain ⟨root, loaded⟩ := loads _ isFile
        nomatch loaded.symm.trans failed
      · rw [refuses_iff configured]
        rintro ⟨file', failure', place, cause, isFile', failed', reported, -⟩
        cases isFile.symm.trans isFile'
        cases failed.symm.trans failed'
        nomatch (LoadFailure.report?_of_crash? crashes).symm.trans reported

/-- A run of a command writes one whole document and ends with code 0, or writes a message only
and ends with code 2. The former happens exactly if the configuration and the tree are loaded, the
indent, if there is one, can be laid out, and no number of the document is too long; the latter
exactly if loading one of them fails with an error. -/
theorem run_endings (installed : Option String) (directory : Directory) (debug : Option String)
    (parsed : parse args = .ok (.run invocation)) :
    ((∃ output, run installed directory debug args = .ok output ∧ output.code = 0) ↔
        Succeeds (versionOf installed) directory invocation) ∧
      ((∃ output, run installed directory debug args = .ok output ∧ output.code = 2) ↔
        ∃ message, Refuses directory invocation message) ∧
      ∀ output, run installed directory debug args = .ok output →
        (output.code = 0 ∧ ∃ config, invocation.config? directory = .ok config ∧
          Prints (versionOf installed) directory
            (invocation.command.indent? config) invocation.command output.stdout) ∨
        (output.code = 2 ∧ output.stdout = "" ∧
          ∃ message log, Refuses directory invocation message ∧
          output.stderr = log ++ String.ofList (Lines.trimRight message.toList) ++ "\n") := by
  rcases run_cases installed directory debug parsed with
    ⟨succeeds, config, stdout, log, configured, prints, ran⟩ | ⟨message, log, refuses, ran⟩ |
      ⟨fails, unrefused, crash, ran⟩ <;> rw [ran]
  · refine ⟨iff_of_true ⟨_, rfl, rfl⟩ succeeds, iff_of_false ?_ ?_, ?_⟩
    · rintro ⟨_, ⟨⟩, ⟨⟩⟩
    · rintro ⟨message, refuses⟩
      exact succeeds.not_refuses message refuses
    · rintro _ ⟨⟩
      exact .inl ⟨rfl, config, configured, prints⟩
  · refine ⟨iff_of_false ?_ fun succeeds => succeeds.not_refuses message refuses,
      iff_of_true ⟨_, rfl, rfl⟩ ⟨message, refuses⟩, ?_⟩
    · rintro ⟨_, ⟨⟩, ⟨⟩⟩
    · rintro _ ⟨⟩
      exact .inr ⟨rfl, rfl, message, log, refuses, rfl⟩
  · refine ⟨iff_of_false nofun fails, iff_of_false nofun fun ⟨message, refuses⟩ => ?_, nofun⟩
    exact unrefused message refuses

end

theorem eq_ok_of_toOption {ε α : Type} {x : Except ε α} {a : α} (h : x.toOption = some a) :
    x = .ok a := by
  cases x with
  | error => nomatch h
  | ok => exact congrArg Except.ok (Option.some.inj h)

def sampleDirectory (config : String) : Directory :=
  let bytes (text : String) : List UInt8 := text.toList.map fun c => c.toNat.toUInt8
  ((Directory.mk (.ofText "/work") []).addFile (.ofText "t.json")
    (bytes "\x7b\"type\": \"program\"\x7d")).addFile
    (.ofText "tplc.yaml") (bytes config)

theorem sampleRun_ends :
    parse ["actions", "t.json", "--pretty"] = .ok (.run ⟨"", .actions "t.json" true⟩) ∧
      ∃ output, run (some "0.1.0") (sampleDirectory "indent: 4\n") none
        ["actions", "t.json", "--pretty"] = .ok output ∧
        output.code = 0 := by
  have parsed : parse ["actions", "t.json", "--pretty"] = .ok (.run ⟨"", .actions "t.json" true⟩) :=
    rfl
  refine ⟨parsed, (run_endings _ _ none parsed).1.mpr ⟨⟨.warning, false, 4⟩, ?_, ?_, rfl, ?_⟩⟩
  · exact eq_ok_of_toOption (by decide +kernel)
  · rintro file ⟨⟩
    have loads : (Document.ofFile (sampleDirectory "indent: 4\n")
      (.ofText "t.json")).1.toOption.isSome := by
      decide +kernel
    obtain ⟨root, isRoot⟩ := Option.isSome_iff_exists.mp loads
    exact ⟨root, eq_ok_of_toOption isRoot⟩
  · intro document answers
    cases answers with
    | actions loaded compiled built =>
      have countable : (Document.ofFile (sampleDirectory "indent: 4\n")
          (.ofText "t.json")).1.toOption.all
          fun root => root.compileActions.1.toOption.all fun actions =>
            (Report.build (versionOf (some "0.1.0")) root actions).toOption.all fun report =>
              report.toJson.isWritable := by
        decide +kernel
      rw [loaded, Except.toOption, Option.all_some, compiled, Except.toOption, Option.all_some,
        built] at countable
      exact countable

def wideSettings : String := "pretty: true\nindent: 9223372036854775808\n"

theorem config?_of_wideSettings : Invocation.config? (sampleDirectory wideSettings) ⟨"", .kinds⟩ =
    .ok ⟨.warning, true, 9223372036854775808⟩ :=
  eq_ok_of_toOption (by decide +kernel)

theorem run_of_wideSettings :
    run (some "0.1.0") (sampleDirectory wideSettings) none ["kinds"] =
      .error (.write (.indent .uncountable)) := by
  have wide : kindsJson.write (indentOf ⟨.warning, true, 9223372036854775808⟩ false) =
      .error (.indent .uncountable) := by rfl
  rw [run_of_config _ none rfl config?_of_wideSettings, runCommand, answer, wide]

/-- The configuration is loaded and there is no tree to load, but the run is stopped. -/
theorem wideSettings_stop :
    (∃ config, Invocation.config? (sampleDirectory wideSettings) ⟨"", .kinds⟩ = .ok config) ∧
      parse ["kinds"] = .ok (.run ⟨"", .kinds⟩) ∧
      ¬ ∃ output, run (some "0.1.0") (sampleDirectory wideSettings) none ["kinds"] =
        .ok output := by
  refine ⟨⟨_, config?_of_wideSettings⟩, rfl, ?_⟩
  rw [run_of_wideSettings]
  exact nofun

end CommandLine
end TemplateActions

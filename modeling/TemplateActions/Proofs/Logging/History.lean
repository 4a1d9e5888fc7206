import Mathlib.Data.List.Induction
import TemplateActions.Logging.Session
import TemplateActions.Proofs.Visitor.Records

/-!
Sessions with the program's logger. Its state is a function of the setups so far that did not
fail: the first one installs the only handler, and the last one sets the level. From the first one
on every record of the program is written exactly once if it reaches that level, and else not at
all. In the place of a record that has no text stands a report of this.
-/
namespace TemplateActions.Logging

/-- The level that a call sets: that of all records if the variable asks for them, and else that
of a name which is the name of a level. All other calls set none. -/
def Call.sets? : Call → Option Nat
  | .setup name debug => if wantsAll debug then some Level.debug.number else levelNames.lookup name
  | .emit .. | .compile _ => none

/-- Holds for setups that do not fail. -/
def Call.succeeds (call : Call) : Bool := call.sets?.isSome

/-- The logger after some calls, before which it was not set up. -/
def after (calls : List Call) : Logging := (run {} calls).1

def reply (calls : List Call) (call : Call) : Reply := ((after calls).call call).2

/-- The level that the last setup set which did not fail. -/
def lastLevel (calls : List Call) : Nat := (calls.filterMap Call.sets?).getLast?.getD 0

/-- The level that records have to reach. Level zero leaves it to the outermost logger. -/
def leastLevel (calls : List Call) : Nat :=
  if lastLevel calls = 0 then Level.warning.number else lastLevel calls

/-- Holds if a record reaches the level behind some calls. -/
def reaches (calls : List Call) (r : Record) : Bool := decide (leastLevel calls ≤ r.level)

theorem requested_toOption (name : String) (debug : Option String) :
    (requested name debug).toOption = (Call.setup name debug).sets? := by
  rw [requested, Call.sets?]
  cases wantsAll debug with
  | true => rfl
  | false =>
    rw [if_neg Bool.false_ne_true, if_neg Bool.false_ne_true, named?]
    cases levelNames.lookup name with
    | some number => rfl
    | none =>
      generalize (textNames.contains name || innerTextNames.contains name) = isText
      generalize (otherNames.contains name || innerOtherNames.contains name) = isOther
      cases isText <;> cases isOther <;> rfl

theorem requested_of_sets? {name : String} {debug : Option String} {number : Nat}
    (sets : (Call.setup name debug).sets? = some number) : requested name debug = .ok number := by
  rw [← requested_toOption] at sets
  cases found : requested name debug with
  | ok n =>
    rw [found] at sets
    exact congrArg Except.ok (Option.some.inj sets)
  | error e =>
    rw [found] at sets
    nomatch sets

theorem requested_of_not_sets? {name : String} {debug : Option String}
    (unset : (Call.setup name debug).sets? = none) : ∃ e, requested name debug = .error e := by
  rw [← requested_toOption] at unset
  cases found : requested name debug with
  | ok n =>
    rw [found] at unset
    nomatch unset
  | error e => exact ⟨e, rfl⟩

theorem call_refused (s : Logging) {name : String} {debug : Option String}
    (unset : (Call.setup name debug).sets? = none) :
    ∃ e, s.call (.setup name debug) = (s, { error := some (.setup e) }) := by
  obtain ⟨e, refused⟩ := requested_of_not_sets? unset
  exact ⟨e, by rw [call, setup, refused]⟩

theorem call_accepted (s : Logging) {name : String} {debug : Option String} {number : Nat}
    (sets : (Call.setup name debug).sets? = some number) :
    s.call (.setup name debug) = (({ s with level := number } : Logging).settle, {}) := by
  rw [call, setup, requested_of_sets? sets]

theorem run_append (s : Logging) (calls more : List Call) :
    s.run (calls ++ more) = (((s.run calls).1.run more).1,
      (s.run calls).2 ++ ((s.run calls).1.run more).2) := by
  induction calls generalizing s with
  | nil => rfl
  | cons first rest ih =>
    simp only [List.cons_append, run, ih]

theorem length_run (s : Logging) (calls : List Call) : (s.run calls).2.length = calls.length := by
  induction calls generalizing s with
  | nil => rfl
  | cons first rest ih => rw [run, List.length_cons, List.length_cons, ih]

theorem after_concat (calls : List Call) (call : Call) :
    after (calls ++ [call]) = ((after calls).call call).1 := by
  rw [after, run_append]
  rfl

theorem getElem?_run (calls : List Call) (call : Call) (later : List Call) :
    (run {} (calls ++ call :: later)).2[calls.length]? = some (reply calls call) := by
  rw [run_append, List.getElem?_append_right (Nat.le_of_eq (length_run _ _)), length_run,
    Nat.sub_self]
  rfl

/-- Holds if the state of a logger is what the calls so far make of it. -/
structure Reflects (calls : List Call) (s : Logging) : Prop where
  level : s.level = lastLevel calls
  settled : s.settled = calls.any Call.succeeds
  handlers : s.handlers = if calls.any Call.succeeds then 1 else 0

theorem lastLevel_concat_some {calls : List Call} {call : Call} {number : Nat}
    (sets : call.sets? = some number) : lastLevel (calls ++ [call]) = number := by
  simp [lastLevel, sets]

theorem lastLevel_concat_none {calls : List Call} {call : Call} (unset : call.sets? = none) :
    lastLevel (calls ++ [call]) = lastLevel calls := by
  simp [lastLevel, unset]

section

variable {calls : List Call} {s : Logging}

theorem Reflects.kept (h : Reflects calls s) {call : Call} (unset : call.sets? = none) :
    Reflects (calls ++ [call]) s where
  level := by rw [lastLevel_concat_none unset, h.level]
  settled := by simp [h.settled, Call.succeeds, unset]
  handlers := by simp [h.handlers, Call.succeeds, unset]

theorem Reflects.settle (h : Reflects calls s) {call : Call} {number : Nat}
    (sets : call.sets? = some number) :
    Reflects (calls ++ [call]) ({ s with level := number } : Logging).settle := by
  have succeeds : (calls ++ [call]).any Call.succeeds = true := by simp [Call.succeeds, sets]
  rw [Logging.settle]
  cases first : calls.any Call.succeeds with
  | true =>
    have settled : s.settled = true := h.settled.trans first
    rw [if_pos settled]
    refine ⟨(lastLevel_concat_some sets).symm, settled.trans succeeds.symm, ?_⟩
    rw [succeeds, if_pos rfl, h.handlers, first, if_pos rfl]
  | false =>
    have unsettled : ¬ s.settled = true := by rw [h.settled, first]; exact Bool.false_ne_true
    have none : s.handlers = 0 := by rw [h.handlers, first]; rfl
    rw [if_neg unsettled]
    refine ⟨(lastLevel_concat_some sets).symm, succeeds.symm, ?_⟩
    rw [succeeds, if_pos rfl, if_pos none]

/-- Each call keeps it up: only setups that do not fail change the logger. -/
theorem Reflects.call (h : Reflects calls s) (call : Call) :
    Reflects (calls ++ [call]) (s.call call).1 := by
  cases call with
  | setup name debug =>
    cases sets : (Call.setup name debug).sets? with
    | none =>
      obtain ⟨e, refused⟩ := call_refused s sets
      rw [refused]
      exact h.kept sets
    | some number =>
      rw [call_accepted s sets]
      exact h.settle sets
  | emit logger r =>
    rw [Logging.call]
    split <;> exact h.kept rfl
  | compile root => exact h.kept rfl

end

theorem reflects_after (calls : List Call) : Reflects calls (after calls) := by
  induction calls using List.reverseRecOn with
  | nil => exact ⟨rfl, rfl, rfl⟩
  | append_singleton calls call ih =>
    rw [after_concat]
    exact ih.call call

section

variable {calls : List Call} {s : Logging} {logger : String}

theorem Reflects.threshold_eq (h : Reflects calls s) (own : isOwn logger) :
    s.threshold logger = leastLevel calls := by
  rw [threshold, own, leastLevel, ← h.level]
  by_cases zero : s.level = 0 <;> simp [zero]

theorem Reflects.installed (h : Reflects calls s) (ready : calls.any Call.succeeds) :
    s.installed = true := by
  rw [Logging.installed, h.handlers, if_pos ready]
  rfl

theorem Reflects.copies_eq (h : Reflects calls s) (ready : calls.any Call.succeeds)
    (own : isOwn logger) (level : Int) :
    s.copies logger level = if leastLevel calls ≤ level then 1 else 0 := by
  rw [copies, h.threshold_eq own]
  by_cases reached : leastLevel calls ≤ level
  · rw [if_neg (Int.not_lt.mpr reached), if_pos reached, own, h.installed ready, h.handlers,
      if_pos ready]
    rfl
  · rw [if_pos (Int.not_le.mp reached), if_neg reached]

/-- Behind a setup a record of the program goes to one handler or to none. -/
theorem Reflects.outputs_eq (h : Reflects calls s) (ready : calls.any Call.succeeds)
    (own : isOwn logger) (r : Record) :
    s.outputs logger r = if reaches calls r then [output true r] else [] := by
  rw [outputs, h.copies_eq ready own, own, h.installed ready, reaches]
  by_cases reached : leastLevel calls ≤ r.level <;> simp [reached]

theorem Reflects.emit_eq (h : Reflects calls s) (ready : calls.any Call.succeeds)
    (own : isOwn logger) (r : Record) :
    (s.call (.emit logger r)).2 =
      if reaches calls r then
        if isNameable r.level then { outputs := [output true r] }
        else { error := some .overlongLevel }
      else {} := by
  rw [Logging.call, h.threshold_eq own, h.outputs_eq ready own, reaches]
  by_cases reached : leastLevel calls ≤ r.level <;> cases isNameable r.level <;> simp [reached]

theorem isOwn_loggerName : isOwn loggerName := by simp [isOwn]

theorem Reflects.flatMap_outputs (h : Reflects calls s) (ready : calls.any Call.succeeds)
    (records : List Record) :
    records.flatMap (s.outputs loggerName) =
      (records.filter (reaches calls)).map (output true) := by
  induction records with
  | nil => rfl
  | cons r rest ih =>
    rw [List.flatMap_cons, h.outputs_eq ready isOwn_loggerName, List.filter_cons, ih]
    cases reaches calls r <;> simp

end

/-- The logger in a session of setups, records and compilations, in any order. It has no handler
up to the first setup that does not fail, and exactly one behind it; its level is that of the last
such setup. A setup that fails changes nothing. Behind such a setup a record of the program is
written exactly once if it reaches the level, and else not at all; so is every record of a
compilation, in their order. In the place of a record that has no text stands a report of this; of
the records of a compilation that can only be the one of an object that ended it and cannot be
written. A record whose level is too long a number to be written is not made: emitting it fails,
if the level is reached, and does nothing else. -/
theorem session_history (calls : List Call) :
    (after calls).handlers = (if calls.any Call.succeeds then 1 else 0) ∧
      (after calls).level = lastLevel calls ∧
      (∀ call later, (run {} (calls ++ call :: later)).2[calls.length]? = some (reply calls call)) ∧
      (∀ name debug, (Call.setup name debug).succeeds ↔
        (reply calls (.setup name debug)).error = none) ∧
      (∀ name debug, ¬ (Call.setup name debug).succeeds →
        after (calls ++ [.setup name debug]) = after calls) ∧
      (calls.any Call.succeeds →
        (∀ logger r, isOwn logger →
          reply calls (.emit logger r) =
            if reaches calls r then
              if isNameable r.level then { outputs := [output true r] }
              else { error := some .overlongLevel }
            else {}) ∧
        ∀ root : Node,
          reply calls (.compile root) =
            { outputs := (root.compileActions.2.filter (reaches calls)).map (output true) } ∧
          ((∀ r ∈ root.compileActions.2, r.message.isSome) ∨
            ∃ u, root.compileActions.1 = .error (.unknownNode u) ∧ u.isWritable = false)) := by
  have reflects := reflects_after calls
  refine ⟨reflects.handlers, reflects.level, getElem?_run calls, fun name debug => ?_,
    fun name debug fails => ?_, fun ready => ⟨fun logger r own => reflects.emit_eq ready own r,
      fun root => ⟨?_, root.message_of_mem_compileActions⟩⟩⟩
  · rw [Call.succeeds, reply]
    cases sets : (Call.setup name debug).sets? with
    | none =>
      obtain ⟨e, refused⟩ := call_refused (after calls) sets
      rw [refused]
      exact iff_of_false Bool.false_ne_true nofun
    | some number =>
      rw [call_accepted _ sets]
      exact iff_of_true rfl rfl
  · rw [Call.succeeds, Option.not_isSome_iff_eq_none] at fails
    obtain ⟨e, refused⟩ := call_refused (after calls) fails
    rw [after_concat, refused]
  · rw [reply, Logging.call]
    exact congrArg (Reply.mk none) (reflects.flatMap_outputs ready _)

def sampleSession : List Call :=
  [.setup "debug" none, .setup "loud" (some "1"), .compile (.program 0 [.text 1 "x"]),
    .setup "INFO" (some "")]

theorem sampleSession_history :
    sampleSession.any Call.succeeds ∧ isOwn "tplc.template" ∧
      ¬ (Call.setup "BASIC_FORMAT" none).succeeds ∧
      after (sampleSession ++ [.setup "BASIC_FORMAT" none]) = after sampleSession ∧
      reply sampleSession (.emit "tplc.template" ⟨25, some "x"⟩) =
        { outputs := [.line "[Level 25] x\n"] } ∧
      reply sampleSession (.emit "tplc.template" ⟨25, none⟩) = { outputs := [.report] } ∧
      reply sampleSession (.emit "tplc.template" ⟨10, some "x"⟩) = {} := by
  obtain ⟨-, -, -, -, unchanged, records⟩ := session_history sampleSession
  have ready : sampleSession.any Call.succeeds := by decide
  have own : isOwn "tplc.template" := by decide
  have fails : ¬ (Call.setup "BASIC_FORMAT" none).succeeds := by decide
  obtain ⟨emitted, -⟩ := records ready
  refine ⟨ready, own, fails, unchanged _ _ fails, ?_, ?_, ?_⟩
  · rw [emitted _ _ own]
    rfl
  · rw [emitted _ _ own]
    rfl
  · rw [emitted _ _ own]
    rfl

end TemplateActions.Logging

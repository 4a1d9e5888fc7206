import TemplateActions.Proofs.Visitor.Outcome

/-!
The records of a visit. The text of a finished program's record counts its statements, which the
frame of the program always knows, and an object that ends the visit is written into its record.
So a record lacks a text only if it is that of an object which ends the visit and cannot be
written.
-/
namespace TemplateActions

namespace Visitor

def HasTexts (v : Visitor) : Prop := ∀ r ∈ v.log, r.message.isSome

variable {v : Visitor}

theorem HasTexts.record (h : v.HasTexts) {r : Record} (text : r.message.isSome) :
    (v.record r).HasTexts := by
  rw [HasTexts, Visitor.record, List.forall_mem_append]
  exact ⟨h, List.forall_mem_singleton.mpr text⟩

theorem HasTexts.leaveProgram (h : v.HasTexts) (program : Node)
    (counted : ∀ frame rest, v.stack = frame :: rest → frame.place.count.isSome) :
    (v.leaveProgram program).HasTexts := by
  rw [Visitor.leaveProgram]
  split
  · exact h
  · rename_i frame rest stack
    obtain ⟨statements, count⟩ := Option.isSome_iff_exists.mp (counted frame rest stack)
    refine HasTexts.record (v := ⟨_, _, v.log⟩) h ?_
    simp [flushRecord, Record.debug, Frame.emit, count]

theorem HasTexts.leaveElement (h : v.HasTexts) (element : Node) (place : Place)
    (singleRoot : Bool) : (v.leaveElement element place singleRoot).HasTexts := by
  rw [Visitor.leaveElement]
  split <;> exact h

end Visitor

/-- Holds for the errors whose record has no text. -/
def VisitError.Unwritable : VisitError → Prop
  | .unknownNode node => node.isWritable = false
  | _ => False

namespace Visited

/-- Holds if every record of a visit has a text, unless the visit ended with an object that cannot
be written. -/
def HasTexts (result : Visited) : Prop :=
  result.1.HasTexts ∨ ∃ e, result.2 = some e ∧ e.Unwritable

variable {result : Visited}

theorem HasTexts.andThen {next : Visitor → Visited} (first : result.HasTexts)
    (second : result.1.HasTexts → (next result.1).HasTexts) : (result.andThen next).HasTexts := by
  obtain ⟨w, _ | e⟩ := result
  · rcases first with texts | ⟨e, same, -⟩
    · exact second texts
    · nomatch same
  · exact first

theorem HasTexts.leave {below : Nat} {finish : Visitor → Visitor} (inside : result.HasTexts)
    (height : result.1.stack.length = below + 1)
    (finished : result.1.HasTexts → (finish result.1).HasTexts) :
    (result.leave below finish).HasTexts := by
  rw [Visited.leave.eq_def, if_pos height]
  obtain ⟨w, _ | e⟩ := result
  · rcases inside with texts | ⟨e, same, -⟩
    · exact .inl (finished texts)
    · cases same
  · exact inside

theorem HasTexts.inside {v : Visitor} {kind : NodeKind} {next : Frame → Visited} (h : v.HasTexts)
    (step : ∀ frame rest, v.stack = frame :: rest → (next frame).HasTexts) :
    (inside kind v next).HasTexts := by
  rcases v with ⟨_ | ⟨frame, rest⟩, actions, log⟩
  · exact .inl h
  · exact step frame rest rfl

theorem HasTexts.unknown {v : Visitor} (h : v.HasTexts) (text : String) (node : Node) :
    (unknown text node v).HasTexts := by
  rw [Visited.unknown]
  cases writable : node.isWritable with
  | true => exact .inl (h.record rfl)
  | false => exact .inr ⟨_, rfl, writable⟩

end Visited

namespace Node

open Visited

theorem count_of_visitChildren {nodes : List Node} {index : Nat} {v : Visitor} {frame top : Frame}
    {rest : List Frame} (stack : ((visitChildren index nodes (v.push frame)).1).stack =
      top :: rest) : top.place.count = frame.place.count := by
  obtain ⟨moved, same, -, -⟩ := visitChildren_explained nodes index (v.push frame) rfl
  rw [stack, Visitor.push, Visitor.update, List.modifyHead_cons, List.modifyHead_cons] at same
  rw [(List.cons.inj same).1]
  rfl

mutual

theorem visit_hasTexts : ∀ (node : Node) {v : Visitor}, v.HasTexts → (node.visit v).HasTexts
  | .program id statements, v, h => by
    rw [visit]
    generalize framed : Frame.mk _ _ _ _ _ _ = frame
    have height := (visitChildren_explained statements 0 (v.push frame) rfl).height
    refine (visitChildren_hasTexts statements 0 (v := v.push frame) h).leave height fun inside => ?_
    refine inside.leaveProgram _ fun top rest stack => ?_
    rw [count_of_visitChildren stack, ← framed]
    rfl
  | .element id tag attributes children helpers, v, h => by
    rw [visit]
    refine .inside h fun parent rest stack => ?_
    dsimp only
    generalize framed : Frame.mk _ _ _ _ _ _ = frame
    have first := visitAll_explained attributes (v.push frame)
    have second := visitChildren_explained children 0 _ first.context?_eq
    refine HasTexts.leave ?_ (first.moves.andThen second).height fun inside =>
      inside.leaveElement _ _ _
    exact (visitAll_hasTexts attributes (v := v.push frame) h).andThen
      (visitChildren_hasTexts children 0)
  | .attr id name value, v, h => by
    rw [visit]
    refine .inside h fun parent rest stack => ?_
    split <;> exact .inl h
  | .block id path params body inverse, v, h => by
    rw [visit]
    refine .inside h fun frame rest stack => ?_
    exact (visitOption_hasTexts inverse (v := v.update _) h).andThen (visitOption_hasTexts body)
  | .component id tag attributes body inverse, v, h => by
    rw [visit]
    refine .inside h fun frame rest stack => ?_
    exact (visitOption_hasTexts inverse (v := v.update _) h).andThen (visitOption_hasTexts body)
  | .text id chars, v, h => .inside h fun _ _ _ => .inl h
  | .mustache id path params escaped, v, h => .inside h fun _ _ _ => .inl h
  | .foreign id kind, v, h => .unknown h _ _
  | .bare id value, v, h => .unknown h _ _

theorem visitChildren_hasTexts : ∀ (nodes : List Node) (index : Nat) {v : Visitor}, v.HasTexts →
    (visitChildren index nodes v).HasTexts
  | [], _, _, h => .inl h
  | node :: rest, index, _, h =>
    (visitChildren_hasTexts rest (index + 1) h).andThen fun inside => visit_hasTexts node inside

theorem visitAll_hasTexts : ∀ (nodes : List Node) {v : Visitor}, v.HasTexts →
    (visitAll nodes v).HasTexts
  | [], _, h => .inl h
  | node :: rest, _, h => (visitAll_hasTexts rest h).andThen (visit_hasTexts node)

theorem visitOption_hasTexts : ∀ (node : Option Node) {v : Visitor}, v.HasTexts →
    (visitOption node v).HasTexts
  | none, _, h => .inl h
  | some node, _, h => visit_hasTexts node h

end

/-- Every record of a compilation has a text, unless the compilation ends with an object that
cannot be written. -/
theorem message_of_mem_compileActions (root : Node) :
    (∀ r ∈ root.compileActions.2, r.message.isSome) ∨
      ∃ u, root.compileActions.1 = .error (.unknownNode u) ∧ u.isWritable = false := by
  have texts := visit_hasTexts root (v := {}) fun _ member => absurd member List.not_mem_nil
  rw [compileActions]
  generalize root.visit {} = result at texts
  rcases texts with texts | ⟨e, failed, unwritable⟩
  · obtain ⟨w, _ | e⟩ := result
    · exact .inl (List.forall_mem_append.mpr ⟨texts, List.forall_mem_singleton.mpr rfl⟩)
    · exact .inl texts
  · obtain ⟨w, _⟩ := result
    cases failed
    cases e with
    | unknownNode u => exact .inr ⟨u, rfl, unwritable⟩
    | _ => cases unwritable

end Node
end TemplateActions

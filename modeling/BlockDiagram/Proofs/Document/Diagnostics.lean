import BlockDiagram.Proofs.Document.Invariants
import BlockDiagram.Proofs.Parser.Leftmost
import BlockDiagram.Proofs.Parser.Places
import BlockDiagram.Rendering

/-!
# What is said of faulty sources

Every source that is no diagram gets one diagnostic, which points into the source
(`parse_diagnostics`): the lexer and the parser find a fault at a character or a token, and building
finds it in a statement.
-/

namespace BlockDiagram

open Grammar
open Source (Position)

private theorem Fault.position_diagnostic (source : String) (fault : Fault) :
    (fault.diagnostic source).position =
      if fault.isPositioned then some (Position.locate source fault.span.start) else none := rfl

namespace Document

/-- A source that has no document has a fault in it. One that is found in front of the statements
states its line and column. -/
theorem exists_fault_of_parse {limit : Nat} {source : String} {failure : Parser.Failure}
    (h : parse limit source = .error failure) :
    ∃ fault, failure = .fault fault ∧ fault.span.LiesIn source ∧
      (fault.code.stage ≠ .semantic → fault.isPositioned = true) := by
  rw [parse] at h
  cases hss : statements source with
  | error failure' =>
    rw [hss] at h
    cases h
    exact exists_fault_of_statements hss
  | ok ss =>
    simp only [hss, bind, Except.bind] at h
    split at h
    · cases h
    · next fault hfault =>
      cases h
      obtain ⟨hplace, hstage⟩ := Builder.span_mem_placesIn_of_build hfault
      exact ⟨fault, rfl, liesIn_of_statements hss _ hplace, fun hne ↦ absurd hstage hne⟩

/-- When a source has no document there is one diagnostic, with a code and with one label, which is
the fault itself: a part of the source between two characters. What the lexer or the grammar finds
has a position, and every position is that of the part. -/
theorem parse_diagnostics {limit : Nat} {source : String} {failure : Parser.Failure}
    (h : parse limit source = .error failure) :
    ∃ d code label, failure.diagnostics source = [d] ∧ d.code = some code ∧ d.labels = [label] ∧
      label.isPrimary = true ∧
      label.span.start ≤ label.span.stop ∧ label.span.stop ≤ source.utf8ByteSize ∧
      String.Pos.Raw.IsValid source ⟨label.span.start⟩ ∧
      String.Pos.Raw.IsValid source ⟨label.span.stop⟩ ∧
      (code = .unexpectedInput ∨ code = .unexpectedToken ∨ code = .unexpectedEnd →
        d.position.isSome = true) ∧
      ∀ position, d.position = some position →
        position = Position.locate source label.span.start := by
  obtain ⟨fault, rfl, hspan, hpositioned⟩ := exists_fault_of_parse h
  refine ⟨fault.diagnostic source, fault.code, ⟨fault.span, fault.remark, true⟩, rfl, rfl, rfl, rfl,
    fault.span.start_le_stop, hspan.stop_le, hspan.start_isValid, hspan.stop_isValid,
    fun hcode ↦ ?_, fun position hposition ↦ ?_⟩
  · have hstage : fault.code.stage ≠ .semantic := by
      rcases hcode with hcode | hcode | hcode <;> rw [hcode] <;> decide
    rw [Fault.position_diagnostic, if_pos (hpositioned hstage)]
    rfl
  · rw [Fault.position_diagnostic] at hposition
    split at hposition
    · exact (Option.some.inj hposition).symm
    · cases hposition

/-- A source that gives a style to a block that is not there, behind a letter of two bytes. -/
def unknownTarget : String :=
  "block-beta a[\"é\"] style b fill:red"

/-- The rules that derive it. -/
def unknownTargetRules : List Production :=
  [.start, .documentMore, .nodes, .chainStart, .unsizedNode] ++ labelRules ++
    [.documentMore, .applyStyle, .documentEnd]

/-- The diagnostic points at the style. -/
theorem diagnostics_unknownTarget : ∃ failure d label, parse 9 unknownTarget = .error failure ∧
    failure.diagnostics unknownTarget = [d] ∧ d.labels = [label] ∧
      label.span = .between 19 35 ∧ d.position = some ⟨1, 19⟩ := by
  have hdecide : (statementsAlong unknownTargetRules unknownTarget).map (fun ss ↦
      (Builder.build 9 ss).map fun _ ↦ ()) =
        some (.error (.undeclaredTarget "b" (.between 19 35))) := by
    decide +kernel
  obtain ⟨ss, hfound, hresult⟩ := Option.map_eq_some_iff.1 hdecide
  have hparse : parse 9 unknownTarget =
      .error (.fault (.undeclaredTarget "b" (.between 19 35))) := by
    rw [parse, statements_of_along hfound]
    simp only [bind, Except.bind, map_eq_error_iff.1 hresult]
    rfl
  obtain ⟨d, code, label, hd, -, hlabel, -, -, -, -, -, -, hposition⟩ := parse_diagnostics hparse
  cases hd
  cases hlabel
  refine ⟨_, _, _, hparse, rfl, rfl, rfl, ?_⟩
  rw [Fault.position_diagnostic]
  exact congrArg some (by decide +kernel)

end Document

end BlockDiagram

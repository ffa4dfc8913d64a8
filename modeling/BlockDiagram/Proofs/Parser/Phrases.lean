import BlockDiagram.Grammar.Meaning
import BlockDiagram.Proofs.Statement
import Mathlib.Data.List.Forall2

/-!
# Phrases

What tokens mean, said without the rules of the grammar: which labels, links, nodes and single
statements they make up, how a chain of nodes becomes statements (`NodeStatement.Yields`), and how
statements follow each other and lie inside composites (`AreReadFrom`). Every statement states the
place of its own tokens.
-/

namespace BlockDiagram

open Source (Located Span)
open Token (Kind)

/-- Holds for the place from the first of tokens to the last. -/
structure Source.Span.Frames (span : Span) (ts : List Token) : Prop where
  start_eq : ts.head?.map (·.span.start) = some span.start
  stop_eq : ts.getLast?.map (·.span.stop) = some span.stop

/-! ### Labels, links and nodes -/

/-- Holds for labels that are read from tokens. -/
inductive Label.IsReadFrom : Label → List Token → Prop where
  | plain {t : Token} (hkind : t.kind = .text) : IsReadFrom ⟨t.text, false⟩ [t]
  | markdown {t : Token} (hkind : t.kind = .markdown) : IsReadFrom ⟨t.text, true⟩ [t]

/-- Holds for links that are read from tokens. A link with a label has its line and the marker in
front of it from its first token, and the marker behind the line from its last one. -/
inductive LinkDecl.IsReadFrom : LinkDecl → List Token → Prop where
  | plain {t : Token} (hkind : t.kind = .link) :
      IsReadFrom
        { label := none
          startMarker := Marker.atStart (Text.trim t.text)
          endMarker := Marker.atEnd (Text.trim t.text)
          stroke := Stroke.ofLink (Text.trim t.text) } [t]
  | labelled {opening quote closing : Token} {ts : List Token} {label : Label}
      (hopening : opening.kind = .labelledLink) (hquote : quote.kind = .linkLabel)
      (hlabel : label.IsReadFrom ts) (hclosing : closing.kind = .link) :
      IsReadFrom
        { label := some label
          startMarker := Marker.atStart (Text.trim opening.text)
          endMarker := Marker.atEnd (Text.trim closing.text)
          stroke := Stroke.ofLink (Text.trim opening.text) } (opening :: quote :: ts ++ [closing])

/-- Tokens make up one label at most. -/
theorem Label.IsReadFrom.unique {label label' : Label} {ts : List Token} (h : label.IsReadFrom ts)
    (h' : label'.IsReadFrom ts) : label = label' := by
  cases h with
  | plain hkind =>
    cases h' with
    | plain => rfl
    | markdown hkind' => cases hkind.symm.trans hkind'
  | markdown hkind =>
    cases h' with
    | plain hkind' => cases hkind.symm.trans hkind'
    | markdown => rfl

/-- Tokens make up one link at most. -/
theorem LinkDecl.IsReadFrom.unique {link link' : LinkDecl} {ts : List Token} (h : link.IsReadFrom ts)
    (h' : link'.IsReadFrom ts) : link = link' := by
  generalize hts : ts = ts' at h'
  cases h with
  | plain =>
    cases h' with
    | plain =>
      cases hts
      rfl
    | labelled => cases hts
  | labelled _ _ hlabel =>
    cases h' with
    | plain => cases hts
    | labelled _ _ hlabel' =>
      obtain ⟨rfl, hrest⟩ := List.cons.inj hts
      obtain ⟨-, hrest⟩ := List.cons.inj hrest
      obtain ⟨rfl, hclosing⟩ := List.append_inj' hrest rfl
      cases hclosing
      rw [hlabel.unique hlabel']

/-- Holds for the directions that tokens name, one each. -/
def AreDirections (directions : List Direction) (ts : List Token) : Prop :=
  List.Forall₂ (fun direction t ↦ t.kind = .direction ∧ Grammar.directionIn t = .ok direction)
    directions ts

/-- Holds for shapes that are read from tokens. -/
inductive Grammar.ShapeDecl.IsReadFrom : ShapeDecl → List Token → Prop where
  | labelled {opening closing : Token} {ts : List Token} {label : Label}
      (hopening : opening.kind = .shapeOpen) (hlabel : label.IsReadFrom ts)
      (hclosing : closing.kind = .shapeClose) :
      IsReadFrom ⟨Shape.ofBrackets opening.text closing.text, some label, []⟩
        (opening :: ts ++ [closing])
  | empty {opening closing : Token} (hopening : opening.kind = .shapeOpen)
      (hclosing : closing.kind = .shapeClose) :
      IsReadFrom ⟨Shape.ofBrackets opening.text closing.text, none, []⟩ [opening, closing]
  | arrow {opening closing : Token} {ts ts' : List Token} {label : Label}
      {directions : List Direction} (hopening : opening.kind = .arrowOpen)
      (hlabel : label.IsReadFrom ts) (hdirections : AreDirections directions ts')
      (hclosing : closing.kind = .arrowClose) :
      IsReadFrom ⟨.blockArrow, some label, directions⟩ (opening :: ts ++ ts' ++ [closing])

namespace NodeDecl

/-- Holds for nodes that are read from tokens, apart from their width. -/
inductive IsNamedBy : NodeDecl → List Token → Prop where
  | bare {t : Token} (hkind : t.kind = .nodeId) : IsNamedBy { id := t.text } [t]
  | shaped {t : Token} {ts : List Token} {shape : Grammar.ShapeDecl} (hkind : t.kind = .nodeId)
      (hshape : shape.IsReadFrom ts) :
      IsNamedBy
        { id := t.text
          label := shape.label
          shape := shape.shape
          directions := shape.directions } (t :: ts)

/-- Holds for nodes that are read from tokens. -/
inductive IsReadFrom : NodeDecl → List Token → Prop where
  | unsized {node : NodeDecl} {ts : List Token} (hnode : node.IsNamedBy ts) : IsReadFrom node ts
  | sized {node : NodeDecl} {ts : List Token} {t : Token} {width : Nat} (hnode : node.IsNamedBy ts)
      (hkind : t.kind = .width) (hwidth : Grammar.numberIn t Grammar.maxWidth = .ok width) :
      IsReadFrom { node with width := width } (ts ++ [t])

/-- Holds for the heads of composites and the tokens that open these. -/
inductive IsOpenedBy : NodeDecl → List Token → Prop where
  | named {node : NodeDecl} {t : Token} {ts : List Token} (hkind : t.kind = .namedBlock)
      (hnode : node.IsReadFrom ts) : IsOpenedBy { node with shape := .composite } (t :: ts)
  | anonymous {t : Token} {n : Nat} (hkind : t.kind = .block) :
      IsOpenedBy { id := Grammar.anonymousId n, shape := .composite } [t]

end NodeDecl

/-! ### Statements -/

/-- Holds for single statements that are read from tokens. -/
inductive Statement.IsReadFrom : Statement → List Token → Prop where
  | columns {t : Token} {count : Int} (hkind : t.kind = .columns)
      (hcount : Grammar.columnsIn t = .ok count) : IsReadFrom (.columns count) [t]
  | space {t : Token} {count : Nat} (hkind : t.kind = .space)
      (hcount : Grammar.spacersIn t = .ok count) : IsReadFrom (.space count) [t]
  | classDef {keyword name styles : Token}
      (hkinds : [keyword, name, styles].map Token.kind = [.classDef, .className, .classStyles]) :
      IsReadFrom (.classDef (Text.trim name.text) (Text.trim styles.text)) [keyword, name, styles]
  | defaultClassDef {keyword name styles : Token}
      (hkinds : [keyword, name, styles].map Token.kind = [.classDef, .defaultClass, .classStyles]) :
      IsReadFrom (.classDef "default" (Text.trim styles.text)) [keyword, name, styles]
  | applyClass {keyword targets name : Token}
      (hkinds : [keyword, targets, name].map Token.kind =
        [.applyClass, .classTargets, .appliedClass]) :
      IsReadFrom (.applyClass (Text.trim targets.text) (Text.trim name.text))
        [keyword, targets, name]
  | applyStyles {keyword targets styles : Token}
      (hkinds : [keyword, targets, styles].map Token.kind = [.applyStyle, .styleTargets, .styles]) :
      IsReadFrom (.applyStyles (Text.trim targets.text) (Text.trim styles.text))
        [keyword, targets, styles]
  | title {keyword text : Token} (hkinds : [keyword, text].map Token.kind = [.title, .titleText]) :
      IsReadFrom (.title (Text.trim text.text)) [keyword, text]
  | description {keyword text : Token}
      (hkinds : [keyword, text].map Token.kind = [.description, .descriptionText]) :
      IsReadFrom (.description (Text.trim text.text)) [keyword, text]
  | descriptionBlock {text : Token} (hkind : text.kind = .descriptionBlock) :
      IsReadFrom (.description (Text.trim text.text)) [text]

/-- The tokens of a node, and of the links and nodes that follow it. -/
structure NodeStatement where
  first : List Token
  more : List (List Token × List Token)

namespace NodeStatement

/-- The tokens of nodes and links in turn, a node first. -/
def parts (phrase : NodeStatement) : List (List Token) :=
  phrase.first :: phrase.more.flatMap fun (link, node) ↦ [link, node]

/-- All tokens, in order. -/
def tokens (phrase : NodeStatement) : List Token :=
  phrase.parts.flatten

/-- With one more link and the node behind it. -/
def extend (phrase : NodeStatement) (link node : List Token) : NodeStatement :=
  { phrase with more := phrase.more ++ [(link, node)] }

/-- Holds for the statements that nodes with links between them become: one for every node and one
for every link, in turn. -/
structure Yields (phrase : NodeStatement) (ss : List (Located Statement)) : Prop where
  length_eq : ss.length = 2 * phrase.more.length + 1
  frames : List.Forall₂ (fun ts s ↦ s.span.Frames ts) phrase.parts ss
  node_at : ∀ i ts, phrase.parts[2 * i]? = some ts → ∃ node span,
    ss[2 * i]? = some ⟨.node node, span⟩ ∧ node.IsReadFrom ts
  /-- An edge has the one link that is read from its tokens, and connects the nodes around it. -/
  edge_at : ∀ i ts, phrase.parts[2 * i + 1]? = some ts → ∃ edge span,
    ss[2 * i + 1]? = some ⟨.edge edge, span⟩ ∧ (∀ link, link.IsReadFrom ts ↔ link = edge.link) ∧
      (∃ node span, ss[2 * i]? = some ⟨.node node, span⟩ ∧ edge.start = node.id) ∧
      ∃ node span, ss[2 * i + 2]? = some ⟨.node node, span⟩ ∧ edge.target = node.id ∧
        edge.directions = node.directions

variable {phrase : NodeStatement} {link node : List Token}

private theorem parts_extend : (phrase.extend link node).parts = phrase.parts ++ [link, node] := by
  rw [parts, extend, List.flatMap_append]
  rfl

/-- A link and a node are written behind the chain that they extend. -/
theorem tokens_extend :
    (phrase.extend link node).tokens = phrase.tokens ++ (link ++ node) := by
  rw [tokens, parts_extend, List.flatten_append]
  simp [tokens]

private theorem length_parts (phrase : NodeStatement) :
    phrase.parts.length = 2 * phrase.more.length + 1 := by
  rw [parts, List.length_cons, List.length_flatMap]
  simp [Nat.mul_comm]

/-- A node without links is one statement. -/
theorem yields_first {n : Located NodeDecl} (hnode : n.value.IsReadFrom node)
    (hframes : n.span.Frames node) : Yields ⟨node, []⟩ (Chain.first n).statements where
  length_eq := rfl
  frames := .cons hframes .nil
  node_at i ts hts := by
    obtain ⟨rfl, rfl⟩ : i = 0 ∧ node = ts := by
      cases i with
      | zero => exact ⟨rfl, Option.some.inj hts⟩
      | succ i => cases hts
    exact ⟨n.value, n.span, rfl, hnode⟩
  edge_at i ts hts := by cases hts

end NodeStatement

private theorem getElem?_append_pair {α : Type} (xs : List α) (x y : α) :
    (xs ++ [x, y])[xs.length]? = some x ∧ (xs ++ [x, y])[xs.length + 1]? = some y := by
  constructor
  · rw [List.getElem?_append_right (Nat.le_refl _), Nat.sub_self]
    rfl
  · rw [List.getElem?_append_right (Nat.le_add_right _ 1), Nat.add_sub_cancel_left]
    rfl

/-- A chain ends in the statement of its last node. -/
theorem Chain.getElem?_last (chain : Chain) {k : Nat} (hk : chain.statements.length = k + 1) :
    ∃ span, chain.statements[k]? = some ⟨.node chain.last, span⟩ := by
  cases chain with
  | first n =>
    obtain rfl : 0 = k := Nat.succ.inj hk
    exact ⟨n.span, rfl⟩
  | more chain link n =>
    rw [statements_more] at hk ⊢
    rw [List.length_append] at hk
    obtain rfl : k = chain.statements.length + 1 := (Nat.succ.inj hk).symm
    exact ⟨n.span, (getElem?_append_pair _ _ _).2⟩

/-- One more link and the node behind it are two more statements. -/
theorem NodeStatement.Yields.extend {phrase : NodeStatement} {chain : Chain} {l : Located LinkDecl}
    {n : Located NodeDecl} {link node : List Token} (h : phrase.Yields chain.statements)
    (hlink : l.value.IsReadFrom link) (hlinkFrames : l.span.Frames link)
    (hnode : n.value.IsReadFrom node) (hnodeFrames : n.span.Frames node) :
    (phrase.extend link node).Yields (chain.more l n).statements := by
  have hss := h.length_eq
  have hparts := phrase.length_parts
  have hmore : (phrase.extend link node).more.length = phrase.more.length + 1 := by
    rw [NodeStatement.extend, List.length_append]
    rfl
  obtain ⟨span, hlast⟩ := chain.getElem?_last hss
  -- The new parts and the new statements have the same two places behind the old ones.
  obtain ⟨hlinkAt, hnodeAt⟩ := getElem?_append_pair phrase.parts link node
  obtain ⟨hedgeStatement, hnodeStatement⟩ := getElem?_append_pair chain.statements
    ⟨.edge (chain.edgeTo l.value n.value), l.span⟩ ⟨.node n.value, n.span⟩
  have hkept {i : Nat} {s : Located Statement} (hs : chain.statements[i]? = some s) :
      (chain.more l n).statements[i]? = some s := by
    rw [Chain.statements_more, List.getElem?_append_left (List.getElem?_eq_some_iff.1 hs).1, hs]
  rw [← Chain.statements_more, hss] at hedgeStatement hnodeStatement
  rw [hparts, ← parts_extend] at hlinkAt hnodeAt
  constructor
  · rw [hmore, Chain.statements_more, List.length_append, hss]
    simp only [List.length_cons, List.length_nil]
    omega
  · rw [parts_extend, Chain.statements_more]
    exact List.rel_append h.frames (.cons hlinkFrames (.cons hnodeFrames .nil))
  · intro i ts hts
    have hi : 2 * i < (phrase.extend link node).parts.length := (List.getElem?_eq_some_iff.1 hts).1
    rw [length_parts, hmore] at hi
    by_cases hold : i ≤ phrase.more.length
    · rw [parts_extend, List.getElem?_append_left (by omega)] at hts
      obtain ⟨node', span', hnode', hread⟩ := h.node_at i ts hts
      exact ⟨node', span', hkept hnode', hread⟩
    · obtain rfl : i = phrase.more.length + 1 := by omega
      obtain rfl : node = ts := Option.some.inj (hnodeAt.symm.trans hts)
      exact ⟨n.value, n.span, hnodeStatement, hnode⟩
  · intro i ts hts
    have hi : 2 * i + 1 < (phrase.extend link node).parts.length :=
      (List.getElem?_eq_some_iff.1 hts).1
    rw [length_parts, hmore] at hi
    by_cases hold : i < phrase.more.length
    · rw [parts_extend, List.getElem?_append_left (by omega)] at hts
      obtain ⟨edge, span', hedge, hread, ⟨before, _, hbefore, hstart⟩, behind, _, hbehind,
        htarget⟩ := h.edge_at i ts hts
      exact ⟨edge, span', hkept hedge, hread, ⟨before, _, hkept hbefore, hstart⟩, behind, _,
        hkept hbehind, htarget⟩
    · obtain rfl : i = phrase.more.length := by omega
      obtain rfl : link = ts := Option.some.inj (hlinkAt.symm.trans hts)
      refine ⟨_, l.span, hedgeStatement, fun link' ↦ ⟨fun h' ↦ h'.unique hlink, ?_⟩,
        ⟨chain.last, span, hkept hlast, rfl⟩, ⟨n.value, n.span, hnodeStatement, rfl, rfl⟩⟩
      rintro rfl
      exact hlink

/-- Holds for statements that are read from tokens, those in the bodies of composites included. -/
inductive AreReadFrom : List (Located Statement) → List Token → Prop where
  | nil : AreReadFrom [] []
  | nodes {phrase : NodeStatement} {chain rest : List (Located Statement)} {ts : List Token}
      (hchain : phrase.Yields chain) (hrest : AreReadFrom rest ts) :
      AreReadFrom (chain ++ rest) (phrase.tokens ++ ts)
  | composite {head : NodeDecl} {body rest : List (Located Statement)} {span : Span}
      {opening inside ts : List Token} {closing : Token} (hhead : head.IsOpenedBy opening)
      (hbody : AreReadFrom body inside) (hclosing : closing.kind = .blockEnd)
      (hframes : span.Frames (opening ++ inside ++ [closing])) (hrest : AreReadFrom rest ts) :
      AreReadFrom (⟨.composite head body, span⟩ :: rest) (opening ++ inside ++ [closing] ++ ts)
  | single {statement : Statement} {span : Span} {rest : List (Located Statement)}
      {own ts : List Token} (hstatement : statement.IsReadFrom own) (hframes : span.Frames own)
      (hrest : AreReadFrom rest ts) : AreReadFrom (⟨statement, span⟩ :: rest) (own ++ ts)

/-- Statements are read from tokens one behind the other. -/
theorem AreReadFrom.append {front back : List (Located Statement)} {ts ts' : List Token}
    (h : AreReadFrom front ts) (h' : AreReadFrom back ts') :
    AreReadFrom (front ++ back) (ts ++ ts') := by
  induction h with
  | nil => exact h'
  | nodes hchain _ ih =>
    rw [List.append_assoc, List.append_assoc]
    exact .nodes hchain ih
  | composite hhead hbody hclosing hframes _ _ ih =>
    rw [List.append_assoc _ _ ts']
    exact .composite hhead hbody hclosing hframes ih
  | single hstatement hframes _ ih =>
    rw [List.append_assoc]
    exact .single hstatement hframes ih

end BlockDiagram

import BlockDiagram.Proofs.Document.Building

/-!
# Mentions

Which blocks statements mention, in the order of the source: nodes, composites in front of what is
inside of them, and the spacers that were named for a space statement (`Mentions`). A block belongs
to the composite that it is first mentioned in (`firsts`, `heldBy`).
-/

namespace BlockDiagram

open Source (Located)

/-- A block that is mentioned in the body of a composite. -/
structure Mention where
  composite : BlockId
  id : BlockId
  deriving DecidableEq, Repr

/-- The blocks that are mentioned. -/
def idsOf (mentions : List Mention) : List BlockId :=
  mentions.map Mention.id

/-- The mentions of blocks that are not known before. -/
def firsts (known : List BlockId) : List Mention → List Mention
  | [] => []
  | mention :: mentions =>
    if mention.id ∈ known then firsts known mentions
    else mention :: firsts (mention.id :: known) mentions

/-- The blocks that are mentioned in the body of a composite. -/
def heldBy (composite : BlockId) (mentions : List Mention) : List BlockId :=
  (mentions.filter fun mention ↦ mention.composite = composite).map Mention.id

/-- Holds for the statements that place blocks. -/
def Statement.placesBlocks : Statement → Bool
  | .node _ | .composite _ _ | .space _ => true
  | _ => false

/-- A statement that places no blocks declares none. -/
theorem namesIn_cons_of_placesBlocks {statement : Statement} {span : Source.Span}
    {statements : List (Located Statement)} (h : statement.placesBlocks = false) :
    namesIn (⟨statement, span⟩ :: statements) = namesIn statements := by
  cases statement <;> first | rfl | cases h

/-- The ids that a statement gives a class to, in order. A block need not be mentioned for that. -/
def Statement.classed : Statement → List BlockId
  | .applyClass targets _ => Builder.targetsOf targets
  | _ => []

/-- The ids that statements give a class to, in order. -/
abbrev classedIn (statements : List (Located Statement)) : List BlockId :=
  collect (fun s ↦ s.value.classed) statements

/-- The blocks that statements in the body of `composite` mention, behind those in `known`. The
names of spacers are numbered and not known before. -/
inductive Mentions : List BlockId → BlockId → List (Located Statement) → List Mention → Prop where
  | nil {known composite} : Mentions known composite [] []
  | node {known composite node span statements mentions}
      (h : Mentions (node.id :: known) composite statements mentions) :
      Mentions known composite (⟨.node node, span⟩ :: statements)
        (⟨composite, node.id⟩ :: mentions)
  | composite {known composite head body span inner statements mentions}
      (hbody : Mentions (head.id :: known) head.id body inner)
      (h : Mentions (head.id :: (idsOf inner ++ known)) composite statements mentions) :
      Mentions known composite (⟨.composite head body, span⟩ :: statements)
        (⟨composite, head.id⟩ :: inner ++ mentions)
  | space {known composite count span names statements mentions} (hcount : names.length = count)
      (hnodup : names.Nodup)
      (hnames : ∀ id ∈ names, (∃ n, id = composite.numbered n) ∧ id ∉ known)
      (h : Mentions (names ++ known) composite statements mentions) :
      Mentions known composite (⟨.space count, span⟩ :: statements)
        (names.map (Mention.mk composite) ++ mentions)
  | other {known composite statement span statements mentions}
      (hother : statement.placesBlocks = false)
      (h : Mentions known composite statements mentions) :
      Mentions known composite (⟨statement, span⟩ :: statements) mentions

section

variable {known known' : List BlockId} {mentions others : List Mention} {composite id : BlockId}

/-- The first mention names the first block. -/
theorem idsOf_cons (mention : Mention) :
    idsOf (mention :: mentions) = mention.id :: idsOf mentions := rfl

/-- Blocks that are mentioned first are named first. -/
theorem idsOf_append : idsOf (mentions ++ others) = idsOf mentions ++ idsOf others :=
  List.map_append

/-- Mentions in one composite name the blocks that they are made of. -/
theorem idsOf_map_mk (names : List BlockId) : idsOf (names.map (Mention.mk composite)) = names := by
  rw [idsOf, List.map_map]
  exact List.map_id names

/-- A composite holds the blocks of earlier mentions in front of those of later ones. -/
theorem heldBy_append :
    heldBy composite (mentions ++ others) = heldBy composite mentions ++ heldBy composite others := by
  rw [heldBy, List.filter_append, List.map_append]
  rfl

/-- A composite in which nothing is mentioned holds nothing. -/
theorem heldBy_eq_nil (h : ∀ mention ∈ mentions, mention.composite ≠ composite) :
    heldBy composite mentions = [] := by
  have hfilter : mentions.filter (fun mention ↦ mention.composite = composite) = [] :=
    List.filter_eq_nil_iff.2 fun mention hmention ↦ by simpa using h mention hmention
  rw [heldBy, hfilter]
  rfl

/-- A composite holds exactly what is mentioned in its body. -/
theorem mem_heldBy_iff : id ∈ heldBy composite mentions ↔ ⟨composite, id⟩ ∈ mentions := by
  simp only [heldBy, List.mem_map, List.mem_filter, decide_eq_true_eq]
  constructor
  · rintro ⟨mention, ⟨hmention, rfl⟩, rfl⟩
    exact hmention
  · intro h
    exact ⟨_, ⟨h, rfl⟩, rfl⟩

/-! ### First mentions -/

/-- Only which blocks are known matters, not their order. -/
theorem firsts_congr (h : ∀ id, id ∈ known ↔ id ∈ known') :
    firsts known mentions = firsts known' mentions := by
  induction mentions generalizing known known' with
  | nil => rfl
  | cons mention mentions ih =>
    have hmore : ∀ id, id ∈ mention.id :: known ↔ id ∈ mention.id :: known' := by
      intro id
      rw [List.mem_cons, List.mem_cons, h]
    rw [firsts, firsts, ih h, ih hmore]
    simp only [h]

/-- Of later mentions those count whose blocks the earlier ones do not mention. -/
theorem firsts_append :
    firsts known (mentions ++ others) =
      firsts known mentions ++ firsts (idsOf mentions ++ known) others := by
  induction mentions generalizing known with
  | nil => rfl
  | cons mention mentions ih =>
    rw [List.cons_append, firsts, firsts]
    split
    · next hknown =>
      rw [ih]
      congr 1
      refine firsts_congr fun id ↦ ?_
      simp only [idsOf, List.map_cons, List.cons_append, List.mem_cons, List.mem_append]
      constructor
      · exact .inr
      · rintro (rfl | h)
        · exact .inr hknown
        · exact h
    · rw [ih, List.cons_append]
      congr 2
      refine firsts_congr fun id ↦ ?_
      simp only [idsOf, List.map_cons, List.cons_append, List.mem_cons, List.mem_append]
      tauto

/-- A single mention counts unless the block is known. -/
theorem firsts_singleton (mention : Mention) :
    firsts known [mention] = if mention.id ∈ known then [] else [mention] := rfl

/-- The first mention, and then the others. -/
theorem firsts_cons (mention : Mention) (mentions : List Mention) :
    firsts known (mention :: mentions) =
      firsts known [mention] ++ firsts (mention.id :: known) mentions :=
  @firsts_append known [mention] mentions

/-- A single mention is of no account for other composites. -/
theorem heldBy_firsts_of_ne {mention : Mention} {other : BlockId} (h : other ≠ mention.composite) :
    heldBy other (firsts known [mention]) = [] := by
  refine heldBy_eq_nil fun first hfirst ↦ ?_
  rw [firsts_singleton] at hfirst
  split at hfirst
  · cases hfirst
  · obtain rfl := List.mem_singleton.1 hfirst
    exact h.symm

/-- All of several new names count. -/
theorem firsts_map_mk {names : List BlockId} (hnodup : names.Nodup)
    (hnames : ∀ id ∈ names, id ∉ known) :
    firsts known (names.map (Mention.mk composite)) = names.map (Mention.mk composite) := by
  induction names generalizing known with
  | nil => rfl
  | cons name names ih =>
    obtain ⟨hname, hnodup⟩ := List.nodup_cons.1 hnodup
    obtain ⟨hnew, hnames⟩ := List.forall_mem_cons.1 hnames
    rw [List.map_cons, firsts, if_neg hnew, ih hnodup]
    intro id hid hknown
    rcases List.mem_cons.1 hknown with rfl | hknown
    · exact hname hid
    · exact hnames id hid hknown

/-- First mentions are mentions, in the same order. -/
theorem firsts_sublist : (firsts known mentions).Sublist mentions := by
  induction mentions generalizing known with
  | nil => exact .slnil
  | cons mention mentions ih =>
    rw [firsts]
    split
    · exact ih.cons mention
    · exact ih.cons_cons mention

/-- There is a first mention of every block that is mentioned and not known before. -/
theorem mem_idsOf_firsts_iff : id ∈ idsOf (firsts known mentions) ↔
    id ∈ idsOf mentions ∧ id ∉ known := by
  induction mentions generalizing known with
  | nil => simp [firsts, idsOf]
  | cons mention mentions ih =>
    rw [firsts]
    split
    · next hknown =>
      rw [ih]
      simp only [idsOf, List.map_cons, List.mem_cons]
      constructor
      · rintro ⟨hid, hnew⟩
        exact ⟨.inr hid, hnew⟩
      · rintro ⟨rfl | hid, hnew⟩
        · exact absurd hknown hnew
        · exact ⟨hid, hnew⟩
    · next hnew =>
      have htail := @ih (mention.id :: known)
      simp only [idsOf, List.map_cons, List.mem_cons] at htail ⊢
      rw [htail]
      constructor
      · rintro (rfl | ⟨hid, hnot⟩)
        · exact ⟨.inl rfl, hnew⟩
        · exact ⟨.inr hid, fun h ↦ hnot (.inr h)⟩
      · rintro ⟨rfl | hid, hnot⟩
        · exact .inl rfl
        · by_cases heq : id = mention.id
          · exact .inl heq
          · exact .inr ⟨hid, fun h ↦ h.elim heq hnot⟩

/-- No block is mentioned for the first time twice. -/
theorem nodup_idsOf_firsts : (idsOf (firsts known mentions)).Nodup := by
  induction mentions generalizing known with
  | nil => exact List.nodup_nil
  | cons mention mentions ih =>
    rw [firsts]
    split
    · exact ih
    · refine List.nodup_cons.2 ⟨fun hmem ↦ ?_, ih⟩
      exact (mem_idsOf_firsts_iff.1 hmem).2 List.mem_cons_self

/-! ### Composites -/

/-- Holds when every block is mentioned in a composite from `above` or in one mentioned before. -/
def Rooted (above : List BlockId) : List Mention → Prop
  | [] => True
  | mention :: mentions => mention.composite ∈ above ∧ Rooted (mention.id :: above) mentions

private theorem Rooted.mono {above above' : List BlockId} (h : Rooted above mentions)
    (habove : above ⊆ above') : Rooted above' mentions := by
  induction mentions generalizing above above' with
  | nil => trivial
  | cons mention mentions ih =>
    exact ⟨habove h.1, ih h.2 (List.cons_subset_cons mention.id habove)⟩

private theorem rooted_append {above : List BlockId} {front back : List Mention}
    (hfront : Rooted above front)
    (hback : Rooted (idsOf front ++ above) back) : Rooted above (front ++ back) := by
  induction front generalizing above with
  | nil => exact hback
  | cons mention front ih =>
    refine ⟨hfront.1, ih hfront.2 (hback.mono fun id hid ↦ ?_)⟩
    simp only [idsOf, List.map_cons, List.cons_append, List.mem_cons, List.mem_append] at hid ⊢
    tauto

private theorem rooted_map_mk {above : List BlockId} (names : List BlockId)
    (h : composite ∈ above) : Rooted above (names.map (Mention.mk composite)) := by
  induction names generalizing above with
  | nil => trivial
  | cons name names ih => exact ⟨h, ih (List.mem_cons_of_mem name h)⟩

/-- The first mentions alone are enough to find all composites. -/
theorem Rooted.firsts (h : Rooted known mentions) : Rooted known (firsts known mentions) := by
  induction mentions generalizing known with
  | nil => trivial
  | cons mention mentions ih =>
    rw [BlockDiagram.firsts]
    split
    · next hknown =>
      exact ih (h.2.mono (List.cons_subset.2 ⟨hknown, List.Subset.refl known⟩))
    · exact ⟨h.1, ih h.2⟩

/-- A block is mentioned in a composite that is mentioned itself or there from the start. -/
theorem Rooted.composite_mem {above : List BlockId} (h : Rooted above mentions) :
    ∀ mention ∈ mentions, mention.composite ∈ above ++ idsOf mentions := by
  induction mentions generalizing above with
  | nil => exact List.forall_mem_nil _
  | cons mention mentions ih =>
    refine List.forall_mem_cons.2 ⟨List.mem_append_left _ h.1, fun other hother ↦ ?_⟩
    have := ih h.2 other hother
    simp only [idsOf, List.map_cons, List.cons_append, List.mem_cons, List.mem_append] at this ⊢
    tauto

end

/-! ### What is mentioned -/

namespace Mentions

variable {known : List BlockId} {composite : BlockId} {statements : List (Located Statement)}
  {mentions : List Mention}

/-- A block is mentioned in the body of `composite`, or in that of a composite mentioned before. -/
theorem rooted (h : Mentions known composite statements mentions) {above : List BlockId}
    (habove : composite ∈ above) : Rooted above mentions := by
  induction h generalizing above with
  | nil => trivial
  | node h ih => exact ⟨habove, ih (List.mem_cons_of_mem _ habove)⟩
  | composite hbody h ihbody ih =>
    exact rooted_append ⟨habove, ihbody List.mem_cons_self⟩ (ih (List.mem_append_right _ habove))
  | space hcount hnodup hnames h ih =>
    exact rooted_append (rooted_map_mk _ habove) (ih (List.mem_append_right _ habove))
  | other hother h ih => exact ih habove

/-- All nodes and composites are mentioned. -/
theorem names_subset (h : Mentions known composite statements mentions) :
    namesIn statements ⊆ idsOf mentions := by
  induction h with
  | nil => exact List.nil_subset _
  | node h ih =>
    intro id hid
    rcases List.mem_cons.1 hid with rfl | hid
    · exact List.mem_cons_self
    · exact List.mem_cons_of_mem _ (ih hid)
  | composite hbody h ihbody ih =>
    intro id hid
    rw [namesIn_composite, List.mem_cons, List.mem_append] at hid
    rw [idsOf_append]
    rcases hid with rfl | hid | hid
    · exact List.mem_cons_self
    · exact List.mem_append_left _ (List.mem_cons_of_mem _ (ihbody hid))
    · exact List.mem_append_right _ (ih hid)
  | space hcount hnodup hnames h ih =>
    intro id hid
    rw [idsOf_append]
    exact List.mem_append_right _ (ih hid)
  | other hother h ih =>
    rw [namesIn_cons_of_placesBlocks hother]
    exact ih

/-- Whatever is mentioned is declared, or numbered in the composite around the statements or in a
declared one. -/
theorem mem_or_numbered (h : Mentions known composite statements mentions) :
    ∀ id ∈ idsOf mentions, id ∈ namesIn statements ∨
      ∃ c n, (c = composite ∨ c ∈ namesIn statements) ∧ id = c.numbered n := by
  induction h with
  | nil => exact List.forall_mem_nil _
  | node h ih =>
    intro id hid
    rcases List.mem_cons.1 hid with rfl | hid
    · exact .inl List.mem_cons_self
    · rcases ih id hid with hname | ⟨c, n, hc, rfl⟩
      · exact .inl (List.mem_cons_of_mem _ hname)
      · exact .inr ⟨c, n, hc.imp_right (List.mem_cons_of_mem _), rfl⟩
  | composite hbody h ihbody ih =>
    simp only [idsOf_append, idsOf_cons, namesIn_composite, List.cons_append, List.mem_cons,
      List.mem_append]
    rintro id (rfl | hid | hid)
    · exact .inl (.inl rfl)
    · rcases ihbody id hid with hname | ⟨c, n, hc, rfl⟩
      · exact .inl (.inr (.inl hname))
      · exact .inr ⟨c, n, .inr (hc.imp_right .inl), rfl⟩
    · rcases ih id hid with hname | ⟨c, n, hc, rfl⟩
      · exact .inl (.inr (.inr hname))
      · exact .inr ⟨c, n, hc.imp_right fun hmem ↦ .inr (.inr hmem), rfl⟩
  | space hcount hnodup hnames h ih =>
    rw [idsOf_append, idsOf_map_mk]
    intro id hid
    rcases List.mem_append.1 hid with hid | hid
    · obtain ⟨⟨n, rfl⟩, -⟩ := hnames id hid
      exact .inr ⟨_, n, .inl rfl, rfl⟩
    · exact ih id hid
  | other hother h ih =>
    rw [namesIn_cons_of_placesBlocks hother]
    exact ih

end Mentions

end BlockDiagram

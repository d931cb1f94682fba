import Tidymark.Proofs.Tree.Prose
import Mathlib.Data.List.Basic
import Mathlib.Data.List.Infix

/-! # What a walk finds in a tree

A snapshot knows the headings, the verbatim lines and the front matter of its document from one walk
over the tree. The walk counts how deep it is and stays out of code and front matter. So what it
finds is told by the places of the tree, without a walk: by each node and the nodes that it lies
in. -/
namespace Tidymark

/-- A node of a tree, and the nodes that it lies in from the nearest on. -/
structure Place where
  node : Node
  above : List Node

mutual

/-- The node and all below it in source order, where the node lies in `above`. -/
def Node.places (above : List Node) : Node → List Place
  | .mk kind span children value data =>
    let node := Node.mk kind span children value data
    ⟨node, above⟩ :: Node.placesAll (node :: above) children

def Node.placesAll (above : List Node) : List Node → List Place
  | [] => []
  | node :: rest => node.places above ++ Node.placesAll above rest

end

/-- Whether what is inside of the node counts for nothing. -/
def Node.hides (n : Node) : Bool := n.kind == .code || n.kind == .frontMatter

namespace Place

/-- Whether the node lies in neither code nor front matter. -/
def visible (p : Place) : Bool := p.above.all (!·.hides)

/-- The heading at a place: its span, depth and style, and whether it is a child of the root. -/
def heading? (p : Place) : Option (Span × Nat × Bool × Bool) :=
  match p.node.kind, p.node.data with
  | .heading, .heading depth setext =>
    some (p.node.span, depth, setext, p.above.length == 1)
  | _, _ => none

end Place

/-- The places of a tree outside of code and front matter. -/
def Node.visiblePlaces (root : Node) : List Place := (root.places []).filter (·.visible)

variable {above : List Node} {p : Place}

mutual

/-- Each node of a tree has one place, in source order. -/
theorem Node.map_node_places (above : List Node) (node : Node) :
    (node.places above).map Place.node = node.nodes := by
  cases node with
  | mk kind span children value data =>
    rw [places, nodes, List.map_cons, map_node_placesAll]

theorem Node.map_node_placesAll (above : List Node) (nodes : List Node) :
    (placesAll above nodes).map Place.node = nodesAll nodes := by
  cases nodes with
  | nil => rfl
  | cons node rest =>
    rw [placesAll, nodesAll, List.map_append, map_node_places, map_node_placesAll]

end

mutual

/-- The places below a node lie in all that the node lies in. -/
theorem Node.suffix_of_mem_places {above : List Node} (node : Node)
    (hp : p ∈ node.places above) : above <:+ p.above := by
  cases node with
  | mk kind span children value data =>
    rw [places] at hp
    rcases List.mem_cons.mp hp with rfl | hp
    · exact List.suffix_rfl
    · exact (List.suffix_cons _ _).trans (suffix_of_mem_placesAll children hp)

theorem Node.suffix_of_mem_placesAll {above : List Node} (nodes : List Node)
    (hp : p ∈ placesAll above nodes) : above <:+ p.above := by
  cases nodes with
  | nil => cases hp
  | cons node rest =>
    rw [placesAll] at hp
    rcases List.mem_append.mp hp with hp | hp
    · exact suffix_of_mem_places node hp
    · exact suffix_of_mem_placesAll rest hp

end

/-- From a node of a tree up, each node is among the children of the next. -/
abbrev Ascends (nodes : List Node) : Prop := nodes.IsChain fun n parent => n ∈ parent.children

mutual

theorem Node.ascends_of_mem_places {above : List Node} (node : Node) (h : Ascends (node :: above))
    (hp : p ∈ node.places above) : Ascends (p.node :: p.above) := by
  cases node with
  | mk kind span children value data =>
    rw [places] at hp
    rcases List.mem_cons.mp hp with rfl | hp
    · exact h
    · refine ascends_of_mem_placesAll children (fun n hn => ?_) hp
      exact List.IsChain.cons_cons hn h

theorem Node.ascends_of_mem_placesAll {above : List Node} (nodes : List Node)
    (h : ∀ n ∈ nodes, Ascends (n :: above)) (hp : p ∈ placesAll above nodes) :
    Ascends (p.node :: p.above) := by
  cases nodes with
  | nil => cases hp
  | cons node rest =>
    rw [placesAll] at hp
    rcases List.mem_append.mp hp with hp | hp
    · exact ascends_of_mem_places node (h node List.mem_cons_self) hp
    · exact ascends_of_mem_placesAll rest (fun n hn => h n (List.mem_cons_of_mem _ hn)) hp

end

/-- The nodes above a place are the parent of its node, the parent's parent, and so on up to the
root. -/
theorem Place.ascends {root : Node} (hp : p ∈ root.places []) : Ascends (p.node :: p.above) ∧
    (p.node :: p.above).getLast? = some root := by
  refine ⟨Node.ascends_of_mem_places root (.singleton _) hp, ?_⟩
  cases root with
  | mk kind span children value data =>
    rw [Node.places] at hp
    rcases List.mem_cons.mp hp with rfl | hp
    · rfl
    · obtain ⟨near, hnear⟩ := Node.suffix_of_mem_placesAll children hp
      rw [← hnear, ← List.cons_append, List.getLast?_concat]

/-- Below a node of some kind no place is clear of such nodes. -/
theorem Node.filter_placesAll_of_any {q : Node → Bool} (h : above.any q) (nodes : List Node) :
    (placesAll above nodes).filter (fun p => p.above.all (!q ·)) = [] := by
  rw [List.filter_eq_nil_iff]
  intro p hp hclear
  obtain ⟨n, hn, hq⟩ := List.any_eq_true.mp h
  have hnot := List.all_eq_true.mp hclear n ((suffix_of_mem_placesAll nodes hp).subset hn)
  rw [hq] at hnot
  exact Bool.noConfusion hnot

/-- Nothing inside of code or front matter is visible. -/
theorem Node.filter_placesAll_of_hides (h : above.any (·.hides)) (nodes : List Node) :
    (placesAll above nodes).filter (·.visible) = [] :=
  filter_placesAll_of_any h nodes

namespace Outlook

/-- What a walk knows once it has come by further places, none of them inside of another that hides
it. -/
def passing (o : Outlook) (places : List Place) : Outlook where
  depth := o.depth
  verbatim := o.verbatim ++ (places.filter (·.node.hides)).map (·.node.span)
  headings := o.headings ++ places.filterMap (·.heading?)
  frontMatter := o.frontMatter.or ((places.find? (·.node.kind == .frontMatter)).map (·.node.span))

theorem passing_nil (o : Outlook) : o.passing [] = o := by
  simp [passing]

theorem passing_append (o : Outlook) (ps qs : List Place) :
    o.passing (ps ++ qs) = (o.passing ps).passing qs := by
  simp only [passing, List.filter_append, List.map_append, List.filterMap_append,
    List.find?_append, List.append_assoc]
  congr 1
  cases ps.find? (·.node.kind == .frontMatter) <;> cases o.frontMatter <;> simp

/-- On entry a node is noted as its place tells, and the walk goes on below what hides nothing. -/
theorem note_eq (node : Node) (o : Outlook) (hdepth : o.depth = above.length + 1) :
    note (Hook.ofKind node.kind) node o = (!node.hides, o.passing [⟨node, above⟩]) := by
  obtain ⟨kind, span, children, value, data⟩ := node
  have htop : (o.depth == 2) = (above.length == 1) := by
    rw [hdepth, Bool.eq_iff_iff, beq_iff_eq, beq_iff_eq]
    omega
  cases kind with
  | heading =>
    cases data with
    | heading depth setext =>
      simp [note, Hook.ofKind, Node.kind, Node.hides, passing, Place.heading?, Node.data,
        Node.span, htop]
    | _ => simp [note, Hook.ofKind, Node.kind, Node.hides, passing, Place.heading?, Node.data]
  | _ =>
    simp [note, Hook.ofKind, Node.kind, Node.hides, passing, Place.heading?, Node.span]

/-- Inside of a node the walk is one deeper. -/
theorem run_walk (node : Node) (o : Outlook) : (collector.walk node).run o =
    let noted := note (Hook.ofKind node.kind) node { o with depth := o.depth + 1 }
    let below := if noted.1 then ((collector.walkAll node.children).run noted.2).2 else noted.2
    ((), { below with depth := below.depth - 1 }) := by
  cases node with
  | mk kind span children value data =>
    have hbehind : ∀ noted : Bool × Outlook,
        (do if noted.1 then collector.walkAll children
            collector.exit (.mk kind span children value data) : StateM Outlook Unit).run noted.2 =
          let below := if noted.1 then ((collector.walkAll children).run noted.2).2 else noted.2
          ((), { below with depth := below.depth - 1 }) := by
      rintro ⟨goesOn, o'⟩
      cases goesOn <;> rfl
    rw [Visitor.walk]
    exact hbehind _

mutual

/-- Walking a node that nothing hides finds what its places tell, and comes out as deep as it went
in. -/
theorem walk_eq {above : List Node} (hvisible : above.all (!·.hides)) (node : Node) (o : Outlook)
    (hdepth : o.depth = above.length) :
    (collector.walk node).run o =
      ((), o.passing ((node.places above).filter (·.visible))) := by
  cases node with
  | mk kind span children value data =>
    have hplaces : ((Node.mk kind span children value data).places above).filter (·.visible) =
        [⟨.mk kind span children value data, above⟩] ++
          (Node.placesAll (.mk kind span children value data :: above) children).filter
            (·.visible) :=
      List.filter_cons_of_pos hvisible
    have hentry : ({ o with depth := o.depth + 1 } : Outlook).depth = above.length + 1 :=
      congrArg (· + 1) hdepth
    rw [hplaces, run_walk, note_eq _ _ hentry]
    cases hhides : (Node.mk kind span children value data).hides with
    | true =>
      rw [Node.filter_placesAll_of_hides (by simp [hhides])]
      rfl
    | false =>
      have hbehind : (Node.mk kind span children value data :: above).all (!·.hides) := by
        simp [hhides, hvisible]
      have hbelow := walkAll_eq hbehind children
        (passing { o with depth := o.depth + 1 } [⟨.mk kind span children value data, above⟩])
        (congrArg (· + 1) hdepth)
      rw [passing_append]
      simp only [Bool.not_false, if_true, Node.children, hbelow]
      rfl

theorem walkAll_eq {above : List Node} (hvisible : above.all (!·.hides)) (nodes : List Node)
    (o : Outlook) (hdepth : o.depth = above.length) :
    (collector.walkAll nodes).run o =
      ((), o.passing ((Node.placesAll above nodes).filter (·.visible))) := by
  cases nodes with
  | nil => exact congrArg ((), ·) (passing_nil o).symm
  | cons node rest =>
    rw [Visitor.walkAll, StateT.run_bind, walk_eq hvisible node o hdepth, Node.placesAll,
      List.filter_append, passing_append]
    exact walkAll_eq hvisible rest _ hdepth

end

/-- A walk over a whole tree finds what its visible places tell. -/
theorem ofTree_eq (root : Node) : ofTree root = empty.passing root.visiblePlaces :=
  congrArg Prod.snd (walk_eq rfl root empty rfl)

end Outlook

section

variable {m : Type → Type} [Monad m]

/-- A visitor that could end a walk early, and never does. -/
def Visitor.withBreak (v : Visitor m) : Visitor (ExceptT Unit m) where
  enter n := liftM (v.enter n)
  visit h n := liftM (v.visit h n)
  exit n := liftM (v.exit n)

variable [LawfulMonad m]

mutual

theorem Visitor.walk_withBreak (v : Visitor m) (node : Node) :
    v.withBreak.walk node = liftM (v.walk node) := by
  cases node with
  | mk kind span children value data =>
    have hbelow := walkAll_withBreak v children
    rw [walk, walk, liftM_bind, liftM_bind]
    refine congrArg _ (funext fun _ => congrArg _ (funext fun goesOn => ?_))
    cases goesOn with
    | true =>
      rw [if_pos rfl, if_pos rfl, liftM_bind, hbelow]
      rfl
    | false => rfl

theorem Visitor.walkAll_withBreak (v : Visitor m) (nodes : List Node) :
    v.withBreak.walkAll nodes = liftM (v.walkAll nodes) := by
  cases nodes with
  | nil => rw [walkAll, walkAll, liftM_pure]
  | cons node rest =>
    rw [walkAll, walkAll, walk_withBreak, walkAll_withBreak, liftM_bind]

end

end

/-- What a place lies in is the root alone if it is one node. -/
theorem Place.above_eq_root_iff {root : Node} (hp : p ∈ root.places []) :
    p.above.length = 1 ↔ p.above = [root] := by
  refine ⟨fun hlength => ?_, fun habove => by rw [habove]; rfl⟩
  obtain ⟨parent, habove⟩ := List.length_eq_one_iff.mp hlength
  have hlast := (Place.ascends hp).2
  rw [habove] at hlast
  rw [habove, show parent = root by simpa using hlast]

namespace Snapshot

theorem verbatim_iff {path : String} {source : Text} {root : Node} {l : Line}
    (hl : l ∈ (ofTree path source root).lines) : l.verbatim = true ↔
      ∃ p ∈ root.visiblePlaces, p.node.hides = true ∧
        l.start < p.node.span.stop ∧ p.node.span.start < l.stop := by
  obtain ⟨k, -, rfl⟩ := List.mem_map.mp hl
  have hspans : ∀ span, span ∈ (Outlook.ofTree root).verbatim ↔
      ∃ p ∈ root.visiblePlaces, p.node.hides = true ∧ p.node.span = span := by
    intro span
    simp [Outlook.ofTree_eq, Outlook.passing, Outlook.empty, and_assoc]
  simp only [List.any_eq_true, Bool.and_eq_true, decide_eq_true_eq, hspans]
  constructor
  · rintro ⟨_, ⟨p, hp, hhides, rfl⟩, hshares⟩
    exact ⟨p, hp, hhides, hshares⟩
  · rintro ⟨p, hp, hhides, hshares⟩
    exact ⟨_, ⟨p, hp, hhides, rfl⟩, hshares⟩

/-- The walk behind a snapshot goes through to its end and comes out where it went in. A snapshot
has one heading, in source order, for each visible node that is a heading with its data, and tells
those that lie in the root alone. A line is verbatim where it shares a byte with visible code or
front matter, and the front matter is the first that is visible. -/
theorem reads_tree (path : String) (source : Text) (root : Node) :
    let s := ofTree path source root
    (((Outlook.collector.withBreak.walk root).run.run Outlook.empty =
        (.ok (), Outlook.ofTree root)) ∧ (Outlook.ofTree root).depth = 0) ∧
    (s.headings = (root.visiblePlaces.filterMap (·.heading?)).map
        (fun (span, depth, setext, topLevel) =>
          ⟨span, depth, setext, s.lineIndex span.start, topLevel⟩) ∧
      ∀ p ∈ root.visiblePlaces, p.above.length = 1 ↔ p.above = [root]) ∧
    (∀ l ∈ s.lines, l.verbatim = true ↔ ∃ p ∈ root.visiblePlaces, p.node.hides = true ∧
      l.start < p.node.span.stop ∧ p.node.span.start < l.stop) ∧
    s.frontMatter =
      (root.visiblePlaces.find? (·.node.kind == .frontMatter)).map (·.node.span) := by
  intro s
  have hwalk : (Outlook.collector.withBreak.walk root).run.run Outlook.empty =
      (.ok (), Outlook.ofTree root) := by
    rw [Visitor.walk_withBreak]
    rfl
  refine ⟨⟨hwalk, by rw [Outlook.ofTree_eq]; rfl⟩, ⟨?_, fun p hp => ?_⟩, fun l => verbatim_iff, ?_⟩
  · have hheadings : (Outlook.ofTree root).headings =
        root.visiblePlaces.filterMap (·.heading?) := by
      rw [Outlook.ofTree_eq]
      rfl
    exact congrArg (List.map _) hheadings
  · exact Place.above_eq_root_iff (List.mem_filter.mp hp).1
  · change (Outlook.ofTree root).frontMatter = _
    rw [Outlook.ofTree_eq]
    rfl

end Snapshot
end Tidymark
